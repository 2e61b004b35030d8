import PairEdit.Proofs.Silence

/-!
# Errors that come in

A message can be refused at many points: when it is read, when its addresses are looked at, in
the text of an offer, before and after an edit is transformed, and by the document.  The main
theorem says that an error is all or nothing.  Either the party is as it was, or the session or
offer with the sender is gone, and host and peer are told.  Only a document that makes calls of
its own before it refuses an edit may have changed more, and then the same holds of the world
that these calls left.
-/

namespace PairEdit.Session

open World

/-! ## All or nothing -/

/-- A party is as it was, and so are the documents.  Its host may have been told that an offer
of the sender was refused. -/
structure Untouched (p : Nat) (sender : PeerId) (w w' : World) : Prop where
  phase : w'.phase p = w.phase p
  document : ∀ d, w'.document d = w.document d
  network : w'.network = w.network
  events : (w'.party p).events = (w.party p).events ∨
    (w'.party p).events = (w.party p).events ++ [.refused sender]

/-- The session or offer of a party with a peer is gone without a trace in the documents.  Host
and peer are told, the peer with one message if it can be sent. -/
structure TornDown (p : Nat) (peer : PeerId) (w w' : World) : Prop where
  phase : w'.phase p = .idle
  not_hasCapture : ∀ d id epoch, ¬ w'.HasCapture d id p epoch
  text : ∀ d, (w'.document d).text = (w.document d).text
  events : (w'.party p).events = (w.party p).events ++ [.ended peer .invalidOperation]
  sent : ∃ target : Option Nat, (∀ id, target = some id → (w.network.endpoint id).peer = peer) ∧
    ∀ id, (w'.network.endpoint id).queue = (w.network.endpoint id).queue ++
      if target = some id then [.message (w.identity p) Message.stop.payload] else []

/-- It cannot be both. -/
theorem Untouched.not_tornDown {p : Nat} {sender peer : PeerId} {w w' : World}
    (h : Untouched p sender w w') : ¬ TornDown p peer w w' := by
  intro h'
  have hevents := h'.events
  obtain hsame | hrefused := h.events
  · rw [hsame] at hevents
    simp at hevents
  · rw [hrefused] at hevents
    simp at hevents

namespace TornDown

variable {w w₁ w' : World} {p : Nat} {peer : PeerId}

theorem of_silent (h : Silent w w₁) (h' : TornDown p peer w₁ w') : TornDown p peer w w' where
  phase := h'.phase
  not_hasCapture := h'.not_hasCapture
  text d := (h'.text d).trans (h.text d)
  events := by rw [h'.events, h.events]
  sent := by
    obtain ⟨target, htarget, hqueue⟩ := h'.sent
    refine ⟨target, fun id hid => (h.peer id).symm.trans (htarget id hid), fun id => ?_⟩
    rw [hqueue, h.queue, h.identity_eq]

theorem setWriting (h : TornDown p peer w w') (q : Nat) (writing : Bool) :
    TornDown p peer w (w'.setWriting q writing) where
  phase := (Silent.setWriting w' q writing).idle p h.phase
  not_hasCapture := h.not_hasCapture
  text := h.text
  events := ((Silent.setWriting w' q writing).events p).trans h.events
  sent := h.sent

/-- To leave, to tell the host, and to tell the peer. -/
theorem of_farewell (h : w.Arises) :
    TornDown p peer w
      (((w.leave p).emit p (.ended peer .invalidOperation)).send p peer .stop).2 := by
  have hsteps := worldSteps_farewell w p peer (.ended peer .invalidOperation)
  have hleave := Silent.leave w p
  have hidle := phase_leave_self w p
  have hidentity : ((w.leave p).emit p (.ended peer .invalidOperation)).identity p =
      w.identity p := by
    rw [← hleave.identity_eq]
    simp [identity, emit]
  have hphase : (((w.leave p).emit p (.ended peer .invalidOperation)).send p peer .stop).2.phase
      p = .idle := by
    rw [phase_send, phase_emit, hidle]
  exact {
    phase := hphase
    not_hasCapture := (h.worldSteps hsteps).subscribed.not_hasCapture hphase
    text := fun d => by rw [document_send, document_emit, hleave.text]
    events := by rw [party_send, events_emit_self, hleave.events]
    sent := by
      refine ⟨((w.leave p).emit p (.ended peer .invalidOperation)).sendTarget p peer .stop,
        fun id hid => (hleave.peer id).symm.trans (of_sendTarget hid).2, fun id => ?_⟩
      rw [endpoint_send, network_emit, hleave.queue, hidentity] }

theorem of_endSession (h : w.Arises) {l : Live} (hlive : w.phase p = .live l) :
    TornDown p l.participants.other w (w.endSession p l.epoch .invalidOperation) := by
  simp only [endSession, hlive, if_pos]
  exact of_farewell h

theorem of_endOffer (h : w.Arises) {o : Offered} (hoffered : w.phase p = .offered o) :
    TornDown p o.participants.initiator w
      (w.endOffer p o.participants.initiator .invalidOperation) := by
  simp only [endOffer, hoffered, if_pos]
  exact of_farewell h

/-- The offer ends after an update that was applied to its text all the same. -/
theorem of_absorb (h : w.Arises) {o : Offered} (hoffered : w.phase p = .offered o) (text : Text)
    (n : Nat) :
    TornDown p o.participants.initiator w
      ((w.setPhase p (.offered { o with buffer := text, buffered := n })).endOffer p
        o.participants.initiator .invalidOperation) := by
  have hsteps : WorldSteps w (w.setPhase p (.offered { o with buffer := text, buffered := n })) :=
    .single (.absorb w p o text n hoffered)
  have hsilent : Silent w (w.setPhase p (.offered { o with buffer := text, buffered := n })) :=
    .setPhase w fun hidle => absurd (hoffered.symm.trans hidle) nofun
  exact (TornDown.of_endOffer (h.worldSteps hsteps) (phase_setPhase_self ..)).of_silent hsilent

end TornDown

/-! ## Where errors come from -/

/-- A live session's document has made the calls of its hook and then refused an edit of the
peer.  The second world is the one that the calls left. -/
structure RefusedAfterCalls (depth p : Nat) (l : Live) (w w' : World) : Prop where
  live : w.phase p = .live l
  calls : ∃ hook s, (w.surfaces.get l.document).hook = some hook ∧ hook.calls ≠ [] ∧
    makeAll (nestedCaller depth) hook.calls
      (((w.suspend p l s).setWriting p true).fire l.document hook) = .ok w'

/-- What a party leaves when it handled a message of a peer and came to an error. -/
inductive Refused (depth p : Nat) (sender : PeerId) (w w' : World) : Prop where
  | untouched (h : Untouched p sender w w')
  | tornDown (hother : (w.phase p).other = some sender) (h : TornDown p sender w w')
  /-- The session outlasted the calls that the document made. -/
  | tornDownAfterCalls (l : Live) (w₁ : World) (hother : l.participants.other = sender)
      (hcalls : RefusedAfterCalls depth p l w w₁) (h : TornDown p sender w₁ w')
  /-- The calls that the document made ended the session. -/
  | endedByCalls (l : Live) (w₁ : World) (hother : l.participants.other = sender)
      (hcalls : RefusedAfterCalls depth p l w w₁)
      (hended : (w₁.phase p).isEpoch l.epoch = false) (h : w' = w₁.setWriting p false)

variable {w w' : World} {p depth d : Nat} {sender : PeerId} {reason : ShareError}

theorem exists_live_of_isEpoch {epoch : Nat} (h : (w.phase p).isEpoch epoch = true) :
    ∃ l, w.phase p = .live l ∧ l.epoch = epoch := by
  cases hphase : w.phase p with
  | live l =>
      rw [hphase] at h
      exact ⟨l, rfl, beq_iff_eq.1 h⟩
  | idle | offered =>
      rw [hphase] at h
      cases h

theorem resume_of_isEpoch_eq_false {epoch : Nat} (h : (w.phase p).isEpoch epoch = false) :
    w.resume p epoch = w := by
  obtain ⟨heq, -⟩ | ⟨l, hlive, hepoch, -⟩ := w.resume_cases p epoch
  · exact heq
  · rw [hlive] at h
    exact absurd hepoch (beq_eq_false_iff_ne.1 h)

theorem endSession_of_isEpoch_eq_false {epoch : Nat} (reason : EndReason)
    (h : (w.phase p).isEpoch epoch = false) : w.endSession p epoch reason = w := by
  unfold endSession
  split
  · next l hlive =>
      rw [hlive] at h
      exact if_neg fun heq => beq_eq_false_iff_ne.1 h heq
  · rfl

theorem exists_live_resume {l : Live} (hlive : w.phase p = .live l) (epoch : Nat) :
    ∃ capture, (w.resume p epoch).phase p = .live { l with capture := capture } := by
  simp only [resume, hlive]
  split
  · exact ⟨_, phase_setPhase_self ..⟩
  · exact ⟨l.capture, hlive⟩

/-- After a failed write the session is torn down, when it is still there. -/
theorem TornDown.of_failed_write (h : w.Arises) {l : Live} (hlive : w.phase p = .live l) :
    TornDown p l.participants.other w
      (((w.resume p l.epoch).endSession p l.epoch .invalidOperation).setWriting p false) := by
  obtain ⟨capture, hresumed⟩ := exists_live_resume hlive l.epoch
  have hsteps : WorldSteps w (w.resume p l.epoch) := .single (.resume w p l.epoch)
  have hended := TornDown.of_endSession (h.worldSteps hsteps) hresumed
  exact (hended.of_silent (.resume w p l.epoch)).setWriting p false

/-- What a party leaves whose document did not take in what was to be written, in a session that
was live when the write began.  The second world is the one that the calls of the document left,
if it made any. -/
inductive WriteFailed (depth p d : Nat) (l : Live) (w w₁ w' : World) : Prop where
  | tornDown (h : TornDown p l.participants.other w w')
  | afterCalls (hook : Hook) (hhook : (w.surfaces.get d).hook = some hook)
      (hcalls : hook.calls ≠ [])
      (hmade : makeAll (nestedCaller depth) hook.calls (w.fire d hook) = .ok w₁)
      (h : TornDown p l.participants.other w₁ w' ∨
        (w₁.phase p).isEpoch l.epoch = false ∧ w' = w₁.setWriting p false)

theorem WriteFailed.of_write (harises : w.Arises) {l : Live} {e : Edit} {reason : DocumentError}
    {w₁ : World} (hlive : w.phase p = .live l)
    (h : World.write depth d e w = .ok (.error reason, w₁)) :
    WriteFailed depth p d l w w₁
      (((w₁.resume p l.epoch).endSession p l.epoch .invalidOperation).setWriting p false) := by
  have hhooks : HookRun (nestedCaller depth) d w w₁ := by
    rw [write_eq] at h
    obtain ⟨v, hhooks, ⟨-, rfl⟩ | ⟨hresult, -⟩⟩ := exists_hookRun_of_writeVia h
    · exact hhooks
    · cases hresult
  cases hhooks with
  | none => exact .tornDown (.of_failed_write harises hlive)
  | some hook hhook hmade =>
      by_cases hcalls : hook.calls = []
      · rw [hcalls] at hmade
        cases hmade
        have hended : TornDown p l.participants.other (w.fire d hook) _ :=
          .of_failed_write (harises.worldSteps (worldSteps_fire ..)) hlive
        exact .tornDown (hended.of_silent (.fire ..))
      · refine .afterCalls hook hhook hcalls hmade ?_
        have hsteps := (worldSteps_fire w d hook).trans
          (worldSteps_makeAll (worldSteps_nestedCaller depth) hmade)
        cases hepoch : (w₁.phase p).isEpoch l.epoch with
        | false =>
            refine .inr ⟨rfl, ?_⟩
            rw [resume_of_isEpoch_eq_false hepoch, endSession_of_isEpoch_eq_false _ hepoch]
        | true =>
            obtain ⟨l₁, hlive₁, hepoch₁⟩ := exists_live_of_isEpoch hepoch
            have hparticipants := harises.subscribed.participants_eq hsteps hlive hlive₁ hepoch₁
            have hended := TornDown.of_failed_write (harises.worldSteps hsteps) hlive₁
            rw [hparticipants, hepoch₁] at hended
            exact .inl hended

/-! ## Every error -/

/-- A document that refuses an edit of the peer takes the session down, or has made calls that
did. -/
theorem Refused.of_failed_write (harises : w.Arises) {l : Live} {s : Strategy} {e : Edit}
    {reason : DocumentError} {w₁ : World} (hlive : w.phase p = .live l)
    (h : World.write depth l.document e ((w.suspend p l s).setWriting p true) =
      .ok (.error reason, w₁)) :
    Refused depth p l.participants.other w
      (((w₁.resume p l.epoch).endSession p l.epoch .invalidOperation).setWriting p false) := by
  have hv : ((w.suspend p l s).setWriting p true).Arises :=
    .writing (.worldStep harises (.suspend w p l s hlive)) p true
  have hsilent : Silent w ((w.suspend p l s).setWriting p true) :=
    (Silent.suspend w s hlive).trans (.setWriting ..)
  have hsuspended : ((w.suspend p l s).setWriting p true).phase p =
      .live { l with strategy := s, confirmed := true, capture := none } := by
    rw [phase_setWriting, phase_suspend_self]
  cases WriteFailed.of_write hv hsuspended h with
  | tornDown h => exact .tornDown (by rw [hlive]; rfl) (h.of_silent hsilent)
  | afterCalls hook hhook hcalls hmade h =>
      have hhook' : (w.surfaces.get l.document).hook = some hook :=
        (hook_detach (w.setPhase p _) (.live l) l.document).symm.trans hhook
      have hafter : RefusedAfterCalls depth p l w w₁ := ⟨hlive, hook, s, hhook', hcalls, hmade⟩
      obtain htorn | ⟨hended, heq⟩ := h
      · exact .tornDownAfterCalls l w₁ rfl hafter htorn
      · exact .endedByCalls l w₁ rfl hafter hended heq

theorem Refused.of_handleStart {offer : Start}
    (h : w.handleStart p sender offer = (.error reason, w')) : Refused depth p sender w w' := by
  have hself : Untouched p sender w w := ⟨rfl, fun _ => rfl, rfl, .inl rfl⟩
  obtain ⟨-, _, heq⟩ | ⟨-, -, ⟨-, heq⟩ | ⟨-, heq⟩⟩ := w.handleStart_cases p sender offer
  · cases heq.symm.trans h
    exact .untouched hself
  · cases heq.symm.trans h
  · have hsame : w' = w.emit p (.refused sender) := by
      obtain ⟨_, hsend, -⟩ | ⟨_, hsend, -⟩ :=
        (w.emit p (.refused sender)).send_cases p sender .stop
      · exact (congrArg Prod.snd ((heq.trans hsend).symm.trans h)).symm
      · cases (heq.trans hsend).symm.trans h
    subst hsame
    exact .untouched ⟨phase_emit_self .., fun _ => rfl, rfl, .inr (events_emit_self ..)⟩

theorem Refused.of_handleUpdate (harises : w.Arises) {u : Update}
    (h : w.handleUpdate (World.write depth) p sender u = .ok (.error reason, w')) :
    Refused depth p sender w w' := by
  cases (UpdateRun.of_handleUpdate h).2 with
  | outsider hbusy hother =>
      exact .untouched ⟨phase_setPhase_self .., fun _ => rfl, rfl,
        .inl (events_setPhase_self ..)⟩
  | endOffer o text n reason hoffered hother =>
      subst hother
      exact .tornDown (by rw [hoffered]; rfl) (.of_absorb harises hoffered text n)
  | endSession l s reason hlive hother =>
      subst hother
      have hsteps : WorldSteps w (w.setPhase p (.live { l with strategy := s })) :=
        .single (.retune w p l s hlive)
      have hsilent : Silent w (w.setPhase p (.live { l with strategy := s })) :=
        .setPhase w fun hidle => absurd (hlive.symm.trans hidle) nofun
      have hended := TornDown.of_endSession (harises.worldSteps hsteps) (phase_setPhase_self ..)
      exact .tornDown (by rw [hlive]; rfl) (hended.of_silent hsilent)
  | refused l s e hlive hother _ hwritten =>
      subst hother
      exact .of_failed_write harises hlive hwritten

theorem Refused.of_handleMessage (harises : w.Arises) {payload : Bytes}
    (h : w.handleMessage (World.write depth) p sender payload = .ok (.error reason, w')) :
    Refused depth p sender w w' := by
  generalize hresult : Except.error reason = result at h
  cases MessageRun.of_handleMessage h with
  | unreadable => exact .untouched ⟨rfl, fun _ => rfl, rfl, .inl rfl⟩
  | start => exact .of_handleStart (Prod.ext hresult.symm rfl)
  | update _ hupdate =>
      subst hresult
      exact .of_handleUpdate harises hupdate
  | stop => cases hresult

/-- A session that outlasts an error is as it was: nothing of it was retired, rewritten or
counted. -/
theorem Refused.eq_of_epoch_eq (h : Refused depth p sender w w') {l l' : Live}
    (hlive : w.phase p = .live l) (hlive' : w'.phase p = .live l') (hepoch : l'.epoch = l.epoch) :
    l' = l := by
  have hidle : ∀ {peer v}, TornDown p peer v w' → l' = l := by
    intro peer v htorn
    rw [htorn.phase] at hlive'
    cases hlive'
  cases h with
  | untouched h =>
      rw [h.phase, hlive] at hlive'
      cases hlive'
      rfl
  | tornDown hother h => exact hidle h
  | tornDownAfterCalls l₁ w₁ hother hcalls h => exact hidle h
  | endedByCalls l₁ w₁ hother hcalls hended h =>
      have hlive₁ : w₁.phase p = .live l' := by
        rw [← hlive', h, phase_setWriting]
      obtain rfl : l = l₁ := Phase.live.inj (hlive.symm.trans hcalls.live)
      rw [hlive₁] at hended
      exact absurd hepoch (beq_eq_false_iff_ne.1 hended)

/-- A message that leads to an error leaves the party as it was, or the session or offer with
its sender is gone; it is never both, and no session lives on with a part of the message taken
in.  When the document made calls before it refused an edit, this is said of the world they
left, and the session may have ended with them already. -/
theorem error_all_or_nothing (harises : w.Arises) {payload : Bytes}
    (h : w.handleMessage (World.write depth) p sender payload = .ok (.error reason, w')) :
    Refused depth p sender w w' ∧
      (∀ peer, ¬ (Untouched p sender w w' ∧ TornDown p peer w w')) ∧
      ∀ l l', w.phase p = .live l → w'.phase p = .live l' → l'.epoch = l.epoch → l' = l := by
  have hrefused := Refused.of_handleMessage harises h
  exact ⟨hrefused, fun peer hboth => hboth.1.not_tornDown hboth.2,
    fun l l' => hrefused.eq_of_epoch_eq⟩

/-- An edit past the end of the text takes the session down. -/
theorem error_all_or_nothing_past_the_end :
    let bob : PeerId := .ofByte 0xB0
    let payload := Message.payload (.update ⟨⟨7, 0, ['X']⟩, 1, 0⟩)
    ∃ w w' reason, w.Arises ∧
      w.handleMessage (World.write 0) 0 bob payload = .ok (.error reason, w') ∧
      Refused 0 0 bob w w' ∧ (w'.party 0).events =
        [.started bob .initiator, .ended bob .invalidOperation] := by
  intro bob payload
  have hrun : ∃ w ∈ ((Pair.idle ['a', 'b'] .usual).world.runAll
        [.start 0 (.ofByte 0xA1) none bob [] 0, .handleNext 1, .accept 1 1]).toOption,
      ∃ r ∈ (w.handleMessage (World.write 0) 0 bob payload).toOption,
        r.1.toOption = none ∧ (r.2.party 0).events =
          [.started bob .initiator, .ended bob .invalidOperation] := by
    decide +kernel
  obtain ⟨w, hw, ⟨result, w'⟩, hresult, hnone, hevents⟩ := hrun
  have harises := (Arises.idle ['a', 'b'] .usual).runAll (eq_ok_of_mem_toOption hw)
  cases result with
  | ok => cases hnone
  | error reason =>
      have hmessage := eq_ok_of_mem_toOption hresult
      exact ⟨w, w', reason, harises, hmessage, (error_all_or_nothing harises hmessage).1, hevents⟩

/-- A document stops the session before it refuses an edit, and its text is as before.  That is
an error after which the party is neither as it was, nor torn down for an invalid edit. -/
theorem stopped_by_document :
    let alice : PeerId := .ofByte 0xA1
    let payload := Message.payload (.update ⟨⟨0, 1, []⟩, 1, 0⟩)
    ∃ w w' reason, w.Arises ∧
      w.handleMessage (World.write w.pendingReactions) 1 alice payload =
        .ok (.error reason, w') ∧
      (w'.document 1).text = (w.document 1).text ∧ ¬ Untouched 1 alice w w' ∧
      ∀ peer, ¬ TornDown 1 peer w w' := by
  intro alice payload
  have hrun : ∃ v ∈ ((Pair.idle ['a', 'b'] .usual).world.runAll
        [.start 0 alice none (.ofByte 0xB0) [] 0, .handleNext 1, .accept 1 1]).toOption,
      let w := v.arm 1 ⟨[.stop 1], some "no"⟩
      ∃ r ∈ (w.handleMessage (World.write w.pendingReactions) 1 alice payload).toOption,
        r.1.toOption = none ∧ (r.2.document 1).text = (w.document 1).text ∧
          (r.2.party 1).events = (w.party 1).events ++ [.ended alice .localStop] := by
    decide +kernel
  obtain ⟨v, hv, ⟨result, w'⟩, hresult, hnone, htext, hevents⟩ := hrun
  have harises := ((Arises.idle ['a', 'b'] .usual).runAll (eq_ok_of_mem_toOption hv)).arm 1
    ⟨[.stop 1], some "no"⟩
  cases result with
  | ok => cases hnone
  | error reason =>
      refine ⟨_, w', reason, harises, eq_ok_of_mem_toOption hresult, htext, fun h => ?_,
        fun peer h => ?_⟩
      · obtain hsame | hrefused := h.events
        · simp [hevents] at hsame
        · simp [hevents] at hrefused
      · have hended := h.events
        simp [hevents] at hended

end PairEdit.Session
