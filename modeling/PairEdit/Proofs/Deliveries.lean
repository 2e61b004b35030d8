import PairEdit.Proofs.Turns

/-!
# What a party does with what arrives

The party takes the oldest message off its queue.  It cannot read it, or has no use for it,
or does what the message asks for; each of these is a turn.  With the calls of the host this
makes every call a turn.
-/

namespace PairEdit.Session

open Function

variable {ids : Fin 2 → PeerId} {configs : Fin 2 → Config} {posts : Fin 2 → Post}
variable {w w' : World} {p : Fin 2} {depth : Nat} {rest : List Message}

namespace Wired

/-- The offer is kept by an idle party, and refused by any other. -/
theorem handleStart (h : Wired ids configs (update posts p ((posts p).setInbox rest)) w)
    (hids : ids 0 ≠ ids 1) {offer : Start} (hsender : offer.senderId = ids p.rev)
    (hreceiver : offer.receiverId = ids p) (hinbox : (posts p).inbox = .start offer :: rest)
    (hdecode : Message.decode (configs p).limits (Message.start offer).payload =
      .ok (.start offer)) (written : Option Nat) :
    ∃ out posts', Wired ids configs posts' (w.handleStart p (ids p.rev) offer).2 ∧
      Moves ids configs p (some (.start offer)) written posts out posts' := by
  rw [World.handleStart, if_neg (by simp [hsender]),
    if_neg (by simp [hreceiver, h.identity_eq p]), h.phase_eq, update_self, Post.setInbox_phase]
  by_cases hphase : (posts p).phase = .idle
  · have hoffered := h.setPhase p (.offered ⟨⟨ids p, ids p.rev, ids p⟩, offer.senderName,
      offer.fileName, offer.documentText, 0⟩) (by simp)
    rw [update_self, update_idem] at hoffered
    rw [hphase]
    dsimp only
    rw [hsender, hreceiver]
    refine ⟨_, _, hoffered.emit p _, .of_quiet hinbox rfl ?_⟩
    rw [hphase]
    exact .isOffered hdecode
  · have hsend := (h.emit p (.refused (ids p.rev))).send hids p .stop
    rw [update_of_ne (rev_ne p)] at hsend
    refine ⟨_, _, ?_, .of_silence (s := (posts p).setInbox rest) hinbox rfl
      (.refuses hphase hdecode) (not_update_mem_leaving_stop _)⟩
    cases hcase : (posts p).phase with
    | idle => exact absurd hcase hphase
    | offered | live => exact hsend

/-- A party whose peer has stopped is idle. -/
theorem handleStop (h : Wired ids configs (update posts p ((posts p).setInbox rest)) w)
    (hids : ids 0 ≠ ids 1) (hproper : (posts p).phase.Proper ids p)
    (hinbox : (posts p).inbox = .stop :: rest)
    (hdecode : Message.decode (configs p).limits Message.stop.payload = .ok .stop)
    (written : Option Nat) :
    ∃ out posts', Wired ids configs posts' (w.handleStop p (ids p.rev)) ∧
      Moves ids configs p (some .stop) written posts out posts' := by
  have hleave := (h.leave p).emit p (.ended (ids p.rev) .peerStopped)
  rw [update_self, update_idem] at hleave
  rw [World.handleStop, h.phase_eq, update_self, Post.setInbox_phase]
  by_cases hphase : (posts p).phase = .idle
  · rw [hphase, if_neg (by simp [Phase.other])]
    refine ⟨_, _, h, .of_quiet hinbox rfl ?_⟩
    rw [Post.setInbox_phase, hphase]
    exact .ignores hdecode rfl
  · rw [if_pos (hproper.other_eq hids hphase)]
    exact ⟨_, _, hleave, .of_quiet hinbox rfl (.leaves hphase hdecode)⟩

/-- A session whose strategy has received an update is suspended while its edit is written. -/
theorem suspend (h : Wired ids configs (update posts p ((posts p).setInbox rest)) w) {l : Live}
    (hlive : (posts p).phase = .live l) (s : Strategy) :
    Wired ids configs (update posts p (((posts p).setInbox rest).setPhase
      (.live { l with strategy := s, confirmed := true, capture := none }))) (w.suspend p l s) := by
  have hset := h.setLive (l := l) { l with strategy := s, confirmed := true, capture := none }
    (by rw [update_self, Post.setInbox_phase, hlive]) rfl rfl
  rw [update_self, update_idem] at hset
  exact hset.detach (.live l)

/-- A session that was suspended goes on after the write, unless the document refuses the edit. -/
theorem write_suspended (h : Wired ids configs (update posts p ((posts p).setInbox rest)) w)
    (hids : ids 0 ≠ ids 1) (hproper : ∀ q, (posts q).phase.Proper ids q) {l : Live}
    (hlive : (posts p).phase = .live l) (hepoch : l.epoch ≤ (posts p).epochs) {u : Update}
    {e : Edit} {s : Strategy} (hreceive : l.strategy.receive? u = some (e, s))
    {result : Except DocumentError Unit} {v : World}
    (hwritten : World.write depth l.document e ((w.suspend p l s).setWriting p true) =
      .ok (result, v)) :
    (∃ reason, result = .error reason ∧ ∀ event, Wired ids configs
        (update (update posts p (((posts p).setInbox rest).setPhase .idle)) p.rev
          ((posts p.rev).setInbox
            ((posts p.rev).inbox ++ Message.stop.leaving (configs p).limits)))
        ((v.resume p l.epoch).endSession p l.epoch event)) ∨
    result = .ok () ∧ ∃ out posts₂ l' capture,
      BothSpeak configs l.document (update posts p (((posts p).setInbox rest).setPhase
        (.live { l with strategy := s, confirmed := true, capture := none }))) out posts₂ ∧
      Speaks (configs p).limits
        (.live { l with strategy := s, confirmed := true, capture := none }) (out p) (.live l') ∧
      l'.document = l.document ∧
      Wired ids configs
        (update posts₂ p ((posts₂ p).setPhase (.live { l' with capture := capture })))
        (v.resume p l.epoch) := by
  have hself := hproper p
  rw [hlive] at hself
  exact ((h.suspend hlive s).setWriting p true).speak_and_resume hids hproper rfl
    ⟨hself.1, hself.2.receive? hreceive⟩ hepoch hwritten

/-- An update whose edit the document takes is a turn.  The party may hear of its peer for the
first time with it. -/
theorem moves_of_written (h : Wired ids configs (update posts p ((posts p).setInbox rest)) w)
    (hids : ids 0 ≠ ids 1) (hproper : ∀ q, (posts q).phase.Proper ids q) {l : Live}
    (hlive : (posts p).phase = .live l) (hepoch : l.epoch ≤ (posts p).epochs) {u : Update}
    {e : Edit} {s : Strategy} (hinbox : (posts p).inbox = .update u :: rest)
    (hdecode : Message.decode (configs p).limits (Message.update u).payload = .ok (.update u))
    (hreceive : l.strategy.receive? u = some (e, s)) {v : World}
    (hwritten : World.write depth l.document e ((w.suspend p l s).setWriting p true) =
      .ok (.ok (), v)) :
    ∃ out posts', Wired ids configs posts'
        ((if l.confirmed then v.resume p l.epoch
          else (v.resume p l.epoch).emit p (.confirmed (ids p.rev))).setWriting p false) ∧
      Moves ids configs p (some (.update u)) (posts p).phase.document posts out posts' := by
  obtain ⟨reason, herror, -⟩ | ⟨-, out, posts₂, l', capture, hboth, hspeaks, hdocument, hw₂⟩ :=
    h.write_suspended hids hproper hlive hepoch hreceive hwritten
  · cases herror
  · have hconfirmed : Wired ids configs
        (update posts₂ p ((posts₂ p).setPhase (.live { l' with capture := capture })))
        (if l.confirmed then v.resume p l.epoch
          else (v.resume p l.epoch).emit p (.confirmed (ids p.rev))) := by
      cases l.confirmed with
      | false => exact hw₂.emit p _
      | true => exact hw₂
    have hwrote : (posts p).phase.document = some l.document := by
      rw [hlive]
      rfl
    rw [hwrote]
    refine ⟨out, _, hconfirmed.setWriting p false,
      .of_bothSpeak hboth hinbox rfl ?_ rfl fun _ => congrArg some hdocument⟩
    rw [hlive]
    exact .applies hdecode hreceive hspeaks

/-- What an update comes to is a turn: it changes the offered text or the document, or it ends the
session. -/
theorem moves_of_updateRun (h : Wired ids configs (update posts p ((posts p).setInbox rest)) w)
    (hids : ids 0 ≠ ids 1) (hproper : ∀ q, (posts q).phase.Proper ids q)
    (hepoch : ∀ l, (posts p).phase = .live l → l.epoch ≤ (posts p).epochs)
    {u : Update} (hinbox : (posts p).inbox = .update u :: rest)
    (hdecode : Message.decode (configs p).limits (Message.update u).payload = .ok (.update u))
    {result : Except ShareError Unit}
    (hrun : UpdateRun (World.write depth) p (ids p.rev) u w result w') :
    ∃ out posts', Wired ids configs posts' w' ∧
      Moves ids configs p (some (.update u)) (posts p).phase.document posts out posts' := by
  have hphase : w.phase p = (posts p).phase := by
    rw [h.phase_eq, update_self, Post.setInbox_phase]
  cases hrun with
  | ignored hidle =>
      rw [hphase] at hidle
      have hset := h.setPhase p .idle (by simp)
      rw [update_self, update_idem] at hset
      rw [hphase, hidle]
      refine ⟨_, _, hset, .of_quiet hinbox rfl ?_⟩
      rw [hidle]
      exact .ignores hdecode rfl
  | outsider hbusy hother =>
      rw [hphase] at hbusy hother
      exact absurd ((hproper p).other_eq hids hbusy) hother
  | buffered o text n hoffered hother habsorb =>
      rw [hphase] at hoffered
      rw [h.limits_eq] at habsorb
      have hset := h.setPhase p (.offered { o with buffer := text, buffered := n }) (by simp)
      rw [update_self, update_idem] at hset
      refine ⟨_, _, hset, .of_quiet hinbox rfl ?_⟩
      rw [hoffered]
      exact .absorbs hdecode habsorb
  | endOffer o text n reason hoffered hother =>
      rw [hphase] at hoffered
      have hset := h.setPhase p (.offered { o with buffer := text, buffered := n }) (by simp)
      have hend := hset.endOffer hids (o := { o with buffer := text, buffered := n })
        (by rw [update_self, Post.setPhase_phase]) hother .invalidOperation
      rw [update_self, update_idem, update_self, update_idem, update_of_ne (rev_ne p),
        update_of_ne (rev_ne p)] at hend
      exact ⟨_, _, hend, .of_silence hinbox rfl (.breaks (by simp [hoffered]) hdecode)
        (not_update_mem_leaving_stop _)⟩
  | endSession l s reason hlive hother =>
      rw [hphase] at hlive
      have hset := h.setLive (l := l) { l with strategy := s }
        (by rw [update_self, Post.setInbox_phase, hlive]) rfl rfl
      have hend := hset.endSession hids (l := { l with strategy := s })
        (by rw [update_self, Post.setPhase_phase]) hother .invalidOperation
      rw [update_self, update_idem, update_self, update_idem, update_of_ne (rev_ne p),
        update_of_ne (rev_ne p)] at hend
      exact ⟨_, _, hend, .of_silence hinbox rfl (.breaks (by simp [hlive]) hdecode)
        (not_update_mem_leaving_stop _)⟩
  | refused l s e hlive hother hadmitted hwritten =>
      rw [hphase] at hlive
      obtain ⟨reason, -, hended⟩ | ⟨hok, -⟩ := h.write_suspended hids hproper hlive
        (hepoch l hlive) (Live.receive?_of_admit? hadmitted) hwritten
      · exact ⟨_, _, (hended _).setWriting p false, .of_silence hinbox rfl
          (.breaks (by simp [hlive]) hdecode) (not_update_mem_leaving_stop _)⟩
      · cases hok
  | @written l s e v hlive hother hadmitted hwritten =>
      rw [hphase] at hlive
      exact h.moves_of_written hids hproper hlive (hepoch l hlive) hinbox hdecode
        (Live.receive?_of_admit? hadmitted) hwritten

/-- Handling the oldest message is a turn that takes it. -/
theorem handleNext (h : Wired ids configs posts w) (hdistinct : Distinct ids configs)
    (hproper : ∀ q, (posts q).Proper ids q)
    {result : Except SyncError (Option (Except ShareError Unit))}
    (hnext : w.handleNext (World.write depth) p = .ok (result, w')) :
    ∃ out posts', Wired ids configs posts' w' ∧
      Moves ids configs p (posts p).inbox.head? (posts p).phase.document posts out posts' := by
  have hids := hdistinct.ids_ne
  have hphases : ∀ q, (posts q).phase.Proper ids q := fun q => (hproper q).phase
  cases hinbox : (posts p).inbox with
  | nil =>
      rw [World.handleNext, h.receive_of_nil hinbox] at hnext
      cases hnext
      exact ⟨_, posts, h, .still ids configs p _ posts⟩
  | cons m rest =>
      obtain ⟨w₁, hreceive, hw₁⟩ := h.receive_of_cons hinbox
      obtain ⟨hwords, haddress⟩ := (hproper p).inbox m (hinbox ▸ List.mem_cons_self)
      rw [World.handleNext, hreceive] at hnext
      obtain ⟨⟨handled, w₂⟩, harrival, hresult⟩ := bind_eq_ok_iff.1 hnext
      cases hresult
      rw [World.handleArrival, World.handleMessage, hw₁.limits_eq] at harrival
      cases hdecode : Message.decode (configs p).limits m.payload with
      | error reason =>
          rw [hdecode] at harrival
          cases harrival
          exact ⟨_, _, hw₁, .of_quiet hinbox rfl (.misses (by simp [hdecode]))⟩
      | ok m' =>
          obtain rfl := Message.eq_of_decode_payload (hdistinct.messageBytes_le p) hwords hdecode
          rw [hdecode] at harrival
          cases m' with
          | start offer =>
              obtain ⟨hsender, hreceiver⟩ := haddress offer rfl
              obtain rfl : (w₁.handleStart p (ids p.rev) offer).2 = w' :=
                congrArg Prod.snd (Except.ok.inj harrival)
              exact hw₁.handleStart hids hsender hreceiver hinbox hdecode _
          | update u =>
              exact hw₁.moves_of_updateRun hids hphases (hproper p).epoch_le hinbox hdecode
                (UpdateRun.of_handleUpdate harrival).2
          | stop =>
              cases harrival
              exact hw₁.handleStop hids (hphases p) hinbox hdecode _

/-- Every call comes down to a turn of one party.  It takes a message exactly when the call
is to handle one. -/
theorem run (h : Wired ids configs posts w) (hdistinct : Distinct ids configs)
    (hproper : ∀ q, (posts q).Proper ids q) {c : Call} {outcome : Outcome}
    (hc : Interaction c) (hrun : w.run c = .ok (outcome, w')) :
    ∃ p taken out posts', Wired ids configs posts' w' ∧
      Moves ids configs p taken (w.written c) posts out posts' ∧
      (c = .handleNext p ∧ taken = (posts p).inbox.head? ∨
        taken = none ∧ ∀ q : Fin 2, c ≠ .handleNext q) := by
  have hids := hdistinct.ids_ne
  have hphases : ∀ q, (posts q).phase.Proper ids q := fun q => (hproper q).phase
  cases hc with
  | edit d e =>
      obtain ⟨⟨result, w₁⟩, hwrite, hresult⟩ := bind_eq_ok_iff.1 hrun
      cases hresult
      rcases h.write hids hphases hwrite with ⟨reason, -, rfl⟩ | ⟨-, out, posts', hw', hboth⟩
      · exact ⟨0, none, _, posts, h, .still ids configs 0 _ posts, .inr ⟨rfl, by simp⟩⟩
      · have hsame : update posts' 0 ((posts' 0).setPhase (posts' 0).phase) = posts' :=
          update_eq_self 0 posts'
        have hboth' := hboth
        rw [← update_eq_self 0 posts] at hboth'
        have hmoves : Moves ids configs 0 none (some d) posts out _ := .of_bothSpeak hboth'
          rfl rfl (.speaks (hboth.speaks 0)) rfl fun hne =>
            (hboth.speaks 0).document_eq.trans (hboth.document 0 hne)
        rw [hsame] at hmoves
        exact ⟨0, none, out, posts', hw', hmoves, .inr ⟨rfl, by simp⟩⟩
  | start p our name other fileName d =>
      obtain ⟨out, posts', hw', hmoves⟩ := h.start hids p our name other fileName d none
      cases hrun
      exact ⟨p, none, out, posts', hw', hmoves, .inr ⟨rfl, by simp⟩⟩
  | accept p d =>
      obtain ⟨⟨result, w₁⟩, haccept, hresult⟩ := bind_eq_ok_iff.1 hrun
      cases hresult
      obtain ⟨out, posts', hw', hmoves⟩ := h.accept hids hphases haccept
      exact ⟨p, none, out, posts', hw', hmoves, .inr ⟨rfl, by simp⟩⟩
  | decline p =>
      obtain ⟨out, posts', hw', hmoves⟩ := h.decline hids (hphases p) none
      cases hrun
      exact ⟨p, none, out, posts', hw', hmoves, .inr ⟨rfl, by simp⟩⟩
  | stop p =>
      obtain ⟨out, posts', hw', hmoves⟩ := h.stop hids (hphases p) none
      cases hrun
      exact ⟨p, none, out, posts', hw', hmoves, .inr ⟨rfl, by simp⟩⟩
  | handleNext p =>
      obtain ⟨⟨result, w₁⟩, hnext, hresult⟩ := bind_eq_ok_iff.1 hrun
      cases hresult
      obtain ⟨out, posts', hw', hmoves⟩ := h.handleNext hdistinct hproper hnext
      rw [← h.phase_eq p] at hmoves
      exact ⟨p, _, out, posts', hw', hmoves, .inl ⟨rfl, rfl⟩⟩

end Wired

end PairEdit.Session
