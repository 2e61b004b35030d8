import PairEdit.Proofs.AllOrNothing
import PairEdit.Proofs.Enrollment
import PairEdit.Proofs.EventReplay

/-!
# Sessions that end while they are written to

A listener of the host is told of an edit of the peer, and ends the session from inside.  It may
begin another one at once.  The call that wrote the edit goes on with what it knew before, and
the main theorem says what it does to the world then: nothing, except that it tells the host what
it had to tell of the old session.  That is nothing for an edit that is not the first one, but
`started_after_ended` shows that the host may be told that a session began which is over.
-/

namespace PairEdit.Session

open World

variable {reactive called : Nat → Prop} {w w' : World} {p q d depth epoch : Nat}

/-! ## Sessions that are over -/

/-- The session with an epoch is over, and no other will have this epoch. -/
structure World.Over (w : World) (p epoch : Nat) : Prop where
  le : epoch ≤ (w.party p).epochs
  isEpoch : (w.phase p).isEpoch epoch = false

namespace World.Over

theorem worldStep (h : w.Over p epoch) (hstep : WorldStep w w') : w'.Over p epoch := by
  refine ⟨Nat.le_trans h.le (hstep.epochs_le p), ?_⟩
  obtain ⟨hle, hisEpoch⟩ := h
  have hsuccessor := hstep.successor p
  generalize w.phase p = phase, (w.party p).epochs = n, w'.phase p = phase',
    (w'.party p).epochs = n' at hsuccessor hisEpoch hle
  cases hsuccessor with
  | same => exact hisEpoch
  | idle | offered => rfl
  | live _ hepoch =>
      rw [Phase.isEpoch, hepoch]
      exact hisEpoch
  | begun _ _ hepoch =>
      rw [Phase.isEpoch, hepoch]
      exact beq_eq_false_iff_ne.2 (by omega)

/-- What is over stays so. -/
theorem worldSteps (h : w.Over p epoch) (hsteps : WorldSteps w w') : w'.Over p epoch := by
  refine hsteps.invariant (P := fun v => v.Over p epoch) (fun hstep hv => hv.worldStep hstep)
    (fun q writing hw => ?_) h
  exact ⟨by rw [epochs_setWriting]; exact hw.le, by rw [phase_setWriting]; exact hw.isEpoch⟩

theorem epoch_ne (h : w.Over p epoch) {l : Live} (hlive : w.phase p = .live l) :
    l.epoch ≠ epoch := by
  have hisEpoch := h.isEpoch
  rw [hlive] at hisEpoch
  exact beq_eq_false_iff_ne.1 hisEpoch

/-- Nothing captures for a session that is over. -/
theorem not_hasCapture (h : w.Over p epoch) (hw : Subscribed w) (d id : Nat) :
    ¬ w.HasCapture d id p epoch := by
  intro hcapture
  obtain ⟨l, hlive, -, -, hepoch⟩ := hw.capturesWith d id p epoch hcapture
  exact h.epoch_ne hlive hepoch

/-- When no other session pauses, one that goes on captures with one listener. -/
theorem ownListeners_eq (h : w.Over p epoch) (hw : Subscribed w) (henrolled : Enrolled w)
    (honly : w.PausesOnly p (· = epoch)) {l : Live} (hlive : w.phase p = .live l) :
    ∃ id, l.capture = some id ∧ ∀ d, w.ownListeners p d =
      if d = l.document then [(id, .capture p l.epoch)] else [] := by
  obtain ⟨id, hcapture⟩ := Option.ne_none_iff_exists'.1 fun hnone =>
    h.epoch_ne hlive (honly l hlive hnone)
  exact ⟨id, hcapture, henrolled.ownListeners_eq hw hlive hcapture⟩

end World.Over

/-- What a host does to end the session with a peer. -/
inductive Call.Ends (limits : Limits) (p : Nat) (peer : PeerId) : Call → Prop where
  | stop : Ends limits p peer (.stop p)
  | disconnected : Ends limits p peer (.handleDisconnect p peer)
  | stopped {payload : Bytes} (hdecode : Message.decode limits payload = .ok .stop) :
      Ends limits p peer (.handleMessage p peer payload)

theorem phase_handleStop (w : World) (p : Nat) (sender : PeerId) :
    (w.handleStop p sender).phase p =
      if (w.phase p).other = some sender then .idle else w.phase p := by
  unfold World.handleStop
  split
  · rw [phase_emit, phase_leave_self]
  · rfl

theorem phase_stop (w : World) (p : Nat) : (w.stop p).2.phase p = .idle := by
  unfold World.stop
  cases hphase : w.phase p with
  | idle => exact hphase
  | offered | live => exact (phase_send ..).trans ((phase_emit ..).trans (phase_leave_self ..))

/-- After such a call the session is over, if it was with that peer. -/
theorem World.Over.of_ends {write : Writer} {c : Call} {peer : PeerId} {outcome : Outcome}
    (hc : c.Ends (w.limits p) p peer) (hcall : perform write c w = .ok (outcome, w'))
    (hpeer : ∀ l, w.phase p = .live l → l.epoch = epoch → l.participants.other = peer)
    (hle : epoch ≤ (w'.party p).epochs) : w'.Over p epoch := by
  refine ⟨hle, ?_⟩
  -- Whoever names the peer makes the party idle, and otherwise nothing has this epoch.
  have hother : (if (w.phase p).other = some peer then Phase.idle else w.phase p).isEpoch epoch =
      false := by
    split
    · rfl
    · next hne =>
        rw [← Bool.not_eq_true]
        intro hisEpoch
        obtain ⟨l, hlive, hepoch⟩ := exists_live_of_isEpoch hisEpoch
        rw [hlive] at hne
        exact hne (congrArg some (hpeer l hlive hepoch))
  cases hc with
  | stop =>
      cases hcall
      change ((w.stop p).2.phase p).isEpoch epoch = false
      rw [phase_stop]
      rfl
  | disconnected =>
      cases hcall
      rw [phase_handleDisconnect]
      exact hother
  | stopped hdecode =>
      obtain ⟨⟨result, w₁⟩, hmessage, hcall⟩ := bind_eq_ok_iff.1 hcall
      unfold World.handleMessage at hmessage
      rw [hdecode] at hmessage
      cases hmessage
      cases hcall
      rw [phase_handleStop]
      exact hother

/-! ## While a party writes -/

/-- The session with an epoch captures nothing. -/
structure World.Pauses (w : World) (p epoch : Nat) : Prop where
  le : epoch ≤ (w.party p).epochs
  capture : ∀ l, w.phase p = .live l → l.epoch = epoch → l.capture = none

theorem World.Pauses.of_party (h : w.Pauses p epoch)
    (hparty : w'.party p = w.party p ∨ w'.party p = { w.party p with phase := .idle }) :
    w'.Pauses p epoch := by
  obtain heq | heq := hparty
  · exact ⟨heq ▸ h.le, fun l hlive => h.capture l ((congrArg Party.phase heq).symm.trans hlive)⟩
  · refine ⟨by rw [heq]; exact h.le, fun l hlive => ?_⟩
    cases (congrArg Party.phase heq).symm.trans hlive

/-- A session with another strategy captures as it did. -/
theorem World.Pauses.retune (h : w.Pauses p epoch) {l : Live} (s : Strategy)
    (hlive : w.phase p = .live l) :
    (w.setPhase p (.live { l with strategy := s })).Pauses p epoch := by
  refine ⟨?_, fun l' hlive' hepoch => ?_⟩
  · rw [party_setPhase_self]
    exact h.le
  · rw [phase_setPhase_self] at hlive'
    cases hlive'
    exact h.capture l hlive hepoch

theorem World.Pauses.move (h : w.Pauses p epoch) (hmove : Move p w w') : w'.Pauses p epoch := by
  refine ⟨Nat.le_trans h.le (hmove.worldSteps.epochs_le p), fun l' hlive' hepoch => ?_⟩
  obtain hlive | ⟨l, s, hlive, -, rfl⟩ | ⟨hnew, -⟩ := hmove.live_cases hlive'
  · exact h.capture l' hlive hepoch
  · exact h.capture l hlive hepoch
  · exact absurd h.le (Nat.not_le_of_lt (hepoch ▸ hnew))

/-- While the session goes on, no listener captures for the party. -/
theorem World.Pauses.not_mem_listeners (h : w.Pauses p epoch) (hw : Subscribed w)
    (hstill : (w.phase p).isEpoch epoch = true) (d id e : Nat) :
    (id, .capture p e) ∉ (w.document d).listeners := by
  intro hmem
  obtain ⟨l, hlive, -, hcapture, -⟩ := hw.capturesWith d id p e hmem
  rw [hlive] at hstill
  rw [h.capture l hlive (beq_iff_eq.1 hstill)] at hcapture
  cases hcapture

/-- The session that a party writes for is paused, and no other is. -/
theorem Opening.pauses {l : Live} {news : Option Event} (h : Opening p w l news w')
    (hw : Subscribed w') : w'.Pauses p l.epoch ∧ w'.PausesOnly p (· = l.epoch) := by
  refine ⟨⟨hw.epoch_le p l h.phase_eq, fun l' hlive _ => ?_⟩, fun l' hlive _ => ?_⟩
  · cases h.phase_eq.symm.trans hlive
    exact h.capture_eq
  · cases h.phase_eq.symm.trans hlive
    rfl

/-- Whether an event is one that a party emits after a write. -/
def Event.isNews : Event → Bool
  | started _ .receiver => true
  | confirmed _ => true
  | _ => false

/-- The party has told its host something, but not that it has accepted or that the peer has. -/
def NoNews (before after : Party) : Prop :=
  ∃ more, after.events = before.events ++ more ∧ ∀ event ∈ more, event.isNews = false

namespace NoNews

variable {a b c : Party}

theorem of_eq (h : b.events = a.events) : NoNews a b := ⟨[], by rw [h, List.append_nil], nofun⟩

theorem of_event {event : Event} (h : b.events = a.events ++ [event])
    (hevent : event.isNews = false) :
    NoNews a b :=
  ⟨[event], h, fun _ hmem => List.mem_singleton.1 hmem ▸ hevent⟩

theorem trans (h : NoNews a b) (h' : NoNews b c) : NoNews a c := by
  obtain ⟨more, hevents, hmore⟩ := h
  obtain ⟨more', hevents', hmore'⟩ := h'
  refine ⟨more ++ more', by rw [hevents', hevents, List.append_assoc], fun event hmem => ?_⟩
  exact (List.mem_append.1 hmem).elim (hmore event) (hmore' event)

theorem of_party (h : b = a ∨ b = { a with phase := .idle }) : NoNews a b := by
  obtain rfl | rfl := h
  · exact of_eq rfl
  · exact of_eq rfl

end NoNews

theorem Move.noNews (h : Move p w w') : NoNews (w.party p) (w'.party p) := by
  cases h with
  | offer o =>
      rw [party_emit_self, party_setPhase_self]
      exact .of_event rfl rfl
  | refuse peer =>
      rw [party_emit_self]
      exact .of_event rfl rfl
  | absorb | retune =>
      rw [party_setPhase_self]
      exact .of_eq rfl
  | depart peer reason =>
      rw [party_emit_self, party_leave_self]
      exact .of_event rfl rfl
  | begin d participants s m =>
      rw [party_emit_self, party_send]
      exact .of_event (congrArg (· ++ _) (w.events_initiate p d participants s)) rfl
  | lapse d participants s =>
      rw [party_leave_self]
      exact .of_eq (w.events_initiate p d participants s)

theorem KeepsOthers.party_or {acts : Nat → Prop} (h : KeepsOthers acts w w') (hq : ¬ acts q) :
    w'.party q = w.party q ∨ w'.party q = { w.party q with phase := .idle } :=
  (h.party q hq).imp_right And.right

/-- What the moves of a party keep that writes, a call keeps: nobody else touches the party,
but that it may be let go of, and that it captures edits. -/
theorem CallEffect.invariant_while_writing {P : World → Prop} (h : CallEffect reactive called w w')
    (hwriting : (w.party p).writing = true)
    (hparty : ∀ {v v' : World}, P v →
      v'.party p = v.party p ∨ v'.party p = { v.party p with phase := .idle } → P v')
    (hcaptured : ∀ {v : World} {l : Live} (s : Strategy), P v → v.phase p = .live l →
      l.capture ≠ none → P (v.setPhase p (.live { l with strategy := s })))
    (hunsent : ∀ {v : World} (peer : PeerId) (reason : ShareError), P v →
      P (v.emit p (.sendFailed peer reason)))
    (hmove : ∀ {v v' : World}, P v → (v.party p).writing = true → Move p v v' → P v')
    (hw : P w) : P w' := by
  induction h with
  | refl => exact hw
  | trans h _ ih ih' => exact ih' ((h.worldSteps.writing_eq p).trans hwriting) (ih hwriting hw)
  | aside _ heq => exact hparty hw (.inl (heq p))
  | collect => exact hparty hw ((KeepsOthers.collect (fun _ => False) _).party_or not_false)
  | @captured _ w q l s hlive hcapture =>
      by_cases hq : p = q
      · subst hq
        exact hcaptured s hw hlive hcapture
      · exact hparty hw (.inl (party_setPhase_of_ne w _ hq))
  | @unsent _ w q l reason =>
      by_cases hq : p = q
      · subst hq
        exact hunsent _ reason hw
      · exact hparty hw (.inl (party_emit_of_ne w _ hq))
  | @move _ w w' q _ h =>
      by_cases hq : p = q
      · subst hq
        exact hmove hw hwriting h
      · exact hparty hw (h.keepsOthers.party_or hq)
  | @write _ w w₀ v v' q l news _ hfree hopening hreactions hclosing ih =>
      -- The party that writes here is another one.
      have hq : p ≠ q := by
        rintro rfl
        cases hwriting.symm.trans hfree
      have hopened := hopening.keepsOthers.party_or hq
      have hwriting₀ : (w₀.party p).writing = true := by
        obtain heq | heq := hopened
        · rw [heq, hwriting]
        · rw [heq]
          exact hwriting
      have hclosed : KeepsOthers (· = q) v (v'.setWriting q false) :=
        (KeepsOthers.resume v q l.epoch).trans
          (hclosing.keepsOthers.trans (KeepsOthers.setWriting v' q false))
      exact hparty (ih hwriting₀ (hparty hw hopened)) (hclosed.party_or hq)

/-- While a party writes, the session that it writes for stays paused, and the party tells its
host nothing that it tells after a write. -/
theorem CallEffect.while_writing (h : CallEffect reactive called w w')
    (hwriting : (w.party p).writing = true) (hw : w.Pauses p epoch) :
    w'.Pauses p epoch ∧ NoNews (w.party p) (w'.party p) := by
  refine h.invariant_while_writing (P := fun v => v.Pauses p epoch ∧ NoNews (w.party p) (v.party p))
    hwriting ?_ ?_ ?_ ?_ ⟨hw, .of_eq rfl⟩
  · rintro v v' ⟨hv, hnews⟩ hparty
    exact ⟨hv.of_party hparty, hnews.trans (.of_party hparty)⟩
  · rintro v l s ⟨hv, hnews⟩ hlive -
    exact ⟨hv.retune s hlive, hnews.trans (.of_eq (events_setPhase_self ..))⟩
  · rintro v peer reason ⟨hv, hnews⟩
    refine ⟨⟨?_, fun l hlive => hv.capture l ((phase_emit ..).symm.trans hlive)⟩, hnews.trans ?_⟩
    · rw [party_emit_self]
      exact hv.le
    · exact .of_event (events_emit_self ..) rfl
  · rintro v v' ⟨hv, hnews⟩ - hmove
    exact ⟨hv.move hmove, hnews.trans hmove.noNews⟩

/-! ## Writes that are interrupted -/

/-- Listeners are called one after another, and one of the host makes a call that ends. -/
inductive Interrupted (caller : Caller) (e : Edit) (ends : Call → Prop) :
    List (Nat × Subscriber) → World → World → Prop where
  | here {id i : Nat} {rest : List (Nat × Subscriber)} {u u₁ u₂ : World} {now : List Call}
      {later : List (List Call)} {c : Call} (hscript : u.scripts.get i = now :: later)
      (hc : c ∈ now) (hends : ends c)
      (hnow : reactAll caller now { u with scripts := u.scripts.set i later } = .ok u₁)
      (hrest : Document.notify (notifyOne caller) e rest u₁ = .ok u₂) :
      Interrupted caller e ends ((id, .host i) :: rest) u u₂
  | later {l : Nat × Subscriber} {rest : List (Nat × Subscriber)} {u u₁ u₂ : World}
      (hone : notifyOne caller e l.2 u = .ok u₁)
      (h : Interrupted caller e ends rest u₁ u₂) : Interrupted caller e ends (l :: rest) u u₂

/-- A call writes what comes from the peer: an update, or the text of an offer.  The session is
as said then, and what the host will be told is known. -/
inductive RemoteWrite (p : Nat) (w : World) :
    Call → Live → Option Event → Edit → World → Prop where
  | update {l : Live} {s : Strategy} {payload : Bytes} {u : Update} {e : Edit}
      (hlive : w.phase p = .live l)
      (hdecode : Message.decode (w.limits p) payload = .ok (.update u))
      (hadmitted : l.admit? u (w.document l.document).length =
        some (.ok e, { l with strategy := s })) :
      RemoteWrite p w (.handleMessage p l.participants.other payload)
        { l with strategy := s, confirmed := true, capture := none }
        (if l.confirmed then none else some (.confirmed l.participants.other)) e
        ((w.suspend p l s).setWriting p true)
  | accept {o : Offered} {d : Nat} {s : Strategy} (hoffered : w.phase p = .offered o)
      (hskip : (Strategy.start (w.party p).config.strategy .receiver).skip? o.buffered = some s) :
      RemoteWrite p w (.accept p d)
        ⟨o.participants, ((w.setWriting p true).nextEpoch p).1, d, none, s, true⟩
        (some (.started o.participants.initiator .receiver))
        ((w.document d).overwriting o.buffer) ((w.setWriting p true).join p d o s)

/-- An update that is admitted is written, with nothing captured meanwhile. -/
theorem handleMessage_of_admitted {write : Writer} {l : Live} {s : Strategy} {payload : Bytes}
    {u : Update} {e : Edit} (hfree : (w.party p).writing = false) (hlive : w.phase p = .live l)
    (hdecode : Message.decode (w.limits p) payload = .ok (.update u))
    (hadmitted : l.admit? u (w.document l.document).length =
      some (.ok e, { l with strategy := s })) :
    w.handleMessage write p l.participants.other payload =
      (do
        let (written, v) ← write l.document e ((w.suspend p l s).setWriting p true)
        let v := v.resume p l.epoch
        match written with
        | .error reason =>
            let v := v.endSession p l.epoch .invalidOperation
            return (.error (.document reason), v.setWriting p false)
        | .ok () =>
            let news := if l.confirmed then none else some (.confirmed l.participants.other)
            return (.ok (), (v.tell p news).setWriting p false)) := by
  have hreceive : (Phase.live l).receive? (w.limits p) l.participants.other u
      (w.document l.document).length = some (.write l.epoch l.document e l.capture
        (!l.confirmed), .live { l with strategy := s, confirmed := true, capture := none }) := by
    simp [Phase.receive?, hadmitted]
  simp only [World.handleMessage, hdecode, World.handleUpdate, hfree, Bool.false_eq_true,
    if_false, hlive, hreceive]
  refine (writeRemote_setPhase write w p l.participants.other l s e _).trans ?_
  cases l.confirmed <;> rfl

namespace RemoteWrite

variable {c : Call} {l : Live} {news : Option Event} {e : Edit} {w₀ : World}

theorem opening (h : RemoteWrite p w c l news e w₀) : Opening p w l news w₀ := by
  cases h with
  | update hlive => exact .update _ _ hlive
  | accept hoffered => exact .accept _ _ _ hoffered

/-- When the write succeeds, the party captures again if it still can, and tells its host. -/
theorem perform_eq {write : Writer} {v : World} (h : RemoteWrite p w c l news e w₀)
    (hfree : (w.party p).writing = false) (hwrite : write l.document e w₀ = .ok (.ok (), v)) :
    perform write c w =
      .ok (.shared (.ok ()), ((v.resume p l.epoch).tell p news).setWriting p false) := by
  cases h with
  | @update l s payload u e hlive hdecode hadmitted =>
      refine bind_eq_ok_iff.2 ⟨(.ok (), _), ?_, rfl⟩
      rw [handleMessage_of_admitted hfree hlive hdecode hadmitted]
      exact bind_eq_ok_iff.2 ⟨_, hwrite, rfl⟩
  | @accept o d s hoffered hskip =>
      have hphase : (w.setWriting p true).phase p = .offered o :=
        (phase_setWriting ..).trans hoffered
      refine bind_eq_ok_iff.2 ⟨(.ok (), _), ?_, rfl⟩
      simp only [World.accept, hfree, Bool.false_eq_true, if_false, hoffered]
      refine bind_eq_ok_iff.2 ⟨(((w.setWriting p true).nextEpoch p).1,
        (w.setWriting p true).join p d o s), ?_, ?_⟩
      · have hconfig : (((w.setWriting p true).nextEpoch p).2.party p).config =
            (w.party p).config := by
          simp [World.nextEpoch, World.setWriting]
        refine bind_eq_ok_iff.2 ⟨s, orOverflow_eq_ok_iff.2 ?_, rfl⟩
        rw [← hconfig] at hskip
        exact hskip
      · exact bind_eq_ok_iff.2 ⟨_, hwrite, rfl⟩

end RemoteWrite

/-- A call writes what comes from the peer, and a listener of the host that is told of it ends
the session.  These listeners are told, and this is the world when all of them have been. -/
inductive Interruption (depth p : Nat) (w : World) (c : Call) (l : Live) (news : Option Event) :
    List (Nat × Subscriber) → World → Prop where
  | intro {e : Edit} {w₀ v v' : World} {text : Text} (hwrite : RemoteWrite p w c l news e w₀)
      (hhook : HookRun (nestedCaller depth) l.document w₀ v)
      (haccepted : ∀ hook, (w₀.surfaces.get l.document).hook = some hook → hook.rejection = none)
      (hstill : (v.phase p).isEpoch l.epoch = true)
      (hedit : e.apply (v.document l.document).text = .ok text)
      (hended : Interrupted (nestedCaller depth) e
        (Call.Ends (w.limits p) p l.participants.other) (v.document l.document).listeners
        (v.setDocument l.document { v.document l.document with text := text }) v') :
      Interruption depth p w c l news (v.document l.document).listeners v'

namespace Interrupted

variable {caller : Caller} {e : Edit} {ends : Call → Prop} {listeners : List (Nat × Subscriber)}
  {u u' : World}

theorem notify_eq (h : Interrupted caller e ends listeners u u') :
    Document.notify (notifyOne caller) e listeners u = .ok u' := by
  induction h with
  | here hscript _ _ hnow hrest =>
      refine bind_eq_ok_iff.2 ⟨_, ?_, hrest⟩
      simp only [notifyOne, hscript]
      exact hnow
  | later hone _ ih => exact bind_eq_ok_iff.2 ⟨_, hone, ih⟩

end Interrupted

/-- Calls of which one ends the session leave it over. -/
theorem World.Over.of_reactAll {u u' : World} {calls : List Call} {l : Live} (hw : Subscribed w)
    (hlive : w.phase p = .live l) (hsteps : WorldSteps w u)
    (hcalls : ∃ c ∈ calls, c.Ends (w.limits p) p l.participants.other)
    (h : reactAll (nestedCaller depth) calls u = .ok u') : u'.Over p l.epoch := by
  induction calls generalizing u with
  | nil =>
      obtain ⟨c, hc, -⟩ := hcalls
      cases hc
  | cons c rest ih =>
      obtain ⟨⟨outcome, u₁⟩, hcall, hlater⟩ := bind_eq_ok_iff.1 h
      have hcalled : WorldSteps u u₁ := worldSteps_nestedCaller depth hcall
      have hnote : WorldSteps u₁ { u₁ with log := u₁.log ++ [outcome] } :=
        .single (.note u₁ u₁.scripts u₁.underway _)
      obtain ⟨c', hc', hends⟩ := hcalls
      obtain rfl | hrest := List.mem_cons.1 hc'
      · have hover : u₁.Over p l.epoch := by
          cases depth with
          | zero => cases hcall
          | succ depth =>
              refine .of_ends (hsteps.limits_eq p ▸ hends) hcall (fun l' hlive' hepoch => ?_)
                (Nat.le_trans (hw.epoch_le p l hlive) ((hsteps.trans hcalled).epochs_le p))
              rw [hw.participants_eq hsteps hlive hlive' hepoch]
        exact hover.worldSteps (.trans hnote
          (worldSteps_reactAll (worldSteps_nestedCaller depth) hlater))
      · exact ih (.trans hsteps (.trans hcalled hnote)) ⟨c', hrest, hends⟩ hlater

theorem Interrupted.over {listeners : List (Nat × Subscriber)} {e : Edit} {u u' : World} {l : Live}
    (hw : Subscribed w) (hlive : w.phase p = .live l) (hsteps : WorldSteps w u)
    (h : Interrupted (nestedCaller depth) e (Call.Ends (w.limits p) p l.participants.other)
      listeners u u') : u'.Over p l.epoch := by
  induction h with
  | @here id i rest u u₁ u₂ now later c hscript hc hends hnow hrest =>
      have hused : WorldSteps u { u with scripts := u.scripts.set i later } :=
        .single (.note u _ u.underway u.log)
      have hover := World.Over.of_reactAll hw hlive (.trans hsteps hused) ⟨c, hc, hends⟩ hnow
      exact hover.worldSteps (worldSteps_notify (worldSteps_nestedCaller depth) hrest)
  | later hone _ ih =>
      exact ih (.trans hsteps (worldSteps_notifyOne (worldSteps_nestedCaller depth) hone))

/-- A write succeeds when the document takes the edit and all listeners come to their end. -/
theorem writeVia_of_hookRun {caller : Caller} {e : Edit} {text : Text} {v v' : World}
    (hhook : HookRun caller d w v)
    (haccepted : ∀ hook, (w.surfaces.get d).hook = some hook → hook.rejection = none)
    (hedit : e.apply (v.document d).text = .ok text)
    (hnotify : Document.notify (notifyOne caller) e (v.document d).listeners
      (v.setDocument d { v.document d with text := text }) = .ok v') :
    writeVia caller d e w = .ok (.ok (), v') := by
  have hcommit : v.commit caller d e = .ok (.ok (), v') := by
    have hsite : e.apply ((site d).get v).text = .ok text := hedit
    simp only [World.commit, Document.replaceIn, hsite]
    exact bind_eq_ok_iff.2 ⟨v', hnotify, rfl⟩
  unfold writeVia
  cases hhook with
  | none hhook =>
      rw [hhook]
      exact hcommit
  | some hook hhook hcalls =>
      rw [hhook]
      refine bind_eq_ok_iff.2 ⟨v, hcalls, ?_⟩
      rw [haccepted hook hhook]
      exact hcommit

/-- A listener of the host ends the session that the peer's edit is written for, and may begin
another one.  The call comes to its end, and then the world is
as the listeners left it, but that the host is told what is told after such a write.  So nothing
captures for the old session, a session begun inside goes on and captures with one listener, and
no listener of the party was told of the edit.  The listeners made the party tell nothing that is
told after a write. -/
theorem ended_from_inside (h : w.Interlude reactive) {c : Call} {l : Live} {news : Option Event}
    {heard : List (Nat × Subscriber)} {v' : World}
    (hinterruption : Interruption depth p w c l news heard v') :
    ∃ w', perform (World.write depth) c w = .ok (.shared (.ok ()), w') ∧
      w' = (v'.tell p news).setWriting p false ∧
      (∀ d id, ¬ w'.HasCapture d id p l.epoch) ∧
      (∀ l', w'.phase p = .live l' → l'.epoch ≠ l.epoch ∧ ∃ id, l'.capture = some id ∧
        ∀ d, w'.ownListeners p d = if d = l'.document then [(id, .capture p l'.epoch)] else []) ∧
      (∀ id epoch, (id, .capture p epoch) ∉ heard) ∧
      ∃ inside, (w'.party p).events = (w.party p).events ++ inside ++ news.toList ∧
        ∀ event ∈ inside, event.isNews = false := by
  obtain @⟨e, w₀, v, _, text, hwrite, hhook, haccepted, hstill, hedit, hended⟩ := hinterruption
  have hopening := hwrite.opening
  have hready₀ := h.ready.opening hopening
  have hcaller := callEffects_nestedCaller reactive depth
  -- What the hook and the listeners do, and what they leave of the session.
  have hhooked : CallEffect reactive reactive w₀ v :=
    (callEffects_closed reactive).hookRun hcaller hready₀ hhook
  have hready := hready₀.callEffect hhooked
  have hheard : CallEffect reactive reactive v v' :=
    (callEffects_closed reactive).setText_notify hcaller hready trivial hended.notify_eq
  obtain ⟨hpauses₀, honly₀⟩ := hopening.pauses hready₀.subscribed
  obtain ⟨hpauses, hnews⟩ := hhooked.while_writing hopening.writing_eq hpauses₀
  obtain ⟨-, hnews'⟩ := hheard.while_writing
    ((hhooked.worldSteps.writing_eq p).trans hopening.writing_eq) hpauses
  have hlimits : w₀.limits p = w.limits p := congrArg Config.limits (hopening.silent.config p)
  have hset : WorldSteps v (v.setDocument l.document { v.document l.document with text := text }) :=
    .single (.text v l.document text)
  have hover : v'.Over p l.epoch := Interrupted.over hready₀.subscribed hopening.phase_eq
    (.trans hhooked.worldSteps hset) (hlimits.symm ▸ hended)
  have hsubscribed := (hready.callEffect hheard).subscribed
  have henrolled := (h.enrolled.opening hopening).worldSteps
    (.trans hhooked.worldSteps hheard.worldSteps)
  have hdocument : ∀ d, ((v'.tell p news).setWriting p false).document d = v'.document d :=
    fun d => document_tell v' p news d
  refine ⟨_, ?_, rfl, fun d id hcapture => ?_, fun l' hlive' => ?_,
    hpauses.not_mem_listeners hready.subscribed hstill l.document, ?_⟩
  · have hwritten : World.write depth l.document e w₀ = .ok (.ok (), v') := by
      rw [write_eq]
      exact writeVia_of_hookRun hhook haccepted hedit hended.notify_eq
    rw [hwrite.perform_eq (h.writing_eq_false p) hwritten,
      resume_of_isEpoch_eq_false hover.isEpoch]
  · rw [HasCapture, hdocument] at hcapture
    exact hover.not_hasCapture hsubscribed d id hcapture
  · rw [phase_setWriting, phase_tell] at hlive'
    simp only [World.ownListeners, hdocument]
    exact ⟨hover.epoch_ne hlive', hover.ownListeners_eq hsubscribed henrolled
      (hheard.pausesOnly (hhooked.pausesOnly honly₀)) hlive'⟩
  · obtain ⟨inside, hinside, hall⟩ :=
      ((NoNews.of_eq (hopening.silent.events p)).trans hnews).trans hnews'
    refine ⟨inside, ?_, hall⟩
    rw [World.setWriting, party_modifyParty_self, ← hinside]
    exact events_tell_self v' p news

/-- The one listener of a document without a hook ends the session. -/
theorem Interruption.of_single {c c' : Call} {l : Live} {news : Option Event} {e : Edit}
    {w₀ v' : World} {text : Text} {id i : Nat} {now : List Call} {later : List (List Call)}
    (hwrite : RemoteWrite p w c l news e w₀)
    (hhook : (w₀.surfaces.get l.document).hook = none)
    (hlisteners : (w₀.document l.document).listeners = [(id, .host i)])
    (hscript : w₀.scripts.get i = now :: later)
    (hends : c'.Ends (w.limits p) p l.participants.other) (hmem : c' ∈ now)
    (hedit : e.apply (w₀.document l.document).text = .ok text)
    (hnow : reactAll (nestedCaller depth) now
      { w₀.setDocument l.document { w₀.document l.document with text := text } with
        scripts := w₀.scripts.set i later } = .ok v') :
    Interruption depth p w c l news [(id, .host i)] v' := by
  rw [← hlisteners]
  refine .intro hwrite (.none hhook) (fun hook hsome => ?_) ?_ hedit ?_
  · rw [hhook] at hsome
    cases hsome
  · rw [hwrite.opening.phase_eq]
    exact beq_self_eq_true _
  · rw [hlisteners]
    exact .here hscript hmem hends hnow rfl

/-- Bob's listener stops the session when an edit of Alice's comes in, and offers the document to
her at once.  The new session is all there is afterwards, and Bob is told nothing after that it
started. -/
theorem ended_from_inside_and_started :
    let alice : PeerId := .ofByte 0xA1
    let call : Call := .handleMessage 1 alice (Message.payload (.update ⟨⟨0, 1, []⟩, 1, 0⟩))
    ∃ w w' : World, ∃ id, w.Interlude (fun _ => True) ∧
      perform (World.write 1) call w = .ok (.shared (.ok ()), w') ∧
      (∀ d, w'.ownListeners 1 d = if d = 1 then [(id, .capture 1 2)] else []) ∧
      (w'.party 1).events.drop (w.party 1).events.length =
        [.ended alice .localStop, .started alice .initiator] := by
  intro alice call
  let bob : PeerId := .ofByte 0xB0
  let again : Call := .start 1 bob none alice [] 1
  let w₀ := ((Pair.idle ['a', 'b'] .usual).world.listen 1 [[], [.stop 1, again]]).2
  let s : Strategy := .backlog ⟨[], 0, 0, 0, .remoteFirst⟩
  let s' : Strategy := .backlog ⟨[], 0, 0, 1, .remoteFirst⟩
  let l : Live := ⟨⟨bob, alice, bob⟩, 1, 1, some 2, s, true⟩
  let u : Update := ⟨⟨0, 1, []⟩, 1, 0⟩
  have hrun : ∃ w ∈ (w₀.runAll
        [.start 0 alice none bob [] 0, .handleNext 1, .accept 1 1]).toOption,
      let v := (w.suspend 1 l s').setWriting 1 true
      w.phase 1 = .live l ∧
        Message.decode (w.limits 1) (Message.payload (.update u)) = .ok (.update u) ∧
        l.admit? u (w.document 1).length = some (.ok u.edit, { l with strategy := s' }) ∧
        (v.surfaces.get 1).hook.isNone ∧ (v.document 1).listeners = [(1, .host 0)] ∧
        v.scripts.get 0 = [[.stop 1, again]] ∧
        u.edit.apply (v.document 1).text = .ok ['b'] ∧
        ∃ v' ∈ (reactAll (nestedCaller 1) [.stop 1, again]
            { v.setDocument 1 { v.document 1 with text := ['b'] } with
              scripts := v.scripts.set 0 [] }).toOption,
          (v'.phase 1).document = some 1 ∧ (v'.phase 1).isEpoch 2 = true ∧
          (v'.party 1).events.drop (w.party 1).events.length =
            [.ended alice .localStop, .started alice .initiator] := by
    decide +kernel
  obtain ⟨w, hw, hlive, hdecode, hadmitted, hhook, hlisteners, hscript, hedit, v', hv', hdocument,
    hepoch, hevents⟩ := hrun
  have hlistened : w₀.Interlude fun _ => True :=
    .arranged (.idle ..) (.listen 1 [[], [.stop 1, again]] fun _ _ _ _ _ _ => trivial)
  have hinterlude := hlistened.runAll (eq_ok_of_mem_toOption hw)
  have hinterruption : Interruption 1 1 w call { l with strategy := s', capture := none } none
      [(1, .host 0)] v' :=
    .of_single (.update hlive hdecode hadmitted) (Option.isNone_iff_eq_none.1 hhook) hlisteners
      hscript .stop List.mem_cons_self hedit (eq_ok_of_mem_toOption hv')
  obtain ⟨w', hcall, hw', -, hnew, -, -⟩ := ended_from_inside hinterlude hinterruption
  subst hw'
  cases hphase : v'.phase 1 with
  | idle | offered =>
      rw [hphase] at hdocument
      cases hdocument
  | live l' =>
      rw [hphase] at hdocument hepoch
      obtain ⟨-, id, -, hown⟩ := hnew l' ((phase_setWriting ..).trans hphase)
      refine ⟨w, _, id, hinterlude, hcall, fun d => ?_, ?_⟩
      · rw [hown d, Option.some.inj hdocument, beq_iff_eq.1 hepoch]
      · rw [World.setWriting, party_modifyParty_self]
        exact hevents

/-- Bob's listener stops the session while the text that he accepts is written.  Bob is told that
the session ended, and then that it started. -/
theorem started_after_ended :
    let alice : PeerId := .ofByte 0xA1
    ∃ w w' v' : World, ∃ l news heard o, w.Interlude (fun _ => True) ∧
      Interruption 1 1 w (.accept 1 1) l news heard v' ∧
      perform (World.write 1) (.accept 1 1) w = .ok (o, w') ∧ w'.phase 1 = .idle ∧
      (w'.party 1).events.drop (w.party 1).events.length =
        [.ended alice .localStop, .started alice .receiver] := by
  intro alice
  let bob : PeerId := .ofByte 0xB0
  let w₀ := ((Pair.idle ['a', 'b'] .usual).world.listen 1 [[.stop 1]]).2
  let o : Offered := ⟨⟨bob, alice, bob⟩, [], [], ['a', 'b'], 0⟩
  let s : Strategy := .backlog ⟨[], 0, 0, 0, .remoteFirst⟩
  have hrun : ∃ w ∈ (w₀.runAll [.start 0 alice (some []) bob [] 0, .handleNext 1]).toOption,
      let v := (w.setWriting 1 true).join 1 1 o s
      w.phase 1 = .offered o ∧
        (Strategy.start (w.party 1).config.strategy .receiver).skip? o.buffered = some s ∧
        (v.surfaces.get 1).hook.isNone ∧ (v.document 1).listeners = [(1, .host 0)] ∧
        v.scripts.get 0 = [[.stop 1]] ∧
        ((w.document 1).overwriting o.buffer).apply (v.document 1).text = .ok ['a', 'b'] ∧
        (∃ v' ∈ (reactAll (nestedCaller 1) [.stop 1]
            { v.setDocument 1 { v.document 1 with text := ['a', 'b'] } with
              scripts := v.scripts.set 0 [] }).toOption, True) ∧
        ∃ r ∈ (perform (World.write 1) (.accept 1 1) w).toOption, r.2.phase 1 = .idle ∧
          (r.2.party 1).events.drop (w.party 1).events.length =
            [.ended alice .localStop, .started alice .receiver] := by
    decide +kernel
  obtain ⟨w, hw, hoffered, hskip, hhook, hlisteners, hscript, hedit, ⟨v', hv', -⟩, ⟨o', w'⟩,
    hcall, hidle, hevents⟩ := hrun
  have hlistened : w₀.Interlude fun _ => True :=
    .arranged (.idle ..) (.listen 1 [[.stop 1]] fun _ _ _ _ _ _ => trivial)
  exact ⟨w, w', v', _, _, _, o', hlistened.runAll (eq_ok_of_mem_toOption hw),
    .of_single (.accept hoffered hskip) (Option.isNone_iff_eq_none.1 hhook) hlisteners hscript
      .stop List.mem_cons_self hedit (eq_ok_of_mem_toOption hv'),
    eq_ok_of_mem_toOption hcall, hidle, hevents⟩

end PairEdit.Session
