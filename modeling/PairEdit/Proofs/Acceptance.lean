import PairEdit.Proofs.Interruptions
import PairEdit.Proofs.Rejections
import PairEdit.Proofs.Reports
import PairEdit.Proofs.Streams
import PairEdit.Proofs.OfferTraces

/-!
# What becomes of an offer

An offer that waits takes in the initiator's edits, up to the first that does not fit or makes the
text too long: then the offer is over, and host and initiator are told.  A host that accepts gets
the text as it has become by then, and the session begins with the edits in it counted.  The first
edit that the host makes itself says how many they were.
-/

namespace PairEdit.Session

open World Edit

variable {reactive : Nat → Prop} {w w' v : World} {p q d depth : Nat} {o : Offered} {l : Live}
variable {limits : Limits} {offer : Start} {inbox : List (PeerId × Bytes)} {write : Writer}

/-! ## Updates to an offer -/

/-- Why an edit ends an offer: it does not fit the text, or makes it too long. -/
inductive Offered.Refuses (limits : Limits) (o : Offered) (e : Edit) : ShareError → Prop where
  | unfit {cause : EditError} (happly : e.apply o.buffer = .error cause) :
      Refuses limits o e (.invalidOperation cause)
  | outgrown {text : Text} (happly : e.apply o.buffer = .ok text)
      (hlen : limits.documentChars < text.length) :
      Refuses limits o e
        (.sync (.invalidMessage (.pendingTooLarge text.length limits.documentChars)))

theorem Offered.Refuses.exists_absorb? {e : Edit} {reason : ShareError}
    (h : o.Refuses limits e reason) (hcount : o.buffered < Word.max) :
    ∃ text n, o.absorb? limits e =
      some (.error reason, { o with buffer := text, buffered := n }) := by
  cases h with
  | unfit happly =>
      refine ⟨o.buffer, o.buffered, ?_⟩
      rw [Offered.absorb?, happly]
  | @outgrown text happly hlen =>
      refine ⟨text, o.buffered + 1, ?_⟩
      rw [Offered.absorb?_of_apply limits happly hcount, if_pos hlen]

/-- An offer is gone.  The host is told, and so is the initiator if there is a way. -/
structure Rescinded (p : Nat) (peer : PeerId) (w w' : World) : Prop
    extends TornDown p peer w w' where
  sent_of_route : ∀ target, w.route p peer = .ok target → Sent p peer .stop w w'

/-- A party without a session leaves nothing behind. -/
theorem World.leave_of_offered (hoffered : w.phase p = .offered o) :
    w.leave p = w.setPhase p .idle := by
  have hnone : ∀ d, (w.phase p).document = some d → (w.surfaces.get d).released = false := by
    rw [hoffered]
    rintro d ⟨⟩
  rw [leave_eq_vacate w p hnone, vacate, hoffered]
  rfl

theorem Rescinded.of_absorb (harises : w.Arises) (hoffered : w.phase p = .offered o)
    (hencode : Message.stop.encode (w.limits p) = .ok Message.stop.payload) (text : Text)
    (n : Nat) :
    Rescinded p o.participants.initiator w
      ((w.setPhase p (.offered { o with buffer := text, buffered := n })).endOffer p
        o.participants.initiator .invalidOperation) where
  toTornDown := .of_absorb harises hoffered text n
  sent_of_route target hroute := by
    let v := w.setPhase p (.offered { o with buffer := text, buffered := n })
    have hv : v.phase p = .offered { o with buffer := text, buffered := n } :=
      phase_setPhase_self ..
    let u := (v.setPhase p .idle).emit p (.ended o.participants.initiator .invalidOperation)
    have hend : v.endOffer p o.participants.initiator .invalidOperation =
        (u.send p o.participants.initiator .stop).2 := by
      simp only [endOffer, hv, if_true, leave_of_offered hv, u]
    have hidentity : u.identity p = w.identity p := by
      simp [u, v, identity, emit, World.setPhase]
    have hlimits : u.limits p = w.limits p := by
      simp [u, v, World.limits, emit, World.setPhase]
    have hnetwork : u.network = w.network := rfl
    have htarget : u.sendTarget p o.participants.initiator .stop = some target := by
      refine (sendTarget_congr hnetwork hlimits hidentity _ _).trans ?_
      rw [sendTarget, hencode, hroute]
    rw [hend]
    exact (Sent.of_send htarget).congr hnetwork hidentity fun _ => rfl

/-! ## Sessions that are written for -/

/-- A session is as it was, unless it is over. -/
structure World.Keeps (w : World) (p : Nat) (l : Live) : Prop where
  le : l.epoch ≤ (w.party p).epochs
  eq_of_epoch_eq : ∀ l', w.phase p = .live l' → l'.epoch = l.epoch → l' = l

namespace World.Keeps

theorem of_party (h : w.Keeps p l)
    (hparty : w'.party p = w.party p ∨ w'.party p = { w.party p with phase := .idle }) :
    w'.Keeps p l := by
  obtain heq | heq := hparty
  · exact ⟨heq ▸ h.le, fun l' hlive =>
      h.eq_of_epoch_eq l' ((congrArg Party.phase heq).symm.trans hlive)⟩
  · refine ⟨by rw [heq]; exact h.le, fun l' hlive => ?_⟩
    cases (congrArg Party.phase heq).symm.trans hlive

theorem epoch_ne (h : w.Keeps p l) (hnone : l.capture = none) {l' : Live}
    (hlive : w.phase p = .live l') (hcapture : l'.capture ≠ none) : l'.epoch ≠ l.epoch :=
  fun hepoch => hcapture (h.eq_of_epoch_eq l' hlive hepoch ▸ hnone)

/-- Another session counts on. -/
theorem retune (h : w.Keeps p l) {l' : Live} (s : Strategy) (hne : l'.epoch ≠ l.epoch) :
    (w.setPhase p (.live { l' with strategy := s })).Keeps p l := by
  refine ⟨?_, fun l₁ hlive₁ hepoch => ?_⟩
  · rw [party_setPhase_self]
    exact h.le
  · rw [phase_setPhase_self] at hlive₁
    cases hlive₁
    exact absurd hepoch hne

/-- A party that writes can leave a session or begin one, but it takes no update in. -/
theorem move (h : w.Keeps p l) (hwriting : (w.party p).writing = true) (hmove : Move p w w') :
    w'.Keeps p l := by
  refine ⟨Nat.le_trans h.le (hmove.worldSteps.epochs_le p), fun l' hlive' hepoch => ?_⟩
  obtain hlive | ⟨l₁, s, -, hfree, -⟩ | ⟨hnew, -⟩ := hmove.live_cases hlive'
  · exact h.eq_of_epoch_eq l' hlive hepoch
  · cases hwriting.symm.trans hfree
  · exact absurd h.le (Nat.not_le_of_lt (hepoch ▸ hnew))

/-- A session that was written for captures again, and is otherwise as it was. -/
theorem resume (h : w.Keeps p l) (hnone : l.capture = none) {l' : Live}
    (hlive' : (w.resume p l.epoch).phase p = .live l') (hepoch : l'.epoch = l.epoch) :
    ∃ id, l' = { l with capture := some id } := by
  obtain ⟨heq, hcaptures⟩ | ⟨l₁, hlive₁, hepoch₁, -, heq⟩ := w.resume_cases p l.epoch
  · rw [heq] at hlive'
    obtain rfl := h.eq_of_epoch_eq l' hlive' hepoch
    exact absurd hnone (hcaptures l' hlive' rfl)
  · obtain rfl := h.eq_of_epoch_eq l₁ hlive₁ hepoch₁
    rw [heq, phase_setPhase_self] at hlive'
    cases hlive'
    exact ⟨_, rfl⟩

end World.Keeps

/-- While a party writes, nothing changes the session that it writes for: neither an edit that is
captured nor an update that arrives. -/
theorem CallEffect.keeps {called : Nat → Prop} (h : CallEffect reactive called w w')
    (hwriting : (w.party p).writing = true) (hnone : l.capture = none) (hw : w.Keeps p l) :
    w'.Keeps p l := by
  refine h.invariant_while_writing (P := fun v => v.Keeps p l) hwriting .of_party ?_ ?_ .move hw
  · intro v l' s hv hlive hcapture
    exact hv.retune s (hv.epoch_ne hnone hlive hcapture)
  · intro v peer reason hv
    refine ⟨?_, fun l' hlive => hv.eq_of_epoch_eq l' ((phase_emit ..).symm.trans hlive)⟩
    rw [party_emit_self]
    exact hv.le

/-! ## Accepting -/

/-- What an offer has become when it has been accepted.  Hooks and listeners may have done
anything meanwhile. -/
structure Offered.Adopted (o : Offered) (depth p d : Nat) (w w' : World) : Prop where
  /-- The text is written in place of all that the document held at first.  The listeners are told,
  and after that no text changes. -/
  exists_written : ∃ s v u, HookRun (nestedCaller depth) d ((w.setWriting p true).join p d o s) v ∧
    Document.notify (notifyOne (nestedCaller depth)) ((w.document d).overwriting o.buffer)
      (v.document d).listeners (v.setDocument d { v.document d with
        text := o.buffer ++ (v.document d).text.drop (w.document d).length }) = .ok u ∧
    ∀ e, (w'.document e).text = (u.document e).text
  /-- The session, unless it is over, has counted what was sent to the offer. -/
  session : ∀ l, w'.phase p = .live l → l.epoch = (w.party p).epochs + 1 →
    l.participants = o.participants ∧ l.document = d ∧
      (Strategy.start (w.party p).config.strategy .receiver).skip? o.buffered = some l.strategy ∧
      ∃ id, l.capture = some id ∧ w'.HasCapture d id p l.epoch
  /-- The first edit that the session captures says so. -/
  attempt : (w.party p).config.strategy = .backlog → ∀ l, w'.phase p = .live l →
    l.epoch = (w.party p).epochs + 1 → ∀ {v v' : World} {e : Edit}, v.phase p = .live l →
      e.isNoop = false → v.capture p l.epoch e = .ok v' →
        Attempt p o.participants.initiator ⟨e, 1, o.buffered⟩ v v'

/-- An offer is accepted when its text has been written for the session that is made of it. -/
theorem exists_write_of_accept (hoffered : w.phase p = .offered o)
    (h : w.accept write p d = .ok (.ok (), w')) :
    ∃ s u, (w.party p).writing = false ∧
      (Strategy.start (w.party p).config.strategy .receiver).skip? o.buffered = some s ∧
      write d ((w.document d).overwriting o.buffer) ((w.setWriting p true).join p d o s) =
        .ok (.ok (), u) ∧
      w' = ((u.resume p ((w.setWriting p true).nextEpoch p).1).emit p
        (.started o.participants.initiator .receiver)).setWriting p false := by
  obtain ⟨hfree, hrun⟩ := AcceptRun.of_accept h
  cases hrun with
  | @accepted o' epoch v u hoffered' henter hwritten =>
      obtain rfl := Phase.offered.inj (hoffered.symm.trans hoffered')
      obtain ⟨s, hskip, rfl, rfl⟩ := exists_join_of_enter henter
      rw [(Silent.setWriting w p true).config] at hskip
      exact ⟨s, u, hfree, hskip, hwritten, rfl⟩

theorem nextEpoch_setWriting (w : World) (p : Nat) :
    ((w.setWriting p true).nextEpoch p).1 = (w.party p).epochs + 1 := by
  simp [World.nextEpoch, World.setWriting]

theorem Offered.Adopted.of_accept (h : w.Interlude reactive) (hoffered : w.phase p = .offered o)
    (hother : o.participants.other = o.participants.initiator)
    (haccept : w.accept (World.write depth) p d = .ok (.ok (), w')) : o.Adopted depth p d w w' := by
  have henrolled : Enrolled w' := by
    have hcall : perform (World.write depth) (.accept p d) w = .ok (.shared (.ok ()), w') :=
      bind_eq_ok_iff.2 ⟨_, haccept, rfl⟩
    exact (World.Interlude.call h hcall).enrolled
  obtain ⟨s, u, hfree, hskip, hwrite, rfl⟩ := exists_write_of_accept hoffered haccept
  have hopening := Opening.accept o d s hoffered
  have hready := h.ready.opening hopening
  -- Nothing that is done while the text is written changes the session.
  have hkeeps : ((w.setWriting p true).join p d o s).Keeps p
      ⟨o.participants, ((w.setWriting p true).nextEpoch p).1, d, none, s, true⟩ := by
    refine ⟨hready.subscribed.epoch_le p _ hopening.phase_eq, fun l' hlive' _ => ?_⟩
    cases hopening.phase_eq.symm.trans hlive'
    rfl
  replace hkeeps := (CallEffect.of_write hready hwrite).keeps hopening.writing_eq rfl hkeeps
  have hsession : ∀ l, (((u.resume p ((w.setWriting p true).nextEpoch p).1).emit p
      (.started o.participants.initiator .receiver)).setWriting p false).phase p = .live l →
      l.epoch = (w.party p).epochs + 1 → ∃ id, l = ⟨o.participants,
        ((w.setWriting p true).nextEpoch p).1, d, some id, s, true⟩ := by
    intro l hlive hepoch
    rw [phase_setWriting, phase_emit] at hlive
    exact hkeeps.resume rfl hlive (hepoch.trans (nextEpoch_setWriting w p).symm)
  refine ⟨?_, fun l hlive hepoch => ?_, fun hbacklog l hlive hepoch v v' e hv hnoop hcapture => ?_⟩
  · rw [write_eq] at hwrite
    obtain ⟨v, hhook, ⟨⟨reason, hrefused⟩, -⟩ | ⟨-, text, happly, hnotify⟩⟩ :=
      exists_commit_of_writeVia hwrite
    · cases hrefused
    · rw [eq_append_of_apply happly] at hnotify
      exact ⟨s, v, u, hhook, hnotify, fun e => (Silent.resume u p _).text e⟩
  · obtain ⟨id, rfl⟩ := hsession l hlive hepoch
    exact ⟨rfl, rfl, hskip, id, rfl, henrolled.hasCapture p _ id hlive rfl⟩
  · obtain ⟨id, rfl⟩ := hsession l hlive hepoch
    rw [hbacklog] at hskip
    obtain ⟨b, hb, rfl⟩ := Strategy.skip?_backlog_eq_some_iff.1 hskip
    obtain ⟨-, rfl⟩ := Backlog.skip?_start_eq_some_iff.1 hb
    have hattempt := (attempt_of_capture hv rfl hnoop hcapture).1
    rw [hother] at hattempt
    exact hattempt

/-! ### Documents that nobody watches -/

/-- Nobody does anything about edits of the document: it has no hook, and what listens is through
with its reactions. -/
structure World.Unheeded (w : World) (d : Nat) : Prop where
  hook : (w.surfaces.get d).hook = none
  idle : ∀ listener ∈ (w.document d).listeners, ∃ i, listener.2 = .host i ∧ w.scripts.get i = []

theorem notify_of_idle {caller : Caller} {e : Edit} {listeners : List (Nat × Subscriber)}
    (h : ∀ listener ∈ listeners, ∃ i, listener.2 = .host i ∧ w.scripts.get i = []) :
    Document.notify (notifyOne caller) e listeners w = .ok w := by
  induction listeners with
  | nil => rfl
  | cons listener rest ih =>
      obtain ⟨i, hhost, hscript⟩ := h listener List.mem_cons_self
      refine bind_eq_ok_iff.2 ⟨w, ?_, ih fun l hl => h l (List.mem_cons_of_mem _ hl)⟩
      simp only [hhost, notifyOne, hscript]

/-- An edit that fits is put in, and nothing else happens. -/
theorem World.Unheeded.exists_write (h : w.Unheeded d) (depth : Nat) {e : Edit} {text : Text}
    (happly : e.apply (w.document d).text = .ok text) :
    ∃ w', World.write depth d e w = .ok (.ok (), w') ∧ (∀ q, w'.party q = w.party q) ∧
      (w'.document d).text = text ∧ w'.Unheeded d := by
  let w' := w.setDocument d { w.document d with text := text }
  have hdocument : w'.document d = { w.document d with text := text } :=
    document_setDocument_self ..
  refine ⟨w', ?_, fun _ => rfl, congrArg Document.text hdocument, ?_, ?_⟩
  · rw [write_eq]
    refine writeVia_of_hookRun (.none h.hook) (fun hook hsome => ?_) happly
      (notify_of_idle (w := w') h.idle)
    rw [h.hook] at hsome
    cases hsome
  · exact (hook_setDocument w d d _).trans h.hook
  · rw [hdocument]
    exact h.idle

/-- Nobody but a session does anything about edits of its document. -/
structure World.Poised (w : World) (p : Nat) (l : Live) : Prop where
  phase : w.phase p = .live l
  hook : (w.surfaces.get l.document).hook = none
  listeners : ∃ hosts id, (w.document l.document).listeners = hosts ++ [(id, .capture p l.epoch)] ∧
    ∀ listener ∈ hosts, ∃ i, listener.2 = .host i ∧ w.scripts.get i = []

namespace World.Poised

theorem tell (h : w.Poised p l) (q : Nat) (news : Option Event) : (w.tell q news).Poised p l := by
  cases news with
  | none => exact h
  | some event => exact ⟨(phase_emit w q event p).trans h.phase, h.hook, h.listeners⟩

theorem setWriting (h : w.Poised p l) (q : Nat) (writing : Bool) :
    (w.setWriting q writing).Poised p l :=
  ⟨(phase_setWriting w q writing p).trans h.phase, h.hook, h.listeners⟩

end World.Poised

end PairEdit.Session
