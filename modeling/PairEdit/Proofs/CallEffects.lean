import PairEdit.Proofs.Passive

/-!
# Who does what in a call

A call is made to a party, but others may act in it as well: a session sends what is edited on
its document, whoever edits it, and hooks and listeners make calls to parties of their own.
`CallEffect` says of every change that a call makes which party makes it.  The parties that are
called make moves; those that are not only send what they capture, and go when nobody holds them.
A write is one change, whatever is done in reaction to it.
-/

namespace PairEdit.Session

open World

variable {w w' w'' : World} {p q d : Nat}

/-! ## Being let go of -/

/-- Nothing happens to the parties that do not act, except that one that the host has let go of
may have become idle. -/
structure KeepsOthers (acts : Nat → Prop) (w w' : World) : Prop where
  party : ∀ q, ¬ acts q → w'.party q = w.party q ∨
    (w.party q).released = true ∧ w'.party q = { w.party q with phase := .idle }

namespace KeepsOthers

variable {acts : Nat → Prop}

theorem of_eq (h : ∀ q, ¬ acts q → w'.party q = w.party q) : KeepsOthers acts w w' :=
  ⟨fun q hq => .inl (h q hq)⟩

theorem refl (acts : Nat → Prop) (w : World) : KeepsOthers acts w w := of_eq fun _ _ => rfl

theorem trans (h : KeepsOthers acts w w') (h' : KeepsOthers acts w' w'') :
    KeepsOthers acts w w'' := by
  refine ⟨fun q hq => ?_⟩
  obtain heq | ⟨hreleased, heq⟩ := h.party q hq
  · rw [← heq]
    exact h'.party q hq
  · refine .inr ⟨hreleased, ?_⟩
    obtain heq' | ⟨-, heq'⟩ := h'.party q hq
    · rw [heq', heq]
    · rw [heq', heq]

theorem modifyParty (w : World) (p : Nat) (f : Party → Party) :
    KeepsOthers (· = p) w (w.modifyParty p f) :=
  of_eq fun _ hq => party_modifyParty_of_ne w f hq

theorem emit (w : World) (p : Nat) (event : Event) : KeepsOthers (· = p) w (w.emit p event) :=
  modifyParty ..

theorem setPhase (w : World) (p : Nat) (phase : Phase) :
    KeepsOthers (· = p) w (w.setPhase p phase) :=
  modifyParty ..

theorem setWriting (w : World) (p : Nat) (writing : Bool) :
    KeepsOthers (· = p) w (w.setWriting p writing) :=
  modifyParty ..

theorem send (w : World) (p : Nat) (peer : PeerId) (m : Message) :
    KeepsOthers acts w (w.send p peer m).2 :=
  of_eq fun q _ => party_send w p peer m q

theorem resume (w : World) (p epoch : Nat) : KeepsOthers (· = p) w (w.resume p epoch) := by
  obtain ⟨heq, -⟩ | ⟨l, -, -, -, heq⟩ := w.resume_cases p epoch
  · rw [heq]
    exact refl _ w
  · rw [heq]
    exact of_eq fun q hq => party_setPhase_of_ne (w.attach p epoch _).2 _ hq

theorem initiate (w : World) (p d : Nat) (participants : Participants) (s : Strategy) :
    KeepsOthers (· = p) w (w.initiate p d participants s) :=
  of_eq fun _ hq => (party_setPhase_of_ne ((w.nextEpoch p).2.attach p _ d).2 _ hq).trans
    (party_modifyParty_of_ne w _ hq)

theorem suspend (w : World) (p : Nat) (l : Live) (s : Strategy) :
    KeepsOthers (· = p) w (w.suspend p l s) :=
  (setPhase w p _).trans (of_eq fun _ _ => party_detach ..)

theorem join (w : World) (p d : Nat) (o : Offered) (s : Strategy) :
    KeepsOthers (· = p) w (w.join p d o s) :=
  (modifyParty w p _).trans (setPhase _ p _)

/-- A party that nobody can call is one that its host has let go of. -/
theorem vacate (hheld : w.holdsParty p = false) : KeepsOthers acts w (w.vacate p) := by
  refine ⟨fun q _ => ?_⟩
  by_cases hq : q = p
  · subst hq
    have hreleased : (w.party q).released = true := by
      rw [World.holdsParty, Bool.or_eq_false_iff, Bool.not_eq_false'] at hheld
      exact hheld.1
    refine .inr ⟨hreleased, (party_detach ..).trans ?_⟩
    rw [World.setPhase, party_modifyParty_self]
  · exact .inl (party_vacate_of_ne w hq)

theorem collect (acts : Nat → Prop) (w : World) : KeepsOthers acts w w.collect :=
  ReleaseClosed.collect ⟨refl acts, trans, fun _ _ => of_eq fun _ _ => rfl, vacate,
    fun _ _ => of_eq fun _ _ => rfl⟩ w

/-- To leave is to become idle, after which others may be gone. -/
theorem setPhase_leave (acts : Nat → Prop) (w : World) (p : Nat) :
    KeepsOthers acts (w.setPhase p .idle) (w.leave p) := by
  have hvacate : KeepsOthers acts (w.setPhase p .idle) (w.vacate p) :=
    of_eq fun _ _ => party_detach ..
  obtain heq | heq := w.leave_cases p
  · exact heq ▸ hvacate
  · exact heq ▸ hvacate.trans (collect acts _)

theorem leave (w : World) (p : Nat) : KeepsOthers (· = p) w (w.leave p) :=
  (setPhase w p _).trans (setPhase_leave _ w p)

theorem of_endRun (h : EndRun p w w') : KeepsOthers (· = p) w w' := by
  cases h with
  | none => exact refl _ w
  | left => exact (leave w p).trans (emit _ p _)
  | told => exact (leave w p).trans ((emit _ p _).trans (send ..))

/-- A party that the host holds on to and that does not act is as it was. -/
theorem party_eq (h : KeepsOthers acts w w') (hq : ¬ acts q)
    (hheld : (w.party q).released = false) :
    w'.party q = w.party q := by
  obtain heq | ⟨hreleased, -⟩ := h.party q hq
  · exact heq
  · rw [hheld] at hreleased
    cases hreleased

/-- A party that does not act is in the phase it was in, or idle. -/
theorem phase_eq (h : KeepsOthers acts w w') (hq : ¬ acts q) :
    w'.phase q = w.phase q ∨ w'.phase q = .idle := by
  obtain heq | ⟨-, heq⟩ := h.party q hq
  · exact .inl (congrArg Party.phase heq)
  · exact .inr (congrArg Party.phase heq)

end KeepsOthers

/-- A party that leaves is idle and otherwise as it was. -/
theorem World.party_leave_self (w : World) (p : Nat) :
    (w.leave p).party p = { w.party p with phase := .idle } := by
  have hidle : (w.setPhase p .idle).party p = { w.party p with phase := .idle } := by
    rw [World.setPhase, party_modifyParty_self]
  obtain heq | ⟨-, heq⟩ := (KeepsOthers.setPhase_leave (fun _ => False) w p).party p not_false
  · rw [heq, hidle]
  · rw [heq, hidle]

/-! ## Moves -/

/-- Tell the host of a party something, or nothing. -/
def World.tell (w : World) (p : Nat) : Option Event → World
  | none => w
  | some event => w.emit p event

/-- What a party does that is called, unless it writes. -/
inductive Move (p : Nat) (w : World) : World → Prop where
  | offer (o : Offered) (hidle : w.phase p = .idle)
      (hother : o.participants.other = o.participants.initiator) :
      Move p w ((w.setPhase p (.offered o)).emit p (.startRequested o.toOffer))
  | refuse (peer : PeerId) (hbusy : w.phase p ≠ .idle) : Move p w (w.emit p (.refused peer))
  | absorb (o : Offered) (text : Text) (n : Nat) (hoffered : w.phase p = .offered o) :
      Move p w (w.setPhase p (.offered { o with buffer := text, buffered := n }))
  | retune (l : Live) (s : Strategy) (hlive : w.phase p = .live l)
      (hfree : (w.party p).writing = false) :
      Move p w (w.setPhase p (.live { l with strategy := s }))
  | depart (peer : PeerId) (reason : EndReason) (hother : (w.phase p).other = some peer) :
      Move p w ((w.leave p).emit p (.ended peer reason))
  | begin (d : Nat) (participants : Participants) (s : Strategy) (m : Message)
      (hidle : w.phase p = .idle) :
      Move p w (((w.initiate p d participants s).send p participants.other m).2.emit p
        (.started participants.other .initiator))
  | lapse (d : Nat) (participants : Participants) (s : Strategy) (hidle : w.phase p = .idle) :
      Move p w ((w.initiate p d participants s).leave p)

/-- A party begins to write: an edit of the peer, or the text of an offer.  The session is as
said then, and what the host will be told is known. -/
inductive Opening (p : Nat) (w : World) : Live → Option Event → World → Prop where
  | update (l : Live) (s : Strategy) (hlive : w.phase p = .live l) :
      Opening p w { l with strategy := s, confirmed := true, capture := none }
        (if l.confirmed then none else some (.confirmed l.participants.other))
        ((w.suspend p l s).setWriting p true)
  | accept (o : Offered) (d : Nat) (s : Strategy) (hoffered : w.phase p = .offered o) :
      Opening p w ⟨o.participants, ((w.setWriting p true).nextEpoch p).1, d, none, s, true⟩
        (some (.started o.participants.initiator .receiver)) ((w.setWriting p true).join p d o s)

/-- A party has written, and captures again if it still can: it tells the host, or ends the
session because the document refused. -/
inductive Closing (p epoch : Nat) (news : Option Event) (w : World) : World → Prop where
  | told : Closing p epoch news w (w.tell p news)
  | ended : Closing p epoch news w (w.endSession p epoch .invalidOperation)

/-- What a call makes of a world, when the parties in `called` are called in it, and those in
`reactive` in reaction to edits. -/
inductive CallEffect (reactive : Nat → Prop) : (Nat → Prop) → World → World → Prop where
  | refl (called : Nat → Prop) (w : World) : CallEffect reactive called w w
  | trans {called : Nat → Prop} {w w' w'' : World} (h : CallEffect reactive called w w')
      (h' : CallEffect reactive called w' w'') : CallEffect reactive called w w''
  /-- Nothing is done to a party. -/
  | aside {called : Nat → Prop} {w w' : World} (h : WorldStep w w')
      (hparty : ∀ q, w'.party q = w.party q) (hwaits : ∀ c, w'.Waits c → w.Waits c) :
      CallEffect reactive called w w'
  | collect (called : Nat → Prop) (w : World) : CallEffect reactive called w w.collect
  | captured (called : Nat → Prop) {w : World} {p : Nat} (l : Live) (s : Strategy)
      (hlive : w.phase p = .live l) (hcapture : l.capture ≠ none) :
      CallEffect reactive called w (w.setPhase p (.live { l with strategy := s }))
  | unsent (called : Nat → Prop) {w : World} {p : Nat} (l : Live) (reason : ShareError)
      (hlive : w.phase p = .live l) (hcapture : l.capture ≠ none) :
      CallEffect reactive called w (w.emit p (.sendFailed l.participants.other reason))
  | move {called : Nat → Prop} {w w' : World} {p : Nat} (hp : called p) (h : Move p w w') :
      CallEffect reactive called w w'
  | write {called : Nat → Prop} {w w₀ v v' : World} {p : Nat} {l : Live} {news : Option Event}
      (hp : called p) (hfree : (w.party p).writing = false) (hopening : Opening p w l news w₀)
      (hreactions : CallEffect reactive reactive w₀ v)
      (hclosing : Closing p l.epoch news (v.resume p l.epoch) v') :
      CallEffect reactive called w (v'.setWriting p false)

/-! ### What they are made of -/

theorem World.tell_cases (w : World) (p : Nat) (news : Option Event) :
    w.tell p news = w ∨ ∃ event, news = some event ∧ w.tell p news = w.emit p event := by
  cases news with
  | none => exact .inl rfl
  | some event => exact .inr ⟨event, rfl, rfl⟩

theorem World.tell_party {α : Type} {π : Party → α}
    (hevents : ∀ party events, π { party with events := events } = π party) (w : World) (p : Nat)
    (news : Option Event) (q : Nat) : π ((w.tell p news).party q) = π (w.party q) := by
  cases news with
  | none => rfl
  | some event => exact apply_party_modifyParty (fun party => hevents party _) p q

@[simp]
theorem World.phase_tell (w : World) (p : Nat) (news : Option Event) (q : Nat) :
    (w.tell p news).phase q = w.phase q :=
  tell_party (π := Party.phase) (fun _ _ => rfl) w p news q

@[simp]
theorem World.document_tell (w : World) (p : Nat) (news : Option Event) (d : Nat) :
    (w.tell p news).document d = w.document d := by
  cases news <;> rfl

theorem World.events_tell_self (w : World) (p : Nat) (news : Option Event) :
    ((w.tell p news).party p).events = (w.party p).events ++ news.toList := by
  cases news with
  | none => exact (List.append_nil _).symm
  | some event => exact events_emit_self w p event

@[simp]
theorem World.phase_join_self (w : World) (p d : Nat) (o : Offered) (s : Strategy) :
    (w.join p d o s).phase p = .live ⟨o.participants, (w.nextEpoch p).1, d, none, s, true⟩ :=
  phase_setPhase_self ..

theorem World.waits_emit {event : Event} {c : Call} (hc : (w.emit p event).Waits c) : w.Waits c :=
  hc

theorem World.waits_send {peer : PeerId} {m : Message} {c : Call}
    (hc : (w.send p peer m).2.Waits c) : w.Waits c := by
  rwa [Waits, send_surfaces, send_scripts] at hc

theorem World.waits_initiate {participants : Participants} {s : Strategy} {c : Call}
    (hc : (w.initiate p d participants s).Waits c) : w.Waits c :=
  hc.of_le (fun e => .inl (hook_setDocument (w.nextEpoch p).2 d e _)) fun _ _ hnow => hnow

theorem World.exists_phase_initiate (w : World) (p d : Nat) (participants : Participants)
    (s : Strategy) : ∃ id, (w.initiate p d participants s).phase p =
      .live ⟨participants, (w.nextEpoch p).1, d, some id, s, false⟩ :=
  ⟨_, phase_setPhase_self ..⟩

theorem World.events_initiate (w : World) (p d : Nat) (participants : Participants)
    (s : Strategy) :
    ((w.initiate p d participants s).party p).events = (w.party p).events := by
  have hset := events_setPhase_self ((w.nextEpoch p).2.attach p (w.nextEpoch p).1 d).2 p
  have hnext : ((w.nextEpoch p).2.party p).events = (w.party p).events := by
    rw [World.nextEpoch, party_modifyParty_self]
  exact (hset _).trans hnext

/-- A start is refused, or its offer cannot be sent and the session that it began is left again,
or the party is in the session and its host knows. -/
theorem World.start_cases (w : World) (p : Nat) (our : PeerId) (name : Option Text)
    (other : PeerId) (fileName : Text) (d : Nat) :
    (∃ reason, w.start p our name other fileName d = (.error reason, w)) ∨
      our ≠ other ∧ our = w.identity p ∧ w.phase p = .idle ∧
        ∃ s, s = Strategy.start (w.party p).config.strategy .initiator ∧
          ((∃ reason, w.start p our name other fileName d =
              (.error reason, (w.initiate p d ⟨our, our, other⟩ s).leave p)) ∨
            ∃ m, w.start p our name other fileName d =
              (.ok (), ((w.initiate p d ⟨our, our, other⟩ s).send p other m).2.emit p
                (.started other .initiator))) := by
  by_cases hother : our = other
  · exact .inl ⟨_, if_pos hother⟩
  · by_cases hour : our = w.identity p
    · cases hphase : w.phase p with
      | idle =>
          refine .inr ⟨hother, hour, rfl, _, rfl, ?_⟩
          rw [start_eq_of_idle hother hour hphase]
          generalize Message.start _ = m
          generalize Strategy.start _ Role.initiator = s
          obtain ⟨reason, hsend, -⟩ | ⟨target, hsend, -⟩ :=
            (w.initiate p d ⟨our, our, other⟩ s).send_cases p other m
          · obtain ⟨id, hlive⟩ := w.exists_phase_initiate p d ⟨our, our, other⟩ s
            refine .inl ⟨reason, ?_⟩
            simp only [hsend, hlive, Phase.isEpoch, beq_self_eq_true, if_true]
          · refine .inr ⟨m, ?_⟩
            rw [hsend]
      | offered | live =>
          refine .inl ⟨.busy, ?_⟩
          rw [start, if_neg hother, if_neg (not_not_intro hour)]
          simp only [hphase]
    · exact .inl ⟨_, (if_neg hother).trans (if_pos hour)⟩

namespace Opening

variable {l : Live} {news : Option Event}

theorem phase_eq (h : Opening p w l news w') : w'.phase p = .live l := by
  cases h with
  | update l s hlive => rw [phase_setWriting, phase_suspend_self]
  | accept o d s hoffered => exact phase_join_self ..

theorem capture_eq (h : Opening p w l news w') : l.capture = none := by
  cases h <;> rfl

theorem writing_eq (h : Opening p w l news w') : (w'.party p).writing = true := by
  cases h with
  | update => rw [World.setWriting, party_modifyParty_self]
  | accept => simp [World.join, World.setPhase, World.nextEpoch, World.setWriting]

theorem keepsOthers (h : Opening p w l news w') : KeepsOthers (· = p) w w' := by
  cases h with
  | update l s hlive => exact (KeepsOthers.suspend w p l s).trans (KeepsOthers.setWriting _ p _)
  | accept o d s hoffered => exact (KeepsOthers.setWriting w p _).trans (KeepsOthers.join _ p d o s)

theorem silent (h : Opening p w l news w') : Silent w w' := by
  cases h with
  | update l s hlive => exact (Silent.suspend w s hlive).trans (Silent.setWriting ..)
  | accept o d s hoffered =>
      exact (Silent.setWriting w p true).trans
        (Silent.join _ d s ((phase_setWriting w p true p).trans hoffered))

/-- What a write opens with are world steps up to the lock. -/
theorem worldSteps_of {u : World} (h : Opening p w l news w') (hfree : (w.party p).writing = false)
    (hsteps : WorldSteps w' u) : WorldSteps w (u.setWriting p false) := by
  cases h with
  | update l s hlive =>
      have hfree' : ((w.suspend p l s).party p).writing = false := by
        simpa [World.suspend, World.setPhase] using hfree
      exact .trans (.single (.suspend w p l s hlive)) (.writing p hfree' hsteps)
  | accept o d s hoffered =>
      have hjoin : WorldStep (w.setWriting p true) _ :=
        .join _ p d o s ((phase_setWriting w p true p).trans hoffered)
      exact .writing p hfree (.trans (.single hjoin) hsteps)

end Opening

theorem EndRun.waits (h : EndRun p w w') {c : Call} (hc : w'.Waits c) : w.Waits c := by
  cases h with
  | none => exact hc
  | left => exact (Silent.leave w p).waits (waits_emit hc)
  | told => exact (Silent.leave w p).waits (waits_emit (waits_send hc))

/-- The party that ends something is idle then. -/
theorem EndRun.phase_eq (h : EndRun p w w') : w'.phase p = w.phase p ∨ w'.phase p = .idle := by
  cases h with
  | none => exact .inl rfl
  | left => exact .inr ((phase_emit ..).trans (phase_leave_self ..))
  | told => exact .inr ((phase_send ..).trans ((phase_emit ..).trans (phase_leave_self ..)))

namespace Closing

variable {epoch : Nat} {news : Option Event}

theorem worldSteps (h : Closing p epoch news w w') : WorldSteps w w' := by
  cases h with
  | told =>
      obtain heq | ⟨event, -, heq⟩ := w.tell_cases p news
      · rw [heq]
        exact .refl w
      · rw [heq]
        exact .single (.emit w p event)
  | ended => exact worldSteps_endSession ..

theorem keepsOthers (h : Closing p epoch news w w') : KeepsOthers (· = p) w w' := by
  cases h with
  | told =>
      obtain heq | ⟨event, -, heq⟩ := w.tell_cases p news
      · rw [heq]
        exact KeepsOthers.refl _ w
      · rw [heq]
        exact KeepsOthers.emit w p event
  | ended => exact .of_endRun (.endSession ..)

theorem waits {c : Call} (h : Closing p epoch news w w') (hc : w'.Waits c) : w.Waits c := by
  cases h with
  | told =>
      obtain heq | ⟨event, -, heq⟩ := w.tell_cases p news
      · rwa [heq] at hc
      · rw [heq] at hc
        exact hc
  | ended =>
      exact (EndRun.endSession w p epoch .invalidOperation).waits hc

end Closing

namespace Move

theorem worldSteps (h : Move p w w') : WorldSteps w w' := by
  cases h with
  | offer o hidle => exact .trans (.single (.offer w p o hidle)) (.single (.emit _ p _))
  | refuse peer => exact .single (.emit w p _)
  | absorb o text n hoffered => exact .single (.absorb w p o text n hoffered)
  | retune l s hlive => exact .single (.retune w p l s hlive)
  | depart peer reason => exact .trans (worldSteps_leave w p) (.single (.emit _ p _))
  | begin d participants s m hidle =>
      exact .trans (.single (.initiate w p d participants s hidle))
        (.trans (.single (.send _ p _ m)) (.single (.emit _ p _)))
  | lapse d participants s hidle =>
      exact .trans (.single (.initiate w p d participants s hidle)) (worldSteps_leave _ p)

theorem keepsOthers (h : Move p w w') : KeepsOthers (· = p) w w' := by
  cases h with
  | offer o => exact (KeepsOthers.setPhase w p _).trans (KeepsOthers.emit _ p _)
  | refuse peer => exact KeepsOthers.emit w p _
  | absorb | retune => exact KeepsOthers.setPhase w p _
  | depart peer reason => exact (KeepsOthers.leave w p).trans (KeepsOthers.emit _ p _)
  | begin d participants s m =>
      exact (KeepsOthers.initiate w p d _ s).trans
        ((KeepsOthers.send ..).trans (KeepsOthers.emit _ p _))
  | lapse d participants s => exact (KeepsOthers.initiate w p d _ s).trans (KeepsOthers.leave _ p)

/-- A session was there before a move, perhaps with another strategy, or it is a new one, which
captures. -/
theorem live_cases (h : Move p w w') {l' : Live} (hlive' : w'.phase p = .live l') :
    w.phase p = .live l' ∨
      (∃ l s, w.phase p = .live l ∧ (w.party p).writing = false ∧ l' = { l with strategy := s }) ∨
      (w.party p).epochs < l'.epoch ∧ l'.capture ≠ none := by
  cases h with
  | offer o =>
      rw [phase_emit, phase_setPhase_self] at hlive'
      cases hlive'
  | refuse peer => exact .inl ((phase_emit ..).symm.trans hlive')
  | absorb o text n =>
      rw [phase_setPhase_self] at hlive'
      cases hlive'
  | retune l s hlive hfree =>
      rw [phase_setPhase_self] at hlive'
      cases hlive'
      exact .inr (.inl ⟨l, s, hlive, hfree, rfl⟩)
  | depart peer reason =>
      rw [phase_emit, phase_leave_self] at hlive'
      cases hlive'
  | begin d participants s m =>
      obtain ⟨id, hlive⟩ := w.exists_phase_initiate p d participants s
      rw [phase_emit, phase_send, hlive] at hlive'
      cases hlive'
      exact .inr (.inr ⟨Nat.lt_succ_self _, nofun⟩)
  | lapse d participants s =>
      rw [phase_leave_self] at hlive'
      cases hlive'

theorem waits {c : Call} (h : Move p w w') (hc : w'.Waits c) : w.Waits c := by
  cases h with
  | offer | refuse | absorb | retune => exact hc
  | depart peer reason => exact (Silent.leave w p).waits (waits_emit hc)
  | begin d participants s m => exact waits_initiate (waits_send (waits_emit hc))
  | lapse d participants s => exact waits_initiate ((Silent.leave _ p).waits hc)

end Move

/-! ## What the effect of a call keeps -/

/-- When a party is in a session but captures nothing, the session has one of these epochs. -/
def World.PausesOnly (w : World) (q : Nat) (paused : Nat → Prop) : Prop :=
  ∀ l, w.phase q = .live l → l.capture = none → paused l.epoch

namespace World.PausesOnly

variable {paused : Nat → Prop}

theorem of_phase_eq (h : w.PausesOnly q paused) (heq : w'.phase q = w.phase q) :
    w'.PausesOnly q paused :=
  fun l hlive => h l (heq ▸ hlive)

theorem of_not_live (h : ∀ l, w.phase q ≠ .live l) : w.PausesOnly q paused :=
  fun l hlive => absurd hlive (h l)

theorem of_idle (h : w.phase q = .idle) : w.PausesOnly q paused :=
  of_not_live fun l hlive => by rw [h] at hlive; cases hlive

theorem of_capture_ne {l : Live} (hlive : w.phase q = .live l) (hcapture : l.capture ≠ none) :
    w.PausesOnly q paused := by
  intro l' hlive' hnone
  rw [hlive] at hlive'
  cases hlive'
  exact absurd hnone hcapture

theorem keepsOthers (h : w.PausesOnly q paused) {acts : Nat → Prop} (hkeeps : KeepsOthers acts w w')
    (hq : ¬ acts q) : w'.PausesOnly q paused := by
  obtain heq | hidle := hkeeps.phase_eq hq
  · exact h.of_phase_eq heq
  · exact of_idle hidle

theorem closing {epoch : Nat} {news : Option Event} (h : w.PausesOnly q paused)
    (hclosing : Closing p epoch news w w') : w'.PausesOnly q paused := by
  by_cases hq : q = p
  · subst hq
    cases hclosing with
    | told => exact h.of_phase_eq (phase_tell w q news q)
    | ended =>
        obtain heq | hidle := (EndRun.endSession w q epoch .invalidOperation).phase_eq
        · exact h.of_phase_eq heq
        · exact of_idle hidle
  · exact h.keepsOthers hclosing.keepsOthers hq

/-- To capture again is to pause in one epoch less. -/
theorem resume {epoch : Nat} (h : w.PausesOnly q fun e => paused e ∨ e = epoch) :
    (w.resume q epoch).PausesOnly q paused := by
  obtain ⟨heq, hcaptures⟩ | ⟨l, -, -, -, heq⟩ := w.resume_cases q epoch
  · rw [heq]
    intro l hlive hnone
    exact (h l hlive hnone).resolve_right fun hepoch => hcaptures l hlive hepoch hnone
  · rw [heq]
    exact of_capture_ne (phase_setPhase_self ..) nofun

theorem move (h : w.PausesOnly q paused) (hmove : Move p w w') : w'.PausesOnly q paused := by
  by_cases hq : q = p
  · subst hq
    intro l' hlive' hnone
    obtain hlive | ⟨l, s, hlive, -, rfl⟩ | ⟨-, hcapture⟩ := hmove.live_cases hlive'
    · exact h l' hlive hnone
    · exact h l hlive hnone
    · exact absurd hnone hcapture
  · exact h.keepsOthers hmove.keepsOthers hq

end World.PausesOnly

namespace CallEffect

variable {reactive called called' : Nat → Prop}

theorem worldSteps (h : CallEffect reactive called w w') : WorldSteps w w' := by
  induction h with
  | refl => exact .refl _
  | trans _ _ ih ih' => exact .trans ih ih'
  | aside h => exact .single h
  | collect => exact worldSteps_collect _
  | captured _ l s hlive => exact .single (.retune _ _ l s hlive)
  | unsent _ l reason => exact .single (.emit _ _ _)
  | move _ h => exact h.worldSteps
  | write _ hfree hopening _ hclosing ih =>
      exact hopening.worldSteps_of hfree (.trans ih
        (.trans (.single (.resume ..)) hclosing.worldSteps))

/-- More parties may be said to be called. -/
theorem mono (h : CallEffect reactive called w w') (hle : ∀ q, called q → called' q) :
    CallEffect reactive called' w w' := by
  induction h with
  | refl => exact .refl ..
  | trans _ _ ih ih' => exact .trans (ih hle) (ih' hle)
  | aside h hparty hwaits => exact .aside h hparty hwaits
  | collect => exact .collect ..
  | captured _ l s hlive hcapture => exact .captured _ l s hlive hcapture
  | unsent _ l reason hlive hcapture => exact .unsent _ l reason hlive hcapture
  | move hp h => exact .move (hle _ hp) h
  | write hp hfree hopening hreactions hclosing =>
      exact .write (hle _ hp) hfree hopening hreactions hclosing

/-- No call waits that did not wait before. -/
theorem waits (h : CallEffect reactive called w w') {c : Call} (hc : w'.Waits c) : w.Waits c := by
  induction h with
  | refl => exact hc
  | trans _ _ ih ih' => exact ih (ih' hc)
  | aside _ _ hwaits => exact hwaits c hc
  | collect => exact (Silent.collect _).waits hc
  | captured | unsent => exact hc
  | move _ h => exact h.waits hc
  | write _ _ hopening _ hclosing ih =>
      exact hopening.silent.waits (ih ((Silent.resume ..).waits (hclosing.waits hc)))

/-- A call pauses no session: a write makes good the pause that it makes. -/
theorem pausesOnly (h : CallEffect reactive called w w') {paused : Nat → Prop}
    (hw : w.PausesOnly q paused) : w'.PausesOnly q paused := by
  induction h generalizing paused with
  | refl => exact hw
  | trans _ _ ih ih' => exact ih' (ih hw)
  | aside _ hparty => exact hw.of_phase_eq (congrArg Party.phase (hparty q))
  | collect => exact hw.keepsOthers (KeepsOthers.collect (fun _ => False) _) not_false
  | @captured _ w p l s hlive hcapture =>
      by_cases hq : q = p
      · subst hq
        exact .of_capture_ne (phase_setPhase_self ..) hcapture
      · exact hw.of_phase_eq (phase_setPhase_of_ne w _ hq)
  | unsent => exact hw.of_phase_eq (phase_emit ..)
  | move _ h => exact hw.move h
  | @write _ w w₀ v v' p l news _ _ hopening _ hclosing ih =>
      have hresumed : (v.resume p l.epoch).PausesOnly q paused := by
        by_cases hq : q = p
        · subst hq
          refine (ih fun l' hlive hnone => .inr ?_).resume
          rw [hopening.phase_eq] at hlive
          cases hlive
          rfl
        · exact (ih (hw.keepsOthers hopening.keepsOthers hq)).keepsOthers
            (KeepsOthers.resume v p l.epoch) hq
      exact (hresumed.closing hclosing).of_phase_eq (phase_setWriting ..)

/-- A party that is not called, that the host holds on to and that captures nothing is as it was. -/
theorem party_eq (h : CallEffect reactive called w w') (hcalled : ¬ called q)
    (hreactive : ¬ reactive q) (hheld : (w.party q).released = false)
    (hnone : ∀ l, w.phase q = .live l → l.capture = none) : w'.party q = w.party q := by
  induction h with
  | refl => rfl
  | trans _ _ ih ih' =>
      have heq := ih hcalled hheld hnone
      rw [ih' hcalled (by rw [heq, hheld]) (by rw [World.phase, heq]; exact hnone), heq]
  | aside _ hparty => exact hparty q
  | collect => exact (KeepsOthers.collect (fun _ => False) _).party_eq not_false hheld
  | @captured _ w p l s hlive hcapture =>
      have hq : q ≠ p := fun hq => hcapture (hnone l (hq ▸ hlive))
      exact party_setPhase_of_ne w _ hq
  | @unsent _ w p l reason hlive hcapture =>
      have hq : q ≠ p := fun hq => hcapture (hnone l (hq ▸ hlive))
      exact party_emit_of_ne w _ hq
  | @move _ w w' p hp h =>
      have hq : q ≠ p := fun hq => hcalled (hq ▸ hp)
      exact h.keepsOthers.party_eq hq hheld
  | @write _ w w₀ v v' p l news hp _ hopening _ hclosing ih =>
      have hq : q ≠ p := fun hq => hcalled (hq ▸ hp)
      have hopened := hopening.keepsOthers.party_eq hq hheld
      have hreacted : v.party q = w.party q := by
        rw [ih hreactive (by rw [hopened, hheld]) (by rw [World.phase, hopened]; exact hnone),
          hopened]
      have hclosed : KeepsOthers (· = p) v (v'.setWriting p false) :=
        (KeepsOthers.resume v p l.epoch).trans
          (hclosing.keepsOthers.trans (KeepsOthers.setWriting v' p false))
      rw [hclosed.party_eq hq (by rw [hreacted, hheld]), hreacted]

end CallEffect

end PairEdit.Session
