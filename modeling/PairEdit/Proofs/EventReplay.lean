import Mathlib.Data.List.Induction
import PairEdit.Proofs.Interludes

/-!
# Events tell the state

A host that only reads the events of a party knows the state that it is in.  `Outlook` is what
such a host knows, and `Outlook.next?` says what it makes of an event; no event of a party comes
at a time at which the host can make nothing of it.  This is for calls that are made to the party
one after another: its host makes none from inside an edit.
-/

namespace PairEdit.Session

open World

/-! ## What a host makes of events -/

/-- What is known of a party from its events. -/
inductive Outlook where
  | idle
  /-- An offer of ours, or one to us, that is not answered. -/
  | pending (role : Role) (peer : PeerId)
  | sharing (peer : PeerId)
deriving DecidableEq, Repr

namespace Outlook

/-- The state that is known. -/
def status : Outlook → Status
  | idle => .idle
  | pending role _ => .pending role
  | sharing _ => .sharing

/-- The peer that is known. -/
def peer? : Outlook → Option PeerId
  | idle => none
  | pending _ peer => some peer
  | sharing peer => some peer

/-- What is known after an event, if the event can come now. -/
def next? : Outlook → Event → Option Outlook
  | idle, .startRequested offer => some (pending .receiver offer.sender)
  | idle, .started other .initiator => some (pending .initiator other)
  | pending .receiver peer, .started other .receiver =>
      if other = peer then some (sharing peer) else none
  | pending .initiator peer, .confirmed other => if other = peer then some (sharing peer) else none
  | pending role peer, .refused _ => some (pending role peer)
  | sharing peer, .refused _ => some (sharing peer)
  | pending .initiator peer, .sendFailed other _ =>
      if other = peer then some (pending .initiator peer) else none
  | sharing peer, .sendFailed other _ => if other = peer then some (sharing peer) else none
  | pending _ peer, .ended other _ => if other = peer then some idle else none
  | sharing peer, .ended other _ => if other = peer then some idle else none
  | _, _ => none

/-- What is known after events. -/
def replay? (o : Outlook) (events : List Event) : Option Outlook := events.foldlM next? o

@[simp]
theorem replay?_nil (o : Outlook) : o.replay? [] = some o := rfl

@[simp]
theorem replay?_singleton (o : Outlook) (event : Event) : o.replay? [event] = o.next? event := by
  simp [replay?]

theorem replay?_append (o : Outlook) (events more : List Event) :
    o.replay? (events ++ more) = (o.replay? events).bind fun o' => o'.replay? more :=
  List.foldlM_append

end Outlook

/-- What is known of a party in a phase when its events tell its state. -/
def Phase.outlook : Phase → Outlook
  | idle => .idle
  | offered o => .pending .receiver o.participants.initiator
  | live l =>
      if l.confirmed then .sharing l.participants.other
      else .pending .initiator l.participants.other

theorem Phase.status_outlook (phase : Phase) : phase.outlook.status = phase.status := by
  cases phase with
  | idle | offered => rfl
  | live l =>
      simp only [outlook, status]
      split <;> rfl

theorem Phase.peer?_outlook (phase : Phase) : phase.outlook.peer? = phase.other := by
  cases phase with
  | idle | offered => rfl
  | live l =>
      simp only [outlook, other]
      split <;> rfl

/-! ### One session -/

namespace Event

/-- Whether an event says that a session began. -/
def isStarted : Event → Bool
  | started .. => true
  | _ => false

/-- Whether an event says that the peer has accepted. -/
def isConfirmed : Event → Bool
  | confirmed _ => true
  | _ => false

/-- Whether an event says that a session or an offer is over. -/
def isEnded : Event → Bool
  | ended .. => true
  | _ => false

end Event

/-- Events from the first one after idleness on, up to the next idleness at most. -/
structure OneSession (events : List Event) : Prop where
  ne_nil : events ≠ []
  unbroken : ∀ t, t <+: events → t ≠ [] → t ≠ events → Outlook.idle.replay? t ≠ some .idle

/-- How often the events of one session say the same, when it has come so far. -/
structure SessionEvents (events : List Event) (o : Outlook) : Prop where
  started_le : events.countP Event.isStarted ≤ 1
  confirmed_le : events.countP Event.isConfirmed ≤ 1
  /-- Only an initiator is told that the peer has accepted. -/
  initiator : ∀ peer, .confirmed peer ∈ events → .started peer .initiator ∈ events
  /-- The end is told once, when it is there. -/
  ended : events.countP Event.isEnded = if o = .idle then 1 else 0
  receiver : ∀ peer, o = .pending .receiver peer → events.countP Event.isStarted = 0
  unconfirmed : ∀ role peer, o = .pending role peer → events.countP Event.isConfirmed = 0
  begun : ∀ peer, o = .pending .initiator peer → .started peer .initiator ∈ events

namespace SessionEvents

variable {events : List Event} {o o' : Outlook} {event : Event}

theorem first (h : Outlook.idle.next? event = some o) : SessionEvents [event] o := by
  cases event with
  | startRequested offer =>
      cases h
      exact ⟨Nat.zero_le _, Nat.zero_le _, nofun, rfl, fun _ _ => rfl, fun _ _ _ => rfl, nofun⟩
  | started other role =>
      cases role with
      | initiator =>
          cases h
          refine ⟨Nat.le_refl _, Nat.zero_le _, nofun, rfl, nofun, fun _ _ _ => rfl, ?_⟩
          rintro _ ⟨⟩
          exact List.mem_singleton_self _
      | receiver => cases h
  | confirmed | refused | ended | sendFailed => cases h

/-- Something else is told, and the session goes on as before. -/
theorem quiet (h : SessionEvents events o) (hstarted : event.isStarted = false)
    (hconfirmed : event.isConfirmed = false) (hended : event.isEnded = false) :
    SessionEvents (events ++ [event]) o where
  started_le := by simpa [hstarted] using h.started_le
  confirmed_le := by simpa [hconfirmed] using h.confirmed_le
  initiator peer hmem := by
    obtain hmem | hmem := List.mem_append.1 hmem
    · exact List.mem_append_left _ (h.initiator peer hmem)
    · rw [← List.mem_singleton.1 hmem] at hconfirmed
      cases hconfirmed
  ended := by simpa [hended] using h.ended
  receiver peer ho := by simpa [hstarted] using h.receiver peer ho
  unconfirmed role peer ho := by simpa [hconfirmed] using h.unconfirmed role peer ho
  begun peer ho := List.mem_append_left _ (h.begun peer ho)

/-- The end is told of a session that was not over. -/
theorem closed (h : SessionEvents events o) (hbusy : o ≠ .idle) (other : PeerId)
    (reason : EndReason) :
    SessionEvents (events ++ [.ended other reason]) .idle where
  started_le := by simpa [Event.isStarted] using h.started_le
  confirmed_le := by simpa [Event.isConfirmed] using h.confirmed_le
  initiator peer hmem := by
    obtain hmem | hmem := List.mem_append.1 hmem
    · exact List.mem_append_left _ (h.initiator peer hmem)
    · cases List.mem_singleton.1 hmem
  ended := by
    have hended := h.ended
    rw [if_neg hbusy] at hended
    rw [List.countP_append, hended]
    rfl
  receiver := nofun
  unconfirmed := nofun
  begun := nofun

theorem accepted {peer : PeerId} (h : SessionEvents events (.pending .receiver peer)) :
    SessionEvents (events ++ [.started peer .receiver]) (.sharing peer) where
  started_le := by
    rw [List.countP_append, h.receiver peer rfl]
    exact Nat.le_refl _
  confirmed_le := by simpa [Event.isConfirmed] using h.confirmed_le
  initiator peer' hmem := by
    obtain hmem | hmem := List.mem_append.1 hmem
    · exact List.mem_append_left _ (h.initiator peer' hmem)
    · cases List.mem_singleton.1 hmem
  ended := by simpa [Event.isEnded] using h.ended
  receiver := nofun
  unconfirmed := nofun
  begun := nofun

theorem confirmed {peer : PeerId} (h : SessionEvents events (.pending .initiator peer)) :
    SessionEvents (events ++ [.confirmed peer]) (.sharing peer) where
  started_le := by simpa [Event.isStarted] using h.started_le
  confirmed_le := by
    rw [List.countP_append, h.unconfirmed _ peer rfl]
    exact Nat.le_refl _
  initiator peer' hmem := by
    obtain hmem | hmem := List.mem_append.1 hmem
    · exact List.mem_append_left _ (h.initiator peer' hmem)
    · cases List.mem_singleton.1 hmem
      exact List.mem_append_left _ (h.begun peer rfl)
  ended := by simpa [Event.isEnded] using h.ended
  receiver := nofun
  unconfirmed := nofun
  begun := nofun

theorem next (h : SessionEvents events o) (hbusy : o ≠ .idle) (hnext : o.next? event = some o') :
    SessionEvents (events ++ [event]) o' := by
  cases event with
  | startRequested offer =>
      cases o with
      | idle => exact absurd rfl hbusy
      | pending role => cases role <;> cases hnext
      | sharing => cases hnext
  | refused peer =>
      cases o with
      | idle => exact absurd rfl hbusy
      | pending role =>
          cases role <;> cases hnext <;> exact h.quiet rfl rfl rfl
      | sharing =>
          cases hnext
          exact h.quiet rfl rfl rfl
  | sendFailed other reason =>
      cases o with
      | idle => exact absurd rfl hbusy
      | pending role =>
          cases role with
          | initiator =>
              obtain ⟨-, ⟨⟩⟩ := Option.ite_none_right_eq_some.1 hnext
              exact h.quiet rfl rfl rfl
          | receiver => cases hnext
      | sharing =>
          obtain ⟨-, ⟨⟩⟩ := Option.ite_none_right_eq_some.1 hnext
          exact h.quiet rfl rfl rfl
  | started other role' =>
      cases o with
      | idle => exact absurd rfl hbusy
      | pending role =>
          cases role with
          | initiator => cases hnext
          | receiver =>
              cases role' with
              | initiator => cases hnext
              | receiver =>
                  obtain ⟨rfl, ⟨⟩⟩ := Option.ite_none_right_eq_some.1 hnext
                  exact h.accepted
      | sharing => cases hnext
  | confirmed other =>
      cases o with
      | idle => exact absurd rfl hbusy
      | pending role =>
          cases role with
          | initiator =>
              obtain ⟨rfl, ⟨⟩⟩ := Option.ite_none_right_eq_some.1 hnext
              exact h.confirmed
          | receiver => cases hnext
      | sharing => cases hnext
  | ended other reason =>
      cases o with
      | idle => exact absurd rfl hbusy
      | pending role =>
          cases role <;> obtain ⟨-, ⟨⟩⟩ := Option.ite_none_right_eq_some.1 hnext <;>
            exact h.closed hbusy other reason
      | sharing =>
          obtain ⟨-, ⟨⟩⟩ := Option.ite_none_right_eq_some.1 hnext
          exact h.closed hbusy other reason

/-- Whatever the events of one session say, they say it as often as they should. -/
theorem of_replay? (hone : OneSession events) (h : Outlook.idle.replay? events = some o) :
    SessionEvents events o := by
  obtain ⟨hne, hunbroken⟩ := hone
  induction events using List.reverseRecOn generalizing o with
  | nil => exact absurd rfl hne
  | append_singleton t event ih =>
      rw [Outlook.replay?_append, Option.bind_eq_some_iff] at h
      obtain ⟨before, hbefore, hnext⟩ := h
      rw [Outlook.replay?_singleton] at hnext
      by_cases ht : t = []
      · subst ht
        cases hbefore
        exact first hnext
      · have hproper : ∀ u : List Event, u <+: t → u ≠ t ++ [event] := by
          rintro u hu rfl
          exact absurd hu.length_le (by simp)
        have hsession := ih hbefore ht fun u hu hnil _ =>
          hunbroken u (hu.trans (List.prefix_append ..)) hnil (hproper u hu)
        refine hsession.next ?_ hnext
        rintro rfl
        exact hunbroken t (List.prefix_append ..) ht (hproper t (List.prefix_refl t)) hbefore

end SessionEvents

/-! ## What a party tells -/

/-- The events that a party has told meanwhile are such that a host that knew its state before
knows it after. -/
def Replays (before after : Party) : Prop :=
  ∃ more, after.events = before.events ++ more ∧
    before.phase.outlook.replay? more = some after.phase.outlook

namespace Replays

variable {a b c : Party}

theorem refl (a : Party) : Replays a a := ⟨[], (List.append_nil _).symm, rfl⟩

theorem trans (h : Replays a b) (h' : Replays b c) : Replays a c := by
  obtain ⟨more, hevents, hreplay⟩ := h
  obtain ⟨more', hevents', hreplay'⟩ := h'
  refine ⟨more ++ more', by rw [hevents', hevents, List.append_assoc], ?_⟩
  rw [Outlook.replay?_append, hreplay]
  exact hreplay'

/-- Nothing is told, and there is nothing to tell. -/
theorem of_eq (hevents : b.events = a.events) (houtlook : b.phase.outlook = a.phase.outlook) :
    Replays a b :=
  ⟨[], by rw [hevents, List.append_nil], by rw [houtlook, Outlook.replay?_nil]⟩

/-- One event is told, which is what there is to tell. -/
theorem of_next {event : Event} (hevents : b.events = a.events ++ [event])
    (hnext : a.phase.outlook.next? event = some b.phase.outlook) : Replays a b :=
  ⟨[event], hevents, by rw [Outlook.replay?_singleton, hnext]⟩

end Replays

theorem Outlook.next?_ended {phase : Phase} {other : PeerId} (hother : phase.other = some other)
    (reason : EndReason) : phase.outlook.next? (.ended other reason) = some .idle := by
  cases phase with
  | idle => cases hother
  | offered o =>
      cases hother
      exact if_pos rfl
  | live l =>
      cases hother
      simp only [Phase.outlook]
      split <;> exact if_pos rfl

theorem Outlook.next?_refused {phase : Phase} (hbusy : phase ≠ .idle) (peer : PeerId) :
    phase.outlook.next? (.refused peer) = some phase.outlook := by
  cases phase with
  | idle => exact absurd rfl hbusy
  | offered => rfl
  | live l =>
      simp only [Phase.outlook]
      split <;> rfl

theorem Outlook.next?_sendFailed (l : Live) (reason : ShareError) :
    (Phase.live l).outlook.next? (.sendFailed l.participants.other reason) =
      some (Phase.live l).outlook := by
  simp only [Phase.outlook]
  split <;> exact if_pos rfl

/-! ### Parties that act -/

variable {w w' : World} {p : Nat}

/-- An offer is from the peer on the other side. -/
def World.Addressed (w : World) (p : Nat) : Prop :=
  ∀ o, w.phase p = .offered o → o.participants.other = o.participants.initiator

theorem World.party_emit_self (w : World) (p : Nat) (event : Event) :
    (w.emit p event).party p =
      { w.party p with events := (w.party p).events ++ [event] } :=
  party_modifyParty_self ..

theorem World.party_setPhase_self (w : World) (p : Nat) (phase : Phase) :
    (w.setPhase p phase).party p = { w.party p with phase := phase } :=
  party_modifyParty_self ..

/-- A session that paused captures again. -/
theorem World.exists_party_resume {l : Live} (hlive : w.phase p = .live l)
    (hnone : l.capture = none) : ∃ id, (w.resume p l.epoch).party p =
      { w.party p with phase := .live { l with capture := some id } } := by
  refine ⟨(w.attach p l.epoch l.document).1, ?_⟩
  rw [resume_of_live hlive hnone]
  exact party_setPhase_self (w.attach p l.epoch l.document).2 p _

/-- A session is ended, and the host is told so. -/
theorem World.party_endSession {l : Live} (hlive : w.phase p = .live l) (reason : EndReason) :
    (w.endSession p l.epoch reason).party p = { w.party p with
      phase := .idle
      events := (w.party p).events ++ [.ended l.participants.other reason] } := by
  simp only [World.endSession, hlive, if_true]
  rw [party_send, party_emit_self, party_leave_self]

/-- The strategy of a session is not seen from outside. -/
theorem Replays.retune {l : Live} (s : Strategy) (hlive : w.phase p = .live l) :
    Replays (w.party p) ((w.setPhase p (.live { l with strategy := s })).party p) := by
  rw [party_setPhase_self]
  refine .of_eq rfl ?_
  change _ = (w.phase p).outlook
  rw [hlive]
  rfl

theorem World.Addressed.of_live {l : Live} (hlive : w.phase p = .live l) : w.Addressed p := by
  intro o hoffered
  cases hlive.symm.trans hoffered

namespace Move

theorem replays (h : Move p w w') : Replays (w.party p) (w'.party p) := by
  cases h with
  | offer o hidle =>
      rw [party_emit_self, party_setPhase_self]
      refine .of_next rfl ?_
      change (w.phase p).outlook.next? _ = _
      rw [hidle]
      rfl
  | refuse peer hbusy =>
      rw [party_emit_self]
      exact .of_next rfl (Outlook.next?_refused hbusy peer)
  | absorb o text n hoffered =>
      rw [party_setPhase_self]
      refine .of_eq rfl ?_
      change _ = (w.phase p).outlook
      rw [hoffered]
      rfl
  | retune l s hlive => exact .retune s hlive
  | depart peer reason hother =>
      rw [party_emit_self, party_leave_self]
      exact .of_next rfl (Outlook.next?_ended hother reason)
  | begin d participants s m hidle =>
      obtain ⟨id, hlive⟩ := w.exists_phase_initiate p d participants s
      rw [party_emit_self, party_send]
      have hnext : (w.phase p).outlook.next? (.started participants.other .initiator) =
          some ((w.initiate p d participants s).phase p).outlook := by
        rw [hidle, hlive]
        rfl
      refine .of_next ?_ hnext
      rw [events_initiate]
  | lapse d participants s hidle =>
      rw [party_leave_self]
      refine .of_eq (w.events_initiate p d participants s) ?_
      · change _ = (w.phase p).outlook
        rw [hidle]

theorem addressed (h : Move p w w') (hw : w.Addressed p) : w'.Addressed p := by
  intro o' hoffered'
  cases h with
  | offer o hidle hother =>
      rw [phase_emit, phase_setPhase_self] at hoffered'
      cases hoffered'
      exact hother
  | refuse peer => exact hw o' ((phase_emit ..).symm.trans hoffered')
  | absorb o text n hoffered =>
      rw [phase_setPhase_self] at hoffered'
      cases hoffered'
      exact hw o hoffered
  | retune => exact World.Addressed.of_live (phase_setPhase_self ..) o' hoffered'
  | depart peer reason =>
      rw [phase_emit, phase_leave_self] at hoffered'
      cases hoffered'
  | begin d participants s m =>
      obtain ⟨id, hlive⟩ := w.exists_phase_initiate p d participants s
      rw [phase_emit, phase_send, hlive] at hoffered'
      cases hoffered'
  | lapse d participants s =>
      rw [phase_leave_self] at hoffered'
      cases hoffered'

end Move

namespace Opening

variable {l : Live} {news : Option Event} {w₀ v v' : World}

theorem other_eq (h : Opening p w l news w₀) (hw : w.Addressed p) :
    (w.phase p).other = some l.participants.other := by
  cases h with
  | update l s hlive =>
      rw [hlive]
      rfl
  | accept o d s hoffered => rw [hoffered, Phase.other, hw o hoffered]

/-- What the host is told after a write is that the session is shared, if it does not know. -/
theorem replay?_news (h : Opening p w l news w₀) (hw : w.Addressed p) :
    (w.phase p).outlook.replay? news.toList = some (Phase.live l).outlook := by
  cases h with
  | update l s hlive =>
      rw [hlive]
      cases hconfirmed : l.confirmed with
      | false =>
          simp only [Phase.outlook, hconfirmed, Bool.false_eq_true, if_false, if_true,
            Option.toList_some, Outlook.replay?_singleton, Outlook.next?]
      | true =>
          simp only [Phase.outlook, hconfirmed, if_true, Option.toList_none, Outlook.replay?_nil]
  | accept o d s hoffered =>
      rw [hoffered]
      simp only [Phase.outlook, hw o hoffered, if_true, Option.toList_some,
        Outlook.replay?_singleton, Outlook.next?]

/-- A write that nothing is done to the writer in: what its host is told after it fits what it
was told before. -/
theorem replays (h : Opening p w l news w₀) (hw : w.Addressed p)
    (hparty : v.party p = w₀.party p)
    (hclosing : Closing p l.epoch news (v.resume p l.epoch) v') :
    Replays (w.party p) (v'.party p) ∧ v'.Addressed p := by
  have hlive : v.phase p = .live l := (congrArg Party.phase hparty).trans h.phase_eq
  have hevents : (v.party p).events = (w.party p).events :=
    (congrArg Party.events hparty).trans (h.silent.events p)
  obtain ⟨id, hresumed⟩ := exists_party_resume hlive h.capture_eq
  generalize v.resume p l.epoch = u at hresumed hclosing
  have hlive' : u.phase p = .live { l with capture := some id } := congrArg Party.phase hresumed
  have hbefore : (u.party p).events = (w.party p).events :=
    (congrArg Party.events hresumed).trans hevents
  cases hclosing with
  | told =>
      refine ⟨⟨news.toList, ?_, ?_⟩, fun o hoffered => ?_⟩
      · rw [events_tell_self, hbefore]
      · refine (h.replay?_news hw).trans (congrArg some ?_)
        change _ = ((u.tell p news).phase p).outlook
        rw [phase_tell, hlive']
        rfl
      · rw [phase_tell, hlive'] at hoffered
        cases hoffered
  | ended =>
      have hended := party_endSession hlive' .invalidOperation
      refine ⟨.of_next ((congrArg Party.events hended).trans (congrArg (· ++ _) hbefore)) ?_,
        fun o hoffered => ?_⟩
      · rw [hended]
        exact Outlook.next?_ended (h.other_eq hw) _
      · cases (congrArg Party.phase hended).symm.trans hoffered

end Opening

namespace CallEffect

variable {reactive called : Nat → Prop}

/-- What a party that is not called in reaction tells in a call is what there is to tell. -/
theorem replays (h : CallEffect reactive called w w') (hreactive : ¬ reactive p)
    (hheld : (w.party p).released = false) (hpauses : w.PausesOnly p fun _ => False)
    (hw : w.Addressed p) : Replays (w.party p) (w'.party p) ∧ w'.Addressed p := by
  have hsame : ∀ {v v' : World}, v'.party p = v.party p → v.Addressed p →
      Replays (v.party p) (v'.party p) ∧ v'.Addressed p := by
    intro v v' heq hv
    rw [World.Addressed, World.phase, heq]
    exact ⟨.refl _, hv⟩
  induction h with
  | refl => exact hsame rfl hw
  | @trans _ w w' w'' h _ ih ih' =>
      have hheld' : (w'.party p).released = false := by
        rw [h.worldSteps.released_eq, hheld]
      obtain ⟨hreplays, haddressed⟩ := ih hheld hpauses hw
      obtain ⟨hreplays', haddressed'⟩ := ih' hheld' (h.pausesOnly hpauses) haddressed
      exact ⟨hreplays.trans hreplays', haddressed'⟩
  | aside _ hparty => exact hsame (hparty p) hw
  | collect =>
      exact hsame ((KeepsOthers.collect (fun _ => False) _).party_eq not_false hheld) hw
  | @captured _ w q l s hlive hcapture =>
      by_cases hq : p = q
      · subst hq
        exact ⟨.retune s hlive, .of_live (phase_setPhase_self ..)⟩
      · exact hsame (party_setPhase_of_ne w _ hq) hw
  | @unsent _ w q l reason hlive hcapture =>
      by_cases hq : p = q
      · subst hq
        refine ⟨?_, fun o hoffered => hw o ((phase_emit ..).symm.trans hoffered)⟩
        rw [party_emit_self]
        refine .of_next rfl ?_
        change (w.phase p).outlook.next? _ = some (w.phase p).outlook
        rw [hlive]
        exact Outlook.next?_sendFailed l reason
      · exact hsame (party_emit_of_ne w _ hq) hw
  | @move _ w w' q _ h =>
      by_cases hq : p = q
      · subst hq
        exact ⟨h.replays, h.addressed hw⟩
      · exact hsame (h.keepsOthers.party_eq hq hheld) hw
  | @write _ w w₀ v v' q l news _ _ hopening hreactions hclosing ih =>
      by_cases hq : p = q
      · -- Nobody calls the writer meanwhile, and its session pauses, so it is as it was.
        subst hq
        have hreleased : (w₀.party p).released = false := by
          rw [hopening.silent.released, hheld]
        have hparty := hreactions.party_eq hreactive hreactive hreleased fun l' hlive' => by
          cases hopening.phase_eq.symm.trans hlive'
          exact hopening.capture_eq
        obtain ⟨⟨more, hevents, hreplay⟩, haddressed⟩ := hopening.replays hw hparty hclosing
        rw [World.setWriting, party_modifyParty_self]
        refine ⟨⟨more, hevents, hreplay⟩, fun o hoffered => haddressed o ?_⟩
        rwa [← World.setWriting, phase_setWriting] at hoffered
      · have hopened := hopening.keepsOthers.party_eq hq hheld
        obtain ⟨hreplays, haddressed⟩ := ih (by rw [hopened, hheld])
          (hpauses.of_phase_eq (congrArg Party.phase hopened))
          (by rw [World.Addressed, World.phase, hopened]; exact hw)
        have hclosed : KeepsOthers (· = q) v (v'.setWriting q false) :=
          (KeepsOthers.resume v q l.epoch).trans
            (hclosing.keepsOthers.trans (KeepsOthers.setWriting v' q false))
        have hheld' : (v.party p).released = false := by
          rw [hreactions.worldSteps.released_eq, hopened, hheld]
        rw [hopened] at hreplays
        obtain ⟨hreplays', haddressed'⟩ := hsame (hclosed.party_eq hq hheld') haddressed
        exact ⟨hreplays.trans hreplays', haddressed'⟩

end CallEffect

/-! ## All the events of a party -/

theorem World.party_addParty_self (w : World) (peer : PeerId) (config : Config) :
    (w.addParty peer config).2.party (w.addParty peer config).1 =
      ⟨(w.addEndpoint peer).1, config, .idle, 0, false, [], false⟩ := by
  simp only [World.addParty, World.party, Table.get_push]
  exact if_pos rfl

/-- What a host writes down that reads all the events of a party that it made: those that each
call has added.  No hook and no listener calls the party. -/
inductive EventLog (p : Nat) : World → List Event → Prop where
  | made {w : World} (h : w.Interlude (· ≠ p)) (peer : PeerId) (config : Config)
      (hp : (w.addParty peer config).1 = p) : EventLog p (w.addParty peer config).2 []
  | arranged {w w' : World} {events : List Event} (h : EventLog p w events)
      (harranged : Arranged (· ≠ p) w w') (hheld : (w'.party p).released = false) :
      EventLog p w' events
  | call {w w' : World} {events : List Event} {depth : Nat} {c : Call} {outcome : Outcome}
      (h : EventLog p w events) (hcall : perform (World.write depth) c w = .ok (outcome, w')) :
      EventLog p w' (events ++ (w'.party p).events.drop (w.party p).events.length)

namespace EventLog

variable {events : List Event}

theorem interlude (h : EventLog p w events) : w.Interlude (· ≠ p) := by
  induction h with
  | made h peer config => exact .arranged h (.addParty peer config)
  | arranged _ harranged _ ih => exact .arranged ih harranged
  | call _ hcall ih => exact .call ih hcall

theorem lt_length (h : EventLog p w events) : p < w.parties.slots.length := by
  induction h with
  | @made w _ peer config hp =>
      rw [← hp]
      simp [World.addParty, World.addEndpoint, Table.push]
  | arranged _ harranged _ ih => exact Nat.lt_of_lt_of_le ih harranged.parties_length_le
  | call h hcall ih =>
      exact Nat.lt_of_lt_of_le ih (h.interlude.callEffect hcall).worldSteps.parties_length_le

theorem released_eq_false (h : EventLog p w events) : (w.party p).released = false := by
  induction h with
  | made _ peer config hp => rw [← hp, party_addParty_self]
  | arranged _ _ hheld => exact hheld
  | call h hcall ih =>
      rw [(h.interlude.callEffect hcall).worldSteps.released_eq, ih]

/-- What a call does to the party whose events are read. -/
theorem replays (h : EventLog p w events) (hw : w.Addressed p) {depth : Nat} {c : Call}
    {outcome : Outcome} (hcall : perform (World.write depth) c w = .ok (outcome, w')) :
    Replays (w.party p) (w'.party p) ∧ w'.Addressed p :=
  (h.interlude.callEffect hcall).replays (fun hne => hne rfl) h.released_eq_false
    (h.interlude.pausesOnly p) hw

theorem addressed (h : EventLog p w events) : w.Addressed p := by
  induction h with
  | made _ peer config hp =>
      intro o hoffered
      rw [← hp, World.phase, party_addParty_self] at hoffered
      cases hoffered
  | arranged h harranged hheld ih =>
      intro o hoffered
      rw [World.phase, harranged.apply_party_eq (π := Party.phase) (fun _ _ => rfl) h.lt_length
        hheld] at hoffered
      exact ih o hoffered
  | call h hcall ih => exact (h.replays ih hcall).2

/-- The events of all calls so far tell the phase that the party is in. -/
theorem replay?_eq (h : EventLog p w events) :
    Outlook.idle.replay? events = some (w.phase p).outlook := by
  induction h with
  | made _ peer config hp =>
      rw [← hp, World.phase, party_addParty_self]
      rfl
  | arranged h harranged hheld ih =>
      rw [ih, World.phase, World.phase,
        harranged.apply_party_eq (π := Party.phase) (fun _ _ => rfl) h.lt_length hheld]
  | call h hcall ih =>
      obtain ⟨⟨more, hevents, hreplay⟩, -⟩ := h.replays h.addressed hcall
      rw [hevents, List.drop_left, Outlook.replay?_append, ih]
      exact hreplay

end EventLog

/-- The events of a party, replayed from the start, never get stuck, and lead to its
state and its peer.  Every call only adds to them.  So the events of each session say at most
once that it began and that the peer has accepted, the latter only to the initiator, and exactly
once that it is over, when it is. -/
theorem events_tell_state {events : List Event} (h : EventLog p w events) :
    (∃ o, Outlook.idle.replay? events = some o ∧ o.status = (w.phase p).status ∧
      o.peer? = (w.phase p).other) ∧
    (∀ depth c outcome w', perform (World.write depth) c w = .ok (outcome, w') →
      (w.party p).events <+: (w'.party p).events) ∧
    ∀ before session after, events = before ++ session ++ after →
      Outlook.idle.replay? before = some .idle → OneSession session →
      ∃ o, Outlook.idle.replay? session = some o ∧ SessionEvents session o := by
  have hreplay := h.replay?_eq
  refine ⟨⟨_, hreplay, Phase.status_outlook _, Phase.peer?_outlook _⟩,
    fun depth c outcome w' hcall => ?_, fun before session after hsplit hbefore hone => ?_⟩
  · obtain ⟨⟨more, hevents, -⟩, -⟩ := h.replays h.addressed hcall
    exact ⟨more, hevents.symm⟩
  · rw [hsplit, Outlook.replay?_append, Outlook.replay?_append, hbefore] at hreplay
    obtain ⟨o, ho, -⟩ := Option.bind_eq_some_iff.1 hreplay
    exact ⟨o, ho, .of_replay? hone ho⟩

/-- Alice offers, is told by an update that Bob has accepted, and stops. -/
theorem events_tell_state_of_whole_session :
    let bob : PeerId := .ofByte 0xB0
    let events : List Event := [.started bob .initiator, .confirmed bob, .ended bob .localStop]
    ∃ w, EventLog 0 w events ∧ (w.phase 0).status = .idle ∧
      Outlook.idle.replay? events = some .idle := by
  intro bob events
  let update : Call := .handleMessage 0 bob (Message.payload (.update ⟨⟨1, 0, ['Z']⟩, 1, 0⟩))
  let w₀ := (Pair.idle ['a'] .usual).world
  have hrun : ∃ r₁ ∈ (w₀.run (.start 0 (.ofByte 0xA1) none bob [] 0)).toOption,
      ∃ r₂ ∈ (r₁.2.run update).toOption, ∃ r₃ ∈ (r₂.2.run (.stop 0)).toOption,
        (((r₁.2.party 0).events.drop (w₀.party 0).events.length) ++
          (r₂.2.party 0).events.drop (r₁.2.party 0).events.length) ++
          (r₃.2.party 0).events.drop (r₂.2.party 0).events.length = events ∧
        (r₃.2.phase 0).status = .idle := by
    decide +kernel
  obtain ⟨⟨o₁, w₁⟩, h₁, ⟨o₂, w₂⟩, h₂, ⟨o₃, w₃⟩, h₃, hevents, hstatus⟩ := hrun
  have hmade : EventLog 0 w₀ [] :=
    .arranged (.arranged (.arranged (.made .empty Pair.aliceId .usual rfl) (.addParty ..) rfl)
      (.addDocument ..) rfl) (.addDocument ..) rfl
  have hlog : EventLog 0 w₃ events := by
    rw [← hevents]
    exact ((hmade.call (eq_ok_of_mem_toOption h₁)).call (eq_ok_of_mem_toOption h₂)).call
      (eq_ok_of_mem_toOption h₃)
  obtain ⟨⟨o, hreplay, hstatus', -⟩, -⟩ := events_tell_state hlog
  refine ⟨w₃, hlog, hstatus, ?_⟩
  cases o with
  | idle => exact hreplay
  | pending | sharing => cases hstatus'.trans hstatus

end PairEdit.Session
