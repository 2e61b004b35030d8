import PairEdit.Proofs.Arrivals
import PairEdit.Proofs.Crossing
import PairEdit.Proofs.RoundTrip

/-!
# Where the two parties of a session stand

The initiator sits at the first seat and the receiver at the second one.  Behind the
seats are the two sides of an exchange.  A party that still takes part has in its queue
what its side waits for: perhaps the offer, then the updates of the other side, and at
the end the message of an other party that has left.  The side of a party that has left
is kept as it was, and only its inbox grows.
-/

namespace PairEdit

/-- The number of a party, of its endpoint and of its document. -/
def Role.index : Role → Nat
  | .initiator => 0
  | .receiver => 1

theorem Role.index_lt (role : Role) : role.index < 2 := by
  cases role <;> decide

theorem Role.index_ne (role : Role) : role.index ≠ role.other.index := by
  cases role <;> decide

/-- The message that arrived, and who sent it. -/
def Arrival.letter? (limits : Limits) : Arrival → Option (PeerId × Message)
  | .message sender payload =>
      match Message.decode limits payload with
      | .ok m => some (sender, m)
      | .error _ => none
  | .disconnected _ => none

/-- The messages that are still to come from the other party after the offer. -/
def Side.coming (side : Side) (otherLeft : Bool) : List Message :=
  side.inbox.map .update ++ if otherLeft then [.stop] else []

theorem Side.coming_eq_nil_iff {side : Side} {otherLeft : Bool} :
    side.coming otherLeft = [] ↔ side.inbox = [] ∧ otherLeft = false := by
  simp [Side.coming]

namespace Side.TakesIn

variable {side side' : Side} {u : Update}

theorem coming_eq (h : side.TakesIn u side') (otherLeft : Bool) :
    side.coming otherLeft = .update u :: side'.coming otherLeft := by
  rw [Side.coming, h.1]
  rfl

/-- With nothing outstanding the text changes as the update says. -/
theorem replica_of_joined {count : Nat} {base text : Text} (h : side.TakesIn u side')
    (hreplica : side.replica = ⟨.joined count, base⟩) (happly : u.edit.apply base = .ok text) :
    side'.replica = ⟨.joined (count + 1), text⟩ := by
  obtain ⟨-, -, e, hreceive, happly'⟩ := h
  rw [hreplica] at hreceive happly'
  obtain ⟨-, rfl, hbacklog⟩ := Backlog.receive?_joined_eq_some_iff.1 hreceive
  rw [happly, Except.ok.injEq] at happly'
  rw [happly', ← hbacklog]

end Side.TakesIn

namespace Session

/-- Messages from one sender. -/
def letters (sender : PeerId) (ms : List Message) : List (Option (PeerId × Message)) :=
  ms.map fun m => some (sender, m)

namespace Seat

variable {limits : Limits} {s : Seat} {sender : PeerId} {m : Message} {ms : List Message}
variable {payload : Bytes}

/-- The messages in the queue. -/
def mail (limits : Limits) (s : Seat) : List (Option (PeerId × Message)) :=
  s.queue.map (Arrival.letter? limits)

theorem queue_of_mail_nil (h : s.mail limits = letters sender []) : s.queue = [] :=
  List.map_eq_nil_iff.1 h

theorem queue_of_mail_cons (h : s.mail limits = letters sender (m :: ms)) :
    ∃ payload rest, s.queue = .message sender payload :: rest ∧
      Message.decode limits payload = .ok m ∧
      (s.setQueue rest).mail limits = letters sender ms := by
  obtain ⟨arrival, rest, hqueue, hletter, hrest⟩ := List.map_eq_cons_iff.1 h
  refine match arrival, hletter with
    | .message sender' payload, hletter => ?_
    | .disconnected _, hletter => by cases hletter
  simp only [Arrival.letter?] at hletter
  cases hdecode : Message.decode limits payload with
  | error reason =>
      rw [hdecode] at hletter
      cases hletter
  | ok m' =>
      rw [hdecode] at hletter
      cases hletter
      exact ⟨payload, rest, hqueue, hdecode, hrest⟩

theorem nil_of_queue_nil (hqueue : s.queue = []) (h : s.mail limits = letters sender ms) :
    ms = [] := by
  rw [mail, hqueue, letters, List.map_nil, eq_comm] at h
  exact List.map_eq_nil_iff.1 h

theorem mail_append (h : s.mail limits = letters sender ms)
    (hdecode : Message.decode limits payload = .ok m) :
    (s.setQueue (s.queue ++ [.message sender payload])).mail limits =
      letters sender (ms ++ [m]) := by
  rw [mail, setQueue_queue, List.map_append, letters, List.map_append]
  rw [mail, letters] at h
  rw [h]
  simp [Arrival.letter?, hdecode]

/-- No text in front of a party is too long for a signed word, nor a text that an
outstanding edit of it applies to. -/
def Roomy (s : Seat) : Prop :=
  Edit.Roomy s.text.length s.phase.outstanding ∧
    ∀ o, s.phase = .offered o → o.buffer.length ≤ Word.maxSigned

instance {P : Offered → Prop} [DecidablePred P] :
    (phase : Phase) → Decidable (∀ o, phase = .offered o → P o)
  | .idle => .isTrue nofun
  | .offered o => decidable_of_iff (P o) ⟨fun h _ heq => by cases heq; exact h, fun h => h o rfl⟩
  | .live _ => .isTrue nofun

instance (s : Seat) : Decidable s.Roomy :=
  inferInstanceAs (Decidable (Edit.Roomy s.text.length s.phase.outstanding ∧
    ∀ o, s.phase = .offered o → o.buffer.length ≤ Word.maxSigned))

end Seat

/-! ## One party -/

/-- How a party with a role stands to its side of the exchange.  The two flags say
whether the party and the other one have left. -/
inductive Represents (config : Config) (ids : Nat → PeerId) :
    Role → Seat → Side → Bool → Bool → Prop
  /-- It has left, and no offer will bring it back. -/
  | left {role : Role} {s : Seat} {side : Side} {otherLeft : Bool} {ms : List Message} :
      s.phase = .idle → s.mail config.limits = letters (ids role.other.index) ms →
      (∀ offer, Message.start offer ∉ ms) → Represents config ids role s side true otherLeft
  /-- The offer is on the way. -/
  | awaiting {s : Seat} {side : Side} {otherLeft : Bool} {offer : Start} :
      s.phase = .idle → offer.senderId = ids 0 → offer.receiverId = ids 1 →
      side.replica = ⟨.joined 0, offer.documentText⟩ →
      s.mail config.limits = letters (ids 0) (.start offer :: side.coming otherLeft) →
      Represents config ids .receiver s side false otherLeft
  /-- The offer has arrived; its text takes part in the exchange. -/
  | offered {s : Seat} {side : Side} {otherLeft : Bool} {o : Offered} :
      s.phase = .offered o → o.participants = ⟨ids 1, ids 0, ids 1⟩ →
      side.replica = ⟨.joined o.buffered, o.buffer⟩ →
      s.mail config.limits = letters (ids 0) (side.coming otherLeft) →
      Represents config ids .receiver s side false otherLeft
  /-- It shares its document. -/
  | live {role : Role} {s : Seat} {side : Side} {otherLeft : Bool} {l : Live} :
      s.phase = .live l → l.participants = ⟨ids role.index, ids 0, ids 1⟩ →
      l.strategy = .backlog side.replica.backlog → s.text = side.replica.text →
      side.replica.backlog.received ≤ Word.max →
      s.mail config.limits = letters (ids role.other.index) (side.coming otherLeft) →
      Represents config ids role s side false otherLeft

namespace Represents

variable {config : Config} {ids : Nat → PeerId} {role : Role} {s s' : Seat} {side : Side}
variable {left otherLeft : Bool} {payload : Bytes}

theorem congr (h : Represents config ids role s side left otherLeft) (hphase : s'.phase = s.phase)
    (hqueue : s'.queue = s.queue) (htext : ∀ l, s.phase = .live l → s'.text = s.text) :
    Represents config ids role s' side left otherLeft := by
  have hmail : s'.mail config.limits = s.mail config.limits := by
    rw [Seat.mail, Seat.mail, hqueue]
  cases h with
  | left hidle hletters hstart => exact .left (hphase ▸ hidle) (hmail ▸ hletters) hstart
  | awaiting hidle hsender hreceiver hreplica hletters =>
      exact .awaiting (hphase ▸ hidle) hsender hreceiver hreplica (hmail ▸ hletters)
  | offered hoffered hparticipants hreplica hletters =>
      exact .offered (hphase ▸ hoffered) hparticipants hreplica (hmail ▸ hletters)
  | live hlive hparticipants hstrategy hreplica hcount hletters =>
      exact .live (hphase ▸ hlive) hparticipants hstrategy ((htext _ hlive).trans hreplica) hcount
        (hmail ▸ hletters)

theorem of_queue_nil (hidle : s.phase = .idle) (hqueue : s.queue = []) :
    Represents config ids role s side true otherLeft := by
  have hmail : s.mail config.limits = letters (ids role.other.index) [] := by
    rw [Seat.mail, hqueue]
    rfl
  exact .left hidle hmail (by simp)

theorem of_offered {o : Offered} (h : Represents config ids .receiver s side left otherLeft)
    (hphase : s.phase = .offered o) :
    left = false ∧ o.participants = ⟨ids 1, ids 0, ids 1⟩ ∧
      side.replica = ⟨.joined o.buffered, o.buffer⟩ ∧
      s.mail config.limits = letters (ids 0) (side.coming otherLeft) := by
  cases h with
  | left hs | awaiting hs | live hs =>
      rw [hphase] at hs
      cases hs
  | offered hs hparticipants hreplica hletters =>
      rw [hphase] at hs
      cases hs
      exact ⟨rfl, hparticipants, hreplica, hletters⟩

theorem of_live {l : Live} (h : Represents config ids role s side left otherLeft)
    (hphase : s.phase = .live l) :
    left = false ∧ l.participants = ⟨ids role.index, ids 0, ids 1⟩ ∧
      l.strategy = .backlog side.replica.backlog ∧ s.text = side.replica.text ∧
      side.replica.backlog.received ≤ Word.max ∧
      s.mail config.limits = letters (ids role.other.index) (side.coming otherLeft) := by
  cases h with
  | left hs | awaiting hs | offered hs =>
      rw [hphase] at hs
      cases hs
  | live hs hparticipants hstrategy htext hcount hletters =>
      rw [hphase] at hs
      cases hs
      exact ⟨rfl, hparticipants, hstrategy, htext, hcount, hletters⟩

/-- The other party sends a message, no offer: it is the last one that is still to come. -/
theorem receives {side' : Side} {otherLeft' : Bool} {m : Message}
    (h : Represents config ids role s side left otherLeft) (hm : ∀ offer, m ≠ .start offer)
    (hdecode : Message.decode config.limits payload = .ok m)
    (hsame : side'.replica = side.replica)
    (hcoming : side'.coming otherLeft' = side.coming otherLeft ++ [m]) :
    Represents config ids role (s.setQueue (s.queue ++ [.message (ids role.other.index) payload]))
      side' left otherLeft' := by
  cases h with
  | left hidle hletters hstart =>
      refine .left hidle (Seat.mail_append hletters hdecode) ?_
      intro offer hoffer
      rcases List.mem_append.1 hoffer with hoffer | hoffer
      · exact hstart offer hoffer
      · exact hm offer (List.mem_singleton.1 hoffer).symm
  | awaiting hidle hsender hreceiver hreplica hletters =>
      refine .awaiting hidle hsender hreceiver (hsame.trans hreplica) ?_
      rw [hcoming]
      exact Seat.mail_append hletters hdecode
  | offered hoffered hparticipants hreplica hletters =>
      refine .offered hoffered hparticipants (hsame.trans hreplica) ?_
      rw [hcoming]
      exact Seat.mail_append hletters hdecode
  | live hlive hparticipants hstrategy htext hcount hletters =>
      rw [← hsame] at hstrategy htext hcount
      refine .live hlive hparticipants hstrategy htext hcount ?_
      rw [hcoming]
      exact Seat.mail_append hletters hdecode

theorem receives_update {u : Update} (h : Represents config ids role s side left false)
    (hdecode : Message.decode config.limits payload = .ok (.update u)) :
    Represents config ids role (s.setQueue (s.queue ++ [.message (ids role.other.index) payload]))
      (side.awaiting u) left false :=
  h.receives (by simp) hdecode rfl (by simp [Side.coming, Side.awaiting])

theorem receives_stop (h : Represents config ids role s side left false)
    (hdecode : Message.decode config.limits payload = .ok .stop) :
    Represents config ids role (s.setQueue (s.queue ++ [.message (ids role.other.index) payload]))
      side left true :=
  h.receives (by simp) hdecode rfl (by simp [Side.coming])

/-- A party that has left does not care about the other one. -/
theorem of_left (h : Represents config ids role s side true otherLeft) (otherLeft' : Bool) :
    Represents config ids role s side true otherLeft' := by
  cases h with
  | left hidle hletters hstart => exact .left hidle hletters hstart

/-- What is still to come is no offer. -/
theorem start_not_mem_coming (side : Side) (otherLeft : Bool) (offer : Start) :
    Message.start offer ∉ side.coming otherLeft := by
  cases otherLeft <;> simp [Side.coming]

/-- Once the offer has arrived, a party that becomes idle has left. -/
theorem leaves (h : Represents config ids role s side left otherLeft) (hphase : s.phase ≠ .idle)
    (hidle : s'.phase = .idle) (hqueue : s'.queue = s.queue) (otherLeft' : Bool) :
    Represents config ids role s' side true otherLeft' := by
  have hmail : s'.mail config.limits = s.mail config.limits := by
    rw [Seat.mail, Seat.mail, hqueue]
  cases h with
  | left hs => exact absurd hs hphase
  | awaiting hs => exact absurd hs hphase
  | offered _ _ _ hletters =>
      exact .left hidle (hmail.trans hletters) (start_not_mem_coming side otherLeft)
  | live _ _ _ _ _ hletters =>
      exact .left hidle (hmail.trans hletters) (start_not_mem_coming side otherLeft)

/-- A party that is not idle takes part, with the other party. -/
theorem other_of_not_idle (h : Represents config ids role s side left otherLeft)
    (hids : ids 0 ≠ ids 1) (hphase : s.phase ≠ .idle) :
    left = false ∧ s.phase.other = some (ids role.other.index) := by
  cases h with
  | left hs => exact absurd hs hphase
  | awaiting hs => exact absurd hs hphase
  | offered hs hparticipants =>
      rw [hs, Phase.other, hparticipants]
      exact ⟨rfl, rfl⟩
  | live hs hparticipants =>
      rw [hs, Phase.other, hparticipants]
      refine ⟨rfl, ?_⟩
      cases role
      · simp [Participants.other, Participants.role, Role.index, Role.other]
      · simp [Participants.other, Participants.role, Role.index, Role.other, hids.symm]

/-- The texts that outstanding edits apply to are those of the side. -/
theorem roomy (h : Represents config ids role s side left otherLeft) (hside : side.replica.Roomy)
    (htext : s.text.length ≤ Word.maxSigned)
    (hbuffer : ∀ o, s.phase = .offered o → o.buffer.length ≤ Word.maxSigned) : s.Roomy := by
  refine ⟨?_, hbuffer⟩
  cases h with
  | left hs | awaiting hs =>
      rw [hs]
      exact htext
  | offered hs =>
      rw [hs]
      exact htext
  | live hs _ hstrategy hreplica =>
      rw [hs, Phase.outstanding, hstrategy, hreplica]
      exact hside

end Represents

/-! ## Both parties -/

/-- The two parties stand to the two sides of an exchange in which no text is longer than
`bound`.  As long as one of them takes part it can say that it stops. -/
def Between (bound : Nat) (config : Config) (ids : Nat → PeerId) (seats : Nat → Seat)
    (role : Role) : Prop :=
  ∃ side otherSide left otherLeft, Linked bound side otherSide ∧
    Represents config ids role (seats role.index) side left otherLeft ∧
    Represents config ids role.other (seats role.other.index) otherSide otherLeft left ∧
    (left = false ∨ otherLeft = false →
      ∃ payload, Message.stop.encode config.limits = .ok payload)

theorem Between.symm {bound : Nat} {config : Config} {ids : Nat → PeerId} {seats : Nat → Seat}
    {role : Role} (h : Between bound config ids seats role) :
    Between bound config ids seats role.other := by
  obtain ⟨side, otherSide, left, otherLeft, hlinked, hside, hother, hstop⟩ := h
  refine ⟨otherSide, side, otherLeft, left, hlinked.symm, hother, ?_, fun h => hstop h.symm⟩
  rwa [Role.other_other]

theorem Between.of_role {bound : Nat} {config : Config} {ids : Nat → PeerId} {seats : Nat → Seat}
    {role : Role} (h : Between bound config ids seats role) (role' : Role) :
    Between bound config ids seats role' := by
  rcases Decidable.em (role' = role) with rfl | hne
  · exact h
  · obtain rfl := Role.eq_other_of_ne hne
    exact h.symm

end Session

end PairEdit
