import PairEdit.Edit.Transform

/-!
# The backlog of unacknowledged edits

Each side applies its own edits at once and sends them to the other.  An edit
that arrives was made without knowledge of the newest local ones.  `Backlog`
keeps the local edits the peer may not have had yet, oldest first, adjusted
so that the oldest follows directly on what the peer had.  An arriving edit
says how many local edits its author had applied: those are retired, and the
edit is transformed past the rest, which are adjusted to come after it.

All counters are 64-bit words; a function returns `none` where one of them, or
a sum of lengths, would leave its range.
-/

namespace PairEdit

/-- Which side of a session a party is. -/
inductive Role where
  /-- The party that offered its document. -/
  | initiator
  /-- The party that accepted the offer. -/
  | receiver
deriving DecidableEq, Repr, Inhabited

/-- The initiator's insertion wins every tie, on both sides. -/
def Role.priority : Role → Priority
  | .initiator => .localFirst
  | .receiver => .remoteFirst

/-- An edit on its way to the peer. -/
structure Update where
  edit : Edit
  /-- How many edits its author had sent, this one included. -/
  sent : Nat
  /-- How many of the peer's edits its author had applied. -/
  seen : Nat
deriving DecidableEq, Repr, Inhabited

/-- What one side remembers of its unacknowledged edits. -/
structure Backlog where
  /-- The edits not yet acknowledged, oldest first. -/
  outstanding : List Edit
  /-- How many edits were sent so far. -/
  sent : Nat
  /-- How many of them the peer has acknowledged. -/
  acknowledged : Nat
  /-- How many edits of the peer were applied so far. -/
  received : Nat
  priority : Priority
deriving DecidableEq, Repr

namespace Backlog

/-- Nothing sent and nothing received yet. -/
def start (role : Role) : Backlog := ⟨[], 0, 0, 0, role.priority⟩

/-- Record a local edit; the update to send carries it unchanged. -/
def register? (b : Backlog) (e : Edit) : Option (Update × Backlog) := do
  let sent ← Word.fit? (b.sent + 1)
  return (⟨e, sent, b.received⟩, { b with outstanding := b.outstanding ++ [e], sent := sent })

/-- The outstanding edits that the author of an edit tagged `seen` had not
applied. -/
def unseen (b : Backlog) (seen : Nat) : List Edit :=
  b.outstanding.drop (min seen b.sent - b.acknowledged)

/-- The sum of signed lengths, each partial sum being a signed word. -/
def sumDeltas? (total : Int) : List Edit → Option Int
  | [] => some total
  | e :: rest => do
      let delta ← e.lenDelta?
      let total' ← Word.fitSigned? (total + delta)
      sumDeltas? total' rest

/-- The length of the text an arriving edit was made on: the local text, of
`len` characters, without the edits its author had not seen. -/
def baseLength (len : Nat) (delta : Int) : Except EditError Nat :=
  let base : Int := len - delta
  if len ≤ Word.maxSigned ∧ 0 ≤ base ∧ base ≤ Word.maxSigned then .ok base.toNat
  else .error (.backlogMismatch len delta)

/-- Whether an arriving edit fits the text it was made on, given that the
local text holds `len` characters. -/
def check? (b : Backlog) (u : Update) (len : Nat) : Option (Except EditError Unit) := do
  let delta ← sumDeltas? 0 (b.unseen u.seen)
  return do
    let base ← baseLength len delta
    u.edit.checkBounds base

/-- Forget the edits that an acknowledgement of `seen` edits covers.  No more
is believed than was ever sent, and an old acknowledgement changes nothing. -/
def retire (b : Backlog) (seen : Nat) : Backlog :=
  let seen := min seen b.sent
  if b.acknowledged < seen then
    { b with
      outstanding := b.outstanding.drop (seen - b.acknowledged)
      acknowledged := seen }
  else b

/-- Carry a remote edit past the local ones, oldest first, and every local one
past what the remote edit had become before it. -/
def pass? (priority : Priority) (remote : Edit) : List Edit → Option (Edit × List Edit)
  | [] => some (remote, [])
  | own :: rest => do
      let adjusted ← remote.transform? own priority
      let own' ← own.transform? remote priority.opposite
      let (final, rest') ← pass? priority adjusted rest
      return (final, own' :: rest')

/-- Receive an edit: the result is the edit to apply to the local text. -/
def receive? (b : Backlog) (u : Update) : Option (Edit × Backlog) := do
  let b := b.retire u.seen
  let received ← Word.fit? (b.received + 1)
  let (adjusted, outstanding) ← pass? b.priority u.edit b.outstanding
  return (adjusted, { b with outstanding := outstanding, received := received })

/-- Count edits of the peer that were applied without being received here. -/
def skip? (b : Backlog) (count : Nat) : Option Backlog := do
  let received ← Word.fit? (b.received + count)
  return { b with received := received }

end Backlog

end PairEdit
