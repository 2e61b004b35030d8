import PairEdit.Backlog
import PairEdit.Edit.Description

/-!
# Strategies

How a session reconciles edits that cross on the way.  The usual strategy
keeps a backlog and transforms.  The plain one applies every edit as it
arrives, which is right only when the sides take turns.
-/

namespace PairEdit

/-- The state of a session's strategy. -/
inductive Strategy where
  | backlog (state : Backlog)
  | plain
deriving DecidableEq, Repr

namespace Strategy

/-- Which strategy a session uses. -/
inductive Kind where
  | backlog
  | plain
deriving DecidableEq, Repr, Inhabited

/-- A fresh strategy for a session in the given role. -/
def start (kind : Kind) (role : Role) : Strategy :=
  match kind with
  | .backlog => .backlog (.start role)
  | .plain => .plain

/-- Record a local edit and tag it for sending. -/
def register? (s : Strategy) (e : Edit) : Option (Update × Strategy) :=
  match s with
  | .backlog b => (b.register? e).map fun (u, b) => (u, .backlog b)
  | .plain => some (⟨e, 0, 0⟩, .plain)

/-- Whether an arriving edit fits the text it was made on. -/
def check? (s : Strategy) (u : Update) (len : Nat) : Option (Except EditError Unit) :=
  match s with
  | .backlog b => b.check? u len
  | .plain => some (u.edit.checkBounds len)

/-- Receive an edit: the result is the edit to apply to the local text. -/
def receive? (s : Strategy) (u : Update) : Option (Edit × Strategy) :=
  match s with
  | .backlog b => (b.receive? u).map fun (e, b) => (e, .backlog b)
  | .plain => some (u.edit, .plain)

/-- Count edits of the peer that were applied without being received here. -/
def skip? (s : Strategy) (count : Nat) : Option Strategy :=
  match s with
  | .backlog b => (b.skip? count).map .backlog
  | .plain => some .plain

/-- The local edits the peer has not acknowledged, oldest first. -/
def outstanding : Strategy → List Edit
  | .backlog b => b.outstanding
  | .plain => []

/-- The state on one line. -/
def describe : Strategy → String
  | .plain => "IdentityStrategy"
  | .backlog b =>
      let edits := Edit.describeAll b.outstanding
      let priority := match b.priority with
        | .localFirst => "Local"
        | .remoteFirst => "Remote"
      s!"ColaStrategy \x7b outstanding: {edits}, sent: {b.sent}, acknowledged: " ++
        s!"{b.acknowledged}, received: {b.received}, priority: {priority} \x7d"

end Strategy

end PairEdit
