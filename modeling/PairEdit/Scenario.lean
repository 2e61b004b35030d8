import PairEdit.Backlog

/-!
# Scenarios of concurrent edits

A scenario is a text and one edit of each side, made at the same time.  Playing
it through a pair of backlogs gives the text that each side ends up with.  The
scenarios listed here are the ones every implementation of the protocol has to
agree on.
-/

namespace PairEdit

/-- Two edits made at the same time on one text. -/
structure Scenario where
  name : Text
  base : Text
  initiator : Edit
  receiver : Edit
  /-- The text both sides have to end up with. -/
  expected : Text
deriving DecidableEq, Repr

namespace Scenario

/-- Apply the peer's edit to the text of the side that has the backlog. -/
def follow? (backlog : Backlog) (text : Text) (u : Update) : Option Text := do
  let fits ← backlog.check? u text.length
  match fits with
  | .error _ => none
  | .ok () =>
      let (adjusted, _) ← backlog.receive? u
      (adjusted.apply text).toOption

/-- The texts the initiator and the receiver end up with; none, when one of the
edits does not fit. -/
def play? (base : Text) (initiator receiver : Edit) : Option (Text × Text) := do
  let (fromInitiator, initiatorBacklog) ← (Backlog.start .initiator).register? initiator
  let (fromReceiver, receiverBacklog) ← (Backlog.start .receiver).register? receiver
  let initiatorText ← (initiator.apply base).toOption
  let receiverText ← (receiver.apply base).toOption
  let initiatorText ← follow? initiatorBacklog initiatorText fromReceiver
  let receiverText ← follow? receiverBacklog receiverText fromInitiator
  return (initiatorText, receiverText)

/-- A scenario from the strings of its texts. -/
def ofStrings (name base : String) (initiator receiver : Nat × Nat × String)
    (expected : String) : Scenario where
  name := name.toList
  base := base.toList
  initiator := ⟨initiator.1, initiator.2.1, initiator.2.2.toList⟩
  receiver := ⟨receiver.1, receiver.2.1, receiver.2.2.toList⟩
  expected := expected.toList

/-- The scenarios to agree on. -/
def all : List Scenario := [
  ofStrings "inserts at both ends" "hello" (5, 0, "X") (0, 0, "Y") "YhelloX",
  ofStrings "inserts at the same offset" "ab" (1, 0, "I") (1, 0, "R") "aIRb",
  ofStrings "overlapping deletes" "abcdef" (1, 3, "") (2, 3, "") "af",
  ofStrings "insert inside a replaced range" "abcdef" (1, 4, "Z") (3, 0, "r") "aZf",
  ofStrings "disjoint replacements" "one two" (0, 3, "1") (4, 3, "2") "1 2",
  ofStrings "multi-byte chars" "héllo" (5, 0, "☃") (0, 1, "") "éllo☃"]

end Scenario

end PairEdit
