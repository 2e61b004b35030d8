import PairEdit.Session.Run

/-!
# A pair of parties

The smallest world in which something is shared: two parties on one network,
each with a document.  The first one, Alice, offers hers; the second one, Bob,
starts with an empty one.
-/

namespace PairEdit.Session

/-- Two parties and their documents. -/
structure Pair where
  world : World
  alice : Nat
  bob : Nat
  aliceDocument : Nat
  bobDocument : Nat
deriving Repr

namespace Pair

/-- Alice's identity. -/
def aliceId : PeerId := .ofByte 0xA1

/-- Bob's identity. -/
def bobId : PeerId := .ofByte 0xB0

/-- Both parties idle; Alice's document holds `text`. -/
def idle (text : Text) (config : Config) : Pair :=
  let (alice, w) := World.empty.addParty aliceId config
  let (bob, w) := w.addParty bobId config
  let (aliceDocument, w) := w.addDocument text
  let (bobDocument, w) := w.addDocument []
  ⟨w, alice, bob, aliceDocument, bobDocument⟩

/-- Make a call. -/
def run (pair : Pair) (c : Call) : Except Fault (Outcome × Pair) := do
  let (outcome, w) ← pair.world.run c
  return (outcome, { pair with world := w })

/-- Alice offers her document to Bob. -/
def start (pair : Pair) : Except ShareError Unit × Pair :=
  let (result, w) := pair.world.start pair.alice aliceId (some "alice".toList) bobId
    "shared.txt".toList pair.aliceDocument
  (result, { pair with world := w })

/-- Deliver all messages in both directions until none are left; the result is
how many there were. -/
def pump (pair : Pair) : Except Fault (Nat × Pair) := do
  let (n, w) ← pair.world.pumpAll [pair.alice, pair.bob]
  return (n, { pair with world := w })

/-- Deliver what is queued for one party; a closed endpoint has nothing. -/
def pumpOne (pair : Pair) (p : Nat) : Except Fault (Nat × Pair) := do
  let (n, w) ← pair.world.pumpRound [p]
  return (n, { pair with world := w })

/-- Bob accepts into his document. -/
def accept (pair : Pair) : Except Fault (Outcome × Pair) :=
  pair.run (.accept pair.bob pair.bobDocument)

/-- Alice has offered her document; Bob does not know yet.  A text over the
limit cannot be offered. -/
def offered? (text : Text) : Option Pair :=
  match (idle text .usual).start with
  | (.ok (), pair) => some pair
  | (.error _, _) => none

/-- A session in which Bob has accepted. -/
def sharing? (text : Text) : Except Fault (Option Pair) :=
  match offered? text with
  | none => .ok none
  | some pair => do
      let (_, pair) ← pair.pump
      match ← pair.accept with
      | (.shared (.ok ()), pair) => return some pair
      | _ => return none

/-- Alice's text. -/
def aliceText (pair : Pair) : Text := (pair.world.document pair.aliceDocument).text

/-- Bob's text. -/
def bobText (pair : Pair) : Text := (pair.world.document pair.bobDocument).text

/-- Whether both documents hold the same text. -/
def converged (pair : Pair) : Bool := pair.aliceText == pair.bobText

end Pair

end PairEdit.Session
