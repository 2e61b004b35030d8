import PairEdit.Session.World

/-!
# What a host sees

The answers a party gives when it is asked about its session, and the events it
keeps until they are read.
-/

namespace PairEdit.Session

namespace World

/-- Read the events of a party: how many are lost, and the others. -/
def readEvents (w : World) (p : Nat) : (Nat × List Event) × World :=
  let party := w.party p
  (readable party.config.eventCapacity party.events,
    w.modifyParty p fun party => { party with events := [] })

end World

/-- The status on one line. -/
def Status.describe : Status → String
  | .idle => "Idle"
  | .pending .initiator => "PendingStart \x7b role: Initiator \x7d"
  | .pending .receiver => "PendingStart \x7b role: Receiver \x7d"
  | .sharing => "Sharing"

/-- A party on one line. -/
def World.describe (w : World) (p : Nat) : String :=
  let identity := (w.identity p).describe
  let state := (w.phase p).status.describe
  s!"DocShare \x7b local: {identity}, state: {state} \x7d"

end PairEdit.Session
