import PairEdit.Session.Phase

/-!
# Events

What a party tells its host about the course of its sessions.  The host reads
the events when it likes, but no more of them are kept than fit the queue.
-/

namespace PairEdit.Session

/-- Why a session or an offer ended. -/
inductive EndReason where
  /-- The host stopped it. -/
  | localStop
  /-- The host refused the offer. -/
  | declined
  | peerStopped
  | disconnected
  /-- An edit could not be applied. -/
  | invalidOperation
deriving DecidableEq, Repr

/-- What a party tells its host. -/
inductive Event where
  | startRequested (offer : Offer)
  | started (other : PeerId) (role : Role)
  /-- The peer has accepted. -/
  | confirmed (other : PeerId)
  /-- A further offer was refused. -/
  | refused (peer : PeerId)
  | ended (other : PeerId) (reason : EndReason)
  /-- A local edit could not be sent. -/
  | sendFailed (peer : PeerId) (reason : ShareError)
deriving DecidableEq, Repr

/-- The number of events that are kept for a host that asks for room for `n`:
the next power of two. -/
def keptEvents (n : Nat) : Nat := (max n 1).nextPowerOfTwo

/-- The bytes that the place of one event in the queue takes. -/
def eventBytes : Nat := 128

/-- Whether a queue with room for `n` events can be made: its size in bytes is a
signed word. -/
def queueFits (n : Nat) : Bool := keptEvents n * eventBytes ≤ Word.maxSigned

/-- What the host reads: how many of the events are lost, the oldest ones, and
the others. -/
def readable (capacity : Nat) (events : List Event) : Nat × List Event :=
  let lost := events.length - keptEvents capacity
  (lost, events.drop lost)

end PairEdit.Session
