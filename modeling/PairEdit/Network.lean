import PairEdit.Message.Wire
import PairEdit.Table

/-!
# The network

Peers reach each other through endpoints.  Each endpoint has a queue, and
messages arrive in the order they were sent, at most once.  A peer has one
attached endpoint at most: making a new one detaches the old, and so does
disconnecting the peer, which all the others are told of.  A detached endpoint
still gives out what is queued; after that it is closed.
-/

namespace PairEdit

/-- What arrives at an endpoint. -/
inductive Arrival where
  | message (sender : PeerId) (payload : Bytes)
  | disconnected (peer : PeerId)
deriving DecidableEq, Repr

/-- A place where a peer receives. -/
structure Endpoint where
  peer : PeerId
  /-- What has arrived and was not taken yet, oldest first. -/
  queue : List Arrival
  /-- Whether messages to the peer arrive here. -/
  attached : Bool
  /-- Whether somebody still holds it and may take what arrives. -/
  held : Bool
deriving DecidableEq, Repr

instance : Inhabited Endpoint := ⟨⟨default, [], false, false⟩⟩

/-- All endpoints ever made. -/
structure Network where
  endpoints : Table Endpoint
deriving Repr

namespace Network

/-- No endpoints. -/
def empty : Network := ⟨.empty⟩

/-- The endpoint with a number. -/
def endpoint (n : Network) (id : Nat) : Endpoint := n.endpoints.get id

/-- Change an endpoint. -/
def modify (n : Network) (id : Nat) (f : Endpoint → Endpoint) : Network :=
  ⟨n.endpoints.modify id f⟩

/-- The endpoint attached for a peer. -/
def attached? (n : Network) (peer : PeerId) : Option Nat :=
  n.endpoints.slots.findIdx? fun e => e.attached && e.peer == peer

/-- Whether the peer has an attached endpoint. -/
def isConnected (n : Network) (peer : PeerId) : Bool := (n.attached? peer).isSome

/-- Detach the endpoint of a peer. -/
def Endpoint.detachFrom (peer : PeerId) (e : Endpoint) : Endpoint :=
  if e.peer = peer then { e with attached := false } else e

/-- Make an endpoint for a peer; one it has already is detached. -/
def create (n : Network) (peer : PeerId) : Nat × Network :=
  let others : Table Endpoint := ⟨n.endpoints.slots.map (Endpoint.detachFrom peer)⟩
  let (id, endpoints) := others.push ⟨peer, [], true, true⟩
  (id, ⟨endpoints⟩)

/-- What an endpoint holds after one more arrival. -/
def Endpoint.deliver (arrival : Arrival) (e : Endpoint) : Endpoint :=
  { e with queue := e.queue ++ [arrival] }

/-- Send from an endpoint to a peer.  The sender has to be on the network
itself. -/
def send (n : Network) (source : Nat) (peer : PeerId) (payload : Bytes) :
    Except SyncError Unit × Network :=
  let sender := (n.endpoint source).peer
  if !n.isConnected sender then (.error .localDisconnected, n)
  else match n.attached? peer with
    | none => (.error (.peerNotConnected peer), n)
    | some target =>
        if (n.endpoint target).held then
          (.ok (), n.modify target (Endpoint.deliver (.message sender payload)))
        else (.error (.peerNotConnected peer), n)

/-- What becomes of an endpoint when a peer leaves. -/
def Endpoint.leave (peer : PeerId) (e : Endpoint) : Endpoint :=
  if e.attached then
    if e.peer = peer then { e with attached := false }
    else Endpoint.deliver (.disconnected peer) e
  else e

/-- Take a peer off the network and tell all others. -/
def disconnect (n : Network) (peer : PeerId) : Network :=
  if n.isConnected peer then ⟨⟨n.endpoints.slots.map (Endpoint.leave peer)⟩⟩ else n

/-- Take the oldest arrival, if there is one.  A detached endpoint with nothing
queued is closed. -/
def receive (n : Network) (id : Nat) : Except SyncError (Option Arrival) × Network :=
  let e := n.endpoint id
  match e.queue with
  | arrival :: rest => (.ok (some arrival), n.modify id fun e => { e with queue := rest })
  | [] => (if e.attached then .ok none else .error .channelClosed, n)

/-- Let go of an endpoint: nothing can be sent to it any more, though the peer
still counts as connected. -/
def release (n : Network) (id : Nat) : Network :=
  n.modify id fun e => { e with held := false }

end Network

end PairEdit
