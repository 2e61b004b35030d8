import PairEdit.Message

/-!
# Refusals of the exchange

Why a message was not sent, or was not accepted when it arrived.
-/

namespace PairEdit

/-- The version of the protocol spoken here. -/
def protocolVersion : Nat := 0

/-- Why a message is not accepted. -/
inductive InvalidMessage where
  | breach (b : Breach)
  | encodedTooLong (bytes limit : Nat)
  | tooLong (bytes limit : Nat)
  /-- An offered text grew past the limit before it was accepted. -/
  | pendingTooLarge (chars limit : Nat)
deriving DecidableEq, Repr

/-- What is reported to the user. -/
def InvalidMessage.message : InvalidMessage → String
  | .breach b => b.message
  | .encodedTooLong bytes limit => s!"encoded message is {bytes} bytes, limit is {limit}"
  | .tooLong bytes limit => s!"message is {bytes} bytes, limit is {limit}"
  | .pendingTooLarge chars limit =>
      s!"pending document grew to {chars} chars, limit is {limit}"

/-- Why a message could not be exchanged. -/
inductive SyncError where
  /-- The bytes are no envelope. -/
  | decoding
  /-- The peer speaks another version of the protocol. -/
  | versionMismatch (peer : Nat)
  | invalidMessage (reason : InvalidMessage)
  /-- The sender is not on the network any more. -/
  | localDisconnected
  | peerNotConnected (peer : PeerId)
  /-- Nothing more can arrive. -/
  | channelClosed
deriving DecidableEq, Repr

/-- What is reported to the user. -/
def SyncError.message : SyncError → String
  | .decoding => "decoding error"
  | .versionMismatch peer =>
      s!"protocol version mismatch: local={protocolVersion}, peer={peer}"
  | .invalidMessage reason => "invalid message: " ++ reason.message
  | .localDisconnected => "transport error: local endpoint disconnected"
  | .peerNotConnected peer => s!"peer not connected: {peer.name}"
  | .channelClosed => "channel closed"

end PairEdit
