import PairEdit.Document
import PairEdit.Message.Wire

/-!
# Refusals of a session

Why a call to a party, or a message it received, came to nothing.  None of
them is fatal: the worst that happens is that the session ends.
-/

namespace PairEdit.Session

/-- How a message breaks the rules of the session. -/
inductive Violation where
  /-- An offer in the name of somebody else. -/
  | claimsSender (peer : PeerId)
  /-- An offer to somebody else. -/
  | addressedTo (peer : PeerId)
  /-- An edit from a peer outside the session. -/
  | outsider
deriving DecidableEq, Repr

/-- What is reported to the user. -/
def Violation.message : Violation → String
  | .claimsSender peer => s!"start claims sender {peer.name}"
  | .addressedTo peer => s!"start addressed to {peer.name}"
  | .outsider => "update from a peer outside the session"

/-- An argument that makes no sense. -/
inductive Misuse where
  | shareWithSelf
  /-- Sharing under another identity than the endpoint's. -/
  | foreignIdentity (ours endpoint : PeerId)
deriving DecidableEq, Repr

/-- What is reported to the user. -/
def Misuse.message : Misuse → String
  | .shareWithSelf => "cannot share a document with ourselves"
  | .foreignIdentity ours endpoint =>
      s!"sharing as {ours.name} over the channel of {endpoint.name}"

/-- Why a call or a message came to nothing. -/
inductive ShareError where
  | sync (reason : SyncError)
  | document (reason : DocumentError)
  /-- A session or an offer is there already. -/
  | busy
  /-- No offer waits for an answer. -/
  | noPendingOffer
  | protocol (peer : PeerId) (violation : Violation)
  /-- An edit of the peer does not fit. -/
  | invalidOperation (reason : EditError)
  | invalidArgument (misuse : Misuse)
deriving DecidableEq, Repr

namespace ShareError

/-- What is reported to the user. -/
def message : ShareError → String
  | sync reason => "sync error: " ++ reason.message
  | document reason => "document error: " ++ reason.message
  | busy => "already sharing or waiting on a start request"
  | noPendingOffer => "no pending share request"
  | protocol peer violation => s!"protocol violation from {peer.name}: " ++ violation.message
  | invalidOperation reason => "invalid remote operation: " ++ reason.message
  | invalidArgument misuse => "invalid argument: " ++ misuse.message

/-- Whether the message itself was at fault: malformed, unexpected, or meant
for somebody else. -/
def isProtocolError : ShareError → Bool
  | protocol .. => true
  | sync .decoding => true
  | sync (.invalidMessage _) => true
  | sync (.versionMismatch _) => true
  | _ => false

end ShareError

end PairEdit.Session
