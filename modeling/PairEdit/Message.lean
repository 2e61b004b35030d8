import PairEdit.Backlog
import PairEdit.Peer

/-!
# Messages

What the two sides of a session say to each other: an offer of a document, an
edit, and the end.  Every message is held against limits before it is sent and
after it arrives.
-/

namespace PairEdit

/-- An offer of a document. -/
structure Start where
  senderId : PeerId
  /-- The name the receiver is shown. -/
  senderName : Text
  receiverId : PeerId
  /-- The whole text at the moment of the offer. -/
  documentText : Text
  fileName : Text
deriving DecidableEq, Repr

/-- A message of a session. -/
inductive Message where
  | start (offer : Start)
  | update (edit : Update)
  /-- The end of a session, or the refusal of an offer. -/
  | stop
deriving DecidableEq, Repr

/-- How large messages may be. -/
structure Limits where
  documentChars : Nat
  insertChars : Nat
  fileNameChars : Nat
  senderNameChars : Nat
  messageBytes : Nat
deriving DecidableEq, Repr

/-- The limits of a session that sets none. -/
def Limits.usual : Limits where
  documentChars := 4 * 1024 * 1024
  insertChars := 1024 * 1024
  fileNameChars := 1024
  senderNameChars := 256
  messageBytes := 32 * 1024 * 1024

/-- The first limit that a message breaks. -/
inductive Breach where
  | document
  | fileName
  | senderName
  /-- The end of an edit's range is no 64-bit word. -/
  | range
  | insertion
deriving DecidableEq, Repr

/-- What is reported to the user. -/
def Breach.message : Breach → String
  | .document => "document too large"
  | .fileName => "file name too long"
  | .senderName => "sender name too long"
  | .range => "operation range overflows"
  | .insertion => "inserted text too large"

/-- Hold a message against the limits. -/
def Message.check (limits : Limits) : Message → Except Breach Unit
  | .start offer =>
      if limits.documentChars < offer.documentText.length then .error .document
      else if limits.fileNameChars < offer.fileName.length then .error .fileName
      else if limits.senderNameChars < offer.senderName.length then .error .senderName
      else .ok ()
  | .update u =>
      if Word.max < u.edit.pos + u.edit.del then .error .range
      else if limits.insertChars < u.edit.ins.length then .error .insertion
      else .ok ()
  | .stop => .ok ()

end PairEdit
