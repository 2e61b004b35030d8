import PairEdit.Message.Envelope
import PairEdit.Message.Error

/-!
# Messages as bytes

`encode` writes a message within the limits, and `decode` reads what arrived.
A payload that is too long is not read at all; then it has to be an envelope,
of the right version, around a message within the limits.
-/

namespace PairEdit

namespace Message

/-- The bytes of a message, when they keep to the limits. -/
def encode (limits : Limits) (m : Message) : Except SyncError Bytes :=
  match m.check limits with
  | .error b => .error (.invalidMessage (.breach b))
  | .ok () =>
      let bytes := (Envelope.mk protocolVersion m).bytes
      if limits.messageBytes < bytes.length then
        .error (.invalidMessage (.encodedTooLong bytes.length limits.messageBytes))
      else .ok bytes

/-- The message that bytes denote. -/
def decode (limits : Limits) (bytes : Bytes) : Except SyncError Message :=
  if limits.messageBytes < bytes.length then
    .error (.invalidMessage (.tooLong bytes.length limits.messageBytes))
  else match Envelope.ofBytes? bytes with
    | none => .error .decoding
    | some e =>
        if e.version ≠ protocolVersion then .error (.versionMismatch e.version)
        else match e.message.check limits with
          | .error b => .error (.invalidMessage (.breach b))
          | .ok () => .ok e.message

end Message

end PairEdit
