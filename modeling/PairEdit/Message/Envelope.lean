import PairEdit.Cbor.Reader
import PairEdit.Message

/-!
# Envelopes

On the wire a message travels in an envelope that names the version of the
protocol.  `Envelope.item` is the one data item that is written for it.
Reading is more generous, and `Envelope.ofItem?` says how far: the entries of a
map come in any order, unknown entries are passed over, lengths and numbers may
be spelled in any width, texts may come in pieces or as bytes.
-/

namespace PairEdit

open Cbor

/-- A message and the version of the protocol its sender speaks. -/
structure Envelope where
  version : Nat
  message : Message
deriving DecidableEq, Repr

namespace Envelope

/-! ## Writing -/

/-- A number, in its narrowest width. -/
def natItem (n : Nat) : Item := .unsigned (.narrowest n) n

/-- A text of given length. -/
def textItem (t : Text) : Item := .text (.narrowest (Utf8.encode t).length) t

/-- A map of given length. -/
def mapItem (entries : List (Item × Item)) : Item :=
  .map (.narrowest entries.length) entries

/-- A peer is written as an array of numbers. -/
def peerItem (id : PeerId) : Item :=
  .array (.narrowest id.bytes.length) (id.bytes.map fun b => natItem b.toNat)

/-- A field of a map. -/
def entry (name : String) (value : Item) : Item × Item := (textItem name.toList, value)

/-- The item of a message.  An update is a map of indefinite length. -/
def messageItem : Message → Item
  | .start offer => mapItem [
      entry "kind" (textItem "start".toList),
      entry "sender_id" (peerItem offer.senderId),
      entry "sender_name" (textItem offer.senderName),
      entry "receiver_id" (peerItem offer.receiverId),
      entry "document_text" (textItem offer.documentText),
      entry "file_name" (textItem offer.fileName)]
  | .update u => .openMap [
      entry "kind" (textItem "update".toList),
      entry "position" (natItem u.edit.pos),
      entry "delete_len" (natItem u.edit.del),
      entry "inserted_text" (textItem u.edit.ins),
      entry "sent" (natItem u.sent),
      entry "seen" (natItem u.seen)]
  | .stop => mapItem [entry "kind" (textItem "stop".toList)]

/-- The item of an envelope. -/
def item (e : Envelope) : Item :=
  mapItem [entry "version" (natItem e.version), entry "message" (messageItem e.message)]

/-- The bytes of an envelope. -/
def bytes (e : Envelope) : Bytes := e.item.encode

/-! ## Reading -/

/-- The longest name of a field of an envelope, or of a kind, in bytes. -/
def maxLabelBytes : Nat := 4096

/-- The bytes of a name: a text or byte string of given length, also tagged. -/
def label? (i : Item) : Option Bytes :=
  match i.untagged with
  | .text _ t =>
      let name := Utf8.encode t
      if name.length ≤ maxLabelBytes then some name else none
  | .bytes _ name => if name.length ≤ maxLabelBytes then some name else none
  | _ => none

/-- The name of a field inside a message. -/
inductive Key where
  | name (bytes : Bytes)
  | index (n : Nat)
deriving DecidableEq, Repr

/-- A field inside a message is named by a string or by a number. -/
def key? (i : Item) : Option Key :=
  match i.nat? with
  | some n => some (.index n)
  | none => i.string?.map .name

/-- Fields with their names. -/
abbrev Fields := List (Key × Item)

/-- The name of every entry. -/
def fields? : List (Item × Item) → Option Fields
  | [] => some []
  | (key, value) :: rest => do
      let k ← key? key
      let others ← fields? rest
      return (k, value) :: others

/-- The bytes of a name as it is written. -/
def nameBytes (name : String) : Bytes := Utf8.encode name.toList

/-- The one value among `values`. -/
def single? {α : Type} : List α → Option α
  | [a] => some a
  | _ => none

theorem single?_eq_some_iff {α : Type} {as : List α} {a : α} : single? as = some a ↔ as = [a] := by
  constructor
  · intro h
    unfold single? at h
    split at h
    · rw [Option.some.inj h]
    · cases h
  · rintro rfl
    rfl

/-- The value of the one field that has one of two names; a field that occurs
twice has no value. -/
def Fields.value? (fields : Fields) (name : String) (index : Option Nat) : Option Item :=
  single? <| (fields.filter fun f =>
    f.1 = .name (nameBytes name) || index.any fun n => f.1 = .index n).map Prod.snd

/-- A byte from its number. -/
def byte? (i : Item) : Option UInt8 :=
  match i.nat? with
  | some n => if n < 256 then some (UInt8.ofNat n) else none
  | none => none

/-- Bytes from their numbers. -/
def bytes? : List Item → Option Bytes
  | [] => some []
  | i :: rest => do
      let b ← byte? i
      let bs ← bytes? rest
      return b :: bs

/-- A peer from an array of numbers. -/
def peer? (i : Item) : Option PeerId := do
  let items ← i.items?
  let bytes ← bytes? items
  PeerId.ofBytes? bytes

/-- An offer from the values of its fields. -/
def start? (senderId senderName receiverId documentText fileName : Item) :
    Option Message := do
  let senderId ← peer? senderId
  let senderName ← senderName.text?
  let receiverId ← peer? receiverId
  let documentText ← documentText.text?
  let fileName ← fileName.text?
  return .start ⟨senderId, senderName, receiverId, documentText, fileName⟩

/-- A message from its kind and its fields.  The fields of an offer may also be
named by their place. -/
def ofFields? (kind : Bytes) (entries : List (Item × Item)) : Option Message :=
  if kind = nameBytes "stop" then some .stop
  else if kind = nameBytes "start" then do
    let fields ← fields? entries
    let senderId ← fields.value? "sender_id" (some 0)
    let senderName ← fields.value? "sender_name" (some 1)
    let receiverId ← fields.value? "receiver_id" (some 2)
    let documentText ← fields.value? "document_text" (some 3)
    let fileName ← fields.value? "file_name" (some 4)
    start? senderId senderName receiverId documentText fileName
  else if kind = nameBytes "update" then do
    let fields ← fields? entries
    let pos ← (← fields.value? "position" none).nat?
    let del ← (← fields.value? "delete_len" none).nat?
    let ins ← (← fields.value? "inserted_text" none).text?
    let sent ← (← fields.value? "sent" none).nat?
    let seen ← (← fields.value? "seen" none).nat?
    return .update ⟨⟨pos, del, ins⟩, sent, seen⟩
  else none

/-- A message from its kind and the values of its fields in their order. -/
def ofValues? (kind : Bytes) (values : List Item) : Option Message :=
  if kind = nameBytes "stop" then
    match values with
    | [] => some .stop
    | _ => none
  else if kind = nameBytes "start" then
    match values with
    | [senderId, senderName, receiverId, documentText, fileName] =>
        start? senderId senderName receiverId documentText fileName
    | _ => none
  else none

/-- Whether the key of an entry is the name of the kind. -/
def isKind (e : Item × Item) : Bool := e.1.string? == some (nameBytes "kind")

/-- A message from its item: a map in which one entry names the kind, or an
array that starts with it.  No item inside may be tagged, except the kind. -/
def message? (i : Item) : Option Message :=
  match i.entries?, i.items? with
  | some entries, _ => do
      let kind ← single? ((entries.filter isKind).map Prod.snd)
      let kind ← label? kind
      let others := entries.filter fun e => !isKind e
      if Item.everywhereInEntries Item.isPlain others then ofFields? kind others else none
  | none, some (kind :: values) => do
      let kind ← label? kind
      if Item.everywhereIn Item.isPlain values then ofValues? kind values else none
  | none, _ => none

/-- How many arrays, maps and tags a passed-over value may have inside each
other. -/
def maxLevels : Nat := 255

/-- The names of an envelope's entries. -/
def labels? : List (Item × Item) → Option (List (Bytes × Item))
  | [] => some []
  | (key, value) :: rest => do
      let name ← label? key
      let others ← labels? rest
      return (name, value) :: others

/-- The value of the one entry with a name. -/
def labelled? (entries : List (Bytes × Item)) (name : String) : Option Item :=
  single? ((entries.filter fun e => e.1 = nameBytes name).map Prod.snd)

/-- Whether an entry is one of the two that an envelope has. -/
def isKnown (e : Bytes × Item) : Bool :=
  e.1 == nameBytes "version" || e.1 == nameBytes "message"

/-- Whether a value can be passed over. -/
def isSkippable (i : Item) : Bool :=
  decide (i.levels ≤ maxLevels) && i.everywhere Item.isInRange

/-- An envelope from its item, which may be tagged. -/
def ofItem? (i : Item) : Option Envelope := do
  let entries ← labels? (← i.untagged.entries?)
  if entries.all fun e => isKnown e || isSkippable e.2 then
    let version ← (← labelled? entries "version").integer?
    let message ← message? (← labelled? entries "message")
    if version < 256 then return ⟨version, message⟩ else none
  else none

/-- How many arrays and maps may lie inside each other in an envelope. -/
def maxDepth : Nat := 256

/-- The envelope at the front of a byte string; what follows it is ignored. -/
def ofBytes? (bytes : Bytes) : Option Envelope := do
  let (i, _) ← Cbor.read maxDepth bytes
  ofItem? i

end Envelope

end PairEdit
