import PairEdit.Hex

/-!
# Peers

Both parties of a session, and the network between them, know each other by an
identifier of 32 bytes.
-/

namespace PairEdit

/-- The identifier of a participant. -/
structure PeerId where
  bytes : Bytes
  length_bytes : bytes.length = 32
deriving DecidableEq

namespace PeerId

/-- The identifier with these bytes, when they are 32. -/
def ofBytes? (bytes : Bytes) : Option PeerId :=
  if h : bytes.length = 32 then some ⟨bytes, h⟩ else none

/-- The identifier that repeats one byte. -/
def ofByte (b : UInt8) : PeerId := ⟨List.replicate 32 b, List.length_replicate⟩

/-- Read the hexadecimal form. -/
def ofHex (text : Text) : Except Hex.Error PeerId := do
  let bytes ← Hex.decode (Utf8.encode text)
  match ofBytes? bytes with
  | some id => .ok id
  | none => .error .invalidLength

/-- All 64 digits. -/
def hex (id : PeerId) : List Char := Hex.encode id.bytes

/-- The first 16 digits, which name a peer in messages and stand in for a
display name. -/
def short (id : PeerId) : Text := id.hex.take 16

/-- The short form as a string. -/
def name (id : PeerId) : String := String.ofList id.short

/-- The short form with the word that says what it is. -/
def describe (id : PeerId) : String := s!"PeerId({id.name})"

/-- Identifiers are ordered by their bytes, the first difference deciding. -/
def precedes (a b : PeerId) : Bool := decide (¬ b.bytes < a.bytes)

/-- In ascending order. -/
def sort (peers : List PeerId) : List PeerId := peers.mergeSort precedes

theorem ofBytes?_bytes (id : PeerId) : ofBytes? id.bytes = some id := by
  simp [ofBytes?, id.length_bytes]

/-- An identifier is read back from its digits. -/
theorem ofHex_hex (id : PeerId) : ofHex id.hex = .ok id := by
  simp [ofHex, hex, Hex.decode_encode, ofBytes?_bytes, bind, Except.bind]

instance : Inhabited PeerId := ⟨ofByte 0⟩

instance : Repr PeerId := ⟨fun id _ => id.describe⟩

end PeerId

end PairEdit
