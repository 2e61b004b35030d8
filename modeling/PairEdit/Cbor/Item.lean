import PairEdit.Cbor.Head
import PairEdit.Utf8

/-!
# Data items

A CBOR data item together with how it is spelled: the width of every head, and
whether a length is given or an end marked.  Two items that spell the same
value differ here, so `encode` is a function, and what a reader may ignore is
said by the functions on items and not by the reader.
-/

namespace PairEdit.Cbor

/-- A data item and its spelling. -/
inductive Item where
  | unsigned (w : Width) (n : Nat)
  /-- The number `-1 - n`. -/
  | negative (w : Width) (n : Nat)
  | bytes (w : Width) (content : Bytes)
  /-- A byte string in pieces. -/
  | byteChunks (chunks : List (Width × Bytes))
  | text (w : Width) (content : Text)
  /-- A text in pieces, each of them a text. -/
  | textChunks (chunks : List (Width × Text))
  | array (w : Width) (items : List Item)
  | openArray (items : List Item)
  | map (w : Width) (entries : List (Item × Item))
  | openMap (entries : List (Item × Item))
  | tagged (w : Width) (tag : Nat) (item : Item)
  /-- False, true, null and undefined, by their numbers 20 to 23. -/
  | simple (w : Width) (n : Nat)
  /-- A floating-point number, by the number its bits form. -/
  | float (w : Width) (bits : Nat)
deriving Repr, Inhabited

namespace Item

/-- The bytes of a piece of a text or byte string. -/
def encodeChunk (major : Major) (w : Width) (content : Bytes) : Bytes :=
  head major w content.length ++ content

mutual

/-- The bytes of an item. -/
def encode : Item → Bytes
  | unsigned w n => head .unsigned w n
  | negative w n => head .negative w n
  | bytes w content => encodeChunk .bytes w content
  | byteChunks chunks =>
      openHead .bytes ++ (chunks.flatMap (fun c => encodeChunk .bytes c.1 c.2) ++ [breakByte])
  | text w content => encodeChunk .text w (Utf8.encode content)
  | textChunks chunks =>
      openHead .text ++
        (chunks.flatMap (fun c => encodeChunk .text c.1 (Utf8.encode c.2)) ++ [breakByte])
  | array w items => head .array w items.length ++ encodeAll items
  | openArray items => openHead .array ++ (encodeAll items ++ [breakByte])
  | map w entries => head .map w entries.length ++ encodeEntries entries
  | openMap entries => openHead .map ++ (encodeEntries entries ++ [breakByte])
  | tagged w tag item => head .tag w tag ++ encode item
  | simple w n => head .other w n
  | float w bits => head .other w bits

/-- The bytes of items in a row. -/
def encodeAll : List Item → Bytes
  | [] => []
  | item :: rest => encode item ++ encodeAll rest

/-- The bytes of the keys and values of a map. -/
def encodeEntries : List (Item × Item) → Bytes
  | [] => []
  | entry :: rest => encodeEntry entry ++ encodeEntries rest

/-- The bytes of a key and its value. -/
def encodeEntry : Item × Item → Bytes
  | (key, value) => encode key ++ encode value

end

/-- Whether a tag and the item under it are one number: tags 2 and 3 make
numbers of byte strings that have a given length of at most 16. -/
def isBigNumber (tag : Nat) : Item → Bool
  | bytes _ content => (tag == 2 || tag == 3) && content.length ≤ 16
  | _ => false

mutual

/-- How many arrays, maps and tags lie around the innermost item.  The tag of a
big number does not count. -/
def levels : Item → Nat
  | array _ items => levelsAll items + 1
  | openArray items => levelsAll items + 1
  | map _ entries => levelsEntries entries + 1
  | openMap entries => levelsEntries entries + 1
  | tagged _ tag item => if isBigNumber tag item then 0 else levels item + 1
  | _ => 0

/-- The greatest number of levels among items. -/
def levelsAll : List Item → Nat
  | [] => 0
  | item :: rest => max (levels item) (levelsAll rest)

/-- The greatest number of levels among keys and values. -/
def levelsEntries : List (Item × Item) → Nat
  | [] => 0
  | entry :: rest => max (levelsEntry entry) (levelsEntries rest)

/-- The greater number of levels of a key and its value. -/
def levelsEntry : Item × Item → Nat
  | (key, value) => max (levels key) (levels value)

end

mutual

/-- Whether an item and all items inside it have a property. -/
def everywhere (holds : Item → Bool) : Item → Bool
  | array w items => holds (array w items) && everywhereIn holds items
  | openArray items => holds (openArray items) && everywhereIn holds items
  | map w entries => holds (map w entries) && everywhereInEntries holds entries
  | openMap entries => holds (openMap entries) && everywhereInEntries holds entries
  | tagged w tag item => holds (tagged w tag item) && everywhere holds item
  | item => holds item

/-- `everywhere` in all items. -/
def everywhereIn (holds : Item → Bool) : List Item → Bool
  | [] => true
  | item :: rest => everywhere holds item && everywhereIn holds rest

/-- `everywhere` in all keys and values. -/
def everywhereInEntries (holds : Item → Bool) : List (Item × Item) → Bool
  | [] => true
  | entry :: rest => everywhereInEntry holds entry && everywhereInEntries holds rest

/-- `everywhere` in a key and its value. -/
def everywhereInEntry (holds : Item → Bool) : Item × Item → Bool
  | (key, value) => everywhere holds key && everywhere holds value

end

/-- An item is plain when it is no tag and no negative number below the least
signed word. -/
def isPlain : Item → Bool
  | negative _ n => decide (n < 0x8000_0000_0000_0000)
  | tagged .. => false
  | _ => true

/-- A negative big number is in range when it is a signed number of 128 bits. -/
def isInRange : Item → Bool
  | tagged _ 3 (bytes _ content) =>
      decide (16 < content.length) || decide (ofBigEndian content < 1 <<< 127)
  | _ => true

/-- The item under its tags. -/
def untagged : Item → Item
  | tagged _ _ item => untagged item
  | item => item

/-- The entries of a map. -/
def entries? : Item → Option (List (Item × Item))
  | map _ entries => some entries
  | openMap entries => some entries
  | _ => none

/-- The items of an array. -/
def items? : Item → Option (List Item)
  | array _ items => some items
  | openArray items => some items
  | _ => none

/-- The number of an unsigned integer. -/
def nat? : Item → Option Nat
  | unsigned _ n => some n
  | _ => none

/-- The content of a text or byte string, as bytes. -/
def string? : Item → Option Bytes
  | bytes _ content => some content
  | byteChunks chunks => some (chunks.flatMap Prod.snd)
  | text _ content => some (Utf8.encode content)
  | textChunks chunks => some (chunks.flatMap fun c => Utf8.encode c.2)
  | _ => none

/-- The content of a text or byte string that is a text. -/
def text? : Item → Option Text
  | bytes _ content => Utf8.decode? content
  | byteChunks chunks => Utf8.decode? (chunks.flatMap Prod.snd)
  | text _ content => some content
  | textChunks chunks => some (chunks.flatMap Prod.snd)
  | _ => none

/-- The number that bytes stand for, when at most 16 of them are left without the
zeros in front. -/
def bigEndian? (digits : Bytes) : Option Nat :=
  let significant := digits.dropWhile (· == 0)
  if significant.length ≤ 16 then some (ofBigEndian significant) else none

/-- The number of a big unsigned integer, whose item is the byte string. -/
def bigNat? : Item → Option Nat
  | bytes _ content => bigEndian? content
  | byteChunks chunks => bigEndian? (chunks.flatMap Prod.snd)
  | _ => none

/-- The number of an unsigned integer, also a tagged or a big one.  Tag 2 says
that a big unsigned integer follows, and tag 3 a big negative one. -/
def integer? : Item → Option Nat
  | unsigned _ n => some n
  | tagged _ tag item =>
      if tag = 2 then bigNat? item else if tag = 3 then none else integer? item
  | _ => none

end Item

end PairEdit.Cbor
