import PairEdit.Cbor.Item

/-!
# Reading data items

`read depth` takes one data item off the front of a byte string; arrays and
maps may be nested `depth` deep.  A text has to be UTF-8 in each of its pieces.
Of the simple values only false, true, null and undefined are known.

Everything with an open end is read with fuel.  Each step of such a reading
takes a byte at least, so the length of the whole input is fuel enough for all
of them.
-/

namespace PairEdit.Cbor

/-- A way to take one thing off the front of a byte string. -/
abbrev Reader (α : Type) := Bytes → Option (α × Bytes)

/-- Take `count` things, the ones before them being in `read`, last one first. -/
def readMany {α : Type} (one : Reader α) (read : List α) : Nat → Reader (List α)
  | 0, rest => some (read.reverse, rest)
  | count + 1, rest => do
      let (a, rest) ← one rest
      readMany one (a :: read) count rest

/-- Take things up to the byte that ends them. -/
def readUntilBreak {α : Type} (one : Reader α) (read : List α) : Nat → Reader (List α)
  | 0, _ => none
  | fuel + 1, rest =>
      match rest with
      | [] => none
      | b :: after =>
          if b = breakByte then some (read.reverse, after)
          else do
            let (a, rest) ← one rest
            readUntilBreak one (a :: read) fuel rest

/-- A key and its value. -/
def readEntry (one : Reader Item) : Reader (Item × Item) := fun rest => do
  let (key, rest) ← one rest
  let (value, rest) ← one rest
  return ((key, value), rest)

/-- The pieces of a string of indefinite length, whose heads have the given
major type.  `opened` strings of indefinite length are open; one may stand
where a piece may. -/
def readChunks (major : Major) (read : List (Width × Bytes)) (opened : Nat) :
    Nat → Reader (List (Width × Bytes))
  | 0, _ => none
  | fuel + 1, rest => do
      let (m, argument, rest) ← readHead rest
      match argument with
      | .indefinite =>
          if m = .other then
            if opened = 1 then return (read.reverse, rest)
            else readChunks major read (opened - 1) fuel rest
          else if m = major then readChunks major read (opened + 1) fuel rest
          else none
      | .number w n =>
          if m = major then do
            let (content, rest) ← Sequence.cut? n rest
            readChunks major ((w, content) :: read) opened fuel rest
          else none

/-- A text from the bytes of its pieces. -/
def decodeChunks : List (Width × Bytes) → Option (List (Width × Text))
  | [] => some []
  | (w, content) :: rest => do
      let t ← Utf8.decode? content
      let ts ← decodeChunks rest
      return (w, t) :: ts

/-- The tags in front of an item, last one first, and the head of the item. -/
def readTags (tags : List (Width × Nat)) : Nat → Bytes →
    Option (List (Width × Nat) × Major × Argument × Bytes)
  | 0, _ => none
  | fuel + 1, rest => do
      let (major, argument, rest) ← readHead rest
      match major, argument with
      | .tag, .number w tag => readTags ((w, tag) :: tags) fuel rest
      | _, _ => return (tags, major, argument, rest)

/-- The rest of an item after its head.  `nested` reads the items inside it;
without it, no item may be inside. -/
def readBody (fuel : Nat) (nested : Option (Reader Item)) (major : Major) (argument : Argument) :
    Reader Item := fun rest =>
  match major, argument with
  | .unsigned, .number w n => some (.unsigned w n, rest)
  | .negative, .number w n => some (.negative w n, rest)
  | .bytes, .number w n => do
      let (content, rest) ← Sequence.cut? n rest
      return (.bytes w content, rest)
  | .bytes, .indefinite => do
      let (chunks, rest) ← readChunks .bytes [] 1 fuel rest
      return (.byteChunks chunks, rest)
  | .text, .number w n => do
      let (content, rest) ← Sequence.cut? n rest
      let t ← Utf8.decode? content
      return (.text w t, rest)
  | .text, .indefinite => do
      let (chunks, rest) ← readChunks .text [] 1 fuel rest
      let chunks ← decodeChunks chunks
      return (.textChunks chunks, rest)
  | .array, .number w n => do
      let one ← nested
      let (items, rest) ← readMany one [] n rest
      return (.array w items, rest)
  | .array, .indefinite => do
      let one ← nested
      let (items, rest) ← readUntilBreak one [] fuel rest
      return (.openArray items, rest)
  | .map, .number w n => do
      let one ← nested
      let (entries, rest) ← readMany (readEntry one) [] n rest
      return (.map w entries, rest)
  | .map, .indefinite => do
      let one ← nested
      let (entries, rest) ← readUntilBreak (readEntry one) [] fuel rest
      return (.openMap entries, rest)
  | .other, .number w n =>
      match w with
      | .inline | .one => if 20 ≤ n ∧ n ≤ 23 then some (.simple w n, rest) else none
      | _ => some (.float w n, rest)
  | _, _ => none

/-- An item, given what reads the items inside it. -/
def readItem (fuel : Nat) (nested : Option (Reader Item)) : Reader Item := fun rest => do
  let (major, argument, rest) ← readHead rest
  match major, argument with
  | .tag, .number w tag => do
      let (tags, major, argument, rest) ← readTags [(w, tag)] fuel rest
      let (item, rest) ← readBody fuel nested major argument rest
      return (tags.foldl (fun item tag => .tagged tag.1 tag.2 item) item, rest)
  | _, _ => readBody fuel nested major argument rest

/-- One item with at most `depth` arrays and maps around its innermost part. -/
def readWithin (fuel : Nat) : Nat → Reader Item
  | 0 => readItem fuel none
  | depth + 1 => readItem fuel (some (readWithin fuel depth))

/-- One item with at most `depth` arrays and maps around its innermost part. -/
def read (depth : Nat) : Reader Item := fun bytes => readWithin bytes.length depth bytes

end PairEdit.Cbor
