import Mathlib.Algebra.Ring.Nat
import PairEdit.Proofs.Legible

/-!
# What reading takes

A reader may be generous about how a thing is spelled, but it takes at least as many bytes
as writing the thing takes.  So bytes that are read as an item are no fewer than the bytes
of the item, and an item that holds many others needs many bytes, whoever wrote it.
-/

namespace PairEdit.Cbor

variable {α : Type}

/-- The reader takes at least the bytes that the thing it finds is written in. -/
def Covers (one : Reader α) (enc : α → Bytes) : Prop :=
  ∀ ⦃bytes a rest⦄, one bytes = some (a, rest) → (enc a).length + rest.length ≤ bytes.length

/-! ## Heads and strings -/

/-- How many bytes the argument of a head takes after the first one. -/
def Argument.size : Argument → Nat
  | .number w _ => w.size
  | .indefinite => 0

theorem length_of_cut? {n : Nat} {bytes content rest : Bytes}
    (h : Sequence.cut? n bytes = some (content, rest)) :
    content.length = n ∧ content.length + rest.length = bytes.length := by
  rw [Sequence.cut?_eq] at h
  split at h
  · cases h
    simp
    omega
  · cases h

theorem length_of_readArgument {code : Nat} {bytes rest : Bytes} {argument : Argument}
    (h : readArgument code bytes = some (argument, rest)) :
    argument.size + rest.length = bytes.length := by
  have hwide : ∀ {w : Width}, (Sequence.cut? w.size bytes).map
      (fun taken => (Argument.number w (ofBigEndian taken.1), taken.2)) =
        some (argument, rest) → argument.size + rest.length = bytes.length := by
    intro w h
    obtain ⟨⟨digits, rest'⟩, hcut, heq⟩ := Option.map_eq_some_iff.1 h
    cases heq
    obtain ⟨hdigits, hlen⟩ := length_of_cut? hcut
    rw [← hlen, hdigits]
    rfl
  unfold readArgument at h
  split at h
  · cases h
    exact Nat.zero_add _
  · split at h
    iterate 4 exact hwide h
    · cases h
      exact Nat.zero_add _
    · cases h

theorem length_of_readHead {bytes rest : Bytes} {major : Major} {argument : Argument}
    (h : readHead bytes = some (major, argument, rest)) :
    1 + argument.size + rest.length = bytes.length := by
  cases bytes with
  | nil => cases h
  | cons first bytes =>
      obtain ⟨⟨argument', rest'⟩, hargument, h⟩ := Option.bind_eq_some_iff.1 h
      cases h
      have hlen := length_of_readArgument hargument
      rw [List.length_cons]
      omega

theorem length_head (major : Major) (w : Width) (n : Nat) :
    (head major w n).length = 1 + w.size := by
  rw [head, List.length_cons, length_bigEndian, Nat.add_comm]

/-! ## Several things in a row -/

theorem Covers.readMany {one : Reader α} {enc : α → Bytes} (h : Covers one enc) {count : Nat}
    {read as : List α} {bytes rest : Bytes}
    (hread : readMany one read count bytes = some (as, rest)) :
    (as.flatMap enc).length + rest.length ≤ (read.flatMap enc).length + bytes.length := by
  induction count generalizing read bytes with
  | zero =>
      cases hread
      exact Nat.le_of_eq (by simp [List.length_flatMap])
  | succ count ih =>
      obtain ⟨⟨a, rest'⟩, hone, hmany⟩ := Option.bind_eq_some_iff.1 hread
      have hlen := h hone
      have hothers := ih hmany
      rw [List.flatMap_cons, List.length_append] at hothers
      omega

theorem Covers.readUntilBreak {one : Reader α} {enc : α → Bytes} (h : Covers one enc)
    {fuel : Nat} {read as : List α} {bytes rest : Bytes}
    (hread : readUntilBreak one read fuel bytes = some (as, rest)) :
    (as.flatMap enc).length + 1 + rest.length ≤ (read.flatMap enc).length + bytes.length := by
  induction fuel generalizing read bytes with
  | zero => cases hread
  | succ fuel ih =>
      simp only [Cbor.readUntilBreak] at hread
      split at hread
      · cases hread
      · next b after =>
          split at hread
          · cases hread
            exact Nat.le_of_eq (by simp [List.length_flatMap]; omega)
          · obtain ⟨⟨a, rest'⟩, hone, hmany⟩ := Option.bind_eq_some_iff.1 hread
            dsimp only at hmany
            have hlen := h hone
            have hothers := ih hmany
            rw [List.flatMap_cons, List.length_append] at hothers
            omega

theorem Covers.readEntry {one : Reader Item} (h : Covers one Item.encode) :
    Covers (readEntry one) Item.encodeEntry := by
  intro bytes entry rest hread
  obtain ⟨⟨key, rest'⟩, hkey, hread⟩ := Option.bind_eq_some_iff.1 hread
  obtain ⟨⟨value, rest''⟩, hvalue, hread⟩ := Option.bind_eq_some_iff.1 hread
  cases hread
  have hlen := h hkey
  have hlen' := h hvalue
  rw [Item.encodeEntry, List.length_append]
  omega

/-! ## Strings in pieces -/

/-- The bytes of a piece. -/
def encodePiece (major : Major) (c : Width × Bytes) : Bytes := Item.encodeChunk major c.1 c.2

theorem length_of_readChunks {major : Major} {opened fuel : Nat}
    {read chunks : List (Width × Bytes)} {bytes rest : Bytes}
    (h : readChunks major read opened fuel bytes = some (chunks, rest)) :
    (chunks.flatMap (encodePiece major)).length + 1 + rest.length ≤
      (read.flatMap (encodePiece major)).length + bytes.length := by
  induction fuel generalizing read opened bytes with
  | zero => cases h
  | succ fuel ih =>
      obtain ⟨⟨m, argument, rest'⟩, hhead, h⟩ := Option.bind_eq_some_iff.1 h
      have hlen := length_of_readHead hhead
      cases argument with
      | indefinite =>
          rw [Argument.size] at hlen
          simp only at h
          split at h
          · split at h
            · cases h
              simp [List.length_flatMap] at hlen ⊢
              omega
            · have hothers := ih h
              omega
          · split at h
            · have hothers := ih h
              omega
            · cases h
      | number w n =>
          rw [Argument.size] at hlen
          simp only at h
          split at h
          · obtain ⟨⟨content, rest''⟩, hcut, h⟩ := Option.bind_eq_some_iff.1 h
            dsimp only at h
            obtain ⟨-, hcontent⟩ := length_of_cut? hcut
            have hothers := ih h
            have hpiece : (encodePiece major (w, content)).length =
                1 + w.size + content.length := by
              rw [encodePiece, Item.encodeChunk, List.length_append, length_head]
            rw [List.flatMap_cons, List.length_append, hpiece] at hothers
            omega
          · cases h

theorem flatMap_of_decodeChunks {major : Major} {chunks : List (Width × Bytes)}
    {texts : List (Width × Text)} (h : decodeChunks chunks = some texts) :
    texts.flatMap (fun c => Item.encodeChunk major c.1 (Utf8.encode c.2)) =
      chunks.flatMap (encodePiece major) := by
  induction chunks generalizing texts with
  | nil =>
      cases h
      rfl
  | cons chunk others ih =>
      obtain ⟨w, content⟩ := chunk
      obtain ⟨t, ht, h⟩ := Option.bind_eq_some_iff.1 h
      obtain ⟨ts, hts, h⟩ := Option.bind_eq_some_iff.1 h
      cases h
      rw [List.flatMap_cons, List.flatMap_cons, ih hts, Utf8.decode?_eq_some_iff.1 ht]
      rfl

/-! ## Items -/

theorem length_open (major : Major) (body : Bytes) :
    (openHead major ++ (body ++ [breakByte])).length = 1 + (body.length + 1) := by
  rw [List.length_append, List.length_append, List.length_singleton]
  rfl

/-- A string that is cut off is written with a head before it. -/
theorem length_of_readString {major : Major} {w : Width} {n : Nat} {bytes content rest : Bytes}
    (hcut : Sequence.cut? n bytes = some (content, rest)) :
    (Item.encodeChunk major w content).length + rest.length ≤ 1 + w.size + bytes.length := by
  obtain ⟨-, hlen⟩ := length_of_cut? hcut
  rw [Item.encodeChunk, List.length_append, length_head]
  omega

/-- Pieces that are read up to the break are written with an open head before them. -/
theorem length_of_openChunks {major : Major} {fuel : Nat} {chunks : List (Width × Bytes)}
    {bytes rest : Bytes} (hchunks : readChunks major [] 1 fuel bytes = some (chunks, rest)) :
    (openHead major ++ (chunks.flatMap (encodePiece major) ++ [breakByte])).length +
      rest.length ≤ 1 + bytes.length := by
  have hlen := length_of_readChunks hchunks
  rw [List.flatMap_nil, List.length_nil] at hlen
  rw [length_open]
  omega

/-- Things that are counted are written with a head before them. -/
theorem Covers.readCounted {one : Reader α} {enc : α → Bytes} (h : Covers one enc) {major : Major}
    {w : Width} {n m : Nat} {as : List α} {bytes rest : Bytes}
    (hread : Cbor.readMany one [] n bytes = some (as, rest)) :
    (head major w m ++ as.flatMap enc).length + rest.length ≤ 1 + w.size + bytes.length := by
  have hlen := h.readMany hread
  rw [List.flatMap_nil, List.length_nil] at hlen
  rw [List.length_append, length_head]
  omega

/-- Things that are read up to the break are written with an open head before them. -/
theorem Covers.readOpen {one : Reader α} {enc : α → Bytes} (h : Covers one enc) {major : Major}
    {fuel : Nat} {as : List α} {bytes rest : Bytes}
    (hread : Cbor.readUntilBreak one [] fuel bytes = some (as, rest)) :
    (openHead major ++ (as.flatMap enc ++ [breakByte])).length + rest.length ≤
      1 + bytes.length := by
  have hlen := h.readUntilBreak hread
  rw [List.flatMap_nil, List.length_nil] at hlen
  rw [length_open]
  omega

/-- What is left to be read of an item covers it together with its head. -/
theorem length_of_readBody {fuel : Nat} {nested : Option (Reader Item)}
    (hnested : ∀ one, nested = some one → Covers one Item.encode) {major : Major}
    {argument : Argument} {bytes rest : Bytes} {i : Item}
    (h : readBody fuel nested major argument bytes = some (i, rest)) :
    i.encode.length + rest.length ≤ 1 + argument.size + bytes.length := by
  have hnumber : ∀ {m : Major} {w : Width} {n : Nat}, (head m w n).length + bytes.length ≤
      1 + (Argument.number w n).size + bytes.length := by
    intro m w n
    rw [length_head]
    exact Nat.le_refl _
  unfold readBody at h
  split at h
  case h_1 | h_2 =>
    cases h
    exact hnumber
  case h_3 w n =>
    obtain ⟨⟨content, rest'⟩, hcut, h⟩ := Option.bind_eq_some_iff.1 h
    cases h
    exact length_of_readString hcut
  case h_4 =>
    obtain ⟨⟨chunks, rest'⟩, hchunks, h⟩ := Option.bind_eq_some_iff.1 h
    cases h
    exact length_of_openChunks hchunks
  case h_5 w n =>
    obtain ⟨⟨content, rest'⟩, hcut, h⟩ := Option.bind_eq_some_iff.1 h
    obtain ⟨t, ht, h⟩ := Option.bind_eq_some_iff.1 h
    cases h
    rw [Item.encode, Utf8.decode?_eq_some_iff.1 ht]
    exact length_of_readString hcut
  case h_6 =>
    obtain ⟨⟨chunks, rest'⟩, hchunks, h⟩ := Option.bind_eq_some_iff.1 h
    obtain ⟨texts, htexts, h⟩ := Option.bind_eq_some_iff.1 h
    cases h
    rw [Item.encode, flatMap_of_decodeChunks htexts]
    exact length_of_openChunks hchunks
  case h_7 w n =>
    obtain ⟨one, hone, h⟩ := Option.bind_eq_some_iff.1 h
    obtain ⟨⟨items, rest'⟩, hitems, h⟩ := Option.bind_eq_some_iff.1 h
    cases h
    rw [Item.encode, Item.encodeAll_eq_flatMap]
    exact (hnested one hone).readCounted hitems
  case h_8 =>
    obtain ⟨one, hone, h⟩ := Option.bind_eq_some_iff.1 h
    obtain ⟨⟨items, rest'⟩, hitems, h⟩ := Option.bind_eq_some_iff.1 h
    cases h
    rw [Item.encode, Item.encodeAll_eq_flatMap]
    exact (hnested one hone).readOpen hitems
  case h_9 w n =>
    obtain ⟨one, hone, h⟩ := Option.bind_eq_some_iff.1 h
    obtain ⟨⟨entries, rest'⟩, hentries, h⟩ := Option.bind_eq_some_iff.1 h
    cases h
    rw [Item.encode, Item.encodeEntries_eq_flatMap]
    exact (hnested one hone).readEntry.readCounted hentries
  case h_10 =>
    obtain ⟨one, hone, h⟩ := Option.bind_eq_some_iff.1 h
    obtain ⟨⟨entries, rest'⟩, hentries, h⟩ := Option.bind_eq_some_iff.1 h
    cases h
    rw [Item.encode, Item.encodeEntries_eq_flatMap]
    exact (hnested one hone).readEntry.readOpen hentries
  case h_11 w n =>
    split at h
    case h_1 | h_2 =>
      split at h
      · cases h
        exact hnumber
      · cases h
    case h_3 =>
      cases h
      exact hnumber
  case h_12 => cases h

theorem length_encode_retag (tags : List (Width × Nat)) (i : Item) :
    (Item.retag tags i).encode.length =
      (tags.map fun tag => 1 + tag.1.size).sum + i.encode.length := by
  induction tags generalizing i with
  | nil => exact (Nat.zero_add _).symm
  | cons tag rest ih =>
      rw [Item.retag, List.foldl_cons, ← Item.retag, ih, Item.encode, List.length_append,
        length_head, List.map_cons, List.sum_cons]
      omega

theorem length_of_readTags {fuel : Nat} {read tags : List (Width × Nat)} {bytes rest : Bytes}
    {major : Major} {argument : Argument}
    (h : readTags read fuel bytes = some (tags, major, argument, rest)) :
    (tags.map fun tag => 1 + tag.1.size).sum + (1 + argument.size) + rest.length ≤
      (read.map fun tag => 1 + tag.1.size).sum + bytes.length := by
  induction fuel generalizing read bytes with
  | zero => cases h
  | succ fuel ih =>
      obtain ⟨⟨m, arg, rest'⟩, hhead, h⟩ := Option.bind_eq_some_iff.1 h
      have hlen := length_of_readHead hhead
      simp only at h
      split at h
      · have hothers := ih h
        rw [List.map_cons, List.sum_cons] at hothers
        rw [Argument.size] at hlen
        dsimp only at hothers
        omega
      · cases h
        omega

theorem Covers.readItem {fuel : Nat} {nested : Option (Reader Item)}
    (hnested : ∀ one, nested = some one → Covers one Item.encode) :
    Covers (readItem fuel nested) Item.encode := by
  intro bytes i rest h
  obtain ⟨⟨major, argument, rest'⟩, hhead, h⟩ := Option.bind_eq_some_iff.1 h
  have hlen := length_of_readHead hhead
  simp only at h
  split at h
  · obtain ⟨⟨tags, major', argument', rest''⟩, htags, h⟩ := Option.bind_eq_some_iff.1 h
    obtain ⟨⟨item, after⟩, hbody, h⟩ := Option.bind_eq_some_iff.1 h
    cases h
    have htaken := length_of_readTags htags
    have hitem := length_of_readBody hnested hbody
    rw [List.map_singleton, List.sum_singleton] at htaken
    rw [Argument.size] at hlen
    have hretag := length_encode_retag tags item
    rw [Item.retag] at hretag
    dsimp only at htaken hitem ⊢
    omega
  · have hitem := length_of_readBody hnested h
    omega

theorem covers_readWithin (fuel depth : Nat) : Covers (readWithin fuel depth) Item.encode := by
  induction depth with
  | zero => exact Covers.readItem nofun
  | succ depth ih =>
      refine Covers.readItem fun one hone => ?_
      cases hone
      exact ih

/-- An item is read from at least as many bytes as it is written in. -/
theorem length_encode_le_of_read {depth : Nat} {bytes rest : Bytes} {i : Item}
    (h : read depth bytes = some (i, rest)) : i.encode.length ≤ bytes.length := by
  have hcovers := covers_readWithin bytes.length depth h
  omega

/-! ## Items that hold others -/

namespace Item

/-- An array is written in more bytes than it has items. -/
theorem length_lt_of_items? {i : Item} {items : List Item} (h : i.items? = some items) :
    items.length < i.encode.length := by
  have hcount := length_le_length_flatMap_of_pos length_encode_pos items
  unfold items? at h
  split at h
  · cases h
    rw [encode, encodeAll_eq_flatMap, List.length_append, length_head]
    omega
  · cases h
    rw [encode, encodeAll_eq_flatMap, List.length_append, List.length_append,
      List.length_singleton]
    omega
  · cases h

theorem length_encode_le_of_mem_items {i item : Item} {items : List Item}
    (h : i.items? = some items) (hitem : item ∈ items) :
    item.encode.length ≤ i.encode.length := by
  have hle := length_le_length_flatMap encode hitem
  unfold items? at h
  split at h
  · cases h
    rw [encode, encodeAll_eq_flatMap, List.length_append]
    omega
  · cases h
    rw [encode, encodeAll_eq_flatMap, List.length_append, List.length_append]
    omega
  · cases h

theorem length_encode_le_of_mem_entries {i : Item} {entry : Item × Item}
    {entries : List (Item × Item)} (h : i.entries? = some entries) (hentry : entry ∈ entries) :
    entry.2.encode.length ≤ i.encode.length := by
  have hle := length_le_length_flatMap encodeEntry hentry
  have hvalue : entry.2.encode.length ≤ (encodeEntry entry).length := by
    rw [encodeEntry, List.length_append]
    exact Nat.le_add_left _ _
  unfold entries? at h
  split at h
  · cases h
    rw [encode, encodeEntries_eq_flatMap, List.length_append]
    omega
  · cases h
    rw [encode, encodeEntries_eq_flatMap, List.length_append, List.length_append]
    omega
  · cases h

end Item

end PairEdit.Cbor
