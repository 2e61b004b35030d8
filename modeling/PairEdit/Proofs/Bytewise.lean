import PairEdit.Proofs.Merge
import PairEdit.Utf8

/-!
# Edits on bytes

Positions count characters, but a text is held as bytes.  To carry an edit out, the two ends of
its range are looked up as offsets into the bytes, each by a walk over the text of its own, and
the bytes between them are exchanged.  That goes wrong when an offset lies inside a character or
when the first one lies behind the second, and then there is no result.

It never goes wrong.  An edit is carried out exactly when its range, in characters, lies in the
text, which can be told from the number of characters alone; and the bytes are then those of the
text that the edit makes.
-/

namespace PairEdit

namespace Utf8

/-- The characters of a text, each with the offset at which it begins, when the first one
begins at `start`. -/
def charOffsets (start : Nat) : Text → List (Nat × Char)
  | [] => []
  | c :: rest => (start, c) :: charOffsets (start + c.utf8Size) rest

/-- The offset at which the character with a number begins.  The number after the last one
stands for the end of the text. -/
def offset? (text : Text) (n : Nat) : Option Nat :=
  if n = 0 then some 0
  else match (charOffsets 0 text)[n]? with
    | some (offset, _) => some offset
    | none => if text.length = n then some (encode text).length else none

/-- A byte that goes on with a character: its two highest bits are 1 and 0. -/
def IsContinuation (b : UInt8) : Prop := 128 ≤ b.toNat ∧ b.toNat < 192

/-- Bytes may be cut at an offset: it is one of the ends, or a character begins there. -/
def IsBoundary (bytes : Bytes) (offset : Nat) : Prop :=
  offset = 0 ∨ offset ≤ bytes.length ∧ ∀ b ∈ bytes[offset]?, ¬ IsContinuation b

instance (b : UInt8) : Decidable (IsContinuation b) :=
  inferInstanceAs (Decidable (128 ≤ b.toNat ∧ b.toNat < 192))

instance (bytes : Bytes) (offset : Nat) : Decidable (IsBoundary bytes offset) :=
  inferInstanceAs (Decidable (offset = 0 ∨ offset ≤ bytes.length ∧
    ∀ b ∈ bytes[offset]?, ¬ IsContinuation b))

/-- Exchange the bytes from one offset to another one, where both may be cut. -/
def replaceRange? (bytes : Bytes) (start stop : Nat) (ins : Bytes) : Option Bytes :=
  if start ≤ stop ∧ IsBoundary bytes start ∧ IsBoundary bytes stop then
    some (bytes.take start ++ (ins ++ bytes.drop stop))
  else none

end Utf8

/-- Carry the edit out on the bytes in which a text is held.  A refused edit leaves them as they
were; without offsets at which they may be cut there is no result. -/
def Edit.overwriteBytes? (e : Edit) (text : Text) : Option (Except EditError Unit × Bytes) :=
  match e.checkStructure with
  | .error refusal => some (.error refusal, Utf8.encode text)
  | .ok () =>
      match Utf8.offset? text e.pos, Utf8.offset? text e.stop with
      | some start, some stop => do
          let bytes ← Utf8.replaceRange? (Utf8.encode text) start stop (Utf8.encode e.ins)
          return (.ok (), bytes)
      | _, _ => some (.error (.outOfBounds e.pos e.stop text.length), Utf8.encode text)

namespace Utf8

/-! ## Offsets -/

theorem encode_append (front back : Text) : encode (front ++ back) = encode front ++ encode back :=
  List.flatMap_append

theorem encode_cons (c : Char) (rest : Text) :
    encode (c :: rest) = String.utf8EncodeChar c ++ encode rest :=
  List.flatMap_cons

theorem encode_take_append_drop (text : Text) (n : Nat) :
    encode (text.take n) ++ encode (text.drop n) = encode text := by
  rw [← encode_append, List.take_append_drop]

theorem charOffsets_getElem? (start : Nat) (text : Text) (n : Nat) :
    (charOffsets start text)[n]? =
      text[n]?.map fun c => (start + (encode (text.take n)).length, c) := by
  induction text generalizing start n with
  | nil => rfl
  | cons c rest ih =>
      cases n with
      | zero => rfl
      | succ n =>
          rw [charOffsets, List.getElem?_cons_succ, List.getElem?_cons_succ, ih,
            List.take_succ_cons, encode_cons, List.length_append, String.length_utf8EncodeChar,
            Nat.add_assoc]

/-- The walk finds the number of bytes that the characters in front take, when there are that
many. -/
theorem offset?_eq (text : Text) (n : Nat) :
    offset? text n =
      if n ≤ text.length then some (encode (text.take n)).length else none := by
  unfold offset?
  rw [charOffsets_getElem?]
  obtain hlt | rfl | hgt := Nat.lt_trichotomy n text.length
  · rw [if_pos (Nat.le_of_lt hlt), List.getElem?_eq_getElem hlt, Option.map_some]
    split
    · next hzero => rw [hzero]; rfl
    · simp only [Nat.zero_add]
  · rw [List.getElem?_eq_none (Nat.le_refl _), Option.map_none, List.take_length]
    split
    · next hzero => rw [List.length_eq_zero_iff.1 hzero]; rfl
    · simp only [if_true, Nat.le_refl]
  · rw [if_neg (Nat.not_le.2 hgt), List.getElem?_eq_none (Nat.le_of_lt hgt), Option.map_none,
      if_neg (Nat.ne_of_gt (Nat.zero_lt_of_lt hgt))]
    exact if_neg (Nat.ne_of_lt hgt)

theorem length_encode_take_le (text : Text) {m n : Nat} (h : m ≤ n) :
    (encode (text.take m)).length ≤ (encode (text.take n)).length := by
  have hsplit := encode_take_append_drop (text.take n) m
  rw [List.take_take, Nat.min_eq_left h] at hsplit
  rw [← hsplit, List.length_append]
  exact Nat.le_add_right ..

/-! ## Boundaries -/

/-- The first byte of a character does not go on with another one. -/
theorem exists_first_not_isContinuation (c : Char) :
    ∃ first others, String.utf8EncodeChar c = first :: others ∧ ¬ IsContinuation first := by
  have hv := toNat_lt c
  simp only [String.utf8EncodeChar, Char.toNat_val, IsContinuation]
  split
  · exact ⟨_, _, rfl, by rw [UInt8.toNat_ofNat']; omega⟩
  · split
    · exact ⟨_, _, rfl, by rw [UInt8.toNat_ofNat']; omega⟩
    · split
      · exact ⟨_, _, rfl, by rw [UInt8.toNat_ofNat']; omega⟩
      · exact ⟨_, _, rfl, by rw [UInt8.toNat_ofNat']; omega⟩

/-- The bytes may be cut where the characters may. -/
theorem isBoundary_encode_take (text : Text) (n : Nat) :
    IsBoundary (encode text) (encode (text.take n)).length := by
  have hsplit := encode_take_append_drop text n
  refine .inr ⟨hsplit ▸ List.length_append ▸ Nat.le_add_right .., fun b hb => ?_⟩
  rw [← hsplit, List.getElem?_append_right (Nat.le_refl _), Nat.sub_self] at hb
  cases hrest : text.drop n with
  | nil =>
      rw [hrest] at hb
      cases hb
  | cons c rest =>
      obtain ⟨first, others, hfirst, hcont⟩ := exists_first_not_isContinuation c
      rw [hrest, encode_cons, hfirst] at hb
      exact Option.some.inj hb ▸ hcont

/-- To exchange bytes between two such places is to exchange the characters there. -/
theorem replaceRange?_encode (text ins : Text) {m n : Nat} (h : m ≤ n) :
    replaceRange? (encode text) (encode (text.take m)).length (encode (text.take n)).length
        (encode ins) = some (encode (text.take m ++ (ins ++ text.drop n))) := by
  rw [replaceRange?, if_pos ⟨length_encode_take_le text h, isBoundary_encode_take text m,
    isBoundary_encode_take text n⟩, encode_append, encode_append]
  have htake := congrArg (List.take (encode (text.take m)).length)
    (encode_take_append_drop text m)
  have hdrop := congrArg (List.drop (encode (text.take n)).length)
    (encode_take_append_drop text n)
  rw [List.take_left] at htake
  rw [List.drop_left] at hdrop
  rw [← htake, ← hdrop]

end Utf8

namespace Edit

open Utf8

/-! ## Carrying out and checking -/

/-- The check needs no text, only its length. -/
theorem checkBounds_eq (e : Edit) (len : Nat) :
    e.checkBounds len =
      if e.pos + e.del ≤ Word.max then
        if e.pos + e.del ≤ len then .ok () else .error (.outOfBounds e.pos (e.pos + e.del) len)
      else .error (.overflow e.pos e.del) := by
  by_cases h : e.pos + e.del ≤ Word.max
  · simp [checkBounds, checkStructure, h, stop_of_le h, bind, Except.bind]
  · simp [checkBounds, checkStructure, h, bind, Except.bind]

/-- What is carried out in place, in one form. -/
theorem overwrite_eq (e : Edit) (text : Text) :
    e.overwrite text =
      match e.checkBounds text.length with
      | .ok () => (.ok (), text.take e.pos ++ (e.ins ++ text.drop (e.pos + e.del)))
      | .error refusal => (.error refusal, text) := by
  rw [overwrite, apply_eq, checkBounds_eq]
  by_cases hword : e.pos + e.del ≤ Word.max
  · by_cases hfits : e.pos + e.del ≤ text.length
    · simp only [hword, hfits, if_true]
    · simp only [hword, hfits, if_true, if_false]
  · simp only [hword, if_false]

/-- On the bytes the same comes about as on the characters, and there is always a result. -/
theorem overwriteBytes?_eq (e : Edit) (text : Text) :
    e.overwriteBytes? text = some ((e.overwrite text).1, encode (e.overwrite text).2) := by
  rw [overwrite_eq, checkBounds_eq, overwriteBytes?, checkStructure]
  by_cases hword : e.pos + e.del ≤ Word.max
  · by_cases hfits : e.pos + e.del ≤ text.length
    · have hpos : e.pos ≤ text.length := Nat.le_trans (Nat.le_add_right ..) hfits
      simp only [hword, hfits, hpos, if_true, stop_of_le hword, offset?_eq]
      rw [replaceRange?_encode text e.ins (Nat.le_add_right ..)]
      rfl
    · -- The end of the range is looked for in vain, whatever becomes of its beginning.
      simp only [hword, hfits, if_true, if_false, stop_of_le hword, offset?_eq]
      split
      · next hstart hstop => cases hstop
      · rfl
  · simp only [hword, if_false]

/-- An edit is carried out exactly when the check by the number of characters lets it through,
and else it is refused for the same reason and the text stays.  What comes about is the text
around the range, with the insertion in between; on the bytes it comes about by cutting at two
offsets at which characters begin or the text ends, the second one not in front of the first. -/
theorem overwrite_agrees_with_check (e : Edit) (text : Text) :
    (e.overwrite text).1 = e.checkBounds text.length ∧
      e.overwriteBytes? text = some ((e.overwrite text).1, encode (e.overwrite text).2) ∧
      match e.checkBounds text.length with
      | .error _ => (e.overwrite text).2 = text
      | .ok () =>
          e.pos + e.del ≤ text.length ∧
          (e.overwrite text).2 = text.take e.pos ++ (e.ins ++ text.drop (e.pos + e.del)) ∧
          (e.overwrite text).2.length = text.length - e.del + e.ins.length ∧
          ∃ start stop, offset? text e.pos = some start ∧ offset? text e.stop = some stop ∧
            start ≤ stop ∧ IsBoundary (encode text) start ∧ IsBoundary (encode text) stop := by
  refine ⟨?_, overwriteBytes?_eq e text, ?_⟩
  · rw [overwrite_eq]
    split
    · next h => exact h.symm
    · next h => exact h.symm
  · rw [overwrite_eq]
    cases hcheck : e.checkBounds text.length with
    | error refusal => rfl
    | ok =>
        obtain ⟨hword, hfits⟩ := checkBounds_eq_ok_iff.1 hcheck
        have hpos : e.pos ≤ text.length := Nat.le_trans (Nat.le_add_right ..) hfits
        refine ⟨hfits, rfl, ?_, (encode (text.take e.pos)).length,
          (encode (text.take (e.pos + e.del))).length, ?_, ?_, ?_, ?_, ?_⟩
        · simp only [List.length_append, List.length_take, List.length_drop]
          omega
        · rw [offset?_eq, if_pos hpos]
        · rw [stop_of_le hword, offset?_eq, if_pos hfits]
        · exact length_encode_take_le text (Nat.le_add_right ..)
        · exact isBoundary_encode_take text _
        · exact isBoundary_encode_take text _

/-- Characters of one to four bytes. -/
example : ((⟨1, 2, ['é']⟩ : Edit).overwriteBytes? "a☃😀b".toList).map Prod.snd =
    some (encode "aéb".toList) := by
  decide +kernel

end Edit

end PairEdit
