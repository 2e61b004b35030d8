import PairEdit.Bytes
import PairEdit.Text

/-!
# UTF-8

Texts as bytes.  A byte string denotes a text exactly when it is what the text
is written as (`decode?_eq_some_iff`), so overlong forms, surrogates and stray
bytes are refused by the same test that finds the characters.
-/

namespace PairEdit.Utf8

/-- The bytes of a text. -/
def encode (text : Text) : Bytes := text.flatMap String.utf8EncodeChar

/-- The number that one to four bytes would stand for. -/
def codePoint : Bytes → Nat
  | [a] => a.toNat
  | [a, b] => a.toNat % 32 * 64 + b.toNat % 64
  | [a, b, c] => (a.toNat % 16 * 64 + b.toNat % 64) * 64 + c.toNat % 64
  | [a, b, c, d] =>
      ((a.toNat % 8 * 64 + b.toNat % 64) * 64 + c.toNat % 64) * 64 + d.toNat % 64
  | _ => 0

/-- The character whose bytes these are. -/
def char? (bytes : Bytes) : Option Char :=
  let c := Char.ofNat (codePoint bytes)
  if String.utf8EncodeChar c = bytes then some c else none

/-- The walk behind `decode?`: the characters read so far, last one first, and
the bytes after them that are no character yet. -/
def decodeFrom (read : Text) (pending : Bytes) : Bytes → Option Text
  | [] => if pending.isEmpty then some read.reverse else none
  | b :: rest =>
      match char? (pending ++ [b]) with
      | some c => decodeFrom (c :: read) [] rest
      | none =>
          if pending.length < 3 then decodeFrom read (pending ++ [b]) rest else none

/-- The text that the bytes denote. -/
def decode? (bytes : Bytes) : Option Text := decodeFrom [] [] bytes

/-! ## Writing and reading -/

/-- How many bytes the first byte of a character announces after it. -/
def announced (first : UInt8) : Nat :=
  if first.toNat < 192 then 0 else if first.toNat < 224 then 1
  else if first.toNat < 240 then 2 else 3

theorem toNat_lt (c : Char) : c.toNat < 0x110000 := by
  have h := c.valid
  simp only [UInt32.isValidChar, Nat.isValidChar, Char.toNat_val] at h
  omega

theorem codePoint_utf8EncodeChar (c : Char) : codePoint (String.utf8EncodeChar c) = c.toNat := by
  have hv := toNat_lt c
  simp only [String.utf8EncodeChar, Char.toNat_val]
  split
  · simp only [codePoint, UInt8.toNat_ofNat']; omega
  · split
    · simp only [codePoint, UInt8.toNat_ofNat']; omega
    · split
      · simp only [codePoint, UInt8.toNat_ofNat']; omega
      · simp only [codePoint, UInt8.toNat_ofNat']; omega

/-- The first byte of a character says how long it is. -/
theorem exists_utf8EncodeChar_eq (c : Char) :
    ∃ first others, String.utf8EncodeChar c = first :: others ∧
      others.length = announced first := by
  have hv := toNat_lt c
  simp only [String.utf8EncodeChar, Char.toNat_val]
  split
  · refine ⟨_, _, rfl, ?_⟩
    simp only [announced, UInt8.toNat_ofNat', List.length_nil]
    grind
  · split
    · refine ⟨_, _, rfl, ?_⟩
      simp only [announced, UInt8.toNat_ofNat', List.length_cons, List.length_nil]
      grind
    · split
      · refine ⟨_, _, rfl, ?_⟩
        simp only [announced, UInt8.toNat_ofNat', List.length_cons, List.length_nil]
        grind
      · refine ⟨_, _, rfl, ?_⟩
        simp only [announced, UInt8.toNat_ofNat', List.length_cons, List.length_nil]
        grind

theorem char?_utf8EncodeChar (c : Char) : char? (String.utf8EncodeChar c) = some c := by
  simp [char?, codePoint_utf8EncodeChar]

theorem utf8EncodeChar_of_char? {bytes : Bytes} {c : Char} (h : char? bytes = some c) :
    String.utf8EncodeChar c = bytes := by
  simp only [char?] at h
  split at h
  · next hb => simp_all
  · simp at h

/-- No character is written as the beginning of another one. -/
theorem char?_eq_none_of_append {c : Char} {seen more : Bytes}
    (h : String.utf8EncodeChar c = seen ++ more) (hm : more ≠ []) : char? seen = none := by
  cases hd : char? seen with
  | none => rfl
  | some d =>
      rw [← utf8EncodeChar_of_char? hd] at h
      obtain ⟨b, bs, hb, hlen⟩ := exists_utf8EncodeChar_eq c
      obtain ⟨b', bs', hb', hlen'⟩ := exists_utf8EncodeChar_eq d
      rw [hb, hb', List.cons_append, List.cons.injEq] at h
      obtain ⟨rfl, rfl⟩ := h
      have : more.length = 0 := by simp at hlen; omega
      exact absurd (List.length_eq_zero_iff.1 this) hm

/-- Walking over the rest of a character completes it. -/
theorem decodeFrom_append_of_utf8EncodeChar {c : Char} (read : Text) (seen more rest : Bytes)
    (h : String.utf8EncodeChar c = seen ++ more) (hm : more ≠ []) :
    decodeFrom read seen (more ++ rest) = decodeFrom (c :: read) [] rest := by
  induction more generalizing seen with
  | nil => exact absurd rfl hm
  | cons b more ih =>
      rw [List.cons_append, decodeFrom]
      cases more with
      | nil => simp [← h, char?_utf8EncodeChar]
      | cons b' more =>
          have h' : String.utf8EncodeChar c = (seen ++ [b]) ++ (b' :: more) := by simp [h]
          have hlen : seen.length < 3 := by
            have := congrArg List.length h
            rw [String.length_utf8EncodeChar] at this
            have := c.utf8Size_le_four
            simp at *
            omega
          rw [char?_eq_none_of_append h' (by simp)]
          simp only [hlen, ↓reduceIte]
          exact ih _ h' (by simp)

theorem decodeFrom_encode (read text : Text) :
    decodeFrom read [] (encode text) = some (read.reverse ++ text) := by
  induction text generalizing read with
  | nil => simp [encode, decodeFrom]
  | cons c text ih =>
      have h : String.utf8EncodeChar c = [] ++ String.utf8EncodeChar c := rfl
      obtain ⟨b, bs, hb, _⟩ := exists_utf8EncodeChar_eq c
      have := decodeFrom_append_of_utf8EncodeChar read [] _ (encode text) h (by simp [hb])
      simp only [encode, List.flatMap_cons] at this ih ⊢
      rw [this, ih]
      simp

theorem encode_of_decodeFrom {read : Text} {seen bytes : Bytes} {text : Text}
    (h : decodeFrom read seen bytes = some text) :
    encode text = encode read.reverse ++ (seen ++ bytes) := by
  induction bytes generalizing read seen with
  | nil =>
      simp only [decodeFrom] at h
      split at h
      · next hs => simp_all
      · simp at h
  | cons b bytes ih =>
      simp only [decodeFrom] at h
      split at h
      · next c hc =>
          rw [ih h]
          simp [encode, utf8EncodeChar_of_char? hc]
      · split at h
        · rw [ih h]; simp
        · simp at h

/-- A byte string denotes a text exactly when the text is written so. -/
theorem decode?_eq_some_iff {bytes : Bytes} {text : Text} :
    decode? bytes = some text ↔ encode text = bytes := by
  constructor
  · intro h
    simpa [encode] using encode_of_decodeFrom h
  · rintro rfl
    simpa [decode?] using decodeFrom_encode [] text

@[simp]
theorem decode?_encode (text : Text) : decode? (encode text) = some text :=
  decode?_eq_some_iff.2 rfl

end PairEdit.Utf8
