import PairEdit.Text.Quoted
import PairEdit.Utf8

/-!
# Hexadecimal notation

Byte strings in a notation with two lower-case digits a byte.  Reading accepts
both cases and says what is wrong with anything else: first whether the number
of digits is odd, then which byte of the notation is no digit.
-/

namespace PairEdit.Hex

/-- Why a notation denotes no bytes. -/
inductive Error where
  | oddLength
  /-- The byte at `index` of the notation is no hexadecimal digit. -/
  | invalidCharacter (byte : UInt8) (index : Nat)
  /-- The number of bytes is not the one asked for. -/
  | invalidLength
deriving DecidableEq, Repr

/-- What is reported to the user; a byte is shown as the character with its
number, in single quotes. -/
def Error.message : Error → String
  | .oddLength => "Odd number of digits"
  | .invalidCharacter byte index =>
      let shown := String.ofList (Text.quoteChar '\'' (Char.ofNat byte.toNat))
      s!"Invalid character '{shown}' at position {index}"
  | .invalidLength => "Invalid string length"

/-- Two digits a byte. -/
def encode (bytes : Bytes) : List Char :=
  bytes.flatMap fun b => [Text.hexDigit (b.toNat / 16), Text.hexDigit (b.toNat % 16)]

/-- The value of a digit given by its ASCII code. -/
def digitValue? (byte : UInt8) : Option Nat :=
  let n := byte.toNat
  if 48 ≤ n ∧ n ≤ 57 then some (n - 48)
  else if 65 ≤ n ∧ n ≤ 70 then some (n - 55)
  else if 97 ≤ n ∧ n ≤ 102 then some (n - 87)
  else none

/-- The value of the digit at `index`. -/
def digit (byte : UInt8) (index : Nat) : Except Error Nat :=
  match digitValue? byte with
  | some n => .ok n
  | none => .error (.invalidCharacter byte index)

/-- The walk behind `decode`, with the bytes read so far, last one first. -/
def decodeFrom (index : Nat) (read : Bytes) : Bytes → Except Error Bytes
  | high :: low :: rest => do
      let h ← digit high index
      let l ← digit low (index + 1)
      decodeFrom (index + 2) (UInt8.ofNat (16 * h + l) :: read) rest
  | _ => .ok read.reverse

/-- The bytes that a notation, itself given as bytes, denotes. -/
def decode (digits : Bytes) : Except Error Bytes :=
  if digits.length % 2 = 1 then .error .oddLength else decodeFrom 0 [] digits

/-! ## Writing and reading -/

/-- The ASCII code of the digit of a number below sixteen. -/
def code (n : Nat) : UInt8 := UInt8.ofNat (Text.hexDigit n).toNat

theorem digitValue?_code {n : Nat} (h : n < 16) : digitValue? (code n) = some n := by
  have all : ∀ i : Fin 16, digitValue? (code i) = some i.val := by decide
  exact all ⟨n, h⟩

theorem utf8EncodeChar_hexDigit {n : Nat} (h : n < 16) :
    String.utf8EncodeChar (Text.hexDigit n) = [code n] := by
  have all : ∀ i : Fin 16, String.utf8EncodeChar (Text.hexDigit i) = [code i] := by decide
  exact all ⟨n, h⟩

theorem utf8_encode_cons (b : UInt8) (bytes : Bytes) :
    Utf8.encode (encode (b :: bytes)) =
      code (b.toNat / 16) :: code (b.toNat % 16) :: Utf8.encode (encode bytes) := by
  have hb := b.toNat_lt
  have hhigh := utf8EncodeChar_hexDigit (show b.toNat / 16 < 16 by omega)
  have hlow := utf8EncodeChar_hexDigit (show b.toNat % 16 < 16 by omega)
  simp [Utf8.encode, encode, hhigh, hlow]

theorem length_utf8_encode (bytes : Bytes) :
    (Utf8.encode (encode bytes)).length = 2 * bytes.length := by
  induction bytes with
  | nil => rfl
  | cons b bytes ih =>
      rw [utf8_encode_cons, List.length_cons, List.length_cons, ih, List.length_cons]
      omega

theorem decodeFrom_encode (index : Nat) (read bytes : Bytes) :
    decodeFrom index read (Utf8.encode (encode bytes)) = .ok (read.reverse ++ bytes) := by
  induction bytes generalizing index read with
  | nil => simp [encode, Utf8.encode, decodeFrom]
  | cons b bytes ih =>
      have hb := b.toNat_lt
      have hhigh := digitValue?_code (show b.toNat / 16 < 16 by omega)
      have hlow := digitValue?_code (show b.toNat % 16 < 16 by omega)
      have hbyte : UInt8.ofNat (16 * (b.toNat / 16) + b.toNat % 16) = b := by
        rw [Nat.div_add_mod, UInt8.ofNat_toNat]
      rw [utf8_encode_cons, decodeFrom, digit, digit, hhigh, hlow]
      simp [bind, Except.bind, hbyte, ih]

/-- What is written is read back. -/
theorem decode_encode (bytes : Bytes) : decode (Utf8.encode (encode bytes)) = .ok bytes := by
  rw [decode, length_utf8_encode, decodeFrom_encode]
  simp

end PairEdit.Hex
