import PairEdit.Bytes
import PairEdit.Sequence

/-!
# Heads of data items

A CBOR data item starts with a byte that holds its major type and a number, or
how many bytes the number takes.  Five of the 32 codes have no number: three
are not assigned, one is free for the simple values, and the last one marks an
item of indefinite length, or the end of one.
-/

namespace PairEdit.Cbor

/-- Where the number of a head stands: in the first byte, or in the bytes after
it. -/
inductive Width where
  | inline
  | one
  | two
  | four
  | eight
deriving DecidableEq, Repr

namespace Width

/-- The number of bytes after the first one. -/
def size : Width → Nat
  | inline => 0
  | one => 1
  | two => 2
  | four => 4
  | eight => 8

/-- Numbers below this one can be written in the width. -/
def bound : Width → Nat
  | inline => 24
  | one => 0x100
  | two => 0x1_0000
  | four => 0x1_0000_0000
  | eight => 0x1_0000_0000_0000_0000

/-- The narrowest width for a number. -/
def narrowest (n : Nat) : Width :=
  if n < 24 then inline
  else if n < 0x100 then one
  else if n < 0x1_0000 then two
  else if n < 0x1_0000_0000 then four
  else eight

/-- The low five bits of the first byte of a head with number `n`. -/
def code (w : Width) (n : Nat) : Nat :=
  match w with
  | inline => n
  | one => 24
  | two => 25
  | four => 26
  | eight => 27

end Width

/-- The major types, by their number. -/
inductive Major where
  | unsigned
  | negative
  | bytes
  | text
  | array
  | map
  | tag
  | other
deriving DecidableEq, Repr

namespace Major

/-- The high three bits of the first byte. -/
def number : Major → Nat
  | unsigned => 0
  | negative => 1
  | bytes => 2
  | text => 3
  | array => 4
  | map => 5
  | tag => 6
  | other => 7

/-- The major type with a number below eight. -/
def ofNumber (n : Nat) : Major :=
  match n with
  | 0 => unsigned
  | 1 => negative
  | 2 => bytes
  | 3 => text
  | 4 => array
  | 5 => map
  | 6 => tag
  | _ => other

end Major

/-- `k` bytes for a number, the most significant first. -/
def bigEndian : Nat → Nat → Bytes
  | 0, _ => []
  | k + 1, n => UInt8.ofNat (n >>> (8 * k)) :: bigEndian k n

/-- The number that bytes stand for, the most significant first. -/
def ofBigEndian (bytes : Bytes) : Nat :=
  bytes.foldl (fun n b => 256 * n + b.toNat) 0

/-- What a head says beside its major type. -/
inductive Argument where
  | number (w : Width) (n : Nat)
  /-- Indefinite length, or its end. -/
  | indefinite
deriving DecidableEq, Repr

/-- A first byte. -/
def firstByte (major : Major) (code : Nat) : UInt8 :=
  UInt8.ofNat (32 * major.number + code)

/-- A head with a number. -/
def head (major : Major) (w : Width) (n : Nat) : Bytes :=
  firstByte major (w.code n) :: bigEndian w.size n

/-- The head of an item of indefinite length. -/
def openHead (major : Major) : Bytes := [firstByte major 31]

/-- The byte that ends an item of indefinite length. -/
def breakByte : UInt8 := firstByte .other 31

/-- The argument with a given code, and the bytes after it. -/
def readArgument (code : Nat) (rest : Bytes) : Option (Argument × Bytes) :=
  let wide (w : Width) : Option (Argument × Bytes) :=
    (Sequence.cut? w.size rest).map fun (digits, rest) =>
      (.number w (ofBigEndian digits), rest)
  if code < 24 then some (.number .inline code, rest)
  else match code with
    | 24 => wide .one
    | 25 => wide .two
    | 26 => wide .four
    | 27 => wide .eight
    | 31 => some (.indefinite, rest)
    | _ => none

/-- A head, and the bytes after it. -/
def readHead : Bytes → Option (Major × Argument × Bytes)
  | [] => none
  | first :: rest => do
      let (argument, rest) ← readArgument (first.toNat % 32) rest
      return (.ofNumber (first.toNat / 32), argument, rest)

/-! ## Heads are read back -/

namespace Width

/-- A number of 64 bits fits its narrowest width. -/
theorem lt_bound_narrowest {n : Nat} (h : n < eight.bound) : n < (narrowest n).bound := by
  unfold narrowest
  split
  · simpa [bound]
  · split
    · simpa [bound]
    · split
      · simpa [bound]
      · split <;> simpa [bound]

end Width

@[simp]
theorem Major.ofNumber_number (m : Major) : Major.ofNumber m.number = m := by
  cases m <;> rfl

theorem Major.number_lt (m : Major) : m.number < 8 := by
  cases m <;> decide

@[simp]
theorem length_bigEndian (k n : Nat) : (bigEndian k n).length = k := by
  induction k generalizing n with
  | zero => rfl
  | succ k ih => simp [bigEndian, ih]

theorem foldl_bigEndian (k n start : Nat) :
    (bigEndian k n).foldl (fun n b => 256 * n + b.toNat) start =
      start <<< (8 * k) + n % 1 <<< (8 * k) := by
  induction k generalizing start with
  | zero => simp [bigEndian, Nat.mod_one]
  | succ k ih =>
      have hpow : 2 ^ (8 * (k + 1)) = 2 ^ (8 * k) * 256 := Nat.pow_add 2 (8 * k) 8
      simp only [Nat.shiftLeft_eq, Nat.one_mul] at ih ⊢
      rw [bigEndian, List.foldl_cons, ih, UInt8.toNat_ofNat', Nat.shiftRight_eq_div_pow,
        show 2 ^ 8 = 256 from rfl, hpow]
      calc (256 * start + n / 2 ^ (8 * k) % 256) * 2 ^ (8 * k) + n % 2 ^ (8 * k)
          = start * (2 ^ (8 * k) * 256) +
              (n % 2 ^ (8 * k) + 2 ^ (8 * k) * (n / 2 ^ (8 * k) % 256)) := by
            grind
        _ = start * (2 ^ (8 * k) * 256) + n % (2 ^ (8 * k) * 256) := by
            rw [Nat.mod_mul]

/-- Enough bytes give the number back. -/
theorem ofBigEndian_bigEndian {k n : Nat} (h : n < 1 <<< (8 * k)) :
    ofBigEndian (bigEndian k n) = n := by
  rw [ofBigEndian, foldl_bigEndian, Nat.mod_eq_of_lt h]
  simp

theorem toNat_firstByte (m : Major) {code : Nat} (h : code < 32) :
    (firstByte m code).toNat = 32 * m.number + code := by
  have := m.number_lt
  rw [firstByte, UInt8.toNat_ofNat', Nat.mod_eq_of_lt (by omega)]

/-- A head is read back whatever follows it. -/
theorem readHead_head_append (m : Major) {w : Width} {n : Nat} (h : n < w.bound) (rest : Bytes) :
    readHead (head m w n ++ rest) = some (m, .number w n, rest) := by
  have hcode : w.code n < 32 := by
    cases w <;> simp_all [Width.code, Width.bound]
    omega
  have hdiv : (32 * m.number + w.code n) / 32 = m.number := by omega
  have hmod : (32 * m.number + w.code n) % 32 = w.code n := by omega
  have hback : n < 1 <<< (8 * w.size) → ofBigEndian (bigEndian w.size n) = n :=
    ofBigEndian_bigEndian
  have hcut : Sequence.cut? w.size (bigEndian w.size n ++ rest) =
      some (bigEndian w.size n, rest) := by
    simp [Sequence.cut?_eq]
  simp only [head, List.cons_append, readHead, toNat_firstByte m hcode, hdiv, hmod]
  cases w <;> simp_all [readArgument, Width.code, Width.bound, Width.size, bigEndian]

/-- The head of an item of indefinite length is read back whatever follows it. -/
theorem readHead_openHead_append (m : Major) (rest : Bytes) :
    readHead (openHead m ++ rest) = some (m, .indefinite, rest) := by
  cases m <;> rfl

end PairEdit.Cbor
