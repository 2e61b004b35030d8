/-!
# Machine words

Positions, lengths and counters are natural numbers that have to fit 64 bits.
An operation whose result would not fit has no result: it is an overflow, and
the functions here return `none` for it.  Lengths are also read as signed
words, in two's complement, where a difference is taken.
-/

namespace PairEdit.Word

/-- The number of 64-bit words. -/
def count : Nat := 0x1_0000_0000_0000_0000

/-- The largest 64-bit word. -/
def max : Nat := 0xFFFF_FFFF_FFFF_FFFF

/-- The largest signed 64-bit word. -/
def maxSigned : Nat := 0x7FFF_FFFF_FFFF_FFFF

/-- `some n` when `n` fits a word. -/
def fit? (n : Nat) : Option Nat :=
  if n ≤ max then some n else none

/-- The sum, when it fits a word. -/
def add? (m n : Nat) : Option Nat := fit? (m + n)

/-- The difference, when it is not negative. -/
def sub? (m n : Nat) : Option Nat :=
  if n ≤ m then some (m - n) else none

/-- `some i` when `i` fits a signed word. -/
def fitSigned? (i : Int) : Option Int :=
  if -maxSigned - 1 ≤ i ∧ i ≤ maxSigned then some i else none

/-- The signed word with the same 64 bits as `n`. -/
def signed (n : Nat) : Int := Int.bmod n count

theorem fit?_of_le {n : Nat} (h : n ≤ max) : fit? n = some n := by
  simp [fit?, h]

theorem add?_of_le {m n : Nat} (h : m + n ≤ max) : add? m n = some (m + n) :=
  fit?_of_le h

theorem sub?_of_le {m n : Nat} (h : n ≤ m) : sub? m n = some (m - n) := by
  simp [sub?, h]

/-- The difference of two lengths is a signed word. -/
theorem fitSigned?_sub {m n : Nat} (hm : m ≤ maxSigned) (hn : n ≤ maxSigned) :
    fitSigned? ((m : Int) - n) = some ((m : Int) - n) := by
  simp only [maxSigned] at *
  unfold fitSigned? maxSigned
  rw [if_pos]
  omega

/-- Small words read the same signed and unsigned. -/
theorem signed_of_le {n : Nat} (h : n ≤ maxSigned) : signed n = n := by
  simp only [maxSigned] at h
  simp only [signed, count, Int.bmod]
  omega

end PairEdit.Word
