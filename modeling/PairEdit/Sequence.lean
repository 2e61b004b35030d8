/-!
# Cutting sequences

A cut at position `n` walks over `n` elements and gives what was passed and
what remains.  It fails, and does not stop early, when there are fewer.
-/

namespace PairEdit.Sequence

variable {α : Type}

/-- The walk behind `cut?`: `passed` holds the elements already passed, last
one first. -/
def cutFrom (passed : List α) : Nat → List α → Option (List α × List α)
  | 0, rest => some (passed.reverse, rest)
  | _ + 1, [] => none
  | n + 1, a :: rest => cutFrom (a :: passed) n rest

/-- The first `n` elements and the others; `none` when there are fewer. -/
def cut? (n : Nat) (xs : List α) : Option (List α × List α) :=
  cutFrom [] n xs

theorem cutFrom_eq (passed : List α) (n : Nat) (xs : List α) :
    cutFrom passed n xs =
      if n ≤ xs.length then some (passed.reverse ++ xs.take n, xs.drop n)
      else none := by
  induction n generalizing passed xs with
  | zero => simp [cutFrom]
  | succ n ih =>
      cases xs with
      | nil => simp [cutFrom]
      | cons a rest => simp [cutFrom, ih]

/-- Walking over `n` elements succeeds exactly when there are that many. -/
theorem cut?_eq (n : Nat) (xs : List α) :
    cut? n xs = if n ≤ xs.length then some (xs.take n, xs.drop n) else none := by
  simpa [cut?] using cutFrom_eq [] n xs

end PairEdit.Sequence
