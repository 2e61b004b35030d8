/-!
# Faults

A run that breaks off has no result at all, neither a value nor a refusal.
The causes are kept apart: arithmetic that leaves the 64-bit words, a lock that
its holder waits for, and a chain of reactions that does not end.
-/

namespace PairEdit

/-- Why a run breaks off. -/
inductive Fault where
  /-- A number is no 64-bit word. -/
  | overflow
  /-- A party waits for itself to finish a write. -/
  | deadlock
  /-- Reactions follow one another past every bound. -/
  | endless
deriving DecidableEq, Repr

/-- An overflow breaks a run off. -/
def orOverflow {α : Type} : Option α → Except Fault α
  | some a => .ok a
  | none => .error .overflow

/-- A run in two parts comes to its end when both parts do. -/
theorem bind_eq_ok_iff {α β : Type} {first : Except Fault α} {next : α → Except Fault β} {b : β} :
    (first >>= next) = .ok b ↔ ∃ a, first = .ok a ∧ next a = .ok b := by
  cases first with
  | error fault => simp [bind, Except.bind]
  | ok a => simp [bind, Except.bind]

/-- What a run is seen to end with is its end. -/
theorem eq_ok_of_mem_toOption {ε α : Type} {r : Except ε α} {a : α} (h : a ∈ r.toOption) :
    r = .ok a := by
  cases r with
  | error => cases h
  | ok b => exact congrArg Except.ok (Option.some.inj h)

@[simp]
theorem orOverflow_eq_ok_iff {α : Type} {o : Option α} {a : α} :
    orOverflow o = .ok a ↔ o = some a := by
  cases o <;> simp [orOverflow]

end PairEdit
