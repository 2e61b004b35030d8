/-!
# Tables

A table has a slot for every natural number.  All but finitely many hold the
default value of their type, so a slot can be read and written without asking
whether it exists.
-/

namespace PairEdit

/-- Slots from zero on; those past the list hold the default. -/
structure Table (α : Type) where
  slots : List α
deriving Repr

namespace Table

variable {α : Type} [Inhabited α]

/-- Nothing but defaults. -/
def empty : Table α := ⟨[]⟩

/-- The content of a slot. -/
def get (t : Table α) (i : Nat) : α := t.slots[i]?.getD default

/-- Fill a slot. -/
def set (t : Table α) (i : Nat) (a : α) : Table α :=
  if i < t.slots.length then ⟨t.slots.set i a⟩
  else ⟨t.slots ++ List.replicate (i - t.slots.length) default ++ [a]⟩

/-- Change a slot. -/
def modify (t : Table α) (i : Nat) (f : α → α) : Table α := t.set i (f (t.get i))

/-- Fill the first slot past the list; the result names it. -/
def push (t : Table α) (a : α) : Nat × Table α :=
  (t.slots.length, ⟨t.slots ++ [a]⟩)

/-- The numbers of the slots in the list. -/
def indices (t : Table α) : List Nat := List.range t.slots.length

theorem get_of_le {t : Table α} {i : Nat} (h : t.slots.length ≤ i) : t.get i = default := by
  rw [get, List.getElem?_eq_none h]
  rfl

@[simp]
theorem get_set_self (t : Table α) (i : Nat) (a : α) : (t.set i a).get i = a := by
  unfold set get
  split
  · next h => simp [h]
  · next h =>
      rw [List.getElem?_append_right (by simp; omega)]
      simp [show i - (t.slots.length + (i - t.slots.length)) = 0 by omega]

theorem get_set_of_ne (t : Table α) {i j : Nat} (a : α) (h : j ≠ i) :
    (t.set i a).get j = t.get j := by
  unfold set get
  split
  · rw [List.getElem?_set_ne (Ne.symm h)]
  · next hlen =>
      by_cases hj : j < t.slots.length
      · rw [List.append_assoc, List.getElem?_append_left hj]
      · rw [List.append_assoc, List.getElem?_append_right (by omega),
          List.getElem?_eq_none (l := t.slots) (by omega)]
        by_cases hij : j < i
        · rw [List.getElem?_append_left (by simp; omega),
            List.getElem?_replicate_of_lt (by omega)]
          rfl
        · rw [List.getElem?_eq_none (by simp; omega)]

/-- Writing a slot changes what is read there and nothing else. -/
theorem get_set (t : Table α) (i j : Nat) (a : α) :
    (t.set i a).get j = if j = i then a else t.get j := by
  split
  · next h => subst h; exact get_set_self t j a
  · next h => exact get_set_of_ne t a h

@[simp]
theorem get_modify_self (t : Table α) (i : Nat) (f : α → α) :
    (t.modify i f).get i = f (t.get i) := by
  simp [modify]

theorem get_modify_of_ne (t : Table α) {i j : Nat} (f : α → α) (h : j ≠ i) :
    (t.modify i f).get j = t.get j := by
  simpa [modify] using get_set_of_ne t (f (t.get i)) h

theorem length_modify (t : Table α) (i : Nat) (f : α → α) :
    (t.modify i f).slots.length = max t.slots.length (i + 1) := by
  unfold modify set
  split
  · next h => simp; omega
  · next h => simp; omega

theorem get_push (t : Table α) (a : α) (i : Nat) :
    (t.push a).2.get i = if i = t.slots.length then a else t.get i := by
  simp only [push, get]
  split
  · next h => simp [h]
  · next h =>
      rcases Nat.lt_or_gt_of_ne h with hlt | hgt
      · rw [List.getElem?_append_left hlt]
      · rw [List.getElem?_eq_none (by simp; omega), List.getElem?_eq_none (Nat.le_of_lt hgt)]

end Table

end PairEdit
