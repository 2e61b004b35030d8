import PairEdit.Proofs.Replica

/-!
# A receiver that joins

Before the receiver has accepted, the updates that arrive are applied to the offered text
as they are.  It is a replica all the same, with a backlog in which nothing is
outstanding: such a backlog passes every update on unchanged and only counts it.
-/

namespace PairEdit

open Edit

namespace Backlog

/-- The backlog of a receiver when it joins, with `count` updates of the peer in the text
it was offered. -/
def joined (count : Nat) : Backlog := ⟨[], 0, 0, count, .remoteFirst⟩

variable {count : Nat} {u : Update} {e : Edit} {b : Backlog}

theorem skip?_start_eq_some_iff :
    (start .receiver).skip? count = some b ↔ count ≤ Word.max ∧ b = joined count := by
  rw [skip?_eq_some_iff, start, joined, Nat.zero_add]
  rfl

theorem unseen_joined (count seen : Nat) : (joined count).unseen seen = [] :=
  List.drop_nil

/-- Nothing is outstanding, so the check is about the text itself. -/
theorem exists_apply_of_check?_joined {text : Text}
    (h : (joined count).check? u text.length = some (.ok ()))
    (hlen : text.length ≤ Word.maxSigned) : ∃ text', u.edit.apply text = .ok text' := by
  have hcheck : (joined count).check? u text.length = some (u.edit.checkBounds text.length) := by
    refine check?_eq_some ?_ ?_
    · rw [unseen_joined]
      rfl
    · rw [unseen_joined]
      exact hlen
  rw [h, Option.some.injEq] at hcheck
  exact ⟨_, apply_eq_ok_of_checkBounds hcheck.symm⟩

theorem receive?_joined_eq_some_iff :
    (joined count).receive? u = some (e, b) ↔
      count + 1 ≤ Word.max ∧ e = u.edit ∧ b = joined (count + 1) := by
  have hretire : (joined count).retire u.seen = joined count := by
    simp [retire, joined]
  rw [receive?_eq_some_iff, unseen_joined, hretire]
  constructor
  · rintro ⟨hcount, edits, hpass, rfl⟩
    cases hpass
    exact ⟨hcount, rfl, rfl⟩
  · rintro ⟨hcount, rfl, rfl⟩
    exact ⟨hcount, [], rfl, rfl⟩

end Backlog

namespace Edit

variable {text old : Text}

/-- Overwriting puts the new text in place of the old one. -/
theorem apply_overwriting (hlen : old.length ≤ Word.max) :
    apply ⟨0, old.length, text⟩ old = .ok text := by
  simp [apply_eq, hlen]

/-- What is written over the beginning of a text leaves the rest of it. -/
theorem eq_append_of_apply {n : Nat} {new : Text} (h : apply ⟨0, n, text⟩ old = .ok new) :
    new = text ++ old.drop n := by
  obtain ⟨-, -, rfl⟩ := apply_eq_ok_iff.1 h
  simp [after]

end Edit

end PairEdit
