import Mathlib.Logic.Relation
import PairEdit.Proofs.Replica

/-!
# What an acknowledgement leaves of the backlog

An arriving edit says how many local edits its author had applied, and may say anything.  The
backlog is cut at that number twice: for the check by lengths, which changes nothing, and
before the transformation, which forgets what lies in front of the cut.  Were the two cuts to
differ, an edit would be checked against one text and carried past the edits of another.

They do not differ.  Every edit sent is acknowledged or outstanding, whatever arrives, so both
cuts are made inside the list, at the same place.
-/

namespace PairEdit.Backlog

variable {b b' : Backlog}

/-! ## Both cuts -/

/-- An acknowledgement that is no news covers nothing. -/
theorem unseen_of_le {seen : Nat} (h : seen ≤ b.acknowledged) : b.unseen seen = b.outstanding := by
  have hcovered : min seen b.sent - b.acknowledged = 0 :=
    Nat.sub_eq_zero_of_le (Nat.le_trans (Nat.min_le_left _ _) h)
  rw [unseen, hcovered, List.drop_zero]

/-- No acknowledgement takes another one back. -/
theorem acknowledged_le_retire (b : Backlog) (seen : Nat) :
    b.acknowledged ≤ (b.retire seen).acknowledged := by
  rw [acknowledged_retire]
  exact Nat.le_max_left _ _

/-- The check goes by the edits that the transformation is going to keep. -/
theorem check?_eq (b : Backlog) (u : Update) (len : Nat) :
    b.check? u len = (sumDeltas? 0 (b.retire u.seen).outstanding).map fun delta =>
      (baseLength len delta).bind u.edit.checkBounds := by
  rw [outstanding_retire, check?]
  cases sumDeltas? 0 (b.unseen u.seen) <;> rfl

/-- The transformation goes past the edits that the check has summed up. -/
theorem receive?_eq (b : Backlog) (u : Update) :
    b.receive? u = (Word.fit? (b.received + 1)).bind fun received =>
      (pass? b.priority u.edit (b.unseen u.seen)).map fun (e, edits) =>
        (e, { b.retire u.seen with outstanding := edits, received := received }) := by
  simp only [receive?, received_retire, priority_retire, outstanding_retire]
  cases Word.fit? (b.received + 1) with
  | none => rfl
  | some received => cases pass? b.priority u.edit (b.unseen u.seen) <;> rfl

/-! ## Nothing is lost between the counters -/

/-- Every edit sent is acknowledged or outstanding. -/
def Counted (b : Backlog) : Prop := b.sent = b.acknowledged + b.outstanding.length

namespace Counted

theorem acknowledged_le (h : b.Counted) : b.acknowledged ≤ b.sent :=
  Nat.le.intro h.symm

theorem length_outstanding (h : b.Counted) : b.outstanding.length = b.sent - b.acknowledged :=
  (Nat.sub_eq_of_eq_add' h).symm

/-- An acknowledgement covers no more edits than there are. -/
theorem covered_le (h : b.Counted) (seen : Nat) :
    min seen b.sent - b.acknowledged ≤ b.outstanding.length :=
  calc
    min seen b.sent - b.acknowledged ≤ b.sent - b.acknowledged :=
      Nat.sub_le_sub_right (Nat.min_le_right _ _) _
    _ = b.outstanding.length := h.length_outstanding.symm

/-- So the cut is made inside the list, and what is in front of it and behind it is what is
retired and what is kept. -/
theorem cut?_outstanding (h : b.Counted) (seen : Nat) :
    Sequence.cut? (min seen b.sent - b.acknowledged) b.outstanding =
      some (b.retired seen, b.unseen seen) := by
  rw [Sequence.cut?_eq, if_pos (h.covered_le seen)]
  rfl

/-- Kept are the edits with a number above what is acknowledged then. -/
theorem length_unseen (h : b.Counted) (seen : Nat) :
    (b.unseen seen).length = b.sent - (b.retire seen).acknowledged :=
  calc
    (b.unseen seen).length = b.outstanding.length - (min seen b.sent - b.acknowledged) :=
      List.length_drop
    _ = b.sent - b.acknowledged - (min seen b.sent - b.acknowledged) := by
      rw [h.length_outstanding]
    _ = b.sent - max b.acknowledged (min seen b.sent) := by omega
    _ = b.sent - (b.retire seen).acknowledged := by rw [acknowledged_retire]

/-- Whoever claims to have applied all that was sent, or more, leaves nothing outstanding. -/
theorem unseen_of_sent_le (h : b.Counted) {seen : Nat} (hseen : b.sent ≤ seen) :
    b.unseen seen = [] := by
  have hcovered : min seen b.sent - b.acknowledged = b.outstanding.length := by
    rw [Nat.min_eq_right hseen, h.length_outstanding]
  rw [unseen, hcovered, List.drop_length]

theorem start (role : Role) : (start role).Counted := rfl

theorem retire (h : b.Counted) (seen : Nat) : (b.retire seen).Counted := by
  have hle : (b.retire seen).acknowledged ≤ b.sent := by
    rw [acknowledged_retire]
    exact Nat.max_le.2 ⟨h.acknowledged_le, Nat.min_le_right _ _⟩
  rw [Counted, sent_retire, outstanding_retire, h.length_unseen, Nat.add_sub_cancel' hle]

/-- What the edits have become does not matter, only how many they are. -/
theorem rewrite (h : b.Counted) {edits : List Edit}
    (hlength : edits.length = b.outstanding.length) (received : Nat) :
    Counted { b with outstanding := edits, received := received } :=
  h.trans (congrArg (b.acknowledged + ·) hlength.symm)

theorem append (h : b.Counted) (e : Edit) :
    Counted { b with outstanding := b.outstanding ++ [e], sent := b.sent + 1 } := by
  rw [Counted, List.length_append, List.length_singleton, ← Nat.add_assoc, ← h]

end Counted

/-! ## Whatever happens to a backlog -/

/-- What may happen to a backlog.  Updates are not checked before they are received, so the
transformation may leave the words.  Then it breaks off with the acknowledgement taken in and
some of the edits rewritten, and what they have become is left open here. -/
inductive Step : Backlog → Backlog → Prop
  | register {b b' : Backlog} {e : Edit} {u : Update} :
      b.register? e = some (u, b') → Step b b'
  | skip {b b' : Backlog} {count : Nat} : b.skip? count = some b' → Step b b'
  | receive {b b' : Backlog} {u : Update} {e : Edit} : b.receive? u = some (e, b') → Step b b'
  | breakOff {b : Backlog} {u : Update} {edits : List Edit} :
      b.received < Word.max → b.receive? u = none →
      edits.length = (b.retire u.seen).outstanding.length →
      Step b { b.retire u.seen with outstanding := edits, received := b.received + 1 }

/-- What a backlog may come to. -/
abbrev Later : Backlog → Backlog → Prop := Relation.ReflTransGen Step

theorem Step.counted (h : Step b b') (hcounted : b.Counted) : b'.Counted := by
  cases h with
  | register hregister =>
      obtain ⟨-, -, rfl⟩ := register?_eq_some_iff.1 hregister
      exact hcounted.append _
  | skip hskip =>
      obtain ⟨-, rfl⟩ := skip?_eq_some_iff.1 hskip
      exact hcounted.rewrite rfl _
  | receive hreceive =>
      obtain ⟨-, edits, hpass, rfl⟩ := receive?_eq_some_iff.1 hreceive
      rw [← outstanding_retire] at hpass
      exact (hcounted.retire _).rewrite (length_of_pass? hpass) _
  | breakOff _ _ hlength => exact (hcounted.retire _).rewrite hlength _

theorem Step.acknowledged_le (h : Step b b') : b.acknowledged ≤ b'.acknowledged := by
  cases h with
  | register hregister =>
      obtain ⟨-, -, rfl⟩ := register?_eq_some_iff.1 hregister
      exact Nat.le_refl _
  | skip hskip =>
      obtain ⟨-, rfl⟩ := skip?_eq_some_iff.1 hskip
      exact Nat.le_refl _
  | receive hreceive =>
      obtain ⟨-, edits, -, rfl⟩ := receive?_eq_some_iff.1 hreceive
      exact acknowledged_le_retire b _
  | breakOff _ _ _ => exact acknowledged_le_retire b _

theorem Later.counted (h : Later b b') (hcounted : b.Counted) : b'.Counted := by
  induction h with
  | refl => exact hcounted
  | tail _ hstep ih => exact hstep.counted ih

theorem Later.acknowledged_le (h : Later b b') : b.acknowledged ≤ b'.acknowledged := by
  induction h with
  | refl => exact Nat.le_refl _
  | tail _ hstep ih => exact Nat.le_trans ih hstep.acknowledged_le

/-- Whatever has happened to a backlog, every edit sent is acknowledged or outstanding, and an
acknowledged one stays so.  Whatever number an arriving edit names, the check sums up the edits
that are kept, the transformation goes past the edits that were summed up, and they are cut off
inside the list: all of them are left when the number is no news, and none when it is all that
was sent or more. -/
theorem checked_edits_are_passed {role : Role} (h : Later (start role) b) :
    b.acknowledged ≤ b.sent ∧
    b.outstanding.length = b.sent - b.acknowledged ∧
    (∀ b', Later b b' → b.acknowledged ≤ b'.acknowledged) ∧
    ∀ seen : Nat,
      b.unseen seen = (b.retire seen).outstanding ∧
      Sequence.cut? (min seen b.sent - b.acknowledged) b.outstanding =
        some (b.retired seen, b.unseen seen) ∧
      (b.unseen seen).length = b.sent - (b.retire seen).acknowledged ∧
      (seen ≤ b.acknowledged → b.unseen seen = b.outstanding) ∧
      (b.sent ≤ seen → b.unseen seen = []) ∧
      ∀ (e : Edit) (number : Nat),
        (∀ len, b.check? ⟨e, number, seen⟩ len =
          (sumDeltas? 0 (b.retire seen).outstanding).map fun delta =>
            (baseLength len delta).bind e.checkBounds) ∧
        b.receive? ⟨e, number, seen⟩ =
          (Word.fit? (b.received + 1)).bind fun received =>
            (pass? b.priority e (b.unseen seen)).map fun (adjusted, edits) =>
              (adjusted, { b.retire seen with outstanding := edits, received := received }) := by
  have hcounted : b.Counted := h.counted (.start role)
  refine ⟨hcounted.acknowledged_le, hcounted.length_outstanding, fun b' => Later.acknowledged_le,
    fun seen => ⟨(outstanding_retire b seen).symm, hcounted.cut?_outstanding seen,
      hcounted.length_unseen seen, unseen_of_le, hcounted.unseen_of_sent_le, ?_⟩⟩
  intro e number
  exact ⟨check?_eq b ⟨e, number, seen⟩, receive?_eq b ⟨e, number, seen⟩⟩

/-- Of two edits sent the peer has acknowledged one, and then an edit of the peer has broken off
at the last word.  Another one claims to know nine edits. -/
theorem checked_edits_are_passed_overstated :
    let b : Backlog := ⟨[⟨2, 0, ['b']⟩], 2, 1, 2, .localFirst⟩
    let u : Update := ⟨⟨4, 0, ['c']⟩, 3, 9⟩
    Later (start .initiator) b ∧ b.outstanding.length = b.sent - b.acknowledged ∧
      b.unseen u.seen = (b.retire u.seen).outstanding ∧ b.unseen u.seen = [] ∧
      b.unseen 1 = b.outstanding ∧
      ∃ b', b.receive? u = some (u.edit, b') ∧ b.acknowledged ≤ b'.acknowledged := by
  intro b u
  have hsent : Later (start .initiator) ⟨[⟨0, 0, ['a']⟩, ⟨1, 0, ['b']⟩], 2, 0, 0, .localFirst⟩ :=
    .tail (.single (.register (e := ⟨0, 0, ['a']⟩) rfl)) (.register (e := ⟨1, 0, ['b']⟩) rfl)
  have hreceived := hsent.tail (.receive (u := ⟨⟨0, 0, ['X']⟩, 1, 1⟩) rfl)
  have hlater : Later (start .initiator) b :=
    hreceived.tail (.breakOff (u := ⟨⟨Word.max, 0, []⟩, 2, 0⟩) (by decide) (by decide) rfl)
  obtain ⟨-, hlength, hlater', hcut⟩ := checked_edits_are_passed hlater
  obtain ⟨hkept, -, -, -, hnone, hedit⟩ := hcut u.seen
  obtain ⟨-, -, -, hall, -⟩ := hcut 1
  have hreceive := (hedit u.edit u.sent).2
  rw [hnone (by decide)] at hreceive
  exact ⟨hlater, hlength, hkept, hnone (by decide), hall (by decide), _, hreceive,
    hlater' _ (.single (.receive hreceive))⟩

end PairEdit.Backlog
