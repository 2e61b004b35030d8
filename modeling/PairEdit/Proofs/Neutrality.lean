import PairEdit.Proofs.Alternation
import PairEdit.Proofs.Retirement

/-!
# Edits that change nothing

An edit that changes nothing still takes a number, a place in the backlog and an update, and
the update acknowledges what its author had applied.  Left out, with its update, it changes no
text on either side.  Past such an edit every other one is carried as it is, and it stays one
itself; what only its update acknowledged is retired with the next one that remains.

The numbers of the two runs differ.  They are compared by a history of each side, which tells
for each of its edits whether it changes something: a number of the full run counts edits of
the history, and the number of the shorter run counts those that change something among them.
-/

namespace PairEdit

open Edit

namespace Edit

/-! ## Transforming past an edit that changes nothing -/

section Noop

variable {remote own : Edit} {base : Text} (p : Priority)

theorem isNoop_iff {e : Edit} : e.isNoop = true ↔ e.del = 0 ∧ e.ins = [] := by
  simp [isNoop]

theorem transform_of_isNoop (hown : own.isNoop = true) (hso : own.stop = own.pos + own.del)
    (hsr : remote.stop = remote.pos + remote.del) : remote.transform own p = remote := by
  obtain ⟨hdel, hins⟩ := isNoop_iff.1 hown
  obtain ⟨pos, del, ins⟩ := remote
  unfold transform
  simp only [hso, hsr, hdel, hins, List.length_nil] at hsr ⊢
  grind

theorem isNoop_transform (hremote : remote.isNoop = true)
    (hsr : remote.stop = remote.pos + remote.del) :
    (remote.transform own p).isNoop = true := by
  obtain ⟨hdel, hins⟩ := isNoop_iff.1 hremote
  rw [isNoop_iff]
  unfold transform
  simp only [hsr, hdel, hins]
  grind

/-- In a text that both fit, an edit passes one that changes nothing as it is. -/
theorem transform?_of_isNoop (hown : own.isNoop = true) {next mid : Text}
    (happly : own.apply base = .ok next) (hremote : remote.apply base = .ok mid)
    (hlen : base.length ≤ Word.max) : remote.transform? own p = some remote := by
  obtain rfl := eq_of_isNoop hown happly
  obtain ⟨hwo, hfo, hnext⟩ := apply_eq_ok_iff.1 happly
  obtain ⟨hwr, hfr, -⟩ := apply_eq_ok_iff.1 hremote
  rw [transform?_eq_some p hfo hfr (stop_of_le hwo) (stop_of_le hwr) (by rwa [hnext]),
    transform_of_isNoop p hown (stop_of_le hwo) (stop_of_le hwr)]

end Noop

end Edit

/-! ## Lists with some edits left out -/

/-- The second list of edits is the first one without those that are marked with `false`,
which change nothing. -/
inductive Sifted : List Bool → List Edit → List Edit → Prop where
  | nil : Sifted [] [] []
  | keep {marks : List Bool} {edits kept : List Edit} (e : Edit) :
      Sifted marks edits kept → Sifted (true :: marks) (e :: edits) (e :: kept)
  | drop {marks : List Bool} {edits kept : List Edit} {e : Edit} (hnoop : e.isNoop = true) :
      Sifted marks edits kept → Sifted (false :: marks) (e :: edits) kept

namespace Sifted

variable {marks : List Bool} {edits kept : List Edit}

/-- To leave out the first edits of one list is to leave out those of the other that are
marked among them. -/
theorem drop_left (h : Sifted marks edits kept) (n : Nat) :
    Sifted (marks.drop n) (edits.drop n) (kept.drop ((marks.take n).count true)) := by
  induction h generalizing n with
  | nil => simpa using Sifted.nil
  | @keep marks _ _ e hrest ih =>
      cases n with
      | zero => exact .keep e hrest
      | succ n => simpa using ih n
  | @drop marks _ _ e hnoop hrest ih =>
      cases n with
      | zero => exact .drop hnoop hrest
      | succ n => simpa using ih n

theorem concat (h : Sifted marks edits kept) (e : Edit) :
    Sifted (marks ++ [true]) (edits ++ [e]) (kept ++ [e]) := by
  induction h with
  | nil => exact .keep e .nil
  | keep f _ ih => exact .keep f ih
  | drop hnoop _ ih => exact .drop hnoop ih

theorem concat_noop (h : Sifted marks edits kept) {e : Edit} (hnoop : e.isNoop = true) :
    Sifted (marks ++ [false]) (edits ++ [e]) kept := by
  induction h with
  | nil => exact .drop hnoop .nil
  | keep f _ ih => exact .keep f ih
  | drop hnoop' _ ih => exact .drop hnoop' ih

theorem applyAll (h : Sifted marks edits kept) {base final : Text}
    (hedits : Edit.applyAll edits base = .ok final) : Edit.applyAll kept base = .ok final := by
  induction h generalizing base with
  | nil => exact hedits
  | keep e _ ih =>
      obtain ⟨next, happly, hrest⟩ := applyAll_cons_eq_ok_iff.1 hedits
      exact applyAll_cons_eq_ok_iff.2 ⟨next, happly, ih hrest⟩
  | drop hnoop _ ih =>
      obtain ⟨next, happly, hrest⟩ := applyAll_cons_eq_ok_iff.1 hedits
      obtain rfl := eq_of_isNoop hnoop happly
      exact ih hrest

theorem lengthBefore_eq (h : Sifted marks edits kept) (len : Nat) :
    lengthBefore len kept = lengthBefore len edits := by
  induction h with
  | nil => rfl
  | keep e _ ih => rw [lengthBefore, lengthBefore, ih]
  | drop hnoop _ ih =>
      obtain ⟨hdel, hins⟩ := isNoop_iff.1 hnoop
      rw [lengthBefore, hdel, hins, ih]
      rfl

theorem roomy (h : Sifted marks edits kept) {len : Nat} (hroomy : Roomy len edits) :
    Roomy len kept := by
  induction h with
  | nil => exact hroomy
  | keep e hrest ih =>
      refine ⟨?_, ih hroomy.2⟩
      rw [(hrest.keep e).lengthBefore_eq]
      exact hroomy.1
  | drop _ _ ih => exact ih hroomy.2

/-- Past either list an edit becomes the same one. -/
theorem pass? (h : Sifted marks edits kept) {priority : Priority} {remote adjusted : Edit}
    {base mid final : Text} {passed : List Edit} (hremote : remote.apply base = .ok mid)
    (hedits : Edit.applyAll edits base = .ok final) (hroomy : Roomy final.length edits)
    (hpass : Backlog.pass? priority remote edits = some (adjusted, passed)) :
    ∃ kept', Backlog.pass? priority remote kept = some (adjusted, kept') ∧
      Sifted marks passed kept' := by
  induction h generalizing remote base mid passed with
  | nil =>
      cases hpass
      exact ⟨[], rfl, .nil⟩
  | keep e _ ih =>
      obtain ⟨next, happly, hrest⟩ := applyAll_cons_eq_ok_iff.1 hedits
      have hnext := length_eq_lengthBefore hrest ▸ hroomy.2.lengthBefore_le
      obtain ⟨remote', own', rest', hremote', hown', hpass', rfl⟩ :=
        Backlog.pass?_cons_eq_some_iff.1 hpass
      obtain ⟨_, htransform, happly', -⟩ := apply_transform? priority happly hremote
        (Nat.le_trans hnext (by decide))
      cases hremote'.symm.trans htransform
      obtain ⟨kept', hkept, hsifted⟩ := ih happly' hrest hroomy.2 hpass'
      exact ⟨own' :: kept', Backlog.pass?_cons_eq_some_iff.2
        ⟨_, own', kept', hremote', hown', hkept, rfl⟩, .keep own' hsifted⟩
  | drop hnoop _ ih =>
      obtain ⟨next, happly, hrest⟩ := applyAll_cons_eq_ok_iff.1 hedits
      have hbase := length_eq_lengthBefore hedits ▸ hroomy.lengthBefore_le
      obtain ⟨remote', own', rest', hremote', hown', hpass', rfl⟩ :=
        Backlog.pass?_cons_eq_some_iff.1 hpass
      rw [transform?_of_isNoop priority hnoop happly hremote
        (Nat.le_trans hbase (by decide))] at hremote'
      cases hremote'
      obtain rfl := eq_of_isNoop hnoop happly
      obtain ⟨kept', hkept, hsifted⟩ := ih hremote hrest hroomy.2 hpass'
      obtain ⟨hwo, -, -⟩ := apply_eq_ok_iff.1 happly
      refine ⟨kept', hkept, .drop ?_ hsifted⟩
      rw [eq_of_transform? _ hown']
      exact isNoop_transform _ hnoop (stop_of_le hwo)

end Sifted

/-- An edit that changes nothing leaves those that it passes as they are. -/
theorem Backlog.pass?_of_isNoop {priority : Priority} {remote adjusted : Edit}
    {edits passed : List Edit} {base mid final : Text} (hnoop : remote.isNoop = true)
    (hremote : remote.apply base = .ok mid) (hedits : applyAll edits base = .ok final)
    (hroomy : Roomy final.length edits)
    (hpass : pass? priority remote edits = some (adjusted, passed)) :
    adjusted.isNoop = true ∧ passed = edits := by
  induction edits generalizing remote base mid passed with
  | nil =>
      cases hpass
      exact ⟨hnoop, rfl⟩
  | cons own rest ih =>
      obtain ⟨next, happly, hrest⟩ := applyAll_cons_eq_ok_iff.1 hedits
      have hbase := length_eq_lengthBefore hedits ▸ hroomy.lengthBefore_le
      have hnext := length_eq_lengthBefore hrest ▸ hroomy.2.lengthBefore_le
      obtain ⟨remote', own', rest', hremote', hown', hpass', rfl⟩ :=
        pass?_cons_eq_some_iff.1 hpass
      rw [transform?_of_isNoop _ hnoop hremote happly
        (Nat.le_trans hbase (by decide))] at hown'
      cases hown'
      obtain ⟨_, htransform, happly', -⟩ := apply_transform? priority happly hremote
        (Nat.le_trans hnext (by decide))
      cases hremote'.symm.trans htransform
      have hnoop' : remote'.isNoop = true := by
        rw [eq_of_transform? _ hremote']
        exact isNoop_transform _ hnoop (stop_of_le (apply_eq_ok_iff.1 hremote).1)
      obtain ⟨hadjusted, rfl⟩ := ih hnoop' happly' hrest hroomy.2 hpass'
      exact ⟨hadjusted, rfl⟩

/-! ## One side in both runs -/

/-- The second list of updates is the first one without those that are marked with `false`,
whose edits change nothing.  The history `mine` of the side they wait for translates what they
acknowledge. -/
inductive Screened (mine : List Bool) : List Bool → List Update → List Update → Prop where
  | nil : Screened mine [] [] []
  | keep {marks : List Bool} {us vs : List Update} {u v : Update} (hedit : v.edit = u.edit)
      (hle : u.seen ≤ mine.length) (hseen : v.seen = (mine.take u.seen).count true) :
      Screened mine marks us vs → Screened mine (true :: marks) (u :: us) (v :: vs)
  | drop {marks : List Bool} {us vs : List Update} {u : Update} (hnoop : u.edit.isNoop = true)
      (hle : u.seen ≤ mine.length) :
      Screened mine marks us vs → Screened mine (false :: marks) (u :: us) vs

namespace Screened

variable {mine marks : List Bool} {us vs : List Update} {u v : Update}

/-- A history that goes on translates the same. -/
theorem extend (h : Screened mine marks us vs) (more : List Bool) :
    Screened (mine ++ more) marks us vs := by
  induction h with
  | nil => exact .nil
  | keep hedit hle hseen _ ih =>
      refine .keep hedit (Nat.le_trans hle (by simp)) ?_ ih
      rwa [List.take_append_of_le_length hle]
  | drop hnoop hle _ ih => exact .drop hnoop (Nat.le_trans hle (by simp)) ih

theorem concat (h : Screened mine marks us vs) (hedit : v.edit = u.edit)
    (hle : u.seen ≤ mine.length) (hseen : v.seen = (mine.take u.seen).count true) :
    Screened mine (marks ++ [true]) (us ++ [u]) (vs ++ [v]) := by
  induction h with
  | nil => exact .keep hedit hle hseen .nil
  | keep hedit' hle' hseen' _ ih => exact .keep hedit' hle' hseen' ih
  | drop hnoop hle' _ ih => exact .drop hnoop hle' ih

theorem concat_noop (h : Screened mine marks us vs) (hnoop : u.edit.isNoop = true)
    (hle : u.seen ≤ mine.length) : Screened mine (marks ++ [false]) (us ++ [u]) vs := by
  induction h with
  | nil => exact .drop hnoop hle .nil
  | keep hedit' hle' hseen' _ ih => exact .keep hedit' hle' hseen' ih
  | drop hnoop' hle' _ ih => exact .drop hnoop' hle' ih

end Screened

/-- A side of the full run and the same side of the shorter one.  `mine` is the history of its
own edits and `theirs` that of the other side's. -/
structure Pruned (mine theirs : List Bool) (s t : Side) : Prop where
  text_eq : t.replica.text = s.replica.text
  priority_eq : t.replica.backlog.priority = s.replica.backlog.priority
  sent_eq : s.replica.backlog.sent = mine.length
  sent_eq_count : t.replica.backlog.sent = mine.count true
  received_le : s.replica.backlog.received ≤ theirs.length
  received_eq : t.replica.backlog.received =
    (theirs.take s.replica.backlog.received).count true
  /-- An acknowledgement may be left out with its update, and then the next one covers it. -/
  acknowledged_le : t.replica.backlog.acknowledged ≤
    (mine.take s.replica.backlog.acknowledged).count true
  length_eq : t.replica.backlog.sent =
    t.replica.backlog.acknowledged + t.replica.backlog.outstanding.length
  sifted : Sifted (mine.drop s.replica.backlog.acknowledged) s.replica.backlog.outstanding
    (t.replica.backlog.outstanding.drop
      ((mine.take s.replica.backlog.acknowledged).count true - t.replica.backlog.acknowledged))
  screened : Screened mine (theirs.drop s.replica.backlog.received) s.inbox t.inbox

namespace Pruned

variable {mine theirs : List Bool} {s s' t across : Side} {e : Edit} {u v : Update}

theorem start (role : Role) (text : Text) :
    Pruned [] [] (.start role text) (.start role text) :=
  ⟨rfl, rfl, rfl, rfl, Nat.le_refl _, rfl, Nat.le_refl _, rfl, .nil, .nil⟩

/-- What was acknowledged is not more than was sent. -/
theorem acknowledged_le_length (h : Pruned mine theirs s t) :
    (mine.take s.replica.backlog.acknowledged).count true - t.replica.backlog.acknowledged ≤
      t.replica.backlog.outstanding.length := by
  have hcount := (List.take_sublist s.replica.backlog.acknowledged mine).count_le true
  have hlength := h.length_eq
  rw [h.sent_eq_count] at hlength
  omega

/-- An edit that both runs make. -/
theorem edit (h : Pruned mine theirs s t)
    (hack : s.replica.backlog.acknowledged ≤ mine.length) (hedit : s.Edits e u s') :
    ∃ v t', t.Edits e v t' ∧ v.edit = u.edit ∧ u.seen = s.replica.backlog.received ∧
      v.seen = t.replica.backlog.received ∧ Pruned (mine ++ [true]) theirs s' t' := by
  obtain ⟨⟨backlog, text⟩, inbox⟩ := s'
  obtain ⟨happly, hregister, rfl⟩ := hedit
  obtain ⟨hsent, rfl, rfl⟩ := Backlog.register?_eq_some_iff.1 hregister
  have hcount : mine.count true ≤ mine.length := List.count_le_length
  have hsent' : t.replica.backlog.sent + 1 ≤ Word.max := by
    rw [h.sent_eq_count]
    rw [h.sent_eq] at hsent
    omega
  refine ⟨_, ⟨⟨_, text⟩, t.inbox⟩,
    ⟨h.text_eq ▸ happly, Backlog.register?_eq_some_iff.2 ⟨hsent', rfl, rfl⟩, rfl⟩, rfl, rfl, rfl,
    ?_⟩
  exact {
    text_eq := rfl
    priority_eq := h.priority_eq
    sent_eq := by rw [List.length_append, ← h.sent_eq]; rfl
    sent_eq_count := by rw [List.count_append, ← h.sent_eq_count]; rfl
    received_le := h.received_le
    received_eq := h.received_eq
    acknowledged_le := by
      rw [List.take_append_of_le_length hack]
      exact h.acknowledged_le
    length_eq := by
      dsimp only
      rw [List.length_append, List.length_singleton, h.length_eq, Nat.add_assoc]
    sifted := by
      rw [List.take_append_of_le_length hack, List.drop_append_of_le_length hack,
        List.drop_append_of_le_length h.acknowledged_le_length]
      exact h.sifted.concat e
    screened := h.screened.extend [true] }

/-- An edit that only the full run makes. -/
theorem edit_noop (h : Pruned mine theirs s t)
    (hack : s.replica.backlog.acknowledged ≤ mine.length) (hedit : s.Edits e u s')
    (hnoop : e.isNoop = true) :
    u.edit = e ∧ u.seen = s.replica.backlog.received ∧ Pruned (mine ++ [false]) theirs s' t := by
  obtain ⟨⟨backlog, text⟩, inbox⟩ := s'
  obtain ⟨happly, hregister, rfl⟩ := hedit
  obtain ⟨-, rfl, rfl⟩ := Backlog.register?_eq_some_iff.1 hregister
  refine ⟨rfl, rfl, ?_⟩
  exact {
    text_eq := h.text_eq.trans (eq_of_isNoop hnoop happly).symm
    priority_eq := h.priority_eq
    sent_eq := by rw [List.length_append, ← h.sent_eq]; rfl
    sent_eq_count := by rw [List.count_append, ← h.sent_eq_count]; rfl
    received_le := h.received_le
    received_eq := h.received_eq
    acknowledged_le := by
      rw [List.take_append_of_le_length hack]
      exact h.acknowledged_le
    length_eq := h.length_eq
    sifted := by
      rw [List.take_append_of_le_length hack, List.drop_append_of_le_length hack]
      exact h.sifted.concat_noop hnoop
    screened := h.screened.extend [false] }

/-- The other side's history goes on. -/
theorem received_append (h : Pruned mine theirs s t) (b : Bool) :
    s.replica.backlog.received ≤ (theirs ++ [b]).length ∧ t.replica.backlog.received =
      ((theirs ++ [b]).take s.replica.backlog.received).count true := by
  rw [List.take_append_of_le_length h.received_le]
  exact ⟨Nat.le_trans h.received_le (by simp), h.received_eq⟩

/-- An update that is on the way in both runs. -/
theorem awaiting (h : Pruned mine theirs s t) (hedit : v.edit = u.edit)
    (hle : u.seen ≤ mine.length) (hseen : v.seen = (mine.take u.seen).count true) :
    Pruned mine (theirs ++ [true]) (s.awaiting u) (t.awaiting v) :=
  { h with
    received_le := (h.received_append true).1
    received_eq := (h.received_append true).2
    screened := by
      simp only [Side.awaiting]
      rw [List.drop_append_of_le_length h.received_le]
      exact h.screened.concat hedit hle hseen }

/-- An update that is on the way only in the full run. -/
theorem awaiting_noop (h : Pruned mine theirs s t) (hnoop : u.edit.isNoop = true)
    (hle : u.seen ≤ mine.length) : Pruned mine (theirs ++ [false]) (s.awaiting u) t :=
  { h with
    received_le := (h.received_append false).1
    received_eq := (h.received_append false).2
    screened := by
      simp only [Side.awaiting]
      rw [List.drop_append_of_le_length h.received_le]
      exact h.screened.concat_noop hnoop hle }

end Pruned

/-- The text that the oldest update was made on, and what leads from it to the text of the side
where the update waits. -/
theorem Linked.exists_base {bound : Nat} {s t : Side} {u : Update} {rest : List Update}
    (h : Linked bound s t) (hinbox : s.inbox = u :: rest) :
    ∃ base mid, u.edit.apply base = .ok mid ∧
      applyAll (s.replica.backlog.unseen u.seen) base = .ok s.replica.text ∧
      s.replica.backlog.acknowledged ≤ u.seen := by
  obtain ⟨-, meet, baseS, baseT, knownS, knownT, pendingS, pendingT, hS, -⟩ := h
  have hcarries := hS.carries
  rw [hinbox] at hcarries
  cases hcarries with
  | cons hsplit hseen _ hrest hmiddle =>
      refine ⟨_, _, hmiddle, ?_, by omega⟩
      rw [hS.unseen_eq hsplit hseen]
      exact applyAll_append_eq_ok_iff.2 ⟨_, hrest, hS.applyAll_pending⟩

theorem Replica.Roomy.unseen {r : Replica} (h : r.Roomy) (seen : Nat) :
    Edit.Roomy r.text.length (r.backlog.unseen seen) := by
  rw [Replica.Roomy, ← Backlog.retired_append_unseen r.backlog seen] at h
  exact h.of_append

theorem Linked.acknowledged_le {bound : Nat} {s t : Side} (h : Linked bound s t) :
    s.replica.backlog.acknowledged ≤ s.replica.backlog.sent := by
  obtain ⟨-, meet, baseS, baseT, knownS, knownT, pendingS, pendingT, hS, -⟩ := h
  rw [hS.sent_eq]
  exact Nat.le_add_right ..

theorem count_take_succ {flags rest : List Bool} {b : Bool} {n : Nat}
    (h : flags.drop n = b :: rest) :
    n < flags.length ∧ flags.drop (n + 1) = rest ∧
      (flags.take (n + 1)).count true = (flags.take n).count true + [b].count true := by
  refine ⟨?_, ?_, ?_⟩
  · have hlen := congrArg List.length h
    simp at hlen
    omega
  · rw [← List.tail_drop, h]
    rfl
  · rw [List.take_add, h, List.count_append]
    rfl

namespace Pruned

variable {mine theirs marks : List Bool} {s s' t across : Side} {u : Update}

/-- What is left of the backlogs when the oldest update has retired what it acknowledges. -/
theorem sifted_unseen (h : Pruned mine theirs s t) {n : Nat} (hle : n ≤ mine.length)
    (hack : s.replica.backlog.acknowledged ≤ n) :
    Sifted (mine.drop n) (s.replica.backlog.unseen n)
      (t.replica.backlog.outstanding.drop
        ((mine.take n).count true - t.replica.backlog.acknowledged)) := by
  have hdrop := h.sifted.drop_left (n - s.replica.backlog.acknowledged)
  have hsplit : (mine.take n).count true =
      (mine.take s.replica.backlog.acknowledged).count true +
        ((mine.drop s.replica.backlog.acknowledged).take
          (n - s.replica.backlog.acknowledged)).count true := by
    rw [← List.count_append, ← List.take_add, Nat.add_sub_cancel' hack]
  have hacknowledged := h.acknowledged_le
  rw [List.drop_drop, List.drop_drop, Nat.add_sub_cancel' hack] at hdrop
  rw [Backlog.unseen, h.sent_eq, Nat.min_eq_left hle, hsplit]
  convert hdrop using 2
  omega

/-- The update that arrives in the shorter run has not seen what is left there. -/
theorem unseen_eq (h : Pruned mine theirs s t) {n : Nat} :
    t.replica.backlog.unseen ((mine.take n).count true) = t.replica.backlog.outstanding.drop
      ((mine.take n).count true - t.replica.backlog.acknowledged) := by
  have hcount := (List.take_sublist n mine).count_le true
  rw [Backlog.unseen, h.sent_eq_count, Nat.min_eq_left hcount]

theorem acknowledged_retire (h : Pruned mine theirs s t) {n : Nat} (hle : n ≤ mine.length)
    (hack : s.replica.backlog.acknowledged ≤ n) :
    (s.replica.backlog.retire n).acknowledged = n := by
  rw [Backlog.acknowledged_retire, h.sent_eq]
  omega

/-- The shorter run never acknowledges more than the full one. -/
theorem acknowledged_le_count (h : Pruned mine theirs s t) {n : Nat}
    (hack : s.replica.backlog.acknowledged ≤ n) :
    t.replica.backlog.acknowledged ≤ (mine.take n).count true :=
  Nat.le_trans h.acknowledged_le ((List.take_sublist_take_left hack).count_le true)

/-- The shorter run never receives more than the full one. -/
theorem received_le_received (h : Pruned mine theirs s t) :
    t.replica.backlog.received ≤ s.replica.backlog.received := by
  rw [h.received_eq]
  exact Nat.le_trans List.count_le_length (List.length_take_le ..)

/-- Whether the oldest update is on the way in the shorter run as well. -/
theorem exists_drop_eq (h : Pruned mine theirs s t) {rest : List Update}
    (hinbox : s.inbox = u :: rest) :
    ∃ b marks, theirs.drop s.replica.backlog.received = b :: marks := by
  have hscreened := h.screened
  rw [hinbox] at hscreened
  generalize theirs.drop s.replica.backlog.received = marks at hscreened ⊢
  generalize t.inbox = others at hscreened
  cases hscreened <;> exact ⟨_, _, rfl⟩

/-- An update that arrives in both runs is applied alike. -/
theorem takeIn (h : Pruned mine theirs s t) (hlinked : Linked bound s across)
    (hroomy : s.replica.Roomy) (hmarks : theirs.drop s.replica.backlog.received = true :: marks)
    (htake : s.TakesIn u s') : ∃ v t', t.TakesIn v t' ∧ Pruned mine theirs s' t' := by
  obtain ⟨⟨backlog, text⟩, inbox⟩ := s'
  obtain ⟨hinbox, -, e, hreceive, happly⟩ := htake
  obtain ⟨base, mid, hedit, hunseen, hack⟩ := hlinked.exists_base hinbox
  obtain ⟨hreceived, edits, hpass, rfl⟩ := Backlog.receive?_eq_some_iff.1 hreceive
  obtain ⟨hlt, hdrop, hcount⟩ := count_take_succ hmarks
  have hrest : Roomy s.replica.text.length (s.replica.backlog.unseen u.seen) :=
    hroomy.unseen u.seen
  have hscreened := h.screened
  rw [hmarks, hinbox] at hscreened
  generalize hothers : t.inbox = others at hscreened
  cases hscreened with
  | @keep _ _ vs _ v hsame hle hseen hscreened =>
      have hsifted := h.sifted_unseen hle hack
      rw [← h.unseen_eq, ← hseen] at hsifted
      obtain ⟨edits', hpass', hpassed⟩ := hsifted.pass? hedit hunseen hrest hpass
      have hcheck : t.replica.backlog.check? v t.replica.text.length = some (.ok ()) := by
        rw [h.text_eq, Backlog.check?_eq_some (hsifted.applyAll hunseen) (hsifted.roomy hrest),
          hsame, checkBounds_of_apply hedit]
      have hreceive' := Backlog.receive?_eq_some_iff.2
        ⟨Nat.le_trans (Nat.succ_le_succ h.received_le_received) hreceived, edits',
          by rw [h.priority_eq, hsame]; exact hpass', rfl⟩
      refine ⟨v, ⟨⟨_, text⟩, vs⟩,
        ⟨hothers, hcheck, e, hreceive', by rw [h.text_eq]; exact happly⟩, ?_⟩
      have hacknowledged := h.acknowledged_le_count hack
      have hcount' := (List.take_sublist u.seen mine).count_le true
      have hacknowledged' : (t.replica.backlog.retire v.seen).acknowledged =
          (mine.take u.seen).count true := by
        rw [Backlog.acknowledged_retire, h.sent_eq_count, hseen]
        omega
      exact {
        text_eq := rfl
        priority_eq := by simpa using h.priority_eq
        sent_eq := by simpa using h.sent_eq
        sent_eq_count := by simpa using h.sent_eq_count
        received_le := hlt
        received_eq := by
          dsimp only
          rw [hcount, ← h.received_eq]
          rfl
        acknowledged_le := by
          simp only [h.acknowledged_retire hle hack, hacknowledged', Nat.le_refl]
        length_eq := (Backlog.Step.receive hreceive').counted h.length_eq
        sifted := by
          simp only [h.acknowledged_retire hle hack, hacknowledged', Nat.sub_self,
            List.drop_zero]
          exact hpassed
        screened := by
          dsimp only
          rwa [hdrop] }

/-- An update that arrives only in the full run changes no text. -/
theorem takeIn_noop (h : Pruned mine theirs s t) (hlinked : Linked bound s across)
    (hroomy : s.replica.Roomy) (hmarks : theirs.drop s.replica.backlog.received = false :: marks)
    (htake : s.TakesIn u s') : Pruned mine theirs s' t := by
  obtain ⟨⟨backlog, text⟩, inbox⟩ := s'
  obtain ⟨hinbox, -, e, hreceive, happly⟩ := htake
  obtain ⟨base, mid, hedit, hunseen, hack⟩ := hlinked.exists_base hinbox
  obtain ⟨-, edits, hpass, rfl⟩ := Backlog.receive?_eq_some_iff.1 hreceive
  obtain ⟨hlt, hdrop, hcount⟩ := count_take_succ hmarks
  have hrest : Roomy s.replica.text.length (s.replica.backlog.unseen u.seen) :=
    hroomy.unseen u.seen
  have hscreened := h.screened
  rw [hmarks, hinbox] at hscreened
  cases hscreened with
  | drop hnoop hle hscreened =>
      obtain ⟨hadjusted, rfl⟩ := Backlog.pass?_of_isNoop hnoop hedit hunseen hrest hpass
      exact {
        text_eq := h.text_eq.trans (eq_of_isNoop hadjusted happly).symm
        priority_eq := by simpa using h.priority_eq
        sent_eq := by simpa using h.sent_eq
        sent_eq_count := h.sent_eq_count
        received_le := hlt
        received_eq := by
          dsimp only
          rw [hcount, ← h.received_eq]
          rfl
        acknowledged_le := by
          simp only [h.acknowledged_retire hle hack]
          exact h.acknowledged_le_count hack
        length_eq := h.length_eq
        sifted := by
          simp only [h.acknowledged_retire hle hack]
          exact h.sifted_unseen hle hack
        screened := by
          dsimp only
          rwa [hdrop] }

end Pruned

/-! ## Runs -/

namespace Alternation

namespace Desks

/-- One action, in whatever order the two sides act. -/
def advance? (x : Desks) : Action → Option Desks
  | .edit role e =>
      ((x role).edit? e).map fun (u, d) r => if r = role then d else (x r).awaiting u
  | .deliver role => (x role).takeIn?.map fun d r => if r = role then d else x r

/-- The actions one after another; the result holds the sides after every one. -/
def stages? (x : Desks) : List Action → Option (List Desks)
  | [] => some []
  | a :: rest => do
      let y ← x.advance? a
      let later ← y.stages? rest
      return y :: later

theorem stages?_cons_eq_some_iff {x : Desks} {a : Action} {rest : List Action}
    {later : List Desks} :
    x.stages? (a :: rest) = some later ↔
      ∃ y, x.advance? a = some y ∧ ∃ after, y.stages? rest = some after ∧ later = y :: after := by
  simp only [stages?, Option.bind_eq_bind, Option.bind_eq_some_iff, Option.pure_def,
    Option.some.injEq, @eq_comm _ later]

/-- No text is too long for a signed word, neither the local ones nor those that the
outstanding edits apply to. -/
def Roomy (x : Desks) : Prop :=
  ∀ role, Edit.Roomy (x role).text.length (x role).strategy.outstanding

instance (x : Desks) : Decidable x.Roomy :=
  inferInstanceAs (Decidable (∀ _ : Role, Edit.Roomy _ _))

end Desks

/-- Whether an action remains when all edits that change nothing are left out, and with each
of them its update.  `waiting` tells for each side which of the updates that wait for it remain;
the result also holds what is so after the action. -/
def mark (waiting : Role → List Bool) : Action → Bool × (Role → List Bool)
  | .edit role e =>
      (!e.isNoop, fun r => if r = role then waiting r else waiting r ++ [!e.isNoop])
  | .deliver role =>
      ((waiting role).headD true, fun r => if r = role then (waiting r).tail else waiting r)

/-- Which of the actions remain. -/
def remaining (waiting : Role → List Bool) : List Action → List Bool
  | [] => []
  | a :: rest => (mark waiting a).1 :: remaining (mark waiting a).2 rest

/-- Which actions of a run from the start remain: all but the edits that change nothing, and
the deliveries of their updates. -/
def essential (actions : List Action) : List Bool := remaining (fun _ => []) actions

/-- The members of a list that are marked. -/
def keep {α : Type} (marks : List Bool) (as : List α) : List α :=
  ((as.zip marks).filter Prod.snd).map Prod.fst

/-- Both sides hold the same texts in two runs. -/
def SameTexts (x y : Desks) : Prop := ∀ role, (x role).text = (y role).text

theorem keep_cons_true {α : Type} (marks : List Bool) (a : α) (as : List α) :
    keep (true :: marks) (a :: as) = a :: keep marks as := rfl

theorem keep_cons_false {α : Type} (marks : List Bool) (a : α) (as : List α) :
    keep (false :: marks) (a :: as) = keep marks as := rfl

end Alternation

open Alternation

/-! ## Both runs, action by action -/

/-- A side whose strategy keeps a backlog. -/
def Side.desk (s : Side) : Desk := ⟨.backlog s.replica.backlog, s.replica.text, s.inbox⟩

/-- The sides of an exchange. -/
def Exchange.desks (x : Exchange) : Desks := fun role => (x role).desk

theorem Side.edit?_desk_eq_some_iff {s : Side} {e : Edit} {u : Update} {d : Desk} :
    s.desk.edit? e = some (u, d) ↔ ∃ s' : Side, s.Edits e u s' ∧ d = s'.desk := by
  rw [Desk.edit?_eq_some_iff]
  constructor
  · rintro ⟨text, strategy, happly, hregister, rfl⟩
    obtain ⟨⟨u', b⟩, hb, heq⟩ := Option.map_eq_some_iff.1 hregister
    cases heq
    exact ⟨⟨⟨b, text⟩, s.inbox⟩, ⟨happly, hb, rfl⟩, rfl⟩
  · rintro ⟨s', ⟨happly, hregister, hinbox⟩, rfl⟩
    refine ⟨s'.replica.text, .backlog s'.replica.backlog, happly, ?_, by rw [desk, hinbox]; rfl⟩
    exact Option.map_eq_some_iff.2 ⟨_, hregister, rfl⟩

theorem Side.takeIn?_desk_eq_some_iff {s : Side} {d : Desk} :
    s.desk.takeIn? = some d ↔ ∃ (u : Update) (s' : Side), s.TakesIn u s' ∧ d = s'.desk := by
  rw [Desk.takeIn?_eq_some_iff]
  constructor
  · rintro ⟨u, inbox, e, strategy, text, hinbox, hcheck, hreceive, happly, rfl⟩
    obtain ⟨⟨e', b⟩, hb, heq⟩ := Option.map_eq_some_iff.1 hreceive
    cases heq
    exact ⟨u, ⟨⟨b, text⟩, inbox⟩, ⟨hinbox, hcheck, e, hb, happly⟩, rfl⟩
  · rintro ⟨u, s', ⟨hinbox, hcheck, e, hreceive, happly⟩, rfl⟩
    exact ⟨u, s'.inbox, e, .backlog s'.replica.backlog, s'.replica.text, hinbox, hcheck,
      Option.map_eq_some_iff.2 ⟨_, hreceive, rfl⟩, happly, rfl⟩

namespace Exchange

variable {text : Text} {x y : Exchange} {z : Desks} {waiting : Role → List Bool} {actor : Role}
variable {e : Edit}

theorem advance?_edit_eq_some_iff :
    x.desks.advance? (.edit actor e) = some z ↔ ∃ u s, (x actor).Edits e u s ∧
      z = desks fun role => if role = actor then s else (x role).awaiting u := by
  have hdesks : ∀ u (s : Side),
      (fun r => if r = actor then s.desk else (x.desks r).awaiting u) =
        desks fun role => if role = actor then s else (x role).awaiting u := by
    intro u s
    funext r
    by_cases hr : r = actor
    · simp only [desks, hr, if_true]
    · simp only [desks, hr, if_false]
      rfl
  simp only [Desks.advance?, Option.map_eq_some_iff, Prod.exists]
  constructor
  · rintro ⟨u, d, hedit, rfl⟩
    obtain ⟨s, hs, rfl⟩ := Side.edit?_desk_eq_some_iff.1 hedit
    exact ⟨u, s, hs, hdesks u s⟩
  · rintro ⟨u, s, hs, rfl⟩
    exact ⟨u, s.desk, Side.edit?_desk_eq_some_iff.2 ⟨s, hs, rfl⟩, hdesks u s⟩

theorem advance?_deliver_eq_some_iff :
    x.desks.advance? (.deliver actor) = some z ↔ ∃ u s, (x actor).TakesIn u s ∧
      z = desks fun role => if role = actor then s else x role := by
  have hdesks : ∀ s : Side, (fun r => if r = actor then s.desk else x.desks r) =
      desks fun role => if role = actor then s else x role := by
    intro s
    funext r
    by_cases hr : r = actor
    · simp only [desks, hr, if_true]
    · simp only [desks, hr, if_false]
  simp only [Desks.advance?, Option.map_eq_some_iff]
  constructor
  · rintro ⟨d, htake, rfl⟩
    obtain ⟨u, s, hs, rfl⟩ := Side.takeIn?_desk_eq_some_iff.1 htake
    exact ⟨u, s, hs, hdesks s⟩
  · rintro ⟨u, s, hs, rfl⟩
    exact ⟨s.desk, Side.takeIn?_desk_eq_some_iff.2 ⟨u, s, hs, rfl⟩, hdesks s⟩

theorem Within.advance {bound : Nat} {a : Action} (h : Within bound text x)
    (hstep : x.desks.advance? a = some z) (hshort : ∀ role, (z role).text.length ≤ bound) :
    ∃ x', z = desks x' ∧ Within bound text x' := by
  cases a with
  | edit actor e =>
      obtain ⟨u, s, hs, rfl⟩ := advance?_edit_eq_some_iff.1 hstep
      exact ⟨_, rfl, h.step (.edit hs) hshort⟩
  | deliver actor =>
      obtain ⟨u, s, hs, rfl⟩ := advance?_deliver_eq_some_iff.1 hstep
      exact ⟨_, rfl, h.step (.deliver hs) hshort⟩

/-- As long as both sides hold short texts, no text that an outstanding edit applies to is too
long. -/
theorem Within.stages_roomy {bound : Nat} {actions : List Action} {later : List Desks}
    (h : Within bound text x) (hrun : x.desks.stages? actions = some later)
    (hshort : ∀ z ∈ later, ∀ role, (z role).text.length ≤ bound)
    (hbound : bound + bound ≤ Word.maxSigned) : ∀ z ∈ x.desks :: later, z.Roomy := by
  induction actions generalizing x later with
  | nil =>
      cases hrun
      exact List.forall_mem_singleton.2 (h.reachable hbound).roomy
  | cons a rest ih =>
      obtain ⟨z, hstep, later, hrest, rfl⟩ := Desks.stages?_cons_eq_some_iff.1 hrun
      obtain ⟨x', rfl, hx'⟩ := h.advance hstep (hshort z List.mem_cons_self)
      have hlater := ih hx' hrest fun z hz => hshort z (List.mem_cons_of_mem _ hz)
      exact List.forall_mem_cons.2 ⟨(h.reachable hbound).roomy, hlater⟩

/-- An exchange that some run comes to, and the one that the shorter run comes to. -/
structure Shortened (text : Text) (waiting : Role → List Bool) (x y : Exchange) : Prop where
  reachable : Reachable text x
  exists_history : ∃ history : Role → List Bool, ∀ role,
    Pruned (history role) (history role.other) (x role) (y role) ∧
      waiting role = (history role.other).drop (x role).replica.backlog.received

namespace Shortened

variable {mine theirs : List Bool}

/-- It is enough to look at the two sides from one end. -/
theorem of_role (role : Role) (hreachable : Reachable text x)
    (hrole : Pruned mine theirs (x role) (y role) ∧
      waiting role = theirs.drop (x role).replica.backlog.received)
    (hother : Pruned theirs mine (x role.other) (y role.other) ∧
      waiting role.other = mine.drop (x role.other).replica.backlog.received) :
    Shortened text waiting x y := by
  have hne : role.other ≠ role := by cases role <;> decide
  refine ⟨hreachable, fun r => if r = role then mine else theirs, fun r => ?_⟩
  rcases Decidable.em (r = role) with rfl | hr
  · simpa only [if_true, if_neg hne] using hrole
  · obtain rfl := Role.eq_other_of_ne hr
    simpa only [Role.other_other, if_true, if_neg hne] using hother

theorem start (hroomy : (Exchange.start text).Roomy) :
    Shortened text (fun _ => []) (.start text) (.start text) :=
  ⟨.start hroomy, fun _ => [], fun role => ⟨.start role text, rfl⟩⟩

theorem acknowledged_le_length (h : Shortened text waiting x y)
    (hpruned : Pruned mine theirs (x actor) (y actor)) :
    (x actor).replica.backlog.acknowledged ≤ mine.length :=
  hpruned.sent_eq ▸ (h.reachable.linked actor).acknowledged_le

/-- Somebody edits, in both runs unless the edit changes nothing. -/
theorem edit (h : Shortened text waiting x y) (hedit : x.desks.advance? (.edit actor e) = some z)
    (hroomy : z.Roomy) :
    ∃ x', z = desks x' ∧
      ((e.isNoop = false ∧ ∃ y', y.desks.advance? (.edit actor e) = some (desks y') ∧
          Shortened text (mark waiting (.edit actor e)).2 x' y') ∨
        (e.isNoop = true ∧ Shortened text (mark waiting (.edit actor e)).2 x' y)) := by
  have hne : actor.other ≠ actor := by cases actor <;> decide
  obtain ⟨u, s, hs, rfl⟩ := advance?_edit_eq_some_iff.1 hedit
  refine ⟨_, rfl, ?_⟩
  have hreachable := h.reachable.step (.edit hs) hroomy
  obtain ⟨history, hhistory⟩ := h.exists_history
  obtain ⟨hpruned, hwaiting⟩ := hhistory actor
  obtain ⟨hother, hwaiting'⟩ := hhistory actor.other
  rw [Role.other_other] at hother hwaiting'
  have hack := h.acknowledged_le_length hpruned
  have hreceived : s.replica.backlog.received = (x actor).replica.backlog.received := by
    obtain ⟨-, hregister, -⟩ := hs
    rw [(Backlog.register?_eq_some_iff.1 hregister).2.2]
  have hlater : ∀ b, waiting actor.other ++ [b] =
      (history actor ++ [b]).drop (x actor.other).replica.backlog.received := by
    intro b
    rw [hwaiting', List.drop_append_of_le_length hother.received_le]
  cases hnoop : e.isNoop with
  | false =>
      left
      obtain ⟨v, t, ht, hsame, hseen, hseen', hpruned'⟩ := hpruned.edit hack hs
      have hawaiting := hother.awaiting hsame (hseen ▸ hpruned.received_le)
        (by rw [hseen', hseen, hpruned.received_eq])
      refine ⟨rfl, _, advance?_edit_eq_some_iff.2 ⟨v, t, ht, rfl⟩, .of_role actor hreachable
        ⟨by simpa using hpruned', by simpa [mark, hreceived] using hwaiting⟩
        ⟨by simpa [hne] using hawaiting, ?_⟩⟩
      simpa [mark, hne, hnoop, Side.awaiting] using hlater true
  | true =>
      right
      obtain ⟨rfl, hseen, hpruned'⟩ := hpruned.edit_noop hack hs hnoop
      have hawaiting := hother.awaiting_noop hnoop (hseen ▸ hpruned.received_le)
      refine ⟨rfl, .of_role actor hreachable
        ⟨by simpa using hpruned', by simpa [mark, hreceived] using hwaiting⟩
        ⟨by simpa [hne] using hawaiting, ?_⟩⟩
      simpa [mark, hne, hnoop, Side.awaiting] using hlater false

/-- Somebody takes in the oldest update, in both runs if it is on the way in both. -/
theorem deliver (h : Shortened text waiting x y)
    (htake : x.desks.advance? (.deliver actor) = some z) (hroomy : z.Roomy) :
    ∃ x', z = desks x' ∧
      (((mark waiting (.deliver actor)).1 = true ∧ ∃ y',
          y.desks.advance? (.deliver actor) = some (desks y') ∧
          Shortened text (mark waiting (.deliver actor)).2 x' y') ∨
        ((mark waiting (.deliver actor)).1 = false ∧
          Shortened text (mark waiting (.deliver actor)).2 x' y)) := by
  have hne : actor.other ≠ actor := by cases actor <;> decide
  obtain ⟨u, s, hs, rfl⟩ := advance?_deliver_eq_some_iff.1 htake
  refine ⟨_, rfl, ?_⟩
  have hreachable := h.reachable.step (.deliver hs) hroomy
  obtain ⟨history, hhistory⟩ := h.exists_history
  obtain ⟨hpruned, hwaiting⟩ := hhistory actor
  obtain ⟨hother, hwaiting'⟩ := hhistory actor.other
  rw [Role.other_other] at hother hwaiting'
  have hreceived : s.replica.backlog.received = (x actor).replica.backlog.received + 1 := by
    obtain ⟨-, -, e, hreceive, -⟩ := hs
    obtain ⟨-, edits, -, hbacklog⟩ := Backlog.receive?_eq_some_iff.1 hreceive
    rw [hbacklog]
  obtain ⟨remains, marks, hmarks⟩ := hpruned.exists_drop_eq hs.1
  have hlater : (waiting actor).tail =
      (history actor.other).drop s.replica.backlog.received := by
    rw [hwaiting, hmarks, hreceived, (count_take_succ hmarks).2.1, List.tail_cons]
  have hlinked := h.reachable.linked actor
  have hroomy' := h.reachable.roomy actor
  cases remains with
  | true =>
      left
      obtain ⟨v, t, ht, hpruned'⟩ := hpruned.takeIn hlinked hroomy' hmarks hs
      refine ⟨by simp [mark, hwaiting, hmarks], _,
        advance?_deliver_eq_some_iff.2 ⟨v, t, ht, rfl⟩, .of_role actor hreachable
          ⟨by simpa using hpruned', by simpa [mark] using hlater⟩
          ⟨by simpa [hne] using hother, by simpa [mark, hne] using hwaiting'⟩⟩
  | false =>
      right
      have hpruned' := hpruned.takeIn_noop hlinked hroomy' hmarks hs
      exact ⟨by simp [mark, hwaiting, hmarks], .of_role actor hreachable
        ⟨by simpa using hpruned', by simpa [mark] using hlater⟩
        ⟨by simpa [hne] using hother, by simpa [mark, hne] using hwaiting'⟩⟩

/-- An action that remains is possible in both runs, and the texts stay the same; one that does
not remain changes nothing in the shorter run. -/
theorem advance (h : Shortened text waiting x y) {a : Action} (hstep : x.desks.advance? a = some z)
    (hroomy : z.Roomy) :
    ∃ x', z = desks x' ∧
      (((mark waiting a).1 = true ∧ ∃ y', y.desks.advance? a = some (desks y') ∧
          Shortened text (mark waiting a).2 x' y') ∨
        ((mark waiting a).1 = false ∧ Shortened text (mark waiting a).2 x' y)) := by
  cases a with
  | edit actor e => simpa [mark] using h.edit hstep hroomy
  | deliver actor => exact h.deliver hstep hroomy

theorem sameTexts (h : Shortened text waiting x y) : SameTexts x.desks y.desks := by
  obtain ⟨history, hhistory⟩ := h.exists_history
  exact fun role => (hhistory role).1.text_eq.symm

/-- What holds after one action holds after all of them. -/
theorem stages (h : Shortened text waiting x y) {actions : List Action} {later : List Desks}
    (hrun : x.desks.stages? actions = some later) (hroomy : ∀ z ∈ later, z.Roomy) :
    ∃ later', y.desks.stages? (keep (remaining waiting actions) actions) = some later' ∧
      List.Forall₂ SameTexts (keep (remaining waiting actions) later) later' := by
  induction actions generalizing waiting x y later with
  | nil =>
      cases hrun
      exact ⟨[], rfl, .nil⟩
  | cons a rest ih =>
      obtain ⟨z, hstep, later, hrest, rfl⟩ := Desks.stages?_cons_eq_some_iff.1 hrun
      obtain ⟨x', rfl, hnext⟩ := h.advance hstep (hroomy z List.mem_cons_self)
      have hroomy' := fun z hz => hroomy z (List.mem_cons_of_mem _ hz)
      rcases hnext with ⟨hmark, y', hstep', hnext⟩ | ⟨hmark, hnext⟩
      · obtain ⟨later', hrest', hsame⟩ := ih hnext hrest hroomy'
        rw [remaining, hmark, keep_cons_true, keep_cons_true]
        exact ⟨_, Desks.stages?_cons_eq_some_iff.2 ⟨_, hstep', _, hrest', rfl⟩,
          .cons hnext.sameTexts hsame⟩
      · rw [remaining, hmark, keep_cons_false, keep_cons_false]
        exact ih hnext hrest hroomy'

end Shortened

end Exchange

namespace Alternation

/-- Leave out of a run all edits that change nothing, and with each of them its update and the
delivery of that: all other actions are possible without them, and after each one both sides
hold the same texts as in the full run.

The texts of the full run that are to stay below 2 ^ 63 characters are those that the two sides
hold and those that outstanding edits apply to.  Nobody holds the latter; by
`Exchange.Within.stages_roomy` they stay below 2 ^ 63 as long as the former stay below 2 ^ 62. -/
theorem noops_are_transparent {text : Text} {actions : List Action} {later : List Desks}
    (hrun : (Desks.start .backlog text).stages? actions = some later)
    (hroomy : ∀ x ∈ Desks.start .backlog text :: later, x.Roomy) :
    ∃ later', (Desks.start .backlog text).stages? (keep (essential actions) actions) =
        some later' ∧
      List.Forall₂ SameTexts (keep (essential actions) later) later' := by
  have hstart : (Exchange.start text).Roomy := hroomy _ List.mem_cons_self
  exact (Exchange.Shortened.start hstart).stages hrun
    fun x hx => hroomy x (List.mem_cons_of_mem _ hx)

/-- Both sides insert at the same place while an edit that changes nothing is on the way, made
by the initiator, and another one, which alone acknowledges what the receiver inserted. -/
def crossedByNoops : List Action :=
  [.edit .initiator ⟨1, 0, []⟩, .edit .initiator ⟨1, 0, ['x']⟩, .edit .receiver ⟨1, 0, ['y']⟩,
    .deliver .initiator, .edit .initiator ⟨4, 0, []⟩,
    .deliver .receiver, .deliver .receiver, .deliver .receiver,
    .edit .receiver ⟨0, 1, []⟩, .deliver .initiator]

theorem noops_are_transparent_crossedByNoops :
    ∃ later later', (Desks.start .backlog ['a', 'b']).stages? crossedByNoops = some later ∧
      (Desks.start .backlog ['a', 'b']).stages?
        [.edit .initiator ⟨1, 0, ['x']⟩, .edit .receiver ⟨1, 0, ['y']⟩, .deliver .initiator,
          .deliver .receiver, .edit .receiver ⟨0, 1, []⟩, .deliver .initiator] = some later' ∧
      List.Forall₂ SameTexts (keep (essential crossedByNoops) later) later' ∧
      (later.map fun x => ((x .initiator).text, (x .receiver).text)).getLast? =
        some (['x', 'y', 'b'], ['x', 'y', 'b']) := by
  obtain ⟨later, hrun, hroomy, htexts⟩ : ∃ later,
      (Desks.start .backlog ['a', 'b']).stages? crossedByNoops = some later ∧
      (∀ x ∈ Desks.start .backlog ['a', 'b'] :: later, x.Roomy) ∧
      (later.map fun x => ((x .initiator).text, (x .receiver).text)).getLast? =
        some (['x', 'y', 'b'], ['x', 'y', 'b']) := ⟨_, rfl, by decide, rfl⟩
  obtain ⟨later', hrun', hsame⟩ := noops_are_transparent hrun hroomy
  exact ⟨later, later', hrun, hrun', hsame, htexts⟩

end Alternation

end PairEdit
