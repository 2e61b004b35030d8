import Mathlib.Data.List.Nodup
import PairEdit.Proofs.Replay

/-!
# Which characters an edit removes

One side has made several edits on a text, the other side one.  Carried past the several, the
one still removes what it was made to remove, as far as that is there, and no other character
of the text.  Of what was inserted meanwhile it removes what stands between two characters
that it was to remove when the insertion was made.

Characters are told apart by where they come from.  A text is accompanied by the list of these
origins, to which every edit does what it does to the text.
-/

namespace PairEdit

/-- Where a character comes from. -/
inductive Origin where
  /-- The text that both sides had, at a position. -/
  | base (position : Nat)
  /-- What a local edit inserted: the number of the edit, and a position in its insertion. -/
  | own (edit position : Nat)
  /-- What the arriving edit inserts, at a position. -/
  | remote (position : Nat)
deriving DecidableEq

/-- Whether the character was there before the local edit of a number. -/
def Origin.Before (number : Nat) : Origin → Prop
  | .base _ => True
  | .own edit _ => edit < number
  | .remote _ => False

namespace Edit

/-! ## One edit on a list -/

section Splice

variable {α β : Type} {e : Edit} {fresh xs : List α} {a : α} {n : Nat}

/-- What the edit makes of a list when it inserts `fresh`. -/
def splice (e : Edit) (fresh xs : List α) : List α :=
  xs.take e.pos ++ (fresh ++ xs.drop (e.pos + e.del))

/-- What the edit removes from a list. -/
def removed (e : Edit) (xs : List α) : List α := (xs.drop e.pos).take e.del

/-- The edit removes what stands at the position. -/
def Reaches (e : Edit) (n : Nat) : Prop := e.pos ≤ n ∧ n < e.pos + e.del

theorem after_eq_splice (e : Edit) (text : Text) : e.after text = e.splice e.ins text := rfl

theorem map_splice (f : α → β) : (e.splice fresh xs).map f = e.splice (fresh.map f) (xs.map f) := by
  simp only [splice, List.map_append, List.map_take, List.map_drop]

theorem length_splice (hfit : e.pos + e.del ≤ xs.length) :
    (e.splice fresh xs).length + e.del = xs.length + fresh.length := by
  simp only [splice, List.length_append, List.length_take, List.length_drop]
  omega

theorem getElem?_splice_before (hn : n < e.pos) (hfit : e.pos ≤ xs.length) :
    (e.splice fresh xs)[n]? = xs[n]? := by
  rw [splice, List.getElem?_append_left (by simp; omega), List.getElem?_take_of_lt hn]

theorem getElem?_splice_within (hn : n < fresh.length) (hfit : e.pos ≤ xs.length) :
    (e.splice fresh xs)[e.pos + n]? = fresh[n]? := by
  have hlen : (xs.take e.pos).length = e.pos := by simp; omega
  rw [splice, List.getElem?_append_right (by omega), hlen, Nat.add_sub_cancel_left,
    List.getElem?_append_left hn]

theorem getElem?_splice_behind (hfit : e.pos ≤ xs.length) :
    (e.splice fresh xs)[e.pos + fresh.length + n]? = xs[e.pos + e.del + n]? := by
  have hlen : (xs.take e.pos).length = e.pos := by simp; omega
  rw [splice, List.getElem?_append_right (by omega), hlen,
    List.getElem?_append_right (by omega), List.getElem?_drop]
  congr 1
  omega

/-- Where a member stands: before the removed range, in what was inserted, or behind. -/
theorem cases_of_getElem?_splice (hfit : e.pos ≤ xs.length)
    (hn : (e.splice fresh xs)[n]? = some a) :
    (n < e.pos ∧ xs[n]? = some a) ∨ (∃ m, n = e.pos + m ∧ fresh[m]? = some a) ∨
      ∃ m, n = e.pos + fresh.length + m ∧ xs[e.pos + e.del + m]? = some a := by
  rcases Nat.lt_or_ge n e.pos with hlt | hge
  · rw [getElem?_splice_before hlt hfit] at hn
    exact .inl ⟨hlt, hn⟩
  · obtain ⟨m, rfl⟩ := Nat.exists_eq_add_of_le hge
    rcases Nat.lt_or_ge m fresh.length with hlt | hge
    · rw [getElem?_splice_within hlt hfit] at hn
      exact .inr (.inl ⟨m, rfl, hn⟩)
    · obtain ⟨m, rfl⟩ := Nat.exists_eq_add_of_le hge
      rw [← Nat.add_assoc, getElem?_splice_behind hfit] at hn
      exact .inr (.inr ⟨m, by omega, hn⟩)

theorem mem_removed_iff : a ∈ e.removed xs ↔ ∃ n, e.Reaches n ∧ xs[n]? = some a := by
  rw [removed, List.mem_iff_getElem?]
  constructor
  · rintro ⟨n, hn⟩
    have hlt : n < e.del := by
      have hlt := (List.getElem?_eq_some_iff.1 hn).1
      rw [List.length_take] at hlt
      omega
    rw [List.getElem?_take_of_lt hlt, List.getElem?_drop] at hn
    exact ⟨e.pos + n, ⟨by omega, by omega⟩, hn⟩
  · rintro ⟨n, ⟨hle, hlt⟩, hn⟩
    refine ⟨n - e.pos, ?_⟩
    rw [List.getElem?_take_of_lt (by omega), List.getElem?_drop, Nat.add_sub_cancel' hle]
    exact hn

theorem take_append_removed (e : Edit) (xs : List α) :
    xs.take e.pos ++ (e.removed xs ++ xs.drop (e.pos + e.del)) = xs := by
  rw [removed, ← List.drop_drop, List.take_append_drop, List.take_append_drop]

theorem removed_subset (e : Edit) (xs : List α) : e.removed xs ⊆ xs :=
  fun _ ha => List.mem_of_mem_drop (List.mem_of_mem_take ha)

theorem mem_or_mem_of_mem_splice (ha : a ∈ e.splice fresh xs) : a ∈ fresh ∨ a ∈ xs := by
  rcases List.mem_append.1 ha with ha | ha
  · exact .inr (List.mem_of_mem_take ha)
  · exact (List.mem_append.1 ha).imp_right List.mem_of_mem_drop

/-- After the edit a list has what was inserted, and what it had and was not removed. -/
theorem mem_splice_iff (hnodup : xs.Nodup) :
    a ∈ e.splice fresh xs ↔ a ∈ fresh ∨ (a ∈ xs ∧ a ∉ e.removed xs) := by
  have hsplit := take_append_removed e xs
  rw [← hsplit, List.nodup_append, List.nodup_append] at hnodup
  obtain ⟨-, ⟨-, -, hbehind⟩, hbefore⟩ := hnodup
  have hmem : a ∈ xs ↔ a ∈ xs.take e.pos ∨ a ∈ e.removed xs ∨ a ∈ xs.drop (e.pos + e.del) := by
    rw [← List.mem_append, ← List.mem_append, hsplit]
  rw [hmem, splice, List.mem_append, List.mem_append]
  have hsame : ∀ b ∈ e.removed xs, b ≠ a ∨ (a ∉ xs.take e.pos ∧ a ∉ xs.drop (e.pos + e.del)) := by
    intro b hb
    by_cases hba : b = a
    · subst hba
      exact .inr ⟨fun h => hbefore b h b (List.mem_append_left _ hb) rfl,
        fun h => hbehind b hb b h rfl⟩
    · exact .inl hba
  grind

theorem nodup_splice (hnodup : xs.Nodup) (hfresh : fresh.Nodup) (hnew : ∀ a ∈ fresh, a ∉ xs) :
    (e.splice fresh xs).Nodup := by
  have hsplit := take_append_removed e xs
  have hrest : (xs.take e.pos ++ xs.drop (e.pos + e.del)).Nodup := by
    rw [← hsplit] at hnodup
    exact hnodup.sublist ((List.Sublist.refl _).append (List.sublist_append_right ..))
  rw [List.nodup_append] at hrest
  have hback := fun a (ha : a ∈ xs.drop (e.pos + e.del)) => List.mem_of_mem_drop ha
  have hfront := fun a (ha : a ∈ xs.take e.pos) => List.mem_of_mem_take ha
  rw [splice, List.nodup_append, List.nodup_append]
  refine ⟨hrest.1, ⟨hfresh, hrest.2.1, ?_⟩, ?_⟩
  · rintro a ha b hb rfl
    exact hnew a ha (hback a hb)
  · rintro a ha b hb rfl
    rcases List.mem_append.1 hb with hb | hb
    · exact hnew a hb (hfront a ha)
    · exact hrest.2.2 a ha a hb rfl

end Splice

/-! ## One edit past another -/

section Transform

variable {α : Type} {own remote : Edit} {fresh xs : List α} {a : α} {n : Nat} (p : Priority)

/-- Before the other edit, the same positions are reached. -/
theorem reaches_transform_before (hso : own.stop = own.pos + own.del)
    (hsr : remote.stop = remote.pos + remote.del) (hn : n < own.pos) :
    (remote.transform own p).Reaches n ↔ remote.Reaches n := by
  unfold transform Reaches
  simp only [hso, hsr]
  grind

/-- The other edit's insertion is reached if that edit lies strictly inside. -/
theorem reaches_transform_within (hso : own.stop = own.pos + own.del)
    (hsr : remote.stop = remote.pos + remote.del) (hn : n < own.ins.length) :
    (remote.transform own p).Reaches (own.pos + n) ↔ own.Inside remote := by
  unfold transform Reaches Inside
  simp only [hso, hsr]
  grind

/-- Behind the other edit, the positions are those that were reached before it. -/
theorem reaches_transform_behind (hso : own.stop = own.pos + own.del)
    (hsr : remote.stop = remote.pos + remote.del) :
    (remote.transform own p).Reaches (own.pos + own.ins.length + n) ↔
      remote.Reaches (own.pos + own.del + n) := by
  unfold transform Reaches
  simp only [hso, hsr]
  grind

theorem ins_transform (remote own : Edit) :
    (remote.transform own p).ins = remote.ins ∨ (remote.transform own p).ins = [] := by
  unfold transform
  grind

/-- Of what was there before the other edit and is still there, the same is removed. -/
theorem mem_removed_transform_iff (hnodup : xs.Nodup) (hfit : own.pos ≤ xs.length)
    (hso : own.stop = own.pos + own.del) (hsr : remote.stop = remote.pos + remote.del)
    (hlen : fresh.length = own.ins.length) (hold : a ∉ fresh) (ha : a ∈ own.splice fresh xs) :
    a ∈ (remote.transform own p).removed (own.splice fresh xs) ↔ a ∈ remote.removed xs := by
  rw [mem_removed_iff, mem_removed_iff]
  constructor
  · rintro ⟨n, hreaches, hn⟩
    rcases cases_of_getElem?_splice hfit hn with ⟨hlt, hn⟩ | ⟨m, rfl, hm⟩ | ⟨m, rfl, hm⟩
    · exact ⟨n, (reaches_transform_before p hso hsr hlt).1 hreaches, hn⟩
    · exact absurd (List.mem_of_getElem? hm) hold
    · rw [hlen] at hreaches
      exact ⟨_, (reaches_transform_behind p hso hsr).1 hreaches, hm⟩
  · rintro ⟨i, hreaches, hi⟩
    have hunique : ∀ j, xs[j]? = some a → j = i := fun j hj =>
      (List.getElem?_inj (List.getElem?_eq_some_iff.1 hj).1 hnodup).1 (hj.trans hi.symm)
    obtain ⟨n, hn⟩ := List.mem_iff_getElem?.1 ha
    refine ⟨n, ?_, hn⟩
    rcases cases_of_getElem?_splice hfit hn with ⟨hlt, hn⟩ | ⟨m, rfl, hm⟩ | ⟨m, rfl, hm⟩
    · exact (reaches_transform_before p hso hsr hlt).2 (hunique n hn ▸ hreaches)
    · exact absurd (List.mem_of_getElem? hm) hold
    · rw [hlen]
      exact (reaches_transform_behind p hso hsr).2 (hunique _ hm ▸ hreaches)

/-- What the other edit inserts is removed only if that edit lies strictly inside. -/
theorem inside_of_mem_removed_transform (hfit : own.pos ≤ xs.length)
    (hso : own.stop = own.pos + own.del) (hsr : remote.stop = remote.pos + remote.del)
    (hlen : fresh.length = own.ins.length) (hnew : a ∉ xs)
    (ha : a ∈ (remote.transform own p).removed (own.splice fresh xs)) : own.Inside remote := by
  obtain ⟨n, hreaches, hn⟩ := mem_removed_iff.1 ha
  rcases cases_of_getElem?_splice hfit hn with ⟨-, hn⟩ | ⟨m, rfl, hm⟩ | ⟨m, rfl, hm⟩
  · exact absurd (List.mem_of_getElem? hn) hnew
  · have hlt := (List.getElem?_eq_some_iff.1 hm).1
    exact (reaches_transform_within p hso hsr (hlen ▸ hlt)).1 hreaches
  · exact absurd (List.mem_of_getElem? hm) hnew

/-- The insertion of `own` stands between two members that `remote` was to remove. -/
def Encloses (remote own : Edit) (fresh xs : List α) : Prop :=
  ∃ before after, ((own.splice fresh xs).take own.pos).getLast? = some before ∧
    ((own.splice fresh xs).drop (own.pos + fresh.length)).head? = some after ∧
    before ∈ remote.removed xs ∧ after ∈ remote.removed xs

theorem encloses_of_inside (hinside : own.Inside remote) (hso : own.stop = own.pos + own.del)
    (hsr : remote.stop = remote.pos + remote.del)
    (hfit : remote.pos + remote.del ≤ xs.length) : Encloses remote own fresh xs := by
  obtain ⟨hpos, hstop⟩ := hinside
  have hbefore : own.pos - 1 < xs.length := by omega
  have hafter : own.pos + own.del < xs.length := by omega
  refine ⟨xs[own.pos - 1], xs[own.pos + own.del], ?_, ?_, ?_, ?_⟩
  · have hlen : (own.splice fresh xs).length + own.del = xs.length + fresh.length :=
      length_splice (by omega)
    rw [List.getLast?_eq_getElem?, List.length_take_of_le (by omega),
      List.getElem?_take_of_lt (by omega), getElem?_splice_before (by omega) (by omega),
      List.getElem?_eq_getElem hbefore]
  · rw [List.head?_drop, ← Nat.add_zero (own.pos + fresh.length),
      getElem?_splice_behind (by omega), Nat.add_zero, List.getElem?_eq_getElem hafter]
  · exact mem_removed_iff.2 ⟨_, ⟨by omega, by omega⟩, List.getElem?_eq_getElem hbefore⟩
  · exact mem_removed_iff.2 ⟨_, ⟨by omega, by omega⟩, List.getElem?_eq_getElem hafter⟩

end Transform

end Edit

/-! ## The origins of a text -/

/-- The origins of what an edit inserts. -/
def Edit.origins (number : Nat) (e : Edit) : List Origin :=
  (List.range e.ins.length).map (.own number)

/-- The origins after edits that are counted from a number. -/
def Origin.after (number : Nat) (origins : List Origin) : List Edit → List Origin
  | [] => origins
  | e :: rest => Origin.after (number + 1) (e.splice (e.origins number) origins) rest

/-- The origins of what edits make of a text of a length. -/
def lineage (length : Nat) (edits : List Edit) : List Origin :=
  Origin.after 0 ((List.range length).map .base) edits

/-- The character of an origin. -/
def Origin.spell? (base : Text) (edits : List Edit) (arriving : Text) : Origin → Option Char
  | .base position => base[position]?
  | .own number position => edits[number]?.bind fun e => e.ins[position]?
  | .remote position => arriving[position]?

open Edit

@[simp]
theorem Edit.length_origins (number : Nat) (e : Edit) :
    (e.origins number).length = e.ins.length := by
  simp [Edit.origins]

theorem Origin.Before.mono {o : Origin} {number number' : Nat} (h : o.Before number)
    (hle : number ≤ number') : o.Before number' := by
  cases o with
  | base => trivial
  | own => exact Nat.lt_of_lt_of_le h hle
  | remote => exact h

theorem Origin.Before.not_mem_origins {o : Origin} {number : Nat} (h : o.Before number)
    (e : Edit) : o ∉ e.origins number := by
  intro hmem
  obtain ⟨position, -, rfl⟩ := List.mem_map.1 hmem
  exact Nat.lt_irrefl _ h

/-- A text that some local edits have led to, and the origins of its characters. -/
structure Tells (spell? : Origin → Option Char) (number : Nat) (origins : List Origin)
    (text : Text) : Prop where
  nodup : origins.Nodup
  before : ∀ o ∈ origins, o.Before number
  spelled : origins.map spell? = text.map some

theorem map_spell?_range {α : Type} (xs : List α) :
    (List.range xs.length).map (fun n => xs[n]?) = xs.map some := by
  refine List.ext_getElem (by simp) fun n hn hn' => ?_
  simp at hn
  simp [hn]

namespace Tells

variable {spell? : Origin → Option Char} {number : Nat} {origins : List Origin}
variable {text next final : Text} {e : Edit} {edits : List Edit} {o : Origin}

theorem length_eq (h : Tells spell? number origins text) : origins.length = text.length := by
  simpa using congrArg List.length h.spelled

/-- One more edit. -/
theorem apply (h : Tells spell? number origins text) (happly : e.apply text = .ok next)
    (hspell : ∀ position, spell? (.own number position) = e.ins[position]?) :
    Tells spell? (number + 1) (e.splice (e.origins number) origins) next where
  nodup := by
    refine nodup_splice h.nodup (List.nodup_range.map ?_) fun o ho hmem =>
      (h.before o hmem).not_mem_origins e ho
    intro a b hab
    cases hab
    rfl
  before := by
    intro o ho
    rcases (mem_splice_iff h.nodup).1 ho with hmem | ⟨hmem, -⟩
    · obtain ⟨position, -, rfl⟩ := List.mem_map.1 hmem
      exact Nat.lt_succ_self number
    · exact (h.before o hmem).mono (Nat.le_succ number)
  spelled := by
    obtain ⟨-, -, rfl⟩ := apply_eq_ok_iff.1 happly
    have horigins : (e.origins number).map spell? = e.ins.map some := by
      rw [← map_spell?_range, Edit.origins, List.map_map]
      exact List.map_congr_left fun position _ => hspell position
    rw [map_splice, horigins, h.spelled, after_eq_splice, map_splice]

/-- The origins after all edits. -/
theorem applyAll (h : Tells spell? number origins text)
    (happly : Edit.applyAll edits text = .ok final)
    (hspell : ∀ n position, spell? (.own (number + n) position) =
      edits[n]?.bind fun e => e.ins[position]?) :
    Tells spell? (number + edits.length) (Origin.after number origins edits) final := by
  induction edits generalizing number origins text with
  | nil =>
      cases happly
      exact h
  | cons e rest ih =>
      obtain ⟨next, hnext, hrest⟩ := applyAll_cons_eq_ok_iff.1 happly
      have hnext := h.apply hnext fun position => by simpa using hspell 0 position
      rw [List.length_cons, Nat.add_comm rest.length, ← Nat.add_assoc]
      refine ih hnext hrest fun n position => ?_
      have hlater := hspell (n + 1) position
      rwa [List.getElem?_cons_succ, Nat.add_comm n, ← Nat.add_assoc] at hlater

theorem start (base : Text) (edits : List Edit) (arriving : Text) :
    Tells (Origin.spell? base edits arriving) 0 ((List.range base.length).map .base) base where
  nodup := List.nodup_range.map fun a b hab => by
    cases hab
    rfl
  before := by
    intro o ho
    obtain ⟨position, -, rfl⟩ := List.mem_map.1 ho
    trivial
  spelled := by
    rw [← map_spell?_range base, List.map_map]
    rfl

end Tells

/-! ## An edit past a list of edits -/

/-- Later edits bring nothing that was there before. -/
theorem Origin.Before.mem_of_mem_after {o : Origin} {number : Nat} {origins : List Origin}
    {edits : List Edit} (h : o.Before number) (ho : o ∈ Origin.after number origins edits) :
    o ∈ origins := by
  induction edits generalizing number origins with
  | nil => exact ho
  | cons e rest ih =>
      have hmem := ih (h.mono (Nat.le_succ number)) ho
      exact (mem_or_mem_of_mem_splice hmem).resolve_left (h.not_mem_origins e)

/-- When the local edit of a number was made, its insertion stood between two characters that
the arriving edit, carried past the edits before it, was to remove. -/
def Swallowed (priority : Priority) (remote : Edit) (first : Nat) (origins : List Origin)
    (edits : List Edit) (number : Nat) : Prop :=
  ∃ front own back remote' passed, edits = front ++ own :: back ∧
    number = first + front.length ∧
    Backlog.pass? priority remote front = some (remote', passed) ∧
    remote'.Encloses own (own.origins number) (Origin.after first origins front)

/-- What an edit that has passed others does to the characters in front of it. -/
structure Spares (priority : Priority) (remote : Edit) (first : Nat) (origins : List Origin)
    (edits : List Edit) (adjusted : Edit) : Prop where
  removed_iff : ∀ o : Origin, o.Before first → o ∈ Origin.after first origins edits →
    (o ∈ adjusted.removed (Origin.after first origins edits) ↔ o ∈ remote.removed origins)
  swallowed : ∀ number position, first ≤ number →
    .own number position ∈ adjusted.removed (Origin.after first origins edits) →
      Swallowed priority remote first origins edits number
  ins_eq : adjusted.ins = remote.ins ∨ adjusted.ins = []

variable {priority : Priority} {own own' remote remote' adjusted : Edit} {first number : Nat}
variable {origins : List Origin} {rest edits passed : List Edit} {text next mid final : Text}
variable {spell? : Origin → Option Char}

/-- What is swallowed by an edit that has passed the first local one. -/
theorem Swallowed.cons (hremote : remote.transform? own priority = some remote')
    (hown : own.transform? remote priority.opposite = some own')
    (h : Swallowed priority remote' (first + 1) (own.splice (own.origins first) origins) rest
      number) : Swallowed priority remote first origins (own :: rest) number := by
  obtain ⟨front, own'', back, remote'', passed, rfl, rfl, hfront, hencloses⟩ := h
  refine ⟨own :: front, own'', back, remote'', own' :: passed, rfl, ?_, ?_, hencloses⟩
  · rw [List.length_cons]
    omega
  · rw [Backlog.pass?_cons hremote hown, hfront]
    rfl

/-- An edit that has passed nothing. -/
theorem Spares.nil (h : Tells spell? first origins text) :
    Spares priority remote first origins [] remote where
  removed_iff _ _ _ := Iff.rfl
  swallowed _ _ hle hmem :=
    absurd (h.before _ (removed_subset _ _ hmem)) (Nat.not_lt.2 hle)
  ins_eq := .inl rfl

/-- An edit that has passed the first local one, and then the others. -/
theorem Spares.cons (h : Tells spell? first origins text) (happly : own.apply text = .ok next)
    (hfits : remote.apply text = .ok mid)
    (hremote : remote.transform? own priority = some remote')
    (hown : own.transform? remote priority.opposite = some own')
    (hrest : Spares priority remote' (first + 1) (own.splice (own.origins first) origins) rest
      adjusted) : Spares priority remote first origins (own :: rest) adjusted := by
  obtain rfl := eq_of_transform? _ hremote
  obtain ⟨hwo, hfo, -⟩ := apply_eq_ok_iff.1 happly
  obtain ⟨hwr, hfr, -⟩ := apply_eq_ok_iff.1 hfits
  have hso := stop_of_le hwo
  have hsr := stop_of_le hwr
  have hfit : own.pos ≤ origins.length := by
    rw [h.length_eq]
    omega
  have hlen := length_origins first own
  refine ⟨?_, ?_, ?_⟩
  · intro o hbefore ho
    have hlater := hbefore.mono (Nat.le_succ first)
    calc o ∈ adjusted.removed (Origin.after first origins (own :: rest))
        ↔ o ∈ (remote.transform own priority).removed
            (own.splice (own.origins first) origins) := hrest.removed_iff o hlater ho
      _ ↔ o ∈ remote.removed origins :=
          mem_removed_transform_iff priority h.nodup hfit hso hsr hlen
            (hbefore.not_mem_origins own) (hlater.mem_of_mem_after ho)
  · intro number position hle hmem
    rcases Nat.eq_or_lt_of_le hle with rfl | hlt
    · have hlater : (Origin.own first position).Before (first + 1) := Nat.lt_succ_self first
      have hmem' := (hrest.removed_iff _ hlater (removed_subset _ _ hmem)).1 hmem
      have hnew : Origin.own first position ∉ origins := fun hold =>
        Nat.lt_irrefl _ (h.before _ hold)
      have hinside := inside_of_mem_removed_transform priority hfit hso hsr hlen hnew hmem'
      exact ⟨[], own, rest, remote, [], rfl, rfl, rfl,
        encloses_of_inside hinside hso hsr (h.length_eq ▸ hfr)⟩
    · exact (hrest.swallowed number position hlt hmem).cons hremote hown
  · rcases hrest.ins_eq with hins | hins
    · rw [hins]
      exact ins_transform priority remote own
    · exact .inr hins

theorem Tells.spares (h : Tells spell? first origins text)
    (hedits : Edit.applyAll edits text = .ok final)
    (hspell : ∀ n position, spell? (.own (first + n) position) =
      edits[n]?.bind fun e => e.ins[position]?)
    (hremote : remote.apply text = .ok mid) (hroomy : Roomy final.length edits)
    (hpass : Backlog.pass? priority remote edits = some (adjusted, passed)) :
    Spares priority remote first origins edits adjusted := by
  induction edits generalizing remote first origins text mid passed with
  | nil =>
      cases hpass
      exact .nil h
  | cons own rest ih =>
      obtain ⟨next, hnext, hrest⟩ := applyAll_cons_eq_ok_iff.1 hedits
      obtain ⟨remote', own', rest', htransform, hown, hpass', rfl⟩ :=
        Backlog.pass?_cons_eq_some_iff.1 hpass
      have hlen := length_eq_lengthBefore hrest ▸ hroomy.2.lengthBefore_le
      obtain ⟨_, htransform', happly, -⟩ := apply_transform? priority hnext hremote
        (Nat.le_trans hlen (by decide))
      cases htransform.symm.trans htransform'
      refine .cons h hnext hremote htransform hown
        (ih (h.apply hnext fun position => by simpa using hspell 0 position) hrest ?_ happly
          hroomy.2 hpass')
      intro n position
      have hlater := hspell (n + 1) position
      rwa [List.getElem?_cons_succ, Nat.add_comm n, ← Nat.add_assoc] at hlater

/-- The origins of the local text, with what the adjusted edit inserts. -/
def Edit.arrive (adjusted : Edit) (origins : List Origin) : List Origin :=
  adjusted.splice ((List.range adjusted.ins.length).map .remote) origins

/-- What the adjusted edit does to the characters of the local text `final`. -/
structure Precise (priority : Priority) (base : Text) (edits : List Edit) (remote : Edit)
    (final : Text) (adjusted : Edit) (result : Text) : Prop where
  /-- All characters are told apart. -/
  nodup : (lineage base.length edits).Nodup
  /-- Each origin stands for the character of the text. -/
  spelled : (lineage base.length edits).map (Origin.spell? base edits remote.ins) =
    final.map some
  /-- So it does after the adjusted edit. -/
  spelled_result : (adjusted.arrive (lineage base.length edits)).map
    (Origin.spell? base edits remote.ins) = result.map some
  /-- Of the characters of the base text that are still there, exactly those that the edit was
  made to remove disappear. -/
  base_removed_iff : ∀ position, .base position ∈ lineage base.length edits →
    (.base position ∉ adjusted.arrive (lineage base.length edits) ↔
      .base position ∈ remote.removed (lineage base.length []))
  /-- What a local edit has inserted disappears only if it was swallowed. -/
  swallowed_of_removed : ∀ number position, .own number position ∈ lineage base.length edits →
    .own number position ∉ adjusted.arrive (lineage base.length edits) →
      Swallowed priority remote 0 (lineage base.length []) edits number
  /-- The insertion arrives as it was made, or not at all. -/
  ins_eq : adjusted.ins = remote.ins ∨ adjusted.ins = []

theorem map_arrive (hspelled : origins.map spell? = final.map some)
    (hspell : ∀ position, spell? (.remote position) = remote.ins[position]?)
    (hins : adjusted.ins = remote.ins ∨ adjusted.ins = []) :
    (adjusted.arrive origins).map spell? = (adjusted.after final).map some := by
  have harriving : ((List.range adjusted.ins.length).map Origin.remote).map spell? =
      adjusted.ins.map some := by
    rcases hins with hins | hins
    · rw [← map_spell?_range, hins, List.map_map]
      exact List.map_congr_left fun position _ => hspell position
    · rw [hins]
      rfl
  rw [Edit.arrive, map_splice, harriving, hspelled, after_eq_splice, map_splice]

theorem not_mem_arrive_iff (hnodup : origins.Nodup) {o : Origin} (ho : o ∈ origins)
    (hbefore : o.Before number) : o ∉ adjusted.arrive origins ↔ o ∈ adjusted.removed origins := by
  have hnew : o ∉ (List.range adjusted.ins.length).map Origin.remote := by
    intro hmem
    obtain ⟨position, -, rfl⟩ := List.mem_map.1 hmem
    exact hbefore
  rw [Edit.arrive, mem_splice_iff hnodup]
  tauto

/-- Several edits have been made on a text one after another, and another edit fits that text.
Carried past the several, whatever the priority, it removes of the text all that it was made to
remove and nothing else, of what they inserted only what they put into its range, and it inserts
what it was made to insert, or nothing. -/
theorem no_collateral_deletion (priority : Priority) {base mid final : Text} {edits : List Edit}
    {remote : Edit} (hedits : Edit.applyAll edits base = .ok final)
    (hremote : remote.apply base = .ok mid) (hroomy : Roomy final.length edits)
    (hins : remote.ins.length ≤ Word.maxSigned) :
    ∃ adjusted passed result, Backlog.pass? priority remote edits = some (adjusted, passed) ∧
      adjusted.apply final = .ok result ∧
      Precise priority base edits remote final adjusted result := by
  obtain ⟨adjusted, passed, result, hpass, hresult, -, -⟩ :=
    Backlog.exists_pass? priority hremote hedits hroomy hins
  have hstart := Tells.start base edits remote.ins
  have hspell : ∀ n position, Origin.spell? base edits remote.ins (.own (0 + n) position) =
      edits[n]?.bind fun e => e.ins[position]? := by
    intro n position
    rw [Nat.zero_add]
    rfl
  have hfinal : Tells _ _ (lineage base.length edits) final := hstart.applyAll hedits hspell
  have hspares : Spares priority remote 0 (lineage base.length []) edits adjusted :=
    hstart.spares hedits hspell hremote hroomy hpass
  refine ⟨adjusted, passed, result, hpass, hresult, {
    nodup := hfinal.nodup
    spelled := hfinal.spelled
    spelled_result := ?_
    base_removed_iff := ?_
    swallowed_of_removed := ?_
    ins_eq := hspares.ins_eq }⟩
  · obtain ⟨-, -, rfl⟩ := apply_eq_ok_iff.1 hresult
    exact map_arrive hfinal.spelled (fun _ => rfl) hspares.ins_eq
  · intro position hmem
    rw [not_mem_arrive_iff hfinal.nodup hmem (hfinal.before _ hmem)]
    exact hspares.removed_iff _ trivial hmem
  · intro number position hmem hremoved
    rw [not_mem_arrive_iff hfinal.nodup hmem (hfinal.before _ hmem)] at hremoved
    exact hspares.swallowed number position (Nat.zero_le number) hremoved

/-- Meanwhile something was inserted into the range to be removed, and into that insertion, and
both disappear; what was put behind the range stays. -/
theorem no_collateral_deletion_nested :
    let base : Text := ['a', 'b', 'c', 'd', 'e', 'f']
    let edits : List Edit := [⟨2, 0, ['X', 'Y']⟩, ⟨3, 0, ['Z']⟩, ⟨0, 1, []⟩, ⟨6, 0, ['Q']⟩]
    let final : Text := ['b', 'X', 'Z', 'Y', 'c', 'd', 'Q', 'e', 'f']
    let remote : Edit := ⟨1, 3, ['R']⟩
    (Edit.applyAll edits base = .ok final ∧ remote.apply base = .ok ['a', 'R', 'e', 'f'] ∧
      Roomy final.length edits ∧ remote.ins.length ≤ Word.maxSigned) ∧
    ∃ adjusted passed result, Backlog.pass? .localFirst remote edits = some (adjusted, passed) ∧
      adjusted.apply final = .ok result ∧ result = ['R', 'Q', 'e', 'f'] ∧
      Precise .localFirst base edits remote final adjusted result := by
  intro base edits final remote
  have hroomy : Roomy final.length edits := by decide
  obtain ⟨adjusted, passed, result, hpass, hresult, hprecise⟩ :=
    @no_collateral_deletion .localFirst base _ final edits remote rfl rfl hroomy (by decide)
  have hadjusted : adjusted = ⟨0, 6, ['R']⟩ := by
    cases hpass
    rfl
  refine ⟨⟨rfl, rfl, hroomy, by decide⟩, adjusted, passed, result, hpass, hresult, ?_, hprecise⟩
  subst hadjusted
  cases hresult
  rfl

end PairEdit
