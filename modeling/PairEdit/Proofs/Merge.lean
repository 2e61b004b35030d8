import PairEdit.Edit.Transform

/-!
# Merging two concurrent edits

Two edits fit one text.  Whichever of them is carried out first, the other one,
transformed past it, leads to the same text, and that text is known: both
insertions stand in it, in the order of the removed ranges, around what neither
edit removes.  Only an edit whose range lies strictly inside the other one's is
lost.
-/

namespace PairEdit.Edit

/-! ## One edit -/

/-- The text that an edit makes of one it fits. -/
def after (e : Edit) (text : Text) : Text :=
  text.take e.pos ++ (e.ins ++ text.drop (e.pos + e.del))

theorem checkBounds_eq_ok_iff {e : Edit} {len : Nat} :
    e.checkBounds len = .ok () ↔ e.pos + e.del ≤ Word.max ∧ e.pos + e.del ≤ len := by
  by_cases hword : e.pos + e.del ≤ Word.max
  · by_cases hlen : e.pos + e.del ≤ len <;>
      simp [checkBounds, checkStructure, stop_of_le, hword, hlen, bind, Except.bind]
  · simp [checkBounds, checkStructure, hword, bind, Except.bind]

theorem apply_eq_ok_iff {e : Edit} {text text' : Text} :
    e.apply text = .ok text' ↔
      e.pos + e.del ≤ Word.max ∧ e.pos + e.del ≤ text.length ∧ e.after text = text' := by
  rw [apply_eq]
  by_cases hword : e.pos + e.del ≤ Word.max
  · by_cases hlen : e.pos + e.del ≤ text.length <;> simp [hword, hlen, after]
  · simp [hword]

theorem length_ins_le_of_apply {e : Edit} {text text' : Text} (h : e.apply text = .ok text') :
    e.ins.length ≤ text'.length := by
  have hlen := length_of_apply h
  have hfit := (apply_eq_ok_iff.1 h).2.1
  omega

/-- An edit that changes nothing leaves the text as it is. -/
theorem eq_of_isNoop {e : Edit} {text text' : Text} (hnoop : e.isNoop = true)
    (h : e.apply text = .ok text') : text' = text := by
  obtain ⟨-, -, rfl⟩ := apply_eq_ok_iff.1 h
  simp only [isNoop, Bool.and_eq_true, beq_iff_eq, List.isEmpty_iff] at hnoop
  rw [after, hnoop.1, hnoop.2]
  simp

/-- The check by numbers and the walk over the text agree. -/
theorem apply_eq_ok_of_checkBounds {e : Edit} {text : Text}
    (h : e.checkBounds text.length = .ok ()) : e.apply text = .ok (e.after text) :=
  apply_eq_ok_iff.2 ⟨(checkBounds_eq_ok_iff.1 h).1, (checkBounds_eq_ok_iff.1 h).2, rfl⟩

theorem checkBounds_of_apply {e : Edit} {text text' : Text} (h : e.apply text = .ok text') :
    e.checkBounds text.length = .ok () :=
  checkBounds_eq_ok_iff.2 ⟨(apply_eq_ok_iff.1 h).1, (apply_eq_ok_iff.1 h).2.1⟩

theorem length_after {e : Edit} {text : Text} (h : e.pos + e.del ≤ text.length) :
    (e.after text).length + e.del = text.length + e.ins.length := by
  simp only [after, List.length_append, List.length_take, List.length_drop]
  omega

/-! ## Where things are after an edit -/

section Cuts

variable {e : Edit} {text : Text} {n : Nat}

theorem take_after_of_le (h : n ≤ e.pos) (hfit : e.pos ≤ text.length) :
    (e.after text).take n = text.take n := by
  rw [after, List.take_append_of_le_length (by simp; omega), List.take_take, Nat.min_eq_left h]

theorem drop_after_of_le (h : n ≤ e.pos) (hfit : e.pos ≤ text.length) :
    (e.after text).drop n =
      (text.take e.pos).drop n ++ (e.ins ++ text.drop (e.pos + e.del)) := by
  rw [after, List.drop_append_of_le_length (by simp; omega)]

theorem take_after_add (hfit : e.pos ≤ text.length) :
    (e.after text).take (e.pos + e.ins.length + n) =
      text.take e.pos ++ (e.ins ++ (text.drop (e.pos + e.del)).take n) := by
  have hhead : (text.take e.pos ++ e.ins).length = e.pos + e.ins.length := by simp; omega
  rw [after, ← List.append_assoc, ← hhead, List.take_length_add_append, List.append_assoc]

theorem drop_after_add (hfit : e.pos ≤ text.length) :
    (e.after text).drop (e.pos + e.ins.length + n) = text.drop (e.pos + e.del + n) := by
  have hhead : (text.take e.pos ++ e.ins).length = e.pos + e.ins.length := by simp; omega
  rw [after, ← List.append_assoc, ← hhead, List.drop_length_add_append, List.drop_drop]

end Cuts

/-! ## Two edits, one after the other -/

/-- The characters from position `i` up to position `j`; none, when `j` is not
behind `i`. -/
def between (text : Text) (i j : Nat) : Text := (text.take j).drop i

theorem between_eq_nil {text : Text} {i j : Nat} (h : j ≤ i) : between text i j = [] :=
  List.drop_eq_nil_of_le (by simp; omega)

section Twice

variable {e f : Edit} {text : Text}

/-- The second edit lies behind the insertion of the first one. -/
theorem after_after_of_behind {n : Nat} (hfit : e.pos + e.del ≤ text.length)
    (h : f.pos = e.pos + e.ins.length + n) :
    f.after (e.after text) =
      text.take e.pos ++ (e.ins ++ (between text (e.pos + e.del) (e.pos + e.del + n) ++
        (f.ins ++ text.drop (e.pos + e.del + n + f.del)))) := by
  have hbetween : (text.drop (e.pos + e.del)).take n =
      between text (e.pos + e.del) (e.pos + e.del + n) := by
    rw [between, List.drop_take, Nat.add_sub_cancel_left]
  have hend : e.pos + e.ins.length + n + f.del = e.pos + e.ins.length + (n + f.del) := by omega
  rw [after, h, take_after_add (by omega), hbetween, hend, drop_after_add (by omega)]
  simp only [List.append_assoc, Nat.add_assoc]

/-- The second edit lies before the insertion of the first one. -/
theorem after_after_of_before (hfit : e.pos + e.del ≤ text.length)
    (h : f.pos + f.del ≤ e.pos) :
    f.after (e.after text) =
      text.take f.pos ++ (f.ins ++ (between text (f.pos + f.del) e.pos ++
        (e.ins ++ text.drop (e.pos + e.del)))) := by
  rw [after, take_after_of_le (by omega) (by omega), drop_after_of_le h (by omega)]
  rfl

/-- The second edit removes the insertion of the first one, and `n` characters
behind it. -/
theorem after_after_of_over {n : Nat} (hfit : e.pos + e.del ≤ text.length)
    (hpos : f.pos ≤ e.pos) (h : f.pos + f.del = e.pos + e.ins.length + n) :
    f.after (e.after text) =
      text.take f.pos ++ (f.ins ++ text.drop (e.pos + e.del + n)) := by
  rw [after, take_after_of_le hpos (by omega), h, drop_after_add (by omega)]

end Twice

/-! ## The merged text -/

/-- The range of the edit lies strictly inside that of the other one. -/
def Inside (inner outer : Edit) : Prop := outer.pos < inner.pos ∧ inner.stop < outer.stop

instance (inner outer : Edit) : Decidable (Inside inner outer) :=
  inferInstanceAs (Decidable (_ ∧ _))

/-- Edits are ordered by where their ranges start, then by where they end; `p`
decides between equal ranges. -/
def Precedes (p : Priority) (a b : Edit) : Prop :=
  a.pos < b.pos ∨
    (a.pos = b.pos ∧ (a.stop < b.stop ∨ (a.stop = b.stop ∧ p = .localFirst)))

instance (p : Priority) (a b : Edit) : Decidable (Precedes p a b) :=
  inferInstanceAs (Decidable (_ ∨ _))

/-- Both insertions in order, with what lies between the ranges. -/
def inOrder (first second : Edit) (base : Text) : Text :=
  base.take first.pos ++ (first.ins ++ (between base first.stop second.pos ++
    (second.ins ++ base.drop (max first.stop second.stop))))

/-- What two concurrent edits make of a text together. -/
def merged (p : Priority) (a b : Edit) (base : Text) : Text :=
  if a.Inside b then base.take b.pos ++ (b.ins ++ base.drop b.stop)
  else if b.Inside a then base.take a.pos ++ (a.ins ++ base.drop a.stop)
  else if a.Precedes p b then inOrder a b base
  else inOrder b a base

theorem precedes_opposite {p : Priority} {a b : Edit} :
    b.Precedes p.opposite a ↔ ¬ a.Precedes p b := by
  cases p <;> simp only [Precedes, Priority.opposite, reduceCtorEq, and_false, and_true,
    or_false] <;> omega

/-- Both sides have the same merged text in mind. -/
theorem merged_opposite (p : Priority) (a b : Edit) (base : Text) :
    merged p.opposite b a base = merged p a b base := by
  unfold merged
  by_cases hab : a.Inside b
  · have hba : ¬ b.Inside a := fun h => by
      have := hab.1
      have := h.1
      omega
    simp [hab, hba]
  · by_cases hba : b.Inside a
    · simp [hab, hba]
    · by_cases hp : a.Precedes p b <;> simp [hab, hba, precedes_opposite, hp]

theorem merged_of_inside {p : Priority} {a b : Edit} {base : Text} (h : b.Inside a) :
    merged p a b base = base.take a.pos ++ (a.ins ++ base.drop a.stop) := by
  have hab : ¬ a.Inside b := fun hab => by
    have := hab.1
    have := h.1
    omega
  simp [merged, hab, h]

theorem merged_of_precedes {p : Priority} {a b : Edit} {base : Text} (h : a.Precedes p b)
    (hba : ¬ b.Inside a) : merged p a b base = inOrder a b base := by
  have hab : ¬ a.Inside b := fun hab => by
    have := hab.1
    unfold Precedes at h
    omega
  simp [merged, hab, hba, h]

/-! ## Transforming -/

section Transform

variable {base : Text} {a b : Edit} (p : Priority)

/-- An edit transformed past another one fits what the other one made, and makes
the merged text of it. -/
theorem transform_fits (ha : a.pos + a.del ≤ base.length) (hb : b.pos + b.del ≤ base.length)
    (hsa : a.stop = a.pos + a.del) (hsb : b.stop = b.pos + b.del) :
    (b.transform a p).pos + (b.transform a p).del ≤ (a.after base).length := by
  have hlen := length_after ha
  unfold transform
  simp only [hsa, hsb]
  grind

/-- The case of a transformed edit that comes to lie behind the insertion. -/
theorem after_eq_merged_of_behind {f : Edit} {n : Nat} (ha : a.pos + a.del ≤ base.length)
    (hsa : a.stop = a.pos + a.del) (hprec : a.Precedes p b) (hba : ¬ b.Inside a)
    (hpos : f.pos = a.pos + a.ins.length + n) (hins : f.ins = b.ins)
    (hn : a.stop + n = max a.stop b.pos) (hend : a.stop + n + f.del = max a.stop b.stop) :
    f.after (a.after base) = merged p a b base := by
  have hgap : between base a.stop (a.stop + n) = between base a.stop b.pos := by
    rcases Nat.le_total a.stop b.pos with h | h
    · rw [hn, Nat.max_eq_right h]
    · rw [between_eq_nil (by omega), between_eq_nil h]
  rw [merged_of_precedes hprec hba, inOrder, after_after_of_behind ha hpos, ← hsa, hgap, hend,
    hins]

/-- The case of a transformed edit that comes to lie before the insertion. -/
theorem after_eq_merged_of_before {f : Edit} (ha : a.pos + a.del ≤ base.length)
    (hsa : a.stop = a.pos + a.del) (hprec : ¬ a.Precedes p b) (hab : ¬ a.Inside b)
    (hpos : f.pos = b.pos) (hins : f.ins = b.ins) (hle : b.stop ≤ a.stop)
    (hend : f.pos + f.del = min b.stop a.pos) :
    f.after (a.after base) = merged p a b base := by
  have hgap : between base (f.pos + f.del) a.pos = between base b.stop a.pos := by
    rcases Nat.le_total b.stop a.pos with h | h
    · rw [hend, Nat.min_eq_left h]
    · rw [between_eq_nil (by omega), between_eq_nil h]
  rw [← merged_opposite, merged_of_precedes (precedes_opposite.2 hprec) hab, inOrder,
    after_after_of_before ha (by omega), hgap, hpos, hins, Nat.max_eq_right hle, hsa]

/-- The edit that comes second makes the merged text of what the first one made. -/
theorem after_transform (ha : a.pos + a.del ≤ base.length) (hsa : a.stop = a.pos + a.del)
    (hsb : b.stop = b.pos + b.del) :
    (b.transform a p).after (a.after base) = merged p a b base := by
  unfold transform
  dsimp only
  split
  · next hequal =>
      cases p with
      | localFirst =>
          exact after_eq_merged_of_behind (n := 0) _ ha hsa (by simp [Precedes, hequal])
            (by simp [Inside, hequal]) rfl rfl (by omega) (by dsimp only; omega)
      | remoteFirst =>
          exact after_eq_merged_of_before _ ha hsa (by simp [Precedes, hequal])
            (by simp [Inside, hequal]) hequal.1 rfl (by omega) (by dsimp only; omega)
  · next hdiffer =>
      split
      · next hbehind =>
          refine after_eq_merged_of_behind (n := b.pos - a.stop) _ ha hsa ?_ ?_ ?_ rfl ?_ ?_
          · unfold Precedes
            omega
          · unfold Inside
            omega
          · dsimp only
            omega
          · omega
          · dsimp only
            omega
      · next hreach =>
          split
          · next hbefore =>
              refine after_eq_merged_of_before _ ha hsa ?_ ?_ rfl rfl (by omega) (by omega)
              · unfold Precedes
                omega
              · unfold Inside
                omega
          · next hmeet =>
              split
              · next hinside =>
                  rw [merged_of_inside hinside, after_after_of_behind (n := 0) ha rfl,
                    between_eq_nil (by omega), hsa]
                  rfl
              · next hba =>
                  split
                  · next haround =>
                      have hend : a.pos + a.del + (b.stop - a.stop) = b.stop := by omega
                      rw [← merged_opposite, merged_of_inside haround,
                        after_after_of_over (n := b.stop - a.stop) ha (by dsimp only; omega)
                          (by dsimp only; omega), hend]
                  · next hab =>
                      split
                      · next hleft =>
                          refine after_eq_merged_of_behind (n := 0) _ ha hsa ?_ hba rfl rfl
                            (by omega) (by dsimp only; omega)
                          unfold Precedes
                          omega
                      · next hright =>
                          refine after_eq_merged_of_before _ ha hsa ?_ hab rfl rfl (by omega)
                            (by dsimp only; omega)
                          unfold Precedes
                          omega

/-- When no sum and no difference leaves the words, there is only one result. -/
theorem eq_of_transform? {f : Edit} (h : b.transform? a p = some f) : f = b.transform a p := by
  simp only [transform?, Word.add?, Word.sub?, Word.fit?] at h
  unfold transform
  cases p <;> grind

/-- No sum and no difference on the way leaves the 64-bit words. -/
theorem transform?_eq_some (ha : a.pos + a.del ≤ base.length) (hb : b.pos + b.del ≤ base.length)
    (hsa : a.stop = a.pos + a.del) (hsb : b.stop = b.pos + b.del)
    (hword : (a.after base).length ≤ Word.max) :
    b.transform? a p = some (b.transform a p) := by
  have hlen := length_after ha
  unfold transform? transform
  dsimp only
  split
  · cases p with
    | localFirst =>
        rw [Word.add?_of_le (by omega)]
        rfl
    | remoteFirst => rfl
  · split
    · rw [Word.sub?_of_le (by omega)]
      dsimp only [bind, Option.bind]
      rw [Word.add?_of_le (by omega)]
      rfl
    · split
      · rfl
      · split
        · rw [Word.add?_of_le (by omega)]
          rfl
        · split
          · rw [Word.sub?_of_le (by omega)]
            dsimp only [bind, Option.bind]
            rw [Word.add?_of_le (by omega)]
            rfl
          · split
            · rw [Word.add?_of_le (by omega), Word.sub?_of_le (by omega)]
              rfl
            · rw [Word.sub?_of_le (by omega)]
              rfl

theorem length_ins_transform_le : (b.transform a p).ins.length ≤ b.ins.length := by
  unfold transform
  grind

/-- One way around the square: `b` follows `a` and makes the merged text. -/
theorem apply_transform? {textA textB : Text} (ha : a.apply base = .ok textA)
    (hb : b.apply base = .ok textB) (hword : textA.length ≤ Word.max) :
    ∃ b', b.transform? a p = some b' ∧ b'.apply textA = .ok (merged p a b base) ∧
      b'.ins.length ≤ b.ins.length := by
  obtain ⟨hwa, hfa, rfl⟩ := apply_eq_ok_iff.1 ha
  obtain ⟨hwb, hfb, rfl⟩ := apply_eq_ok_iff.1 hb
  have hfits := transform_fits p hfa hfb (stop_of_le hwa) (stop_of_le hwb)
  refine ⟨b.transform a p, transform?_eq_some p hfa hfb (stop_of_le hwa) (stop_of_le hwb) hword,
    ?_, length_ins_transform_le p⟩
  exact apply_eq_ok_iff.2
    ⟨Nat.le_trans hfits hword, hfits, after_transform p hfa (stop_of_le hwa) (stop_of_le hwb)⟩

end Transform

/-! ## What is left of the base text -/

/-- Whether the edit removes the character at position `i`. -/
def covers (e : Edit) (i : Nat) : Bool := decide (e.pos ≤ i) && decide (i < e.stop)

/-- The characters of the base text that neither edit removes. -/
def spared (a b : Edit) (base : Text) : Text :=
  (base.zipIdx.filter fun c => !a.covers c.2 && !b.covers c.2).map Prod.fst

theorem spared_comm (a b : Edit) (base : Text) : spared a b base = spared b a base := by
  simp only [spared, Bool.and_comm]

/-- The characters at the positions that `keep` chooses, the first one being at
position `n`. -/
def chosen (keep : Nat → Bool) (text : Text) (n : Nat) : Text :=
  ((text.zipIdx n).filter fun c => keep c.2).map Prod.fst

section Chosen

variable {keep : Nat → Bool} {text : Text}

theorem chosen_append (front back : Text) (n : Nat) :
    chosen keep (front ++ back) n = chosen keep front n ++ chosen keep back (n + front.length) := by
  simp only [chosen, List.zipIdx_append, List.filter_append, List.map_append]

theorem chosen_eq_self {n : Nat} (h : ∀ i, n ≤ i → i < n + text.length → keep i = true) :
    chosen keep text n = text := by
  induction text generalizing n with
  | nil => rfl
  | cons c text ih =>
      have hrest := ih (n := n + 1) fun i hi hlt => h i (by omega) (by simp; omega)
      simp only [chosen] at hrest
      simp [chosen, h n (by omega) (by simp), hrest]

theorem chosen_eq_nil {n : Nat} (h : ∀ i, n ≤ i → i < n + text.length → keep i = false) :
    chosen keep text n = [] := by
  induction text generalizing n with
  | nil => rfl
  | cons c text ih =>
      have hrest := ih (n := n + 1) fun i hi hlt => h i (by omega) (by simp; omega)
      simp only [chosen] at hrest
      simp [chosen, h n (by omega) (by simp), hrest]

/-- Cut a choice from position `i` on at position `j`. -/
theorem chosen_drop {i j : Nat} (hij : i ≤ j) (hj : j ≤ text.length) :
    chosen keep (text.drop i) i =
      chosen keep (between text i j) i ++ chosen keep (text.drop j) j := by
  have hlen : i + (between text i j).length = j := by
    simp [between]
    omega
  have hsplit : text.drop i = between text i j ++ text.drop j := by
    rw [between, List.drop_take, show j = i + (j - i) by omega, ← List.drop_drop,
      Nat.add_sub_cancel_left, List.take_append_drop]
  rw [hsplit, chosen_append, hlen]

end Chosen

/-- What two edits spare, in the order of their ranges. -/
theorem spared_of_le {first second : Edit} {base : Text} (hle : first.pos ≤ second.pos)
    (hf : first.pos ≤ first.stop) (hs : second.pos ≤ second.stop)
    (hfit : first.stop ≤ base.length) (hfit' : second.stop ≤ base.length) :
    spared first second base =
      base.take first.pos ++ (between base first.stop second.pos ++
        base.drop (max first.stop second.stop)) := by
  let keep : Nat → Bool := fun i => !first.covers i && !second.covers i
  have hkeep (i : Nat) : keep i = true ↔
      ¬ (first.pos ≤ i ∧ i < first.stop) ∧ ¬ (second.pos ≤ i ∧ i < second.stop) := by
    simp only [keep, covers, Bool.and_eq_true, Bool.not_eq_true', Bool.and_eq_false_iff,
      decide_eq_false_iff_not]
    omega
  have hdrop (i : Nat) : keep i = false ↔
      (first.pos ≤ i ∧ i < first.stop) ∨ (second.pos ≤ i ∧ i < second.stop) := by
    rw [← Bool.not_eq_true, hkeep]
    omega
  have hlen (i j : Nat) : (between base i j).length = min j base.length - i := by
    simp [between]
  have hgap : between base first.stop (max first.stop second.pos) =
      between base first.stop second.pos := by
    rcases Nat.le_total first.stop second.pos with h | h
    · rw [Nat.max_eq_right h]
    · rw [Nat.max_eq_left h, between_eq_nil (Nat.le_refl _), between_eq_nil h]
  calc spared first second base
      = chosen keep (base.drop 0) 0 := rfl
    _ = chosen keep (between base 0 first.pos) 0 ++
          (chosen keep (between base first.pos first.stop) first.pos ++
            (chosen keep (between base first.stop (max first.stop second.pos)) first.stop ++
              (chosen keep (between base (max first.stop second.pos)
                  (max first.stop second.stop)) (max first.stop second.pos) ++
                chosen keep (base.drop (max first.stop second.stop))
                  (max first.stop second.stop)))) := by
        rw [chosen_drop (Nat.zero_le first.pos) (by omega), chosen_drop hf hfit,
          chosen_drop (show first.stop ≤ max first.stop second.pos by omega) (by omega),
          chosen_drop (show max first.stop second.pos ≤ max first.stop second.stop by omega)
            (by omega)]
    _ = between base 0 first.pos ++ ([] ++
          (between base first.stop (max first.stop second.pos) ++ ([] ++
            base.drop (max first.stop second.stop)))) := by
        rw [chosen_eq_self, chosen_eq_nil, chosen_eq_self, chosen_eq_nil, chosen_eq_self]
        · intro i hi hlt
          rw [hkeep]
          omega
        · intro i hi hlt
          rw [hlen] at hlt
          rw [hdrop]
          omega
        · intro i hi hlt
          rw [hlen] at hlt
          rw [hkeep]
          omega
        · intro i hi hlt
          rw [hlen] at hlt
          rw [hdrop]
          omega
        · intro i hi hlt
          rw [hlen] at hlt
          rw [hkeep]
          omega
    _ = _ := by
        rw [hgap]
        rfl

/-- The merged text is the spared one with the insertions put into it; one of
them is missing only when its edit lies strictly inside the other one. -/
theorem exists_spared_merged (p : Priority) {a b : Edit} {base : Text}
    (ha : a.checkBounds base.length = .ok ()) (hb : b.checkBounds base.length = .ok ()) :
    ∃ front gap back, spared a b base = front ++ (gap ++ back) ∧
      merged p a b base =
        if a.Inside b then front ++ (b.ins ++ (gap ++ back))
        else if b.Inside a then front ++ (a.ins ++ (gap ++ back))
        else if a.Precedes p b then front ++ (a.ins ++ (gap ++ (b.ins ++ back)))
        else front ++ (b.ins ++ (gap ++ (a.ins ++ back))) := by
  obtain ⟨hwa, hfa⟩ := checkBounds_eq_ok_iff.1 ha
  obtain ⟨hwb, hfb⟩ := checkBounds_eq_ok_iff.1 hb
  have hsa := stop_of_le hwa
  have hsb := stop_of_le hwb
  have hab := @spared_of_le a b base
  have hba := @spared_of_le b a base
  unfold merged
  by_cases hin : a.Inside b
  · have hpos := hin.1
    have hstop := hin.2
    refine ⟨_, _, _, spared_comm a b base ▸ hba (by omega) (by omega) (by omega) (by omega)
      (by omega), ?_⟩
    rw [if_pos hin, if_pos hin, between_eq_nil (by omega), Nat.max_eq_left (by omega)]
    rfl
  · simp only [if_neg hin]
    by_cases hin' : b.Inside a
    · have hpos := hin'.1
      have hstop := hin'.2
      refine ⟨_, _, _, hab (by omega) (by omega) (by omega) (by omega) (by omega), ?_⟩
      rw [if_pos hin', if_pos hin', between_eq_nil (by omega), Nat.max_eq_left (by omega)]
      rfl
    · simp only [if_neg hin']
      by_cases hprec : a.Precedes p b
      · have hle : a.pos ≤ b.pos := by
          unfold Precedes at hprec
          omega
        refine ⟨_, _, _, hab hle (by omega) (by omega) (by omega) (by omega), ?_⟩
        rw [if_pos hprec, if_pos hprec]
        rfl
      · have hle : b.pos ≤ a.pos := by
          unfold Precedes at hprec
          omega
        refine ⟨_, _, _, spared_comm a b base ▸ hba hle (by omega) (by omega) (by omega)
          (by omega), ?_⟩
        rw [if_neg hprec, if_neg hprec]
        rfl

/-! ## The square closes -/

/-- Two edits that fit a text are carried out in either order without an
overflow, and lead to the merged text: all that both spare, and both insertions
unless one range lies strictly inside the other. -/
theorem concurrent_edits_merge (base : Text) (a b : Edit) (p : Priority)
    (ha : a.checkBounds base.length = .ok ()) (hb : b.checkBounds base.length = .ok ())
    (hlen : base.length + a.ins.length + b.ins.length < Word.count) :
    (∃ textA textB a' b',
      a.apply base = .ok textA ∧ b.apply base = .ok textB ∧
      b.transform? a p = some b' ∧ a.transform? b p.opposite = some a' ∧
      b'.apply textA = .ok (merged p a b base) ∧ a'.apply textB = .ok (merged p a b base)) ∧
    ∃ front gap back, spared a b base = front ++ (gap ++ back) ∧
      merged p a b base =
        if a.Inside b then front ++ (b.ins ++ (gap ++ back))
        else if b.Inside a then front ++ (a.ins ++ (gap ++ back))
        else if a.Precedes p b then front ++ (a.ins ++ (gap ++ (b.ins ++ back)))
        else front ++ (b.ins ++ (gap ++ (a.ins ++ back))) := by
  have happly := apply_eq_ok_of_checkBounds ha
  have happly' := apply_eq_ok_of_checkBounds hb
  have hlenA := length_of_apply happly
  have hlenB := length_of_apply happly'
  have hmax : Word.count = Word.max + 1 := rfl
  obtain ⟨b', hb', happlyB, -⟩ := apply_transform? p happly happly' (by omega)
  obtain ⟨a', ha', happlyA, -⟩ := apply_transform? p.opposite happly' happly (by omega)
  rw [merged_opposite] at happlyA
  exact ⟨⟨_, _, a', b', happly, happly', hb', ha', happlyB, happlyA⟩,
    exists_spared_merged p ha hb⟩

/-- Two replacements that overlap. -/
theorem concurrent_edits_merge_overlap :
    let base : Text := ['a', 'b', 'c', 'd', 'e', 'f']
    let a : Edit := ⟨1, 3, ['X']⟩
    let b : Edit := ⟨2, 3, ['Y']⟩
    (a.checkBounds base.length = .ok () ∧ b.checkBounds base.length = .ok () ∧
      base.length + a.ins.length + b.ins.length < Word.count) ∧
    ∃ textA textB a' b', a.apply base = .ok textA ∧ b.apply base = .ok textB ∧
      b.transform? a .localFirst = some b' ∧ a.transform? b .remoteFirst = some a' ∧
      b'.apply textA = .ok ['a', 'X', 'Y', 'f'] ∧ a'.apply textB = .ok ['a', 'X', 'Y', 'f'] := by
  intro base a b
  obtain ⟨⟨textA, textB, a', b', happly⟩, -⟩ :=
    concurrent_edits_merge base a b .localFirst rfl rfl (by decide)
  exact ⟨⟨rfl, rfl, by decide⟩, textA, textB, a', b', happly⟩

end PairEdit.Edit
