import PairEdit.Proofs.Replay

/-!
# How long the texts in between are

The outstanding edits of a side apply to texts that nobody holds: the peer's text as it was when
it made the last update that has arrived, and what the edits make of it one after another.  How
long these are is told by who has inserted the characters.  What the peer inserted, or had before,
is in the text that the peer held.  Of what the side inserted itself no more is left than in the
text that the side held when it made the edit, since the peer can only remove some of it.  So a
text in between is at most as long as two texts that were held.

Who has inserted a character is written in its place: all that happens to a text happens to the
text of these marks as well, since no edit looks at characters.
-/

namespace PairEdit.Edit

/-- The mark of what the side inserted with the edits that are looked at. -/
def ownMark : Char := 'o'

/-- The mark of everything else. -/
def otherMark : Char := 'x'

/-- The edit with marks instead of what it inserts. -/
def paint (mark : Char) (e : Edit) : Edit := { e with ins := List.replicate e.ins.length mark }

section Paint

variable {mark mark' : Char} {e own remote : Edit} {text next marks marks' : Text}

@[simp]
theorem length_ins_paint (mark : Char) (e : Edit) : (e.paint mark).ins.length = e.ins.length :=
  List.length_replicate

theorem transform_paint (remote own : Edit) (mark mark' : Char) (p : Priority) :
    (remote.paint mark).transform (own.paint mark') p = (remote.transform own p).paint mark := by
  unfold transform
  simp only [paint, stop, List.length_replicate]
  grind [List.replicate]

/-- What is done to a text is done to its marks. -/
theorem exists_apply_paint (mark : Char) (happly : e.apply text = .ok next)
    (hlen : marks.length = text.length) :
    ∃ marks', (e.paint mark).apply marks = .ok marks' ∧ marks'.length = next.length := by
  obtain ⟨hword, hfit, rfl⟩ := apply_eq_ok_iff.1 happly
  have hpaint : (e.paint mark).apply marks = .ok ((e.paint mark).after marks) :=
    apply_eq_ok_iff.2 ⟨hword, hlen ▸ hfit, rfl⟩
  refine ⟨_, hpaint, ?_⟩
  have hmarks := length_of_apply hpaint
  have hnext := length_of_apply happly
  have hsame : (e.paint mark).del = e.del := rfl
  rw [length_ins_paint] at hmarks
  omega

/-- Of the characters that are told from the mark, an edit inserts none. -/
theorem countP_paint_le {p : Char → Bool} (hmark : p mark = false)
    (happly : (e.paint mark).apply marks = .ok marks') : marks'.countP p ≤ marks.countP p := by
  obtain ⟨-, -, rfl⟩ := apply_eq_ok_iff.1 happly
  have hins : (e.paint mark).ins.countP p = 0 :=
    List.countP_eq_zero.2 fun c hc => by simp [List.eq_of_mem_replicate hc, hmark]
  have hkept : (marks.take e.pos ++ marks.drop (e.pos + e.del)).Sublist marks := by
    have happend := (List.Sublist.refl (marks.take e.pos)).append
      (List.drop_sublist e.del (marks.drop e.pos))
    rwa [List.drop_drop, List.take_append_drop] at happend
  calc ((e.paint mark).after marks).countP p
      = (marks.take e.pos ++ marks.drop (e.pos + e.del)).countP p := by
        simp only [after, List.countP_append, hins, Nat.zero_add]
        rfl
    _ ≤ marks.countP p := hkept.countP_le

theorem length_le_of_countP_le {p : Char → Bool} {own others : Nat}
    (hown : marks.countP p ≤ own) (hothers : marks.countP (fun c => ! p c) ≤ others) :
    marks.length ≤ own + others := by
  have hsplit := List.length_eq_countP_add_countP p (l := marks)
  simp only [Bool.not_eq_true, Bool.decide_eq_false] at hsplit
  omega

end Paint

/-! ## Edits on marks -/

/-- Own edits on a text of marks leave at no time more than so many own marks. -/
inductive Marked (bound : Nat) : List Edit → Text → Prop
  | nil {marks : Text} : marks.countP (· == ownMark) ≤ bound → Marked bound [] marks
  | cons {e : Edit} {rest : List Edit} {marks next : Text} :
      marks.countP (· == ownMark) ≤ bound → (e.paint ownMark).apply marks = .ok next →
      Marked bound rest next → Marked bound (e :: rest) marks

namespace Marked

variable {bound : Nat} {edits edits' front back : List Edit} {e remote adjusted : Edit}
variable {marks marks' base mid middle final result text text' : Text} {p : Priority}

/-- One more edit, made on a text that is not too long. -/
theorem concat (h : Marked bound edits marks) (hlen : marks.length = base.length)
    (hedits : applyAll edits base = .ok text) (happly : e.apply text = .ok text')
    (htext : text'.length ≤ bound) : Marked bound (edits ++ [e]) marks := by
  induction h generalizing base with
  | nil hcount =>
      cases hedits
      obtain ⟨next, hnext, hnextlen⟩ := exists_apply_paint ownMark happly hlen
      exact .cons hcount hnext (.nil (Nat.le_trans List.countP_le_length (hnextlen ▸ htext)))
  | cons hcount hpaint _ ih =>
      obtain ⟨next, hnext, hrest⟩ := applyAll_cons_eq_ok_iff.1 hedits
      obtain ⟨_, hpaint', hnextlen⟩ := exists_apply_paint ownMark hnext hlen
      cases hpaint.symm.trans hpaint'
      exact .cons hcount hpaint (ih hnextlen hrest)

/-- The marks of the text that the first edits lead to. -/
theorem exists_drop (h : Marked bound (front ++ back) marks) (hlen : marks.length = base.length)
    (hfront : applyAll front base = .ok middle) :
    ∃ marks', marks'.length = middle.length ∧ Marked bound back marks' := by
  induction front generalizing base marks with
  | nil =>
      cases hfront
      exact ⟨marks, hlen, h⟩
  | cons e rest ih =>
      obtain ⟨next, hnext, hrest⟩ := applyAll_cons_eq_ok_iff.1 hfront
      cases h with
      | cons _ hpaint hmarked =>
          obtain ⟨_, hpaint', hnextlen⟩ := exists_apply_paint ownMark hnext hlen
          cases hpaint.symm.trans hpaint'
          exact ih hmarked hnextlen hrest

/-- An edit of the peer leaves no more of the own marks in any of the texts that it passes. -/
theorem pass (h : Marked bound edits marks) (hlen : marks.length = base.length)
    (hedits : applyAll edits base = .ok final) (hroomy : Roomy final.length edits)
    (hremote : remote.apply base = .ok mid) (hins : remote.ins.length ≤ Word.maxSigned)
    (hpass : Backlog.pass? p remote edits = some (adjusted, edits'))
    (hmarks : (remote.paint otherMark).apply marks = .ok marks') : Marked bound edits' marks' := by
  have hfewer : ∀ {e : Edit} {marks marks' : Text},
      (e.paint otherMark).apply marks = .ok marks' → marks.countP (· == ownMark) ≤ bound →
      marks'.countP (· == ownMark) ≤ bound := fun hpaint hcount =>
    Nat.le_trans (countP_paint_le (by decide) hpaint) hcount
  induction h generalizing base mid remote marks' edits' with
  | nil hcount =>
      cases hpass
      exact .nil (hfewer hmarks hcount)
  | @cons own rest marks next hcount hpaint _ ih =>
      obtain ⟨text, hown, hrest⟩ := applyAll_cons_eq_ok_iff.1 hedits
      obtain ⟨remote', own', rest', hremote', hown', hpass', rfl⟩ :=
        Backlog.pass?_cons_eq_some_iff.1 hpass
      have hbaselen := length_eq_lengthBefore hedits ▸ hroomy.lengthBefore_le
      have htextlen := length_eq_lengthBefore hrest ▸ hroomy.2.lengthBefore_le
      have hmidlen := length_of_apply hremote
      have hsigned : Word.maxSigned = 2 ^ 63 - 1 := rfl
      have hmax : Word.max = 2 ^ 64 - 1 := rfl
      obtain ⟨_, hpaint', hnextlen⟩ := exists_apply_paint ownMark hown hlen
      cases hpaint.symm.trans hpaint'
      obtain ⟨_, hmarks', hmarkslen⟩ := exists_apply_paint otherMark hremote hlen
      cases hmarks.symm.trans hmarks'
      -- The square that the two edits make of the texts, and the one that they make of the marks.
      obtain ⟨_, htransform, happly, hle⟩ := apply_transform? p hown hremote (by omega)
      cases hremote'.symm.trans htransform
      obtain ⟨f, hf, hfmarks, -⟩ := apply_transform? p hpaint hmarks (by omega)
      obtain ⟨g, hg, hgmarks, -⟩ := apply_transform? p.opposite hmarks hpaint (by omega)
      obtain rfl := eq_of_transform? _ hremote'
      obtain rfl := eq_of_transform? _ hown'
      rw [eq_of_transform? _ hf, transform_paint] at hfmarks
      rw [eq_of_transform? _ hg, transform_paint, merged_opposite] at hgmarks
      exact .cons (hfewer hmarks hcount) hgmarks
        (ih hnextlen hrest hroomy.2 happly (by omega) hpass' hfmarks)

/-- No text on the way is longer than the own marks and the others can make it. -/
theorem roomy {others : Nat} (h : Marked bound edits marks) (hlen : marks.length = base.length)
    (hedits : applyAll edits base = .ok final)
    (hothers : marks.countP (fun c => ! (c == ownMark)) ≤ others)
    (hsum : bound + others ≤ Word.maxSigned) : Roomy final.length edits := by
  induction h generalizing base with
  | nil hcount =>
      cases hedits
      exact hlen ▸ Nat.le_trans (length_le_of_countP_le hcount hothers) hsum
  | cons hcount hpaint hrest ih =>
      obtain ⟨next, hnext, hedits'⟩ := applyAll_cons_eq_ok_iff.1 hedits
      obtain ⟨_, hpaint', hnextlen⟩ := exists_apply_paint ownMark hnext hlen
      cases hpaint.symm.trans hpaint'
      refine ⟨length_eq_lengthBefore hedits ▸ ?_, ?_⟩
      · exact hlen ▸ Nat.le_trans (length_le_of_countP_le hcount hothers) hsum
      · exact ih hnextlen hedits' (Nat.le_trans (countP_paint_le (by decide) hpaint) hothers)

end Marked

/-! ## Outstanding edits -/

/-- The edits were made on texts of at most `bound` characters, and what has been made of them
since is carried out on such a text, too. -/
def Held (bound : Nat) (edits : List Edit) (base : Text) : Prop :=
  base.length ≤ bound ∧ ∃ marks : Text, marks.length = base.length ∧ Marked bound edits marks

namespace Held

variable {bound : Nat} {edits rest rest' retired : List Edit} {e remote adjusted : Edit}
variable {base base' middle text text' : Text} {p : Priority}

theorem nil (h : base.length ≤ bound) : Held bound [] base :=
  ⟨h, base, rfl, .nil (Nat.le_trans List.countP_le_length h)⟩

theorem concat (h : Held bound edits base) (hedits : applyAll edits base = .ok text)
    (happly : e.apply text = .ok text') (htext : text'.length ≤ bound) :
    Held bound (edits ++ [e]) base := by
  obtain ⟨hbase, marks, hlen, hmarked⟩ := h
  exact ⟨hbase, marks, hlen, hmarked.concat hlen hedits happly htext⟩

/-- An edit of the peer, made on a text of at most `bound` characters with the first of the edits
in it, passes the others. -/
theorem receive (h : Held bound (retired ++ rest) base)
    (hretired : applyAll retired base = .ok middle)
    (hrest : applyAll rest middle = .ok text) (hroomy : Roomy text.length rest)
    (hremote : remote.apply middle = .ok base') (hbase : base'.length ≤ bound)
    (hbound : bound ≤ Word.maxSigned)
    (hpass : Backlog.pass? p remote rest = some (adjusted, rest')) : Held bound rest' base' := by
  obtain ⟨-, marks, hlen, hmarked⟩ := h
  obtain ⟨middleMarks, hmiddlelen, hrestMarked⟩ := hmarked.exists_drop hlen hretired
  obtain ⟨baseMarks, hpaint, hbaselen⟩ := exists_apply_paint otherMark hremote hmiddlelen
  have hins := Nat.le_trans (Nat.le_trans (length_ins_le_of_apply hremote) hbase) hbound
  exact ⟨hbase, baseMarks, hbaselen,
    hrestMarked.pass hmiddlelen hrest hroomy hremote hins hpass hpaint⟩

/-- No text in between is longer than two that were held. -/
theorem roomy (h : Held bound edits base) (hedits : applyAll edits base = .ok text)
    (hbound : bound + bound ≤ Word.maxSigned) : Roomy text.length edits := by
  obtain ⟨hbase, marks, hlen, hmarked⟩ := h
  have hothers : marks.countP (fun c => ! (c == ownMark)) ≤ bound :=
    Nat.le_trans List.countP_le_length (hlen ▸ hbase)
  exact hmarked.roomy hlen hedits hothers hbound

end Held

end PairEdit.Edit
