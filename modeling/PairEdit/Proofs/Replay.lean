import PairEdit.Backlog
import PairEdit.Proofs.Merge

/-!
# Carrying an edit past a list of edits

One side has made several edits on a text, the other side one.  The square of
`PairEdit.Proofs.Merge` is laid along the list: the single edit comes out at the
end of it, and the edits of the list come out behind the single one.
-/

namespace PairEdit.Edit

/-- Carry out edits one after another. -/
def applyAll : List Edit → Text → Except EditError Text
  | [], text => .ok text
  | e :: rest, text => do
      let next ← e.apply text
      applyAll rest next

@[simp]
theorem applyAll_nil (text : Text) : applyAll [] text = .ok text := rfl

theorem applyAll_cons_eq_ok_iff {e : Edit} {rest : List Edit} {text final : Text} :
    applyAll (e :: rest) text = .ok final ↔
      ∃ next, e.apply text = .ok next ∧ applyAll rest next = .ok final := by
  simp only [applyAll, bind, Except.bind]
  cases e.apply text <;> simp

theorem applyAll_append_eq_ok_iff {front back : List Edit} {text final : Text} :
    applyAll (front ++ back) text = .ok final ↔
      ∃ middle, applyAll front text = .ok middle ∧ applyAll back middle = .ok final := by
  induction front generalizing text with
  | nil => simp
  | cons e rest ih =>
      simp only [List.cons_append, applyAll_cons_eq_ok_iff, ih]
      grind

@[simp]
theorem applyAll_singleton (e : Edit) (text : Text) : applyAll [e] text = e.apply text := by
  simp only [applyAll, bind, Except.bind]
  cases e.apply text <;> rfl

/-! ## Lengths -/

/-- The length of the text that the edits were carried out on, when the text they
led to has `len` characters. -/
def lengthBefore (len : Nat) : List Edit → Nat
  | [] => len
  | e :: rest => lengthBefore len rest + e.del - e.ins.length

/-- No text on the way to one of `len` characters is too long for a signed
word. -/
def Roomy (len : Nat) : List Edit → Prop
  | [] => len ≤ Word.maxSigned
  | e :: rest => lengthBefore len (e :: rest) ≤ Word.maxSigned ∧ Roomy len rest

instance decidableRoomy (len : Nat) : (edits : List Edit) → Decidable (Roomy len edits)
  | [] => inferInstanceAs (Decidable (len ≤ Word.maxSigned))
  | e :: rest =>
      have := decidableRoomy len rest
      inferInstanceAs (Decidable (lengthBefore len (e :: rest) ≤ Word.maxSigned ∧ Roomy len rest))

theorem length_eq_lengthBefore {edits : List Edit} {text final : Text}
    (h : applyAll edits text = .ok final) : text.length = lengthBefore final.length edits := by
  induction edits generalizing text with
  | nil =>
      cases h
      rfl
  | cons e rest ih =>
      obtain ⟨next, happly, hrest⟩ := applyAll_cons_eq_ok_iff.1 h
      have hlen := length_of_apply happly
      rw [lengthBefore, ← ih hrest]
      omega

theorem Roomy.lengthBefore_le {len : Nat} {edits : List Edit} (h : Roomy len edits) :
    lengthBefore len edits ≤ Word.maxSigned := by
  cases edits with
  | nil => exact h
  | cons e rest => exact h.1

theorem Roomy.of_append {len : Nat} {front back : List Edit} (h : Roomy len (front ++ back)) :
    Roomy len back := by
  induction front with
  | nil => exact h
  | cons e rest ih => exact ih h.2

theorem Roomy.length_le {len : Nat} {edits : List Edit} (h : Roomy len edits) :
    len ≤ Word.maxSigned := by
  induction edits with
  | nil => exact h
  | cons e rest ih => exact ih h.2

end PairEdit.Edit

namespace PairEdit.Backlog

open Edit

/-! ## Carrying an edit past a list -/

theorem pass?_cons {priority : Priority} {remote own remote' own' : Edit} {rest : List Edit}
    (hremote : remote.transform? own priority = some remote')
    (hown : own.transform? remote priority.opposite = some own') :
    pass? priority remote (own :: rest) =
      (pass? priority remote' rest).map fun r => (r.1, own' :: r.2) := by
  simp only [pass?, hremote, hown, bind, Option.bind]
  cases pass? priority remote' rest <;> rfl

theorem pass?_cons_eq_some_iff {priority : Priority} {remote own final : Edit}
    {rest passed : List Edit} :
    pass? priority remote (own :: rest) = some (final, passed) ↔
      ∃ remote' own' rest', remote.transform? own priority = some remote' ∧
        own.transform? remote priority.opposite = some own' ∧
        pass? priority remote' rest = some (final, rest') ∧ passed = own' :: rest' := by
  constructor
  · intro h
    cases hremote : remote.transform? own priority with
    | none => simp [pass?, hremote] at h
    | some remote' =>
        cases hown : own.transform? remote priority.opposite with
        | none => simp [pass?, hremote, hown] at h
        | some own' =>
            rw [pass?_cons hremote hown, Option.map_eq_some_iff] at h
            obtain ⟨⟨final', rest'⟩, hrest, heq⟩ := h
            cases heq
            exact ⟨remote', own', rest', rfl, rfl, hrest, rfl⟩
  · rintro ⟨remote', own', rest', hremote, hown, hrest, rfl⟩
    rw [pass?_cons hremote hown, hrest]
    rfl

/-- An edit passes two lists by passing one after the other. -/
theorem pass?_append {priority : Priority} {remote middle final : Edit}
    {front back front' back' : List Edit}
    (hfront : pass? priority remote front = some (middle, front'))
    (hback : pass? priority middle back = some (final, back')) :
    pass? priority remote (front ++ back) = some (final, front' ++ back') := by
  induction front generalizing remote front' with
  | nil =>
      cases hfront
      exact hback
  | cons own rest ih =>
      obtain ⟨remote', own', rest', hremote, hown, hrest, rfl⟩ :=
        pass?_cons_eq_some_iff.1 hfront
      rw [List.cons_append, pass?_cons hremote hown, ih hrest]
      rfl

theorem length_of_pass? {priority : Priority} {remote final : Edit} {edits edits' : List Edit}
    (h : pass? priority remote edits = some (final, edits')) :
    edits'.length = edits.length := by
  induction edits generalizing remote edits' with
  | nil =>
      cases h
      rfl
  | cons own rest ih =>
      obtain ⟨remote', own', rest', -, -, hrest, rfl⟩ := pass?_cons_eq_some_iff.1 h
      rw [List.length_cons, List.length_cons, ih hrest]

/-- An edit and a list of edits that fit the same text pass each other without an
overflow, and lead to the same text. -/
theorem exists_pass? (priority : Priority) {remote : Edit} {edits : List Edit}
    {base mid final : Text} (hremote : remote.apply base = .ok mid)
    (hedits : applyAll edits base = .ok final) (hroomy : Roomy final.length edits)
    (hins : remote.ins.length ≤ Word.maxSigned) :
    ∃ adjusted edits' result, pass? priority remote edits = some (adjusted, edits') ∧
      adjusted.apply final = .ok result ∧ applyAll edits' mid = .ok result ∧
      adjusted.ins.length ≤ remote.ins.length := by
  induction edits generalizing remote base mid with
  | nil =>
      cases hedits
      exact ⟨remote, [], mid, rfl, hremote, rfl, Nat.le_refl _⟩
  | cons own rest ih =>
      obtain ⟨next, hown, hrest⟩ := applyAll_cons_eq_ok_iff.1 hedits
      have hbase := length_eq_lengthBefore hedits ▸ hroomy.lengthBefore_le
      have hnext := length_eq_lengthBefore hrest ▸ hroomy.2.lengthBefore_le
      have hmid := length_of_apply hremote
      have hsigned : Word.maxSigned = 2 ^ 63 - 1 := rfl
      have hmax : Word.max = 2 ^ 64 - 1 := rfl
      obtain ⟨remote', hremote', happly, hle⟩ :=
        apply_transform? priority hown hremote (by omega)
      obtain ⟨own', hown', happly', -⟩ :=
        apply_transform? priority.opposite hremote hown (by omega)
      rw [merged_opposite] at happly'
      obtain ⟨adjusted, rest', result, hpass, hfinal, hresult, hle'⟩ :=
        ih happly hrest hroomy.2 (by omega)
      refine ⟨adjusted, own' :: rest', result, ?_, hfinal, ?_, by omega⟩
      · rw [pass?_cons hremote' hown', hpass]
        rfl
      · exact applyAll_cons_eq_ok_iff.2 ⟨_, happly', hresult⟩

/-! ## The check by lengths -/

theorem lenDelta?_of_apply {e : Edit} {text next : Text} (h : e.apply text = .ok next)
    (htext : text.length ≤ Word.maxSigned) (hnext : next.length ≤ Word.maxSigned) :
    e.lenDelta? = some ((next.length : Int) - text.length) := by
  have hlen := length_of_apply h
  have hfit := (apply_eq_ok_iff.1 h).2.1
  have hdelta : (e.ins.length : Int) - e.del = next.length - text.length := by omega
  rw [lenDelta?, Word.signed_of_le (by omega), Word.signed_of_le (by omega), hdelta]
  exact Word.fitSigned?_sub hnext htext

theorem sumDeltas?_cons {e : Edit} {rest : List Edit} {total total' delta : Int}
    (hdelta : e.lenDelta? = some delta) (htotal : Word.fitSigned? (total + delta) = some total') :
    sumDeltas? total (e :: rest) = sumDeltas? total' rest := by
  rw [sumDeltas?, hdelta]
  exact congrArg (fun sum => sum >>= fun next => sumDeltas? next rest) htotal

/-- Summing up what the edits add gives the difference of the lengths before and
after them. -/
theorem sumDeltas?_of_applyAll {edits : List Edit} {text final : Text} {origin : Nat}
    (h : applyAll edits text = .ok final) (hroomy : Roomy final.length edits)
    (horigin : origin ≤ Word.maxSigned) :
    sumDeltas? ((text.length : Int) - origin) edits = some ((final.length : Int) - origin) := by
  induction edits generalizing text with
  | nil =>
      cases h
      rfl
  | cons e rest ih =>
      obtain ⟨next, happly, hrest⟩ := applyAll_cons_eq_ok_iff.1 h
      have htext := length_eq_lengthBefore h ▸ hroomy.lengthBefore_le
      have hnext := length_eq_lengthBefore hrest ▸ hroomy.2.lengthBefore_le
      have htotal : (text.length : Int) - origin + (next.length - text.length) =
          next.length - origin := by omega
      have hfit := Word.fitSigned?_sub hnext horigin
      rw [← htotal] at hfit
      rw [sumDeltas?_cons (lenDelta?_of_apply happly htext hnext) hfit, htotal]
      exact ih hrest hroomy.2

/-- The length computed for the text an arriving edit was made on is the length of
that text. -/
theorem check?_eq_some {b : Backlog} {u : Update} {known text : Text}
    (h : applyAll (b.unseen u.seen) known = .ok text)
    (hroomy : Roomy text.length (b.unseen u.seen)) :
    b.check? u text.length = some (u.edit.checkBounds known.length) := by
  have hknown := length_eq_lengthBefore h ▸ hroomy.lengthBefore_le
  have hsum := sumDeltas?_of_applyAll h hroomy hknown
  have hbase : baseLength text.length ((text.length : Int) - known.length) = .ok known.length := by
    have hdiff : (text.length : Int) - (text.length - known.length) = known.length := by omega
    have hle := hroomy.length_le
    simp only [baseLength, hdiff, hle, true_and]
    rw [if_pos (by omega), Int.toNat_natCast]
  rw [Int.sub_self] at hsum
  simp only [check?, hsum, bind, Option.bind, hbase, Except.bind]
  rfl

end PairEdit.Backlog
