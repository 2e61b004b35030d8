import PairEdit.Sequence
import PairEdit.Text
import PairEdit.Word

/-!
# Edits

An edit removes `del` characters at `pos` and puts `ins` in their place.  It
is the only way a shared text changes, and the unit the two sides exchange.

An edit from the other side may name any 64-bit range.  `checkStructure` asks
whether the end of the range is a word at all, `checkBounds` whether the range
lies inside a text of a given length, and `apply` carries the edit out.
-/

namespace PairEdit

/-- Remove `del` characters at `pos`, then insert `ins` there. -/
structure Edit where
  pos : Nat
  del : Nat
  ins : Text
deriving DecidableEq, Repr, Inhabited

/-- Why an edit cannot be carried out. -/
inductive EditError where
  /-- The range `pos..stop` ends behind a text of `len` characters. -/
  | outOfBounds (pos stop len : Nat)
  /-- The end of the range is no 64-bit word. -/
  | overflow (pos del : Nat)
  /-- A text of `len` characters cannot hold unseen edits that added `delta`. -/
  | backlogMismatch (len : Nat) (delta : Int)
deriving DecidableEq, Repr

/-- What is reported to the user. -/
def EditError.message : EditError → String
  | .outOfBounds pos stop len =>
      s!"operation range {pos}..{stop} exceeds document length {len}"
  | .overflow pos del =>
      s!"operation range overflows: position={pos}, delete_len={del}"
  | .backlogMismatch len delta =>
      s!"document of {len} chars is too short for outstanding edits adding {delta} chars"

namespace Edit

/-- The end of the removed range, exclusive; a range past the last word ends
at the last word. -/
def stop (e : Edit) : Nat := min (e.pos + e.del) Word.max

/-- An edit that changes no text. -/
def isNoop (e : Edit) : Bool := e.del == 0 && e.ins.isEmpty

/-- By how much the edit lengthens a text, both lengths being read as signed
words; `none` when the difference is no signed word. -/
def lenDelta? (e : Edit) : Option Int :=
  Word.fitSigned? (Word.signed e.ins.length - Word.signed e.del)

/-- Whether the end of the range is a word. -/
def checkStructure (e : Edit) : Except EditError Unit :=
  if e.pos + e.del ≤ Word.max then .ok () else .error (.overflow e.pos e.del)

/-- Whether the edit fits a text of `len` characters. -/
def checkBounds (e : Edit) (len : Nat) : Except EditError Unit := do
  e.checkStructure
  if e.stop ≤ len then .ok () else .error (.outOfBounds e.pos e.stop len)

/-- The text after the edit. -/
def apply (e : Edit) (text : Text) : Except EditError Text := do
  e.checkStructure
  match Sequence.cut? e.pos text, Sequence.cut? e.stop text with
  | some (before, _), some (_, after) => .ok (before ++ (e.ins ++ after))
  | _, _ => .error (.outOfBounds e.pos e.stop text.length)

/-- Carry the edit out on a text held in place: a refused edit leaves the text
as it was. -/
def overwrite (e : Edit) (text : Text) : Except EditError Unit × Text :=
  match e.apply text with
  | .ok text' => (.ok (), text')
  | .error refusal => (.error refusal, text)

/-- The edits one after another, each on the text the one before left, with
the outcome and the text after every one of them. -/
def overwriteEach (text : Text) : List Edit → List (Except EditError Unit × Text)
  | [] => []
  | e :: rest =>
      let outcome := e.overwrite text
      outcome :: overwriteEach outcome.2 rest

/-! ## What an edit does -/

theorem stop_of_le {e : Edit} (h : e.pos + e.del ≤ Word.max) : e.stop = e.pos + e.del :=
  Nat.min_eq_left h

/-- An edit is carried out exactly when its range is one of words and lies in
the text. -/
theorem apply_eq (e : Edit) (text : Text) :
    e.apply text =
      if e.pos + e.del ≤ Word.max then
        if e.pos + e.del ≤ text.length then
          .ok (text.take e.pos ++ (e.ins ++ text.drop (e.pos + e.del)))
        else .error (.outOfBounds e.pos (e.pos + e.del) text.length)
      else .error (.overflow e.pos e.del) := by
  by_cases h : e.pos + e.del ≤ Word.max
  · simp only [apply, checkStructure, Sequence.cut?_eq, stop_of_le h, h, if_true, bind,
      Except.bind]
    by_cases hl : e.pos + e.del ≤ text.length
    · simp [hl, show e.pos ≤ text.length by omega]
    · simp only [hl, if_false]
      split <;> simp_all
  · simp [apply, checkStructure, h, bind, Except.bind]

/-- The length of the text after an edit. -/
theorem length_of_apply {e : Edit} {text text' : Text} (h : e.apply text = .ok text') :
    text'.length + e.del = text.length + e.ins.length := by
  rw [apply_eq] at h
  split at h
  · split at h
    · cases h
      simp
      omega
    · cases h
  · cases h

end Edit

end PairEdit
