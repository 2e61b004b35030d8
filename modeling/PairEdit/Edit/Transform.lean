import PairEdit.Edit

/-!
# Transforming one edit past another

Two edits were made on the same text, one on each side.  Each side has applied
its own and now has to carry out the other one, which was made for a text that
is no longer there.  `transform` restates it for the text that is.  The same
rules with opposite priorities on the two sides lead to the same text.
-/

namespace PairEdit

/-- Whose insertion comes first when both sides edit the same range. -/
inductive Priority where
  /-- The insertion already applied stays first. -/
  | localFirst
  /-- The arriving insertion goes first. -/
  | remoteFirst
deriving DecidableEq, Repr, Inhabited

namespace Priority

/-- The priority the other side has to use for the two to agree. -/
def opposite : Priority → Priority
  | .localFirst => .remoteFirst
  | .remoteFirst => .localFirst

@[simp] theorem opposite_opposite (p : Priority) : p.opposite.opposite = p := by
  cases p <;> rfl

/-- Unless something else was agreed, what is already there stays first. -/
def usual : Priority := .localFirst

end Priority

namespace Edit

/-- The edit that does for the text after `own` what `remote` did for the text
before it.  Both have to fit that text.

A removal that lies strictly inside the other side's removal disappears, with
its insertion; everything else keeps its insertion. -/
def transform (remote own : Edit) (priority : Priority) : Edit :=
  let shift := own.ins.length
  if own.pos = remote.pos ∧ own.stop = remote.stop then
    match priority with
    | .localFirst => ⟨own.pos + shift, 0, remote.ins⟩
    | .remoteFirst => ⟨own.pos, 0, remote.ins⟩
  else if own.stop ≤ remote.pos then
    ⟨remote.pos - own.del + shift, remote.del, remote.ins⟩
  else if remote.stop ≤ own.pos then
    remote
  else if own.pos < remote.pos ∧ remote.stop < own.stop then
    ⟨own.pos + shift, 0, []⟩
  else if remote.pos < own.pos ∧ own.stop < remote.stop then
    ⟨remote.pos, remote.del - own.del + shift, remote.ins⟩
  else if own.pos < remote.pos ∨ (own.pos = remote.pos ∧ own.stop < remote.stop) then
    ⟨own.pos + shift, remote.stop - own.stop, remote.ins⟩
  else
    ⟨remote.pos, own.pos - remote.pos, remote.ins⟩

/-- `transform` in 64-bit arithmetic: `none` where a sum or a difference is no
word, which only edits that do not both fit one text can bring about. -/
def transform? (remote own : Edit) (priority : Priority) : Option Edit :=
  let shift := own.ins.length
  if own.pos = remote.pos ∧ own.stop = remote.stop then
    match priority with
    | .localFirst => do
        let pos ← Word.add? own.pos shift
        return ⟨pos, 0, remote.ins⟩
    | .remoteFirst => some ⟨own.pos, 0, remote.ins⟩
  else if own.stop ≤ remote.pos then do
    let before ← Word.sub? remote.pos own.del
    let pos ← Word.add? before shift
    return ⟨pos, remote.del, remote.ins⟩
  else if remote.stop ≤ own.pos then
    some remote
  else if own.pos < remote.pos ∧ remote.stop < own.stop then do
    let pos ← Word.add? own.pos shift
    return ⟨pos, 0, []⟩
  else if remote.pos < own.pos ∧ own.stop < remote.stop then do
    let around ← Word.sub? remote.del own.del
    let del ← Word.add? around shift
    return ⟨remote.pos, del, remote.ins⟩
  else if own.pos < remote.pos ∨ (own.pos = remote.pos ∧ own.stop < remote.stop) then do
    let pos ← Word.add? own.pos shift
    let del ← Word.sub? remote.stop own.stop
    return ⟨pos, del, remote.ins⟩
  else do
    let del ← Word.sub? own.pos remote.pos
    return ⟨remote.pos, del, remote.ins⟩

/-- `remote` after each of the edits `owns`, which were applied in that order
on this side. -/
def transformEach? (remote : Edit) (priority : Priority) : List Edit → Option (List Edit)
  | [] => some []
  | own :: rest => do
      let next ← remote.transform? own priority
      let later ← next.transformEach? priority rest
      return next :: later

/-- How one side carries out two concurrent edits: the text after its own, the
other one as restated, and what applying that gives. -/
structure SecondStep where
  afterFirst : Text
  adjusted : Edit
  result : Except EditError Text

/-- Apply `first`, then `second` transformed past it.  The outer error is the
refusal of `first`, and `none` stands for an overflow. -/
def applyBoth (text : Text) (first second : Edit) (priority : Priority) :
    Except EditError (Option SecondStep) := do
  let afterFirst ← first.apply text
  return (second.transform? first priority).map fun adjusted =>
    ⟨afterFirst, adjusted, adjusted.apply afterFirst⟩

end Edit

end PairEdit
