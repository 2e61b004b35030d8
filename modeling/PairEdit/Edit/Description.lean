import PairEdit.Edit
import PairEdit.Text.Quoted

/-!
# Descriptions of edits

One line that shows an edit to a developer, the inserted text quoted so that
every character of it can be told.
-/

namespace PairEdit.Edit

/-- The fields of the edit on one line. -/
def describe (e : Edit) : String :=
  let ins := String.ofList (Text.quote e.ins)
  s!"Operation \x7b pos: {e.pos}, del: {e.del}, ins: {ins} \x7d"

/-- The descriptions of several edits, as a bracketed list. -/
def describeAll (edits : List Edit) : String :=
  "[" ++ ", ".intercalate (edits.map describe) ++ "]"

end PairEdit.Edit
