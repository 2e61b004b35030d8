/-!
# Texts

A text is the sequence of its Unicode scalar values.  Positions and lengths
count those values, so every position between `0` and the length is a legal
place to cut, and no cut can fall inside a character.
-/

namespace PairEdit

/-- A text, as the sequence of its Unicode scalar values. -/
abbrev Text := List Char

end PairEdit
