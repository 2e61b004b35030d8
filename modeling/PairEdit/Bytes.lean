/-!
# Bytes

Byte strings are lists of bytes, so that what is read off their front can be
said by recursion on them.
-/

namespace PairEdit

/-- A byte string. -/
abbrev Bytes := List UInt8

end PairEdit
