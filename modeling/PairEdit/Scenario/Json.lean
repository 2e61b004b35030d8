import PairEdit.Scenario
import PairEdit.Text.Quoted

/-!
# Scenarios as JSON

The scenarios in a form that other implementations can read: JSON with one
member a line and two blanks for every level.
-/

namespace PairEdit.Scenario

/-- JSON values, as far as scenarios need them. -/
inductive Value where
  | number (n : Nat)
  | text (content : Text)
  | list (items : List Value)
  | object (members : List (Text × Value))

namespace Value

/-- One character between the quotes: besides the quote and the backslash only
control characters are written otherwise than as they are. -/
def quoteChar (c : Char) : List Char :=
  if c = '"' then ['\\', '"']
  else if c = '\\' then ['\\', '\\']
  else if c = '\x08' then ['\\', 'b']
  else if c = '\x0c' then ['\\', 'f']
  else if c = '\n' then ['\\', 'n']
  else if c = '\r' then ['\\', 'r']
  else if c = '\t' then ['\\', 't']
  else if c.toNat < 0x20 then
    ['\\', 'u', '0', '0', Text.hexDigit (c.toNat / 16), Text.hexDigit (c.toNat % 16)]
  else [c]

/-- A text in double quotes. -/
def quote (text : Text) : List Char := '"' :: (text.flatMap quoteChar ++ ['"'])

/-- A new line at a level. -/
def newLine (level : Nat) : List Char := '\n' :: List.replicate (2 * level) ' '

mutual

/-- A value whose members stand one level below `level`. -/
def render (level : Nat) : Value → List Char
  | number n => (toString n).toList
  | text content => quote content
  | list [] => ['[', ']']
  | list (item :: rest) =>
      '[' :: (newLine (level + 1) ++ render (level + 1) item ++ renderItems (level + 1) rest ++
        newLine level ++ [']'])
  | object [] => ['\x7b', '\x7d']
  | object (member :: rest) =>
      '\x7b' :: (newLine (level + 1) ++ renderMember (level + 1) member ++
        renderMembers (level + 1) rest ++ newLine level ++ ['\x7d'])

/-- Further items of a list. -/
def renderItems (level : Nat) : List Value → List Char
  | [] => []
  | item :: rest =>
      ',' :: (newLine level ++ render level item ++ renderItems level rest)

/-- A name and its value. -/
def renderMember (level : Nat) : Text × Value → List Char
  | (name, value) => quote name ++ [':', ' '] ++ render level value

/-- Further members of an object. -/
def renderMembers (level : Nat) : List (Text × Value) → List Char
  | [] => []
  | member :: rest =>
      ',' :: (newLine level ++ renderMember level member ++ renderMembers level rest)

end

end Value

/-- An edit as JSON. -/
def editValue (e : Edit) : Value :=
  .object [("position".toList, .number e.pos), ("delete_len".toList, .number e.del),
    ("text".toList, .text e.ins)]

/-- A scenario as JSON. -/
def toValue (s : Scenario) : Value :=
  .object [("name".toList, .text s.name), ("base".toList, .text s.base),
    ("initiator".toList, editValue s.initiator), ("receiver".toList, editValue s.receiver),
    ("expected".toList, .text s.expected)]

/-- Scenarios as a JSON text. -/
def renderAll (scenarios : List Scenario) : Text :=
  (Value.list (scenarios.map toValue)).render 0

end PairEdit.Scenario
