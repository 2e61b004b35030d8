import PairEdit.Text
import PairEdit.Text.Unprintable

/-!
# Quoted texts

The form in which a text appears inside a description: between double quotes,
with a backslash before what could be mistaken, and with the number of every
character that does not show.
-/

namespace PairEdit.Text

/-- The digit of a number below sixteen, in lower case. -/
def hexDigit (n : Nat) : Char :=
  if n < 10 then Char.ofNat ('0'.toNat + n) else Char.ofNat ('a'.toNat + (n - 10))

/-- Hexadecimal digits without leading zeros. -/
def hexNumber (n : Nat) : List Char :=
  if n < 16 then [hexDigit n] else hexNumber (n / 16) ++ [hexDigit (n % 16)]
termination_by n
decreasing_by omega

/-- Whether a character appears as its number. -/
def isNumbered (c : Char) : Bool :=
  c.toNat < 0x20 || c.toNat == 0x7F || (0x80 ≤ c.toNat && Unprintable.contains c)

/-- One character between two of the given quotation marks. -/
def quoteChar (mark c : Char) : List Char :=
  if c = mark then ['\\', mark]
  else if c = '\\' then ['\\', '\\']
  else if c = '\n' then ['\\', 'n']
  else if c = '\r' then ['\\', 'r']
  else if c = '\t' then ['\\', 't']
  else if c = '\x00' then ['\\', '0']
  else if isNumbered c then ['\\', 'u', '\x7b'] ++ hexNumber c.toNat ++ ['\x7d']
  else [c]

/-- The text in double quotes. -/
def quote (text : Text) : List Char :=
  '"' :: (text.flatMap (quoteChar '"') ++ ['"'])

end PairEdit.Text
