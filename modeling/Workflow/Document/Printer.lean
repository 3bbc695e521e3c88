import Workflow.Document.Basic
import Workflow.Double.Decimal

/-!
# The compact text of a document

A document is written without blanks.  A string escapes only the quote, the
backslash and the control characters below the space; everything else stands
for itself.
-/

namespace Workflow

/-- A double in a JSON text: the point is in place from `1e-5` up to but not
including `1e16`, and a whole number keeps one decimal. -/
def Document.doubleLayout : Double.Layout :=
  { inPlace := fun exponent => -5 ≤ exponent && exponent < 16
    wholeEnding := ".0"
    tie := .toEven }

namespace Document

/-- A number below sixteen as a lower-case hexadecimal digit. -/
def hexDigit (value : Nat) : Char :=
  if value < 10 then Char.ofNat (48 + value) else Char.ofNat (87 + value)

/-- A character as it stands inside a string. -/
def escape (c : Char) : List Char :=
  if c = '"' then ['\\', '"']
  else if c = '\\' then ['\\', '\\']
  else if c = '\n' then ['\\', 'n']
  else if c = '\r' then ['\\', 'r']
  else if c = '\t' then ['\\', 't']
  else if c.toNat = 8 then ['\\', 'b']
  else if c.toNat = 12 then ['\\', 'f']
  else if c.toNat < 32 then
    ['\\', 'u', '0', '0', hexDigit (c.toNat / 16), hexDigit (c.toNat % 16)]
  else [c]

/-- A string between quotes. -/
def quoted (s : String) : List Char :=
  '"' :: (s.toList.flatMap escape ++ ['"'])

/-- A number in decimal digits. -/
def numberText : Number → List Char
  | .int value =>
      if value < 0 then '-' :: Nat.toDigits 10 value.natAbs else Nat.toDigits 10 value.natAbs
  | .double value => doubleLayout.text value

mutual

/-- The characters of a document. -/
def written : Document → List Char
  | null => ['n', 'u', 'l', 'l']
  | bool true => ['t', 'r', 'u', 'e']
  | bool false => ['f', 'a', 'l', 's', 'e']
  | number value => numberText value
  | string value => quoted value
  | list [] => ['[', ']']
  | list (item :: items) => '[' :: (written item ++ writtenItems items)
  | record [] => ['\x7b', '\x7d']
  | record ((name, content) :: members) =>
      '\x7b' :: (quoted name ++ ':' :: (written content ++ writtenMembers members))
  | unusable => ['n', 'u', 'l', 'l']

/-- The characters of the items after the first one, with the closing bracket. -/
def writtenItems : List Document → List Char
  | [] => [']']
  | item :: items => ',' :: (written item ++ writtenItems items)

/-- The characters of the members after the first one, with the closing brace. -/
def writtenMembers : List (String × Document) → List Char
  | [] => ['\x7d']
  | (name, content) :: members =>
      ',' :: (quoted name ++ ':' :: (written content ++ writtenMembers members))

end

def text (document : Document) : String :=
  String.ofList document.written

end Document

/-- The compact text of a value. -/
def Json.text (value : Json) : String :=
  (Document.ofJson value).text

end Workflow
