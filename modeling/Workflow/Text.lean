/-!
# Text rules

The text rules that several documents share: which characters are blank, how
a text is trimmed, split and joined, and how an unsigned whole number is read.
The rules are stated on lists of characters; the `String` forms wrap them.
-/

namespace Workflow.Text

/-- A character of Unicode's `White_Space` property. -/
def isBlank (c : Char) : Bool :=
  let code := c.toNat
  (9 ≤ code && code ≤ 13) || code == 0x20 || code == 0x85 || code == 0xA0 ||
    code == 0x1680 || (0x2000 ≤ code && code ≤ 0x200A) || code == 0x2028 ||
    code == 0x2029 || code == 0x202F || code == 0x205F || code == 0x3000

/-- The characters without the blank ones at either end. -/
def trimChars (cs : List Char) : List Char :=
  ((cs.dropWhile isBlank).reverse.dropWhile isBlank).reverse

/-- The text without the blank characters at either end. -/
def trim (s : String) : String :=
  String.ofList (trimChars s.toList)

/-- A text is blank when it holds no character that is not blank. -/
def isBlankText (s : String) : Bool :=
  s.toList.all isBlank

/-- Whether the first text is an initial part of the second. -/
def startsWith (start s : String) : Bool :=
  start.toList.isPrefixOf s.toList

/-- The pieces between the occurrences of a separator; there is always at
least one piece. -/
def splitChars (separator : Char) : List Char → List (List Char)
  | [] => [[]]
  | c :: rest =>
      if c = separator then
        [] :: splitChars separator rest
      else
        match splitChars separator rest with
        | [] => [[c]]
        | piece :: pieces => (c :: piece) :: pieces

/-- The pieces of a text between the occurrences of a separator. -/
def split (separator : Char) (s : String) : List String :=
  (splitChars separator s.toList).map String.ofList

/-- The texts in order with the separator between neighbours. -/
def join (separator : String) : List String → String
  | [] => ""
  | [s] => s
  | s :: rest => s ++ separator ++ join separator rest

/-- One past the greatest unsigned whole number that a document can hold. -/
def naturalLimit : Nat := Nat.pow 2 64

/-- An ASCII digit. -/
def isDigit (c : Char) : Bool :=
  48 ≤ c.toNat && c.toNat ≤ 57

/-- The value of an ASCII digit. -/
def digitValue (c : Char) : Nat :=
  c.toNat - 48

/-- The number that a run of decimal digits denotes. -/
def digitsValue (digits : List Char) : Nat :=
  digits.foldl (fun value c => 10 * value + digitValue c) 0

/-- Reads one or more ASCII digits, leading zeros included, as a number
below `naturalLimit`. -/
def digits? (cs : List Char) : Option Nat :=
  if cs.isEmpty || !cs.all isDigit then
    none
  else if digitsValue cs < naturalLimit then
    some (digitsValue cs)
  else
    none

/-- Reads an unsigned whole number: ASCII digits after an optional `+`. -/
def naturalChars? : List Char → Option Nat
  | '+' :: rest => digits? rest
  | cs => digits? cs

/-- Reads an unsigned whole number that fills the text. -/
def natural? (s : String) : Option Nat :=
  naturalChars? s.toList

/-- The UTF-8 bytes of a text. -/
def bytes (s : String) : List UInt8 :=
  s.toUTF8.data.toList

end Workflow.Text
