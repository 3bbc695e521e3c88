import Workflow.Document.Basic

/-!
# Reading documents

Reads a JSON text by the strict grammar of RFC 8259.  Each reader takes the
characters that remain and returns what it read with what is left.  Lists and
records are read by one rule for items between separators; how deeply they may
stand inside each other is bounded by the length of the text.
-/

namespace Workflow.Document

/-- The blank characters between the parts of a document. -/
def isSpace (c : Char) : Bool :=
  c == ' ' || c == '\n' || c == '\r' || c == '\t'

/-- The characters after leading blanks. -/
def skipSpace (cs : List Char) : List Char :=
  cs.dropWhile isSpace

/-- A part of a string: a character, or a code unit of sixteen bits given by
its number. -/
inductive Piece where
  | char (c : Char)
  | unit (code : Nat)

/-- The value of a hexadecimal digit. -/
def hexValue? (c : Char) : Option Nat :=
  let code := c.toNat
  if 48 ≤ code ∧ code ≤ 57 then some (code - 48)
  else if 97 ≤ code ∧ code ≤ 102 then some (code - 87)
  else if 65 ≤ code ∧ code ≤ 70 then some (code - 55)
  else none

/-- The code unit of four hexadecimal digits. -/
def codeUnit? (a b c d : Char) : Option Nat := do
  some (4096 * (← hexValue? a) + 256 * (← hexValue? b) + 16 * (← hexValue? c) + (← hexValue? d))

/-- The character behind a backslash, except for a numbered one. -/
def unescape? (c : Char) : Option Char :=
  match c with
  | '"' => some '"'
  | '\\' => some '\\'
  | '/' => some '/'
  | 'b' => some '\x08'
  | 'f' => some '\x0c'
  | 'n' => some '\n'
  | 'r' => some '\r'
  | 't' => some '\t'
  | _ => none

/-- Reads the rest of a string up to and including its closing quote. -/
def readPieces : List Char → Option (List Piece × List Char)
  | [] => none
  | '"' :: rest => some ([], rest)
  | '\\' :: 'u' :: a :: b :: c :: d :: rest => do
      let code ← codeUnit? a b c d
      let (pieces, rest) ← readPieces rest
      some (.unit code :: pieces, rest)
  | '\\' :: letter :: rest => do
      let c ← unescape? letter
      let (pieces, rest) ← readPieces rest
      some (.char c :: pieces, rest)
  | c :: rest =>
      if c.toNat < 32 then
        none
      else do
        let (pieces, rest) ← readPieces rest
        some (.char c :: pieces, rest)

/-- The first half of a pair of code units. -/
def isHighHalf (code : Nat) : Bool := 0xD800 ≤ code && code < 0xDC00

/-- The second half of a pair of code units. -/
def isLowHalf (code : Nat) : Bool := 0xDC00 ≤ code && code < 0xE000

/-- The characters of a string, if every half of a pair has its other half. -/
def assemble : List Piece → Option (List Char)
  | [] => some []
  | .char c :: pieces => (assemble pieces).map (c :: ·)
  | .unit high :: .unit low :: pieces =>
      if isHighHalf high then
        if isLowHalf low then
          let code := 0x10000 + 0x400 * (high - 0xD800) + (low - 0xDC00)
          (assemble pieces).map (Char.ofNat code :: ·)
        else
          none
      else if isLowHalf high then
        none
      else
        (assemble (.unit low :: pieces)).map (Char.ofNat high :: ·)
  | .unit code :: pieces =>
      if isHighHalf code || isLowHalf code then
        none
      else
        (assemble pieces).map (Char.ofNat code :: ·)

/-- Reads a string behind its opening quote.  The string is missing when it
has half a pair. -/
def readString (cs : List Char) : Option (Option String × List Char) := do
  let (pieces, rest) ← readPieces cs
  some ((assemble pieces).map String.ofList, rest)

/-- The decimal digits of a number and how they are scaled. -/
structure Literal where
  negative : Bool
  whole : List Char
  fraction : Option (List Char)
  exponent : Option Int

/-- A whole significand and the power of ten that it is multiplied by. -/
structure Significand where
  value : Nat
  exponent : Int

/-- Takes up a digit before the point.  Once the significand would not fit,
each further digit raises the exponent instead. -/
def Significand.absorbWhole (s : Significand) (digit : Char) : Significand :=
  let next := 10 * s.value + Text.digitValue digit
  if s.exponent = 0 ∧ next < Text.naturalLimit then
    { s with value := next }
  else
    { s with exponent := s.exponent + 1 }

/-- Takes up the digits behind the point for as long as the significand
fits. -/
def Significand.absorbFraction (s : Significand) : List Char → Significand
  | [] => s
  | digit :: digits =>
      let next := 10 * s.value + Text.digitValue digit
      if next < Text.naturalLimit then
        Significand.absorbFraction ⟨next, s.exponent - 1⟩ digits
      else
        s

/-- The number that a literal denotes: a whole number if it is written as one
and lies between `-2 ^ 63` and `2 ^ 64`, else a double.  Minus zero is a
double. -/
def Literal.value? (literal : Literal) : Option Number :=
  let whole := literal.whole.foldl Significand.absorbWhole ⟨0, 0⟩
  let significand := match literal.fraction with
    | none => whole
    | some digits => whole.absorbFraction digits
  let isWhole := literal.fraction.isNone && literal.exponent.isNone && whole.exponent == 0
  if isWhole && !literal.negative then
    some (.int whole.value)
  else if isWhole && whole.value != 0 && whole.value ≤ Nat.pow 2 63 then
    some (.int (-(whole.value : Int)))
  else
    (Double.scaled? literal.negative significand.value
      (significand.exponent + literal.exponent.getD 0)).map .double

/-- Splits off the leading digits, of which there is at least one. -/
def readDigits (cs : List Char) : Option (List Char × List Char) :=
  match cs.takeWhile Text.isDigit with
  | [] => none
  | digits => some (digits, cs.dropWhile Text.isDigit)

/-- Reads the digits before the point; a leading zero stands alone. -/
def readWhole (cs : List Char) : Option (List Char × List Char) := do
  let (digits, rest) ← readDigits cs
  match digits with
  | '0' :: _ :: _ => none
  | _ => some (digits, rest)

/-- Reads a point with the digits behind it, if there is one. -/
def readFraction : List Char → Option (Option (List Char) × List Char)
  | '.' :: rest => do
      let (digits, rest) ← readDigits rest
      some (some digits, rest)
  | cs => some (none, cs)

/-- Reads the sign of an exponent; the flag tells a minus. -/
def readExponentSign : List Char → Bool × List Char
  | '+' :: rest => (false, rest)
  | '-' :: rest => (true, rest)
  | cs => (false, cs)

/-- Reads an exponent, if there is one. -/
def readExponent : List Char → Option (Option Int × List Char)
  | c :: rest =>
      if c = 'e' ∨ c = 'E' then do
        let (negative, rest) := readExponentSign rest
        let (digits, rest) ← readDigits rest
        let value := (Text.digitsValue digits : Int)
        some (some (if negative then -value else value), rest)
      else
        some (none, c :: rest)
  | [] => some (none, [])

/-- Reads a number without its sign. -/
def readMagnitude (negative : Bool) (cs : List Char) : Option (Document × List Char) := do
  let (whole, rest) ← readWhole cs
  let (fraction, rest) ← readFraction rest
  let (exponent, rest) ← readExponent rest
  match Literal.value? ⟨negative, whole, fraction, exponent⟩ with
  | some value => some (number value, rest)
  | none => some (unusable, rest)

/-- Reads a number. -/
def readNumber : List Char → Option (Document × List Char)
  | '-' :: rest => readMagnitude true rest
  | cs => readMagnitude false cs

/-- Reads one or more items with commas between them and a closing character
behind them.  The first argument bounds the number of items. -/
def readSequence (item : List Char → Option (α × List Char)) (close : Char) :
    Nat → List Char → Option (List α × List Char)
  | 0, _ => none
  | bound + 1, cs => do
      let (value, rest) ← item cs
      match skipSpace rest with
      | ',' :: rest =>
          let (values, rest) ← readSequence item close bound (skipSpace rest)
          some (value :: values, rest)
      | c :: rest => if c = close then some ([value], rest) else none
      | [] => none

/-- Reads the items of a list or record behind its opening character. -/
def readItems (item : List Char → Option (α × List Char)) (close : Char) (cs : List Char) :
    Option (List α × List Char) :=
  match skipSpace cs with
  | [] => none
  | c :: rest =>
      if c = close then some ([], rest) else readSequence item close (c :: rest).length (c :: rest)

/-- Reads a member: a name, a colon and its content.  The name is missing when
it has half a pair. -/
def readMember (content : List Char → Option (Document × List Char)) :
    List Char → Option ((Option String × Document) × List Char)
  | '"' :: rest => do
      let (name, rest) ← readString rest
      match skipSpace rest with
      | ':' :: rest =>
          let (value, rest) ← content (skipSpace rest)
          some ((name, value), rest)
      | _ => none
  | _ => none

/-- The members of a record, if every one has its name. -/
def nameMembers : List (Option String × Document) → Option (List (String × Document))
  | [] => some []
  | (name, content) :: members => do
      some ((← name, content) :: (← nameMembers members))

/-- Reads a document that starts at once and has at most the given number of
levels. -/
def readValue : Nat → List Char → Option (Document × List Char)
  | _, 'n' :: 'u' :: 'l' :: 'l' :: rest => some (null, rest)
  | _, 't' :: 'r' :: 'u' :: 'e' :: rest => some (bool true, rest)
  | _, 'f' :: 'a' :: 'l' :: 's' :: 'e' :: rest => some (bool false, rest)
  | _, '"' :: rest => do
      match ← readString rest with
      | (some value, rest) => some (string value, rest)
      | (none, rest) => some (unusable, rest)
  | levels + 1, '[' :: rest => do
      let (items, rest) ← readItems (readValue levels) ']' rest
      some (list items, rest)
  | levels + 1, '\x7b' :: rest => do
      let (members, rest) ← readItems (readMember (readValue levels)) '\x7d' rest
      match nameMembers members with
      | some members => some (record members, rest)
      | none => some (unusable, rest)
  | _, cs => readNumber cs

/-- Reads the document that fills a text. -/
def ofChars? (cs : List Char) : Option Document := do
  let (document, rest) ← readValue cs.length (skipSpace cs)
  if (skipSpace rest).isEmpty then some document else none

/-- Reads the document that fills a text. -/
def ofText? (s : String) : Option Document :=
  ofChars? s.toList

end Workflow.Document

/-- Reads the value that fills a text. -/
def Workflow.Json.ofText? (s : String) : Option Workflow.Json :=
  (Workflow.Document.ofText? s).bind (Workflow.Document.toJson? Workflow.Document.maxLevels)
