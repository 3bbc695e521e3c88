import Workflow.Document.Reader

/-!
# Identities of runs

A run is identified by 128 bits.  They are written as 32 hexadecimal digits,
with hyphens that part them into groups of 8, 4, 4, 4 and 12.
-/

namespace Workflow

/-- The identity of a run. -/
structure RunId where
  bits : BitVec 128 := 0
  deriving DecidableEq

namespace RunId

/-- Digits in their five groups. -/
def grouped (digits : List Char) : List Char :=
  digits.take 8 ++
  '-' :: (digits.drop 8).take 4 ++
  '-' :: (digits.drop 12).take 4 ++
  '-' :: (digits.drop 16).take 4 ++
  '-' :: digits.drop 20

/-- The hexadecimal digits of an identity, in lower case, the first being the
most significant. -/
def digits (id : RunId) : List Char :=
  (List.range 32).map fun place => Nat.digitChar (id.bits.toNat / Nat.pow 16 (31 - place) % 16)

/-- The text of an identity. -/
def text (id : RunId) : String :=
  .ofList (grouped id.digits)

/-- The identity with these digits, in lower or upper case. -/
def ofDigits? (digits : List Char) : Option RunId := do
  let values ← digits.mapM Document.hexValue?
  if values.length = 32 then
    some ⟨.ofNat 128 (values.foldl (fun total value => 16 * total + value) 0)⟩
  else
    none

/-- The identity with these digits in groups. -/
def ofGroups? (chars : List Char) : Option RunId :=
  let digits := chars.filter fun c => c ≠ '-'
  if grouped digits = chars then ofDigits? digits else none

/-- Reads an identity: digits, bare or in groups, or groups between braces or
behind `urn:uuid:`. -/
def ofText? (text : String) : Option RunId :=
  match text.toList with
  | '\x7b' :: chars =>
      if chars.getLast? = some '\x7d' then ofGroups? chars.dropLast else none
  | 'u' :: 'r' :: 'n' :: ':' :: 'u' :: 'u' :: 'i' :: 'd' :: ':' :: chars => ofGroups? chars
  | chars => (ofDigits? chars).or (ofGroups? chars)

end RunId

end Workflow
