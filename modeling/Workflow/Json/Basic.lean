import Workflow.Double.Basic
import Workflow.KeyMap
import Workflow.Text

/-!
# JSON values

A JSON value as the program holds it: whole numbers are kept exactly and apart
from doubles, and the members of an object ascend strictly by name.  The
ascent is the predicate `Json.Canonical`; every reader produces it.
-/

namespace Workflow

/-- A JSON number: a whole number, or a double. -/
inductive Number where
  | int (value : Int)
  | double (value : Double)
  deriving DecidableEq

namespace Number

/-- Equality of numbers: a whole number never equals a double, and the two
zero doubles are equal. -/
def same : Number → Number → Bool
  | int a, int b => a == b
  | double a, double b => a.same b
  | _, _ => false

/-- The number as an unsigned whole number, if it is written as one. -/
def natural? : Number → Option Nat
  | int value => if 0 ≤ value then some value.toNat else none
  | double _ => none

/-- The double nearest to the number. -/
def toDouble? : Number → Option Double
  | int value => Double.ofInt? value
  | double value => some value

/-- Whether the number has no fractional part. -/
def isWhole : Number → Bool
  | int _ => true
  | double value => value.isWhole

end Number

/-- A JSON value. -/
inductive Json where
  | null
  | bool (value : Bool)
  | number (value : Number)
  | string (value : String)
  | array (items : List Json)
  | object (members : List (String × Json))
  deriving Inhabited

namespace Json

/-- A whole number as a JSON value. -/
def int (value : Int) : Json := number (.int value)

/-- An unsigned whole number as a JSON value. -/
def nat (value : Nat) : Json := number (.int value)

/-- The object with the bindings of a map as its members. -/
def ofMap (map : KeyMap Json) : Json := object map.entries

mutual

/-- The decision whether two values are the same, by their structure. -/
def decideEq : (a b : Json) → Decidable (a = b)
  | null, null => isTrue rfl
  | bool a, bool b =>
      if same : a = b then isTrue (by rw [same])
      else isFalse fun equal => same (by injection equal)
  | number a, number b =>
      if same : a = b then isTrue (by rw [same])
      else isFalse fun equal => same (by injection equal)
  | string a, string b =>
      if same : a = b then isTrue (by rw [same])
      else isFalse fun equal => same (by injection equal)
  | array a, array b =>
      match decideItemsEq a b with
      | isTrue same => isTrue (by rw [same])
      | isFalse different => isFalse fun equal => different (by injection equal)
  | object a, object b =>
      match decideMembersEq a b with
      | isTrue same => isTrue (by rw [same])
      | isFalse different => isFalse fun equal => different (by injection equal)
  | null, bool _ | null, number _ | null, string _ | null, array _ | null, object _
  | bool _, null | bool _, number _ | bool _, string _ | bool _, array _ | bool _, object _
  | number _, null | number _, bool _ | number _, string _ | number _, array _
  | number _, object _ | string _, null | string _, bool _ | string _, number _
  | string _, array _ | string _, object _ | array _, null | array _, bool _
  | array _, number _ | array _, string _ | array _, object _ | object _, null
  | object _, bool _ | object _, number _ | object _, string _ | object _, array _ =>
      isFalse (by simp)

/-- The decision whether two lists of values are the same. -/
def decideItemsEq : (a b : List Json) → Decidable (a = b)
  | [], [] => isTrue rfl
  | [], _ :: _ => isFalse (by simp)
  | _ :: _, [] => isFalse (by simp)
  | a :: as, b :: bs =>
      match decideEq a b, decideItemsEq as bs with
      | isTrue head, isTrue tail => isTrue (by rw [head, tail])
      | isFalse different, _ => isFalse fun equal => different (by injection equal)
      | _, isFalse different => isFalse fun equal => different (by injection equal)

/-- The decision whether two lists of members are the same. -/
def decideMembersEq : (a b : List (String × Json)) → Decidable (a = b)
  | [], [] => isTrue rfl
  | [], _ :: _ => isFalse (by simp)
  | _ :: _, [] => isFalse (by simp)
  | (nameA, a) :: as, (nameB, b) :: bs =>
      if name : nameA = nameB then
        match decideEq a b, decideMembersEq as bs with
        | isTrue head, isTrue tail => isTrue (by rw [name, head, tail])
        | isFalse different, _ => isFalse fun equal => different (by simp_all)
        | _, isFalse different => isFalse fun equal => different (by simp_all)
      else
        isFalse fun equal => name (by simp_all)

end

instance : DecidableEq Json := decideEq

mutual

/-- Equality of values: numbers are compared by `Number.same`. -/
def same : Json → Json → Bool
  | null, null => true
  | bool a, bool b => a == b
  | number a, number b => a.same b
  | string a, string b => a == b
  | array a, array b => sameItems a b
  | object a, object b => sameMembers a b
  | _, _ => false

/-- Equality of lists of values, place by place. -/
def sameItems : List Json → List Json → Bool
  | [], [] => true
  | a :: as, b :: bs => same a b && sameItems as bs
  | _, _ => false

/-- Equality of lists of members, place by place; the members of both lists
ascend by name. -/
def sameMembers : List (String × Json) → List (String × Json) → Bool
  | [], [] => true
  | (nameA, a) :: as, (nameB, b) :: bs => nameA == nameB && same a b && sameMembers as bs
  | _, _ => false

end

/-- Whether the value is `null`. -/
def isNull : Json → Bool
  | null => true
  | _ => false

/-- The text, if the value is a string. -/
def string? : Json → Option String
  | string value => some value
  | _ => none

/-- The number, if the value is one. -/
def number? : Json → Option Number
  | number value => some value
  | _ => none

/-- The name of the value's type. -/
def typeName : Json → String
  | null => "null"
  | bool _ => "boolean"
  | number _ => "number"
  | string _ => "string"
  | array _ => "array"
  | object _ => "object"

mutual

/-- Whether the members of every object in the value ascend strictly by name
and every whole number is one that a document can hold. -/
def Canonical : Json → Prop
  | null | bool _ | string _ | number (.double _) => True
  | number (.int value) => -(2 ^ 63) ≤ value ∧ value < Text.naturalLimit
  | array items => CanonicalItems items
  | object members => (members.map Prod.fst).Pairwise (· < ·) ∧ CanonicalMembers members

/-- Whether every value of a list is canonical. -/
def CanonicalItems : List Json → Prop
  | [] => True
  | item :: items => Canonical item ∧ CanonicalItems items

/-- Whether the value of every member is canonical. -/
def CanonicalMembers : List (String × Json) → Prop
  | [] => True
  | (_, value) :: members => Canonical value ∧ CanonicalMembers members

end

end Json

/-- The parameters of a node or of a step. -/
abbrev Params := KeyMap Json

/-- A parameter that is a JSON `null` counts as absent. -/
def Params.value? (params : Params) (name : String) : Option Json :=
  (params.get? name).filter fun value => !value.isNull

end Workflow
