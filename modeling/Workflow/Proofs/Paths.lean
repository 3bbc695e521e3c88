import Workflow.Json.Path
import Workflow.Proofs.Handles
import Workflow.Proofs.Lookup

/-!
# Where dotted paths lead

A path behind another one, with a dot between them, leads on from where that one leads.
What stands inside a value is found by the names and indexes on the way to it, joined
by dots, if no name has a dot of its own.
-/

namespace Workflow

namespace Text

variable {separator : Char}

theorem splitChars_eq_splitOn (cs : List Char) :
    splitChars separator cs = cs.splitOn separator := by
  induction cs with
  | nil => rfl
  | cons c rest induction =>
      rw [splitChars, List.splitOn_cons_eq_if_modifyHead, induction]
      by_cases same : c = separator
      · simp [same]
      · cases pieces : rest.splitOn separator with
        | nil => exact absurd pieces (List.splitOn_ne_nil _ _)
        | cons piece pieces => simp [same]

theorem split_eq (text : String) :
    split separator text = (text.toList.splitOn separator).map String.ofList := by
  rw [split, splitChars_eq_splitOn]

/-- Two texts with a dot between them have the pieces of both. -/
theorem split_append (front back : String) :
    split '.' (front ++ "." ++ back) = split '.' front ++ split '.' back := by
  have dotted : (front ++ "." ++ back).toList = front.toList ++ '.' :: back.toList := by simp
  rw [split_eq, split_eq, split_eq, dotted, List.splitOn_append_cons_self, List.map_append]

theorem split_intercalate {pieces : List String} (filled : pieces ≠ [])
    (dotless : ∀ piece ∈ pieces, '.' ∉ piece.toList) :
    split '.' (".".intercalate pieces) = pieces := by
  have dotlessChars : ∀ cs ∈ pieces.map String.toList, '.' ∉ cs := by
    simpa using dotless
  have filledChars : pieces.map String.toList ≠ [] := by simpa using filled
  rw [split_eq, String.toList_intercalate, show ".".toList = ['.'] from rfl,
    List.splitOn_intercalate '.' dotlessChars filledChars]
  simp

theorem natural?_toString {value : Nat} (limit : value < naturalLimit) :
    natural? (toString value) = some value := by
  rw [natural?, Nat.toString_eq_ofList_toDigits, String.toList_ofList]
  exact naturalChars?_eq_some.mpr (writes_toDigits limit)

end Text

namespace Json

theorem descend?_append (value : Json) (front back : List String) :
    value.descend? (front ++ back) =
      (value.descend? front).bind fun inner => inner.descend? back := by
  induction front generalizing value with
  | nil => rw [List.nil_append, descend?, Option.bind_some]
  | cons piece pieces induction =>
      rw [List.cons_append, descend?, descend?, Option.bind_assoc]
      exact congrArg _ (funext induction)

/-- A step from a value to one inside it. -/
inductive Place where
  /-- To the member of an object with a name. -/
  | member (name : String)
  /-- To the item of an array with an index. -/
  | item (index : UInt64)

/-- What a path has for a step: the name, or the index in decimal digits. -/
def Place.piece : Place → String
  | member name => name
  | item index => toString index.toNat

/-- Steps lead from a value to one that stands inside it. -/
inductive Holds : Json → List Place → Json → Prop
  | here (value : Json) : Holds value [] value
  | member {members : List (String × Json)} {name : String} {inner value : Json}
      {places : List Place} :
      (name, inner) ∈ members → Holds inner places value →
        Holds (.object members) (.member name :: places) value
  | item {items : List Json} {index : UInt64} {inner value : Json} {places : List Place} :
      items[index.toNat]? = some inner → Holds inner places value →
        Holds (.array items) (.item index :: places) value

variable {value inner : Json} {members : List (String × Json)} {items : List Json}
  {name : String} {index : UInt64}

theorem CanonicalMembers.of_mem (canonical : CanonicalMembers members)
    (member : (name, inner) ∈ members) : inner.Canonical := by
  induction members with
  | nil => cases member
  | cons entry members induction =>
      obtain ⟨first, rest⟩ := canonical
      rcases List.mem_cons.mp member with rfl | later
      · exact first
      · exact induction rest later

theorem CanonicalItems.of_mem (canonical : CanonicalItems items) (member : inner ∈ items) :
    inner.Canonical := by
  induction items with
  | nil => cases member
  | cons item items induction =>
      obtain ⟨first, rest⟩ := canonical
      rcases List.mem_cons.mp member with rfl | later
      · exact first
      · exact induction rest later

theorem child?_of_member (canonical : (Json.object members).Canonical)
    (member : (name, inner) ∈ members) : (Json.object members).child? name = some inner := by
  have distinct : (members.map Prod.fst).Nodup :=
    canonical.1.imp fun below => String.ne_of_lt below
  exact (lookup_eq_some_iff_mem distinct).mpr member

theorem child?_of_item (found : items[index.toNat]? = some inner) :
    (Json.array items).child? (toString index.toNat) = some inner := by
  rw [child?, Text.natural?_toString index.toNat_lt, Option.bind_some, found]

theorem Holds.descend?_eq {places : List Place} (holds : value.Holds places inner)
    (canonical : value.Canonical) :
    value.descend? (places.map Place.piece) = some inner := by
  induction holds with
  | here value => rfl
  | member member _ induction =>
      rw [List.map_cons, descend?, Place.piece, child?_of_member canonical member,
        Option.bind_some]
      exact induction (canonical.2.of_mem member)
  | item found _ induction =>
      rw [List.map_cons, descend?, Place.piece, child?_of_item found, Option.bind_some]
      exact induction (CanonicalItems.of_mem canonical (List.mem_of_getElem? found))

theorem Place.dotless {places : List Place}
    (dotless : ∀ name, .member name ∈ places → '.' ∉ name.toList) :
    ∀ piece ∈ places.map Place.piece, '.' ∉ piece.toList := by
  intro piece listed
  obtain ⟨place, member, rfl⟩ := List.mem_map.mp listed
  cases place with
  | member name => exact dotless name member
  | item index =>
      intro dot
      rw [piece, Nat.toString_eq_ofList_toDigits, String.toList_ofList] at dot
      exact absurd (Document.isDigit_of_mem_toDigits dot) (by decide)

/-- Paths compose, whatever dots they have; and a canonical value finds what stands
inside it by the steps that lead there. -/
theorem paths_compose (value : Json) :
    (∀ front back : String, value.lookup? (front ++ "." ++ back) =
      (value.lookup? front).bind fun inner => inner.lookup? back) ∧
    (value.Canonical → ∀ (places : List Place) (inner : Json), places ≠ [] →
      (∀ name, .member name ∈ places → '.' ∉ name.toList) → value.Holds places inner →
        value.lookup? (".".intercalate (places.map Place.piece)) = some inner) := by
  constructor
  · intro front back
    rw [lookup?, Text.split_append]
    exact value.descend?_append _ _
  · intro canonical places inner filled dotless holds
    have several : places.map Place.piece ≠ [] := by simpa using filled
    rw [lookup?, Text.split_intercalate several (Place.dotless dotless)]
    exact holds.descend?_eq canonical

/-- A scene without a name, whose second part has a member with a number for a name. -/
def setting : Json :=
  .object [("scene", .object [("", .array [.null, .object [("1", .string "sea")]])])]

/-- The names and indexes on the way to the sea make up a path to it. -/
theorem setting_paths_compose :
    setting.Canonical ∧
      setting.Holds [.member "scene", .member "", .item 1, .member "1"] (.string "sea") ∧
      setting.lookup? "scene..1.1" = some (.string "sea") := by
  have canonical : setting.Canonical :=
    ⟨List.pairwise_singleton _ _, ⟨List.pairwise_singleton _ _,
      ⟨trivial, ⟨List.pairwise_singleton _ _, trivial, trivial⟩, trivial⟩, trivial⟩, trivial⟩
  have second : [null, object [("1", string "sea")]][UInt64.toNat 1]? =
      some (object [("1", string "sea")]) := rfl
  have holds :
      setting.Holds [.member "scene", .member "", .item 1, .member "1"] (.string "sea") :=
    .member (List.mem_singleton_self _) <| .member (List.mem_singleton_self _) <|
      .item second <| .member (List.mem_singleton_self _) (.here _)
  have dotless : ∀ name : String,
      Place.member name ∈ [.member "scene", .member "", .item 1, .member "1"] →
        '.' ∉ name.toList := by
    simp
  obtain ⟨-, finds⟩ := paths_compose setting
  exact ⟨canonical, holds, finds canonical _ _ (by simp) dotless holds⟩

end Json

end Workflow
