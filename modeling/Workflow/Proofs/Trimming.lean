import Workflow.Proofs.DocumentText
import Workflow.Proofs.Handles

/-!
# Texts without blanks around them

The compact text of a document neither starts nor ends with a blank: a string stands
between quotes, a list and a record between brackets, and a number has no blank at all.
So trimming leaves the text of every JSON value as it is.
-/

namespace Workflow

namespace Text

variable {cs : List Char}

theorem Trimmed.of_all (solid : cs.all fun c => !isBlank c) : Trimmed cs :=
  .of_solid (by simpa using solid)

theorem Trimmed.enclosed {first last : Char} (firstSolid : ¬isBlank first)
    (lastSolid : ¬isBlank last) (middle : List Char) : Trimmed (first :: (middle ++ [last])) := by
  constructor
  · rintro c ⟨⟩
    exact firstSolid
  · intro c ends
    rw [← List.cons_append, List.getLast?_concat] at ends
    obtain rfl := Option.some.inj ends
    exact lastSolid

theorem Trimmed.trimChars_eq (trimmed : Trimmed cs) : trimChars cs = cs := by
  have blank : Blank [] := fun _ member => absurd member List.not_mem_nil
  simpa using trimChars_of_surrounded trimmed blank blank

theorem trim_ofList (trimmed : Trimmed cs) : trim (String.ofList cs) = String.ofList cs := by
  rw [trim, String.toList_ofList, trimmed.trimChars_eq]

end Text

namespace Double

/-- The characters that numbers are written with. -/
def Numeral (c : Char) : Prop :=
  Text.isDigit c ∨ c ∈ ['-', '+', '.', 'e']

theorem Numeral.solid {c : Char} (numeral : Numeral c) : ¬Text.isBlank c := by
  rcases numeral with digit | sign
  · simp [Text.isBlank_eq_false_of_isDigit digit]
  · simp only [List.mem_cons, List.not_mem_nil, or_false] at sign
    rcases sign with rfl | rfl | rfl | rfl <;> decide

theorem numeral_of_mem_toDigits {c : Char} {value : Nat} (member : c ∈ Nat.toDigits 10 value) :
    Numeral c :=
  .inl (Document.isDigit_of_mem_toDigits member)

theorem numeral_digits_shortest (tie : Tie) (d : Double) :
    ∀ c ∈ (d.shortest tie).digits, Numeral c := by
  unfold shortest
  split
  · simp [Numeral, Text.isDigit]
  · rename_i value _ _
    intro c member
    have among := List.dropWhile_subset _ (List.mem_reverse.mp member)
    exact numeral_of_mem_toDigits (List.mem_reverse.mp among)

variable {decimal : Decimal} {c : Char}

theorem numeral_inPlaceText {ending : String} (digits : ∀ c ∈ decimal.digits, Numeral c)
    (closing : ∀ c ∈ ending.toList, Numeral c) (member : c ∈ decimal.inPlaceText ending) :
    Numeral c := by
  have zero : Numeral '0' := .inl (by decide)
  have point : Numeral '.' := .inr (by decide)
  have padding : ∀ {count : Nat}, c ∈ List.replicate count '0' → Numeral c := by
    intro count padded
    rw [List.eq_of_mem_replicate padded]
    exact zero
  unfold Decimal.inPlaceText at member
  split at member
  · simp only [List.mem_cons, List.mem_append] at member
    rcases member with rfl | rfl | padded | digit
    · exact zero
    · exact point
    · exact padding padded
    · exact digits c digit
  · dsimp only at member
    split at member
    · simp only [List.mem_append] at member
      rcases member with (digit | padded) | ends
      · exact digits c (List.mem_of_mem_take digit)
      · exact padding padded
      · exact closing c ends
    · simp only [List.mem_append, List.mem_cons] at member
      rcases member with digit | rfl | digit
      · exact digits c (List.mem_of_mem_take digit)
      · exact point
      · exact digits c (List.mem_of_mem_drop digit)

theorem numeral_scientificText (digits : ∀ c ∈ decimal.digits, Numeral c)
    (member : c ∈ decimal.scientificText) : Numeral c := by
  have tail : c ∈ 'e' :: (if decimal.point - 1 < 0 then '-' else '+') ::
      Nat.toDigits 10 (decimal.point - 1).natAbs → Numeral c := by
    intro inTail
    rcases List.mem_cons.mp inTail with rfl | inTail
    · exact .inr (by decide)
    · rcases List.mem_cons.mp inTail with rfl | digit
      · split <;> exact .inr (by decide)
      · exact numeral_of_mem_toDigits digit
  unfold Decimal.scientificText at member
  split at member
  · exact tail member
  · rename_i digit written
    rcases List.mem_cons.mp member with rfl | inTail
    · exact digits c (by simp [written])
    · exact tail inTail
  · rename_i digit fraction _ written
    simp only [List.mem_cons, List.mem_append] at member
    rcases member with rfl | rfl | inFraction | inTail
    · exact digits c (by simp [written])
    · exact .inr (by decide)
    · exact digits c (by simp [written, inFraction])
    · exact tail (by simpa using inTail)

/-- A double is written with numerals, if what follows whole numbers is. -/
theorem numeral_text {layout : Layout} (closing : ∀ c ∈ layout.wholeEnding.toList, Numeral c)
    (d : Double) : ∀ c ∈ layout.text d, Numeral c := by
  have magnitude : ∀ c ∈ layout.magnitudeText d, Numeral c := by
    intro c member
    have digits := numeral_digits_shortest layout.tie d
    unfold Layout.magnitudeText at member
    split at member
    · rcases List.mem_cons.mp member with rfl | ends
      · exact .inl (by decide)
      · exact closing c ends
    · dsimp only at member
      split at member
      · exact numeral_inPlaceText digits closing member
      · exact numeral_scientificText digits member
  intro c member
  unfold Layout.text at member
  split at member
  · rcases List.mem_cons.mp member with rfl | inMagnitude
    · exact .inr (by decide)
    · exact magnitude c inMagnitude
  · exact magnitude c member

end Double

namespace Document

open Text

theorem numeral_numberText (value : Number) : ∀ c ∈ numberText value, Double.Numeral c := by
  cases value with
  | double value =>
      have closing : ∀ c ∈ doubleLayout.wholeEnding.toList, Double.Numeral c := by
        have ending : doubleLayout.wholeEnding.toList = ['.', '0'] := by decide
        rw [ending, List.forall_mem_cons, List.forall_mem_singleton]
        exact ⟨.inr (by decide), .inl (by decide)⟩
      exact Double.numeral_text closing value
  | int value =>
      intro c member
      rw [numberText] at member
      split at member
      · rcases List.mem_cons.mp member with rfl | digit
        · exact .inr (by decide)
        · exact Double.numeral_of_mem_toDigits digit
      · exact Double.numeral_of_mem_toDigits member

theorem exists_further (write : α → List Char) (close : Char) (items : List α) :
    ∃ middle, further write close items = middle ++ [close] := by
  induction items with
  | nil => exact ⟨[], rfl⟩
  | cons item items induction =>
      obtain ⟨middle, same⟩ := induction
      exact ⟨',' :: (write item ++ middle), by simp [further, same]⟩

theorem trimmed_quoted (s : String) : Trimmed (quoted s) :=
  .enclosed (by decide) (by decide) _

theorem trimmed_written (document : Document) : Trimmed document.written := by
  cases document with
  | null | unusable =>
      rw [written]
      exact .of_all (by decide)
  | bool value =>
      cases value with
      | false =>
          rw [written]
          exact .of_all (by decide)
      | true =>
          rw [written]
          exact .of_all (by decide)
  | number value =>
      rw [written]
      exact .of_solid fun c member => (numeral_numberText value c member).solid
  | string value =>
      rw [written]
      exact trimmed_quoted value
  | list items =>
      cases items with
      | nil => rw [written]; exact .enclosed (by decide) (by decide) []
      | cons item items =>
          obtain ⟨middle, closed⟩ := exists_further written ']' items
          rw [written, writtenItems_eq, closed, ← List.append_assoc]
          exact .enclosed (by decide) (by decide) _
  | record members =>
      cases members with
      | nil => rw [written]; exact .enclosed (by decide) (by decide) []
      | cons entry members =>
          obtain ⟨middle, closed⟩ := exists_further writtenMember '\x7d' members
          have shape : written (.record (entry :: members)) =
              '\x7b' :: (writtenMember entry ++ middle ++ ['\x7d']) := by
            simp [written, writtenMembers_eq, closed, writtenMember]
          rw [shape]
          exact .enclosed (by decide) (by decide) _

end Document

theorem Json.trim_text (value : Json) : Text.trim value.text = value.text :=
  Text.trim_ofList (Document.trimmed_written (.ofJson value))

end Workflow
