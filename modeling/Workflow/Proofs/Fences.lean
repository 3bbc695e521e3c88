import Workflow.Proofs.Records
import Workflow.Proofs.Trimming
import Workflow.Value.Basic

/-!
# JSON inside code fences

A text that holds the compact text of a JSON value holds that value, whether it stands alone
or in a code fence, and whatever blanks stand around it.  The label of a fence ends with its
line, and the text of a value has no blanks at its ends and starts with no backquote; so what
the value itself contains is never taken for a part of the fence.
-/

namespace Workflow

open Document

namespace Structured

def fence : List Char :=
  ['\x60', '\x60', '\x60']

/-- A text has a content alone or in a code fence, with blanks wherever they may stand. -/
inductive Encloses (content : List Char) : List Char → Prop
  | bare {before after : List Char} :
      Text.Blank before → Text.Blank after → Encloses content (before ++ content ++ after)
  | fenced {before label left right after : List Char} :
      Text.Blank before → '\n' ∉ label → Text.Blank left → Text.Blank right →
        Text.Blank after → Encloses content
          (before ++ (fence ++ label ++ '\n' :: (left ++ content ++ right) ++ fence) ++ after)

variable {content label left right : List Char}

theorem stripFence_eq_self (first : content.head? ≠ some '\x60') :
    stripFence content = content := by
  unfold stripFence
  split
  · exact absurd rfl first
  · rfl

theorem dropWhile_label (oneLine : '\n' ∉ label) (rest : List Char) :
    (label ++ '\n' :: rest).dropWhile (· ≠ '\n') = '\n' :: rest := by
  have inside : ∀ c ∈ label, decide (c ≠ '\n') := by
    intro c member
    have other : c ≠ '\n' := by
      rintro rfl
      exact oneLine member
    exact decide_eq_true other
  rw [List.dropWhile_append_of_pos inside, List.dropWhile_cons_of_neg (by simp)]

theorem stripFence_fenced (trimmed : Text.Trimmed content) (oneLine : '\n' ∉ label)
    (blankLeft : Text.Blank left) (blankRight : Text.Blank right) :
    stripFence (fence ++ label ++ '\n' :: (left ++ content ++ right) ++ fence) = content := by
  have opened : fence ++ label ++ '\n' :: (left ++ content ++ right) ++ fence =
      '\x60' :: '\x60' :: '\x60' :: (label ++ '\n' :: (left ++ content ++ right ++ fence)) := by
    simp [fence]
  have closed : (left ++ content ++ right ++ fence).reverse =
      '\x60' :: '\x60' :: '\x60' :: (left ++ content ++ right).reverse := by
    rw [List.reverse_append]
    rfl
  rw [opened]
  simp only [stripFence, dropWhile_label oneLine, closed, List.reverse_reverse]
  exact Text.trimChars_of_surrounded trimmed blankLeft blankRight

theorem trimmed_fenced (middle : List Char) : Text.Trimmed (fence ++ middle ++ fence) := by
  have ends : fence ++ middle ++ fence =
      '\x60' :: (['\x60', '\x60'] ++ middle ++ ['\x60', '\x60'] ++ ['\x60']) := by
    simp [fence]
  rw [ends]
  exact .enclosed (by decide) (by decide) _

/-- The content of a text is found in it. -/
theorem Encloses.stripFence_eq {cs : List Char} (encloses : Encloses content cs)
    (trimmed : Text.Trimmed content) (first : content.head? ≠ some '\x60') :
    stripFence (Text.trimChars cs) = content := by
  cases encloses with
  | bare blankBefore blankAfter =>
      rw [Text.trimChars_of_surrounded trimmed blankBefore blankAfter]
      exact stripFence_eq_self first
  | @fenced before label left right after blankBefore oneLine blankLeft blankRight blankAfter =>
      have ends := trimmed_fenced (label ++ '\n' :: (left ++ content ++ right))
      rw [← List.append_assoc] at ends
      rw [Text.trimChars_of_surrounded ends blankBefore blankAfter]
      exact stripFence_fenced trimmed oneLine blankLeft blankRight

end Structured

theorem Document.readValue_backquote (levels : Nat) (rest : List Char) :
    readValue levels ('\x60' :: rest) = none := by
  have noNumber : readNumber ('\x60' :: rest) = none := by
    simp [readNumber, readMagnitude, readWhole, readDigits, Text.isDigit]
  rw [readValue]
  · exact noNumber
  all_goals simp

theorem Document.Exact.head?_written {document : Document} (exact : document.Exact) :
    document.written.head? ≠ some '\x60' := by
  intro starts
  obtain ⟨rest, written⟩ := List.head?_eq_some_iff.mp starts
  have read := exact.ofText?_text
  have solid : skipSpace ('\x60' :: rest) = '\x60' :: rest := rfl
  rw [ofText?, text, String.toList_ofList, ofChars?, written, solid, readValue_backquote] at read
  cases read

namespace Json

variable {value : Json}

theorem ofText?_text (canonical : value.Canonical) (doubleless : value.Doubleless)
    (shallow : (Document.ofJson value).depth ≤ maxLevels) :
    Json.ofText? value.text = some value := by
  have exact := exact_ofJson value canonical doubleless
  rw [Json.ofText?, Json.text, exact.ofText?_text, Option.bind_some,
    toJson?_ofJson value canonical shallow]

end Json

namespace Structured

/-- A JSON value without doubles that is not too deep is what every text holds that has the
compact text of the value in it, alone or in a code fence.  Written as a text value, it is
found again unless it is a string, which stands for itself. -/
theorem values_survive_fences (value : Json) (canonical : value.Canonical)
    (doubleless : value.Doubleless) (shallow : (Document.ofJson value).depth ≤ maxLevels) :
    (∀ text : String, Encloses value.text.toList text.toList → ofText? text = some value) ∧
      ((∀ string, value ≠ .string string) → ofText? (Structured.text value) = some value) := by
  have holds : ∀ text : String, Encloses value.text.toList text.toList →
      ofText? text = some value := by
    intro text encloses
    have written : value.text.toList = (Document.ofJson value).written := String.toList_ofList
    have found : stripFence (Text.trimChars text.toList) = value.text.toList := by
      apply encloses.stripFence_eq
      · rw [written]
        exact trimmed_written _
      · rw [written]
        exact (exact_ofJson value canonical doubleless).head?_written
    rw [ofText?, found, String.ofList_toList, Json.ofText?_text canonical doubleless shallow]
  refine ⟨holds, ?_⟩
  intro notString
  have written : Structured.text value = value.text := by
    cases value with
    | string string => exact absurd rfl (notString string)
    | null | bool _ | number _ | array _ | object _ => rfl
  have blank : Text.Blank [] := fun _ member => absurd member List.not_mem_nil
  have alone : Encloses value.text.toList ([] ++ value.text.toList ++ []) := .bare blank blank
  apply holds
  rw [written]
  simpa using alone

/-- What is said of a picture, with a name and a text that look like parts of a fence. -/
def remark : Json :=
  .object [
    ("\x60\x60\x60json\n", .array [.string "\x60\x60\x60\n", .int (-30), .null, .array []]),
    ("score", .int 18446744073709551615)]

/-- The remark as it comes in an answer. -/
def remarkAnswer : String :=
  "\u2003\n\x60\x60\x60 json \x60\x60\x60\x0d\n \u00a0\x7b\"\x60\x60\x60json\\n\":" ++
    "[\"\x60\x60\x60\\n\",-30,null,[]],\"score\":18446744073709551615\x7d\n\n\x60\x60\x60\t"

theorem remark_survives_fence :
    ofText? remarkAnswer = some remark ∧ ofText? (Structured.text remark) = some remark := by
  have canonical : remark.Canonical := by
    refine ⟨by decide, ⟨trivial, ?_, trivial, trivial, trivial⟩, ?_, trivial⟩
    · exact Json.canonical_int (by decide) (by decide)
    · exact Json.canonical_int (by decide) (by decide)
  have doubleless : remark.Doubleless :=
    ⟨⟨trivial, trivial, trivial, trivial, trivial⟩, trivial, trivial⟩
  have answer : remarkAnswer.toList =
      ['\u2003', '\n'] ++ (fence ++ " json \x60\x60\x60\x0d".toList ++
        '\n' :: ([' ', '\u00a0'] ++ remark.text.toList ++ ['\n', '\n']) ++ fence) ++ ['\t'] := by
    decide +kernel
  obtain ⟨enclosed, alone⟩ := values_survive_fences remark canonical doubleless (by decide)
  refine ⟨enclosed remarkAnswer ?_, alone fun _ => Json.noConfusion⟩
  rw [answer]
  exact .fenced (by decide) (by decide) (by decide) (by decide) (by decide)

end Structured

end Workflow
