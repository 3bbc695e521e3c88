import Mathlib.Data.List.TakeWhile
import Workflow.Document.Printer
import Workflow.Document.Reader

/-!
# Reading back strings and numbers

A string is read back whatever stands behind its closing quote, since each escaped
character is read as that character alone.  A number is read back if what stands behind
it does not go on with it; whole numbers between `-2 ^ 63` and `2 ^ 64` are exact.
-/

namespace Workflow.Document

variable {c : Char} {rest : List Char}

/-- A part of a string that means a character, whatever parts stand behind it. -/
def Piece.Means (piece : Piece) (c : Char) : Prop :=
  ∀ pieces, assemble (piece :: pieces) = (assemble pieces).map (c :: ·)

/-- A code unit below the halves of pairs means the character with its number. -/
theorem Piece.unit_means {code : Nat} (below : code < 0xD800) :
    (Piece.unit code).Means (Char.ofNat code) := by
  have notHigh : isHighHalf code = false := by
    simpa [isHighHalf] using fun high => absurd high (Nat.not_le_of_lt below)
  have notLow : isLowHalf code = false := by
    simpa [isLowHalf] using fun low => absurd low (by omega)
  intro pieces
  rcases pieces with _ | ⟨_ | low, pieces⟩ <;> simp [assemble, notHigh, notLow]

theorem codeUnit?_hexDigit :
    ∀ code < 32, codeUnit? '0' '0' (hexDigit (code / 16)) (hexDigit (code % 16)) = some code := by
  decide

theorem exists_readPieces_escape (c : Char) :
    ∃ piece : Piece, piece.Means c ∧ ∀ rest, readPieces (escape c ++ rest) =
      (readPieces rest).map fun read => (piece :: read.1, read.2) := by
  have short : ∀ letter, letter ≠ 'u' → unescape? letter = some c → ∀ rest,
      readPieces ('\\' :: letter :: rest) =
        (readPieces rest).map fun read => (.char c :: read.1, read.2) := by
    intro letter notUnit stands rest
    rw [readPieces]
    · rw [stands]
      cases readPieces rest <;> rfl
    · intro _ _ _ _ _ isUnit
      exact absurd isUnit notUnit
  have numbered : ∀ code, c.toNat = code → c = Char.ofNat code := by
    rintro _ rfl
    exact (Char.ofNat_toNat c).symm
  have self : (Piece.char c).Means c := fun _ => rfl
  unfold escape
  split_ifs with quote slash newline carriage tab backspace feed control
  · exact ⟨.char c, self, short '"' (by decide) (by rw [quote]; rfl)⟩
  · exact ⟨.char c, self, short '\\' (by decide) (by rw [slash]; rfl)⟩
  · exact ⟨.char c, self, short 'n' (by decide) (by rw [newline]; rfl)⟩
  · exact ⟨.char c, self, short 'r' (by decide) (by rw [carriage]; rfl)⟩
  · exact ⟨.char c, self, short 't' (by decide) (by rw [tab]; rfl)⟩
  · exact ⟨.char c, self, short 'b' (by decide) (by rw [numbered 8 backspace]; rfl)⟩
  · exact ⟨.char c, self, short 'f' (by decide) (by rw [numbered 12 feed]; rfl)⟩
  · refine ⟨.unit c.toNat, ?_, ?_⟩
    · have means : (Piece.unit c.toNat).Means (Char.ofNat c.toNat) :=
        Piece.unit_means (by omega)
      rwa [Char.ofNat_toNat] at means
    · intro rest
      simp only [List.cons_append, List.nil_append, readPieces, codeUnit?_hexDigit _ control]
      cases readPieces rest <;> rfl
  · refine ⟨.char c, self, ?_⟩
    intro rest
    rw [List.singleton_append, readPieces]
    · rw [if_neg control]
      cases readPieces rest <;> rfl
    · exact quote
    · intro _ _ _ _ _ isSlash
      exact absurd isSlash slash
    · intro _ _ isSlash
      exact absurd isSlash slash

theorem exists_readPieces (cs rest : List Char) :
    ∃ pieces, assemble pieces = some cs ∧
      readPieces (cs.flatMap escape ++ '"' :: rest) = some (pieces, rest) := by
  induction cs with
  | nil => exact ⟨[], rfl, rfl⟩
  | cons c cs induction =>
      obtain ⟨pieces, assembled, read⟩ := induction
      obtain ⟨piece, means, reads⟩ := exists_readPieces_escape c
      refine ⟨piece :: pieces, ?_, ?_⟩
      · rw [means, assembled]
        rfl
      · rw [List.flatMap_cons, List.append_assoc, reads, read]
        rfl

/-- A string is read back behind its opening quote. -/
theorem readString_quoted (s : String) (rest : List Char) :
    readString (s.toList.flatMap escape ++ '"' :: rest) = some (some s, rest) := by
  obtain ⟨pieces, assembled, read⟩ := exists_readPieces s.toList rest
  simp [readString, read, assembled]

/-- The digits of a number end before what stands behind it, which brings in neither a
fraction nor an exponent. -/
def Ends (rest : List Char) : Prop :=
  ∀ c ∈ rest.head?, ¬Text.isDigit c ∧ c ∉ ['.', 'e', 'E']

theorem isDigit_of_mem_toDigits {value : Nat} (member : c ∈ Nat.toDigits 10 value) :
    Text.isDigit c := by
  have digit := Nat.isDigit_of_mem_toDigits (by decide) (by decide) member
  obtain ⟨least, greatest⟩ := Bool.and_eq_true_iff.mp digit
  have least : 48 ≤ c.toNat := UInt32.le_iff_toNat_le.mp (of_decide_eq_true least)
  have greatest : c.toNat ≤ 57 := UInt32.le_iff_toNat_le.mp (of_decide_eq_true greatest)
  simp [Text.isDigit, least, greatest]

theorem digitValue_digitChar {digit : Nat} (small : digit < 10) :
    Text.digitValue digit.digitChar = digit :=
  Nat.toNat_digitChar_sub_48_of_lt_ten small

/-- The digits of a number that fits are absorbed without loss. -/
theorem foldl_absorbWhole {value : Nat} (fits : value < Text.naturalLimit) :
    (Nat.toDigits 10 value).foldl Significand.absorbWhole ⟨0, 0⟩ = ⟨value, 0⟩ := by
  induction value using Nat.strong_induction_on with
  | _ value induction =>
      rw [Nat.toDigits_eq_if (by decide)]
      split
      · rename_i small
        simp [Significand.absorbWhole, digitValue_digitChar small, fits]
      · rename_i large
        have digit : Text.digitValue (value % 10).digitChar = value % 10 :=
          digitValue_digitChar (Nat.mod_lt _ (by decide))
        have whole : 10 * (value / 10) + value % 10 = value := Nat.div_add_mod value 10
        rw [List.foldl_append, induction (value / 10) (by omega) (by omega)]
        simp [Significand.absorbWhole, digit, whole, fits]

theorem head?_toDigits {value : Nat} (positive : 0 < value) :
    (Nat.toDigits 10 value).head? ≠ some '0' := by
  induction value using Nat.strong_induction_on with
  | _ value induction =>
      rw [Nat.toDigits_eq_if (by decide)]
      split
      · rename_i small
        simp [positive.ne']
      · rename_i large
        have first := induction (value / 10) (by omega) (by omega)
        rw [List.head?_append]
        cases digits : (Nat.toDigits 10 (value / 10)).head? with
        | none => exact absurd (List.head?_eq_none_iff.mp digits) Nat.toDigits_ne_nil
        | some c => rwa [digits] at first

theorem readWhole_toDigits (value : Nat) (ends : Ends rest) :
    readWhole (Nat.toDigits 10 value ++ rest) = some (Nat.toDigits 10 value, rest) := by
  have digits : ∀ c ∈ Nat.toDigits 10 value, Text.isDigit c := fun c => isDigit_of_mem_toDigits
  have stops : rest.takeWhile Text.isDigit = [] ∧ rest.dropWhile Text.isDigit = rest := by
    cases rest with
    | nil => exact ⟨rfl, rfl⟩
    | cons c rest =>
        have notDigit := (ends c rfl).1
        exact ⟨List.takeWhile_cons_of_neg notDigit, List.dropWhile_cons_of_neg notDigit⟩
  unfold readWhole readDigits
  rw [List.takeWhile_append_of_pos digits, List.dropWhile_append_of_pos digits, stops.1, stops.2,
    List.append_nil]
  rcases Nat.eq_zero_or_pos value with rfl | positive
  · rfl
  · have first := head?_toDigits positive
    have filled : Nat.toDigits 10 value ≠ [] := Nat.toDigits_ne_nil
    generalize Nat.toDigits 10 value = written at first filled ⊢
    rcases written with _ | ⟨c, cs⟩
    · exact absurd rfl filled
    · have notZero : c ≠ '0' := by
        rintro rfl
        exact first rfl
      simp only [Option.bind_eq_bind, Option.bind_some]
      split
      · rename_i same
        exact absurd (List.cons.inj same).1 notZero
      · rfl

theorem readFraction_of_ends (ends : Ends rest) : readFraction rest = some (none, rest) := by
  cases rest with
  | nil => rfl
  | cons c rest =>
      have other := (ends c rfl).2
      rw [readFraction]
      rintro _ ⟨⟩
      simp at other

theorem readExponent_of_ends (ends : Ends rest) : readExponent rest = some (none, rest) := by
  cases rest with
  | nil => rfl
  | cons c rest =>
      have other := (ends c rfl).2
      have noExponent : ¬(c = 'e' ∨ c = 'E') := by
        simp only [List.mem_cons, not_or] at other
        exact not_or.mpr ⟨other.2.1, other.2.2.1⟩
      rw [readExponent, if_neg noExponent]

/-- The digits of a number are read back as what they denote. -/
theorem readMagnitude_toDigits {negative : Bool} {value : Nat} {denoted : Number}
    (denotes : Literal.value? ⟨negative, Nat.toDigits 10 value, none, none⟩ = some denoted)
    (ends : Ends rest) :
    readMagnitude negative (Nat.toDigits 10 value ++ rest) = some (number denoted, rest) := by
  simp only [readMagnitude, readWhole_toDigits value ends, Option.bind_eq_bind, Option.bind_some,
    readFraction_of_ends ends, readExponent_of_ends ends, denotes]

theorem toDigits_ne_sign (value : Nat) (cs rest : List Char) :
    Nat.toDigits 10 value ++ rest ≠ '-' :: cs := by
  intro signed
  have filled : Nat.toDigits 10 value ≠ [] := Nat.toDigits_ne_nil
  obtain ⟨c, digits, written⟩ := List.exists_cons_of_ne_nil filled
  have digit : Text.isDigit c := isDigit_of_mem_toDigits (by rw [written]; exact List.mem_cons_self)
  rw [written] at signed
  obtain ⟨rfl, -⟩ := List.cons.inj signed
  exact absurd digit (by decide)

/-- The least whole number that a document can hold. -/
def leastInt : Int := -(Nat.pow 2 63 : Nat)

/-- A whole number that fits is what its digits denote. -/
theorem Literal.value?_toDigits {value : Nat} (fits : value < Text.naturalLimit) :
    Literal.value? ⟨false, Nat.toDigits 10 value, none, none⟩ = some (.int value) := by
  rw [Literal.value?, foldl_absorbWhole fits]
  rfl

/-- Behind a minus, it must be no more than the greatest magnitude, and not zero. -/
theorem Literal.value?_minus_toDigits {value : Nat} (positive : value ≠ 0)
    (small : value ≤ Nat.pow 2 63) :
    Literal.value? ⟨true, Nat.toDigits 10 value, none, none⟩ = some (.int (-value)) := by
  have fits : value < Text.naturalLimit := small.trans_lt (by decide)
  rw [Literal.value?, foldl_absorbWhole fits]
  simp [positive, small]

theorem readNumber_int {value : Int} (least : leastInt ≤ value)
    (greatest : value < Text.naturalLimit) (ends : Ends rest) :
    readNumber (numberText (.int value) ++ rest) = some (number (.int value), rest) := by
  by_cases negative : value < 0
  · obtain ⟨magnitude, rfl⟩ : ∃ magnitude : Nat, value = -magnitude := ⟨value.natAbs, by omega⟩
    have positive : magnitude ≠ 0 := by omega
    have small : magnitude ≤ Nat.pow 2 63 := Int.ofNat_le.mp (Int.neg_le_neg_iff.mp least)
    have denotes := Literal.value?_minus_toDigits positive small
    simp only [numberText, negative, if_true, List.cons_append, readNumber, Int.natAbs_neg,
      Int.natAbs_natCast]
    exact readMagnitude_toDigits denotes ends
  · obtain ⟨magnitude, rfl⟩ := Int.eq_ofNat_of_zero_le (Int.not_lt.mp negative)
    have denotes := Literal.value?_toDigits (Int.ofNat_lt.mp greatest)
    simp only [numberText, negative, if_false, Int.natAbs_natCast]
    rw [readNumber]
    · exact readMagnitude_toDigits denotes ends
    · intro cs signed
      exact toDigits_ne_sign _ cs rest signed

end Workflow.Document
