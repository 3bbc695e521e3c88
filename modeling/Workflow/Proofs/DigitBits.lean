import Mathlib.Algebra.Group.Nat.Defs
import Workflow.Proofs.Base64

/-!
# Base64 in bits

Digits and fillers stand for bytes if the bits of the digits, six for each, are the bits of
the bytes with two zero bits for each filler.  The text that is written for bytes stands for
them, and no other text does; so the standard leaves no choice to who writes and reads.
-/

namespace Workflow.Base64

/-- The standard alphabet: each digit has the place of its number. -/
def alphabet : List Char :=
  "ABCDEFGHIJKLMNOPQRSTUVWXYZabcdefghijklmnopqrstuvwxyz0123456789+/".toList

theorem alphabet_eq : alphabet = (List.range 64).map digit := by
  decide

theorem mem_alphabet {c : Char} : c ∈ alphabet ↔ ∃ value < 64, digit value = c := by
  simp [alphabet_eq]

theorem idxOf_digit : ∀ value < 64, alphabet.idxOf (digit value) = value := by
  decide

variable {c : Char}

theorem digit_idxOf (known : c ∈ alphabet) :
    alphabet.idxOf c < 64 ∧ digit (alphabet.idxOf c) = c := by
  obtain ⟨value, bound, rfl⟩ := mem_alphabet.mp known
  rw [idxOf_digit value bound]
  exact ⟨bound, rfl⟩

theorem ne_filler (known : c ∈ alphabet) : c ≠ '=' := by
  obtain ⟨value, bound, rfl⟩ := mem_alphabet.mp known
  exact digit_ne_filler value bound

/-- The lowest bits of a number, the highest of them first. -/
def bits (value : Nat) : Nat → List Bool
  | 0 => []
  | width + 1 => value.testBit width :: bits value width

variable {value other width : Nat}

theorem length_bits (value width : Nat) : (bits value width).length = width := by
  induction width with
  | zero => rfl
  | succ width induction => rw [bits, List.length_cons, induction]

theorem bits_zero (width : Nat) : bits 0 width = List.replicate width false := by
  induction width with
  | zero => rfl
  | succ width induction => rw [bits, induction, Nat.zero_testBit, List.replicate_succ]

theorem bits_eq_iff :
    bits value width = bits other width ↔
      ∀ place < width, value.testBit place = other.testBit place := by
  induction width with
  | zero => simp [bits]
  | succ width induction =>
      rw [bits, bits, List.cons_eq_cons, induction, Nat.forall_lt_succ_right, and_comm]

theorem bits_injective (bound : value < 2 ^ width) (otherBound : other < 2 ^ width)
    (same : bits value width = bits other width) : value = other := by
  apply Nat.eq_of_testBit_eq
  intro place
  by_cases inside : place < width
  · exact bits_eq_iff.mp same place inside
  · have beyond : 2 ^ width ≤ 2 ^ place := Nat.pow_le_pow_right (by decide) (by omega)
    rw [Nat.testBit_lt_two_pow (by omega), Nat.testBit_lt_two_pow (by omega)]

/-- The bits of a number are those of its upper and those of its lower part. -/
theorem bits_split (value upper lower : Nat) :
    bits value (upper + lower) =
      bits (value / 2 ^ lower) upper ++ bits (value % 2 ^ lower) lower := by
  induction upper with
  | zero =>
      rw [Nat.zero_add, bits, List.nil_append, bits_eq_iff]
      intro place inside
      rw [Nat.testBit_mod_two_pow, decide_eq_true inside, Bool.true_and]
  | succ upper induction =>
      rw [Nat.succ_add, bits, bits, induction, Nat.testBit_div_two_pow, List.cons_append]

theorem bits_eq_append {upper lower high low : Nat} (highPart : value / 2 ^ lower = high)
    (lowPart : value % 2 ^ lower = low) :
    bits value (upper + lower) = bits high upper ++ bits low lower := by
  rw [bits_split, highPart, lowPart]

/-- The bits of digits, six for each. -/
def digitBits (digits : List Char) : List Bool :=
  digits.flatMap fun c => bits (alphabet.idxOf c) 6

def byteBits (bytes : List UInt8) : List Bool :=
  bytes.flatMap fun byte => bits byte.toNat 8

/-- Digits and fillers stand for bytes. -/
structure Stands (digits : List Char) (fillers : Nat) (bytes : List UInt8) : Prop where
  known : ∀ c ∈ digits, c ∈ alphabet
  few : fillers ≤ 2
  same : digitBits digits = byteBits bytes ++ List.replicate (2 * fillers) false

/-- A text stands for bytes by digits with fillers behind them. -/
def Spells (cs : List Char) (bytes : List UInt8) : Prop :=
  ∃ digits fillers, cs = digits ++ List.replicate fillers '=' ∧ Stands digits fillers bytes

theorem length_digitBits (digits : List Char) : (digitBits digits).length = 6 * digits.length := by
  simp only [digitBits, List.length_flatMap, length_bits, List.map_const', List.sum_replicate_nat]
  exact Nat.mul_comm _ _

theorem length_byteBits (bytes : List UInt8) : (byteBits bytes).length = 8 * bytes.length := by
  simp only [byteBits, List.length_flatMap, length_bits, List.map_const', List.sum_replicate_nat]
  exact Nat.mul_comm _ _

theorem digitBits_cons (digits : List Char) (bound : value < 64) :
    digitBits (digit value :: digits) = bits value 6 ++ digitBits digits := by
  rw [digitBits, List.flatMap_cons, idxOf_digit value bound, digitBits]

theorem byteBits_cons (byte : UInt8) (bytes : List UInt8) :
    byteBits (byte :: bytes) = bits byte.toNat 8 ++ byteBits bytes := by
  rw [byteBits, List.flatMap_cons, byteBits]

theorem digit_mem_alphabet (bound : value < 64) : digit value ∈ alphabet :=
  mem_alphabet.mpr ⟨value, bound, rfl⟩

section Writing

variable (a b c : UInt8) {digits : List Char} {fillers : Nat} {bytes : List UInt8}

/-- The four digits for three bytes stand for these in front of what other digits stand for. -/
theorem Stands.group (stands : Stands digits fillers bytes) :
    Stands (digit (a.toNat / 4) :: digit (a.toNat % 4 * 16 + b.toNat / 16) ::
        digit (b.toNat % 16 * 4 + c.toNat / 64) :: digit (c.toNat % 64) :: digits) fillers
      (a :: b :: c :: bytes) := by
  have boundA := a.toNat_lt
  have boundB := b.toNat_lt
  have boundC := c.toNat_lt
  have second : bits (a.toNat % 4 * 16 + b.toNat / 16) (2 + 4) =
      bits (a.toNat % 4) 2 ++ bits (b.toNat / 16) 4 := bits_eq_append (by omega) (by omega)
  have third : bits (b.toNat % 16 * 4 + c.toNat / 64) (4 + 2) =
      bits (b.toNat % 16) 4 ++ bits (c.toNat / 64) 2 := bits_eq_append (by omega) (by omega)
  refine ⟨?_, stands.few, ?_⟩
  · simp only [List.forall_mem_cons]
    exact ⟨digit_mem_alphabet (by omega), digit_mem_alphabet (by omega),
      digit_mem_alphabet (by omega), digit_mem_alphabet (by omega), stands.known⟩
  · rw [digitBits_cons _ (by omega), digitBits_cons _ (by omega), digitBits_cons _ (by omega),
      digitBits_cons _ (by omega), stands.same, byteBits_cons, byteBits_cons, byteBits_cons,
      second, third, bits_split a.toNat 6 2, bits_split b.toNat 4 4, bits_split c.toNat 2 6]
    simp only [List.append_assoc, Nat.reducePow]

theorem stands_lastBytes :
    Stands [digit (a.toNat / 4), digit (a.toNat % 4 * 16 + b.toNat / 16),
      digit (b.toNat % 16 * 4)] 1 [a, b] := by
  have boundA := a.toNat_lt
  have boundB := b.toNat_lt
  have second : bits (a.toNat % 4 * 16 + b.toNat / 16) (2 + 4) =
      bits (a.toNat % 4) 2 ++ bits (b.toNat / 16) 4 := bits_eq_append (by omega) (by omega)
  have third : bits (b.toNat % 16 * 4) (4 + 2) = bits (b.toNat % 16) 4 ++ bits 0 2 :=
    bits_eq_append (by omega) (by omega)
  refine ⟨?_, by decide, ?_⟩
  · simp only [List.forall_mem_cons]
    exact ⟨digit_mem_alphabet (by omega), digit_mem_alphabet (by omega),
      digit_mem_alphabet (by omega), List.forall_mem_nil _⟩
  · rw [digitBits_cons _ (by omega), digitBits_cons _ (by omega), digitBits_cons _ (by omega),
      byteBits_cons, byteBits_cons, second, third, bits_split a.toNat 6 2, bits_split b.toNat 4 4]
    simp only [List.append_assoc, Nat.reducePow]
    rfl

theorem stands_lastByte :
    Stands [digit (a.toNat / 4), digit (a.toNat % 4 * 16)] 2 [a] := by
  have boundA := a.toNat_lt
  have second : bits (a.toNat % 4 * 16) (2 + 4) = bits (a.toNat % 4) 2 ++ bits 0 4 :=
    bits_eq_append (by omega) (by omega)
  refine ⟨?_, by decide, ?_⟩
  · simp only [List.forall_mem_cons]
    exact ⟨digit_mem_alphabet (by omega), digit_mem_alphabet (by omega), List.forall_mem_nil _⟩
  · rw [digitBits_cons _ (by omega), digitBits_cons _ (by omega), byteBits_cons, second,
      bits_split a.toNat 6 2]
    simp only [List.append_assoc, Nat.reducePow]
    rfl

end Writing

theorem spells_encodeChars (bytes : List UInt8) : Spells (encodeChars bytes) bytes := by
  induction bytes using encodeChars.induct with
  | case1 a b c rest induction =>
      obtain ⟨digits, fillers, written, stands⟩ := induction
      refine ⟨_, fillers, ?_, stands.group a b c⟩
      rw [encodeChars, written]
      rfl
  | case2 a b =>
      refine ⟨_, 1, ?_, stands_lastBytes a b⟩
      rw [encodeChars]
      rfl
  | case3 a =>
      refine ⟨_, 2, ?_, stands_lastByte a⟩
      rw [encodeChars]
      rfl
  | case4 => exact ⟨[], 0, rfl, List.forall_mem_nil _, by decide, rfl⟩

variable {digits others : List Char} {fillers otherFillers : Nat} {bytes : List UInt8}

theorem eq_of_digitBits (known : ∀ c ∈ digits, c ∈ alphabet)
    (otherKnown : ∀ c ∈ others, c ∈ alphabet) (same : digitBits digits = digitBits others) :
    digits = others := by
  induction digits generalizing others with
  | nil =>
      have lengths := congrArg List.length same
      rw [length_digitBits, length_digitBits, List.length_nil] at lengths
      exact (List.eq_nil_of_length_eq_zero (by omega)).symm
  | cons c digits induction =>
      cases others with
      | nil =>
          have lengths := congrArg List.length same
          rw [length_digitBits, length_digitBits, List.length_cons, List.length_nil] at lengths
          omega
      | cons d others =>
          obtain ⟨knownHere, known⟩ := List.forall_mem_cons.mp known
          obtain ⟨otherHere, otherKnown⟩ := List.forall_mem_cons.mp otherKnown
          obtain ⟨boundC, digitC⟩ := digit_idxOf knownHere
          obtain ⟨boundD, digitD⟩ := digit_idxOf otherHere
          rw [← digitC, ← digitD, digitBits_cons _ boundC, digitBits_cons _ boundD] at same
          obtain ⟨here, later⟩ := List.append_inj same (by rw [length_bits, length_bits])
          rw [← digitC, ← digitD, bits_injective boundC boundD here,
            induction known otherKnown later]

/-- The bytes determine how many digits and how many fillers there are. -/
theorem Stands.length_eq (stands : Stands digits fillers bytes) :
    6 * digits.length = 8 * bytes.length + 2 * fillers := by
  have lengths := congrArg List.length stands.same
  rwa [length_digitBits, List.length_append, length_byteBits, List.length_replicate] at lengths

theorem Stands.unique (stands : Stands digits fillers bytes)
    (other : Stands others otherFillers bytes) : digits = others ∧ fillers = otherFillers := by
  have length := stands.length_eq
  have otherLength := other.length_eq
  have few := stands.few
  have otherFew := other.few
  have fillersEq : fillers = otherFillers := by omega
  refine ⟨eq_of_digitBits stands.known other.known ?_, fillersEq⟩
  rw [stands.same, other.same, fillersEq]

/-- Just what is written for bytes stands for them. -/
theorem spells_iff {cs : List Char} : Spells cs bytes ↔ cs = encodeChars bytes := by
  constructor
  · rintro ⟨digits, fillers, rfl, stands⟩
    obtain ⟨others, otherFillers, written, other⟩ := spells_encodeChars bytes
    obtain ⟨rfl, rfl⟩ := stands.unique other
    exact written.symm
  · intro written
    rw [written]
    exact spells_encodeChars bytes

/-- Writing and reading follow the standard if a text stands for the bytes it is written for,
and is read as the bytes it stands for and not at all without such bytes. -/
structure Standard (write : List UInt8 → String) (read : String → Option (List UInt8)) :
    Prop where
  writes : ∀ bytes, Spells (write bytes).toList bytes
  reads : ∀ text bytes, read text = some bytes ↔ Spells text.toList bytes

theorem spells_toList_iff {text : String} : Spells text.toList bytes ↔ text = encode bytes := by
  rw [spells_iff, encode, ← String.toList_inj, String.toList_ofList]

theorem standard_iff {write : List UInt8 → String} {read : String → Option (List UInt8)} :
    Standard write read ↔ write = encode ∧ read = decode? := by
  constructor
  · intro standard
    constructor
    · funext bytes
      exact spells_toList_iff.mp (standard.writes bytes)
    · funext text
      apply Option.ext
      intro bytes
      rw [standard.reads, spells_toList_iff, decode?_eq_some]
  · rintro ⟨rfl, rfl⟩
    constructor
    · intro bytes
      exact spells_toList_iff.mpr rfl
    · intro text bytes
      rw [spells_toList_iff, decode?_eq_some]

end Workflow.Base64
