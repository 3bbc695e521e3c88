import Mathlib.Order.Monotone.Basic
import Mathlib.Tactic.Ring
import Workflow.Json.Basic

/-!
# The exact values of doubles

A double is a whole multiple of the least positive magnitude, so that its exact
value is a whole number of such units.  The order of doubles is the order of their
exact values.  No double lies between a whole number and its nearest double, and a
whole number below `2 ^ 53` is the value of that double.
-/

namespace Workflow

namespace Double

/-- The magnitude at a place, in units of the resolution. -/
def unitsAt (place : Nat) : Nat :=
  (if place < fractions then place else fractions + place % fractions) *
    2 ^ (place / fractions - 1)

theorem units_eq (d : Double) : d.units = unitsAt d.place := rfl

theorem fractions_pos : 0 < fractions := by decide

theorem unitsAt_of_lt {place : Nat} (below : place < fractions) : unitsAt place = place := by
  rw [unitsAt, if_pos below, Nat.div_eq_of_lt below]
  exact Nat.mul_one place

theorem unitsAt_of_block {part : Nat} (block : Nat) (within : part < fractions) :
    unitsAt ((block + 1) * fractions + part) = (fractions + part) * 2 ^ block := by
  have above : ¬(block + 1) * fractions + part < fractions := by
    rw [Nat.add_mul]
    omega
  have quotient : ((block + 1) * fractions + part) / fractions = block + 1 := by
    rw [Nat.add_comm, Nat.add_mul_div_right _ _ fractions_pos, Nat.div_eq_of_lt within,
      Nat.zero_add]
  have remainder : ((block + 1) * fractions + part) % fractions = part := by
    rw [Nat.add_comm, Nat.add_mul_mod_self_right, Nat.mod_eq_of_lt within]
  rw [unitsAt, if_neg above, quotient, remainder, Nat.add_sub_cancel]

/-- The places from a power of two up to the next one share one scale. -/
theorem unitsAt_block {part : Nat} (block : Nat) (within : part ≤ fractions) :
    unitsAt ((block + 1) * fractions + part) = (fractions + part) * 2 ^ block := by
  rcases Nat.lt_or_eq_of_le within with inner | rfl
  · exact unitsAt_of_block block inner
  · have next : (block + 1) * fractions + fractions = (block + 1 + 1) * fractions + 0 := by ring
    rw [next, unitsAt_of_block (block + 1) fractions_pos]
    ring

theorem lt_or_block (place : Nat) :
    place < fractions ∨
      ∃ block part, part < fractions ∧ place = (block + 1) * fractions + part := by
  by_cases below : place < fractions
  · exact Or.inl below
  · have positive : 0 < place / fractions := Nat.div_pos (Nat.le_of_not_lt below) fractions_pos
    refine Or.inr ⟨place / fractions - 1, place % fractions, Nat.mod_lt _ fractions_pos, ?_⟩
    rw [Nat.sub_add_cancel positive]
    exact (Nat.div_add_mod' place fractions).symm

theorem unitsAt_lt_succ (place : Nat) : unitsAt place < unitsAt (place + 1) := by
  rcases lt_or_block place with below | ⟨block, part, within, rfl⟩
  · rw [unitsAt_of_lt below]
    by_cases next : place + 1 < fractions
    · rw [unitsAt_of_lt next]
      exact Nat.lt_succ_self place
    · have edge : place + 1 = (0 + 1) * fractions + 0 := by omega
      rw [edge, unitsAt_block 0 (Nat.zero_le _)]
      omega
  · rw [unitsAt_block block within.le, Nat.add_assoc, unitsAt_block block within]
    exact Nat.mul_lt_mul_of_pos_right (by omega) (Nat.two_pow_pos block)

theorem unitsAt_strictMono : StrictMono unitsAt :=
  strictMono_nat_of_lt_succ unitsAt_lt_succ

/-- The exact value in units of the resolution. -/
def exact (d : Double) : Int :=
  if d.negative then -(d.units : Int) else d.units

theorem less_iff (a b : Double) : a.less b ↔ a.exact < b.exact := by
  have zero : unitsAt 0 = 0 := unitsAt_of_lt fractions_pos
  have ascends : unitsAt a.place < unitsAt b.place ↔ a.place < b.place :=
    unitsAt_strictMono.lt_iff_lt
  have descends : unitsAt b.place < unitsAt a.place ↔ b.place < a.place :=
    unitsAt_strictMono.lt_iff_lt
  have first : unitsAt 0 < unitsAt a.place ↔ 0 < a.place := unitsAt_strictMono.lt_iff_lt
  have second : unitsAt 0 < unitsAt b.place ↔ 0 < b.place := unitsAt_strictMono.lt_iff_lt
  rw [zero] at first second
  rw [less, decide_eq_true_eq, signedPlace, signedPlace, exact, exact, units_eq, units_eq]
  split <;> split <;> omega

/-- A rounded quotient is the floor, or the number after it where something remains. -/
theorem roundQuotient_cases (numerator : Nat) {denominator : Nat} (positive : 0 < denominator) :
    roundQuotient numerator denominator = numerator / denominator ∨
      roundQuotient numerator denominator = numerator / denominator + 1 ∧
        0 < numerator % denominator := by
  simp only [roundQuotient]
  split
  · exact .inl rfl
  · split
    · exact .inr ⟨rfl, by omega⟩
    · rcases Nat.mod_two_eq_zero_or_one (numerator / denominator) with even | odd
      · exact .inl (by rw [even, Nat.add_zero])
      · exact .inr ⟨by rw [odd], by omega⟩

theorem resolution_eq {exponent : Nat} (total : 1074 = exponent) : resolution = 2 ^ exponent := by
  unfold resolution
  rw [total]
  exact Nat.pow_eq

theorem fractions_le_mul_resolution {value : Nat} (nonzero : value ≠ 0) :
    fractions ≤ value * resolution := by
  obtain ⟨exponent, total⟩ : ∃ exponent, 1074 = exponent := ⟨_, rfl⟩
  calc
    fractions = 2 ^ 52 := rfl
    _ ≤ 2 ^ exponent := Nat.pow_le_pow_right (by decide) (by omega)
    _ = resolution := (resolution_eq total).symm
    _ ≤ value * resolution := Nat.le_mul_of_pos_left _ (Nat.pos_of_ne_zero nonzero)

theorem exists_significand {scaled : Nat} (large : fractions ≤ scaled) :
    ∃ block part, part < fractions ∧ Nat.log2 scaled = 52 + block ∧
      scaled / 2 ^ block = fractions + part := by
  have positive := fractions_pos
  have nonzero : scaled ≠ 0 := by omega
  obtain ⟨block, width⟩ : ∃ block, Nat.log2 scaled = 52 + block :=
    Nat.exists_eq_add_of_le ((Nat.le_log2 nonzero).mpr large)
  have least : fractions ≤ scaled / 2 ^ block := by
    rw [Nat.le_div_iff_mul_le (Nat.two_pow_pos block)]
    change 2 ^ 52 * 2 ^ block ≤ scaled
    rw [← Nat.pow_add, ← width]
    exact Nat.log2_self_le nonzero
  have most : scaled / 2 ^ block < fractions + fractions := by
    rw [Nat.div_lt_iff_lt_mul (Nat.two_pow_pos block)]
    change scaled < 2 ^ 53 * 2 ^ block
    rw [← Nat.pow_add, show 53 + block = 52 + block + 1 by omega, ← width]
    exact Nat.lt_log2_self
  obtain ⟨part, quotient⟩ := Nat.exists_eq_add_of_le least
  exact ⟨block, part, by omega, width, quotient⟩

theorem nearestPlace_eq {value block : Nat} (width : Nat.log2 (value * resolution) = 52 + block) :
    nearestPlace value 1 =
      block * fractions + roundQuotient (value * resolution) (2 ^ block) := by
  have doublings : Nat.log2 (value * resolution / 1) - 52 = block := by
    rw [Nat.div_one, width, Nat.add_sub_cancel_left]
  unfold nearestPlace
  simp only [doublings, Nat.one_mul]
  rfl

/-- A whole number lies from one magnitude on and before the next, and it is rounded to one
of these two, to the latter only where it is not the former. -/
theorem nearestPlace_cases (value : Nat) :
    ∃ floor, unitsAt floor ≤ value * resolution ∧ value * resolution < unitsAt (floor + 1) ∧
      (nearestPlace value 1 = floor ∨
        nearestPlace value 1 = floor + 1 ∧ unitsAt floor < value * resolution) := by
  by_cases isZero : value = 0
  · have start : nearestPlace value 1 = 0 := by simp [isZero, nearestPlace, roundQuotient]
    have least := unitsAt_lt_succ 0
    rw [unitsAt_of_lt fractions_pos] at least
    refine ⟨0, ?_, ?_, .inl start⟩
    · rw [isZero, Nat.zero_mul, unitsAt_of_lt fractions_pos]
    · rw [isZero, Nat.zero_mul]
      exact least
  · obtain ⟨block, part, within, width, quotient⟩ :=
      exists_significand (fractions_le_mul_resolution isZero)
    have place := nearestPlace_eq width
    generalize value * resolution = scaled at width quotient place ⊢
    obtain ⟨unit, power⟩ : ∃ unit, 2 ^ block = unit := ⟨_, rfl⟩
    have positive : 0 < unit := power ▸ Nat.two_pow_pos block
    rw [power] at quotient place
    have below : unitsAt ((block + 1) * fractions + part) = scaled / unit * unit := by
      rw [unitsAt_block block within.le, power, quotient]
    have above : unitsAt ((block + 1) * fractions + part + 1) = scaled / unit * unit + unit := by
      rw [Nat.add_assoc, unitsAt_block block within, power, quotient, Nat.add_succ, Nat.succ_mul]
    have division := Nat.div_add_mod' scaled unit
    have remainder := Nat.mod_lt scaled positive
    have floor : block * fractions + scaled / unit = (block + 1) * fractions + part := by
      rw [quotient]
      ring
    refine ⟨(block + 1) * fractions + part, by omega, by omega, ?_⟩
    rw [place, below, ← floor]
    rcases roundQuotient_cases scaled positive with down | ⟨up, rest⟩
    · exact .inl (by rw [down])
    · exact .inr ⟨by rw [up, Nat.add_assoc], by omega⟩

/-- No magnitude lies between a whole number and the magnitude nearest to it. -/
theorem nearestPlace_between (value place : Nat) :
    (unitsAt place ≤ value * resolution → place ≤ nearestPlace value 1) ∧
      (value * resolution ≤ unitsAt place → nearestPlace value 1 ≤ place) := by
  obtain ⟨floor, below, above, nearest⟩ := nearestPlace_cases value
  constructor
  · intro atMost
    have early : place < floor + 1 := unitsAt_strictMono.lt_iff_lt.mp (atMost.trans_lt above)
    omega
  · intro atLeast
    rcases nearest with down | ⟨up, strict⟩
    · rw [down]
      exact unitsAt_strictMono.le_iff_le.mp (below.trans atLeast)
    · rw [up]
      exact unitsAt_strictMono.lt_iff_lt.mp (strict.trans_le atLeast)

/-- A whole number that fits the significand is a magnitude. -/
theorem exists_place {value : Nat} (small : value < 2 ^ 53) :
    ∃ place, place < magnitudes ∧ unitsAt place = value * resolution := by
  by_cases isZero : value = 0
  · refine ⟨0, by decide, ?_⟩
    rw [unitsAt_of_lt fractions_pos, isZero, Nat.zero_mul]
  · obtain ⟨exponent, total⟩ : ∃ exponent, 1074 = exponent := ⟨_, rfl⟩
    have large := fractions_le_mul_resolution isZero
    obtain ⟨block, part, within, width, quotient⟩ := exists_significand large
    have early : block ≤ exponent := by
      have positive := fractions_pos
      have few : Nat.log2 (value * resolution) < 53 + exponent := by
        rw [Nat.log2_lt (by omega), Nat.pow_add, resolution_eq total]
        exact Nat.mul_lt_mul_of_pos_right small (Nat.two_pow_pos exponent)
      omega
    have whole : value * resolution / 2 ^ block * 2 ^ block = value * resolution := by
      rw [resolution_eq total]
      exact Nat.div_mul_cancel (Nat.dvd_mul_left_of_dvd (Nat.pow_dvd_pow 2 early) value)
    refine ⟨(block + 1) * fractions + part, ?_, ?_⟩
    · calc
        (block + 1) * fractions + part < (block + 1 + 1) * fractions := by
          rw [Nat.add_mul (block + 1)]
          omega
        _ ≤ magnitudes := Nat.mul_le_mul_right fractions (by omega)
    · rw [unitsAt_block block within.le, ← quotient, whole]

/-- Every whole number that a document can hold has a nearest double. -/
theorem ofInt?_isSome {value : Int} (held : value.natAbs < Text.naturalLimit) :
    (ofInt? value).isSome := by
  obtain ⟨exponent, total⟩ : ∃ exponent, 1074 = exponent := ⟨_, rfl⟩
  have beyond : value.natAbs * resolution ≤ unitsAt ((exponent + 12 + 1) * fractions) := by
    rw [← Nat.add_zero ((exponent + 12 + 1) * fractions),
      unitsAt_block (exponent + 12) (Nat.zero_le _), resolution_eq total]
    change _ ≤ 2 ^ 52 * 2 ^ (exponent + 12)
    rw [← Nat.pow_add, show 52 + (exponent + 12) = 64 + exponent by omega, Nat.pow_add]
    exact Nat.mul_le_mul_right _ held.le
  have finite : nearestPlace value.natAbs 1 < magnitudes :=
    calc
      nearestPlace value.natAbs 1 ≤ (exponent + 12 + 1) * fractions :=
        (nearestPlace_between _ _).2 beyond
      _ < 2047 * fractions := Nat.mul_lt_mul_of_pos_right (by omega) fractions_pos
  rw [ofInt?, ofQuotient?]
  simp only [finite, dite_true, Option.isSome_some]

theorem mul_resolution_eq (value : Int) :
    value * resolution =
      if value < 0 then -((value.natAbs * resolution : Nat) : Int)
      else (value.natAbs * resolution : Nat) := by
  rw [Int.natCast_mul, ← Int.neg_mul, ← ite_mul]
  congr 1
  split <;> omega

/-- No double lies between a whole number and the double nearest to it. -/
theorem ofInt?_between {value : Int} {nearest : Double} (found : ofInt? value = some nearest)
    (other : Double) :
    (other.exact ≤ value * resolution → other.exact ≤ nearest.exact) ∧
      (value * resolution ≤ other.exact → nearest.exact ≤ other.exact) := by
  obtain ⟨finite, same⟩ := Option.dite_none_right_eq_some.mp found
  obtain rfl := Option.some.inj same
  obtain ⟨atMost, atLeast⟩ := nearestPlace_between value.natAbs other.place
  have atMost := fun below => unitsAt_strictMono.le_iff_le.mpr (atMost below)
  have atLeast := fun above => unitsAt_strictMono.le_iff_le.mpr (atLeast above)
  rw [mul_resolution_eq, exact, exact, units_eq, units_eq]
  simp only [decide_eq_true_eq]
  generalize value.natAbs * resolution = size at atMost atLeast ⊢
  split <;> split <;> omega

/-- A whole number of at most 53 bits is the exact value of its nearest double. -/
theorem ofInt?_exact {value : Int} (small : value.natAbs < 2 ^ 53) :
    ∃ d, ofInt? value = some d ∧ d.exact = value * resolution := by
  obtain ⟨place, finite, units⟩ := exists_place small
  have nearest : nearestPlace value.natAbs 1 = place :=
    le_antisymm ((nearestPlace_between _ _).2 units.ge) ((nearestPlace_between _ _).1 units.le)
  refine ⟨⟨decide (value < 0), place, finite⟩, ?_, ?_⟩
  · rw [ofInt?, ofQuotient?]
    simp only [nearest, finite, dite_true]
  · rw [mul_resolution_eq, exact, units_eq]
    simp only [decide_eq_true_eq, units]

/-- Of more than 53 bits, neighbours share their nearest double. -/
example : ofInt? (2 ^ 53 + 1) = ofInt? (2 ^ 53) := by
  decide +kernel

end Double

end Workflow
