import Workflow.Base64

/-!
# Reading back base64

Every number below sixty-four has its own digit, and no digit is the filler.  So the bits
of three bytes are found again in their four digits, and the bits of the last one or two
bytes in the digits before the fillers.  The other way round, digits that are read as bytes
are the digits of these bytes, so that a text is read just if it was written for bytes.
-/

namespace Workflow.Base64

theorem value?_digit : ∀ value < 64, value? (digit value) = some value := by
  decide

theorem digit_ne_filler : ∀ value < 64, digit value ≠ '=' := by
  decide

theorem ofNat_eq {byte : UInt8} {value : Nat} (same : value = byte.toNat) :
    UInt8.ofNat value = byte := by
  rw [same]
  exact UInt8.ofNat_toNat

variable (a b c : UInt8)

theorem bytes?_digits :
    bytes? (digit (a.toNat / 4)) (digit (a.toNat % 4 * 16 + b.toNat / 16))
      (digit (b.toNat % 16 * 4 + c.toNat / 64)) (digit (c.toNat % 64)) = some [a, b, c] := by
  have boundA := a.toNat_lt
  have boundB := b.toNat_lt
  have boundC := c.toNat_lt
  have first : UInt8.ofNat (a.toNat / 4 * 4 + (a.toNat % 4 * 16 + b.toNat / 16) / 16) = a :=
    ofNat_eq (by omega)
  have middle : UInt8.ofNat ((a.toNat % 4 * 16 + b.toNat / 16) % 16 * 16 +
      (b.toNat % 16 * 4 + c.toNat / 64) / 4) = b :=
    ofNat_eq (by omega)
  have last : UInt8.ofNat ((b.toNat % 16 * 4 + c.toNat / 64) % 4 * 64 + c.toNat % 64) = c :=
    ofNat_eq (by omega)
  rw [bytes?, value?_digit _ (by omega), value?_digit _ (by omega), value?_digit _ (by omega),
    value?_digit _ (by omega)]
  simp only [Option.bind_eq_bind, Option.bind_some, first, middle, last]

theorem lastBytes?_digits :
    lastBytes? (digit (a.toNat / 4)) (digit (a.toNat % 4 * 16 + b.toNat / 16))
      (digit (b.toNat % 16 * 4)) = some [a, b] := by
  have boundA := a.toNat_lt
  have boundB := b.toNat_lt
  have noRest : b.toNat % 16 * 4 % 4 = 0 := by omega
  have first : UInt8.ofNat (a.toNat / 4 * 4 + (a.toNat % 4 * 16 + b.toNat / 16) / 16) = a :=
    ofNat_eq (by omega)
  have last : UInt8.ofNat ((a.toNat % 4 * 16 + b.toNat / 16) % 16 * 16 +
      b.toNat % 16 * 4 / 4) = b :=
    ofNat_eq (by omega)
  rw [lastBytes?, value?_digit _ (by omega), value?_digit _ (by omega),
    value?_digit _ (by omega)]
  simp only [Option.bind_eq_bind, Option.bind_some, noRest, if_true, first, last]

theorem lastByte?_digits :
    lastByte? (digit (a.toNat / 4)) (digit (a.toNat % 4 * 16)) = some [a] := by
  have boundA := a.toNat_lt
  have noRest : a.toNat % 4 * 16 % 16 = 0 := by omega
  have only : UInt8.ofNat (a.toNat / 4 * 4 + a.toNat % 4 * 16 / 16) = a := ofNat_eq (by omega)
  rw [lastByte?, value?_digit _ (by omega), value?_digit _ (by omega)]
  simp only [Option.bind_eq_bind, Option.bind_some, noRest, if_true, only]

/-- Four digits that do not end in a filler stand for three bytes before all others. -/
theorem decodeChars?_cons {a b c d : Char} (notFiller : d ≠ '=') (rest : List Char) :
    decodeChars? (a :: b :: c :: d :: rest) =
      (bytes? a b c d).bind fun bytes => (decodeChars? rest).map (bytes ++ ·) := by
  rw [decodeChars?]
  · cases bytes? a b c d <;> cases decodeChars? rest <;> rfl
  · rintro - rfl
    exact absurd rfl notFiller
  · rintro rfl
    exact absurd rfl notFiller

theorem decodeChars?_encodeChars (bytes : List UInt8) :
    decodeChars? (encodeChars bytes) = some bytes := by
  induction bytes using encodeChars.induct with
  | case1 a b c rest induction =>
      have notFiller := digit_ne_filler (c.toNat % 64) (Nat.mod_lt _ (by decide))
      rw [encodeChars, decodeChars?_cons notFiller, bytes?_digits, Option.bind_some, induction]
      rfl
  | case2 a b =>
      have boundB := b.toNat_lt
      have notFiller := digit_ne_filler (b.toNat % 16 * 4) (by omega)
      rw [encodeChars, decodeChars?]
      · exact lastBytes?_digits a b
      · exact notFiller
  | case3 a =>
      rw [encodeChars, decodeChars?]
      exact lastByte?_digits a
  | case4 => rfl

/-- Bytes are read back from their text. -/
theorem decode?_encode (bytes : List UInt8) : decode? (encode bytes) = some bytes := by
  rw [decode?, encode, String.toList_ofList, decodeChars?_encodeChars]

section Exact

variable {a b c d : Char} {value : Nat} {bytes : List UInt8}

theorem digit_of_value? (read : value? c = some value) : value < 64 ∧ digit value = c := by
  have code := Char.ofNat_toNat c
  simp only [value?] at read
  split at read
  case isTrue upper =>
    obtain rfl := Option.some.inj read
    have place : 65 + (c.toNat - 65) = c.toNat := by omega
    refine ⟨by omega, ?_⟩
    rw [digit, if_pos (by omega), place, code]
  split at read
  case isTrue lower =>
    obtain rfl := Option.some.inj read
    have place : 71 + (c.toNat - 71) = c.toNat := by omega
    refine ⟨by omega, ?_⟩
    rw [digit, if_neg (by omega), if_pos (by omega), place, code]
  split at read
  case isTrue decimal =>
    obtain rfl := Option.some.inj read
    have place : c.toNat + 4 - 4 = c.toNat := by omega
    refine ⟨by omega, ?_⟩
    rw [digit, if_neg (by omega), if_neg (by omega), if_pos (by omega), place, code]
  split at read
  case isTrue plus =>
    obtain rfl := Option.some.inj read
    rw [← code, plus]
    exact ⟨by decide, rfl⟩
  split at read
  case isTrue slash =>
    obtain rfl := Option.some.inj read
    rw [← code, slash]
    exact ⟨by decide, rfl⟩
  · cases read

theorem value?_eq_some : value? c = some value ↔ value < 64 ∧ digit value = c := by
  constructor
  · exact digit_of_value?
  · rintro ⟨bound, rfl⟩
    exact value?_digit value bound

theorem encodeChars_of_bytes? (read : bytes? a b c d = some bytes) (rest : List UInt8) :
    encodeChars (bytes ++ rest) = a :: b :: c :: d :: encodeChars rest := by
  simp only [bytes?, Option.bind_eq_bind, Option.bind_eq_some_iff, value?_eq_some,
    Option.some.injEq] at read
  obtain ⟨a, ⟨boundA, rfl⟩, b, ⟨boundB, rfl⟩, c, ⟨boundC, rfl⟩, d, ⟨boundD, rfl⟩, rfl⟩ := read
  have first : (UInt8.ofNat (a * 4 + b / 16)).toNat = a * 4 + b / 16 :=
    UInt8.toNat_ofNat_of_lt' (show _ < 256 by omega)
  have middle : (UInt8.ofNat (b % 16 * 16 + c / 4)).toNat = b % 16 * 16 + c / 4 :=
    UInt8.toNat_ofNat_of_lt' (show _ < 256 by omega)
  have last : (UInt8.ofNat (c % 4 * 64 + d)).toNat = c % 4 * 64 + d :=
    UInt8.toNat_ofNat_of_lt' (show _ < 256 by omega)
  have digitA : (a * 4 + b / 16) / 4 = a := by omega
  have digitB : (a * 4 + b / 16) % 4 * 16 + (b % 16 * 16 + c / 4) / 16 = b := by omega
  have digitC : (b % 16 * 16 + c / 4) % 16 * 4 + (c % 4 * 64 + d) / 64 = c := by omega
  have digitD : (c % 4 * 64 + d) % 64 = d := by omega
  simp only [List.cons_append, List.nil_append, encodeChars, first, middle, last, digitA, digitB,
    digitC, digitD]

theorem encodeChars_of_lastBytes? (read : lastBytes? a b c = some bytes) :
    encodeChars bytes = [a, b, c, '='] := by
  simp only [lastBytes?, Option.bind_eq_bind, Option.bind_eq_some_iff, value?_eq_some,
    Option.ite_none_right_eq_some, Option.some.injEq] at read
  obtain ⟨a, ⟨boundA, rfl⟩, b, ⟨boundB, rfl⟩, c, ⟨boundC, rfl⟩, noRest, rfl⟩ := read
  have first : (UInt8.ofNat (a * 4 + b / 16)).toNat = a * 4 + b / 16 :=
    UInt8.toNat_ofNat_of_lt' (show _ < 256 by omega)
  have last : (UInt8.ofNat (b % 16 * 16 + c / 4)).toNat = b % 16 * 16 + c / 4 :=
    UInt8.toNat_ofNat_of_lt' (show _ < 256 by omega)
  have digitA : (a * 4 + b / 16) / 4 = a := by omega
  have digitB : (a * 4 + b / 16) % 4 * 16 + (b % 16 * 16 + c / 4) / 16 = b := by omega
  have digitC : (b % 16 * 16 + c / 4) % 16 * 4 = c := by omega
  simp only [encodeChars, first, last, digitA, digitB, digitC]

theorem encodeChars_of_lastByte? (read : lastByte? a b = some bytes) :
    encodeChars bytes = [a, b, '=', '='] := by
  simp only [lastByte?, Option.bind_eq_bind, Option.bind_eq_some_iff, value?_eq_some,
    Option.ite_none_right_eq_some, Option.some.injEq] at read
  obtain ⟨a, ⟨boundA, rfl⟩, b, ⟨boundB, rfl⟩, noRest, rfl⟩ := read
  have only : (UInt8.ofNat (a * 4 + b / 16)).toNat = a * 4 + b / 16 :=
    UInt8.toNat_ofNat_of_lt' (show _ < 256 by omega)
  have digitA : (a * 4 + b / 16) / 4 = a := by omega
  have digitB : (a * 4 + b / 16) % 4 * 16 = b := by omega
  simp only [encodeChars, only, digitA, digitB]

theorem encodeChars_of_decodeChars? {cs : List Char} (read : decodeChars? cs = some bytes) :
    encodeChars bytes = cs := by
  fun_induction decodeChars? cs generalizing bytes with
  | case1 =>
      obtain rfl := Option.some.inj read
      rfl
  | case2 a b => exact encodeChars_of_lastByte? read
  | case3 a b c => exact encodeChars_of_lastBytes? read
  | case4 a b c d rest _ _ induction =>
      simp only [Option.bind_eq_bind, Option.bind_eq_some_iff, Option.some.injEq] at read
      obtain ⟨group, readGroup, others, readOthers, rfl⟩ := read
      rw [encodeChars_of_bytes? readGroup, induction readOthers]
  | case5 => cases read

theorem decodeChars?_eq_some {cs : List Char} :
    decodeChars? cs = some bytes ↔ cs = encodeChars bytes := by
  constructor
  · intro read
    exact (encodeChars_of_decodeChars? read).symm
  · intro written
    rw [written]
    exact decodeChars?_encodeChars bytes

/-- A text is read as bytes just if it is their text. -/
theorem decode?_eq_some {text : String} : decode? text = some bytes ↔ text = encode bytes := by
  rw [decode?, decodeChars?_eq_some, encode, ← String.toList_inj, String.toList_ofList]

end Exact

end Workflow.Base64
