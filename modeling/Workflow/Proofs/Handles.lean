import Workflow.Graph.Port
import Workflow.Proofs.Scalars

/-!
# How handles are spelled

A handle names an overlay or a slot by a name with a number in brackets behind it.
Blanks may stand around the handle and around the number, and the number may have a
plus and leading zeros.  `Spells` tells all handles that name an index so; a port has
an index if and only if its handle is one of them.
-/

namespace Workflow

namespace Text

/-- Nothing but blank characters. -/
def Blank (cs : List Char) : Prop :=
  ∀ c ∈ cs, isBlank c

instance (cs : List Char) : Decidable (Blank cs) :=
  List.decidableBAll _ cs

/-- No blank character at either end. -/
structure Trimmed (cs : List Char) : Prop where
  first : ∀ c ∈ cs.head?, ¬isBlank c
  last : ∀ c ∈ cs.getLast?, ¬isBlank c

/-- Characters that write a number: decimal digits, behind a plus or behind nothing.
The number is below the limit. -/
structure Writes (cs : List Char) (value : Nat) : Prop where
  limit : value < naturalLimit
  digits : ∃ sign digits, cs = sign ++ digits ∧ (sign = [] ∨ sign = ['+']) ∧ digits ≠ [] ∧
    (∀ c ∈ digits, isDigit c) ∧ digitsValue digits = value

variable {cs content before after : List Char} {value : Nat}

theorem dropWhile_isBlank_eq_self (first : ∀ c ∈ cs.head?, ¬isBlank c) :
    cs.dropWhile isBlank = cs := by
  cases cs with
  | nil => rfl
  | cons c rest => exact List.dropWhile_cons_of_neg (first c rfl)

theorem trimChars_of_surrounded (trimmed : Trimmed content) (blankBefore : Blank before)
    (blankAfter : Blank after) : trimChars (before ++ content ++ after) = content := by
  have blankBehind : ∀ c ∈ after.reverse, isBlank c := by
    intro c member
    exact blankAfter c (List.mem_reverse.mp member)
  rw [trimChars, List.append_assoc, List.dropWhile_append_of_pos blankBefore]
  cases content with
  | nil =>
      rw [List.nil_append, List.dropWhile_eq_nil_iff.mpr blankAfter]
      rfl
  | cons c rest =>
      have front : (c :: rest ++ after).dropWhile isBlank = c :: rest ++ after :=
        dropWhile_isBlank_eq_self trimmed.first
      have back : (c :: rest).reverse.dropWhile isBlank = (c :: rest).reverse :=
        dropWhile_isBlank_eq_self (by simpa only [List.head?_reverse] using trimmed.last)
      rw [front, List.reverse_append, List.dropWhile_append_of_pos blankBehind, back,
        List.reverse_reverse]

theorem dropWhile_isBlank_eq (cs : List Char) :
    cs.dropWhile isBlank =
      trimChars cs ++ ((cs.dropWhile isBlank).reverse.takeWhile isBlank).reverse := by
  rw [trimChars, ← List.reverse_append, List.takeWhile_append_dropWhile, List.reverse_reverse]

theorem exists_surroundings (cs : List Char) :
    ∃ before after, cs = before ++ trimChars cs ++ after ∧ Blank before ∧ Blank after := by
  refine ⟨cs.takeWhile isBlank, ((cs.dropWhile isBlank).reverse.takeWhile isBlank).reverse,
    ?_, ?_, ?_⟩
  · rw [List.append_assoc, ← dropWhile_isBlank_eq]
    exact List.takeWhile_append_dropWhile.symm
  · exact fun c member => List.mem_takeWhile_imp member
  · intro c member
    exact List.mem_takeWhile_imp (List.mem_reverse.mp member)

theorem trimmed_trimChars (cs : List Char) : Trimmed (trimChars cs) := by
  have solid : ∀ (cs : List Char), ∀ c ∈ (cs.dropWhile isBlank).head?, ¬isBlank c := by
    intro cs c leads
    have dropped := List.head?_dropWhile_not isBlank cs
    rw [leads] at dropped
    simp [dropped]
  constructor
  · intro c leads
    apply solid cs c
    rw [dropWhile_isBlank_eq, List.head?_append, leads]
    rfl
  · intro c ends
    rw [trimChars, List.getLast?_reverse] at ends
    exact solid _ c ends

theorem Trimmed.of_solid (solid : ∀ c ∈ cs, ¬isBlank c) : Trimmed cs :=
  ⟨fun c first => solid c (List.mem_of_mem_head? first),
    fun c last => solid c (List.mem_of_mem_getLast? last)⟩

theorem digits?_eq_some :
    digits? cs = some value ↔
      value < naturalLimit ∧ cs ≠ [] ∧ (∀ c ∈ cs, isDigit c) ∧ digitsValue cs = value := by
  unfold digits?
  by_cases unfit : (cs.isEmpty || !cs.all isDigit) = true
  · simp only [unfit, if_true, reduceCtorEq, false_iff]
    intro conditions
    obtain ⟨-, notEmpty, digits, -⟩ := conditions
    have fit : cs.isEmpty = false ∧ cs.all isDigit = true :=
      ⟨List.isEmpty_eq_false_iff.mpr notEmpty, List.all_eq_true.mpr digits⟩
    simp [fit] at unfit
  · grind

theorem naturalChars?_eq_some : naturalChars? cs = some value ↔ Writes cs value := by
  have noSign : ∀ {rest : List Char}, ¬∀ c ∈ '+' :: rest, isDigit c := by
    intro rest digits
    exact absurd (digits '+' List.mem_cons_self) (by decide)
  constructor
  · intro read
    unfold naturalChars? at read
    split at read
    · obtain ⟨limit, notEmpty, digits, same⟩ := digits?_eq_some.mp read
      exact ⟨limit, ['+'], _, rfl, Or.inr rfl, notEmpty, digits, same⟩
    · obtain ⟨limit, notEmpty, digits, same⟩ := digits?_eq_some.mp read
      exact ⟨limit, [], _, rfl, Or.inl rfl, notEmpty, digits, same⟩
  · intro writes
    obtain ⟨limit, sign, digits, rfl, signed, notEmpty, allDigits, same⟩ := writes
    have read : digits? digits = some value :=
      digits?_eq_some.mpr ⟨limit, notEmpty, allDigits, same⟩
    rcases signed with rfl | rfl
    · unfold naturalChars?
      split
      · rename_i rest signed
        rw [List.nil_append] at signed
        exact absurd allDigits (signed ▸ noSign)
      · exact read
    · exact read

theorem isBlank_eq_false_of_isDigit {c : Char} (digit : isDigit c) : isBlank c = false := by
  simp only [isDigit, Bool.and_eq_true, decide_eq_true_eq] at digit
  simp only [isBlank, Bool.or_eq_false_iff, Bool.and_eq_false_iff, decide_eq_false_iff_not,
    beq_eq_false_iff_ne]
  omega

theorem Writes.trimmed (writes : Writes cs value) : Trimmed cs := by
  obtain ⟨-, sign, digits, rfl, signed, -, allDigits, -⟩ := writes
  apply Trimmed.of_solid
  intro c member
  rcases List.mem_append.mp member with inSign | isDigit
  · rcases signed with rfl | rfl
    · exact absurd inSign List.not_mem_nil
    · rw [List.mem_singleton.mp inSign]
      decide
  · simp [isBlank_eq_false_of_isDigit (allDigits c isDigit)]

theorem digitsValue_toDigits (value : Nat) : digitsValue (Nat.toDigits 10 value) = value :=
  Nat.ofDigitChars_ten_toDigits

theorem writes_toDigits (limit : value < naturalLimit) : Writes (Nat.toDigits 10 value) value :=
  ⟨limit, [], _, rfl, .inl rfl, Nat.toDigits_ne_nil,
    fun _ member => Document.isDigit_of_mem_toDigits member, digitsValue_toDigits value⟩

end Text

namespace Port

open Text

variable {cs rest inside : List Char} {name other : String} {index : Nat}

theorem after?_eq_some {start : List Char} : after? start cs = some rest ↔ cs = start ++ rest := by
  induction start generalizing cs with
  | nil => simp [after?]
  | cons a start induction =>
      cases cs with
      | nil => simp [after?]
      | cons c cs =>
          by_cases same : a = c
          · simp [after?, same, induction]
          · simp [after?, same, Ne.symm same]

theorem bracketed?_eq_some : bracketed? cs = some inside ↔ cs = '[' :: (inside ++ [']']) := by
  constructor
  · intro enclosed
    unfold bracketed? at enclosed
    split at enclosed
    · split at enclosed
      · rename_i rest back closed
        obtain rfl := Option.some.inj enclosed
        rw [← List.reverse_cons, ← closed, List.reverse_reverse]
      · simp at enclosed
    · simp at enclosed
  · intro enclosed
    simp [bracketed?, enclosed]

/-- A name in front of a number in brackets, with blanks around the number. -/
def Indexed (name : String) (cs : List Char) (index : Nat) : Prop :=
  ∃ left number right, cs = name.toList ++ '[' :: (left ++ number ++ right ++ [']']) ∧
    Blank left ∧ Blank right ∧ Writes number index

theorem index?_eq_some : index? name cs = some index ↔ Indexed name cs index := by
  simp only [index?, Option.bind_eq_bind, Option.bind_eq_some_iff, after?_eq_some,
    bracketed?_eq_some, naturalChars?_eq_some]
  constructor
  · intro read
    obtain ⟨_, rfl, inside, rfl, writes⟩ := read
    obtain ⟨left, right, surrounded, blankLeft, blankRight⟩ := exists_surroundings inside
    rw [surrounded]
    exact ⟨left, _, right, rfl, blankLeft, blankRight, writes⟩
  · intro indexed
    obtain ⟨left, number, right, rfl, blankLeft, blankRight, writes⟩ := indexed
    refine ⟨_, rfl, left ++ number ++ right, rfl, ?_⟩
    rw [trimChars_of_surrounded writes.trimmed blankLeft blankRight]
    exact writes

/-- A name with neither a bracket nor a blank. -/
def Plain (name : String) : Prop :=
  name.toList.all fun c => c ≠ '[' && !isBlank c

theorem Plain.of_mem (plain : Plain name) {c : Char} (member : c ∈ name.toList) :
    c ≠ '[' ∧ ¬isBlank c := by
  simpa using List.all_eq_true.mp plain c member

theorem Indexed.takeWhile_eq (plain : Plain name) (indexed : Indexed name cs index) :
    cs.takeWhile (· ≠ '[') = name.toList := by
  obtain ⟨left, number, right, rfl, -⟩ := indexed
  have unbracketed : ∀ c ∈ name.toList, decide (c ≠ '[') = true := by
    intro c member
    exact decide_eq_true (plain.of_mem member).1
  rw [List.takeWhile_append_of_pos unbracketed]
  simp

/-- What stands in front of the bracket is the name, and what it encloses the index. -/
theorem Indexed.unique (plain : Plain name) (otherPlain : Plain other) {second : Nat}
    (indexed : Indexed name cs index) (again : Indexed other cs second) :
    name = other ∧ index = second := by
  have front := indexed.takeWhile_eq plain
  have otherFront := again.takeWhile_eq otherPlain
  obtain rfl : name = other := String.toList_injective (front.symm.trans otherFront)
  have first := index?_eq_some.mpr indexed
  rw [index?_eq_some.mpr again] at first
  exact ⟨rfl, (Option.some.inj first).symm⟩

theorem Indexed.trimmed (plain : Plain name) (indexed : Indexed name cs index) : Trimmed cs := by
  obtain ⟨left, number, right, rfl, -⟩ := indexed
  constructor
  · intro c first
    cases opened : name.toList with
    | nil =>
        obtain rfl : '[' = c := by simpa [opened] using first
        decide
    | cons d rest =>
        obtain rfl : d = c := by simpa [opened] using first
        exact (plain.of_mem (by simp [opened])).2
  · intro c last
    have closed : name.toList ++ '[' :: (left ++ number ++ right ++ [']']) =
        name.toList ++ '[' :: (left ++ number ++ right) ++ [']'] := by
      simp
    rw [closed, List.getLast?_concat] at last
    obtain rfl := Option.some.inj last
    decide

theorem indexAmong?_eq_some {names : List String} (plain : ∀ name ∈ names, Plain name) :
    indexAmong? names cs = some index ↔ ∃ name ∈ names, Indexed name cs index := by
  constructor
  · intro found
    obtain ⟨name, member, read⟩ := List.exists_of_findSome?_eq_some found
    exact ⟨name, member, index?_eq_some.mp read⟩
  · intro named
    obtain ⟨name, member, indexed⟩ := named
    have isSome : (indexAmong? names cs).isSome := by
      rw [indexAmong?, List.findSome?_isSome_iff]
      exact ⟨name, member, by rw [index?_eq_some.mpr indexed]; rfl⟩
    obtain ⟨second, found⟩ := Option.isSome_iff_exists.mp isSome
    obtain ⟨other, otherMember, read⟩ := List.exists_of_findSome?_eq_some found
    have again := index?_eq_some.mp read
    rw [found, (indexed.unique (plain name member) (plain other otherMember) again).2]

theorem indexAmong?_ne_some {names : List String} (unbracketed : '[' ∉ cs) :
    indexAmong? names cs ≠ some index := by
  intro found
  obtain ⟨name, -, read⟩ := List.exists_of_findSome?_eq_some found
  obtain ⟨left, number, right, rfl, -⟩ := index?_eq_some.mp read
  simp at unbracketed

/-- A handle that spells an index of one of the names, with blanks around it or not. -/
def Spells (names : List String) (handle : String) (index : Nat) : Prop :=
  ∃ name ∈ names, ∃ before spelled after, handle.toList = before ++ spelled ++ after ∧
    Blank before ∧ Blank after ∧ Indexed name spelled index

theorem indexAmong?_trimChars {names : List String} (plain : ∀ name ∈ names, Plain name)
    (handle : String) :
    indexAmong? names (trimChars handle.toList) = some index ↔ Spells names handle index := by
  rw [indexAmong?_eq_some plain]
  constructor
  · intro named
    obtain ⟨name, member, indexed⟩ := named
    obtain ⟨before, after, surrounded, blankBefore, blankAfter⟩ :=
      exists_surroundings handle.toList
    exact ⟨name, member, before, _, after, surrounded, blankBefore, blankAfter, indexed⟩
  · intro spells
    obtain ⟨name, member, before, spelled, after, surrounded, blankBefore, blankAfter, indexed⟩ :=
      spells
    refine ⟨name, member, ?_⟩
    rw [surrounded, trimChars_of_surrounded (indexed.trimmed (plain name member)) blankBefore
      blankAfter]
    exact indexed

end Port

namespace TargetPort

open Port

variable {handle : String} {index : Nat}

theorem plain_overlays : ∀ name ∈ ["overlays", "overlay"], Plain name := by
  unfold Plain
  decide

theorem plain_slots : ∀ name ∈ ["in", "inputs"], Plain name := by
  unfold Plain
  decide

theorem ofTrimmed_eq_overlay :
    ofTrimmed handle = .overlay index ↔
      indexAmong? ["overlays", "overlay"] handle.toList = some index := by
  unfold ofTrimmed
  split
  case h_13 =>
    cases indexAmong? ["overlays", "overlay"] handle.toList with
    | some found => simp
    | none => cases indexAmong? ["in", "inputs"] handle.toList <;> simp
  all_goals exact iff_of_false (by simp) (indexAmong?_ne_some (by decide))

theorem ofTrimmed_eq_slot :
    ofTrimmed handle = .slot index ↔
      indexAmong? ["in", "inputs"] handle.toList = some index := by
  unfold ofTrimmed
  split
  case h_13 =>
    cases overlays : indexAmong? ["overlays", "overlay"] handle.toList with
    | none => cases indexAmong? ["in", "inputs"] handle.toList <;> simp
    | some found =>
        refine iff_of_false (by simp) ?_
        intro slots
        obtain ⟨name, member, indexed⟩ := (indexAmong?_eq_some plain_overlays).mp overlays
        obtain ⟨other, otherMember, again⟩ := (indexAmong?_eq_some plain_slots).mp slots
        obtain ⟨rfl, -⟩ :=
          indexed.unique (plain_overlays name member) (plain_slots other otherMember) again
        have apart : ∀ name ∈ ["overlays", "overlay"], name ∉ ["in", "inputs"] := by decide
        exact apart name member otherMember
  all_goals exact iff_of_false (by simp) (indexAmong?_ne_some (by decide))

/-- A handle of a port that is neither the default one nor unknown is not blank. -/
theorem ofHandle_eq_iff {port : TargetPort} (notDefault : .default ≠ port)
    (known : .other "" ≠ port) :
    ofHandle (some handle) = port ↔ ofTrimmed (Text.trim handle) = port := by
  have unnamed : ofTrimmed "" = .other "" := by decide
  simp only [ofHandle]
  split
  · rename_i isEmpty
    rw [String.isEmpty_iff.mp isEmpty, unnamed]
    exact iff_of_false notDefault known
  · rfl

theorem ofHandle_eq_overlay :
    ofHandle (some handle) = .overlay index ↔ Spells ["overlays", "overlay"] handle index := by
  rw [ofHandle_eq_iff (by simp) (by simp), ofTrimmed_eq_overlay, Text.trim, String.toList_ofList,
    indexAmong?_trimChars plain_overlays]

theorem ofHandle_eq_slot :
    ofHandle (some handle) = .slot index ↔ Spells ["in", "inputs"] handle index := by
  rw [ofHandle_eq_iff (by simp) (by simp), ofTrimmed_eq_slot, Text.trim, String.toList_ofList,
    indexAmong?_trimChars plain_slots]

end TargetPort

end Workflow
