import Workflow.Proofs.Scalars

/-!
# Reading back documents

The compact text of a document is read back as that document, if no part of it is
unusable or a double and its whole numbers are in range.  The reader and the writer
agree on one rule for items between commas, which lists and records share.
-/

namespace Workflow.Document

variable {rest : List Char} {document : Document} {levels : Nat}

mutual

/-- How many levels of lists and records a document has. -/
def depth : Document → Nat
  | list items => depthOfItems items + 1
  | record members => depthOfMembers members + 1
  | null | bool _ | number _ | string _ | unusable => 0

def depthOfItems : List Document → Nat
  | [] => 0
  | item :: items => max (depth item) (depthOfItems items)

def depthOfMembers : List (String × Document) → Nat
  | [] => 0
  | (_, content) :: members => max (depth content) (depthOfMembers members)

end

theorem depthOfItems_le_iff {items : List Document} :
    depthOfItems items ≤ levels ↔ ∀ item ∈ items, item.depth ≤ levels := by
  induction items with
  | nil => simp [depthOfItems]
  | cons item items induction =>
      simp only [depthOfItems, Nat.max_le, induction, List.forall_mem_cons]

theorem depthOfMembers_le_iff {members : List (String × Document)} :
    depthOfMembers members ≤ levels ↔ ∀ entry ∈ members, entry.2.depth ≤ levels := by
  induction members with
  | nil => simp [depthOfMembers]
  | cons entry members induction =>
      simp only [depthOfMembers, Nat.max_le, induction, List.forall_mem_cons]

theorem depth_list_le_iff {items : List Document} :
    (list items).depth ≤ levels + 1 ↔ ∀ item ∈ items, item.depth ≤ levels := by
  rw [depth, Nat.add_le_add_iff_right, depthOfItems_le_iff]

theorem depth_record_le_iff {members : List (String × Document)} :
    (record members).depth ≤ levels + 1 ↔ ∀ entry ∈ members, entry.2.depth ≤ levels := by
  rw [depth, Nat.add_le_add_iff_right, depthOfMembers_le_iff]

/-- No part of a document is lost in its text: none is unusable or a double, and every
whole number is in range. -/
inductive Exact : Document → Prop
  | null : Exact null
  | bool (value : Bool) : Exact (bool value)
  | int {value : Int} : leastInt ≤ value → value < Text.naturalLimit → Exact (number (.int value))
  | string (value : String) : Exact (string value)
  | list {items : List Document} : (∀ item ∈ items, Exact item) → Exact (list items)
  | record {members : List (String × Document)} :
      (∀ entry ∈ members, Exact entry.2) → Exact (record members)

/-- What stands behind the first item: the further items, each behind a comma, and the
closing character. -/
def further (write : α → List Char) (close : Char) : List α → List Char
  | [] => [close]
  | item :: items => ',' :: (write item ++ further write close items)

def writtenMember (entry : String × Document) : List Char :=
  quoted entry.1 ++ ':' :: written entry.2

theorem writtenItems_eq (items : List Document) :
    writtenItems items = further written ']' items := by
  induction items with
  | nil => rfl
  | cons item items induction => rw [writtenItems, induction, further]

theorem writtenMembers_eq (members : List (String × Document)) :
    writtenMembers members = further writtenMember '\x7d' members := by
  induction members with
  | nil => rfl
  | cons entry members induction =>
      rw [writtenMembers, induction, further, writtenMember, List.append_assoc, List.cons_append]

/-- The closing characters of lists and records. -/
def Closes (c : Char) : Prop :=
  c = ']' ∨ c = '\x7d'

/-- A text starts neither with a blank nor with a closing character. -/
def Opens (cs : List Char) : Prop :=
  ∃ c rest, cs = c :: rest ∧ ¬isSpace c ∧ ¬Closes c

theorem Opens.append {cs : List Char} (opens : Opens cs) (rest : List Char) :
    Opens (cs ++ rest) := by
  obtain ⟨c, cs, rfl, first⟩ := opens
  exact ⟨c, cs ++ rest, rfl, first⟩

theorem Opens.skipSpace_eq {cs : List Char} (opens : Opens cs) : skipSpace cs = cs := by
  obtain ⟨c, cs, rfl, visible, -⟩ := opens
  exact List.dropWhile_cons_of_neg visible

section Sequences

variable {write : α → List Char} {value : α → β} {close : Char}
  {item : List Char → Option (β × List Char)}

theorem ends_further (closes : Closes close) (items : List α) (rest : List Char) :
    Ends (further write close items ++ rest) := by
  cases items with
  | cons item items =>
      rintro _ ⟨⟩
      decide
  | nil =>
      rintro _ ⟨⟩
      rcases closes with rfl | rfl <;> decide

theorem length_le_further (items : List α) : items.length ≤ (further write close items).length := by
  induction items with
  | nil => exact Nat.zero_le _
  | cons item items induction =>
      simp only [further, List.length_cons, List.length_append]
      omega

theorem readSequence_further (closes : Closes close) {first : α} {items : List α}
    (opens : ∀ a ∈ first :: items, Opens (write a))
    (reads : ∀ a ∈ first :: items, ∀ rest, Ends rest →
      item (write a ++ rest) = some (value a, rest))
    (rest : List Char) {bound : Nat} (enough : items.length < bound) :
    readSequence item close bound (write first ++ (further write close items ++ rest)) =
      some ((first :: items).map value, rest) := by
  obtain ⟨bound, rfl⟩ := Nat.exists_eq_succ_of_ne_zero (Nat.ne_of_gt (Nat.zero_lt_of_lt enough))
  have read : item (write first ++ (further write close items ++ rest)) =
      some (value first, further write close items ++ rest) :=
    reads first List.mem_cons_self _ (ends_further closes items rest)
  induction items generalizing first bound with
  | nil =>
      rw [readSequence, read]
      simp only [Option.bind_eq_bind, Option.bind_some, further, List.cons_append, List.nil_append]
      rcases closes with rfl | rfl <;> rfl
  | cons second items induction =>
      have opened := (opens second (by simp)).append (further write close items ++ rest)
      have enough := Nat.lt_of_succ_lt_succ enough
      obtain ⟨bound, rfl⟩ :=
        Nat.exists_eq_succ_of_ne_zero (Nat.ne_of_gt (Nat.zero_lt_of_lt enough))
      have later := induction
        (fun a member => opens a (List.mem_cons_of_mem first member))
        (fun a member => reads a (List.mem_cons_of_mem first member)) bound enough
        (reads second (by simp) _ (ends_further closes items rest))
      have visible : ∀ cs, skipSpace (',' :: cs) = ',' :: cs := fun _ => rfl
      rw [readSequence, read]
      simp only [Option.bind_eq_bind, Option.bind_some, further, List.cons_append,
        List.append_assoc, visible, opened.skipSpace_eq, later, List.map_cons]

theorem readItems_further (closes : Closes close) {first : α} {items : List α}
    (opens : ∀ a ∈ first :: items, Opens (write a))
    (reads : ∀ a ∈ first :: items, ∀ rest, Ends rest →
      item (write a ++ rest) = some (value a, rest))
    (rest : List Char) :
    readItems item close (write first ++ (further write close items ++ rest)) =
      some ((first :: items).map value, rest) := by
  have opened := (opens first List.mem_cons_self).append (further write close items ++ rest)
  have enough : items.length < (write first ++ (further write close items ++ rest)).length := by
    have least : items.length ≤ (further write close items).length := length_le_further items
    have filled : 0 < (write first).length := by
      obtain ⟨c, cs, written, -⟩ := opens first List.mem_cons_self
      rw [written]
      exact Nat.zero_lt_succ _
    simp only [List.length_append]
    omega
  have sequence := readSequence_further closes opens reads rest enough
  unfold readItems
  rw [opened.skipSpace_eq]
  obtain ⟨c, cs, starts, -, inside⟩ := opened
  rw [starts] at sequence ⊢
  have different : c ≠ close := by
    rintro rfl
    exact inside closes
  simp only [different, if_false, sequence]

end Sequences

theorem exists_numberText_cons (value : Int) :
    ∃ c cs, numberText (.int value) = c :: cs ∧ (c = '-' ∨ Text.isDigit c) := by
  by_cases negative : value < 0
  · simp only [numberText, negative, if_true]
    exact ⟨'-', _, rfl, .inl rfl⟩
  · simp only [numberText, negative, if_false]
    have filled : Nat.toDigits 10 value.natAbs ≠ [] := Nat.toDigits_ne_nil
    obtain ⟨c, cs, written⟩ := List.exists_cons_of_ne_nil filled
    have member : c ∈ Nat.toDigits 10 value.natAbs := by simp [written]
    exact ⟨c, cs, written, .inr (isDigit_of_mem_toDigits member)⟩

theorem opens_numberText (value : Int) : Opens (numberText (.int value)) := by
  obtain ⟨c, cs, written, first⟩ := exists_numberText_cons value
  refine ⟨c, cs, written, ?_, ?_⟩
  · intro space
    simp only [isSpace, Bool.or_eq_true, beq_iff_eq] at space
    rcases space with ((rfl | rfl) | rfl) | rfl <;> revert first <;> decide
  · rintro (rfl | rfl) <;> revert first <;> decide

theorem opens_quoted (name : String) : Opens (quoted name) :=
  ⟨'"', _, rfl, by decide, by simp [Closes]⟩

theorem Exact.opens (exact : document.Exact) : Opens document.written := by
  have opens : ∀ c rest, ¬isSpace c → ¬Closes c → Opens (c :: rest) :=
    fun c rest visible inside => ⟨c, rest, rfl, visible, inside⟩
  cases exact with
  | null => exact opens 'n' _ (by decide) (by simp [Closes])
  | bool value =>
      cases value with
      | true => exact opens 't' _ (by decide) (by simp [Closes])
      | false => exact opens 'f' _ (by decide) (by simp [Closes])
  | @int value =>
      rw [written]
      exact opens_numberText value
  | string value =>
      rw [written]
      exact opens_quoted value
  | @list items =>
      cases items <;> rw [written] <;> exact opens '[' _ (by decide) (by simp [Closes])
  | @record members =>
      cases members <;> rw [written] <;> exact opens '\x7b' _ (by decide) (by simp [Closes])

theorem depthOfItems_lt_length {items : List Document}
    (shallow : ∀ item ∈ items, item.depth ≤ item.written.length) :
    depthOfItems items < (further written ']' items).length := by
  induction items with
  | nil => exact Nat.zero_lt_one
  | cons item items induction =>
      have first := shallow item List.mem_cons_self
      have later := induction fun other member => shallow other (List.mem_cons_of_mem item member)
      simp only [depthOfItems, further, List.length_cons, List.length_append]
      omega

theorem depthOfMembers_lt_length {members : List (String × Document)}
    (shallow : ∀ entry ∈ members, entry.2.depth ≤ entry.2.written.length) :
    depthOfMembers members < (further writtenMember '\x7d' members).length := by
  induction members with
  | nil => exact Nat.zero_lt_one
  | cons entry members induction =>
      have first := shallow entry List.mem_cons_self
      have later := induction fun other member => shallow other (List.mem_cons_of_mem entry member)
      simp only [depthOfMembers, further, writtenMember, List.length_cons, List.length_append]
      omega

theorem length_further_le_list (items : List Document) :
    (further written ']' items).length ≤ (list items).written.length := by
  cases items with
  | nil => exact Nat.le_succ 1
  | cons item items => simp [written, writtenItems_eq, further]

theorem length_further_le_record (members : List (String × Document)) :
    (further writtenMember '\x7d' members).length ≤ (record members).written.length := by
  cases members with
  | nil => exact Nat.le_succ 1
  | cons entry members => simp [written, writtenMembers_eq, further, writtenMember]

/-- The text of an exact document is at least as long as the document is deep. -/
theorem Exact.depth_le_length (exact : document.Exact) :
    document.depth ≤ document.written.length := by
  induction exact with
  | null | bool | int | string => exact Nat.zero_le _
  | @list items _ induction =>
      exact (depthOfItems_lt_length induction).trans_le (length_further_le_list items)
  | @record members _ induction =>
      exact (depthOfMembers_lt_length induction).trans_le (length_further_le_record members)

theorem nameMembers_map (members : List (String × Document)) :
    nameMembers (members.map fun entry => (some entry.1, entry.2)) = some members := by
  induction members with
  | nil => rfl
  | cons entry members induction => simp [nameMembers, induction]

theorem readMember_writtenMember {content : List Char → Option (Document × List Char)}
    {entry : String × Document} (opens : Opens entry.2.written)
    (reads : content (entry.2.written ++ rest) = some (entry.2, rest)) :
    readMember content (writtenMember entry ++ rest) = some ((some entry.1, entry.2), rest) := by
  have colon : ∀ cs, skipSpace (':' :: cs) = ':' :: cs := fun _ => rfl
  have shape : writtenMember entry ++ rest =
      '"' :: (entry.1.toList.flatMap escape ++ '"' :: ':' :: (entry.2.written ++ rest)) := by
    simp [writtenMember, quoted]
  rw [shape, readMember, readString_quoted]
  simp only [Option.bind_eq_bind, Option.bind_some, colon, (opens.append rest).skipSpace_eq, reads]

theorem readValue_number {value : Int} (least : leastInt ≤ value)
    (greatest : value < Text.naturalLimit) (ends : Ends rest) :
    readValue levels (numberText (.int value) ++ rest) = some (number (.int value), rest) := by
  have read := readNumber_int least greatest ends
  obtain ⟨c, cs, written, first⟩ := exists_numberText_cons value
  have other : ∀ d, ¬(d = '-' ∨ Text.isDigit d) → c ≠ d := by
    rintro d neither rfl
    exact neither first
  rw [written, List.cons_append] at read ⊢
  rw [readValue]
  · exact read
  · exact fun _ same => other 'n' (by decide) (List.cons.inj same).1
  · exact fun _ same => other 't' (by decide) (List.cons.inj same).1
  · exact fun _ same => other 'f' (by decide) (List.cons.inj same).1
  · exact fun _ same => other '"' (by decide) (List.cons.inj same).1
  · exact fun _ _ _ same => other '[' (by decide) (List.cons.inj same).1
  · exact fun _ _ _ same => other '\x7b' (by decide) (List.cons.inj same).1

/-- An exact document is read back by a reader that admits its levels, if what stands
behind it does not go on with a number. -/
theorem Exact.readValue_written (exact : document.Exact) (within : document.depth ≤ levels)
    (ends : Ends rest) :
    readValue levels (document.written ++ rest) = some (document, rest) := by
  induction exact generalizing levels rest with
  | null => simp [written, readValue]
  | bool value => cases value <;> simp [written, readValue]
  | int least greatest =>
      rw [written]
      exact readValue_number least greatest ends
  | string value =>
      have shape : written (.string value) ++ rest =
          '"' :: (value.toList.flatMap escape ++ '"' :: rest) := by
        simp [written, quoted]
      rw [shape, readValue, readString_quoted]
      rfl
  | @list items exact induction =>
      obtain ⟨levels, rfl⟩ : ∃ less, levels = less + 1 :=
        Nat.exists_eq_succ_of_ne_zero (Nat.ne_of_gt (Nat.zero_lt_of_lt within))
      have shallow := depth_list_le_iff.mp within
      cases items with
      | nil => simp [written, readValue, readItems, skipSpace, isSpace]
      | cons first items =>
          have read : readItems (readValue levels) ']'
              (first.written ++ (further written ']' items ++ rest)) =
                some ((first :: items).map id, rest) :=
            readItems_further (.inl rfl) (fun item member => (exact item member).opens)
              (fun item member rest ends => induction item member (shallow item member) ends) rest
          rw [written, writtenItems_eq, List.cons_append, List.append_assoc, readValue, read]
          simp
  | @record members exact induction =>
      obtain ⟨levels, rfl⟩ : ∃ less, levels = less + 1 :=
        Nat.exists_eq_succ_of_ne_zero (Nat.ne_of_gt (Nat.zero_lt_of_lt within))
      have shallow := depth_record_le_iff.mp within
      cases members with
      | nil => simp [written, readValue, readItems, skipSpace, isSpace, nameMembers]
      | cons first members =>
          have read : readItems (readMember (readValue levels)) '\x7d'
              (writtenMember first ++ (further writtenMember '\x7d' members ++ rest)) =
                some ((first :: members).map fun entry => (some entry.1, entry.2), rest) :=
            readItems_further (.inr rfl) (fun entry member => (opens_quoted entry.1).append _)
              (fun entry member rest ends => readMember_writtenMember (exact entry member).opens
                (induction entry member (shallow entry member) ends)) rest
          have shape : written (.record (first :: members)) ++ rest = '\x7b' ::
              (writtenMember first ++ (further writtenMember '\x7d' members ++ rest)) := by
            simp [written, writtenMembers_eq, writtenMember]
          rw [shape, readValue, read]
          simp only [Option.bind_eq_bind, Option.bind_some, nameMembers_map]

/-- The compact text of an exact document is read back. -/
theorem Exact.ofText?_text (exact : document.Exact) : ofText? document.text = some document := by
  have read : readValue document.written.length (document.written ++ []) = some (document, []) :=
    exact.readValue_written exact.depth_le_length (by rintro _ ⟨⟩)
  rw [List.append_nil] at read
  rw [ofText?, text, String.toList_ofList, ofChars?, exact.opens.skipSpace_eq, read]
  rfl

end Workflow.Document
