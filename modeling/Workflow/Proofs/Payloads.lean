import Mathlib.Data.Set.Function
import Workflow.Proofs.DigitBits
import Workflow.Proofs.ValueDocument

/-!
# Texts of payloads

The texts that are read as bytes are the texts that are written for bytes, one for each list
of bytes.  Any other text has a foreign character, a filler before a digit, too few or too
many fillers, a digit that is alone in its group, or bits that no byte takes up.  The
document of an image is read just if the text of its bytes is.
-/

namespace Workflow

namespace Base64

variable {c last : Char} {cs digits before : List Char} {fillers : Nat}
  {bytes : List UInt8}

/-- How many fillers complete the last group of four. -/
def due (count : Nat) : Nat :=
  (4 - count % 4) % 4

/-- What keeps a text from being read. -/
inductive Defective : List Char → Prop
  /-- A character that is neither a digit nor the filler, such as a blank. -/
  | foreign {cs : List Char} {c : Char} :
      c ∈ cs → c ∉ alphabet → c ≠ '=' → Defective cs
  /-- A filler with a digit behind it. -/
  | early (before after : List Char) {c : Char} :
      c ∈ alphabet → Defective (before ++ '=' :: c :: after)
  /-- Too few fillers. -/
  | missing (digits : List Char) (fillers : Nat) :
      (∀ c ∈ digits, c ∈ alphabet) → fillers < due digits.length →
        Defective (digits ++ List.replicate fillers '=')
  /-- Too many fillers. -/
  | surplus (digits : List Char) (fillers : Nat) :
      (∀ c ∈ digits, c ∈ alphabet) → due digits.length < fillers →
        Defective (digits ++ List.replicate fillers '=')
  /-- A digit alone in the last group, which is less than a byte. -/
  | alone (digits : List Char) (fillers : Nat) :
      (∀ c ∈ digits, c ∈ alphabet) → digits.length % 4 = 1 →
        Defective (digits ++ List.replicate fillers '=')
  /-- A bit that is not zero behind the last byte. -/
  | stray (before : List Char) (last : Char) (fillers : Nat) :
      (∀ c ∈ before ++ [last], c ∈ alphabet) → ¬ 2 ^ (2 * fillers) ∣ alphabet.idxOf last →
        Defective (before ++ [last] ++ List.replicate fillers '=')

theorem value?_of_known (known : c ∈ alphabet) : value? c = some (alphabet.idxOf c) :=
  value?_eq_some.mpr (digit_idxOf known)

section Groups

variable {a b c d : Char}

theorem exists_lastByte? (known : ∀ e ∈ [a, b], e ∈ alphabet) (taken : 16 ∣ alphabet.idxOf b) :
    ∃ bytes, lastByte? a b = some bytes := by
  simp only [List.forall_mem_cons] at known
  obtain ⟨knownA, knownB, -⟩ := known
  simp only [lastByte?, value?_of_known knownA, value?_of_known knownB, Option.bind_eq_bind,
    Option.bind_some, if_pos (Nat.mod_eq_zero_of_dvd taken)]
  exact ⟨_, rfl⟩

theorem exists_lastBytes? (known : ∀ e ∈ [a, b, c], e ∈ alphabet)
    (taken : 4 ∣ alphabet.idxOf c) : ∃ bytes, lastBytes? a b c = some bytes := by
  simp only [List.forall_mem_cons] at known
  obtain ⟨knownA, knownB, knownC, -⟩ := known
  simp only [lastBytes?, value?_of_known knownA, value?_of_known knownB, value?_of_known knownC,
    Option.bind_eq_bind, Option.bind_some, if_pos (Nat.mod_eq_zero_of_dvd taken)]
  exact ⟨_, rfl⟩

theorem exists_bytes? (known : ∀ e ∈ [a, b, c, d], e ∈ alphabet) :
    ∃ bytes, bytes? a b c d = some bytes := by
  simp only [List.forall_mem_cons] at known
  obtain ⟨knownA, knownB, knownC, knownD, -⟩ := known
  simp only [bytes?, value?_of_known knownA, value?_of_known knownB, value?_of_known knownC,
    value?_of_known knownD, Option.bind_eq_bind, Option.bind_some]
  exact ⟨_, rfl⟩

end Groups

/-- Digits are read if no digit is alone, the last group is completed and no bit is left. -/
theorem exists_decodeChars? : ∀ digits : List Char, (∀ c ∈ digits, c ∈ alphabet) →
    digits.length % 4 ≠ 1 →
    (∀ before last, digits = before ++ [last] →
      2 ^ (2 * due digits.length) ∣ alphabet.idxOf last) →
    ∃ bytes, decodeChars? (digits ++ List.replicate (due digits.length) '=') = some bytes
  | [], _, _, _ => ⟨[], rfl⟩
  | [_], _, several, _ => absurd rfl several
  | [a, b], known, _, taken => by
      obtain ⟨bytes, read⟩ := exists_lastByte? known (taken [a] b rfl)
      exact ⟨bytes, read⟩
  | [a, b, c], known, _, taken => by
      obtain ⟨bytes, read⟩ := exists_lastBytes? known (taken [a, b] c rfl)
      have notFiller := ne_filler (known c (by simp))
      refine ⟨bytes, ?_⟩
      change decodeChars? [a, b, c, '='] = some bytes
      rw [decodeChars?]
      · exact read
      · exact notFiller
  | a :: b :: c :: d :: digits, known, several, taken => by
      have parts : a :: b :: c :: d :: digits = [a, b, c, d] ++ digits := rfl
      have sameDue : due (a :: b :: c :: d :: digits).length = due digits.length := by
        simp only [due, List.length_cons]
        omega
      rw [parts, List.forall_mem_append] at known
      obtain ⟨knownHere, knownLater⟩ := known
      have severalLater : digits.length % 4 ≠ 1 := by
        simp only [List.length_cons] at several
        omega
      have takenLater : ∀ before last, digits = before ++ [last] →
          2 ^ (2 * due digits.length) ∣ alphabet.idxOf last := by
        rintro before last rfl
        rw [← sameDue]
        exact taken (a :: b :: c :: d :: before) last rfl
      obtain ⟨group, readGroup⟩ := exists_bytes? knownHere
      obtain ⟨bytes, readLater⟩ := exists_decodeChars? digits knownLater severalLater takenLater
      refine ⟨group ++ bytes, ?_⟩
      rw [sameDue]
      simp only [List.cons_append]
      rw [decodeChars?_cons (ne_filler (knownHere d (by simp))), readGroup, Option.bind_some,
        readLater, Option.map_some]

/-- Familiar characters without an early filler are digits and fillers behind them. -/
theorem exists_layout (familiar : ∀ c ∈ cs, c ∈ alphabet ∨ c = '=')
    (late : ∀ before c after, cs = before ++ '=' :: c :: after → c ∉ alphabet) :
    ∃ digits fillers, cs = digits ++ List.replicate fillers '=' ∧ ∀ c ∈ digits, c ∈ alphabet := by
  induction cs with
  | nil => exact ⟨[], 0, rfl, List.forall_mem_nil _⟩
  | cons c cs induction =>
      obtain ⟨here, later⟩ := List.forall_mem_cons.mp familiar
      have lateLater : ∀ before d after, cs = before ++ '=' :: d :: after → d ∉ alphabet := by
        rintro before d after rfl
        exact late (c :: before) d after rfl
      obtain ⟨digits, fillers, rfl, known⟩ := induction later lateLater
      rcases here with digitHere | rfl
      · exact ⟨c :: digits, fillers, rfl, List.forall_mem_cons.mpr ⟨digitHere, known⟩⟩
      · cases digits with
        | nil => exact ⟨[], fillers + 1, rfl, List.forall_mem_nil _⟩
        | cons d digits =>
            have knownHere := known d List.mem_cons_self
            exact absurd knownHere (late [] d (digits ++ List.replicate fillers '=') rfl)

theorem filter_layout (known : ∀ c ∈ digits, c ∈ alphabet) (fillers : Nat) :
    (digits ++ List.replicate fillers '=').filter (· ≠ '=') = digits := by
  have noFillers : (List.replicate fillers '=').filter (· ≠ '=') = [] := by
    simp
  have noDigit : digits.filter (· ≠ '=') = digits := by
    apply List.filter_eq_self.mpr
    intro c member
    exact decide_eq_true (ne_filler (known c member))
  rw [List.filter_append, noFillers, noDigit, List.append_nil]

theorem Spells.stands (spells : Spells (digits ++ List.replicate fillers '=') bytes)
    (known : ∀ c ∈ digits, c ∈ alphabet) : Stands digits fillers bytes := by
  obtain ⟨others, otherFillers, same, stands⟩ := spells
  have sameDigits := congrArg (List.filter (· ≠ '=')) same
  rw [filter_layout known, filter_layout stands.known] at sameDigits
  subst sameDigits
  have sameFillers := congrArg List.length (List.append_cancel_left same)
  rw [List.length_replicate, List.length_replicate] at sameFillers
  rwa [sameFillers]

theorem Spells.fillers_last (spells : Spells cs bytes) :
    cs.Pairwise fun c d => c = '=' → d = '=' := by
  obtain ⟨digits, fillers, rfl, stands⟩ := spells
  rw [List.pairwise_append]
  refine ⟨?_, ?_, ?_⟩
  · apply List.pairwise_iff_forall_sublist.mpr
    intro c d sublist filler
    have known := stands.known c (sublist.subset List.mem_cons_self)
    exact absurd filler (ne_filler known)
  · exact List.pairwise_replicate.mpr (.inr fun _ => rfl)
  · intro c _ d member _
    exact List.eq_of_mem_replicate member

theorem Stands.fillers_eq (stands : Stands digits fillers bytes) :
    digits.length % 4 ≠ 1 ∧ fillers = due digits.length := by
  have length := stands.length_eq
  have few := stands.few
  rw [due]
  omega

/-- The bits behind the last byte are zero. -/
theorem Stands.dvd_last (stands : Stands (before ++ [last]) fillers bytes) :
    2 ^ (2 * fillers) ∣ alphabet.idxOf last := by
  have few := stands.few
  have width : 6 = (6 - 2 * fillers) + 2 * fillers := by omega
  have same := stands.same
  rw [digitBits, List.flatMap_append, List.flatMap_singleton, width, bits_split,
    ← List.append_assoc, ← bits_zero] at same
  obtain ⟨-, zero⟩ := List.append_inj' same (by rw [length_bits, length_bits])
  apply Nat.dvd_of_mod_eq_zero
  exact bits_injective (Nat.mod_lt _ (Nat.two_pow_pos _)) (Nat.two_pow_pos _) zero

theorem Defective.not_spells (defective : Defective cs) : ¬ Spells cs bytes := by
  intro spells
  cases defective with
  | foreign member unknown other =>
      obtain ⟨digits, fillers, rfl, stands⟩ := spells
      rcases List.mem_append.mp member with digit | filler
      · exact unknown (stands.known _ digit)
      · exact other (List.eq_of_mem_replicate filler)
  | early before after known =>
      obtain ⟨-, behind, -⟩ := List.pairwise_append.mp spells.fillers_last
      have filler := List.rel_of_pairwise_cons behind List.mem_cons_self rfl
      exact ne_filler known filler
  | missing digits fillers known fewer =>
      obtain ⟨-, fillers⟩ := (spells.stands known).fillers_eq
      omega
  | surplus digits fillers known more =>
      obtain ⟨-, fillers⟩ := (spells.stands known).fillers_eq
      omega
  | alone digits fillers known length => exact (spells.stands known).fillers_eq.1 length
  | stray before last fillers known rest => exact rest (spells.stands known).dvd_last

/-- A text is not read just if it has a defect. -/
theorem decodeChars?_eq_none : decodeChars? cs = none ↔ Defective cs := by
  constructor
  · intro unread
    by_contra sound
    have familiar : ∀ c ∈ cs, c ∈ alphabet ∨ c = '=' := by
      intro c member
      by_contra unknown
      rw [not_or] at unknown
      exact sound (.foreign member unknown.1 unknown.2)
    have late : ∀ before c after, cs = before ++ '=' :: c :: after → c ∉ alphabet := by
      rintro before c after rfl known
      exact sound (.early before after known)
    obtain ⟨digits, fillers, rfl, known⟩ := exists_layout familiar late
    have enough : ¬ fillers < due digits.length := fun fewer => sound (.missing digits fillers known fewer)
    have notMore : ¬ due digits.length < fillers := fun more => sound (.surplus digits fillers known more)
    obtain rfl : fillers = due digits.length := by omega
    have several : digits.length % 4 ≠ 1 := fun length => sound (.alone digits _ known length)
    have taken : ∀ before last, digits = before ++ [last] →
        2 ^ (2 * due digits.length) ∣ alphabet.idxOf last := by
      rintro before last rfl
      by_contra rest
      exact sound (.stray before last _ known rest)
    obtain ⟨bytes, read⟩ := exists_decodeChars? digits known several taken
    rw [unread] at read
    cases read
  · intro defective
    cases read : decodeChars? cs with
    | none => rfl
    | some bytes =>
        have spells := spells_iff.mpr (decodeChars?_eq_some.mp read)
        exact absurd spells defective.not_spells

end Base64

namespace Image

open Document

variable {image : Image} {members : List (String × Document)}

/-- The members of an image's document with a text of one's own for the bytes. -/
def payloadMembers (image : Image) (text : String) : List (String × Document) :=
  member? "id" .string image.id ++ member? "mimeType" .string image.mimeType ++
    member "data" (.string text) ++ member? "url" .string image.url

theorem names_payloadMembers (image : Image) (text : String) :
    (image.payloadMembers text).map Prod.fst = image.members.map Prod.fst := by
  simp only [payloadMembers, Image.members, List.map_append]
  rfl

theorem ofDocument?_payload {text : String}
    (permutation : members.Perm (image.payloadMembers text)) :
    Image.ofDocument? (.record members) =
      (Base64.decode? text).map fun data => { image with data } := by
  have unique : ((image.payloadMembers text).map Prod.fst).Nodup := by
    rw [names_payloadMembers]
    exact image.nodup_members
  have distinct : (members.map Prod.fst).Nodup :=
    (permutation.map Prod.fst).nodup_iff.mpr unique
  have plain : ∀ field ∈ knownFields, field.aliases = [] := by decide
  obtain ⟨fields, gathered, found⟩ := exists_gatherAll plain distinct
  obtain ⟨id, mimeType, data, url⟩ :
      fields.lookup "id" = image.id.map .string ∧
      fields.lookup "mimeType" = image.mimeType.map .string ∧
      fields.lookup "data" = some (.string text) ∧
      fields.lookup "url" = image.url.map .string := by
    simp [found, lookup_perm permutation distinct, knownFields, payloadMembers,
      List.lookup_append]
  simp only [Image.ofDocument?, fields?, gathered, Fields.optional_string id,
    Fields.optional_string mimeType, Fields.withDefault_eq data, Fields.optional_string url,
    Document.string?, Option.bind_eq_bind, Option.bind_some]
  cases Base64.decode? text <;> rfl

end Image

namespace Base64

theorem isBlank_digit : ∀ value < 64, Text.isBlank (digit value) = false := by
  decide

theorem isBlank_of_known (known : c ∈ alphabet) : Text.isBlank c = false := by
  obtain ⟨value, bound, rfl⟩ := mem_alphabet.mp known
  exact isBlank_digit value bound

/-- The texts that are read are the texts that are written, one for each list of bytes, as
the standard has it and nothing else does.  Whatever has a defect is not read, and nothing
else is refused; a blank is a defect wherever it stands.  The document of an image is read
just if the text of its bytes is, and the image has these bytes. -/
theorem payloads_canonical :
    Set.BijOn encode Set.univ {text | (decode? text).isSome} ∧
      (∀ text bytes, decode? text = some bytes ↔ text = encode bytes) ∧
      (∀ write read, Standard write read ↔ write = encode ∧ read = decode?) ∧
      (∀ text, decode? text = none ↔ Defective text.toList) ∧
      (∀ text, (∃ c ∈ text.toList, Text.isBlank c) → decode? text = none) ∧
      ∀ (image : Image) (text : String) (members : List (String × Document)),
        members.Perm (image.payloadMembers text) →
          Image.ofDocument? (.record members) =
            (decode? text).map fun data => { image with data } := by
  refine ⟨⟨?_, ?_, ?_⟩, ?_, ?_, ?_, ?_, ?_⟩
  · intro bytes _
    exact Option.isSome_of_eq_some (decode?_encode bytes)
  · intro bytes _ others _ same
    have read := decode?_eq_some.mpr same
    rw [decode?_encode] at read
    exact Option.some.inj read
  · intro text accepted
    obtain ⟨bytes, read⟩ := Option.isSome_iff_exists.mp accepted
    exact ⟨bytes, Set.mem_univ bytes, (decode?_eq_some.mp read).symm⟩
  · exact fun text bytes => decode?_eq_some
  · exact fun write read => standard_iff
  · exact fun text => decodeChars?_eq_none
  · rintro text ⟨c, member, blank⟩
    have unknown : c ∉ alphabet := by
      intro known
      rw [isBlank_of_known known] at blank
      cases blank
    have noFiller : c ≠ '=' := by
      rintro rfl
      cases blank
    exact decodeChars?_eq_none.mpr (.foreign member unknown noFiller)
  · exact fun image text members permutation => Image.ofDocument?_payload permutation

/-- A postcard of two bytes: its text, some texts that are nearly the same, and the document
of an image with a blank in the text. -/
theorem postcard_canonical :
    decode? "aGk=" = some [104, 105] ∧
      decode? "aGk" = none ∧ decode? "aGk==" = none ∧ decode? "aG=k" = none ∧
      decode? "aGl=" = none ∧ decode? "aG-=" = none ∧
      (∃ c ∈ "aGk= ".toList, Text.isBlank c) ∧ decode? "aGk= " = none ∧
      Image.ofDocument? (.record [("data", .string "aGk="), ("id", .string "sea")]) =
        some { id := some "sea", data := [104, 105] } := by
  obtain ⟨-, written, -, refused, blank, documents⟩ := payloads_canonical
  have spaced : ∃ c ∈ "aGk= ".toList, Text.isBlank c := ⟨' ', by decide, by decide⟩
  have read : decode? "aGk=" = some [104, 105] := (written _ _).mpr rfl
  have known : ∀ c ∈ ['a', 'G', 'k'], c ∈ alphabet := by
    simp only [List.forall_mem_cons]
    exact ⟨by decide, by decide, by decide, List.forall_mem_nil _⟩
  have otherKnown : ∀ c ∈ ['a', 'G', 'l'], c ∈ alphabet := by
    simp only [List.forall_mem_cons]
    exact ⟨by decide, by decide, by decide, List.forall_mem_nil _⟩
  refine ⟨read, ?_, ?_, ?_, ?_, ?_, spaced, blank _ spaced, ?_⟩
  · exact (refused _).mpr (.missing ['a', 'G', 'k'] 0 known (by decide))
  · exact (refused _).mpr (.surplus ['a', 'G', 'k'] 2 known (by decide))
  · exact (refused _).mpr (.early ['a', 'G'] [] (by decide))
  · exact (refused _).mpr (.stray ['a', 'G'] 'l' 1 otherKnown (by decide))
  · have dash : '-' ∈ "aG-=".toList := by decide
    exact (refused _).mpr (.foreign dash (by decide) (by decide))
  · have permutation : [("data", Document.string "aGk="), ("id", .string "sea")].Perm
        (Image.payloadMembers { id := some "sea" } "aGk=") := .swap _ _ _
    rw [documents _ _ _ permutation, read]
    rfl

end Base64

end Workflow
