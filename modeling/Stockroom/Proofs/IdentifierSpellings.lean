import Mathlib.Data.List.SplitLengths
import Stockroom.Proofs.IdentifierForms
import Stockroom.Proofs.IdentifierOrder

/-!
# Which texts spell an identifier

In small letters an identifier has four spellings: its 32 digits, the digits in groups of 8, 4, 4, 4
and 12 with hyphens between them, and the grouped digits in braces or after `urn:uuid:`. What a
client sends in a field is accepted as an identifier exactly if it is one of them, once the blanks
at its ends are gone and its ASCII capitals are small. No other character is folded or passed over.

Results:
1. `layOut_hyphenated` and `mem_spellings_iff`: the forms that are read are the four spellings.
2. `read_of_form`: each of them is read.
3. `accepted_as_spelled`: the guarantee, together with the order of identifiers and of their texts.
-/
namespace Stockroom

open Text (trim lowerAscii isBlank)

/-! ## Trimmed texts -/

theorem trimEnd_of_no_blank {cs : List Char} (h : ∀ c ∈ cs, isBlank c = false) :
    Text.trimEnd cs = cs := by
  induction cs with
  | nil => rfl
  | cons c cs ih =>
    obtain ⟨hc, hcs⟩ := List.forall_mem_cons.1 h
    rw [Text.trimEnd_cons, ih hcs, hc, Bool.and_false, if_neg Bool.false_ne_true]

/-- A small-lettered text without blanks is what it is submitted as. -/
theorem lowerAscii_trim {s : String} (hblank : ∀ c ∈ s.toList, isBlank c = false)
    (hsmall : ∀ c ∈ s.toList, c.toLower = c) : lowerAscii (trim s) = s := by
  have hlead : s.toList.dropWhile isBlank = s.toList := by
    cases hs : s.toList with
    | nil => rfl
    | cons c cs =>
      have hc := hblank c (hs ▸ List.mem_cons_self)
      exact List.dropWhile_cons_of_neg (by rw [hc]; exact Bool.false_ne_true)
  rw [lowerAscii, trim, Text.trimChars, hlead, trimEnd_of_no_blank hblank, String.ofList_toList,
    List.map_congr_left hsmall, List.map_id', String.ofList_toList]

theorem utf8ByteSize_ascii {s : String} (h : ∀ c ∈ s.toList, c.utf8Size = 1) :
    s.utf8ByteSize = s.toList.length := by
  rw [Bytes.utf8ByteSize_eq, List.map_congr_left h, List.map_const', List.sum_replicate_nat,
    Nat.mul_one]

namespace Identifier

/-! ## Spellings -/

/-- The 32 small hexadecimal digits. -/
def digits (id : Identifier) : List Char := Bytes.toHexChars id.bytes

/-- The digits in groups of 8, 4, 4, 4 and 12, with hyphens between them. -/
def hyphenated (id : Identifier) : List Char :=
  ['-'].intercalate ([8, 4, 4, 4, 12].splitLengths id.digits)

/-- The texts that spell an identifier in small letters. -/
def spellings (id : Identifier) : List String :=
  [String.ofList id.digits, String.ofList id.hyphenated,
    "\x7b" ++ String.ofList id.hyphenated ++ "\x7d", "urn:uuid:" ++ String.ofList id.hyphenated]

/-- Places for digits alone take the next digits as they are. -/
theorem layOut_replicate_append {n : Nat} {places : List Place} {digits : List Char}
    (h : n ≤ digits.length) :
    layOut (List.replicate n .digit ++ places) digits =
      digits.take n ++ layOut places (digits.drop n) := by
  induction n generalizing digits with
  | zero => rfl
  | succ n ih =>
    cases digits with
    | nil => simp at h
    | cons c digits =>
      rw [List.replicate_succ, List.cons_append, layOut, ih (Nat.le_of_succ_le_succ h)]
      rfl

/-- Digits laid out over the places of the hyphenated form are the groups with their hyphens. -/
theorem layOut_hyphenated {digits : List Char} (h : digits.length = 32) :
    layOut hyphenatedPlaces digits = ['-'].intercalate ([8, 4, 4, 4, 12].splitLengths digits) := by
  have hlast : (List.replicate 12 Place.digit) = List.replicate 12 .digit ++ [] :=
    (List.append_nil _).symm
  rw [hyphenatedPlaces, hlast, layOut_replicate_append (by omega), layOut,
    layOut_replicate_append (by simp only [List.length_drop]; omega), layOut,
    layOut_replicate_append (by simp only [List.length_drop]; omega), layOut,
    layOut_replicate_append (by simp only [List.length_drop]; omega), layOut,
    layOut_replicate_append (by simp only [List.length_drop]; omega)]
  simp [List.intercalate, layOut]

/-- Digits alone have as many places as digits with hyphens. -/
theorem length_digits_plain (id : Identifier) : id.digits.length = room plainPlaces := by
  have hroom : room plainPlaces = room hyphenatedPlaces := by decide
  rw [hroom]
  exact id.length_digits

theorem layOut_plain {digits : List Char} (h : digits.length = 32) :
    layOut plainPlaces digits = digits := by
  have hplain : plainPlaces = List.replicate 32 .digit ++ [] := (List.append_nil _).symm
  rw [hplain, layOut_replicate_append (by omega), ← h, List.take_length, layOut, List.append_nil]

theorem textChars_eq (id : Identifier) : id.textChars = id.hyphenated :=
  layOut_hyphenated id.length_digits

theorem text_eq (id : Identifier) : id.text = String.ofList id.hyphenated :=
  congrArg String.ofList id.textChars_eq

/-- The four forms are the four spellings. -/
theorem mem_spellings_iff {id : Identifier} {s : String} :
    s ∈ id.spellings ↔ ∃ form : Form, s.toList = form.chars id := by
  have hplain : layOut plainPlaces id.digits = id.digits := layOut_plain id.length_digits
  have hdigits : s = String.ofList id.digits ↔ s.toList = Form.digits.chars id := by
    rw [Form.chars, ← digits, hplain, ← String.toList_inj, String.toList_ofList]
  have hhyphenated : s = String.ofList id.hyphenated ↔ s.toList = Form.hyphenated.chars id := by
    rw [Form.chars, textChars_eq, ← String.toList_inj, String.toList_ofList]
  have hbraced : s = "\x7b" ++ String.ofList id.hyphenated ++ "\x7d" ↔
      s.toList = Form.braced.chars id := by
    rw [Form.chars, textChars_eq, ← String.toList_inj]
    simp
  have hurn : s = "urn:uuid:" ++ String.ofList id.hyphenated ↔
      s.toList = Form.urn.chars id := by
    rw [Form.chars, textChars_eq, ← String.toList_inj]
    simp [urnLead]
  simp only [spellings, List.mem_cons, List.not_mem_nil, or_false, hdigits, hhyphenated, hbraced,
    hurn]
  constructor
  · rintro (h | h | h | h)
    · exact ⟨.digits, h⟩
    · exact ⟨.hyphenated, h⟩
    · exact ⟨.braced, h⟩
    · exact ⟨.urn, h⟩
  · rintro ⟨form, h⟩
    cases form with
    | digits => exact .inl h
    | hyphenated => exact .inr (.inl h)
    | braced => exact .inr (.inr (.inl h))
    | urn => exact .inr (.inr (.inr h))

/-! ## Reading -/

theorem ascii_chars (id : Identifier) (form : Form) : ∀ c ∈ form.chars id, c.utf8Size = 1 := by
  intro c hc
  cases form with
  | digits =>
    rcases mem_layOut hc with rfl | hdigit
    · decide
    · obtain ⟨n, hn, rfl⟩ := exists_hexDigit hdigit
      exact hexDigit_ascii hn
  | hyphenated => exact ascii_textChars hc
  | braced =>
    simp only [Form.chars, List.mem_cons, List.mem_append, List.not_mem_nil, or_false] at hc
    rcases hc with rfl | hc | rfl
    · decide
    · exact ascii_textChars hc
    · decide
  | urn =>
    have hlead : urnLead.all (·.utf8Size = 1) := by decide
    refine (List.mem_append.1 hc).elim (fun hc => ?_) ascii_textChars
    exact of_decide_eq_true (List.all_eq_true.1 hlead c hc)

theorem length_chars (id : Identifier) (form : Form) : (form.chars id).length =
    match form with
    | .digits => 32
    | .hyphenated => 36
    | .braced => 38
    | .urn => 45 := by
  cases form with
  | digits => exact length_layOut id.length_digits_plain
  | hyphenated => exact id.length_textChars
  | braced => simp [Form.chars, length_textChars]
  | urn => simp [Form.chars, length_textChars, urnLead]

/-- An identifier is read from each of its forms. -/
theorem read_of_form {id : Identifier} {s : String} {form : Form} (h : s.toList = form.chars id) :
    read s = .ok id := by
  have hsize : s.utf8ByteSize = (form.chars id).length := by
    rw [utf8ByteSize_ascii (h ▸ ascii_chars id form), h]
  rw [length_chars] at hsize
  rw [read, hsize, h]
  cases form with
  | digits => exact readAt_layOut id id.length_digits_plain
  | hyphenated => exact id.readAt_textChars
  | braced =>
    have hinner : unwrapped? '\x7b' '\x7d' (Form.braced.chars id) = some id.textChars := by
      simp [Form.chars, unwrapped?]
    simp only [hinner]
    exact id.readAt_textChars
  | urn =>
    have htake : (Form.urn.chars id).take 9 = urnLead := List.take_left' rfl
    have hdrop : (Form.urn.chars id).drop 9 = id.textChars := List.drop_left' rfl
    have hlead : urnLead.map Char.toLower = urnLead := by decide
    simp only [htake, hdrop, hlead, if_true]
    exact id.readAt_textChars

theorem scanIdentifier_iff {field s : String} {id : Identifier} :
    scanIdentifier field s = .ok id ↔ lowerAscii (trim s) ∈ id.spellings := by
  rw [scanIdentifier_ok, mem_spellings_iff]
  constructor
  · intro hread
    exact exists_form hread fun c hc => toLower_of_mem_lowerAscii hc
  · rintro ⟨form, h⟩
    exact read_of_form h

/-! ## Texts of identifiers -/

theorem hexDigit_plain : ∀ {n : Nat}, n < 16 →
    isBlank (Bytes.hexDigit n) = false ∧ (Bytes.hexDigit n).toLower = Bytes.hexDigit n := by
  decide

/-- The text of an identifier is what it is submitted as. -/
theorem lowerAscii_trim_text (id : Identifier) : lowerAscii (trim id.text) = id.text := by
  have hplain : ∀ c ∈ id.text.toList, isBlank c = false ∧ c.toLower = c := by
    intro c hc
    rw [text, String.toList_ofList] at hc
    rcases mem_layOut hc with rfl | hdigit
    · decide
    · obtain ⟨n, hn, rfl⟩ := exists_hexDigit hdigit
      exact hexDigit_plain hn
  exact lowerAscii_trim (fun c hc => (hplain c hc).1) fun c hc => (hplain c hc).2

theorem scanIdentifier_text {field : String} {id id' : Identifier} :
    scanIdentifier field id.text = .ok id' ↔ id' = id := by
  rw [scanIdentifier_ok, lowerAscii_trim_text, read_text, Except.ok.injEq, eq_comm]

theorem text_injective : Function.Injective Identifier.text := by
  intro id id' h
  have hread := read_text id
  rw [h, read_text] at hread
  exact (Except.ok.inj hread).symm

/-- A text is accepted as an identifier exactly if it spells it. Identifiers are displayed in one of
their spellings, and this one is accepted as the identifier it displays and as no other.
Identifiers, their bytes and their texts are in one order. -/
theorem accepted_as_spelled (field s : String) (id id' : Identifier) :
    (scanIdentifier field s = .ok id ↔ lowerAscii (trim s) ∈ id.spellings) ∧
    id.text = String.ofList id.hyphenated ∧
    (scanIdentifier field id.text = .ok id' ↔ id' = id) ∧
    (id.text = id'.text ↔ id = id') ∧
    compare id.bytes id'.bytes = compare id id' ∧
    compare id.text id'.text = compare id id' ∧
    compare (Bytes.ofText id.text) (Bytes.ofText id'.text) = compare id id' :=
  ⟨scanIdentifier_iff, id.text_eq, scanIdentifier_text, text_injective.eq_iff, rfl,
    compare_text id id', compare_ofText_text id id'⟩

example : scanIdentifier "item_id" " URN:UUID:00000000-0000-7000-8000-00000000000A\u2003" =
    .ok (.fresh 0 10) := by decide +kernel

end Identifier

end Stockroom
