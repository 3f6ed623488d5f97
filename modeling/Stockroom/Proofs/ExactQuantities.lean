import Stockroom.Proofs.Numerals
import Stockroom.Proofs.RoundTrips
import Stockroom.Proofs.SameRequest

/-!
# Quantities enter as they are written

A quantity that a client sends is read without rounding, and the reader of stored quantities, which
does round, finds nothing to round in what the exact reader has accepted: it meets the same digits
and has room for all of them. So the number that was written is the number that is moved, stored
and read back.

Results:
1. `readStored_of_readExact`: on what the exact reader accepts, the two readers agree.
2. `denoted_text`: the text of a quantity denotes its value.
3. `enters_exactly`: the guarantee, from the submitted text to the row.
-/
namespace Stockroom.Quantity

open Text (trim)

variable {s : String} {q : Quantity}

/-- On what the exact reader accepts, the reader of stored quantities agrees. -/
theorem readStored_of_readExact (h : readExact s = .ok q) : readStored s = some q := by
  have hrounded : readRounded s.toList = some q := by
    rw [readExact, readExactChars] at h
    rw [readRounded]
    split at h
    · cases h
    · next hsome =>
      rw [if_neg hsome]
      -- a text that is not crowded is never rounded
      cases hrun : Reading.start.run (splitSign s.toList).2 with
      | finished r =>
        rw [hrun] at h
        dsimp only at h ⊢
        rw [h]
        rfl
      | refused why =>
        rw [hrun] at h
        cases h
      | crowded r rest =>
        rw [hrun] at h
        cases h
  rw [readStored, hrounded]
  rfl

theorem decode_of_readExact (h : readExact s = .ok q) (hs : Sized s) (rest : Bytes) :
    Stored.decode (Cbor.text s ++ rest) = some q := by
  rw [Stored.decode]
  simp only [Stored.read, Option.bind_eq_bind, Cbor.readText_text hs, Option.bind_some,
    readStored_of_readExact h]
  rfl

theorem value_of_readExact (h : readExact s = .ok q) : q.value = denoted s.toList :=
  (readExactChars_iff.1 h).2.2.2.1

/-- The text of a quantity denotes its value. -/
theorem denoted_text (q : Quantity) : denoted q.text.toList = q.value := by
  rw [← value_of_readExact (readExact_text q), value_settled]

/-- What is submitted is accepted if it is read exactly and denotes more than nothing. -/
theorem scanQuantity_iff : scanQuantity s = .ok q ↔
    readExact (trim s) = .ok q ∧ 0 < denoted (trim s).toList := by
  rw [scanQuantity_ok]
  refine and_congr_right fun hread => ?_
  rw [isPositive_iff, value_of_readExact hread]

/-- What is promised of a submitted text and a quantity. -/
structure EntersExactly (s : String) (q : Quantity) : Prop where
  /-- A text is read as a quantity if it is a numeral with room for its digits, and the quantity has
  the number that is denoted, the decimals of the text, and no sign if it is nothing. -/
  read : readExact s = .ok q ↔ IsNumeral s.toList ∧ HasRoom s.toList ∧ q.IsSettled ∧
    q.value = denoted s.toList ∧ q.scale = (decimalDigits s.toList).length
  /-- Where it is stored as it was written, the same quantity is read. -/
  stored : readExact s = .ok q → readStored s = some q ∧
    (Sized s → ∀ rest, Stored.decode (Cbor.text s ++ rest) = some q)
  /-- The text in which a quantity is displayed denotes its value. The value and its decimals are
  read from it, and the quantity itself unless it is nothing under a minus sign. -/
  displayed : denoted q.text.toList = q.value ∧ readExact q.text = .ok q.settled ∧
    q.settled.SameValue q ∧ q.settled.scale = q.scale ∧ (q.IsSettled → q.settled = q)
  /-- What is submitted is accepted if it is read and denotes more than nothing, -/
  scanned : scanQuantity s = .ok q ↔ readExact (trim s) = .ok q ∧ 0 < denoted (trim s).toList
  /-- and this number is stored and read back. -/
  kept : scanQuantity s = .ok q → q.value = denoted (trim s).toList ∧
    ∃ row, Stored.encode q = some row ∧ ∀ rest, Stored.decode (row ++ rest) = some q

/-- Quantities enter as they are written. -/
theorem enters_exactly (s : String) (q : Quantity) : EntersExactly s q where
  read := readExactChars_iff
  stored := fun h => ⟨readStored_of_readExact h, decode_of_readExact h⟩
  displayed := ⟨denoted_text q, readExact_text q, sameValue_settled q, rfl, settled_eq⟩
  scanned := scanQuantity_iff
  kept := by
    intro hscan
    have hread := (scanQuantity_iff.1 hscan).1
    have hsettled : q.settled = q := settled_eq (readExactChars_iff.1 hread).2.2.1
    refine ⟨value_of_readExact hread, _, rfl, fun rest => ?_⟩
    have hback := (Stored.reads_settled_quantity q).decode rfl rest
    rw [hsettled] at hback
    exact hback

/-! ### As many digits as there can be -/

/-- The most units with the most decimals. -/
def finest : Quantity := ⟨false, 79228162514264337593543950335, 28, by decide, by decide⟩

/-- A text with room for no further digit is accepted, and stored as the number that it denotes. -/
theorem enters_exactly_finest :
    scanQuantity "\t+7.9_228162514264337593543950335 " = .ok finest ∧
    denoted (trim "\t+7.9_228162514264337593543950335 ").toList = (2 ^ 96 - 1) / 10 ^ 28 ∧
    readStored "+7.9_228162514264337593543950335" = some finest ∧
    ∃ row, Stored.encode finest = some row ∧ ∀ rest, Stored.decode (row ++ rest) = some finest := by
  have hscan : scanQuantity "\t+7.9_228162514264337593543950335 " = .ok finest := by
    decide +kernel
  have hread : readExact "+7.9_228162514264337593543950335" = .ok finest := by decide +kernel
  obtain ⟨hvalue, hrow⟩ := (enters_exactly _ finest).kept hscan
  refine ⟨hscan, ?_, ((enters_exactly _ finest).stored hread).1, hrow⟩
  rw [← hvalue, value]
  norm_num [finest, units]

end Stockroom.Quantity
