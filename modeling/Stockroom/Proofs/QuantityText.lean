import Stockroom.Proofs.Texts
import Stockroom.Quantity.Stored
import Mathlib.Tactic.Ring

/-!
# Quantities read back from their text

The text of a quantity is digits, a point, and as many digits again as the scale says. Both readers
meet only digits for which there is room, so neither of them ever has to refuse or to round.

Results:
1. `run_textDigits`: the digits of a quantity are read to the end and give its units and its scale.
2. `readExact_text` and `readStored_text`: the exact reader and the reader of stored quantities
   both give the quantity back, scale included, under a sign that nothing does not keep.
3. `sized_text`: the text of a quantity is short enough to be stored.
-/
namespace Stockroom.Quantity

open Text (digits fixedDigits digitValue?)

/-! ## Signs -/

/-- The quantity without the sign of nothing. -/
def settled (q : Quantity) : Quantity := { q with negative := q.negative && !q.isZero }

/-- A quantity that is not nothing under a minus sign. -/
def IsSettled (q : Quantity) : Prop := q.negative = true → q.magnitude ≠ 0

theorem settled_eq {q : Quantity} (h : q.IsSettled) : q.settled = q := by
  ext1
  · cases hn : q.negative
    · simp [settled, hn]
    · simpa [settled, hn, isZero] using h hn
  · rfl
  · rfl

theorem isSettled_zero : zero.IsSettled := fun h => absurd h (by decide)

theorem isSettled_ofUnits? {units : Int} {scale : Nat} {q : Quantity}
    (h : ofUnits? units scale = some q) : q.IsSettled := by
  unfold ofUnits? signed? at h
  split at h
  · cases h
    intro hneg
    have : units < 0 := by simpa using hneg
    simp only
    omega
  · cases h

theorem isSettled_neg {q : Quantity} (h : q.IsSettled) : (-q).IsSettled := by
  show q.neg.IsSettled
  unfold neg
  split
  · exact h
  · next hz =>
    intro _
    simpa [isZero] using hz

/-- Units and scale are all there is to a settled quantity. -/
theorem ofUnits?_units {q : Quantity} : ofUnits? q.units q.scale = some q.settled := by
  have hrange : q.units.natAbs < 2 ^ 96 ∧ q.scale ≤ 28 :=
    ⟨natAbs_units q ▸ q.magnitude_lt, q.scale_le⟩
  rw [ofUnits?, signed?, dif_pos hrange, Option.some.injEq]
  ext1
  · by_cases hz : q.magnitude = 0 <;> cases hn : q.negative <;>
      simp [settled, units, isZero, hz, hn]
    omega
  · exact natAbs_units q
  · rfl

/-! ## Reading digits -/

theorem digitValue?_digitChar : ∀ {d : Nat}, d < 10 → digitValue? (Nat.digitChar d) = some d := by
  decide

/-- A digit for which there is room joins what has been read. -/
theorem run_digit {r : Reading} {d : Nat} (hd : d < 10) (hscale : r.scale < 28)
    (hunits : r.units * 10 + d < 2 ^ 96) (rest : List Char) :
    r.run (Nat.digitChar d :: rest) = (r.digit d).run rest := by
  have hfit : (r.digit d).units < 2 ^ 96 := hunits
  rw [Reading.run, if_neg (by omega), digitValue?_digitChar hd]
  simp only [hfit, if_true]

/-- A number below `2 ^ 96` is read from its digits. -/
theorem run_digits {n : Nat} (hn : n < 2 ^ 96) (rest : List Char) :
    Reading.start.run (digits n ++ rest) = (⟨n, 0, true, false⟩ : Reading).run rest := by
  induction n using Nat.strongRecOn generalizing rest with
  | ind n ih =>
    rw [digits, Nat.toDigits_eq_if (by decide)]
    split
    · next h =>
      rw [List.singleton_append, run_digit h (by decide) (by simpa [Reading.start] using hn)]
      simp [Reading.digit, Reading.start]
    · next h =>
      have hsum : n / 10 * 10 + n % 10 = n := Nat.div_add_mod' n 10
      rw [List.append_assoc, List.singleton_append]
      rw [show Nat.toDigits 10 (n / 10) = digits (n / 10) from rfl,
        ih (n / 10) (by omega) (by omega),
        run_digit (Nat.mod_lt n (by decide)) (Nat.zero_lt_succ _) (by dsimp only; omega)]
      simp [Reading.digit, hsum]

/-- Decimals for which there is room are read to the end. -/
theorem run_fixedDigits {width n u k : Nat} (hscale : k + width ≤ 28)
    (hunits : u * 10 ^ width + n % 10 ^ width < 2 ^ 96) :
    (⟨u, k, true, true⟩ : Reading).run (fixedDigits width n) =
      .finished ⟨u * 10 ^ width + n % 10 ^ width, k + width, true, true⟩ := by
  induction width generalizing u k with
  | zero => simp [fixedDigits, Reading.run, Nat.mod_one]
  | succ width ih =>
    have hsum : (u * 10 + n / 10 ^ width % 10) * 10 ^ width + n % 10 ^ width =
        u * 10 ^ (width + 1) + n % 10 ^ (width + 1) := by
      rw [Nat.mod_pow_succ, Nat.pow_succ]
      ring
    have hpos : 0 < 10 ^ width := Nat.pow_pos (by decide)
    have hnext : u * 10 + n / 10 ^ width % 10 < 2 ^ 96 := by
      have := Nat.le_mul_of_pos_right (u * 10 + n / 10 ^ width % 10) hpos
      omega
    have hdigit : n / 10 ^ width % 10 < 10 := Nat.mod_lt _ (by decide)
    have hstep := run_digit (r := ⟨u, k, true, true⟩) hdigit (by dsimp only; omega) hnext
      (fixedDigits width n)
    have hrest := ih (u := u * 10 + n / 10 ^ width % 10) (k := k + 1) (by omega) (hsum ▸ hunits)
    rw [fixedDigits, hstep]
    simp only [Reading.digit, if_true]
    rw [hrest, hsum, Nat.add_right_comm k 1 width, Nat.add_assoc k width 1]

/-- The digits and the point of a quantity's text. -/
def textDigits (q : Quantity) : List Char :=
  digits (q.magnitude / 10 ^ q.scale) ++
    (if q.scale = 0 then [] else '.' :: fixedDigits q.scale q.magnitude)

theorem textChars_eq (q : Quantity) :
    q.textChars = (if q.negative then ['-'] else []) ++ q.textDigits := by
  rw [textChars, textDigits, List.append_assoc]

/-- The digits of a quantity are read to the end and give its units and its scale. -/
theorem run_textDigits (q : Quantity) :
    ∃ pointed, Reading.start.run q.textDigits =
      .finished ⟨q.magnitude, q.scale, true, pointed⟩ := by
  have hwhole : q.magnitude / 10 ^ q.scale < 2 ^ 96 :=
    Nat.lt_of_le_of_lt (Nat.div_le_self _ _) q.magnitude_lt
  rw [textDigits, run_digits hwhole]
  split
  · next h => exact ⟨false, by simp [Reading.run, h]⟩
  · next h =>
    have hsum := Nat.div_add_mod' q.magnitude (10 ^ q.scale)
    have hpoint : (⟨q.magnitude / 10 ^ q.scale, 0, true, false⟩ : Reading).run
        ('.' :: fixedDigits q.scale q.magnitude) =
        (⟨q.magnitude / 10 ^ q.scale, 0, true, true⟩ : Reading).run
          (fixedDigits q.scale q.magnitude) := by
      rw [Reading.run, if_neg (by simp), show digitValue? '.' = none by decide]
      simp
    refine ⟨true, ?_⟩
    rw [hpoint, run_fixedDigits (by simpa using q.scale_le) (by rw [hsum]; exact q.magnitude_lt),
      hsum, Nat.zero_add]

/-! ## Signs in texts -/

theorem digits_eq_cons (n : Nat) : ∃ c cs, digits n = c :: cs ∧ c.isDigit = true := by
  obtain ⟨c, cs, h⟩ := List.exists_cons_of_ne_nil (Nat.toDigits_ne_nil (n := n) (b := 10))
  exact ⟨c, cs, h, Nat.isDigit_of_mem_toDigits (by decide) (by decide) (h ▸ List.mem_cons_self)⟩

theorem splitSign_textChars (q : Quantity) :
    splitSign q.textChars = (q.negative, q.textDigits) := by
  rw [textChars_eq]
  cases q.negative
  · obtain ⟨c, cs, hcs, hc⟩ := digits_eq_cons (q.magnitude / 10 ^ q.scale)
    have hminus : c ≠ '-' := by rintro rfl; exact absurd hc (by decide)
    have hplus : c ≠ '+' := by rintro rfl; exact absurd hc (by decide)
    simp [textDigits, hcs, splitSign, hminus, hplus]
  · simp [splitSign]

theorem textChars_ne_nil (q : Quantity) : q.textChars ≠ [] := by
  obtain ⟨c, cs, hcs, _⟩ := digits_eq_cons (q.magnitude / 10 ^ q.scale)
  simp [textChars_eq, textDigits, hcs]

/-- What has been read of a text is the quantity, under the sign of the text. -/
theorem signed_textChars (q : Quantity) (pointed : Bool) :
    (⟨q.magnitude, q.scale, true, pointed⟩ : Reading).signed q.negative = .ok q.settled := by
  have hunits : (if q.negative then -(q.magnitude : Int) else q.magnitude) = q.units := rfl
  simp only [Reading.signed, if_true]
  rw [hunits, ofUnits?_units]

/-! ## Whole texts -/

/-- The exact reader gives a quantity back, scale included. -/
theorem readExact_text (q : Quantity) : readExact q.text = .ok q.settled := by
  obtain ⟨pointed, hrun⟩ := run_textDigits q
  rw [readExact, text, String.toList_ofList, readExactChars,
    if_neg (by simpa using textChars_ne_nil q), splitSign_textChars, hrun]
  exact signed_textChars q pointed

/-- The reader of stored quantities gives a quantity back, scale included. -/
theorem readStored_text (q : Quantity) : readStored q.text = some q.settled := by
  obtain ⟨pointed, hrun⟩ := run_textDigits q
  have hread : readRounded q.textChars = some q.settled := by
    rw [readRounded, if_neg (by simpa using textChars_ne_nil q), splitSign_textChars, hrun]
    simp only [signed_textChars q pointed]
    rfl
  rw [readStored, text, String.toList_ofList, hread]
  rfl

theorem length_textChars_le (q : Quantity) : q.textChars.length ≤ 59 := by
  have hwhole : q.magnitude / 10 ^ q.scale < 10 ^ 29 :=
    calc
      q.magnitude / 10 ^ q.scale ≤ q.magnitude := Nat.div_le_self _ _
      _ < 2 ^ 96 := q.magnitude_lt
      _ ≤ 10 ^ 29 := by decide
  have hdigits := (Nat.length_toDigits_le_iff (b := 10) (by decide) (by decide)).2 hwhole
  have hscale := q.scale_le
  rw [textChars, List.length_append, List.length_append]
  have hsign : (if q.negative then ['-'] else []).length ≤ 1 := by split <;> simp
  have hrest :
      (if q.scale = 0 then [] else '.' :: fixedDigits q.scale q.magnitude).length ≤ 29 := by
    split
    · simp
    · rw [List.length_cons, Text.length_fixedDigits]
      omega
  rw [digits]
  omega

/-- The text of a quantity is short enough to be stored. -/
theorem sized_text (q : Quantity) : Sized q.text :=
  .ofList (Nat.lt_of_le_of_lt (length_textChars_le q) (by decide))

end Stockroom.Quantity
