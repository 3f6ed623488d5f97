import Stockroom.Proofs.QuantityText
import Stockroom.Quantity.Arithmetic
import Mathlib.Algebra.Order.Field.Rat
import Mathlib.Algebra.Order.Ring.Abs
import Mathlib.Tactic.FieldSimp
import Mathlib.Tactic.Linarith
import Mathlib.Tactic.NormNum
import Mathlib.Tactic.Positivity
import Mathlib.Tactic.Ring

/-!
# When sums are exact

A sum is rounded where its units do not fit. It is exact whenever it can be: if any quantity has the
exact value, the sum found is one of them. There is no sum only from half a unit below `2 ^ 96` on.

Results:
1. `add?_of_small`: quantities with few decimals and few units have an exact sum.
2. `value_add?` and `value_sub?`: a sum has the exact value exactly when some quantity has it.
3. `add?_eq_none_iff` and `sub?_eq_none_iff`: when there is no sum.
-/
namespace Stockroom.Quantity

/-! ## Values -/

/-- The number a quantity stands for. -/
def value (q : Quantity) : ℚ := q.units / 10 ^ q.scale

/-- Some quantity stands for the number. -/
def Representable (x : ℚ) : Prop := ∃ q : Quantity, q.value = x

/-- The number rounds to more than 96 bits of units, even without decimals. -/
def TooLarge (x : ℚ) : Prop := 2 ^ 96 - 1 / 2 ≤ |x|

theorem scale_neg (q : Quantity) : (-q).scale = q.scale := by
  show q.neg.scale = q.scale
  unfold neg
  split <;> rfl

theorem value_neg (q : Quantity) : (-q).value = -q.value := by
  rw [value, value, units_neg, scale_neg]
  push_cast
  ring

theorem units_of_isZero {q : Quantity} (h : q.isZero = true) : q.units = 0 := by
  have hmagnitude : q.magnitude = 0 := by simpa [isZero] using h
  simp [units, hmagnitude]

theorem value_of_isZero {q : Quantity} (h : q.isZero = true) : q.value = 0 := by
  rw [value, units_of_isZero h]
  simp

theorem value_ofUnits? {units : Int} {scale : Nat} {q : Quantity}
    (h : ofUnits? units scale = some q) : q.value = units / 10 ^ scale := by
  rw [value, units_ofUnits? h, scale_ofUnits? h]

theorem ofUnits?_isSome_iff {units : Int} {scale : Nat} :
    (ofUnits? units scale).isSome ↔ units.natAbs < 2 ^ 96 ∧ scale ≤ 28 := by
  unfold ofUnits? signed?
  split
  · next h => exact ⟨fun _ => h, fun _ => rfl⟩
  · next h => exact ⟨fun h' => absurd h' Bool.false_ne_true, fun h' => absurd h' h⟩

theorem natAbs_units_lt (q : Quantity) : q.units.natAbs < 2 ^ 96 := by
  rw [natAbs_units]
  exact q.magnitude_lt

theorem unitsAt_mul {q : Quantity} {scale scale' : Nat} (h : q.scale ≤ scale)
    (h' : scale ≤ scale') : q.unitsAt scale' = q.unitsAt scale * 10 ^ (scale' - scale) := by
  rw [unitsAt, unitsAt, Int.mul_assoc, ← Int.pow_add]
  congr 2
  omega

theorem cast_unitsAt {q : Quantity} {scale : Nat} (h : q.scale ≤ scale) :
    (q.unitsAt scale : ℚ) = q.value * 10 ^ scale := by
  have hpow : (10 : ℚ) ^ scale = 10 ^ (scale - q.scale) * 10 ^ q.scale := by
    rw [← pow_add, Nat.sub_add_cancel h]
  rw [unitsAt, value, hpow]
  push_cast
  field_simp

/-! ## Rounding -/

theorem withSign_natAbs (n : Int) : withSign n n.natAbs = n := by
  unfold withSign
  split <;> omega

theorem natAbs_withSign (sign : Int) (n : Nat) : (withSign sign n).natAbs = n := by
  unfold withSign
  split <;> omega

/-- Below an even number rounds exactly what lies more than half a unit below it. -/
theorem nearestEven_lt_iff {n d bound : Nat} (hd : 0 < d) (hbound : bound % 2 = 0) :
    nearestEven n d < bound ↔ 2 * n + d < 2 * (bound * d) := by
  obtain ⟨hlow, hhigh⟩ := nearestEven_near n hd
  constructor
  · intro hlt
    have hle : (nearestEven n d + 1) * d ≤ bound * d := Nat.mul_le_mul_right d hlt
    rw [Nat.add_mul, Nat.one_mul] at hle
    by_contra hge
    -- a tie just below the bound, whose even neighbour is the bound itself
    have htie : 2 * (n - nearestEven n d * d) = d := by omega
    have hmod : n % d = n - nearestEven n d * d := by
      have hn : n = (n - nearestEven n d * d) + nearestEven n d * d := by omega
      have hsmall : n - nearestEven n d * d < d := by omega
      rw [hn, Nat.add_mul_mod_self_right, ← hn, Nat.mod_eq_of_lt hsmall]
    have heven := nearestEven_of_tie (by rw [hmod]; exact htie)
    have hlast : bound * d ≤ (nearestEven n d + 1) * d := by
      rw [Nat.add_mul, Nat.one_mul]
      omega
    have := Nat.le_of_mul_le_mul_right hlast hd
    omega
  · intro hlt
    have hmul : nearestEven n d * d < bound * d := by omega
    exact Nat.lt_of_mul_lt_mul_right hmul

variable {units : Int} {scale dropped : Nat} {r : Quantity}

theorem roundedAt_isSome_iff (hdropped : dropped ≤ scale) (hscale : scale ≤ 28) :
    (roundedAt units scale dropped).isSome ↔
      2 * units.natAbs + 10 ^ dropped < 2 * (2 ^ 96 * 10 ^ dropped) := by
  rw [roundedAt, ofUnits?_isSome_iff, natAbs_withSign,
    nearestEven_lt_iff (Nat.pow_pos (by decide)) (by decide)]
  exact ⟨fun h => h.1, fun h => ⟨h, by omega⟩⟩

/-- Where the decimals rounded away are zeros, nothing is lost. -/
theorem roundedAt_mul (units : Int) (scale dropped : Nat) :
    roundedAt (units * 10 ^ dropped) scale dropped = ofUnits? units (scale - dropped) := by
  have hpos : (0 : Int) < 10 ^ dropped := by positivity
  have habs : (units * 10 ^ dropped).natAbs = units.natAbs * 10 ^ dropped := by
    rw [Int.natAbs_mul, Int.natAbs_pow]
    rfl
  have hsign : withSign (units * 10 ^ dropped) units.natAbs = withSign units units.natAbs := by
    have hneg : units * 10 ^ dropped < 0 ↔ units < 0 := by
      refine ⟨fun h => ?_, fun h => Int.mul_neg_of_neg_of_pos h hpos⟩
      by_contra hnonneg
      have := mul_nonneg (not_lt.1 hnonneg) hpos.le
      omega
    simp only [withSign, hneg]
  rw [roundedAt, habs, nearestEven_mul _ (Nat.pow_pos (by decide)), hsign, withSign_natAbs]

/-- What fits is found with the fewest decimals rounded away. -/
theorem fit_eq_some (h : fit units scale = some r) :
    ∃ dropped ≤ scale, roundedAt units scale dropped = some r ∧
      ∀ fewer < dropped, roundedAt units scale fewer = none := by
  obtain ⟨before, dropped, behind, hrange, hr, hnone⟩ := List.findSome?_eq_some_iff.1 h
  have hmem : dropped ∈ List.range (scale + 1) := by
    rw [hrange]
    exact List.mem_append_right _ List.mem_cons_self
  have hdropped : dropped ≤ scale := Nat.lt_succ_iff.1 (List.mem_range.1 hmem)
  have hsorted : (before ++ dropped :: behind).Pairwise (· < ·) := hrange ▸ List.pairwise_lt_range
  refine ⟨dropped, hdropped, hr, fun fewer hfewer => hnone fewer ?_⟩
  have hfound : fewer ∈ before ++ dropped :: behind := by
    rw [← hrange, List.mem_range]
    omega
  have hbehind := (List.pairwise_cons.1 (List.pairwise_append.1 hsorted).2.1).1
  rcases List.mem_append.1 hfound with hbefore | htail
  · exact hbefore
  · rcases List.mem_cons.1 htail with rfl | htail
    · omega
    · have := hbehind fewer htail
      omega

theorem fit_eq_none_iff (hscale : scale ≤ 28) :
    fit units scale = none ↔ 2 * (2 ^ 96 * 10 ^ scale) ≤ 2 * units.natAbs + 10 ^ scale := by
  rw [fit, List.findSome?_eq_none_iff]
  constructor
  · intro h
    have hlast := h scale (List.mem_range.2 (Nat.lt_succ_self scale))
    by_contra hlt
    have hsome := (roundedAt_isSome_iff (Nat.le_refl scale) hscale).2 (Nat.lt_of_not_le hlt)
    rw [hlast] at hsome
    cases hsome
  · intro h dropped hmem
    have hdropped : dropped ≤ scale := Nat.lt_succ_iff.1 (List.mem_range.1 hmem)
    have hpow : 10 ^ dropped ≤ 10 ^ scale := Nat.pow_le_pow_right (by decide) hdropped
    rw [← Option.not_isSome_iff_eq_none, roundedAt_isSome_iff hdropped hscale]
    omega

/-! ## Exact results -/

/-- Units of a representable number end in zeros, as many as make the others fit. -/
theorem exists_kept {q : Quantity} (h : q.value = units / 10 ^ scale) :
    ∃ kept zeros, units = kept * 10 ^ zeros ∧ zeros ≤ scale ∧ kept.natAbs < 2 ^ 96 := by
  have hcross : q.units * 10 ^ scale = units * 10 ^ q.scale := by
    rw [value, div_eq_div_iff (by positivity) (by positivity)] at h
    exact_mod_cast h
  rcases Nat.le_total scale q.scale with hle | hle
  · have hunits : q.units = units * 10 ^ (q.scale - scale) := by
      have hpow : (10 : Int) ^ q.scale = 10 ^ (q.scale - scale) * 10 ^ scale := by
        rw [← pow_add, Nat.sub_add_cancel hle]
      rw [hpow, ← mul_assoc] at hcross
      exact mul_right_cancel₀ (by positivity) hcross
    refine ⟨units, 0, by simp, Nat.zero_le _, Nat.lt_of_le_of_lt ?_ q.natAbs_units_lt⟩
    rw [hunits, Int.natAbs_mul, Int.natAbs_pow]
    exact Nat.le_mul_of_pos_right _ (Nat.pow_pos (by decide))
  · refine ⟨q.units, scale - q.scale, ?_, Nat.sub_le _ _, q.natAbs_units_lt⟩
    have hpow : (10 : Int) ^ scale = 10 ^ (scale - q.scale) * 10 ^ q.scale := by
      rw [← pow_add, Nat.sub_add_cancel hle]
    rw [hpow, ← mul_assoc] at hcross
    exact (mul_right_cancel₀ (by positivity) hcross).symm

/-- A representable number is found exactly. -/
theorem value_fit (hscale : scale ≤ 28) (h : fit units scale = some r) :
    r.value = units / 10 ^ scale ↔ Representable (units / 10 ^ scale) := by
  refine ⟨fun hvalue => ⟨r, hvalue⟩, ?_⟩
  rintro ⟨q, hq⟩
  obtain ⟨dropped, hdropped, hr, hnone⟩ := fit_eq_some h
  obtain ⟨kept, zeros, hunits, hzeros, hsmall⟩ := exists_kept hq
  -- the search does not go beyond the zeros
  have hle : dropped ≤ zeros := by
    by_contra hlt
    have hfound := hnone zeros (Nat.lt_of_not_le hlt)
    have hsome : (ofUnits? kept (scale - zeros)).isSome :=
      ofUnits?_isSome_iff.2 ⟨hsmall, by omega⟩
    rw [hunits, roundedAt_mul] at hfound
    rw [hfound] at hsome
    cases hsome
  have hsplit : units = kept * 10 ^ (zeros - dropped) * 10 ^ dropped := by
    rw [hunits, mul_assoc, ← pow_add, Nat.sub_add_cancel hle]
  have hpow : (10 : ℚ) ^ scale = 10 ^ (scale - dropped) * 10 ^ dropped := by
    rw [← pow_add, Nat.sub_add_cancel hdropped]
  rw [hsplit, roundedAt_mul] at hr
  rw [value_ofUnits? hr, hsplit, hpow]
  push_cast
  field_simp

/-- The units of two quantities at the larger of their scales make up the sum of their values. -/
theorem value_add_value (a b : Quantity) :
    ((a.unitsAt (max a.scale b.scale) + b.unitsAt (max a.scale b.scale) : Int) : ℚ) /
      10 ^ max a.scale b.scale = a.value + b.value := by
  push_cast
  rw [cast_unitsAt (Nat.le_max_left _ _), cast_unitsAt (Nat.le_max_right _ _)]
  field_simp

theorem max_scale_le (a b : Quantity) : max a.scale b.scale ≤ 28 :=
  Nat.max_le.2 ⟨a.scale_le, b.scale_le⟩

/-- A sum has the exact value exactly when some quantity has it. -/
theorem value_add? {a b r : Quantity} (h : a.add? b = some r) :
    r.value = a.value + b.value ↔ Representable (a.value + b.value) := by
  unfold add? at h
  split at h
  · next ha =>
    cases h
    rw [value_of_isZero ha, zero_add]
    exact ⟨fun _ => ⟨b, rfl⟩, fun _ => rfl⟩
  · split at h
    · next hb =>
      cases h
      rw [value_of_isZero hb, add_zero]
      exact ⟨fun _ => ⟨a, rfl⟩, fun _ => rfl⟩
    · rw [← value_add_value]
      exact value_fit (max_scale_le a b) h

/-- A difference has the exact value exactly when some quantity has it. -/
theorem value_sub? {a b r : Quantity} (h : a.sub? b = some r) :
    r.value = a.value - b.value ↔ Representable (a.value - b.value) := by
  have hadd := value_add? (b := -b) h
  rw [value_neg, ← sub_eq_add_neg] at hadd
  exact hadd

/-! ## No results -/

theorem tooLarge_div_iff (units : Int) (scale : Nat) :
    TooLarge (units / 10 ^ scale) ↔
      2 * (2 ^ 96 * 10 ^ scale) ≤ 2 * units.natAbs + 10 ^ scale := by
  have hpow : (0 : ℚ) < 10 ^ scale := by positivity
  have habs : |(units : ℚ)| = (units.natAbs : ℚ) := by
    rw [Nat.cast_natAbs, Int.cast_abs]
  rw [TooLarge, abs_div, abs_of_pos hpow, le_div_iff₀ hpow, habs]
  constructor
  · intro h
    have : (2 * (2 ^ 96 * 10 ^ scale) : ℚ) ≤ 2 * units.natAbs + 10 ^ scale := by linarith
    exact_mod_cast this
  · intro h
    have : (2 * (2 ^ 96 * 10 ^ scale) : ℚ) ≤ 2 * units.natAbs + 10 ^ scale := by exact_mod_cast h
    linarith

theorem not_tooLarge_value (q : Quantity) : ¬ TooLarge q.value := by
  have hunits := q.natAbs_units_lt
  have hpow : 0 < 10 ^ q.scale := Nat.pow_pos (by decide)
  rw [value, tooLarge_div_iff]
  omega

theorem add?_eq_none_iff (a b : Quantity) : a.add? b = none ↔ TooLarge (a.value + b.value) := by
  unfold add?
  split
  · next ha =>
    rw [value_of_isZero ha, zero_add]
    exact ⟨nofun, fun h => absurd h (not_tooLarge_value b)⟩
  · split
    · next hb =>
      rw [value_of_isZero hb, add_zero]
      exact ⟨nofun, fun h => absurd h (not_tooLarge_value a)⟩
    · rw [← value_add_value]
      rw [fit_eq_none_iff (max_scale_le a b), tooLarge_div_iff]

theorem sub?_eq_none_iff (a b : Quantity) : a.sub? b = none ↔ TooLarge (a.value - b.value) := by
  rw [sub?, add?_eq_none_iff, value_neg, ← sub_eq_add_neg]

/-! ## Few units -/

theorem unitsAt_neg (q : Quantity) (scale : Nat) : (-q).unitsAt scale = -q.unitsAt scale := by
  rw [unitsAt, unitsAt, units_neg, scale_neg, Int.neg_mul]

theorem unitsAt_of_isZero {q : Quantity} (h : q.isZero = true) (scale : Nat) :
    q.unitsAt scale = 0 := by
  rw [unitsAt, units_of_isZero h, Int.zero_mul]

/-- Units that fit are not rounded. -/
theorem fit_of_small (hscale : scale ≤ 28) (h : units.natAbs < 2 ^ 96) :
    ∃ r, fit units scale = some r ∧ r.units = units ∧ r.scale = scale := by
  obtain ⟨r, hr⟩ := Option.isSome_iff_exists.1 (ofUnits?_isSome_iff.2 ⟨h, hscale⟩)
  have hfirst : roundedAt units scale 0 = some r := by
    have hmul := roundedAt_mul units scale 0
    rw [pow_zero, mul_one] at hmul
    rw [hmul]
    exact hr
  refine ⟨r, ?_, units_ofUnits? hr, scale_ofUnits? hr⟩
  rw [fit, List.range_succ_eq_map, List.findSome?_cons, hfirst]

theorem isSettled_add? {a b r : Quantity} (ha : a.IsSettled) (hb : b.IsSettled)
    (h : a.add? b = some r) : r.IsSettled := by
  unfold add? at h
  split at h
  · cases h
    exact hb
  · split at h
    · cases h
      exact ha
    · obtain ⟨dropped, -, hr, -⟩ := fit_eq_some h
      exact isSettled_ofUnits? hr

theorem isSettled_sub? {a b r : Quantity} (ha : a.IsSettled) (hb : b.IsSettled)
    (h : a.sub? b = some r) : r.IsSettled :=
  isSettled_add? ha (isSettled_neg hb) h

/-- Quantities with few decimals and few units have an exact sum, with no more decimals. -/
theorem add?_of_small {a b : Quantity} {scale : Nat} (hscale : scale ≤ 28) (ha : a.scale ≤ scale)
    (hb : b.scale ≤ scale) (hsmall : (a.unitsAt scale + b.unitsAt scale).natAbs < 2 ^ 96) :
    ∃ r, a.add? b = some r ∧ r.scale ≤ scale ∧
      r.unitsAt scale = a.unitsAt scale + b.unitsAt scale := by
  unfold add?
  split
  · next hzero =>
    refine ⟨b, rfl, hb, ?_⟩
    rw [unitsAt_of_isZero hzero, Int.zero_add]
  · split
    · next hzero =>
      refine ⟨a, rfl, ha, ?_⟩
      rw [unitsAt_of_isZero hzero, Int.add_zero]
    · dsimp only
      have hmax : max a.scale b.scale ≤ scale := Nat.max_le.2 ⟨ha, hb⟩
      rw [unitsAt_mul (Nat.le_max_left a.scale b.scale) hmax,
        unitsAt_mul (Nat.le_max_right a.scale b.scale) hmax, ← Int.add_mul] at hsmall ⊢
      generalize a.unitsAt (max a.scale b.scale) + b.unitsAt (max a.scale b.scale) = units
        at hsmall ⊢
      have hfits : units.natAbs < 2 ^ 96 := by
        refine Nat.lt_of_le_of_lt ?_ hsmall
        rw [Int.natAbs_mul, Int.natAbs_pow]
        exact Nat.le_mul_of_pos_right _ (Nat.pow_pos (by decide))
      obtain ⟨r, hr, hunits, hrscale⟩ := fit_of_small (Nat.le_trans hmax hscale) hfits
      refine ⟨r, hr, hrscale ▸ hmax, ?_⟩
      rw [unitsAt, hunits, hrscale]

end Stockroom.Quantity
