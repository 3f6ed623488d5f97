import Stockroom.Power

/-!
# Quantities

A quantity is an exact decimal: a sign and a whole number of units of `10 ^ -scale`, with at most
96 bits of units and at most 28 decimals. The scale is part of a quantity, so `5` and `5.00` are
two quantities of one value; they are kept apart in storage and compared as equal. So is the sign:
a quantity that was less than nothing before its last decimals were rounded away may be nothing
with a minus sign. It has the value of nothing.

Main statements: `units_ofUnits?` and `scale_ofUnits?`, a quantity built from units and a scale has
them; `units_canonical`, the canonical form keeps the value.
-/
namespace Stockroom

/-- A sign and a whole number of units of `10 ^ -scale`. -/
structure Quantity where
  negative : Bool
  magnitude : Nat
  scale : Nat
  magnitude_lt : magnitude < 2 ^ 96
  scale_le : scale ≤ 28
  deriving DecidableEq

namespace Quantity

@[ext] theorem ext {a b : Quantity} (hn : a.negative = b.negative)
    (hm : a.magnitude = b.magnitude) (hs : a.scale = b.scale) : a = b := by
  cases a; cases b; cases hn; cases hm; cases hs; rfl

/-- The quantity with a sign and so many units at a scale, if both numbers are in range. -/
def signed? (negative : Bool) (magnitude scale : Nat) : Option Quantity :=
  if h : magnitude < 2 ^ 96 ∧ scale ≤ 28 then some ⟨negative, magnitude, scale, h.1, h.2⟩ else none

/-- The quantity of so many units at a scale, if both are in range. No units have no sign. -/
def ofUnits? (units : Int) (scale : Nat) : Option Quantity :=
  signed? (units < 0) units.natAbs scale

/-- Nothing, with no decimals. -/
def zero : Quantity := ⟨false, 0, 0, by decide, by decide⟩

instance : Inhabited Quantity := ⟨zero⟩

/-- Whether a quantity is nothing, at any scale and under any sign. -/
def isZero (q : Quantity) : Bool := q.magnitude = 0

/-- The same amount, taken away instead of added. Nothing stays as it is. -/
def neg (q : Quantity) : Quantity := if q.isZero then q else { q with negative := !q.negative }

instance : Neg Quantity := ⟨neg⟩

/-! ## Values -/

/-- The units of a quantity, with its sign. -/
def units (q : Quantity) : Int := if q.negative then -(q.magnitude : Int) else q.magnitude

theorem natAbs_units (q : Quantity) : q.units.natAbs = q.magnitude := by
  unfold units
  split <;> simp

theorem units_ofUnits? {units : Int} {scale : Nat} {q : Quantity}
    (h : ofUnits? units scale = some q) : q.units = units := by
  unfold ofUnits? signed? at h
  split at h
  · cases h
    simp only [Quantity.units, decide_eq_true_eq]
    omega
  · cases h

theorem scale_ofUnits? {units : Int} {scale : Nat} {q : Quantity}
    (h : ofUnits? units scale = some q) : q.scale = scale := by
  unfold ofUnits? signed? at h
  split at h
  · cases h
    rfl
  · cases h

@[simp] theorem units_neg (q : Quantity) : (-q).units = -q.units := by
  change q.neg.units = -q.units
  unfold neg
  split
  · next h =>
    have : q.magnitude = 0 := by simpa [isZero] using h
    simp [units, this]
  · cases h : q.negative <;> simp [units, h]

/-- The units a quantity would have at a scale that is not below its own. -/
def unitsAt (q : Quantity) (scale : Nat) : Int := q.units * 10 ^ (scale - q.scale)

/-- The order of the values of two quantities, measured at the larger of their scales. -/
def compareValue (a b : Quantity) : Ordering :=
  compare (a.unitsAt (max a.scale b.scale)) (b.unitsAt (max a.scale b.scale))

/-- Equality of values. -/
def SameValue (a b : Quantity) : Prop := a.compareValue b = .eq

instance (a b : Quantity) : Decidable (a.SameValue b) :=
  inferInstanceAs (Decidable (_ = _))

/-- Whether a quantity is more than nothing. -/
def isPositive (q : Quantity) : Bool := 0 < q.units

/-! ## Canonical form -/

/-- A whole number and a scale without the zeros at the end of the decimals. -/
def stripZeros (magnitude : Nat) : (scale : Nat) → Nat × Nat
  | 0 => (magnitude, 0)
  | scale + 1 =>
    if magnitude % 10 = 0 then stripZeros (magnitude / 10) scale else (magnitude, scale + 1)

theorem stripZeros_scale_le (magnitude scale : Nat) : (stripZeros magnitude scale).2 ≤ scale := by
  induction scale generalizing magnitude with
  | zero => simp [stripZeros]
  | succ scale ih =>
    rw [stripZeros]
    split
    · exact Nat.le_trans (ih _) (by omega)
    · exact Nat.le_refl _

/-- What is stripped is zeros. -/
theorem stripZeros_mul (magnitude scale : Nat) :
    (stripZeros magnitude scale).1 * 10 ^ (scale - (stripZeros magnitude scale).2) = magnitude := by
  induction scale generalizing magnitude with
  | zero => simp [stripZeros]
  | succ scale ih =>
    rw [stripZeros]
    split
    · next h =>
      have := stripZeros_scale_le (magnitude / 10) scale
      rw [Nat.succ_sub this, Nat.pow_succ, ← Nat.mul_assoc, ih]
      omega
    · simp

theorem stripZeros_le (magnitude scale : Nat) : (stripZeros magnitude scale).1 ≤ magnitude :=
  calc
    (stripZeros magnitude scale).1
    _ ≤ (stripZeros magnitude scale).1 * 10 ^ (scale - (stripZeros magnitude scale).2) :=
      Nat.le_mul_of_pos_right _ (Nat.pow_pos (by decide))
    _ = magnitude := stripZeros_mul magnitude scale

/-- The quantity of the same value with the fewest decimals, and with no sign if it is nothing. -/
def canonical (q : Quantity) : Quantity where
  negative := q.negative && !q.isZero
  magnitude := (stripZeros q.magnitude q.scale).1
  scale := (stripZeros q.magnitude q.scale).2
  magnitude_lt := Nat.lt_of_le_of_lt (stripZeros_le _ _) q.magnitude_lt
  scale_le := Nat.le_trans (stripZeros_scale_le _ _) q.scale_le

/-- The canonical form keeps the value. -/
theorem units_canonical (q : Quantity) :
    q.canonical.units * 10 ^ (q.scale - q.canonical.scale) = q.units := by
  have h := stripZeros_mul q.magnitude q.scale
  have h' : ((stripZeros q.magnitude q.scale).1 : Int) *
      10 ^ (q.scale - (stripZeros q.magnitude q.scale).2) = q.magnitude := by
    exact_mod_cast h
  by_cases hz : q.magnitude = 0
  · have : (stripZeros 0 q.scale).1 = 0 := Nat.le_zero.1 (stripZeros_le 0 q.scale)
    simp [canonical, units, isZero, hz, this]
  · cases hn : q.negative
    · simpa [canonical, units, hn] using h'
    · simpa [canonical, units, isZero, hz, hn, Int.neg_mul] using h'

example : ((signed? true 0 28).map units, (ofUnits? (-500) 2).map fun q => q.canonical.scale) =
    (some 0, some 0) := by decide

end Quantity

end Stockroom
