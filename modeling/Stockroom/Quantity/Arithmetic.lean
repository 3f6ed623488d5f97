import Stockroom.Quantity.Basic

/-!
# Sums and differences of quantities

A sum is taken exactly at the larger of the two scales. Where its units need more than 96 bits, the
fewest decimals that make it fit are rounded away, a half going to the even neighbour; where no
decimals are left to give up, there is no sum. Adding nothing changes neither value nor scale nor
sign, and adding to nothing gives the other quantity as it is, even where that is nothing too.

Main statements: `nearestEven_near` and `nearestEven_of_tie`, rounding goes at most half a unit, and
to the even neighbour from a tie.
-/
namespace Stockroom.Quantity

/-- The whole number nearest to `n / d`, the even one of two that are equally near. -/
def nearestEven (n d : Nat) : Nat :=
  let q := n / d
  let twice := 2 * (n % d)
  if twice < d then q else if d < twice then q + 1 else q + q % 2

/-- The result is at most half a unit away. -/
theorem nearestEven_near (n : Nat) {d : Nat} (h : 0 < d) :
    2 * n ≤ 2 * (nearestEven n d * d) + d ∧ 2 * (nearestEven n d * d) ≤ 2 * n + d := by
  have hn := Nat.div_add_mod' n d
  have hr := Nat.mod_lt n h
  have hs : (n / d + 1) * d = n / d * d + d := Nat.succ_mul ..
  unfold nearestEven
  dsimp only
  split
  · omega
  · split
    · rw [hs]
      omega
    · rcases Nat.mod_two_eq_zero_or_one (n / d) with h2 | h2 <;> rw [h2]
      · rw [Nat.add_zero]
        omega
      · rw [hs]
        omega

/-- A tie goes to the even neighbour. -/
theorem nearestEven_of_tie {n d : Nat} (h : 2 * (n % d) = d) : nearestEven n d % 2 = 0 := by
  simp only [nearestEven, h, Nat.lt_irrefl, if_false]
  omega

/-- Where there is nothing to round, nothing is. -/
theorem nearestEven_mul (n : Nat) {d : Nat} (h : 0 < d) : nearestEven (n * d) d = n := by
  simp [nearestEven, Nat.mul_div_cancel n h, h]

/-- A whole number with the sign of another. -/
def withSign (sign : Int) (n : Nat) : Int := if sign < 0 then -(n : Int) else n

/-- The quantity of so many units at a scale after `dropped` decimals have been rounded away. -/
def roundedAt (units : Int) (scale dropped : Nat) : Option Quantity :=
  ofUnits? (withSign units (nearestEven units.natAbs (10 ^ dropped))) (scale - dropped)

/-- The quantity of so many units at a scale, with the fewest decimals rounded away that make it
  fit. -/
def fit (units : Int) (scale : Nat) : Option Quantity :=
  (List.range (scale + 1)).findSome? (roundedAt units scale)

/-- The sum of two quantities, if it can be written down. -/
def add? (a b : Quantity) : Option Quantity :=
  if a.isZero then some b
  else if b.isZero then some a
  else
    let scale := max a.scale b.scale
    fit (a.unitsAt scale + b.unitsAt scale) scale

/-- The difference of two quantities, if it can be written down. -/
def sub? (a b : Quantity) : Option Quantity := add? a (-b)

example : zero.add? ⟨true, 0, 28, by decide, by decide⟩ = signed? true 0 28 := by decide
example : nearestEven 25 10 = 2 ∧ nearestEven 35 10 = 4 ∧ nearestEven 26 10 = 3 := by decide

end Stockroom.Quantity
