import Stockroom.Power

/-!
# Decimal digits

Numbers are written with as many digits as they need or with a fixed count of them, and read back
digit by digit.
-/
namespace Stockroom.Text

/-- The digits of a number, without leading zeros. -/
def digits (n : Nat) : List Char := Nat.toDigits 10 n

/-- The last `width` digits of a number. -/
def fixedDigits : (width : Nat) → Nat → List Char
  | 0, _ => []
  | width + 1, n => Nat.digitChar (n / 10 ^ width % 10) :: fixedDigits width n

/-- The value of an ASCII digit. -/
def digitValue? (c : Char) : Option Nat :=
  if '0' ≤ c ∧ c ≤ '9' then some (c.toNat - '0'.toNat) else none

/-- A number read on from the value of the digits before. -/
def readDigitsFrom (value : Nat) : List Char → Option Nat
  | [] => some value
  | c :: cs => (digitValue? c).bind fun d => readDigitsFrom (value * 10 + d) cs

/-- The number that one or more digits spell. -/
def readDigits (cs : List Char) : Option Nat :=
  if cs.isEmpty then none else readDigitsFrom 0 cs

/-- The number below `bound` that digits spell, after a plus sign or none. -/
def readBelow (bound : Nat) (cs : List Char) : Option Nat :=
  (readDigits (if cs.head? = some '+' then cs.tail else cs)).filter (· < bound)

@[simp] theorem length_fixedDigits (width n : Nat) : (fixedDigits width n).length = width := by
  induction width with
  | zero => rfl
  | succ width ih => simp [fixedDigits, ih]

example : fixedDigits 4 1305 = ['1', '3', '0', '5'] := by decide
example : fixedDigits 3 7 = ['0', '0', '7'] := by decide
example : readDigits ['0', '4', '2'] = some 42 ∧ readDigits [] = none := by decide
example : readBelow 256 ['+', '2', '5', '5'] = some 255 ∧ readBelow 256 ['+', '+', '5'] = none := by
  decide

end Stockroom.Text
