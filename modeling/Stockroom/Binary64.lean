import Stockroom.Text.Digits
import Stockroom.Quantity.Arithmetic

/-!
# Double-precision numbers

A finite double that is not negative is `significand * 2 ^ exponent`. Ratios are rounded to the
nearest double, a half going to the even significand, and a double is written with the fewest
decimal digits that round back to it.
-/
namespace Stockroom

/-- The double `significand * 2 ^ exponent`. -/
structure Binary64 where
  significand : Nat
  exponent : Int
  deriving DecidableEq

namespace Binary64

/-- The exponent of the smallest doubles. -/
def leastExponent : Int := -1074

/-- The exponent of the largest doubles. -/
def greatestExponent : Int := 971

/-- Numerator and denominator of `n * base ^ e / d`. -/
def scaled (n d base : Nat) (e : Int) : Nat × Nat :=
  if 0 ≤ e then (n * base ^ e.toNat, d) else (n, d * base ^ (-e).toNat)

/-- The double nearest to `n / d`, unless that is too large for any. -/
def ofRatio? (n d : Nat) : Option Binary64 :=
  if n = 0 then some ⟨0, leastExponent⟩
  else
    let guess : Int := (n.log2 : Int) - d.log2 - 53
    let (n', d') := scaled n d 2 (-guess)
    let exponent := max leastExponent (if n' / d' < 2 ^ 53 then guess else guess + 1)
    let (n', d') := scaled n d 2 (-exponent)
    let rounded := Quantity.nearestEven n' d'
    let value : Binary64 :=
      if rounded < 2 ^ 53 then ⟨rounded, exponent⟩ else ⟨2 ^ 52, exponent + 1⟩
    if value.exponent ≤ greatestExponent then some value else none

/-- The double as a ratio. -/
def ratio (x : Binary64) : Nat × Nat := scaled x.significand 1 2 x.exponent

/-- The product of two doubles, rounded. -/
def mul? (x y : Binary64) : Option Binary64 :=
  ofRatio? (x.ratio.1 * y.ratio.1) (x.ratio.2 * y.ratio.2)

/-- The quotient of two doubles, rounded. -/
def div? (x y : Binary64) : Option Binary64 :=
  ofRatio? (x.ratio.1 * y.ratio.2) (x.ratio.2 * y.ratio.1)

/-! ## Shortest decimals -/

/-- Whether `c * 10 ^ place` rounds to a double: it lies between the midpoints to the neighbours,
  and on a midpoint only if the significand is even. -/
def isRoundedFrom (x : Binary64) (c : Nat) (place : Int) : Bool :=
  let m := x.significand
  -- quarters of a unit in the last place
  let low := if m = 2 ^ 52 ∧ leastExponent < x.exponent then 4 * m - 1 else 4 * m - 2
  let high := 4 * m + 2
  let (lowN, lowD) := scaled low 4 2 x.exponent
  let (highN, highD) := scaled high 4 2 x.exponent
  let (n, d) := scaled c 1 10 place
  if m % 2 = 0 then lowN * d ≤ n * lowD && n * highD ≤ highN * d
  else lowN * d < n * lowD && n * highD < highN * d

/-- The multiple of `10 ^ place` nearest to a double among those that round to it. -/
def nearestAt? (x : Binary64) (place : Int) : Option Nat :=
  let (n, d) := x.ratio
  let (n, d) := scaled n d 10 (-place)
  let below := n / d
  let nearest := Quantity.nearestEven n d
  let other := if nearest = below then below + 1 else below
  if x.isRoundedFrom nearest place then some nearest
  else if x.isRoundedFrom other place then some other
  else none

/-- The decimal with the fewest digits that rounds to a double, as a whole number and the power of
  ten that it counts. -/
def shortest (x : Binary64) : Nat × Int :=
  ((List.range 660).findSome? fun (i : Nat) =>
    let place : Int := 310 - (i : Int)
    (x.nearestAt? place).map (·, place)).getD (0, 0)

/-- Positional notation with at least one decimal from `1e-5` up to `1e16`, and elsewhere a power
  of ten after the digits, with its sign. -/
def textChars (x : Binary64) : List Char :=
  if x.significand = 0 then ['0', '.', '0']
  else
    let (c, place) := x.shortest
    let ds := Text.digits c
    let point := (ds.length : Int) + place
    if 0 ≤ place ∧ point ≤ 16 then ds ++ List.replicate place.toNat '0' ++ ['.', '0']
    else if 0 < point ∧ point ≤ 16 then ds.take point.toNat ++ '.' :: ds.drop point.toNat
    else if -5 < point ∧ point ≤ 0 then
      '0' :: '.' :: List.replicate (-point).toNat '0' ++ ds
    else
      ds.take 1 ++ (if ds.length = 1 then [] else '.' :: ds.drop 1) ++ 'e' ::
        (if point - 1 < 0 then '-' else '+') :: Text.digits (point - 1).natAbs

example : (ofRatio? 1 10).map textChars = some ['0', '.', '1'] := by decide +kernel
example : (ofRatio? (10 ^ 23) 1).map (String.ofList ∘ textChars) = some "1e+23" := by decide +kernel
example : (ofRatio? 5 (10 ^ 324)).map (String.ofList ∘ textChars) = some "5e-324" := by
  decide +kernel

end Binary64

end Stockroom
