import Stockroom.Quantity.Notation

/-!
# Stored quantities

A stored quantity is the text of one. What was stored by others is read generously: a text with
more decimals than there is room for is rounded, half away from nothing, and a text in scientific
notation is accepted. On everything the exact reader accepts, the two agree. A negative quantity
keeps its sign where a negative exponent rounds all of its digits away; nowhere else does nothing
have a sign.
-/
namespace Stockroom.Quantity

open Text (digitValue? readBelow)

/-! ## Rounding on reading -/

/-- Whether a text holds digits and underscores only. -/
def onlyDigits (cs : List Char) : Bool :=
  cs.all fun c => (digitValue? c).isSome || c == '_'

/-- One more unit in the last place. Where that needs more than 96 bits, the last decimal is given
  up for it. -/
def Reading.bump (r : Reading) : Option Reading :=
  if r.units + 1 < 2 ^ 96 then some { r with units := r.units + 1 }
  else if r.scale = 0 then none
  else some { r with units := (r.units + 5) / 10, scale := r.scale - 1 }

/-- Whether the units before the last digit are fewer than `(2 ^ 64 - 1) / 10 - 255`. -/
def Reading.isShort (r : Reading) : Bool := r.units / 10 < (2 ^ 64 - 1) / 10 - 255

/-- The value of the character that decides how the last place is rounded. An underscore stands for
  zero. -/
def decidingValue? (c : Char) : Option Nat := if c = '_' then some 0 else digitValue? c

/-- Let the first unread character decide how the last place is rounded. In a long number the
  underscores before a digit are passed over first; in a short one an underscore decides too. What
  comes after has no say but must be digits or underscores. -/
def Reading.roundOff (r : Reading) (rest : List Char) : Option Reading :=
  match if r.isShort then rest else rest.dropWhile (· == '_') with
  | [] => some r
  | c :: cs =>
    match decidingValue? c with
    | none => none
    | some d => if onlyDigits cs then if 5 ≤ d then r.bump else some r else none

/-- Read a quantity in positional notation, rounding what does not fit. -/
def readRounded (cs : List Char) : Option Quantity :=
  if cs.isEmpty then none
  else
    match Reading.start.run (splitSign cs).2 with
    | .finished r => (r.signed (splitSign cs).1).toOption
    | .refused _ => none
    | .crowded r rest =>
      (r.roundOff rest).bind fun r => (r.signed (splitSign cs).1).toOption

/-! ## Scientific notation -/

/-- The whole number nearest to `n / d`, the larger of two that are equally near. -/
def nearestUp (n d : Nat) : Nat := (2 * n + d) / (2 * d)

/-- The same digits with the point `n` places further left. Decimals for which there is no room
  are rounded away, and the sign stays whatever is left. -/
def shiftDown (q : Quantity) (n : Nat) : Option Quantity :=
  if 28 < n then none
  else if q.scale + n ≤ 28 then signed? q.negative q.magnitude (q.scale + n)
  else signed? q.negative (nearestUp q.magnitude (10 ^ (q.scale + n - 28))) 28

/-- The same digits with the point `n` places further right. Decimals go first; a whole number is
  multiplied. -/
def shiftUp (q : Quantity) (n : Nat) : Option Quantity :=
  if n ≤ q.scale then signed? q.negative q.magnitude (q.scale - n)
  else if 28 < n then none
  else signed? q.negative (q.magnitude * 10 ^ (n - q.scale)) 0

/-- Whether a character separates digits and exponent. -/
def isExponentMark (c : Char) : Bool := c == 'e' || c == 'E'

/-- Read a quantity in scientific notation. -/
def readScientific (cs : List Char) : Option Quantity := do
  let base ← readRounded (cs.takeWhile fun c => !isExponentMark c)
  match cs.dropWhile fun c => !isExponentMark c with
  | _ :: '-' :: exponent => base.shiftDown (← readBelow (2 ^ 32) exponent)
  | _ :: exponent => base.shiftUp (← readBelow (2 ^ 32) exponent)
  | [] => none

/-- Read a stored quantity: positional notation first, scientific notation where that fails. -/
def readStored (s : String) : Option Quantity :=
  readRounded s.toList <|> readScientific s.toList

example : (readStored "1e2").map text = some "100" := by decide +kernel
example : (readStored "1.1234567890123456789012345678_9").map text =
    some "1.1234567890123456789012345679" := by decide +kernel
example : (readStored "0.0000000000000000000000000001_9").map text =
    some "0.0000000000000000000000000001" := by decide +kernel
example : (readStored "-0.4e-28").map text = some "-0.0000000000000000000000000000" ∧
    (readStored "-0e-5").map text = some "0.00000" := by decide +kernel

end Stockroom.Quantity
