import Stockroom.Quantity.Basic
import Stockroom.Text.Digits

/-!
# Written quantities

A quantity is written with exactly as many decimals as its scale. It is read from an optional sign,
digits, and at most one point before, between or after them; underscores may stand anywhere after
the first digit. Reading is exact: a text with more than 96 bits of units or more than 28 decimals
is refused and never rounded.
-/
namespace Stockroom.Quantity

open Text (digits fixedDigits digitValue?)

/-! ## Writing -/

/-- Sign, whole part, and as many decimals as the scale says. -/
def textChars (q : Quantity) : List Char :=
  (if q.negative then ['-'] else []) ++ digits (q.magnitude / 10 ^ q.scale) ++
    (if q.scale = 0 then [] else '.' :: fixedDigits q.scale q.magnitude)

/-- Sign, whole part, and as many decimals as the scale says. -/
def text (q : Quantity) : String := String.ofList q.textChars

instance : ToString Quantity := ⟨text⟩

/-! ## Reading -/

/-- Why a text is not a quantity. -/
inductive Malformed
  | empty
  | secondPoint
  | leadingUnderscore
  | unknownCharacter
  | noDigits
  /-- The whole part needs more than 96 bits. -/
  | tooLarge
  /-- Some decimal would be lost. -/
  | tooPrecise
  deriving DecidableEq

/-- The fault in words. -/
def Malformed.message : Malformed → String
  | empty => "Invalid decimal: empty"
  | secondPoint => "Invalid decimal: two decimal points"
  | leadingUnderscore => "Invalid decimal: must start lead with a number"
  | unknownCharacter => "Invalid decimal: unknown character"
  | noDigits => "Invalid decimal: no digits found"
  | tooLarge => "Invalid decimal: overflow from too many digits"
  | tooPrecise => "Number has a high precision that can not be represented."

/-- How far the digits of a text have been read. -/
structure Reading where
  units : Nat
  scale : Nat
  /-- Whether a digit has been met. -/
  started : Bool
  /-- Whether the point has been met. -/
  pointed : Bool

/-- Nothing read yet. -/
def Reading.start : Reading := ⟨0, 0, false, false⟩

/-- A digit joins the units, and the decimals once the point has been met. -/
def Reading.digit (r : Reading) (d : Nat) : Reading :=
  ⟨r.units * 10 + d, if r.pointed then r.scale + 1 else r.scale, true, r.pointed⟩

/-- Where reading digits ends. -/
inductive Halt
  /-- The text is over. -/
  | finished (r : Reading)
  /-- The text cannot be a quantity. -/
  | refused (why : Malformed)
  /-- There is no room for another decimal, and `rest` is unread. -/
  | crowded (r : Reading) (rest : List Char)

/-- Read on until the text ends, is refused, or has more decimals than there is room for. -/
def Reading.run (r : Reading) : List Char → Halt
  | [] => .finished r
  | c :: cs =>
    if 28 ≤ r.scale then .crowded r (c :: cs)
    else
      match digitValue? c with
      | some d =>
        if (r.digit d).units < 2 ^ 96 then (r.digit d).run cs
        else if r.pointed then .crowded r (c :: cs)
        else .refused .tooLarge
      | none =>
        if c = '.' then
          if r.pointed then .refused .secondPoint else { r with pointed := true }.run cs
        else if c = '_' then
          if r.started then r.run cs else .refused .leadingUnderscore
        else .refused .unknownCharacter

/-- The quantity read, under a sign that nothing does not keep. -/
def Reading.signed (negative : Bool) (r : Reading) : Except Malformed Quantity :=
  if r.started then
    match ofUnits? (if negative then -(r.units : Int) else r.units) r.scale with
    | some q => .ok q
    | none => .error .tooPrecise
  else .error .noDigits

/-- Whether a text starts with a minus sign, and what follows a sign of either kind. -/
def splitSign : List Char → Bool × List Char
  | '-' :: cs => (true, cs)
  | '+' :: cs => (false, cs)
  | cs => (false, cs)

/-- Read a quantity without rounding. -/
def readExactChars (cs : List Char) : Except Malformed Quantity :=
  if cs.isEmpty then .error .empty
  else
    match Reading.start.run (splitSign cs).2 with
    | .finished r => r.signed (splitSign cs).1
    | .refused why => .error why
    | .crowded _ _ => .error .tooPrecise

/-- Read a quantity without rounding. -/
def readExact (s : String) : Except Malformed Quantity := readExactChars s.toList

example : ((readExact "-1_0.50").toOption.map textChars) = some ['-', '1', '0', '.', '5', '0'] := by
  decide +kernel
example : (readExact "1.2.3").toOption = none ∧ (readExact "_1").toOption = none := by
  decide +kernel

end Stockroom.Quantity
