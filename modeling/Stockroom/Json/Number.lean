import Stockroom.Binary64
import Stockroom.Json.Fault

/-!
# JSON numbers

No record holds numbers, so a number is read only to be named in a message. Whole numbers of 64
bits are shown as they are, all others as the double they round to: the digits that fit 64 bits,
times or divided by a power of ten. A number too large for a double breaks the grammar.
-/
namespace Stockroom.Json

open Text (digitValue?)

/-- A number as it is spelled: its digits as far as they fit 64 bits, and the power of ten that they
  count. -/
structure Spelling where
  significand : Nat
  exponent : Int
  /-- Whether there are neither a point, nor an exponent, nor digits that do not fit. -/
  whole : Bool

/-- Split off the digits at the front. -/
def spanDigits (cs : List Char) : List Nat × List Char :=
  ((cs.takeWhile fun c => (digitValue? c).isSome).filterMap digitValue?,
    cs.dropWhile fun c => (digitValue? c).isSome)

/-- Take in the digits of the whole part. Those that do not fit make the number larger by a power
  of ten each. -/
def Spelling.wholePart (s : Spelling) : List Nat → Spelling
  | [] => s
  | d :: ds =>
    if s.significand * 10 + d < 2 ^ 64 then
      { s with significand := s.significand * 10 + d }.wholePart ds
    else { s with exponent := s.exponent + (ds.length + 1 : Nat), whole := false }

/-- Take in the decimals. Those that do not fit are dropped. -/
def Spelling.fraction (s : Spelling) : List Nat → Spelling
  | [] => s
  | d :: ds =>
    if s.significand * 10 + d < 2 ^ 64 then
      { s with significand := s.significand * 10 + d, exponent := s.exponent - 1 }.fraction ds
    else s

/-- What follows a number that lacks a digit: the text is over, or something else stands there. -/
def missingDigit (rest : List Char) : Fault := if rest.isEmpty then .ended else .malformed

/-- Read the whole part. A zero stands alone. -/
def readWhole (cs : List Char) : Except Fault (Spelling × List Char) :=
  match spanDigits cs with
  | ([], rest) => .error (missingDigit rest)
  | (0 :: _ :: _, _) => .error .malformed
  | (ds, rest) => .ok (Spelling.wholePart ⟨0, 0, true⟩ ds, rest)

/-- Read a point and decimals, if there are any. -/
def readFraction (s : Spelling) : List Char → Except Fault (Spelling × List Char)
  | '.' :: cs =>
    match spanDigits cs with
    | ([], rest) => .error (missingDigit rest)
    | (ds, rest) => .ok ({ s with whole := false }.fraction ds, rest)
  | cs => .ok (s, cs)

/-- The largest exponent that is kept as written. -/
def exponentLimit : Nat := 2 ^ 31 - 1

/-- A number with a written exponent. One beyond the limit makes the number nothing or too
  large. -/
def Spelling.withExponent (s : Spelling) (negative : Bool) (n : Nat) : Except Fault Spelling :=
  if n ≤ exponentLimit then
    .ok { s with exponent := if negative then s.exponent - n else s.exponent + n, whole := false }
  else if s.significand = 0 ∨ negative then .ok ⟨0, 0, false⟩
  else .error .malformed

/-- Read an exponent, if there is one. -/
def readExponent (s : Spelling) : List Char → Except Fault (Spelling × List Char)
  | [] => .ok (s, [])
  | c :: cs =>
    if c = 'e' ∨ c = 'E' then
      let negative := cs.head? = some '-'
      let cs := if negative ∨ cs.head? = some '+' then cs.tail else cs
      match spanDigits cs with
      | ([], rest) => .error (missingDigit rest)
      | (ds, rest) =>
        (s.withExponent negative (ds.foldl (fun n d => n * 10 + d) 0)).map (·, rest)
    else .ok (s, c :: cs)

/-- The double that a spelling rounds to: its digits, then one step to the power of ten, and steps
  of `10 ^ 308` before it where the number is very small. -/
def Spelling.double (s : Spelling) : Option Binary64 := do
  let digits ← Binary64.ofRatio? s.significand 1
  if 0 ≤ s.exponent then
    if s.significand = 0 then return digits
    else if 308 < s.exponent then none
    else digits.mul? (← Binary64.ofRatio? (10 ^ s.exponent.toNat) 1)
  else
    let steps := (-s.exponent).toNat / 308
    let power ← Binary64.ofRatio? (10 ^ 308) 1
    -- three steps leave nothing of any digits
    let x ← (List.replicate (min steps 3) power).foldlM Binary64.div? digits
    x.div? (← Binary64.ofRatio? (10 ^ ((-s.exponent).toNat % 308)) 1)

/-- The number spelled, as it is named in a message. -/
def Spelling.found (s : Spelling) (negative : Bool) : Except Fault Found :=
  let sign := if negative then "-" else ""
  if s.whole ∧ (negative → s.significand ≠ 0 ∧ s.significand ≤ 2 ^ 63) then
    .ok (.integer (sign ++ toString s.significand))
  else
    match s.double with
    | some x => .ok (.floating (sign ++ String.ofList x.textChars))
    | none => .error .malformed

/-- Read a number after its sign. -/
def readNumber (negative : Bool) (cs : List Char) : Except Fault (Found × List Char) := do
  let (s, rest) ← readWhole cs
  let (s, rest) ← readFraction s rest
  let (s, rest) ← readExponent s rest
  return (← s.found negative, rest)

/-! ## Numbers nobody asked for -/

/-- Pass over the digits at the front, of which there must be one. -/
def skipDigits (cs : List Char) : Except Fault (List Char) :=
  match spanDigits cs with
  | ([], _) => .error .malformed
  | (_, rest) => .ok rest

/-- Pass over a point and decimals, if there are any. -/
def skipFraction : List Char → Except Fault (List Char)
  | '.' :: cs => skipDigits cs
  | cs => .ok cs

/-- Pass over an exponent, if there is one. -/
def skipExponent : List Char → Except Fault (List Char)
  | [] => .ok []
  | c :: cs =>
    if c = 'e' ∨ c = 'E' then
      skipDigits (if cs.head? = some '-' ∨ cs.head? = some '+' then cs.tail else cs)
    else .ok (c :: cs)

/-- Pass over a number after its sign. A number cut short breaks the grammar. -/
def skipNumber (cs : List Char) : Except Fault (List Char) :=
  match spanDigits cs with
  | ([], _) => .error .malformed
  | (0 :: _ :: _, _) => .error .malformed
  | (_, rest) => do skipExponent (← skipFraction rest)

end Stockroom.Json
