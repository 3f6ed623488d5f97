import Stockroom.Duration

/-!
# Dates

A date is what a calendar shows: a whole number of nanoseconds from the start of 1970, negative
before it. The calendar knows no leap seconds, and it ends: no date lies beyond `Date.last`. The
dates of stored instants must fit 64 signed bits of nanoseconds, which is a shorter range.

Main statement: `after_eq` gives the three cases of a point in the future, the sum, a year ahead
when the distance cannot be measured, and the start itself when the calendar ends before it.
-/
namespace Stockroom

/-- A point in time as a calendar shows it, in nanoseconds from the start of 1970. -/
structure Date where
  nanos : Int
  deriving DecidableEq, Inhabited

namespace Date

@[ext] theorem ext {a b : Date} (h : a.nanos = b.nanos) : a = b := by
  cases a; cases b; cases h; rfl

instance : LE Date := ⟨fun a b => a.nanos ≤ b.nanos⟩
instance : LT Date := ⟨fun a b => a.nanos < b.nanos⟩
instance (a b : Date) : Decidable (a ≤ b) := inferInstanceAs (Decidable (a.nanos ≤ b.nanos))
instance (a b : Date) : Decidable (a < b) := inferInstanceAs (Decidable (a.nanos < b.nanos))

/-- Seconds since the start of 1970, rounded down, and the nanoseconds after them. -/
def ofUnix (secs : Int) (nanos : Nat) : Date := ⟨secs * 10 ^ 9 + nanos⟩

/-- Seconds since the start of 1970, rounded down. -/
def secs (t : Date) : Int := t.nanos / 10 ^ 9

/-- The nanoseconds after the whole second. -/
def subsecond (t : Date) : Nat := (t.nanos % 10 ^ 9).toNat

theorem subsecond_lt (t : Date) : t.subsecond < 10 ^ 9 := by
  simp only [subsecond]
  omega

/-- A date is its whole seconds and the nanoseconds after them. -/
theorem secs_add_subsecond (t : Date) : t.secs * 10 ^ 9 + t.subsecond = t.nanos := by
  simp only [secs, subsecond]
  omega

/-- The last date of the calendar, at the end of the year 262142. -/
def last : Date := ofUnix 8210266876799 999999999

/-- Whether the nanoseconds of a date fit 64 signed bits. -/
def Storable (t : Date) : Prop := -2 ^ 63 ≤ t.nanos ∧ t.nanos < 2 ^ 63

instance (t : Date) : Decidable t.Storable := inferInstanceAs (Decidable (_ ∧ _))

/-- The longest distance that can be measured between two dates: `2^63 - 1` milliseconds. -/
def longestSpan : Nat := (2 ^ 63 - 1) * 10 ^ 6

/-- The distance that stands in for one too long to be measured: 365 days. -/
def yearSpan : Nat := 365 * 24 * 3600 * 10 ^ 9

/-- The date a duration after another. A duration too long to be measured counts as a year; a date
  past the end of the calendar is replaced by the start. -/
def after (t : Date) (d : Duration) : Date :=
  let span := if d.nanos ≤ longestSpan then d.nanos else yearSpan
  let sum : Date := ⟨t.nanos + span⟩
  if sum ≤ last then sum else t

theorem after_eq (t : Date) (d : Duration) :
    t.after d =
      if d.nanos ≤ longestSpan then
        if t.nanos + d.nanos ≤ last.nanos then ⟨t.nanos + d.nanos⟩ else t
      else if t.nanos + yearSpan ≤ last.nanos then ⟨t.nanos + yearSpan⟩ else t := by
  by_cases h : d.nanos ≤ longestSpan <;> simp only [after, h, if_true, if_false] <;> rfl

example : (ofUnix (-1) 999999999).nanos = -1 := by decide
example : (⟨-1⟩ : Date).secs = -1 ∧ (⟨-1⟩ : Date).subsecond = 999999999 := by decide

end Date

end Stockroom
