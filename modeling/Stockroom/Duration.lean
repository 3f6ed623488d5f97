import Stockroom.Text.Digits

/-!
# Durations

A duration is a whole number of nanoseconds below `2^64` seconds. Arithmetic on durations never
fails: what would be longer than the longest duration is the longest duration.

Main statements: `nanos_add` and `nanos_times` say that sums and multiples are exact up to that
limit; `nanos_slept`, a sleep is as long as it is meant to be up to thirty years.
-/
namespace Stockroom

/-- A length of time of less than `2^64` seconds, in nanoseconds. -/
structure Duration where
  nanos : Nat
  nanos_lt : nanos < 2 ^ 64 * 10 ^ 9
  deriving DecidableEq

namespace Duration

@[ext] theorem ext {a b : Duration} (h : a.nanos = b.nanos) : a = b := by
  cases a; cases b; cases h; rfl

/-- The nanoseconds of the longest duration. -/
def maxNanos : Nat := 2 ^ 64 * 10 ^ 9 - 1

/-- The duration of that many nanoseconds, or the longest one. -/
def ofNanos (n : Nat) : Duration :=
  ⟨min n maxNanos, by simp only [maxNanos]; omega⟩

/-- The duration of that many milliseconds, or the longest one. -/
def ofMillis (n : Nat) : Duration := ofNanos (n * 10 ^ 6)

/-- The duration of that many seconds, or the longest one. -/
def ofSecs (n : Nat) : Duration := ofNanos (n * 10 ^ 9)

/-- No time at all. -/
def zero : Duration := ⟨0, by decide⟩

instance : Inhabited Duration := ⟨zero⟩

instance : LE Duration := ⟨fun a b => a.nanos ≤ b.nanos⟩
instance : LT Duration := ⟨fun a b => a.nanos < b.nanos⟩
instance (a b : Duration) : Decidable (a ≤ b) := inferInstanceAs (Decidable (a.nanos ≤ b.nanos))
instance (a b : Duration) : Decidable (a < b) := inferInstanceAs (Decidable (a.nanos < b.nanos))

/-- The shorter of two durations. -/
instance : Min Duration := ⟨fun a b => if a ≤ b then a else b⟩

instance : Add Duration := ⟨fun a b => ofNanos (a.nanos + b.nanos)⟩

/-- A duration repeated. -/
def times (a : Duration) (n : Nat) : Duration := ofNanos (a.nanos * n)

/-- The longest sleep: thirty years of 365 days. -/
def longestSleep : Duration := ofSecs (30 * 365 * 86400)

/-- How long a sleep lasts that is meant to last so long. Only sleeping ends early: a limit on
  waiting for somebody else is kept whatever its length. -/
def slept (a : Duration) : Duration := min a longestSleep

/-- The whole milliseconds in a duration. -/
def millis (a : Duration) : Nat := a.nanos / 10 ^ 6

/-! ## Laws -/

theorem nanos_le (a : Duration) : a.nanos ≤ maxNanos := by
  have := a.nanos_lt
  simp only [maxNanos]
  omega

@[simp] theorem nanos_ofNanos (n : Nat) : (ofNanos n).nanos = min n maxNanos := rfl

/-- A sum is exact up to the longest duration. -/
theorem nanos_add (a b : Duration) : (a + b).nanos = min (a.nanos + b.nanos) maxNanos := rfl

/-- A multiple is exact up to the longest duration. -/
theorem nanos_times (a : Duration) (n : Nat) : (a.times n).nanos = min (a.nanos * n) maxNanos := rfl

theorem nanos_min (a b : Duration) : (min a b).nanos = min a.nanos b.nanos := by
  change (if a.nanos ≤ b.nanos then a else b).nanos = _
  split
  · exact (Nat.min_eq_left ‹_›).symm
  · exact (Nat.min_eq_right (Nat.le_of_not_le ‹_›)).symm

/-- A sleep is as long as it is meant to be up to thirty years. -/
theorem nanos_slept (a : Duration) : a.slept.nanos = min a.nanos longestSleep.nanos :=
  nanos_min a longestSleep

/-! ## In messages -/

/-- The decimals of `fraction / 10 ^ places`, without the zeros at the end. -/
def decimals (fraction places : Nat) : List Char :=
  ((Text.fixedDigits places fraction).reverse.dropWhile (· == '0')).reverse

/-- A count of nanoseconds in a unit of `10 ^ places` of them. -/
def inUnit (nanos places : Nat) (unit : List Char) : List Char :=
  let fraction := nanos % 10 ^ places
  Text.digits (nanos / 10 ^ places) ++
    (if fraction = 0 then [] else '.' :: decimals fraction places) ++ unit

/-- A duration in the largest unit of which it holds at least one, or in nanoseconds. -/
def text (a : Duration) : String :=
  String.ofList <|
    if 10 ^ 9 ≤ a.nanos then inUnit a.nanos 9 ['s']
    else if 10 ^ 6 ≤ a.nanos then inUnit a.nanos 6 ['m', 's']
    else if 10 ^ 3 ≤ a.nanos then inUnit a.nanos 3 ['µ', 's']
    else inUnit a.nanos 0 ['n', 's']

instance : ToString Duration := ⟨text⟩

example : (ofMillis 1500).text = "1.5s" ∧ (ofNanos 1001).text = "1.001µs" := by decide
example : (ofMillis 946080000001).slept.millis = 946080000000 := by decide
example : zero.text = "0ns" ∧ (ofMillis 10).text = "10ms" := by decide

end Duration

end Stockroom
