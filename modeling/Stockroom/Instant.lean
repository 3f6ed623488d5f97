import Stockroom.Date

/-!
# Instants

An instant is a whole second, counted from the start of 1970 and negative before it, and the
nanoseconds since it began. In a leap second the count of whole seconds stands still while the
nanoseconds run on, so there may be nearly two thousand million of them. Such an instant has as many
nanoseconds since 1970 as one of the next second, and comes before it all the same.

Stored is only the number of nanoseconds. What is read is a date, which lies in no leap second.

Main statements:
1. `settled_eq_iff`: the instants that their dates give back are those outside of leap seconds.
2. `storable_iff`: which instants can be stored.
-/
namespace Stockroom

/-- A point in time, leap seconds included. -/
structure Instant where
  /-- Whole seconds since the start of 1970, rounded down. -/
  secs : Int
  /-- The nanoseconds since that second began, a thousand million or more in a leap second. -/
  subsecond : Nat
  subsecond_lt : subsecond < 2 * 10 ^ 9
  deriving DecidableEq

namespace Instant

@[ext] theorem ext {a b : Instant} (hsecs : a.secs = b.secs) (hsub : a.subsecond = b.subsecond) :
    a = b := by
  cases a; cases b; cases hsecs; cases hsub; rfl

/-- Instants are ordered by their seconds, and within a second by their nanoseconds. -/
instance : LE Instant := ⟨fun a b => a.secs < b.secs ∨ a.secs = b.secs ∧ a.subsecond ≤ b.subsecond⟩
instance : LT Instant := ⟨fun a b => a.secs < b.secs ∨ a.secs = b.secs ∧ a.subsecond < b.subsecond⟩
instance (a b : Instant) : Decidable (a ≤ b) := inferInstanceAs (Decidable (_ ∨ _))
instance (a b : Instant) : Decidable (a < b) := inferInstanceAs (Decidable (_ ∨ _))

theorem le_iff {a b : Instant} :
    a ≤ b ↔ a.secs < b.secs ∨ a.secs = b.secs ∧ a.subsecond ≤ b.subsecond := Iff.rfl

theorem lt_iff {a b : Instant} :
    a < b ↔ a.secs < b.secs ∨ a.secs = b.secs ∧ a.subsecond < b.subsecond := Iff.rfl

protected theorem le_trans {a b c : Instant} (hab : a ≤ b) (hbc : b ≤ c) : a ≤ c := by
  rw [le_iff] at hab hbc ⊢
  omega

protected theorem not_le {a b : Instant} : ¬ a ≤ b ↔ b < a := by
  rw [le_iff, lt_iff]
  omega

/-- Seconds since the start of 1970 and nanoseconds since then. What is too much for a leap second
  is carried over. -/
def ofUnix (secs : Int) (nanos : Nat) : Instant :=
  if h : nanos < 2 * 10 ^ 9 then ⟨secs, nanos, h⟩
  else ⟨secs + nanos / 10 ^ 9, nanos % 10 ^ 9, by omega⟩

/-- The nanoseconds since the start of 1970. -/
def nanos (t : Instant) : Int := t.secs * 10 ^ 9 + t.subsecond

/-! ## Instants and dates -/

/-- The date that has as many nanoseconds. A leap second counts on into the second after it. -/
def date (t : Instant) : Date := ⟨t.nanos⟩

/-- The instant at which a calendar shows a date. -/
def ofDate (d : Date) : Instant :=
  ⟨d.secs, d.subsecond, Nat.lt_trans d.subsecond_lt (by decide)⟩

instance : Coe Date Instant := ⟨ofDate⟩

/-- Where a date is asked for, an instant stands for its own. -/
instance : Coe Instant Date := ⟨date⟩

@[simp] theorem nanos_ofDate (d : Date) : (ofDate d).nanos = d.nanos := d.secs_add_subsecond

@[simp] theorem date_ofDate (d : Date) : (ofDate d).date = d := Date.ext (nanos_ofDate d)

theorem ofDate_le_ofDate {a b : Date} : ofDate a ≤ ofDate b ↔ a ≤ b := by
  show (a.secs < b.secs ∨ a.secs = b.secs ∧ a.subsecond ≤ b.subsecond) ↔ a.nanos ≤ b.nanos
  have ha := a.secs_add_subsecond
  have hb := b.secs_add_subsecond
  have halt := a.subsecond_lt
  have hblt := b.subsecond_lt
  omega

theorem ofDate_lt_ofDate {a b : Date} : ofDate a < ofDate b ↔ a < b := by
  show (a.secs < b.secs ∨ a.secs = b.secs ∧ a.subsecond < b.subsecond) ↔ a.nanos < b.nanos
  have ha := a.secs_add_subsecond
  have hb := b.secs_add_subsecond
  have halt := a.subsecond_lt
  have hblt := b.subsecond_lt
  omega

/-! ## Leap seconds -/

/-- Not in a leap second. -/
def IsSettled (t : Instant) : Prop := t.subsecond < 10 ^ 9

instance (t : Instant) : Decidable t.IsSettled := inferInstanceAs (Decidable (_ < _))

/-- What the date of an instant gives back: the instant itself, or the one a second's worth of
  nanoseconds into the next second. -/
def settled (t : Instant) : Instant := ofDate t.date

theorem isSettled_ofDate (d : Date) : (ofDate d).IsSettled := d.subsecond_lt

theorem settled_eq_iff {t : Instant} : t.settled = t ↔ t.IsSettled := by
  constructor
  · intro h
    rw [← h]
    exact isSettled_ofDate _
  · intro h
    have h : t.subsecond < 10 ^ 9 := h
    apply ext
    · show (t.secs * 10 ^ 9 + t.subsecond : Int) / 10 ^ 9 = t.secs
      omega
    · show ((t.secs * 10 ^ 9 + t.subsecond : Int) % 10 ^ 9).toNat = t.subsecond
      omega

theorem settled_eq {t : Instant} (h : t.IsSettled) : t.settled = t := settled_eq_iff.2 h

/-- The nanoseconds are those of the instant, in a leap second too. -/
theorem nanos_settled (t : Instant) : t.settled.nanos = t.nanos := nanos_ofDate t.date

/-- An instant in a leap second gives back one of the second after it. -/
theorem settled_of_leap {t : Instant} (h : ¬ t.IsSettled) :
    t.settled.secs = t.secs + 1 ∧ t.settled.subsecond + 10 ^ 9 = t.subsecond := by
  have h : ¬ t.subsecond < 10 ^ 9 := h
  have hlt := t.subsecond_lt
  constructor
  · show (t.secs * 10 ^ 9 + t.subsecond : Int) / 10 ^ 9 = t.secs + 1
    omega
  · show ((t.secs * 10 ^ 9 + t.subsecond : Int) % 10 ^ 9).toNat + 10 ^ 9 = t.subsecond
    omega

/-! ## What can be stored -/

/-- The whole second from which nanoseconds are counted: the one that began last or, before 1970,
  the one after it. -/
def nearSecond (t : Instant) : Int := if t.secs < 0 then t.secs + 1 else t.secs

/-- Whether an instant can be stored: the nanoseconds up to the whole second it is counted from fit
  64 signed bits, and so do its own. -/
def Storable (t : Instant) : Prop :=
  (-2 ^ 63 ≤ t.nearSecond * 10 ^ 9 ∧ t.nearSecond * 10 ^ 9 < 2 ^ 63) ∧
    -2 ^ 63 ≤ t.nanos ∧ t.nanos < 2 ^ 63

instance (t : Instant) : Decidable t.Storable := inferInstanceAs (Decidable (_ ∧ _))

/-- An instant can be stored if its nanoseconds fit 64 signed bits, except in the leap second of the
  one second from which those of the next can just be reached. -/
theorem storable_iff {t : Instant} : t.Storable ↔ t.date.Storable ∧ t.secs ≠ -9223372038 := by
  show (-2 ^ 63 ≤ t.nearSecond * 10 ^ 9 ∧ t.nearSecond * 10 ^ 9 < 2 ^ 63) ∧
    (-2 ^ 63 ≤ t.secs * 10 ^ 9 + t.subsecond ∧ t.secs * 10 ^ 9 + t.subsecond < 2 ^ 63) ↔
    (-2 ^ 63 ≤ t.secs * 10 ^ 9 + t.subsecond ∧ t.secs * 10 ^ 9 + t.subsecond < 2 ^ 63) ∧ _
  have hlt := t.subsecond_lt
  rw [nearSecond]
  split <;> omega

/-- Outside of leap seconds an instant can be stored exactly when its nanoseconds fit. -/
theorem storable_iff_of_isSettled {t : Instant} (h : t.IsSettled) :
    t.Storable ↔ t.date.Storable := by
  rw [storable_iff, and_iff_left_iff_imp]
  rintro ⟨hlow, -⟩
  have hlow : -2 ^ 63 ≤ t.secs * 10 ^ 9 + t.subsecond := hlow
  have h : t.subsecond < 10 ^ 9 := h
  omega

theorem storable_ofDate {d : Date} : (ofDate d).Storable ↔ d.Storable := by
  rw [storable_iff_of_isSettled (isSettled_ofDate d), date_ofDate]

/-- The middle of the leap second at the end of 2016. -/
example : (ofUnix 1483228799 1500000000).settled = ofUnix 1483228800 500000000 := by decide

end Instant

end Stockroom
