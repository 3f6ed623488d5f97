import Stockroom.Proofs.StoredRecords

/-!
# Stored values come back

A value has a stored form exactly when every instant in it does, and what is read from that form is
the value again, whatever bytes follow it. A quantity keeps its units and its scale. Only its minus
sign is lost where it is nothing, which changes neither its value nor its decimals.

An instant keeps its nanoseconds since 1970. But in a leap second these are also the nanoseconds of
an instant in the next second, and that is the one that comes back. So not every instant survives
(`not_every_instant_survives`).

Results:
1. `Quantity.sameValue_settled`: a quantity has the same value without the sign of nothing.
2. `stored_values_survive`: the guarantee, for every kind of value and of record that is stored.
3. `not_every_instant_survives`: another instant comes back from within a leap second, and one leap
   second cannot be stored though its nanoseconds fit.
-/
namespace Stockroom

open Stored (encode decode ReadsAs ReadsBack)

/-! ## The sign of nothing -/

namespace Quantity

theorem units_settled (q : Quantity) : q.settled.units = q.units := by
  by_cases h : q.magnitude = 0
  · simp [units, settled, h]
  · simp [units, settled, isZero, h]

/-- A quantity has the same value without the sign of nothing. -/
theorem sameValue_settled (q : Quantity) : q.settled.SameValue q := by
  have hscale : q.settled.scale = q.scale := rfl
  rw [SameValue, compareValue, unitsAt, unitsAt, units_settled, hscale]
  exact Std.ReflCmp.compare_self

end Quantity

/-! ## The guarantee -/

/-- The values of a type survive being stored. -/
structure Survives (α : Type) [Stored α] (Storable Texts Settled : α → Prop) (back : α → α) :
    Prop where
  /-- A value has a stored form exactly when it can be stored. -/
  encoded : ∀ a, (∃ row, encode a = some row) ↔ Storable a
  /-- From that form a value is read, whatever follows it. -/
  decoded : ∀ a row, Texts a → encode a = some row → ∀ rest, decode (row ++ rest) = some (back a)
  /-- That is the same value if it is settled. -/
  same : ∀ a, Settled a → back a = a

/-- What is promised of everything that is stored. -/
structure StoredValuesSurvive : Prop where
  identifiers : Survives Identifier (fun _ => True) (fun _ => True) (fun _ => True) id
  quantities :
    Survives Quantity (fun _ => True) (fun _ => True) Quantity.IsSettled Quantity.settled
  /-- What comes back of a quantity has its value, its units and its scale, and is the quantity
  itself unless that is nothing under a minus sign. -/
  settled : ∀ q : Quantity, q.settled.SameValue q ∧ q.settled.magnitude = q.magnitude ∧
    q.settled.scale = q.scale ∧ (q.IsSettled → q.settled = q)
  instants : Survives Instant Instant.Storable (fun _ => True) Instant.IsSettled Instant.settled
  /-- An instant can be stored exactly when its nanoseconds fit, outside of leap seconds and also
  in all of them but one. -/
  storable : ∀ t : Instant, (t.IsSettled → (t.Storable ↔ t.date.Storable)) ∧
    (t.Storable ↔ t.date.Storable ∧ t.secs ≠ -9223372038)
  /-- What comes back of an instant has its nanoseconds. It is the instant itself outside of leap
  seconds, and one of the second after it within. -/
  dates : ∀ t : Instant, t.settled.nanos = t.nanos ∧ (t.settled = t ↔ t.IsSettled) ∧
    (¬ t.IsSettled → t.settled.secs = t.secs + 1 ∧ t.settled.subsecond + 10 ^ 9 = t.subsecond)
  moves : Survives Move (·.createdAt.Storable) Move.Texts
    (fun m => m.quantity.IsSettled ∧ m.createdAt.IsSettled) Move.settled
  balances : Survives Balance (fun _ => True) (fun _ => True)
    (fun b => b.onHand.IsSettled ∧ b.allocated.IsSettled) Balance.settled
  events : Survives Outbox.Event Outbox.Event.Instants Outbox.Event.Texts Outbox.Event.IsSettled
    Outbox.Event.settled
  receipts : Survives Receipt (·.createdAt.Storable) Receipt.Texts (·.createdAt.IsSettled)
    Receipt.settled
  audit : Survives AuditEntry (·.createdAt.Storable) AuditEntry.Texts (·.createdAt.IsSettled)
    AuditEntry.settled

/-- Whatever can be stored comes back, at the date of each instant. -/
theorem stored_values_survive : StoredValuesSurvive where
  identifiers :=
    ⟨fun _ => ⟨fun _ => trivial, fun _ => ⟨_, rfl⟩⟩,
      fun id _ _ hrow => ReadsAs.decode (Stored.reads_back_identifier id) hrow, fun _ _ => rfl⟩
  quantities :=
    ⟨fun _ => ⟨fun _ => trivial, fun _ => ⟨_, rfl⟩⟩,
      fun q _ _ hrow => (Stored.reads_settled_quantity q).decode hrow,
      fun _ => Quantity.settled_eq⟩
  settled := fun q => ⟨q.sameValue_settled, rfl, rfl, Quantity.settled_eq⟩
  instants :=
    ⟨fun _ => Stored.encode_instant_iff,
      fun t _ _ hrow => (Stored.reads_settled_instant t).decode hrow,
      fun _ => Instant.settled_eq⟩
  storable := fun _ => ⟨Instant.storable_iff_of_isSettled, Instant.storable_iff⟩
  dates := fun t => ⟨t.nanos_settled, Instant.settled_eq_iff, Instant.settled_of_leap⟩
  moves :=
    ⟨fun _ => Move.exists_row_iff,
      fun _ _ htexts hrow => (Move.reads_as_settled htexts).decode hrow,
      fun _ h => Move.settled_eq h.1 h.2⟩
  balances :=
    ⟨fun b => ⟨fun _ => trivial, fun _ => b.exists_row⟩,
      fun b _ _ hrow => b.reads_as_settled.decode hrow, fun _ h => Balance.settled_eq h.1 h.2⟩
  events :=
    ⟨fun _ => Outbox.Event.exists_row_iff,
      fun _ _ htexts hrow => (Outbox.Event.reads_as_settled htexts).decode hrow,
      fun _ => Outbox.Event.settled_eq⟩
  receipts :=
    ⟨fun _ => Receipt.exists_row_iff,
      fun _ _ htexts hrow => (Receipt.reads_as_settled htexts).decode hrow,
      fun _ => Receipt.settled_eq⟩
  audit :=
    ⟨fun _ => AuditEntry.exists_row_iff,
      fun _ _ htexts hrow => (AuditEntry.reads_as_settled htexts).decode hrow,
      fun _ => AuditEntry.settled_eq⟩

/-! ### Leap seconds -/

/-- In the middle of the leap second at the end of 2016. -/
def leapSecond : Instant := .ofUnix 1483228799 1500000000

/-- In the leap second that is the first to have nanoseconds that fit, and too early by itself. -/
def firstLeapSecond : Instant := .ofUnix (-9223372038) 1500000000

/-- An instant in a leap second is stored and another one comes back, and there is an instant whose
nanoseconds fit and that is not stored. -/
theorem not_every_instant_survives :
    (¬ ∀ (t : Instant) (row : Bytes), encode t = some row →
      ∀ rest, decode (row ++ rest) = some t) ∧
    ¬ ∀ t : Instant, (∃ row, encode t = some row) ↔ t.date.Storable := by
  constructor
  · intro hall
    have hback : decode (Cbor.integer leapSecond.nanos ++ []) = some leapSecond :=
      hall leapSecond _ rfl []
    exact absurd hback (by decide)
  · intro hall
    have hstorable : firstLeapSecond.Storable :=
      Stored.encode_instant_iff.1 ((hall firstLeapSecond).2 (by decide))
    exact absurd hstorable (by decide)

end Stockroom
