import Stockroom.Audit
import Stockroom.Outbox.Event
import Stockroom.Store.Basic

/-!
# Numbers

Numbers are given out in ascending order, also when the database is opened anew in between. As long
as they fit 64 bits, what is stored under a later number comes later in its table.

Results:
1. `Counter.Gave.lt_next`: the next number is beyond all that were given out.
2. `Outbox.Event.key_lt_iff` and `AuditEntry.key_lt_iff`: rows are in the order of their numbers.
-/
namespace Stockroom

namespace Counter

variable {c : Counter} {n : UInt64}

/-- The next number is beyond the last one. -/
def Ordered (c : Counter) : Prop := ∀ last ∈ c.last?, last < c.next

/-- The last number fits 64 bits. -/
def Fits (c : Counter) : Prop := ∀ last ∈ c.last?, last < 2 ^ 64

/-- The number is not beyond the last one. -/
def Gave (c : Counter) (n : UInt64) : Prop := ∃ last ∈ c.last?, n.toNat ≤ last

theorem Fits.of_last {last : Nat} (h : c.last? = some last) (hlast : last < 2 ^ 64) : c.Fits := by
  intro last' hlast'
  cases h.symm.trans hlast'
  exact hlast

theorem ordered_start : start.Ordered := nofun

theorem ordered_take (c : Counter) : c.take.2.Ordered := by
  rintro last ⟨⟩
  exact Nat.lt_succ_self _

theorem ordered_reopen (c : Counter) : c.reopen.Ordered := by
  intro last hlast
  have hlast : c.last? = some last := hlast
  simp only [reopen, mark, hlast, block]
  omega

theorem Gave.lt_next (h : c.Gave n) (hc : c.Ordered) : n.toNat < c.next := by
  obtain ⟨last, hlast, hle⟩ := h
  exact Nat.lt_of_le_of_lt hle (hc last hlast)

theorem Gave.take (h : c.Gave n) (hc : c.Ordered) : c.take.2.Gave n :=
  ⟨c.next, rfl, Nat.le_of_lt (h.lt_next hc)⟩

theorem Gave.reopen (h : c.Gave n) : c.reopen.Gave n := h

/-- The number given out last was the next one before. -/
theorem toNat_take (h : c.take.2.Fits) : c.take.1.toNat = c.next :=
  UInt64.toNat_ofNat_of_lt' (h c.next rfl)

theorem Fits.of_take (h : c.take.2.Fits) (hc : c.Ordered) : c.Fits :=
  fun last hlast => Nat.lt_trans (hc last hlast) (h c.next rfl)

end Counter

/-! ## Keys made of numbers -/

theorem numberKey_lt_iff {m n : UInt64} :
    Bytes.toBigEndian 8 m.toNat < Bytes.toBigEndian 8 n.toNat ↔ m < n :=
  Bytes.toBigEndian_lt_iff m.toNat_lt n.toNat_lt

theorem Outbox.Event.key_lt_iff {m n : UInt64} : key m < key n ↔ m < n := numberKey_lt_iff

theorem AuditEntry.key_lt_iff {m n : UInt64} : key m < key n ↔ m < n := numberKey_lt_iff

theorem numberKey_injective {m n : UInt64}
    (h : Bytes.toBigEndian 8 m.toNat = Bytes.toBigEndian 8 n.toNat) : m = n := by
  have hback := congrArg Bytes.ofBigEndian h
  rw [Bytes.ofBigEndian_toBigEndian m.toNat_lt, Bytes.ofBigEndian_toBigEndian n.toNat_lt] at hback
  exact UInt64.toNat_inj.1 hback

theorem Outbox.Event.key_injective {m n : UInt64} (h : key m = key n) : m = n :=
  numberKey_injective h

theorem AuditEntry.key_injective {m n : UInt64} (h : key m = key n) : m = n :=
  numberKey_injective h

end Stockroom
