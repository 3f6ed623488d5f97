import Stockroom.Ledger.Query
import Stockroom.Proofs.Holdings

/-!
# Lists of balances

Every row of the table of balances is under the key that its own item and location make, item first.
So the rows stand by item and then by location, those of one item have its bytes in front and no
others have, and a question about an item may pass over all other rows. Which balances it lists,
how many it leaves out and where it stops is then a matter of lists alone.

Results:
1. `collect_eq`: what is listed of some rows, in terms of lists.
2. `Tabulates.balances_eq`: every question lists what `Filter.choose` takes of all balances.
3. `Tabulates.ascending`: all balances stand by item and then by location.
4. `Shows.exists_tabulates`: a table that shows holdings can be listed.
-/
namespace Stockroom.Ledger

open Store (find? readRow)

/-! ## Questions as functions of lists -/

/-- The first ones of a list, as many as there is room for. -/
def upTo {α : Type} (room : Option Nat) (as : List α) : List α :=
  room.elim as as.take

/-- What a question takes of a list of balances. -/
def Filter.choose (f : Filter) (bs : List Balance) : List Balance :=
  upTo f.limit ((bs.filter f.admits).drop f.offset)

theorem upTo_cons {α : Type} {room : Option Nat} (h : room ≠ some 0) (a : α) (as : List α) :
    upTo room (a :: as) = a :: upTo (room.map (· - 1)) as := by
  cases room with
  | none => rfl
  | some n =>
    cases n with
    | zero => exact absurd rfl h
    | succ n => rfl

/-- Rows that can be read are listed as the balances in them are chosen. -/
theorem collect_eq {f : Filter} {rows : List Bytes} {bs : List Balance}
    (h : List.Forall₂ (fun row b => readRow row = .ok b) rows bs) (skip : Nat)
    (room : Option Nat) :
    f.collect rows skip room = .ok (upTo room ((bs.filter f.admits).drop skip)) := by
  induction h generalizing skip room with
  | nil =>
    rw [Filter.collect, List.filter_nil, List.drop_nil]
    cases room with
    | none => rfl
    | some n => exact congrArg Except.ok List.take_nil.symm
  | @cons row b rows bs hrow _ ih =>
    rw [Filter.collect]
    by_cases hfull : room = some 0
    · rw [if_pos hfull, hfull]
      rfl
    rw [if_neg hfull, hrow]
    show (if !f.admits b then _ else _) = _
    by_cases hadmits : f.admits b = true
    · rw [if_neg (by simpa using hadmits), List.filter_cons_of_pos hadmits]
      cases skip with
      | zero =>
        dsimp only
        rw [ih, List.drop_zero, List.drop_zero, upTo_cons hfull]
        rfl
      | succ skip => exact ih skip room
    · rw [if_pos (by simpa using hadmits), List.filter_cons_of_neg hadmits]
      exact ih skip room

/-! ## Keys -/

/-- Of lists with beginnings of one length, the beginnings are compared first. -/
theorem append_lt_append_iff {a a' b b' : Bytes} (h : a.length = a'.length) :
    a ++ b < a' ++ b' ↔ a < a' ∨ a = a' ∧ b < b' := by
  induction a generalizing a' with
  | nil =>
    obtain rfl := List.length_eq_zero_iff.1 h.symm
    simp
  | cons x a ih =>
    cases a' with
    | nil => cases h
    | cons x' a' =>
      have h : a.length = a'.length := Nat.succ.inj h
      rw [List.cons_append, List.cons_append, List.cons_lt_cons_iff, List.cons_lt_cons_iff, ih h,
        List.cons.injEq]
      tauto

/-- One balance stands before another: they are in order by item and then by location. -/
def Before (x y : Balance) : Prop :=
  x.item.bytes < y.item.bytes ∨ x.item = y.item ∧ x.location.bytes < y.location.bytes

theorem key_lt_iff {i l i' l' : Identifier} : Balance.key i l < Balance.key i' l' ↔
    i.bytes < i'.bytes ∨ i = i' ∧ l.bytes < l'.bytes := by
  have hlen : i.bytes.length = i'.bytes.length := by rw [i.length_bytes, i'.length_bytes]
  refine (append_lt_append_iff hlen).trans (or_congr_right (and_congr_left fun _ => ?_))
  exact ⟨Identifier.ext, congrArg Identifier.bytes⟩

/-- The keys that start with an item are those of its balances. -/
theorem isPrefixOf_key_iff {item i l : Identifier} :
    item.bytes.isPrefixOf (Balance.key i l) = true ↔ item = i := by
  rw [List.isPrefixOf_iff_prefix]
  constructor
  · rintro ⟨rest, hrest⟩
    have hlen : item.bytes.length = i.bytes.length := by rw [item.length_bytes, i.length_bytes]
    exact Identifier.ext (List.append_inj hrest hlen).1
  · rintro rfl
    exact List.prefix_append _ _

/-! ## Tables -/

/-- These are the balances of a table, row by row, each under the key that its item and
location make. -/
def Tabulates (t : Table) (bs : List Balance) : Prop :=
  List.Forall₂ (fun row b => row.1 = Balance.key b.item b.location ∧ readRow row.2 = .ok b)
    t.rows bs

namespace Tabulates

variable {t : Table} {bs : List Balance}

theorem keys_eq (h : Tabulates t bs) :
    t.keys = bs.map fun b => Balance.key b.item b.location := by
  rw [Table.keys, ← List.forall₂_eq_eq_eq, List.forall₂_map_left_iff, List.forall₂_map_right_iff]
  exact h.imp fun _ _ hrow => hrow.1

/-- All balances stand by item and then by location. -/
theorem ascending (h : Tabulates t bs) : bs.Pairwise Before := by
  have hkeys := List.pairwise_map.2 t.ascending
  rw [← Table.keys, h.keys_eq, List.pairwise_map] at hkeys
  exact hkeys.imp key_lt_iff.1

theorem values (h : Tabulates t bs) :
    List.Forall₂ (fun row b => readRow row = .ok b) t.values bs := by
  rw [Table.values, List.forall₂_map_left_iff]
  exact h.imp fun _ _ hrow => hrow.2

theorem mem (h : Tabulates t bs) {b : Balance} (hb : b ∈ bs) :
    find? t (Balance.key b.item b.location) = .ok (some b) := by
  obtain ⟨row, hmem, hkey, hread⟩ := exists_of_forall₂ h.flip b hb
  rw [← hkey]
  exact Store.find?_eq_ok_some.2
    ⟨_, Table.get?_eq_some_iff.2 hmem, Store.readRow_ok.1 hread⟩

theorem isSome_get?_iff (h : Tabulates t bs) (item location : Identifier) :
    (t.get? (Balance.key item location)).isSome ↔
      ∃ b ∈ bs, b.item = item ∧ b.location = location := by
  rw [Table.isSome_get?_iff, h.keys_eq, List.mem_map]
  refine exists_congr fun b => and_congr_right fun _ => ⟨balanceKey_injective, ?_⟩
  rintro ⟨rfl, rfl⟩
  rfl

/-- The rows that a question looks at are enough. -/
theorem exists_rows (h : Tabulates t bs) (f : Filter) : ∃ looked : List Balance,
    List.Forall₂ (fun row b => readRow row = .ok b) (f.rows t) looked ∧
      looked.filter f.admits = bs.filter f.admits := by
  obtain ⟨item, location, limit, offset⟩ := f
  cases item with
  | none => exact ⟨bs, h.values, rfl⟩
  | some item =>
    refine ⟨bs.filter (item = ·.item), ?_, ?_⟩
    · have hrows := List.rel_filter (p := fun row : Bytes × Bytes => item.bytes.isPrefixOf row.1)
        (q := fun b : Balance => decide (item = b.item)) (fun row b hrow => ?_) h
      · rw [Filter.rows, List.forall₂_map_left_iff]
        exact hrows.imp fun _ _ hrow => hrow.2
      · show item.bytes.isPrefixOf row.1 = true ↔ decide (item = b.item) = true
        rw [hrow.1, isPrefixOf_key_iff, decide_eq_true_iff]
    · rw [List.filter_filter]
      refine List.filter_congr fun b _ => ?_
      rw [Filter.admits, Option.all_some, Bool.and_right_comm, Bool.and_self]

/-- Every question lists what it takes of all balances. -/
theorem balances_eq {s : Store} (h : Tabulates s.balances bs) (f : Filter) :
    balances f s = .ok (f.choose bs) := by
  obtain ⟨looked, hrows, hsame⟩ := h.exists_rows f
  rw [balances, collect_eq hrows, hsame, Filter.choose]

/-- It might as well look at all rows. -/
theorem collect_values (h : Tabulates t bs) (f : Filter) :
    f.collect t.values f.offset f.limit = .ok (f.choose bs) :=
  collect_eq h.values f.offset f.limit

end Tabulates

/-! ## Holdings -/

/-- The balance that holdings amount to. -/
def Holdings.balance (h : Holdings) (item location : Identifier) : Balance :=
  ⟨item, location, h item location, .zero⟩

/-- A table that shows holdings can be listed, and its balances are what the holdings amount to. -/
theorem Shows.exists_tabulates {t : Table} {h : Holdings} (hshows : Shows t h) :
    ∃ bs, Tabulates t bs ∧ ∀ b ∈ bs, b = h.balance b.item b.location := by
  have hrows : ∀ row ∈ t.rows, ∃ b : Balance, (row.1 = Balance.key b.item b.location ∧
      readRow row.2 = .ok b) ∧ b = h.balance b.item b.location := by
    intro row hmem
    obtain ⟨item, location, hkey, hrow⟩ := hshows.row row.1 row.2 (Table.get?_eq_some_iff.2 hmem)
    have hback := Balance.reads_back (b := h.balance item location) (hshows.settled item location)
      Quantity.isSettled_zero
    exact ⟨h.balance item location, ⟨hkey, Store.readRow_ok.2 (hback.decode hrow)⟩, rfl⟩
  obtain ⟨bs, hbs⟩ := exists_forall₂ hrows
  refine ⟨bs, hbs.imp fun _ _ hrow => hrow.1, fun b hb => ?_⟩
  obtain ⟨row, -, -, heq⟩ := exists_of_forall₂ hbs.flip b hb
  exact heq

end Stockroom.Ledger
