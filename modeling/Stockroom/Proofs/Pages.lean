import Stockroom.Proofs.BalanceViews
import Stockroom.Proofs.Listings
import Mathlib.Data.List.GetD

/-!
# Pages of balances

A list of balances can be asked for as a whole or in pages of one size, each page with the number of
balances before it as its offset. Every question, for a page or for the whole, of one item or of
all, takes what it takes from one and the same list: all stored balances, by item and then by
location. So the pages one after the other are the whole.

Results:
1. `flatten_windows`: windows of one size, one after the other, are the front of the list.
2. `pagesOf_flatten`, `pagesOf_getD` and `pagesOf_ne_nil`: the pages of a list.
3. `balances_listed`: the guarantee.
-/
namespace Stockroom.Ledger

/-! ## Pages of a list -/

section

variable {α : Type} {size : Nat}

/-- Windows of one size, one after the other, are the front of the list. -/
theorem flatten_windows (size : Nat) (as : List α) (n : Nat) :
    ((List.range n).map fun i => (as.drop (i * size)).take size).flatten = as.take (n * size) := by
  induction n with
  | zero => rw [Nat.zero_mul]; rfl
  | succ n ih =>
    rw [List.range_succ, List.map_append, List.flatten_append, ih, Nat.succ_mul, List.take_add,
      List.map_singleton, List.flatten_singleton]

/-- The pages of a list. The last one may be shorter than the others. -/
def pagesOf (size : Nat) (as : List α) : List (List α) :=
  (List.range ((as.length + size - 1) / size)).map fun i => (as.drop (i * size)).take size

theorem length_pagesOf (as : List α) :
    (pagesOf size as).length = (as.length + size - 1) / size := by
  rw [pagesOf, List.length_map, List.length_range]

/-- A page has begun before the end of the list. -/
theorem lt_length_pagesOf_iff (hsize : 0 < size) (as : List α) (i : Nat) :
    i < (pagesOf size as).length ↔ i * size < as.length := by
  rw [length_pagesOf, ← Nat.succ_le_iff, Nat.le_div_iff_mul_le hsize, Nat.succ_mul]
  omega

theorem pagesOf_flatten (hsize : 0 < size) (as : List α) : (pagesOf size as).flatten = as := by
  have hend : ¬ (pagesOf size as).length * size < as.length := fun hlt =>
    Nat.lt_irrefl _ ((lt_length_pagesOf_iff hsize as _).2 hlt)
  rw [pagesOf, flatten_windows, ← length_pagesOf]
  exact List.take_of_length_le (Nat.le_of_not_lt hend)

example : pagesOf 2 [1, 2, 3, 4, 5] = [[1, 2], [3, 4], [5]] := by decide

/-- There is nothing on a page after the last. -/
theorem pagesOf_getD (hsize : 0 < size) (as : List α) (i : Nat) :
    (pagesOf size as).getD i [] = (as.drop (i * size)).take size := by
  by_cases hi : i < (pagesOf size as).length
  · rw [List.getD_eq_getElem _ _ hi]
    simp [pagesOf]
  · rw [List.getD_eq_default _ _ (Nat.le_of_not_lt hi)]
    rw [lt_length_pagesOf_iff hsize] at hi
    rw [List.drop_eq_nil_of_le (Nat.le_of_not_lt hi), List.take_nil]

theorem pagesOf_ne_nil (hsize : 0 < size) (as : List α) : [] ∉ pagesOf size as := by
  intro hmem
  obtain ⟨i, hi, hnil⟩ := List.mem_iff_getElem.1 hmem
  have hpage := pagesOf_getD hsize as i
  rw [List.getD_eq_getElem _ _ hi, hnil] at hpage
  have hlength := congrArg List.length hpage
  rw [lt_length_pagesOf_iff hsize] at hi
  rw [List.length_take, List.length_drop, List.length_nil] at hlength
  omega

/-- All pages but the last are full. -/
theorem length_page (hsize : 0 < size) (as : List α) {i : Nat}
    (hi : i + 1 < (pagesOf size as).length) : ((pagesOf size as).getD i []).length = size := by
  rw [lt_length_pagesOf_iff hsize, Nat.succ_mul] at hi
  rw [pagesOf_getD hsize, List.length_take, List.length_drop]
  omega

end

/-! ## Pages of balances -/

/-- The same question without an end or an offset. -/
def Filter.whole (f : Filter) : Filter := { f with limit := none, offset := 0 }

/-- The same question for one page. -/
def Filter.page (limit offset : Nat) (f : Filter) : Filter :=
  { f with limit := some limit, offset := offset }

theorem choose_whole (f : Filter) (bs : List Balance) :
    f.whole.choose bs = bs.filter f.admits :=
  rfl

theorem choose_page (limit offset : Nat) (f : Filter) (bs : List Balance) :
    (f.page limit offset).choose bs = ((bs.filter f.admits).drop offset).take limit :=
  rfl

/-! ## The guarantee -/

namespace Books

/-- What is promised of the balances of some books and of every question about them. -/
structure ListsBalances (b : Books) (all : List Balance) : Prop where
  /-- These are the balances that are stored, in the order of their rows. -/
  read : b.store.balances.values.mapM Store.readRow = (.ok all : Except Fault (List Balance))
  stored : ∀ x ∈ all, balance x.item x.location b.store = .ok x
  /-- There is one for every item and location that a committed move has touched. -/
  touched : ∀ item location, (∃ x ∈ all, x.item = item ∧ x.location = location) ↔
    ∃ m ∈ b.moves, m.item = item ∧ (m.origin = location ∨ m.destination = location)
  distinct : (all.map fun x => (x.item, x.location)).Nodup
  ascending : all.Pairwise fun x y =>
    x.item.bytes < y.item.bytes ∨ x.item = y.item ∧ x.location.bytes < y.location.bytes
  /-- What is listed are those of the item and at the location asked for, without the first ones,
  and not more than asked for. -/
  listed : ∀ f, balances f b.store = .ok (f.choose all)
  /-- Nothing is missed by looking at the rows of the item alone. -/
  scanned : ∀ f, balances f b.store =
    f.collect b.store.balances.values f.offset f.limit
  /-- The pages one after the other are the whole. There is something on each of them, all but the
  last are full, and there is nothing on those after the last. -/
  pages : ∀ (f : Filter) (size : Nat), 0 < size → ∃ pages : List (List Balance),
    balances f.whole b.store = .ok pages.flatten ∧
    (∀ i, balances (f.page size (i * size)) b.store = .ok (pages.getD i [])) ∧
    [] ∉ pages ∧ ∀ i, i + 1 < pages.length → (pages.getD i []).length = size

end Books

/-- Whatever calls, workers and the host did, every list of balances and every page of it is taken
from all balances in order. -/
theorem balances_listed (actions : List Action) :
    ∃ all, (Books.opened.run actions).ListsBalances all := by
  obtain ⟨h, -, hshows⟩ := Books.shown_run actions
  obtain ⟨all, hall, -⟩ := hshows.exists_tabulates
  refine ⟨all, ?_⟩
  constructor
  case read => exact mapM_eq_ok hall.values
  case stored =>
    intro x hx
    rw [balance, hall.mem hx]
    rfl
  case touched =>
    intro item location
    rw [← hall.isSome_get?_iff, Books.rowed_run actions item location]
    rfl
  case distinct =>
    rw [List.Nodup, List.pairwise_map]
    refine hall.ascending.imp fun {x y} hbefore heq => ?_
    obtain ⟨hitem, hlocation⟩ := Prod.ext_iff.1 heq
    rcases hbefore with hlt | ⟨-, hlt⟩
    · exact List.lt_irrefl _ (congrArg Identifier.bytes hitem ▸ hlt)
    · exact List.lt_irrefl _ (congrArg Identifier.bytes hlocation ▸ hlt)
  case ascending => exact hall.ascending
  case listed => exact hall.balances_eq
  case scanned =>
    intro f
    rw [hall.balances_eq, hall.collect_values]
  case pages =>
    intro f size hsize
    refine ⟨pagesOf size (all.filter f.admits), ?_, fun i => ?_, pagesOf_ne_nil hsize _,
      fun i => length_page hsize _⟩
    · rw [hall.balances_eq, choose_whole, pagesOf_flatten hsize]
    · rw [hall.balances_eq, choose_page, pagesOf_getD hsize]

end Stockroom.Ledger
