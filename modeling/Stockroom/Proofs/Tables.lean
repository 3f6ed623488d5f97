import Stockroom.Table
import Mathlib.Data.List.Nodup

/-!
# Rows of tables

What a change of a table does to the list of its rows. `get?_insert` says it key by key; where rows
are counted, or their order matters, the list itself is needed.

Results:
1. `get?_eq_some_iff`: a row is under a key exactly when the list has it there.
2. `size_insert`: a row under a new key is one row more.
3. `rows_insert_present`: a row under an old key takes the place of the one that was there.
4. `rows_insert_last`: a row under a key beyond all others comes last.
-/
namespace Stockroom.Table

variable {t : Table} {key value : Bytes}

/-- No key is there twice. -/
theorem nodup_keys (t : Table) : t.keys.Nodup := by
  refine List.pairwise_map.2 (t.ascending.imp fun {a b} hlt heq => ?_)
  rw [heq] at hlt
  exact List.lt_irrefl _ hlt

theorem key_injective {a b : Bytes × Bytes} (ha : a ∈ t.rows) (hb : b ∈ t.rows)
    (hkey : a.1 = b.1) : a = b :=
  List.inj_on_of_nodup_map t.nodup_keys ha hb hkey

theorem get?_eq_some_iff : t.get? key = some value ↔ (key, value) ∈ t.rows := by
  rw [get?, Option.map_eq_some_iff]
  constructor
  · rintro ⟨row, hfind, rfl⟩
    have hkey : row.1 = key := by simpa using List.find?_some hfind
    exact hkey ▸ List.mem_of_find?_eq_some hfind
  · intro hmem
    obtain ⟨row, hfind⟩ : ∃ row, t.rows.find? (·.1 = key) = some row :=
      Option.isSome_iff_exists.1 (List.find?_isSome.2 ⟨_, hmem, by simp⟩)
    have hkey : row.1 = key := by simpa using List.find?_some hfind
    have heq := key_injective (List.mem_of_find?_eq_some hfind) hmem hkey
    exact ⟨row, hfind, by rw [heq]⟩

theorem isSome_get?_iff : (t.get? key).isSome ↔ key ∈ t.keys := by
  simp only [Option.isSome_iff_exists, get?_eq_some_iff, keys, List.mem_map, Prod.exists,
    exists_and_right, exists_eq_right]

theorem get?_eq_none_iff : t.get? key = none ↔ ∀ row ∈ t.rows, row.1 ≠ key := by
  simp [get?]

theorem keys_erase (t : Table) (key : Bytes) : (t.erase key).keys = t.keys.filter (· ≠ key) := by
  rw [keys, keys, List.filter_map]
  rfl

/-! ## Counting -/

theorem length_insertRow_absent {rows : List (Bytes × Bytes)} (h : ∀ row ∈ rows, row.1 ≠ key) :
    (insertRow key value rows).length = rows.length + 1 := by
  induction rows with
  | nil => rfl
  | cons row rows ih =>
    rw [insertRow]
    split
    · rfl
    · rw [if_neg (Ne.symm (h row List.mem_cons_self)), List.length_cons,
        ih fun row hrow => h row (List.mem_cons_of_mem _ hrow), List.length_cons]

/-- A row under a new key is one row more. -/
theorem size_insert (h : t.get? key = none) : (t.insert key value).size = t.size + 1 :=
  length_insertRow_absent (get?_eq_none_iff.1 h)

/-! ## Places -/

theorem insertRow_present {rows : List (Bytes × Bytes)}
    (hsorted : rows.Pairwise fun a b => a.1 < b.1) (h : ∃ row ∈ rows, row.1 = key) :
    insertRow key value rows = rows.map fun row => if row.1 = key then (key, value) else row := by
  induction rows with
  | nil =>
    obtain ⟨row, hrow, -⟩ := h
    cases hrow
  | cons row rows ih =>
    obtain ⟨hhead, htail⟩ := List.pairwise_cons.1 hsorted
    obtain ⟨found, hfound, hkey⟩ := h
    rw [insertRow, List.map_cons]
    by_cases heq : row.1 = key
    · have hrest : rows.map (fun row => if row.1 = key then (key, value) else row) = rows := by
        refine (List.map_congr_left fun r hr => if_neg fun hkey => ?_).trans (List.map_id' rows)
        have hlt := hhead r hr
        rw [heq, hkey] at hlt
        exact List.lt_irrefl _ hlt
      rw [if_neg (heq ▸ List.lt_irrefl _), if_pos heq.symm, if_pos heq, hrest]
    · have hmem : found ∈ rows := by
        rcases List.mem_cons.1 hfound with rfl | hmem
        · exact absurd hkey heq
        · exact hmem
      have hlt : row.1 < key := hkey ▸ hhead found hmem
      rw [if_neg (List.lt_asymm hlt), if_neg (Ne.symm heq), if_neg heq,
        ih htail ⟨found, hmem, hkey⟩]

/-- A row under an old key takes the place of the one that was there. -/
theorem rows_insert_present {old : Bytes} (h : t.get? key = some old) :
    (t.insert key value).rows =
      t.rows.map fun row => if row.1 = key then (key, value) else row :=
  insertRow_present t.ascending ⟨_, get?_eq_some_iff.1 h, rfl⟩

theorem insertRow_last {rows : List (Bytes × Bytes)} (h : ∀ row ∈ rows, row.1 < key) :
    insertRow key value rows = rows ++ [(key, value)] := by
  induction rows with
  | nil => rfl
  | cons row rows ih =>
    have hlt := h row List.mem_cons_self
    rw [insertRow, if_neg (List.lt_asymm hlt), if_neg fun heq => List.lt_irrefl _ (heq ▸ hlt),
      ih fun row hrow => h row (List.mem_cons_of_mem _ hrow), List.cons_append]

/-- A row under a key beyond all others comes last. -/
theorem rows_insert_last (h : ∀ row ∈ t.rows, row.1 < key) :
    (t.insert key value).rows = t.rows ++ [(key, value)] :=
  insertRow_last h

end Stockroom.Table
