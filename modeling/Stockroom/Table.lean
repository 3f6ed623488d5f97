import Stockroom.Bytes

/-!
# Tables

A table holds rows of bytes under keys of bytes, one row under each key, in the order of the keys.

Main statements: `get?_insert` and `get?_erase` say what each change does to every key.
-/
namespace Stockroom

/-- Rows in the order of their keys, no key twice. -/
structure Table where
  rows : List (Bytes × Bytes)
  ascending : rows.Pairwise fun a b => a.1 < b.1

namespace Table

/-- No rows. -/
def empty : Table := ⟨[], .nil⟩

instance : Inhabited Table := ⟨empty⟩

/-- The number of rows. -/
def size (t : Table) : Nat := t.rows.length

/-- The keys in order. -/
def keys (t : Table) : List Bytes := t.rows.map (·.1)

/-- The rows in the order of their keys. -/
def values (t : Table) : List Bytes := t.rows.map (·.2)

/-- The row under a key. -/
def get? (t : Table) (key : Bytes) : Option Bytes :=
  (t.rows.find? (·.1 = key)).map (·.2)

/-! ## Changes -/

/-- Put a row in its place, instead of the row under the same key if there is one. -/
def insertRow (key value : Bytes) : List (Bytes × Bytes) → List (Bytes × Bytes)
  | [] => [(key, value)]
  | row :: rows =>
    if key < row.1 then (key, value) :: row :: rows
    else if key = row.1 then (key, value) :: rows
    else row :: insertRow key value rows

theorem fst_mem_insertRow {key value : Bytes} {rows : List (Bytes × Bytes)} {a : Bytes × Bytes}
    (h : a ∈ insertRow key value rows) : a.1 = key ∨ a ∈ rows := by
  induction rows with
  | nil =>
    simp only [insertRow, List.mem_singleton] at h
    exact .inl (h ▸ rfl)
  | cons row rows ih =>
    unfold insertRow at h
    split at h
    · rcases List.mem_cons.1 h with rfl | h
      · exact .inl rfl
      · exact .inr h
    · split at h
      · rcases List.mem_cons.1 h with rfl | h
        · exact .inl rfl
        · exact .inr (List.mem_cons_of_mem _ h)
      · rcases List.mem_cons.1 h with rfl | h
        · exact .inr List.mem_cons_self
        · exact (ih h).imp_right (List.mem_cons_of_mem _)

theorem pairwise_insertRow (key value : Bytes) {rows : List (Bytes × Bytes)}
    (h : rows.Pairwise fun a b => a.1 < b.1) :
    (insertRow key value rows).Pairwise fun a b => a.1 < b.1 := by
  induction rows with
  | nil => simp [insertRow]
  | cons row rows ih =>
    obtain ⟨hrow, hrows⟩ := List.pairwise_cons.1 h
    unfold insertRow
    split
    · next hlt =>
      refine List.pairwise_cons.2 ⟨fun a ha => ?_, h⟩
      rcases List.mem_cons.1 ha with rfl | ha
      · exact hlt
      · exact List.lt_trans hlt (hrow a ha)
    · next hnlt =>
      split
      · next heq => exact List.pairwise_cons.2 ⟨fun a ha => heq ▸ hrow a ha, hrows⟩
      · next hne =>
        refine List.pairwise_cons.2 ⟨fun a ha => ?_, ih hrows⟩
        rcases fst_mem_insertRow ha with hkey | ha
        · rw [hkey]
          refine Decidable.byContradiction fun h => hne ?_
          exact List.le_antisymm (List.not_lt.1 h) (List.not_lt.1 hnlt)
        · exact hrow a ha

/-- Put a row under a key, instead of the one that is there. -/
def insert (t : Table) (key value : Bytes) : Table :=
  ⟨insertRow key value t.rows, pairwise_insertRow key value t.ascending⟩

/-- Take away the row under a key. -/
def erase (t : Table) (key : Bytes) : Table :=
  ⟨t.rows.filter (·.1 ≠ key), t.ascending.filter _⟩

/-! ## What a change does -/

theorem find?_insertRow (key value : Bytes) (rows : List (Bytes × Bytes)) (k : Bytes) :
    (insertRow key value rows).find? (·.1 = k) =
      if key = k then some (key, value) else rows.find? (·.1 = k) := by
  induction rows with
  | nil => by_cases h : key = k <;> simp [insertRow, h]
  | cons row rows ih =>
    unfold insertRow
    by_cases h : key = k
    · subst h
      split
      · simp
      · split
        · simp
        · next hne => simp [Ne.symm hne, ih]
    · split
      · simp [List.find?_cons, h]
      · split
        · next heq => simp [h, ← heq]
        · simp [List.find?_cons, h, ih]

/-- Under the key there is the new row, under every other key what was there. -/
theorem get?_insert (t : Table) (key value k : Bytes) :
    (t.insert key value).get? k = if key = k then some value else t.get? k := by
  unfold get? insert
  rw [find?_insertRow]
  split <;> rfl

theorem find?_filter_ne (key : Bytes) (rows : List (Bytes × Bytes)) (k : Bytes) :
    (rows.filter (·.1 ≠ key)).find? (·.1 = k) =
      if key = k then none else rows.find? (·.1 = k) := by
  induction rows with
  | nil => simp
  | cons row rows ih =>
    by_cases hrow : row.1 = key
    · rw [List.filter_cons_of_neg (by simp [hrow]), ih]
      by_cases h : key = k <;> simp [h, hrow]
    · rw [List.filter_cons_of_pos (by simp [hrow]), List.find?_cons, List.find?_cons, ih]
      by_cases h : key = k
      · simp [← h, hrow]
      · simp [h]

/-- Under the key there is nothing, under every other key what was there. -/
theorem get?_erase (t : Table) (key k : Bytes) :
    (t.erase key).get? k = if key = k then none else t.get? k := by
  unfold get? erase
  rw [find?_filter_ne]
  split <;> rfl

example : ((empty.insert [2] [20]).insert [1] [10]).keys = [[1], [2]] := by decide
example : ((empty.insert [2] [20]).insert [2] [21]).values = [[21]] := by decide

end Table

end Stockroom
