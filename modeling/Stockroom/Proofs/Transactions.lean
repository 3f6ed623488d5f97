import Stockroom.Proofs.Tables
import Stockroom.Store.Basic
import Mathlib.Data.List.Forall2

/-!
# Transactions taken apart

A transaction is a sequence of reads and writes. Each result here says when one of them succeeds and
what it leaves, so that a longer transaction is taken apart step by step, without its definition.

Results:
1. `find?_eq_ok_some`, `find?_eq_ok_none`: what was found in a table was there; `find?_insert`: what
   is found once a record has been put there.
2. `bind_ok`: a sequence succeeds when both parts do, and the second starts where the first ends.
3. `putRow_ok`, `put_ok`: what a write leaves.
4. `Preserves`: what holds before a transaction holds after it. It is enough to look at the parts
   (`preserves_bind`, `preserves_mapM`).
-/
namespace Stockroom

variable {α β : Type}

/-! ## Steps that can fail -/

theorem bind_eq_ok {ε : Type} {x : Except ε α} {f : α → Except ε β} {b : β} :
    x >>= f = .ok b ↔ ∃ a, x = .ok a ∧ f a = .ok b := by
  cases x with
  | error e =>
    refine ⟨nofun, ?_⟩
    rintro ⟨a, h, -⟩
    cases h
  | ok a =>
    refine ⟨fun h => ⟨a, rfl, h⟩, ?_⟩
    rintro ⟨a', h, hrest⟩
    cases h
    exact hrest

theorem bind_eq_error {ε : Type} {x : Except ε α} {f : α → Except ε β} {e : ε} :
    x >>= f = .error e ↔ x = .error e ∨ ∃ a, x = .ok a ∧ f a = .error e := by
  cases x with
  | error e' =>
    constructor
    · intro h
      cases h
      exact .inl rfl
    · rintro (h | ⟨a, h, -⟩)
      · cases h
        rfl
      · cases h
  | ok a =>
    refine ⟨fun h => .inr ⟨a, rfl, h⟩, ?_⟩
    rintro (h | ⟨a', h, hrest⟩)
    · cases h
    · cases h
      exact hrest

/-- A list whose members can be worked on one by one can be worked on as a whole. -/
theorem mapM_eq_ok {ε : Type} {f : α → Except ε β} {as : List α} {bs : List β}
    (h : List.Forall₂ (fun a b => f a = .ok b) as bs) : as.mapM f = .ok bs := by
  induction h with
  | nil => rfl
  | cons hone _ ih =>
    rw [List.mapM_cons, hone, ih]
    rfl

theorem exists_of_forall₂ {R : α → β → Prop} {as : List α} {bs : List β}
    (h : List.Forall₂ R as bs) : ∀ a ∈ as, ∃ b ∈ bs, R a b := by
  induction h with
  | nil => exact nofun
  | @cons a b as bs hone _ ih =>
    refine List.forall_mem_cons.2 ⟨⟨b, List.mem_cons_self, hone⟩, fun a ha => ?_⟩
    obtain ⟨b', hb', h⟩ := ih a ha
    exact ⟨b', List.mem_cons_of_mem _ hb', h⟩

theorem exists_forall₂ {R : α → β → Prop} {as : List α} (h : ∀ a ∈ as, ∃ b, R a b) :
    ∃ bs, List.Forall₂ R as bs := by
  induction as with
  | nil => exact ⟨[], .nil⟩
  | cons a as ih =>
    obtain ⟨b, hb⟩ := h a List.mem_cons_self
    obtain ⟨bs, hbs⟩ := ih fun a ha => h a (List.mem_cons_of_mem _ ha)
    exact ⟨b :: bs, .cons hb hbs⟩

namespace Store

/-! ## Rows and records -/

theorem readRow_ok [Stored α] {row : Bytes} {a : α} :
    readRow row = .ok a ↔ Stored.decode row = some a := by
  rw [readRow]
  cases (Stored.decode row : Option α) <;> simp

theorem writeRow_ok [Stored α] {a : α} {row : Bytes} :
    writeRow a = .ok row ↔ Stored.encode a = some row := by
  rw [writeRow]
  cases Stored.encode a <;> simp

theorem find?_eq_ok_some [Stored α] {t : Table} {key : Bytes} {a : α} :
    find? t key = .ok (some a) ↔ ∃ row, t.get? key = some row ∧ Stored.decode row = some a := by
  rw [find?]
  cases t.get? key with
  | none => simp
  | some row =>
    simp only [Option.some.injEq, exists_eq_left', ← readRow_ok]
    cases (readRow row : Except Fault α) with
    | error e => exact ⟨nofun, nofun⟩
    | ok b => exact ⟨fun h => by cases h; rfl, fun h => by cases h; rfl⟩

theorem find?_eq_ok_none [Stored α] {t : Table} {key : Bytes} :
    (find? t key : Except Fault (Option α)) = .ok none ↔ t.get? key = none := by
  rw [find?]
  cases t.get? key with
  | none => exact ⟨fun _ => rfl, fun _ => rfl⟩
  | some row =>
    dsimp only
    cases (readRow row : Except Fault α) with
    | error e => exact ⟨nofun, nofun⟩
    | ok b => exact ⟨nofun, nofun⟩

/-- Under the key there is the new record, under every other key what was there. -/
theorem find?_insert [Stored α] {row : Bytes} {a : α} (hrow : Stored.decode row = some a)
    (t : Table) (key k : Bytes) :
    find? (t.insert key row) k = if key = k then .ok (some a) else find? t k := by
  rw [← readRow_ok] at hrow
  rw [find?, find?, Table.get?_insert]
  by_cases h : key = k
  · rw [if_pos h, if_pos h]
    dsimp only
    rw [hrow]
    rfl
  · rw [if_neg h, if_neg h]

/-- A row that is not the record it should be is all that can go wrong. -/
theorem find?_eq_error [Stored α] {t : Table} {key : Bytes} {e : Fault}
    (h : (find? t key : Except Fault (Option α)) = .error e) : e = .corrupt .unreadable := by
  unfold find? readRow at h
  split at h
  · next row _ =>
    cases hrow : (Stored.decode row : Option α) with
    | none =>
      rw [hrow] at h
      cases h
      rfl
    | some a =>
      rw [hrow] at h
      cases h
  · cases h

/-! ## Parts of a transaction -/

namespace Transaction

variable {t : Transaction α} {s s' : Store}

/-- A sequence hands on the result of its first part and the store it leaves. -/
theorem bind_apply (t : Transaction α) (f : α → Transaction β) (s : Store) :
    (t >>= f) s = t s >>= fun p => f p.1 p.2 :=
  rfl

theorem bind_ok {f : α → Transaction β} {b : β} {s'' : Store} :
    (t >>= f) s = .ok (b, s'') ↔ ∃ a s', t s = .ok (a, s') ∧ f a s' = .ok (b, s'') := by
  rw [bind_apply, bind_eq_ok]
  exact Prod.exists

theorem bind_error {f : α → Transaction β} {e : Fault} :
    (t >>= f) s = .error e ↔ t s = .error e ∨ ∃ a s', t s = .ok (a, s') ∧ f a s' = .error e := by
  rw [bind_apply, bind_eq_error, Prod.exists]

/-- A sequence goes on where its first part ends. -/
theorem bind_of_ok {f : α → Transaction β} {a : α} (h : t s = .ok (a, s')) :
    (t >>= f) s = f a s' := by
  rw [bind_apply, h]
  rfl

/-- A sequence fails with its first part. -/
theorem bind_of_error {f : α → Transaction β} {e : Fault} (h : t s = .error e) :
    (t >>= f) s = .error e :=
  bind_error.2 (.inl h)

theorem pure_ok {a b : α} : (pure a : Transaction α) s = .ok (b, s') ↔ b = a ∧ s' = s := by
  constructor
  · intro h
    cases h
    exact ⟨rfl, rfl⟩
  · rintro ⟨rfl, rfl⟩
    rfl

theorem find?_ok [Stored α] {name : TableName} {key : Bytes} {a : Option α} :
    find? name key s = .ok (a, s') ↔ s' = s ∧ Store.find? (s.table name) key = .ok a := by
  rw [find?]
  cases (Store.find? (s.table name) key : Except Fault (Option α)) with
  | error e =>
    refine ⟨nofun, ?_⟩
    rintro ⟨-, h⟩
    cases h
  | ok b =>
    constructor
    · intro h
      cases h
      exact ⟨rfl, rfl⟩
    · rintro ⟨rfl, h⟩
      cases h
      rfl

theorem putRow_ok {name : TableName} {key row : Bytes} {u : Unit} :
    putRow name key row s = .ok (u, s') ↔ s' = s.update name (·.insert key row) := by
  constructor
  · intro h
    cases h
    rfl
  · rintro rfl
    rfl

theorem put_ok [Stored α] {name : TableName} {key : Bytes} {a : α} {u : Unit} :
    put name key a s = .ok (u, s') ↔
      ∃ row, Stored.encode a = some row ∧ s' = s.update name (·.insert key row) := by
  rw [put]
  cases h : writeRow a with
  | error e =>
    refine ⟨nofun, ?_⟩
    rintro ⟨row, hrow, -⟩
    rw [writeRow_ok.2 hrow] at h
    cases h
  | ok row =>
    have hrow := writeRow_ok.1 h
    constructor
    · intro hput
      exact ⟨row, hrow, putRow_ok.1 hput⟩
    · rintro ⟨row', hrow', rfl⟩
      cases hrow.symm.trans hrow'
      rfl

/-- An instant that cannot be stored is all that can go wrong. -/
theorem put_error [Stored α] {name : TableName} {key : Bytes} {a : α} {e : Fault}
    (h : put name key a s = .error e) : e = .encoding .instant := by
  rw [put, writeRow] at h
  cases hrow : Stored.encode a with
  | none =>
    rw [hrow] at h
    cases h
    rfl
  | some row =>
    rw [hrow] at h
    cases h

/-! ## Whole transactions -/

/-- What holds before the transaction holds after it, if it succeeds. -/
def Preserves (P : Store → Prop) (t : Transaction α) : Prop :=
  ∀ {s a s'}, t s = .ok (a, s') → P s → P s'

variable {P : Store → Prop}

theorem preserves_pure (a : α) : Preserves P (pure a : Transaction α) := by
  intro s b s' h hs
  obtain ⟨-, rfl⟩ := pure_ok.1 h
  exact hs

theorem preserves_bind {f : α → Transaction β} (ht : Preserves P t) (hf : ∀ a, Preserves P (f a)) :
    Preserves P (t >>= f) := by
  intro s b s'' h hs
  obtain ⟨a, s', hfirst, hrest⟩ := bind_ok.1 h
  exact hf a hrest (ht hfirst hs)

theorem preserves_mapM {f : α → Transaction β} (hf : ∀ a, Preserves P (f a)) (as : List α) :
    Preserves P (as.mapM f) := by
  induction as with
  | nil => exact preserves_pure _
  | cons a as ih =>
    rw [List.mapM_cons]
    exact preserves_bind (hf a) fun _ => preserves_bind ih fun _ => preserves_pure _

/-- What each part makes sure of and the later ones keep holds when all are done. -/
theorem mapM_ok {R : β → Store → Prop} {f : α → Transaction β}
    (hone : ∀ a {s b s'}, f a s = .ok (b, s') → P s → P s' ∧ R b s')
    (hkept : ∀ a b, Preserves (fun s => P s ∧ R b s) (f a)) {as : List α} {bs : List β}
    (h : as.mapM f s = .ok (bs, s')) (hs : P s) : P s' ∧ ∀ b ∈ bs, R b s' := by
  induction as generalizing s bs with
  | nil =>
    obtain ⟨rfl, rfl⟩ := pure_ok.1 h
    exact ⟨hs, nofun⟩
  | cons a as ih =>
    rw [List.mapM_cons] at h
    obtain ⟨b, s₁, hfirst, h⟩ := bind_ok.1 h
    obtain ⟨bs, s₂, hrest, hpure⟩ := bind_ok.1 h
    obtain ⟨rfl, rfl⟩ := pure_ok.1 hpure
    have hmade := hone a hfirst hs
    have hlater := preserves_mapM (fun a => hkept a b) as hrest hmade
    exact ⟨hlater.1, List.forall_mem_cons.2 ⟨hlater.2, (ih hrest hmade.1).2⟩⟩

end Transaction

/-! ## All or nothing -/

theorem atomically_ok {t : Transaction α} {s s' : Store} {a : α} :
    atomically t s = (.ok a, s') ↔ t s = .ok (a, s') := by
  rw [atomically]
  cases t s with
  | error e => exact ⟨nofun, nofun⟩
  | ok p => exact ⟨fun h => by cases h; rfl, fun h => by cases h; rfl⟩

/-- A transaction leaves what it preserves, whether it succeeds or not. -/
theorem atomically_preserves {P : Store → Prop} {t : Transaction α}
    (h : Transaction.Preserves P t) {s : Store} (hs : P s) : P (atomically t s).2 := by
  rw [atomically]
  split
  · next heq => exact h heq hs
  · exact hs

end Store

end Stockroom
