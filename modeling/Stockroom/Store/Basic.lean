import Stockroom.Counter
import Stockroom.Fault
import Stockroom.Stored
import Stockroom.Table

/-!
# The store

Six tables and a counter. Rows are read and written as records; a row that is not the record it
should be is a fault. What changes several tables does so in a transaction: it takes effect as a
whole, or not at all when it fails.

Main statements: `table_update`, a change of one table leaves the others as they are, and
`atomically_error`, a transaction that fails leaves the store as it was.
-/
namespace Stockroom

/-! ## Tables -/

/-- The names that the tables have in the database. -/
inductive TableName
  | moves
  | balances
  | events
  /-- The events that have not been sent, by their keys alone. -/
  | pending
  | receipts
  | audit
  deriving DecidableEq

/-- The name of a table in the database. -/
def TableName.text : TableName → String
  | moves => "stock_ledger_moves"
  | balances => "stock_balances"
  | events => "outbox_events"
  | pending => "outbox_pending"
  | receipts => "idempotency_keys"
  | audit => "audit_log"

/-- The table with a name. -/
def TableName.ofText? (s : String) : Option TableName :=
  [moves, balances, events, pending, receipts, audit].find? (·.text = s)

/-- Everything that is kept. -/
structure Store where
  moves : Table
  balances : Table
  events : Table
  pending : Table
  receipts : Table
  audit : Table
  counter : Counter

namespace Store

/-- A store that holds nothing. -/
def empty : Store := ⟨.empty, .empty, .empty, .empty, .empty, .empty, .start⟩

instance : Inhabited Store := ⟨empty⟩

/-- One of the tables. -/
def table (s : Store) : TableName → Table
  | .moves => s.moves
  | .balances => s.balances
  | .events => s.events
  | .pending => s.pending
  | .receipts => s.receipts
  | .audit => s.audit

/-- The store with one of the tables changed. -/
def update (s : Store) (name : TableName) (f : Table → Table) : Store :=
  match name with
  | .moves => { s with moves := f s.moves }
  | .balances => { s with balances := f s.balances }
  | .events => { s with events := f s.events }
  | .pending => { s with pending := f s.pending }
  | .receipts => { s with receipts := f s.receipts }
  | .audit => { s with audit := f s.audit }

/-- A change of one table leaves the others as they are. -/
theorem table_update (s : Store) (name : TableName) (f : Table → Table) (other : TableName) :
    (s.update name f).table other = if name = other then f (s.table other) else s.table other := by
  cases name <;> cases other <;> rfl

@[simp] theorem counter_update (s : Store) (name : TableName) (f : Table → Table) :
    (s.update name f).counter = s.counter := by
  cases name <;> rfl

/-- Give out a number that was never given out before. -/
def takeNumber (s : Store) : UInt64 × Store :=
  let (n, counter) := s.counter.take
  (n, { s with counter })

/-- Close the database and open it again. -/
def reopen (s : Store) : Store := { s with counter := s.counter.reopen }

/-! ## Records in tables -/

/-- Read a row as a record. -/
def readRow {α : Type} [Stored α] (row : Bytes) : Except Fault α :=
  match Stored.decode row with
  | some a => .ok a
  | none => .error (.corrupt .unreadable)

/-- The record under a key, if there is a row. -/
def find? {α : Type} [Stored α] (t : Table) (key : Bytes) : Except Fault (Option α) :=
  match t.get? key with
  | some row => some <$> readRow row
  | none => .ok none

/-- The row that holds a record. -/
def writeRow {α : Type} [Stored α] (a : α) : Except Fault Bytes :=
  match Stored.encode a with
  | some row => .ok row
  | none => .error (.encoding .instant)

/-! ## Transactions -/

/-- What happens in a transaction. -/
abbrev Transaction (α : Type) := StateT Store (Except Fault) α

namespace Transaction

/-- Give up, for a reason. -/
def fail {α : Type} (why : Fault) : Transaction α := fun _ => .error why

/-- The record under a key of a table, if there is a row. -/
def find? {α : Type} [Stored α] (name : TableName) (key : Bytes) : Transaction (Option α) :=
  fun s => (Store.find? (s.table name) key).map (·, s)

/-- Put a row under a key of a table. -/
def putRow (name : TableName) (key row : Bytes) : Transaction Unit :=
  fun s => .ok ((), s.update name (·.insert key row))

/-- Put a record under a key of a table. -/
def put {α : Type} [Stored α] (name : TableName) (key : Bytes) (a : α) : Transaction Unit :=
  fun s => (writeRow a).bind fun row => putRow name key row s

/-- Take away the row under a key of a table. -/
def delete (name : TableName) (key : Bytes) : Transaction Unit :=
  fun s => .ok ((), s.update name (·.erase key))

end Transaction

/-- Run a transaction. When it fails, nothing of it remains. -/
def atomically {α : Type} (t : Transaction α) (s : Store) : Except Fault α × Store :=
  match t s with
  | .ok (a, s) => (.ok a, s)
  | .error e => (.error e, s)

/-- A transaction that fails leaves the store as it was. -/
theorem atomically_error {α : Type} {t : Transaction α} {s : Store} {e : Fault}
    (h : (atomically t s).1 = .error e) : (atomically t s).2 = s := by
  unfold atomically at h ⊢
  split at h
  · cases h
  · rfl

end Store

end Stockroom
