import Stockroom.Audit
import Stockroom.Ledger.Row
import Stockroom.Quantity.Arithmetic
import Stockroom.Receipt
import Stockroom.Store.Basic

/-!
# Questions about the ledger

Balances of one item at one location, lists of balances by item and location with paging, what an
item amounts to in all, single moves, receipts, and the audit entries in order.
-/
namespace Stockroom.Ledger

/-! ## Balances -/

/-- What an item amounts to at a location. -/
def balance (item location : Identifier) (s : Store) : Except Fault Balance :=
  (Store.find? s.balances (Balance.key item location)).map (·.getD (.zero item location))

/-- Which balances to list. -/
structure Filter where
  item : Option Identifier
  location : Option Identifier
  /-- At most this many. -/
  limit : Option Nat
  /-- Not this many at the front. -/
  offset : Nat

/-- Every balance of an item. -/
def Filter.ofItem (item : Identifier) : Filter := ⟨some item, none, none, 0⟩

/-- Whether a balance is of the item and at the location asked for. -/
def Filter.admits (f : Filter) (b : Balance) : Bool :=
  f.item.all (· = b.item) && f.location.all (· = b.location)

/-- The rows that can hold what is asked for: those whose keys start with the item. -/
def Filter.rows (f : Filter) (t : Table) : List Bytes :=
  match f.item with
  | some item => (t.rows.filter fun row => item.bytes.isPrefixOf row.1).map (·.2)
  | none => t.values

/-- The balances asked for among some rows, without the first `skip` and at most `room`. Rows after
  the last one listed are not looked at. -/
def Filter.collect (f : Filter) :
    List Bytes → (skip : Nat) → (room : Option Nat) → Except Fault (List Balance)
  | [], _, _ => .ok []
  | row :: rows, skip, room =>
    if room = some 0 then .ok []
    else do
      let b ← Store.readRow row
      if !f.admits b then f.collect rows skip room
      else
        match skip with
        | skip + 1 => f.collect rows skip room
        | 0 => return b :: (← f.collect rows 0 (room.map (· - 1)))

/-- The balances asked for, by item and then by location. -/
def balances (f : Filter) (s : Store) : Except Fault (List Balance) :=
  f.collect (f.rows s.balances) f.offset f.limit

/-- The sum of what some balances hold, in their order. -/
def sumOnHand (sum : Quantity) : List Balance → Except Fault Quantity
  | [] => .ok sum
  | b :: bs =>
    match sum.add? b.onHand with
    | some sum => sumOnHand sum bs
    | none => .error (.corrupt .totalOverflow)

/-- What an item amounts to in all. -/
def total (item : Identifier) (s : Store) : Except Fault Quantity := do
  sumOnHand .zero (← balances (.ofItem item) s)

/-! ## Other records -/

/-- A committed move. -/
def move? (id : Identifier) (s : Store) : Except Fault (Option Move) :=
  Store.find? s.moves id.bytes

/-- The receipt for an idempotency key at an endpoint. -/
def receipt? (idempotencyKey endpoint : String) (s : Store) : Except Fault (Option Receipt) :=
  Store.find? s.receipts (Receipt.key idempotencyKey endpoint)

/-- The audit entries in the order in which they were written. -/
def auditTrail (s : Store) : Except Fault (List AuditEntry) :=
  s.audit.values.mapM Store.readRow

end Stockroom.Ledger
