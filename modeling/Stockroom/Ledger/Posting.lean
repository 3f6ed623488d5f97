import Stockroom.Audit
import Stockroom.Ledger.Row
import Stockroom.Outbox.Event
import Stockroom.Receipt
import Stockroom.Store.Basic

/-!
# Posting moves

A call asks for one move under an idempotency key. It is admitted first: a key that left a receipt
is answered from it, and everything the move will write is prepared. Then it is committed in one
transaction, which looks for a receipt again, since another call may have been faster; writes the
ledger row; takes the quantity from one balance and adds it to the other; and leaves the notice, the
audit entry and the receipt. Other calls may come between the two steps.
-/
namespace Stockroom.Ledger

/-- A request and who makes it, under which key and at which endpoint. -/
structure Call where
  request : MoveRequest
  actor : Identifier
  endpoint : String
  idempotencyKey : String
  requestId : Option String

/-- A move that is ready to be committed. The date of its admission is that of the move. -/
structure Draft where
  call : Call
  move : Move
  /-- The ledger row of the move. -/
  row : Bytes
  /-- The number of the event that will tell the broker. -/
  event : UInt64
  /-- The number of the audit entry. -/
  auditNumber : UInt64

/-- What becomes of a call before anything is written. -/
inductive Admission
  /-- An earlier call did the work. -/
  | answered (answer : MoveAnswer)
  | drafted (draft : Draft)

/-! ## Admission -/

/-- The key of the receipt that a call asks for and leaves. -/
def Call.receiptKey (c : Call) : Bytes := Receipt.key c.idempotencyKey c.endpoint

/-- The move that a call asks for, once its request has been read. -/
def Call.move (c : Call) (valid : ValidMove) (id : Identifier) (now : Instant) : Move :=
  ⟨id, valid.item, valid.quantity, valid.origin, valid.destination, valid.reason, c.actor,
    c.requestId, now⟩

/-- Prepare the move a call asks for. This takes two numbers from the store. -/
def prepare (c : Call) (valid : ValidMove) (id : Identifier) (now : Date) (s : Store) :
    Except Fault Admission × Store :=
  let (event, s) := s.takeNumber
  let (auditNumber, s) := s.takeNumber
  let move := c.move valid id now
  ((Store.writeRow move).map fun row => .drafted ⟨c, move, row, event, auditNumber⟩, s)

/-- Admit a call. `id` names the move if there will be one. -/
def consider (c : Call) (id : Identifier) (now : Date) (s : Store) :
    Except Fault Admission × Store :=
  if Text.trim c.idempotencyKey = "" then (.error (.refused .keyRequired), s)
  else
    match (Store.find? s.receipts c.receiptKey : Except Fault (Option Receipt)) with
    | .error e => (.error e, s)
    | .ok (some receipt) => ((receipt.answer c.request.digest).map .answered, s)
    | .ok none =>
      match c.request.validate with
      | .error why => (.error (.refused why), s)
      | .ok valid => prepare c valid id now s

/-! ## Commitment -/

/-- Change what an item amounts to at a location by a quantity. -/
def shift (change : Quantity → Quantity → Option Quantity) (item location : Identifier)
    (q : Quantity) : Store.Transaction Unit := do
  let stored ← Store.Transaction.find? .balances (Balance.key item location)
  let balance : Balance := stored.getD (.zero item location)
  match change balance.onHand q with
  | none => .fail (.refused (.balanceOverflow item location))
  | some onHand =>
    Store.Transaction.put .balances (Balance.key item location) { balance with onHand }

/-- Take the quantity of a move from one location and bring it to the other. -/
def applyMove (m : Move) : Store.Transaction Unit := do
  shift Quantity.sub? m.item m.origin m.quantity
  shift Quantity.add? m.item m.destination m.quantity

/-- What the broker is told of a move. -/
def noticeOf (m : Move) : MoveNotice := ⟨m.id.text, m.item.text, m.quantity.text⟩

/-- Leave a notice for the broker. -/
def enqueue (id : UInt64) (topic payload : String) (now : Date) : Store.Transaction Unit := do
  Store.Transaction.put .events (Outbox.Event.key id) (Outbox.Event.fresh id topic payload now)
  Store.Transaction.putRow .pending (Outbox.Event.key id) []

/-- Leave an audit entry, unless it has no stored form. -/
def appendAudit (id : UInt64) (entry : AuditEntry) : Store.Transaction Unit :=
  match Stored.encode entry with
  | some row => Store.Transaction.putRow .audit (AuditEntry.key id) row
  | none => return ()

/-- What the broker will be told of a move, as a JSON text. -/
def Draft.payload (d : Draft) : String := (noticeOf d.move).toJson

/-- The audit entry that a committed move leaves. -/
def Draft.auditEntry (d : Draft) : AuditEntry :=
  .ofMove d.call.actor d.move.id d.call.requestId d.payload d.move.createdAt

/-- The receipt that a committed move leaves. -/
def Draft.receipt (d : Draft) : Receipt :=
  ⟨d.call.idempotencyKey, d.call.endpoint, d.call.actor, d.call.request.digest,
    (MoveAnswer.ok d.move.id).toJson, d.move.createdAt⟩

/-- Write everything a move leaves behind. Only the event is as young as the commitment. -/
def Draft.post (d : Draft) (now : Date) : Store.Transaction Unit := do
  Store.Transaction.putRow .moves d.move.id.bytes d.row
  applyMove d.move
  enqueue d.event MoveNotice.topic d.payload now
  appendAudit d.auditNumber d.auditEntry
  Store.Transaction.put .receipts d.call.receiptKey d.receipt

/-- Write everything a move leaves behind, unless there is a receipt by now; that is returned. -/
def Draft.commitOnce (d : Draft) (now : Date) : Store.Transaction (Option Receipt) := do
  match ← Store.Transaction.find? .receipts d.call.receiptKey with
  | some receipt => return some receipt
  | none =>
    d.post now
    return none

/-- Commit a move, or answer from the receipt of a call that was faster. -/
def commit (d : Draft) (now : Date) (s : Store) : Except Fault MoveAnswer × Store :=
  match Store.atomically (d.commitOnce now) s with
  | (.error e, s) => (.error e, s)
  | (.ok none, s) => (.ok (.ok d.move.id), s)
  | (.ok (some receipt), s) => (receipt.answer d.call.request.digest, s)

/-! ## Whole calls -/

/-- Carry out a call that nothing comes between. -/
def post (c : Call) (id : Identifier) (now : Date) (s : Store) :
    Except Fault MoveAnswer × Store :=
  match consider c id now s with
  | (.error e, s) => (.error e, s)
  | (.ok (.answered answer), s) => (.ok answer, s)
  | (.ok (.drafted draft), s) => commit draft now s

end Stockroom.Ledger
