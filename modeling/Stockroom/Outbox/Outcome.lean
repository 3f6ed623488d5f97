import Stockroom.Outbox.Claim

/-!
# Recording outcomes

A worker reports for each event it held whether it was sent. A success is always recorded, even if
the lease has run out meanwhile, and takes the event out of the pending ones. A failure is recorded
only from the worker that still holds the event, so no attempt is counted twice.
-/
namespace Stockroom.Outbox

/-- How an attempt to publish an event ended. -/
inductive Outcome
  | sent
  | failed (reason : String)
  deriving DecidableEq

/-- What a report by a worker makes of an event, if it changes it. -/
def Event.report (now : Date) (worker : String) (e : Event) : Outcome → Option Event
  | .sent => if e.isPending then some (e.sent now) else none
  | .failed reason =>
    if e.isPending ∧ e.claimedBy = some worker then some (e.failed reason) else none

/-- Record one outcome. Says whether anything changed. -/
def recordOne (now : Date) (worker : String) (id : UInt64) (outcome : Outcome) :
    Store.Transaction Bool := do
  match ← Store.Transaction.find? .events (Event.key id) with
  | none => return false
  | some e =>
    match Event.report now worker e outcome with
    | none => return false
    | some changed =>
      if outcome = .sent then Store.Transaction.delete .pending (Event.key id)
      putEvent changed
      return true

/-- Record outcomes in order. Says how many changed anything. -/
def recordAll (now : Date) (worker : String) :
    List (UInt64 × Outcome) → Store.Transaction Nat
  | [] => return 0
  | (id, outcome) :: rest => do
    let changed ← recordOne now worker id outcome
    return (← recordAll now worker rest) + changed.toNat

/-- Record outcomes in one transaction. Says how many changed anything. -/
def complete (now : Date) (worker : String) (outcomes : List (UInt64 × Outcome)) (s : Store) :
    Except Fault Nat × Store :=
  Store.atomically (recordAll now worker outcomes) s

/-- Record that an event was sent. Says whether that is news. -/
def markSent (now : Date) (worker : String) (id : UInt64) (s : Store) :
    Except Fault Bool × Store :=
  let (changed, s) := complete now worker [(id, .sent)] s
  (changed.map (· = 1), s)

/-- Record that an attempt failed. Says whether it counts. -/
def markFailed (now : Date) (worker : String) (id : UInt64) (reason : String) (s : Store) :
    Except Fault Bool × Store :=
  let (changed, s) := complete now worker [(id, .failed reason)] s
  (changed.map (· = 1), s)

end Stockroom.Outbox
