import Stockroom.Outbox.Event
import Stockroom.Store.Basic

/-!
# Claiming events

A worker claims events in two steps. It looks through the pending events for ones that are free, in
the order of their numbers; then it stamps those that are still free with its name and the end of
its lease, in one transaction. What happens between the two steps is seen by the second.

Either step goes by one reading of the clock. A worker reads the clock anew for each event that it
comes to; one reading stands for all of these, as if no time passed within a step.
-/
namespace Stockroom.Outbox

/-- The event under a key, if there is a row. -/
def eventAt (key : Bytes) (s : Store) : Except Fault (Option Event) :=
  Store.find? s.events key

/-- An event by its number. -/
def event? (id : UInt64) (s : Store) : Except Fault (Option Event) :=
  eventAt (Event.key id) s

/-- The events under the first `limit` pending keys. -/
def pending (limit : Nat) (s : Store) : Except Fault (List Event) := do
  return (← (s.pending.keys.take limit).mapM (eventAt · s)).filterMap id

/-! ## Looking -/

/-- The numbers of the first `limit` free events among some keys, at one reading of the clock. -/
def freeAmong (now : Date) (s : Store) :
    (limit : Nat) → List Bytes → Except Fault (List UInt64)
  | _, [] => .ok []
  | 0, _ :: _ => .ok []
  | limit + 1, key :: keys => do
    match ← eventAt key s with
    | none => freeAmong now s (limit + 1) keys
    | some e =>
      if e.isClaimable now then return e.id :: (← freeAmong now s limit keys)
      else freeAmong now s (limit + 1) keys

/-- The numbers of the first `limit` events that are free to be claimed. One reading of the clock
  stands for the one that is made for each event. -/
def scan (now : Date) (limit : Nat) (s : Store) : Except Fault (List UInt64) :=
  freeAmong now s limit s.pending.keys

/-! ## Stamping -/

/-- Put an event under its number. -/
def putEvent (e : Event) : Store.Transaction Unit :=
  Store.Transaction.put .events (Event.key e.id) e

/-- Stamp an event that is still free. -/
def stampOne (now : Date) (worker : String) (leaseEnd : Date) (id : UInt64) :
    Store.Transaction (Option Event) := do
  match ← Store.Transaction.find? .events (Event.key id) with
  | none => return none
  | some e =>
    if Event.isClaimable now e then
      putEvent (e.claim worker leaseEnd)
      return some (e.claim worker leaseEnd)
    else return none

/-- Stamp those of some events that are still free. One reading of the clock stands for the one that
  is made for each event. -/
def stampAll (now : Date) (worker : String) (leaseEnd : Date) (ids : List UInt64) :
    Store.Transaction (List Event) := do
  return (← ids.mapM (stampOne now worker leaseEnd)).filterMap id

/-- Stamp those of some events that are still free, for as long as a lease lasts from now. -/
def stamp (now : Date) (worker : String) (lease : Duration) (ids : List UInt64) (s : Store) :
    Except Fault (List Event) × Store :=
  if ids.isEmpty then (.ok [], s)
  else Store.atomically (stampAll now worker (now.after lease) ids) s

/-- Claim up to `limit` free events, the oldest first. The two steps read the clock one after the
  other. -/
def claim (seen stamped : Date) (worker : String) (limit : Nat) (lease : Duration) (s : Store) :
    Except Fault (List Event) × Store :=
  match scan seen limit s with
  | .error e => (.error e, s)
  | .ok ids => stamp stamped worker lease ids s

end Stockroom.Outbox
