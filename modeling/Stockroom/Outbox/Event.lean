import Stockroom.Stored

/-!
# Outbox events

An event is a notice owed to the broker. It is pending until it has been sent. A worker that wants
to send it claims it under a lease; while the lease is live nobody else may take it, and when the
lease has run out the event is free again, whoever held it.
-/
namespace Stockroom.Outbox

/-- A notice owed to the broker. -/
structure Event where
  id : UInt64
  topic : String
  payload : String
  createdAt : Instant
  sentAt : Option Instant
  /-- Failed attempts to publish it so far. -/
  attempts : UInt32
  lastError : Option String
  claimedBy : Option String
  leaseEnd : Option Instant
  deriving DecidableEq

namespace Event

/-- An event that nobody has claimed yet. -/
def fresh (id : UInt64) (topic payload : String) (now : Date) : Event :=
  ⟨id, topic, payload, now, none, 0, none, none, none⟩

/-- Not sent yet. -/
def isPending (e : Event) : Bool := e.sentAt.isNone

/-- Not under a lease that is still live. -/
def isUnleased (now : Date) (e : Event) : Bool := e.leaseEnd.all (· ≤ (now : Instant))

/-- Free to be claimed. -/
def isClaimable (now : Date) (e : Event) : Bool := e.isPending && e.isUnleased now

/-! ## Changes -/

/-- Under the lease of a worker. -/
def claim (worker : String) (leaseEnd : Date) (e : Event) : Event :=
  { e with claimedBy := some worker, leaseEnd := some leaseEnd }

/-- Under nobody's lease. -/
def release (e : Event) : Event := { e with claimedBy := none, leaseEnd := none }

/-- Sent, and of no more interest to anybody. -/
def sent (now : Date) (e : Event) : Event := release { e with sentAt := some now }

/-- One more attempt has failed. The count stays at the largest it can be. -/
def failed (reason : String) (e : Event) : Event :=
  release
    { e with
      attempts := if e.attempts.toNat + 1 < 2 ^ 32 then e.attempts + 1 else e.attempts
      lastError := some reason }

/-! ## Storage -/

/-- The key of the event with a number. -/
def key (id : UInt64) : Bytes := Bytes.toBigEndian 8 id.toNat

/-- Read the fields of an event. -/
def fields : Cbor.Fields Event := do
  let id ← Stored.field
  let topic ← Stored.field
  let payload ← Stored.field
  let createdAt ← Stored.field
  let sentAt ← Stored.field?
  let attempts ← Stored.field
  let lastError ← Stored.field?
  let claimedBy ← Stored.field?
  let leaseEnd ← Stored.field?
  return ⟨id, topic, payload, createdAt, sentAt, attempts, lastError, claimedBy, leaseEnd⟩

instance : Stored Event where
  encode e :=
    Stored.record [Stored.put e.id, Stored.put e.topic, Stored.put e.payload,
      Stored.put e.createdAt, Stored.put? e.sentAt, Stored.put e.attempts, Stored.put? e.lastError,
      Stored.put? e.claimedBy, Stored.put? e.leaseEnd]
  read := Cbor.readRecord fields

end Event

end Stockroom.Outbox
