import Stockroom.Identifier.Notation
import Stockroom.Stored

/-!
# Audit entries

Every committed move leaves an audit entry that says who did what. Entries are for people; nothing
is decided by them.
-/
namespace Stockroom

/-- Who did what to what, and how it ended. -/
structure AuditEntry where
  actor : Identifier
  actorType : String
  action : String
  resource : String
  resourceId : String
  status : String
  requestId : Option String
  /-- Details, as a JSON text. -/
  metadata : String
  createdAt : Instant
  deriving DecidableEq

namespace AuditEntry

/-- The entry for a committed move. -/
def ofMove (actor move : Identifier) (requestId : Option String) (metadata : String)
    (now : Instant) : AuditEntry :=
  ⟨actor, "user", "stock.move", "stock_ledger", move.text, "ok", requestId, metadata, now⟩

/-- The key of the entry with a number. -/
def key (id : UInt64) : Bytes := Bytes.toBigEndian 8 id.toNat

/-- Read the fields of an entry. -/
def fields : Cbor.Fields AuditEntry := do
  let actor ← Stored.field
  let actorType ← Stored.field
  let action ← Stored.field
  let resource ← Stored.field
  let resourceId ← Stored.field
  let status ← Stored.field
  let requestId ← Stored.field?
  let metadata ← Stored.field
  let createdAt ← Stored.field
  return ⟨actor, actorType, action, resource, resourceId, status, requestId, metadata, createdAt⟩

instance : Stored AuditEntry where
  encode e :=
    Stored.record [Stored.put e.actor, Stored.put e.actorType, Stored.put e.action,
      Stored.put e.resource, Stored.put e.resourceId, Stored.put e.status, Stored.put? e.requestId,
      Stored.put e.metadata, Stored.put e.createdAt]
  read := Cbor.readRecord fields

end AuditEntry

end Stockroom
