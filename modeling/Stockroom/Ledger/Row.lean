import Stockroom.Ledger.Request

/-!
# Ledger rows and balances

The ledger holds one row for each committed move and is never changed; a correction is another
move. A balance is what an item amounts to at one location. Balances sit under the item first, so
all locations of an item are neighbours.
-/
namespace Stockroom

/-! ## Moves -/

/-- A committed move. -/
structure Move where
  id : Identifier
  item : Identifier
  quantity : Quantity
  origin : Identifier
  destination : Identifier
  reason : String
  actor : Identifier
  requestId : Option String
  createdAt : Instant
  deriving DecidableEq

namespace Move

/-- Read the fields of a move. -/
def fields : Cbor.Fields Move := do
  let id ← Stored.field
  let item ← Stored.field
  let quantity ← Stored.field
  let origin ← Stored.field
  let destination ← Stored.field
  let reason ← Stored.field
  let actor ← Stored.field
  let requestId ← Stored.field?
  let createdAt ← Stored.field
  return ⟨id, item, quantity, origin, destination, reason, actor, requestId, createdAt⟩

instance : Stored Move where
  encode m :=
    Stored.record [Stored.put m.id, Stored.put m.item, Stored.put m.quantity, Stored.put m.origin,
      Stored.put m.destination, Stored.put m.reason, Stored.put m.actor, Stored.put? m.requestId,
      Stored.put m.createdAt]
  read := Cbor.readRecord fields

end Move

/-! ## Balances -/

/-- What an item amounts to at a location. -/
structure Balance where
  item : Identifier
  location : Identifier
  onHand : Quantity
  allocated : Quantity
  deriving DecidableEq

namespace Balance

/-- Nothing, as long as nothing has moved. -/
def zero (item location : Identifier) : Balance := ⟨item, location, .zero, .zero⟩

/-- The key of the balance of an item at a location. -/
def key (item location : Identifier) : Bytes := item.bytes ++ location.bytes

/-- Read the fields of a balance. -/
def fields : Cbor.Fields Balance := do
  let item ← Stored.field
  let location ← Stored.field
  let onHand ← Stored.field
  let allocated ← Stored.field
  return ⟨item, location, onHand, allocated⟩

instance : Stored Balance where
  encode b :=
    Stored.record [Stored.put b.item, Stored.put b.location, Stored.put b.onHand,
      Stored.put b.allocated]
  read := Cbor.readRecord fields

end Balance

end Stockroom
