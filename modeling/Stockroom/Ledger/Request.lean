import Stockroom.Digest
import Stockroom.Fault
import Stockroom.Json.Record
import Stockroom.Stored
import Stockroom.Text.Blank

/-!
# Move requests

A request to move stock arrives as five texts. Before it may move anything its identifiers and its
quantity are read; blanks around them and the case of letters do not matter, and neither does how
the quantity is spelled. The digest of a request is taken of a form in which all that is gone, for
requests that cannot be read as well, so that a key used again is noticed whatever came with it.
-/
namespace Stockroom

open Text (trim lowerAscii)

/-! ## Reading single fields -/

/-- Read an identifier that a client sent in a field. -/
def scanIdentifier (field value : String) : Except Refusal Identifier :=
  match Identifier.read (lowerAscii (trim value)) with
  | .ok id => .ok id
  | .error _ => .error (.notIdentifier field value)

/-- Read a quantity that a client sent. There must be something to move. -/
def scanQuantity (value : String) : Except Refusal Quantity :=
  match Quantity.readExact (trim value) with
  | .ok q => if q.isPositive then .ok q else .error (.notPositive value)
  | .error _ => .error (.notExactDecimal value)

/-! ## Requests -/

/-- A request as the client sent it. -/
structure MoveRequest where
  item : String
  quantity : String
  origin : String
  destination : String
  reason : String
  deriving DecidableEq

/-- A request whose identifiers and quantity have been read. -/
structure ValidMove where
  item : Identifier
  quantity : Quantity
  origin : Identifier
  destination : Identifier
  reason : String
  deriving DecidableEq

namespace MoveRequest

/-- Read a request. The first field that cannot be read is the one refused. -/
def validate (r : MoveRequest) : Except Refusal ValidMove := do
  let item ← scanIdentifier "item_id" r.item
  let quantity ← scanQuantity r.quantity
  let origin ← scanIdentifier "from_location_id" r.origin
  let destination ← scanIdentifier "to_location_id" r.destination
  return ⟨item, quantity, origin, destination, trim r.reason⟩

/-! ## The digest -/

/-- The quantity as it enters the digest: its shortest spelling, or what was sent if that is no
  quantity. -/
def plainQuantity (r : MoveRequest) : String :=
  match Quantity.readExact (trim r.quantity) with
  | .ok q => q.canonical.text
  | .error _ => trim r.quantity

/-- The texts that make two requests different. -/
def plainTexts (r : MoveRequest) : List String :=
  [lowerAscii (trim r.item), r.plainQuantity, lowerAscii (trim r.origin),
    lowerAscii (trim r.destination), trim r.reason]

/-- The bytes that the digest is taken of. -/
def plainBytes (r : MoveRequest) : Bytes := Cbor.array (r.plainTexts.map Cbor.text)

/-- What tells requests under one idempotency key apart. -/
def digest (r : MoveRequest) : String := Digest.sha256Hex r.plainBytes

/-! ## JSON -/

/-- The fields of a request. -/
def layout : Json.Layout :=
  ⟨"MoveRequest",
    [.plain "item_id", ⟨"quantity", some "qty", none⟩, .plain "from_location_id",
      .plain "to_location_id", ⟨"reason_code", none, some ""⟩]⟩

/-- The request as a JSON text. -/
def toJson (r : MoveRequest) : String :=
  String.ofList (layout.write [r.item, r.quantity, r.origin, r.destination, r.reason])

/-- Read a request from a JSON text. -/
def ofJson (s : String) : Except Json.Fault MoveRequest := do
  match ← layout.read s with
  | [item, quantity, origin, destination, reason] =>
    return ⟨item, quantity, origin, destination, reason⟩
  | _ => throw .malformed

end MoveRequest

end Stockroom
