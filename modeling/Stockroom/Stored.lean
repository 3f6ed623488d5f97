import Stockroom.Cbor.Record
import Stockroom.Identifier.Basic
import Stockroom.Instant
import Stockroom.Quantity.Stored

/-!
# Stored values

Rows are records of texts, numbers, identifiers, quantities and instants. An identifier is stored as
its sixteen bytes, a quantity as its text, so that its scale survives, and an instant as its
nanoseconds, from which a date is read. Only an instant can lack a stored form.
-/
namespace Stockroom

/-- A type whose values are stored. -/
class Stored (α : Type) where
  /-- The stored form, if the value has one. -/
  encode : α → Option Bytes
  /-- Take a value off the front of some bytes. -/
  read : Cbor.Reader α

namespace Stored

/-- The value stored in some bytes. What follows it is ignored. -/
def decode {α : Type} [Stored α] (bytes : Bytes) : Option α :=
  (read bytes).map (·.1)

/-! ## Fields of records -/

/-- A field that must be there. -/
def field {α : Type} [Stored α] : Cbor.Fields α := Cbor.required read

/-- A field that may be missing or null. -/
def field? {α : Type} [Stored α] : Cbor.Fields (Option α) := Cbor.optional read

/-- A field that is present, in its stored form. -/
def put {α : Type} [Stored α] (a : α) : Option (Option Bytes) := (encode a).map some

/-- A field that may be absent, in its stored form. -/
def put? {α : Type} [Stored α] : Option α → Option (Option Bytes)
  | none => some none
  | some a => put a

/-- The record with these fields, if every field has a stored form. -/
def record (fields : List (Option (Option Bytes))) : Option Bytes :=
  (fields.mapM id).map Cbor.record

/-! ## Values -/

instance : Stored String := ⟨fun s => some (Cbor.text s), Cbor.readText⟩

instance : Stored UInt64 where
  encode n := some (Cbor.unsigned n.toNat)
  read bytes := (Cbor.readUnsigned (2 ^ 64) bytes).map fun (n, rest) => (UInt64.ofNat n, rest)

instance : Stored UInt32 where
  encode n := some (Cbor.unsigned n.toNat)
  read bytes := (Cbor.readUnsigned (2 ^ 32) bytes).map fun (n, rest) => (UInt32.ofNat n, rest)

instance : Stored Identifier where
  encode id := some (Cbor.byteString id.bytes)
  read bytes := do
    let (content, rest) ← Cbor.readByteString bytes
    return (← Identifier.ofBytes? content, rest)

instance : Stored Quantity where
  encode q := some (Cbor.text q.text)
  read bytes := do
    let (content, rest) ← Cbor.readText bytes
    return (← Quantity.readStored content, rest)

instance : Stored Instant where
  encode t := if t.Storable then some (Cbor.integer t.nanos) else none
  read bytes := (Cbor.readInteger bytes).map fun (n, rest) => ((⟨n⟩ : Date), rest)

end Stored

end Stockroom
