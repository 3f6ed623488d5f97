import Stockroom.Bytes

/-!
# Identifiers

Items, locations, actors and moves are named by sixteen bytes. Identifiers compare as their bytes
do. A fresh one carries the time it was drawn in its leading bytes, so later ones sort after
earlier ones.
-/
namespace Stockroom

/-- Sixteen bytes that name an item, a location, an actor or a move. -/
structure Identifier where
  bytes : Bytes
  length_bytes : bytes.length = 16
  deriving DecidableEq

namespace Identifier

@[ext] theorem ext {a b : Identifier} (h : a.bytes = b.bytes) : a = b := by
  cases a; cases b; cases h; rfl

/-- The identifier with these bytes, if there are sixteen. -/
def ofBytes? (bytes : Bytes) : Option Identifier :=
  if h : bytes.length = 16 then some ⟨bytes, h⟩ else none

@[simp] theorem ofBytes?_bytes (id : Identifier) : ofBytes? id.bytes = some id := by
  simp [ofBytes?, id.length_bytes]

instance : Inhabited Identifier := ⟨⟨List.replicate 16 0, by simp⟩⟩

/-- The order of the bytes, which is also the order of the keys that identifiers enter. -/
instance : Ord Identifier := ⟨fun a b => compare a.bytes b.bytes⟩

instance : LT Identifier := ⟨fun a b => a.bytes < b.bytes⟩

instance (a b : Identifier) : Decidable (a < b) := inferInstanceAs (Decidable (a.bytes < b.bytes))

/-! ## Fresh identifiers -/

/-- The identifier drawn at a Unix time in milliseconds with a serial number: 48 bits of time, the
  version, twelve bits of the serial number, the variant, and the other 62 bits of it. -/
def fresh (millis serial : Nat) : Identifier where
  bytes := Bytes.toBigEndian 16 <|
    millis % 2 ^ 48 * 2 ^ 80 + 7 * 2 ^ 76 + serial / 2 ^ 62 % 2 ^ 12 * 2 ^ 64 + 2 * 2 ^ 62 +
      serial % 2 ^ 62
  length_bytes := by simp

/-- The version number, four bits. -/
def version (id : Identifier) : Nat := (id.bytes.getD 6 0).toNat / 16

/-- The variant, two bits. -/
def variant (id : Identifier) : Nat := (id.bytes.getD 8 0).toNat / 64

example : (fresh 1800000000000 5).version = 7 ∧ (fresh 1800000000000 5).variant = 2 := by decide
example : fresh 1800000000000 5 < fresh 1800000000000 (2 ^ 62) := by decide

end Identifier

end Stockroom
