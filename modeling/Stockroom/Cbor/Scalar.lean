import Stockroom.Cbor.Head

/-!
# CBOR numbers, texts and byte strings

The items a row is made of, each with its writer and its reader. Strings have a known length and
texts are UTF-8; a number is read only if it fits the type that is asked for.
-/
namespace Stockroom.Cbor

/-! ## Numbers -/

/-- A whole number that is not negative. -/
def unsigned (n : Nat) : Bytes := head .unsigned n

/-- A whole number of either sign. A negative `n` is written as `-1 - n`. -/
def integer (n : Int) : Bytes :=
  if 0 ≤ n then head .unsigned n.toNat else head .negative (-1 - n).toNat

/-- A whole number below `bound`. -/
def readUnsigned (bound : Nat) : Reader Nat := fun bytes =>
  (readHead .unsigned bytes).filter (·.1 < bound)

/-- A whole number that fits 64 bits with a sign. -/
def readInteger : Reader Int := fun bytes =>
  ((readHead .unsigned bytes).filter (·.1 < 2 ^ 63)).map (fun (n, rest) => ((n : Int), rest)) <|>
    ((readHead .negative bytes).filter (·.1 < 2 ^ 63)).map fun (n, rest) => (-1 - (n : Int), rest)

/-! ## Strings -/

/-- A byte string. -/
def byteString (bytes : Bytes) : Bytes := head .bytes bytes.length ++ bytes

/-- A text. -/
def text (s : String) : Bytes := head .text (Bytes.ofText s).length ++ Bytes.ofText s

/-- The content of a string of known length. -/
def readContent (kind : Kind) : Reader Bytes := fun bytes => do
  let (length, rest) ← readHead kind bytes
  takeBytes length rest

/-- A byte string of known length. -/
def readByteString : Reader Bytes := readContent .bytes

/-- A text of known length. -/
def readText : Reader String := fun bytes => do
  let (content, rest) ← readContent .text bytes
  return (← Bytes.toText? content, rest)

example : integer (-500) = [0x39, 0x01, 0xf3] ∧ readInteger [0x39, 0x01, 0xf3] = some (-500, []) := by
  decide

end Stockroom.Cbor
