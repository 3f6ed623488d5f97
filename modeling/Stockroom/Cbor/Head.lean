import Stockroom.Bytes

/-!
# Heads of CBOR items

Every item starts with a head: three bits for its kind and a number, which is the value itself, a
length or a count. A head is written in the fewest bytes; any width is read.

Main statement: `readHead_head`, a written head is read back, whatever follows it.
-/
namespace Stockroom.Cbor

/-! ## Kinds -/

/-- What an item is, by the first three bits of its head. -/
inductive Kind
  | unsigned
  | negative
  | bytes
  | text
  | array
  | map
  | tag
  | simple
  deriving DecidableEq

/-- The three bits of a kind. -/
def Kind.code : Kind → Nat
  | unsigned => 0
  | negative => 1
  | bytes => 2
  | text => 3
  | array => 4
  | map => 5
  | tag => 6
  | simple => 7

/-- The kind with these three bits. -/
def Kind.ofCode : Nat → Kind
  | 0 => unsigned
  | 1 => negative
  | 2 => bytes
  | 3 => text
  | 4 => array
  | 5 => map
  | 6 => tag
  | _ => simple

@[simp] theorem Kind.ofCode_code (k : Kind) : ofCode k.code = k := by cases k <;> rfl

/-! ## Writing -/

/-- The first byte of a head: the kind and five bits more. -/
def firstByte (kind : Kind) (info : Nat) : UInt8 := UInt8.ofNat (kind.code * 32 + info)

/-- The head of a kind with a number below `2 ^ 64`, in the fewest bytes. -/
def head (kind : Kind) (n : Nat) : Bytes :=
  if n < 24 then [firstByte kind n]
  else if n < 2 ^ 8 then firstByte kind 24 :: Bytes.toBigEndian 1 n
  else if n < 2 ^ 16 then firstByte kind 25 :: Bytes.toBigEndian 2 n
  else if n < 2 ^ 32 then firstByte kind 26 :: Bytes.toBigEndian 4 n
  else firstByte kind 27 :: Bytes.toBigEndian 8 n

/-! ## Reading -/

/-- A reader takes a value off the front of some bytes, or refuses them. -/
abbrev Reader (α : Type) := Bytes → Option (α × Bytes)

/-- The first `n` bytes, if there are as many. -/
def takeBytes (n : Nat) : Reader Bytes := fun bytes =>
  if n ≤ bytes.length then some (bytes.take n, bytes.drop n) else none

/-- A number of `width` bytes. -/
def takeNumber (width : Nat) : Reader Nat := fun bytes =>
  (takeBytes width bytes).map fun (digits, rest) => (Bytes.ofBigEndian digits, rest)

/-- The number of a head whose first byte ends in `info`. Lengths left open have none. -/
def readNumber (info : Nat) : Reader Nat := fun bytes =>
  if info < 24 then some (info, bytes)
  else if info = 24 then takeNumber 1 bytes
  else if info = 25 then takeNumber 2 bytes
  else if info = 26 then takeNumber 4 bytes
  else if info = 27 then takeNumber 8 bytes
  else none

/-- The kind in the first byte of a head. -/
def kindOf (b : UInt8) : Kind := .ofCode (b.toNat / 32)

/-- The last five bits of the first byte of a head. -/
def infoOf (b : UInt8) : Nat := b.toNat % 32

/-- The number of a head of the given kind. -/
def readHead (kind : Kind) : Reader Nat
  | [] => none
  | b :: rest => if kindOf b = kind then readNumber (infoOf b) rest else none

/-! ## Reading what was written -/

theorem takeBytes_append (content rest : Bytes) :
    takeBytes content.length (content ++ rest) = some (content, rest) := by
  simp [takeBytes]

theorem takeNumber_toBigEndian (width : Nat) {n : Nat} (h : n < 256 ^ width) (rest : Bytes) :
    takeNumber width (Bytes.toBigEndian width n ++ rest) = some (n, rest) := by
  have := takeBytes_append (Bytes.toBigEndian width n) rest
  rw [Bytes.length_toBigEndian] at this
  simp [takeNumber, this, Bytes.ofBigEndian_toBigEndian h]

theorem kindOf_firstByte (kind : Kind) {info : Nat} (h : info < 32) :
    kindOf (firstByte kind info) = kind ∧ infoOf (firstByte kind info) = info := by
  revert info
  cases kind <;> decide

/-- A head is read back, whatever follows it. -/
theorem readHead_head (kind : Kind) {n : Nat} (h : n < 2 ^ 64) (rest : Bytes) :
    readHead kind (head kind n ++ rest) = some (n, rest) := by
  have first {info : Nat} (hi : info < 32) (bytes : Bytes) :
      readHead kind (firstByte kind info :: bytes) = readNumber info bytes := by
    simp [readHead, kindOf_firstByte kind hi]
  unfold head
  split
  · next hn => simp [first (show n < 32 by omega), readNumber, hn]
  · split
    · next hn => simpa [first, readNumber] using takeNumber_toBigEndian 1 hn rest
    · split
      · next hn => simpa [first, readNumber] using takeNumber_toBigEndian 2 hn rest
      · split
        · next hn => simpa [first, readNumber] using takeNumber_toBigEndian 4 hn rest
        · simpa [first, readNumber] using takeNumber_toBigEndian 8 h rest

example : head .unsigned 23 = [0x17] ∧ head .negative 24 = [0x38, 24] := by decide
example : head .text 0x1234 = [0x79, 0x12, 0x34] := by decide
example : readHead .unsigned [0x1b, 0, 0, 0, 0, 0, 0, 0, 5, 7] = some (5, [7]) := by decide
example : readHead .array [0x9f] = none := by decide

end Stockroom.Cbor
