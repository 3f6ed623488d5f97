import Stockroom.Cbor.Scalar
import Stockroom.Cbor.Skip

/-!
# Records as CBOR arrays

A record is an array with one element for each field, in a fixed order. An optional field that is
absent is null, and the array ends after the last field that is present. A reader takes the array
with a count or with a break at its end, treats a missing or null element as an absent field where
the field is optional, and passes over elements it does not know.
-/
namespace Stockroom.Cbor

/-! ## Writing -/

/-- The item that stands for an absent field. -/
def null : UInt8 := 0xf6

/-- Fields without the absent ones at the end. -/
def trimAbsent (fields : List (Option Bytes)) : List (Option Bytes) :=
  fields.foldr (fun f rest => if rest.isEmpty && f.isNone then [] else f :: rest) []

/-- An array of items. -/
def array (items : List Bytes) : Bytes := head .array items.length ++ items.flatten

/-- The record with these fields. -/
def record (fields : List (Option Bytes)) : Bytes :=
  array ((trimAbsent fields).map (·.getD [null]))

/-! ## Reading -/

/-- What is left of an array: how many elements, if that is known, and the bytes from the next
  element on. -/
structure Elements where
  /-- The count of elements left, or nothing where a break ends them. -/
  left : Option Nat
  bytes : Bytes

/-- Where to read the next element and how many are left after it; nothing where there is none. -/
def Elements.next (e : Elements) : Option (Option Nat) :=
  match e.left with
  | some 0 => none
  | some (n + 1) => some (some n)
  | none => if e.bytes.head? = some 0xff then none else some none

/-- Reads the fields of a record one after the other. -/
abbrev Fields (α : Type) := StateT Elements Option α

/-- A field that must be there. -/
def required {α : Type} (read : Reader α) : Fields α := fun e => do
  let left ← e.next
  let (a, rest) ← read e.bytes
  return (a, ⟨left, rest⟩)

/-- A field that may be missing or null. -/
def optional {α : Type} (read : Reader α) : Fields (Option α) := fun e =>
  match e.next with
  | none => some (none, e)
  | some left =>
    match e.bytes with
    | b :: rest =>
      if b = null then some (none, ⟨left, rest⟩)
      else (read e.bytes).map fun (a, rest) => (some a, ⟨left, rest⟩)
    | [] => none

/-- The elements of the array at the front of some bytes. -/
def openArray (bytes : Bytes) : Option Elements :=
  match bytes with
  | [] => none
  | b :: rest =>
    if b = 0x9f then some ⟨none, rest⟩
    else (readHead .array bytes).map fun (n, rest) => ⟨some n, rest⟩

/-- The bytes after the array. Each element that is left is passed over on its own. -/
def Elements.close (e : Elements) : Option Bytes :=
  match e.left with
  | some n => skipItems n e.bytes
  | none => skipToBreak e.bytes.length e.bytes

/-- The record whose fields are read in this way. -/
def readRecord {α : Type} (fields : Fields α) : Reader α := fun bytes => do
  let e ← openArray bytes
  let (a, e) ← fields e
  return (a, ← e.close)

example : record [some [1], none, some [2], none] = [0x83, 1, null, 2] := by decide

end Stockroom.Cbor
