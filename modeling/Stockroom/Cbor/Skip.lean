import Stockroom.Cbor.Head

/-!
# Skipping CBOR items

Items that a reader does not know are passed over, however deeply they are nested. What is still to
come is only counted, items and breaks apart, until an array or map without a count opens while
further items are awaited around it; from then on every open array and map is remembered. The
counts do not say in which order items and breaks come. So an item is passed over whole, and some
bytes that do not nest pass for one too: `9f 82 ff` announces two elements inside an array and goes
on with the break of that array.

Each step takes at least one byte, so the number of bytes bounds the work.
-/
namespace Stockroom.Cbor

/-! ## What is still to come -/

/-- What is still to come until everything that has been opened is complete. -/
inductive Pending
  /-- So many items and so many breaks. -/
  | counted (items breaks : Nat)
  /-- What each open array or map waits for, the innermost first: so many items, or a break. -/
  | nested (waits : List (Option Nat))
  deriving DecidableEq

namespace Pending

/-- Whether nothing is to come. -/
def isDone : Pending → Bool
  | counted items breaks => items = 0 && breaks = 0
  | nested waits => waits.isEmpty

/-- So many items more are announced. -/
def announce (n : Nat) : Pending → Pending
  | counted items breaks => counted (items + n) breaks
  | nested waits => nested (some n :: waits)

/-- Items up to a break are announced. If the item that announces them is not the last one counted,
  the breaks counted so far wait outside of the items that remain. -/
def announceUntilBreak : Pending → Pending
  | counted items breaks =>
    if items < 2 then counted items (breaks + 1)
    else nested (none :: some (items - 1) :: List.replicate breaks none)
  | nested waits => nested (none :: waits)

/-- A break. One that nothing waits for is let pass. -/
def takeBreak : Pending → Pending
  | counted items breaks => counted items (breaks - 1)
  | nested (none :: waits) => nested waits
  | p => p

/-- One item fewer to come. Arrays and maps that wait for nothing any more are closed first. -/
def takeItem : Pending → Pending
  | counted items breaks => counted (items - 1) breaks
  | nested waits =>
    match waits.dropWhile (· = some 0) with
    | some (n + 1) :: outer => nested (some n :: outer)
    | outer => nested outer

end Pending

/-! ## Strings -/

/-- Pass over the content of a string, which for a text must be UTF-8. -/
def skipContent (kind : Kind) (info : Nat) (bytes : Bytes) : Option Bytes := do
  let (length, rest) ← readNumber info bytes
  let (content, rest) ← takeBytes length rest
  if kind = .text then (Bytes.toText? content).map fun _ => rest else return rest

/-- Pass over strings of one kind and of known length up to a break, and over the break, in at most
  `fuel` steps. -/
def skipChunks (kind : Kind) : (fuel : Nat) → Bytes → Option Bytes
  | 0, _ => none
  | _ + 1, [] => none
  | fuel + 1, b :: rest =>
    if b = 0xff then some rest
    else if kindOf b = kind then (skipContent kind (infoOf b) rest).bind (skipChunks kind fuel)
    else none

/-- Pass over a string after the first byte of its head. -/
def skipString (kind : Kind) (info : Nat) (bytes : Bytes) : Option Bytes :=
  if info = 31 then skipChunks kind bytes.length bytes else skipContent kind info bytes

/-! ## Items -/

/-- Pass over one head, and over the content of a string. A tag belongs to the item after it, and a
  break counts as an item. -/
def skipHead (p : Pending) (b : UInt8) (bytes : Bytes) : Option (Pending × Bytes) :=
  let info := infoOf b
  match kindOf b with
  | .unsigned | .negative => (readNumber info bytes).map fun (_, rest) => (p.takeItem, rest)
  | .bytes | .text => (skipString (kindOf b) info bytes).map (p.takeItem, ·)
  | .array =>
    if info = 31 then some (p.announceUntilBreak.takeItem, bytes)
    else (readNumber info bytes).map fun (n, rest) => ((p.announce n).takeItem, rest)
  | .map =>
    if info = 31 then some (p.announceUntilBreak.takeItem, bytes)
    else (readNumber info bytes).map fun (n, rest) => ((p.announce (2 * n)).takeItem, rest)
  | .tag => (readNumber info bytes).map fun (_, rest) => (p, rest)
  | .simple =>
    if info = 31 then some (p.takeBreak.takeItem, bytes)
    else (readNumber info bytes).map fun (_, rest) => (p.takeItem, rest)

/-- Pass over all that is still to come, in at most `fuel` steps. -/
def skipPending : (fuel : Nat) → Pending → Bytes → Option Bytes
  | fuel, p, bytes =>
    if p.isDone then some bytes
    else
      match fuel, bytes with
      | fuel + 1, b :: rest =>
        (skipHead p b rest).bind fun (p, rest) => skipPending fuel p rest
      | _, _ => none

/-- Pass over one item. -/
def skipItem (bytes : Bytes) : Option Bytes := skipPending bytes.length (.counted 1 0) bytes

/-- Pass over `count` items, one after the other. -/
def skipItems : (count : Nat) → Bytes → Option Bytes
  | 0, bytes => some bytes
  | count + 1, bytes => (skipItem bytes).bind (skipItems count)

/-- Pass over items up to a break, and over the break, in at most `fuel` steps. -/
def skipToBreak : (fuel : Nat) → Bytes → Option Bytes
  | 0, _ => none
  | _ + 1, [] => none
  | fuel + 1, b :: rest =>
    if b = 0xff then some rest else (skipItem (b :: rest)).bind (skipToBreak fuel)

example : skipItem [0x82, 0x9f, 0xbf, 0x01, 0xa0, 0xff, 0xff, 0xc1, 0x61, 0x61, 7] = some [7] := by
  decide +kernel
example : skipItem [0x9f, 0x82, 0xff, 7] = some [7] := by decide +kernel
example : skipItem [0x82, 0x9f, 0x81, 0xff, 0x00, 7] = none := by decide +kernel
example : skipItem [0x7f, 0x41, 0x61, 0xff] = none := by decide +kernel

end Stockroom.Cbor
