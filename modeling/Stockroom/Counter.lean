/-!
# Counters

A counter gives out ascending numbers for as long as a database lives. Numbers are reserved in
blocks, so opening a database anew skips those that might have been given out.
-/
namespace Stockroom

/-- The next number to give out, and the last one given out so far. -/
structure Counter where
  next : Nat
  last? : Option Nat

namespace Counter

/-- A counter that has given nothing out. -/
def start : Counter := ⟨0, none⟩

/-- How many numbers are reserved at a time. -/
def block : Nat := 1000000

/-- Give out a number. -/
def take (c : Counter) : UInt64 × Counter := (UInt64.ofNat c.next, ⟨c.next + 1, some c.next⟩)

/-- The start of the last block that a number has been given out from, or the first one. -/
def mark (c : Counter) : Nat :=
  match c.last? with
  | some n => n / block * block
  | none => 0

/-- Go on two blocks after the last one in use. -/
def reopen (c : Counter) : Counter := { c with next := c.mark + 2 * block }

example : (start.take.2.reopen.take.2.reopen.take).1 = 4000000 := by decide
example : (start.take.2.reopen.reopen.take).1 = 2000000 := by decide

end Counter

end Stockroom
