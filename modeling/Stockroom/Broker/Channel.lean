import Stockroom.Broker.Basic

/-!
# Broadcast channels

An in-process broker hands every message to everyone who has subscribed before it. It keeps the last
messages only, as many as its capacity: a receiver that falls further behind is told once how many
it has lost, and goes on with the oldest message kept. A message that nobody would receive is
rejected.
-/
namespace Stockroom

/-- A broker that keeps its last messages for its receivers. -/
structure Channel where
  capacity : Nat
  /-- How many messages have been taken. -/
  sent : Nat
  /-- The last messages taken, oldest first. -/
  kept : List Message
  /-- For each receiver how many of the messages taken are behind it; nothing once it has gone. -/
  receivers : List (Option Nat)

namespace Channel

/-- The capacity where none is asked for. -/
def defaultCapacity : Nat := 1024

/-- A channel for as many messages as asked for, rounded up to a power of two. There is none for no
  messages at all. -/
def create? (capacity : Nat) : Option Channel :=
  if capacity = 0 then none else some ⟨capacity.nextPowerOfTwo, 0, [], []⟩

/-- Subscribe. The new receiver has the next position. -/
def subscribe (c : Channel) : Nat × Channel :=
  (c.receivers.length, { c with receivers := c.receivers ++ [some c.sent] })

/-- Let a receiver go. -/
def unsubscribe (c : Channel) (receiver : Nat) : Channel :=
  { c with receivers := c.receivers.set receiver none }

/-- Whether anybody would receive a message. -/
def isHeard (c : Channel) : Bool := c.receivers.any Option.isSome

/-- Take a message. -/
def send (c : Channel) (m : Message) : Except PublishFault Unit × Channel :=
  if c.isHeard then
    let all := c.kept ++ [m]
    (.ok (), { c with sent := c.sent + 1, kept := all.drop (all.length - c.capacity) })
  else (.error (.rejected m.topic "no subscribers"), c)

instance : Broker Channel where
  publish m c :=
    let (outcome, c) := c.send m
    (.atOnce outcome, c)

/-- What a receiver gets. -/
inductive Delivery
  | message (m : Message)
  /-- So many messages are lost. -/
  | lagged (count : Nat)
  deriving DecidableEq

/-- The next delivery to a receiver, if there is one now. -/
def receive (c : Channel) (receiver : Nat) : Option (Delivery × Channel) := do
  let behind ← (c.receivers[receiver]?).bind id
  let oldest := c.sent - c.kept.length
  if behind < oldest then
    return (.lagged (oldest - behind), { c with receivers := c.receivers.set receiver (some oldest) })
  else
    let m ← c.kept[behind - oldest]?
    return (.message m, { c with receivers := c.receivers.set receiver (some (behind + 1)) })

/-- At most `count` deliveries to a receiver, as many as there are now. -/
def drainUpTo (c : Channel) (receiver : Nat) : (count : Nat) → List Delivery × Channel
  | 0 => ([], c)
  | count + 1 =>
    match c.receive receiver with
    | none => ([], c)
    | some (d, c) =>
      let (ds, c) := c.drainUpTo receiver count
      (d :: ds, c)

/-- Every delivery there is now for a receiver: the messages kept, and one more for those lost. -/
def drain (c : Channel) (receiver : Nat) : List Delivery × Channel :=
  c.drainUpTo receiver (c.kept.length + 1)

/-- Every delivery there is now, receiver by receiver. -/
def drainAll (c : Channel) : List (List Delivery) × Channel :=
  (List.range c.receivers.length).foldl
    (fun (all, c) receiver =>
      let (ds, c) := c.drain receiver
      (all ++ [ds], c))
    ([], c)

end Channel

end Stockroom
