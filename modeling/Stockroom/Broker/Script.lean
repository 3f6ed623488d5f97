import Stockroom.Broker.Basic

/-!
# Scripted brokers

A broker that follows a script, one turn for each message, and accepts every message once the script
is over. It is what a relay is tried out on.
-/
namespace Stockroom

/-- How a turn ends. -/
inductive Script.Ending
  | accepted
  | rejected (reason : String)
  | unreachable (reason : String)
  deriving DecidableEq

/-- What the broker does with one message. -/
structure Script.Turn where
  /-- How long it sleeps before it answers; nothing where it never answers. -/
  after : Option Duration
  ending : Ending
  /-- Whether the storage call after it does not finish in time. -/
  stalls : Bool

/-- The turns still to come. -/
structure Script where
  turns : List Script.Turn

namespace Script

/-- How a turn ends for a message on a topic. -/
def Ending.outcome (topic : String) : Ending → Except PublishFault Unit
  | .accepted => .ok ()
  | .rejected reason => .error (.rejected topic reason)
  | .unreachable reason => .error (.unreachable reason)

/-- A message accepted at once. -/
def Turn.plain : Turn := ⟨some .zero, .accepted, false⟩

/-- What a turn means for a message. -/
def Turn.reply (t : Turn) (m : Message) : Reply :=
  ⟨t.after.map Duration.slept, t.ending.outcome m.topic, if t.stalls then [none] else []⟩

instance : Broker Script where
  publish m s := ((s.turns.headD .plain).reply m, ⟨s.turns.tail⟩)

end Script

end Stockroom
