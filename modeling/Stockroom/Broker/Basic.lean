import Stockroom.Fault

/-!
# Brokers

A broker takes a message under a topic and lets the sender know, sooner or later or never, whether
it has it. What it remembers between messages is its state.
-/
namespace Stockroom

/-- What is published. -/
structure Message where
  topic : String
  payload : Bytes
  deriving DecidableEq

/-- How a broker takes one message. -/
structure Reply where
  /-- How long the sender waits for it; nothing where it never comes. -/
  after : Option Duration
  outcome : Except PublishFault Unit
  /-- How long the storage calls that follow take, in order, as far as they take any time; nothing
    where one never ends. A broker in trouble is seldom alone. -/
  storage : List (Option Duration)

/-- A kind of broker, by what it remembers. -/
class Broker (β : Type) where
  /-- Take a message. -/
  publish : Message → β → Reply × β

/-- Either of two kinds of broker. -/
instance {β γ : Type} [Broker β] [Broker γ] : Broker (β ⊕ γ) where
  publish m
    | .inl b => (Broker.publish m b).map id .inl
    | .inr c => (Broker.publish m c).map id .inr

/-- A reply at once. -/
def Reply.atOnce (outcome : Except PublishFault Unit) : Reply := ⟨some .zero, outcome, []⟩

end Stockroom
