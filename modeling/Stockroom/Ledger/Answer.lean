import Stockroom.Identifier.Notation
import Stockroom.Json.Record

/-!
# Answers and notices

A request that moved stock is answered with the move and a status; the broker is told the move, the
item and the quantity. Both are JSON texts.
-/
namespace Stockroom

/-! ## Answers -/

/-- What the client is told. -/
structure MoveAnswer where
  move : String
  status : String
  deriving DecidableEq

namespace MoveAnswer

/-- The answer to a request that moved stock. -/
def ok (move : Identifier) : MoveAnswer := ⟨move.text, "ok"⟩

/-- The fields of an answer. -/
def layout : Json.Layout := ⟨"MoveResponse", [.plain "move_id", .plain "status"]⟩

/-- The answer as a JSON text. -/
def toJson (a : MoveAnswer) : String := String.ofList (layout.write [a.move, a.status])

/-- Read an answer from a JSON text. -/
def ofJson (s : String) : Except Json.Fault MoveAnswer := do
  match ← layout.read s with
  | [move, status] => return ⟨move, status⟩
  | _ => throw .malformed

end MoveAnswer

/-! ## Notices -/

/-- What the broker is told. Consumers tell notices apart by the move. -/
structure MoveNotice where
  move : String
  item : String
  quantity : String
  deriving DecidableEq

namespace MoveNotice

/-- The topic that notices of moves are published on. -/
def topic : String := "stock.moved"

/-- The fields of a notice. -/
def layout : Json.Layout :=
  ⟨"StockMovedEvent", [.plain "move_id", .plain "item_id", .plain "qty"]⟩

/-- The notice as a JSON text. -/
def toJson (n : MoveNotice) : String := String.ofList (layout.write [n.move, n.item, n.quantity])

/-- Read a notice from a JSON text. -/
def ofJson (s : String) : Except Json.Fault MoveNotice := do
  match ← layout.read s with
  | [move, item, quantity] => return ⟨move, item, quantity⟩
  | _ => throw .malformed

end MoveNotice

end Stockroom
