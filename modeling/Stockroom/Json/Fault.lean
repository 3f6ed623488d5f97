import Stockroom.Text.Quoted

/-!
# Faults of JSON texts

A text may break the grammar, end too early, or be a JSON text of another shape than the one asked
for. Reading stops at the first fault that is met.
-/
namespace Stockroom.Json

/-- A value where another kind of value was expected. Numbers are kept as the text that shows
  them. -/
inductive Found
  | integer (shown : String)
  | floating (shown : String)
  | boolean (value : Bool)
  | null
  | sequence
  | map
  | string (value : String)
  deriving DecidableEq

/-- A value in words. -/
def Found.text : Found → String
  | integer shown => "integer `" ++ shown ++ "`"
  | floating shown => "floating point `" ++ shown ++ "`"
  | boolean true => "boolean `true`"
  | boolean false => "boolean `false`"
  | null => "null"
  | sequence => "sequence"
  | map => "map"
  | string value => "string " ++ Text.quoted value

/-- What a value of the right shape would be. -/
inductive Expected
  | string
  | record (name : String)
  deriving DecidableEq

/-- The right shape in words. -/
def Expected.text : Expected → String
  | string => "a string"
  | record name => "struct " ++ name

/-- How a text departs from the shape asked for. -/
inductive Mismatch
  /-- A record lacks a field. -/
  | missingField (name : String)
  /-- A record holds a field twice. -/
  | duplicateField (name : String)
  /-- A record written as an array ends after `found` of its `fields` fields. -/
  | tooShort (found : Nat) (record : String) (fields : Nat)
  | wrongType (found : Found) (expected : Expected)
  deriving DecidableEq

/-- A departure from the shape in words. -/
def Mismatch.text : Mismatch → String
  | missingField name => "missing field `" ++ name ++ "`"
  | duplicateField name => "duplicate field `" ++ name ++ "`"
  | tooShort found record fields =>
    "invalid length " ++ toString found ++ ", expected struct " ++ record ++ " with " ++
      toString fields ++ " elements"
  | wrongType found expected =>
    "invalid type: " ++ found.text ++ ", expected " ++ expected.text

/-- Why a text could not be read. -/
inductive Fault
  /-- The text breaks the grammar. -/
  | malformed
  /-- The text ends too early. -/
  | ended
  /-- The text has another shape than the one asked for. -/
  | shape (why : Mismatch)
  deriving DecidableEq

/-- A fault in words. -/
def Fault.text : Fault → String
  | malformed => "the text is not JSON"
  | ended => "the text ends too early"
  | shape why => why.text

/-- A reader takes a value off the front of some characters, or names the fault. -/
abbrev Reader (α : Type) := List Char → Except Fault (α × List Char)

end Stockroom.Json
