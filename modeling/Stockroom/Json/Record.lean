import Stockroom.Json.Skip

/-!
# Records of texts as JSON

A record whose fields are all texts is written as an object with its fields in order. It is read
from an object with the fields in any order, under their names or second names and among fields
nobody asked for, or from an array with the fields in order.

Faults are met in reading order: a fault of shape that comes first hides a broken end.
-/
namespace Stockroom.Json

/-- One field of a record. -/
structure Field where
  name : String
  /-- A second name the field may be given under. -/
  alias? : Option String
  /-- The value where the field is missing, if it may be. -/
  fallback : Option String

/-- A record of texts. -/
structure Layout where
  name : String
  fields : List Field

/-- A field that must be given, under its name. -/
def Field.plain (name : String) : Field := ⟨name, none, none⟩

/-! ## Writing -/

/-- One member of an object. -/
def writeMember (field : Field) (value : String) : List Char :=
  writeText field.name.toList ++ ':' :: writeText value.toList

/-- The record with these values, one for each field. -/
def Layout.write (layout : Layout) (values : List String) : List Char :=
  '\x7b' :: [','].intercalate (List.zipWith writeMember layout.fields values) ++ ['\x7d']

/-! ## Values -/

/-- Name a value that stands where another is expected. -/
def readFound (cs : List Char) : Except Fault (Found × List Char) :=
  match cs with
  | [] => .error .ended
  | 'n' :: rest => (expect ['u', 'l', 'l'] rest).map (.null, ·)
  | 't' :: rest => (expect ['r', 'u', 'e'] rest).map (.boolean true, ·)
  | 'f' :: rest => (expect ['a', 'l', 's', 'e'] rest).map (.boolean false, ·)
  | '"' :: rest => (readChars rest).map fun (s, rest) => (.string (String.ofList s), rest)
  | '-' :: rest => readNumber true rest
  | '[' :: rest => .ok (.sequence, rest)
  | '\x7b' :: rest => .ok (.map, rest)
  | c :: rest =>
    if (Text.digitValue? c).isSome then readNumber false (c :: rest) else .error .malformed

/-- The fault of a value that stands where another is expected: its own, or its being there. -/
def mismatch (expected : Expected) (cs : List Char) : Fault :=
  match readFound cs with
  | .ok (found, _) => .shape (.wrongType found expected)
  | .error e => e

/-- Read a text. -/
def readText (cs : List Char) : Except Fault (String × List Char) :=
  match dropBlank cs with
  | '"' :: rest => (readChars rest).map fun (s, rest) => (String.ofList s, rest)
  | cs => .error (mismatch .string cs)

/-! ## Objects -/

/-- The values of the fields met so far, in the order of the fields. -/
abbrev Slots := List (Option String)

/-- The position of the field that a key names. -/
def Layout.find? (layout : Layout) (key : String) : Option Nat :=
  layout.fields.findIdx? fun f => f.name = key ∨ f.alias? = some key

/-- The value of a field that has not been met. -/
def Field.missing (f : Field) : Except Fault String :=
  match f.fallback with
  | some value => .ok value
  | none => .error (.shape (.missingField f.name))

/-- The values of all fields once the object has been read. -/
def Layout.complete (layout : Layout) (slots : Slots) : Except Fault (List String) :=
  (layout.fields.zip slots).mapM fun (f, slot) =>
    match slot with
    | some value => .ok value
    | none => f.missing

/-- Read the value of a member after its key: the text of a known field, or whatever there is. A
  known field that has been met before is refused before its value is looked at. -/
def Layout.readMember (layout : Layout) (slots : Slots) (key : String) (cs : List Char) :
    Except Fault (Slots × List Char) :=
  match layout.find? key with
  | none => do
    let rest ← skip (← expectColon cs)
    return (slots, rest)
  | some i =>
    if ((slots[i]?).bind id).isSome then
      .error (.shape (.duplicateField ((layout.fields[i]?).elim key Field.name)))
    else do
      let (value, rest) ← readText (← expectColon cs)
      return (slots.set i (some value), rest)

/-- Read the members of an object from a key on, and its end. -/
def Layout.readMembers (layout : Layout) :
    (fuel : Nat) → Slots → List Char → Except Fault (Slots × List Char)
  | 0, _, _ => .error .ended
  | fuel + 1, slots, cs =>
    match dropBlank cs with
    | [] => .error .ended
    | '"' :: key => do
      let (key, rest) ← readChars key
      let (slots, rest) ← layout.readMember slots (String.ofList key) rest
      match dropBlank rest with
      | [] => .error .ended
      | ',' :: rest => layout.readMembers fuel slots rest
      | '\x7d' :: rest => .ok (slots, rest)
      | _ => .error .malformed
    | _ => .error .malformed

/-- Read an object after its opening brace. -/
def Layout.readObject (layout : Layout) (cs : List Char) :
    Except Fault (List String × List Char) := do
  let slots : Slots := layout.fields.map fun _ => none
  let (slots, rest) ←
    match dropBlank cs with
    | '\x7d' :: rest => .ok (slots, rest)
    | _ => layout.readMembers (cs.length + 1) slots cs
  return (← layout.complete slots, rest)

/-! ## Arrays -/

/-- Take what stands before the next element: nothing before the first, a comma before the others.
  Where the array ends instead, nothing is left to read. -/
def nextElement (first : Bool) (cs : List Char) : Except Fault (Option (List Char)) :=
  match dropBlank cs with
  | [] => .error .ended
  | ']' :: _ => .ok none
  | ',' :: rest =>
    if first then .ok (some (',' :: rest))
    else
      match dropBlank rest with
      | [] => .error .ended
      | ']' :: _ => .error .malformed
      | rest => .ok (some rest)
  | cs => if first then .ok (some cs) else .error .malformed

/-- Read the elements for some fields. `index` fields come before them. -/
def Layout.readElements (layout : Layout) :
    (index : Nat) → List Field → List Char → Except Fault (List String × List Char)
  | _, [], cs => .ok ([], cs)
  | index, f :: fields, cs => do
    match ← nextElement (index = 0) cs with
    | some rest =>
      let (value, rest) ← readText rest
      let (values, rest) ← layout.readElements (index + 1) fields rest
      return (value :: values, rest)
    | none =>
      match f.fallback with
      | none => .error (.shape (.tooShort index layout.name layout.fields.length))
      | some value =>
        let (values, rest) ← layout.readElements (index + 1) fields cs
        return (value :: values, rest)

/-- Take the end of an array. -/
def closeArray (cs : List Char) : Except Fault (List Char) :=
  match dropBlank cs with
  | [] => .error .ended
  | ']' :: rest => .ok rest
  | _ => .error .malformed

/-- Read an array after its opening bracket. -/
def Layout.readArray (layout : Layout) (cs : List Char) :
    Except Fault (List String × List Char) := do
  let (values, rest) ← layout.readElements 0 layout.fields cs
  return (values, ← closeArray rest)

/-! ## Whole texts -/

/-- Refuse anything but blanks. -/
def atEnd (cs : List Char) : Except Fault Unit :=
  if (dropBlank cs).isEmpty then .ok () else .error .malformed

/-- Read a text that holds one record and nothing else. -/
def Layout.read (layout : Layout) (s : String) : Except Fault (List String) := do
  let (values, rest) ←
    match dropBlank s.toList with
    | '\x7b' :: cs => layout.readObject cs
    | '[' :: cs => layout.readArray cs
    | cs => .error (mismatch (.record layout.name) cs)
  atEnd rest
  return values

end Stockroom.Json
