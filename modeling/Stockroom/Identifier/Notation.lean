import Stockroom.Identifier.Basic
import Stockroom.Text.Blank
import Stockroom.Text.Quoted

/-!
# Written identifiers

An identifier is written as 32 small hexadecimal digits with hyphens after the 8th, 12th, 16th and
20th. It is read from that form, from the digits alone, from the hyphenated form in braces and from
that form after `urn:uuid:`, with digits of either case. The length of the text in bytes decides
which of the four is meant; after that the first character out of place is the fault.
-/
namespace Stockroom.Identifier

/-! ## Writing -/

/-- What may stand at one place of a written identifier. -/
inductive Place
  | digit
  | hyphen
  deriving DecidableEq

/-- The places of the plain form. -/
def plainPlaces : List Place := List.replicate 32 .digit

/-- The places of the hyphenated form: 8, 4, 4, 4 and 12 digits. -/
def hyphenatedPlaces : List Place :=
  List.replicate 8 .digit ++ .hyphen :: (List.replicate 4 .digit ++ .hyphen ::
    (List.replicate 4 .digit ++ .hyphen :: (List.replicate 4 .digit ++ .hyphen ::
      List.replicate 12 .digit)))

/-- Lay digits out over places; hyphens come from the places. -/
def layOut : List Place → List Char → List Char
  | [], _ => []
  | .hyphen :: places, digits => '-' :: layOut places digits
  | .digit :: places, c :: digits => c :: layOut places digits
  | .digit :: _, [] => []

/-- The hyphenated form. -/
def textChars (id : Identifier) : List Char :=
  layOut hyphenatedPlaces (Bytes.toHexChars id.bytes)

/-- The hyphenated form. -/
def text (id : Identifier) : String :=
  String.ofList id.textChars

instance : ToString Identifier := ⟨text⟩

/-! ## Reading -/

/-- Why a text is not an identifier. -/
inductive Malformed
  /-- No form has this length, or what encloses the hyphenated form is wrong. -/
  | form
  /-- This character stands where a hexadecimal digit must. -/
  | digit (found : Char)
  /-- This character stands where a hyphen must. -/
  | hyphen (found : Char)
  deriving DecidableEq

/-- The fault in words. -/
def Malformed.message (m : Malformed) : String :=
  "could not parse string as UUID: " ++
    match m with
    | .form => "invalid length or unsupported format"
    | .digit c => "invalid hex digit " ++ Text.quotedChar c ++ " found"
    | .hyphen c => "expected '-' not found but " ++ Text.quotedChar c

/-- The digits of a text laid out over places. -/
def digitsAt : List Place → List Char → Except Malformed (List Char)
  | [], _ => .ok []
  | _ :: _, [] => .error .form
  | .hyphen :: places, c :: cs => if c = '-' then digitsAt places cs else .error (.hyphen c)
  | .digit :: places, c :: cs =>
    if (Bytes.hexValue? c).isSome then (c :: ·) <$> digitsAt places cs else .error (.digit c)

/-- The identifier that a text spells over places. -/
def readAt (places : List Place) (cs : List Char) : Except Malformed Identifier := do
  let digits ← digitsAt places cs
  match (Bytes.ofHexChars? digits).bind ofBytes? with
  | some id => return id
  | none => throw .form

/-- A text without the character that opens and the one that closes it. -/
def unwrapped? (opening closing : Char) : List Char → Option (List Char)
  | [] => none
  | c :: cs =>
    if c = opening ∧ cs.getLast? = some closing then some cs.dropLast else none

/-- What stands before the hyphenated form in its longest spelling. -/
def urnLead : List Char := ['u', 'r', 'n', ':', 'u', 'u', 'i', 'd', ':']

/-- Read an identifier in any of its four forms. -/
def read (s : String) : Except Malformed Identifier :=
  let cs := s.toList
  match s.utf8ByteSize with
  | 32 => readAt plainPlaces cs
  | 36 => readAt hyphenatedPlaces cs
  | 38 =>
    match unwrapped? '\x7b' '\x7d' cs with
    | some inner => readAt hyphenatedPlaces inner
    | none => .error .form
  | 45 =>
    if (cs.take 9).map Char.toLower = urnLead then readAt hyphenatedPlaces (cs.drop 9)
    else .error .form
  | _ => .error .form

example : (fresh 0 0).text = "00000000-0000-7000-8000-000000000000" := by decide
example : (read "0000000000007000800000000000000A").toOption = some (fresh 0 10) := by
  decide +kernel
example : (read "0000000000007000800000000000000g").toOption = none := by decide +kernel

end Stockroom.Identifier
