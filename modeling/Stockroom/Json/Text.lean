import Stockroom.Bytes
import Stockroom.Json.Fault

/-!
# JSON strings

A string is written between double quotes with the shortest escapes: a letter for five controls, a
code for the other controls, and nothing else escaped but the quote and the backslash. It is read
with any escapes. Control characters must be escaped, and an escape that names half of a surrogate
pair must be followed by the other half.
-/
namespace Stockroom.Json

/-! ## Writing -/

/-- One character inside a string. -/
def escaped (c : Char) : List Char :=
  if c = '"' then ['\\', '"']
  else if c = '\\' then ['\\', '\\']
  else if c = '\x08' then ['\\', 'b']
  else if c = '\x0c' then ['\\', 'f']
  else if c = '\n' then ['\\', 'n']
  else if c = '\r' then ['\\', 'r']
  else if c = '\t' then ['\\', 't']
  else if c.toNat < 0x20 then
    ['\\', 'u', '0', '0', Bytes.hexDigit (c.toNat / 16), Bytes.hexDigit (c.toNat % 16)]
  else [c]

/-- A text as a JSON string. -/
def writeText (s : List Char) : List Char := '"' :: s.flatMap escaped ++ ['"']

/-! ## Escapes -/

/-- The value of four hexadecimal digits. -/
def hexValue4? (a b c d : Char) : Option Nat := do
  let a ← Bytes.hexValue? a
  let b ← Bytes.hexValue? b
  let c ← Bytes.hexValue? c
  let d ← Bytes.hexValue? d
  return ((a * 16 + b) * 16 + c) * 16 + d

/-- The number of bytes that characters take as UTF-8. -/
def utf8Size (cs : List Char) : Nat := cs.foldr (fun c size => c.utf8Size + size) 0

/-- A code unit: four hexadecimal digits. The text has ended too early if it has fewer than four
  bytes left, whatever they are. -/
def readUnit : Reader Nat
  | a :: b :: c :: d :: rest =>
    match hexValue4? a b c d with
    | some n => .ok (n, rest)
    | none => .error .malformed
  | cs => if utf8Size cs < 4 then .error .ended else .error .malformed

/-- The second half of a surrogate pair, written as an escape of its own. -/
def readLowSurrogate : Reader Nat
  | [] => .error .ended
  | '\\' :: [] => .error .ended
  | '\\' :: 'u' :: cs =>
    match readUnit cs with
    | .error e => .error e
    | .ok (n, rest) => if 0xdc00 ≤ n ∧ n < 0xe000 then .ok (n, rest) else .error .malformed
  | _ => .error .malformed

/-- The character of an escape that starts with `\u`, after these two characters. -/
def readCodePoint (cs : List Char) : Except Fault (Char × List Char) :=
  match readUnit cs with
  | .error e => .error e
  | .ok (n, rest) =>
    if 0xdc00 ≤ n ∧ n < 0xe000 then .error .malformed
    else if 0xd800 ≤ n ∧ n < 0xdc00 then
      match readLowSurrogate rest with
      | .error e => .error e
      | .ok (m, rest) => .ok (Char.ofNat (0x10000 + (n - 0xd800) * 0x400 + (m - 0xdc00)), rest)
    else .ok (Char.ofNat n, rest)

/-- The character of an escape, after its backslash. -/
def readEscape : Reader Char
  | [] => .error .ended
  | '"' :: rest => .ok ('"', rest)
  | '\\' :: rest => .ok ('\\', rest)
  | '/' :: rest => .ok ('/', rest)
  | 'b' :: rest => .ok ('\x08', rest)
  | 'f' :: rest => .ok ('\x0c', rest)
  | 'n' :: rest => .ok ('\n', rest)
  | 'r' :: rest => .ok ('\r', rest)
  | 't' :: rest => .ok ('\t', rest)
  | 'u' :: rest => readCodePoint rest
  | _ => .error .malformed

/-! ## Every reader takes something -/

theorem readUnit_length {cs rest : List Char} {n : Nat} (h : readUnit cs = .ok (n, rest)) :
    rest.length < cs.length := by
  unfold readUnit at h
  split at h
  · split at h
    · injection h with h
      injection h with _ h
      subst h
      simp only [List.length_cons]
      omega
    · cases h
  · split at h <;> cases h

theorem readLowSurrogate_length {cs rest : List Char} {n : Nat}
    (h : readLowSurrogate cs = .ok (n, rest)) : rest.length < cs.length := by
  unfold readLowSurrogate at h
  split at h
  · cases h
  · cases h
  · split at h
    · cases h
    · next hu =>
      split at h
      · injection h with h
        injection h with _ h
        subst h
        have := readUnit_length hu
        simp only [List.length_cons]
        omega
      · cases h
  · cases h

theorem readCodePoint_length {cs rest : List Char} {c : Char}
    (h : readCodePoint cs = .ok (c, rest)) : rest.length < cs.length := by
  unfold readCodePoint at h
  split at h
  · cases h
  · next hu =>
    have := readUnit_length hu
    split at h
    · cases h
    · split at h
      · split at h
        · cases h
        · next hl =>
          have := readLowSurrogate_length hl
          injection h with h
          injection h with _ h
          subst h
          omega
      · injection h with h
        injection h with _ h
        subst h
        omega

theorem readEscape_length {cs rest : List Char} {c : Char} (h : readEscape cs = .ok (c, rest)) :
    rest.length < cs.length := by
  unfold readEscape at h
  split at h
  case h_10 =>
    have := readCodePoint_length h
    simp only [List.length_cons]
    omega
  all_goals cases h
  all_goals simp

/-! ## Reading -/

/-- The characters of a string up to its closing quote, after the opening one. -/
def readChars (cs : List Char) : Except Fault (List Char × List Char) :=
  match cs with
  | [] => .error .ended
  | '"' :: rest => .ok ([], rest)
  | '\\' :: escape =>
    match _h : readEscape escape with
    | .error e => .error e
    | .ok (c, rest) => (readChars rest).map fun (s, rest) => (c :: s, rest)
  | c :: rest =>
    if c.toNat < 0x20 then .error .malformed
    else (readChars rest).map fun (s, rest) => (c :: s, rest)
termination_by cs.length
decreasing_by
  · have := readEscape_length _h
    simp only [List.length_cons]
    omega
  · simp

/-- Characters that may stand between the tokens of a JSON text. -/
def isBlank (c : Char) : Bool := c == ' ' || c == '\t' || c == '\n' || c == '\r'

/-- What follows the blanks at the front. -/
def dropBlank (cs : List Char) : List Char := cs.dropWhile isBlank

example : writeText ['a', '"', '\n', '\x01'] =
    ['"', 'a', '\\', '"', '\\', 'n', '\\', 'u', '0', '0', '0', '1', '"'] := by decide

end Stockroom.Json
