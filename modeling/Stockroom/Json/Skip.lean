import Stockroom.Json.Number
import Stockroom.Json.Text

/-!
# Skipping JSON values

The value of a field nobody asked for is passed over, however deeply it is nested. Its grammar is
checked, except that an escape may name half of a surrogate pair. Every step takes a character or
opens what a character announced, so twice the length of the text bounds the depth of the work.
-/
namespace Stockroom.Json

/-- Pass over an escape, after its backslash. -/
def skipEscape : List Char → Except Fault (List Char)
  | [] => .error .ended
  | 'u' :: rest => (readUnit rest).map (·.2)
  | c :: rest =>
    if c ∈ ['"', '\\', '/', 'b', 'f', 'n', 'r', 't'] then .ok rest else .error .malformed

theorem skipEscape_length {cs rest : List Char} (h : skipEscape cs = .ok rest) :
    rest.length < cs.length := by
  unfold skipEscape at h
  split at h
  · cases h
  · next unit =>
    cases hu : readUnit unit with
    | error e => rw [hu] at h; cases h
    | ok p =>
      rw [hu] at h
      cases h
      have := readUnit_length hu
      simp only [List.length_cons]
      omega
  · split at h
    · cases h
      simp
    · cases h

/-- Pass over a string, after its opening quote. -/
def skipChars (cs : List Char) : Except Fault (List Char) :=
  match cs with
  | [] => .error .ended
  | '"' :: rest => .ok rest
  | '\\' :: escape =>
    match _h : skipEscape escape with
    | .error e => .error e
    | .ok rest => skipChars rest
  | c :: rest => if c.toNat < 0x20 then .error .malformed else skipChars rest
termination_by cs.length
decreasing_by
  · have := skipEscape_length _h
    simp only [List.length_cons]
    omega
  · simp

/-- Take the rest of a word that has begun. -/
def expect : List Char → List Char → Except Fault (List Char)
  | [], cs => .ok cs
  | _ :: _, [] => .error .ended
  | w :: word, c :: cs => if w = c then expect word cs else .error .malformed

/-- Take a colon. -/
def expectColon (cs : List Char) : Except Fault (List Char) :=
  match dropBlank cs with
  | ':' :: rest => .ok rest
  | [] => .error .ended
  | _ => .error .malformed

mutual

/-- Pass over one value. -/
def skipValue : (fuel : Nat) → List Char → Except Fault (List Char)
  | 0, _ => .error .ended
  | fuel + 1, cs =>
    match dropBlank cs with
    | [] => .error .ended
    | 'n' :: rest => expect ['u', 'l', 'l'] rest
    | 't' :: rest => expect ['r', 'u', 'e'] rest
    | 'f' :: rest => expect ['a', 'l', 's', 'e'] rest
    | '"' :: rest => skipChars rest
    | '-' :: rest => skipNumber rest
    | '[' :: rest =>
      match dropBlank rest with
      | ']' :: rest => .ok rest
      | rest => skipElements fuel rest
    | '\x7b' :: rest =>
      match dropBlank rest with
      | '\x7d' :: rest => .ok rest
      | rest => skipMembers fuel rest
    | c :: rest =>
      if (Text.digitValue? c).isSome then skipNumber (c :: rest) else .error .malformed

/-- Pass over the elements of an array, of which there is one at least, and its end. -/
def skipElements : (fuel : Nat) → List Char → Except Fault (List Char)
  | 0, _ => .error .ended
  | fuel + 1, cs =>
    match skipValue fuel cs with
    | .error e => .error e
    | .ok rest =>
      match dropBlank rest with
      | [] => .error .ended
      | ',' :: rest => skipElements fuel rest
      | ']' :: rest => .ok rest
      | _ => .error .malformed

/-- Pass over the members of an object, of which there is one at least, and its end. -/
def skipMembers : (fuel : Nat) → List Char → Except Fault (List Char)
  | 0, _ => .error .ended
  | fuel + 1, cs =>
    match dropBlank cs with
    | [] => .error .ended
    | '"' :: key =>
      match (skipChars key).bind expectColon with
      | .error e => .error e
      | .ok value =>
        match skipValue fuel value with
        | .error e => .error e
        | .ok rest =>
          match dropBlank rest with
          | [] => .error .ended
          | ',' :: rest => skipMembers fuel rest
          | '\x7d' :: rest => .ok rest
          | _ => .error .malformed
    | _ => .error .malformed

end

/-- Pass over the value at the front. -/
def skip (cs : List Char) : Except Fault (List Char) := skipValue (2 * cs.length + 2) cs

example : (skip "[\x7b\"a\": [1e5, null]\x7d, \"\\ud800\"] x".toList).toOption = some [' ', 'x'] := by
  decide +kernel
example : (skip "[1,]".toList).toOption = none := by decide +kernel

end Stockroom.Json
