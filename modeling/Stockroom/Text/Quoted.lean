import Stockroom.Text.Visible

/-!
# Texts quoted in messages

Messages show a submitted text between quotation marks in a form that fits on one line: quotes,
backslashes and the common controls get a backslash, and every other unseen character is named by
its code point. Seen characters stand for themselves, so a quoted text can be read back.
-/
namespace Stockroom.Text

/-- The code point of a character in braces, as in `\u{1f4a9}`: small hexadecimal digits and
  no leading zeros. -/
def codePoint (c : Char) : List Char :=
  ['\\', 'u', '\x7b'] ++ Nat.toDigits 16 c.toNat ++ ['\x7d']

/-- One character inside quotes of the kind `quote`, which is the only kind that needs escaping
  there. -/
def quotedBy (quote : Char) (c : Char) : List Char :=
  if c == quote || c == '\\' then ['\\', c]
  else if c == '\x00' then ['\\', '0']
  else if c == '\t' then ['\\', 't']
  else if c == '\n' then ['\\', 'n']
  else if c == '\r' then ['\\', 'r']
  else if isVisible c then [c]
  else codePoint c

/-- A text between double quotes. -/
def quoted (s : String) : String :=
  String.ofList ('"' :: s.toList.flatMap (quotedBy '"') ++ ['"'])

/-- A character between single quotes. -/
def quotedChar (c : Char) : String :=
  String.ofList ('\'' :: quotedBy '\'' c ++ ['\''])

example : quoted "a'\"\\\n\x7f\u00a0é" = "\"a'\\\"\\\\\\n\\u\x7b7f\x7d\\u\x7ba0\x7dé\"" := by
  decide +kernel
example : quotedChar '\'' = "'\\''" ∧ quotedChar '"' = "'\"'" := by decide +kernel

end Stockroom.Text
