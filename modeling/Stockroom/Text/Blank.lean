/-!
# Blank characters and letter case

What counts as white space at the ends of a submitted text is the Unicode property
`White_Space`; letter case is folded over ASCII only. Both apply to every identifier and every
reason a client sends, so two texts that differ only there mean the same thing.
-/
namespace Stockroom.Text

/-- The characters with the Unicode property `White_Space`. -/
def isBlank (c : Char) : Bool :=
  let n := c.toNat
  (0x9 ≤ n && n ≤ 0xd) || n == 0x20 || n == 0x85 || n == 0xa0 || n == 0x1680 ||
    (0x2000 ≤ n && n ≤ 0x200a) || n == 0x2028 || n == 0x2029 || n == 0x202f || n == 0x205f ||
    n == 0x3000

/-- Drop the blanks at the end of a text. -/
def trimEnd (cs : List Char) : List Char :=
  cs.foldr (fun c rest => if rest.isEmpty && isBlank c then [] else c :: rest) []

/-- Drop the blanks at both ends of a text. -/
def trimChars (cs : List Char) : List Char :=
  trimEnd (cs.dropWhile isBlank)

/-- A text without the blanks at its ends. -/
def trim (s : String) : String :=
  String.ofList (trimChars s.toList)

/-- A text with the ASCII capitals made small. Other letters keep their case. -/
def lowerAscii (s : String) : String :=
  String.ofList (s.toList.map Char.toLower)

/-! ## Trimming -/

theorem trimEnd_cons (c : Char) (cs : List Char) :
    trimEnd (c :: cs) =
      if (trimEnd cs).isEmpty && isBlank c then [] else c :: trimEnd cs := rfl

example : trim " \t é x\u2003\n" = "é x" := by decide
example : lowerAscii "AbÉ-Z" = "abÉ-z" := by decide

end Stockroom.Text
