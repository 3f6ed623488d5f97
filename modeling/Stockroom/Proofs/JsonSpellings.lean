import Stockroom.Proofs.JsonText

/-!
# The spellings of a JSON string

A text can stand in a JSON text in many ways: any character may be escaped, some of them by a
letter, and a code may be written in digits of either case. The grammar is stated here without the
reader, as relations between what is meant and what is written.

Results:
1. `dropBlank_append`: blanks at the front are passed over.
2. `SpellsText.readChars`: whatever the spelling, the reader takes the text that is meant.
3. `LooseText.skipChars`: a string that nobody asked for is passed over, also with halves of
   surrogate pairs in it.
4. `spellsText_escaped`: the writer's spelling is one of them.
-/
namespace Stockroom.Json

variable {b cs ds rest s : List Char} {c : Char} {n : Nat}

/-! ## Blanks -/

/-- Blanks and nothing else. -/
def Blanks (cs : List Char) : Prop := ∀ c ∈ cs, c ∈ [' ', '\t', '\n', '\r']

instance (cs : List Char) : Decidable (Blanks cs) :=
  List.decidableBAll _ cs

theorem Blanks.nil : Blanks [] := fun _ h => absurd h List.not_mem_nil

theorem isBlank_iff : isBlank c = true ↔ c ∈ [' ', '\t', '\n', '\r'] := by
  simp [isBlank, or_assoc]

theorem dropBlank_append (hb : Blanks b) (rest : List Char) :
    dropBlank (b ++ rest) = dropBlank rest :=
  List.dropWhile_append_of_pos fun c hc => isBlank_iff.2 (hb c hc)

theorem dropBlank_cons (hc : c ∉ [' ', '\t', '\n', '\r']) (rest : List Char) :
    dropBlank (c :: rest) = c :: rest :=
  List.dropWhile_cons_of_neg fun h => hc (isBlank_iff.1 h)

/-- What comes after blanks is the first character that is none. -/
theorem Blanks.dropBlank_cons (hb : Blanks b) (hc : c ∉ [' ', '\t', '\n', '\r'])
    (rest : List Char) : dropBlank (b ++ c :: rest) = c :: rest :=
  (dropBlank_append hb _).trans (Json.dropBlank_cons hc rest)

theorem Blanks.dropBlank_eq_nil (hb : Blanks b) : dropBlank b = [] := by
  have hall := dropBlank_append hb []
  rw [List.append_nil] at hall
  exact hall

/-! ## Characters -/

/-- A hexadecimal digit of either case. -/
inductive SpellsDigit : Nat → Char → Prop
  | small {n : Nat} : n < 16 → SpellsDigit n (Nat.digitChar n)
  | large {n : Nat} : n < 16 → SpellsDigit n (Nat.digitChar n).toUpper

/-- Four hexadecimal digits. -/
inductive SpellsUnit : Nat → List Char → Prop
  | digits {i j k l : Nat} {w x y z : Char} :
      SpellsDigit i w → SpellsDigit j x → SpellsDigit k y → SpellsDigit l z →
      SpellsUnit (((i * 16 + j) * 16 + k) * 16 + l) [w, x, y, z]

/-- The characters that a letter or a sign after a backslash stands for. -/
def shortEscapes : List (Char × Char) :=
  [('"', '"'), ('\\', '\\'), ('/', '/'), ('b', '\x08'), ('f', '\x0c'), ('n', '\n'), ('r', '\r'),
    ('t', '\t')]

/-- The spellings of a character in a string. -/
inductive SpellsChar : Char → List Char → Prop
  | plain {c : Char} : c ≠ '"' → c ≠ '\\' → 0x20 ≤ c.toNat → SpellsChar c [c]
  | short {letter c : Char} : (letter, c) ∈ shortEscapes → SpellsChar c ['\\', letter]
  | code {c : Char} {unit : List Char} :
      SpellsUnit c.toNat unit → SpellsChar c ('\\' :: 'u' :: unit)
  /-- A character beyond the first `2 ^ 16` is written as two halves of a surrogate pair. -/
  | pair {c : Char} {high low : List Char} : 0x10000 ≤ c.toNat →
      SpellsUnit (0xd800 + (c.toNat - 0x10000) / 0x400) high →
      SpellsUnit (0xdc00 + (c.toNat - 0x10000) % 0x400) low →
      SpellsChar c ('\\' :: 'u' :: high ++ '\\' :: 'u' :: low)

/-- The spellings of a text between the quotes of a string. -/
inductive SpellsText : List Char → List Char → Prop
  | nil : SpellsText [] []
  | cons {c : Char} {s cs ds : List Char} :
      SpellsChar c cs → SpellsText s ds → SpellsText (c :: s) (cs ++ ds)

/-- What may stand between the quotes of a string that nobody asked for. It need not mean a text. -/
inductive LooseText : List Char → Prop
  | nil : LooseText []
  | char {c : Char} {cs ds : List Char} : SpellsChar c cs → LooseText ds → LooseText (cs ++ ds)
  | half {n : Nat} {unit ds : List Char} :
      SpellsUnit n unit → LooseText ds → LooseText ('\\' :: 'u' :: unit ++ ds)

/-! ## Reading codes -/

theorem hexValue?_toUpper :
    ∀ {n : Nat}, n < 16 → Bytes.hexValue? (Nat.digitChar n).toUpper = some n := by
  decide

theorem SpellsDigit.hexValue? (h : SpellsDigit n c) : Bytes.hexValue? c = some n := by
  cases h with
  | small h => exact Bytes.hexValue?_hexDigit h
  | large h => exact hexValue?_toUpper h

theorem hexValue4?_digits {n₁ n₂ n₃ n₄ : Nat} {c₁ c₂ c₃ c₄ : Char} (h₁ : SpellsDigit n₁ c₁)
    (h₂ : SpellsDigit n₂ c₂) (h₃ : SpellsDigit n₃ c₃) (h₄ : SpellsDigit n₄ c₄) :
    hexValue4? c₁ c₂ c₃ c₄ = some (((n₁ * 16 + n₂) * 16 + n₃) * 16 + n₄) := by
  rw [hexValue4?, h₁.hexValue?, h₂.hexValue?, h₃.hexValue?, h₄.hexValue?]
  rfl

theorem SpellsUnit.readUnit (h : SpellsUnit n cs) (rest : List Char) :
    readUnit (cs ++ rest) = .ok (n, rest) := by
  obtain ⟨hw, hx, hy, hz⟩ := h
  have hfour := hexValue4?_digits hw hx hy hz
  simp only [List.cons_append, List.nil_append, Json.readUnit, hfour]

theorem toNat_valid (c : Char) : c.toNat < 0xd800 ∨ (0xdfff < c.toNat ∧ c.toNat < 0x110000) :=
  c.valid

theorem toNat_lt (c : Char) : c.toNat < 0x110000 := by
  have := toNat_valid c
  omega

/-- A code names the character that has it. -/
theorem SpellsUnit.readCodePoint (h : SpellsUnit c.toNat cs) (rest : List Char) :
    readCodePoint (cs ++ rest) = .ok (c, rest) := by
  have hvalid := toNat_valid c
  rw [Json.readCodePoint, h.readUnit]
  dsimp only
  rw [if_neg (by omega), if_neg (by omega), Char.ofNat_toNat]

/-- Two halves name one character. -/
theorem SpellsUnit.readCodePoint_pair {m n : Nat} {high low : List Char} (hhigh : SpellsUnit n high)
    (hlow : SpellsUnit m low) (hn : 0xd800 ≤ n ∧ n < 0xdc00) (hm : 0xdc00 ≤ m ∧ m < 0xe000)
    (rest : List Char) :
    Json.readCodePoint (high ++ '\\' :: 'u' :: (low ++ rest)) =
      .ok (Char.ofNat (0x10000 + (n - 0xd800) * 0x400 + (m - 0xdc00)), rest) := by
  rw [Json.readCodePoint, hhigh.readUnit]
  dsimp only
  rw [if_neg (by omega), if_pos hn, readLowSurrogate, hlow.readUnit]
  dsimp only
  rw [if_pos hm]

/-- The halves of a character beyond the first `2 ^ 16` are the two kinds of surrogates, and they
count up to it. -/
theorem halves_of {k : Nat} (h : 0x10000 ≤ k) (hk : k < 0x110000) :
    (0xd800 ≤ 0xd800 + (k - 0x10000) / 0x400 ∧ 0xd800 + (k - 0x10000) / 0x400 < 0xdc00) ∧
    (0xdc00 ≤ 0xdc00 + (k - 0x10000) % 0x400 ∧ 0xdc00 + (k - 0x10000) % 0x400 < 0xe000) ∧
    0x10000 + (0xd800 + (k - 0x10000) / 0x400 - 0xd800) * 0x400 +
      (0xdc00 + (k - 0x10000) % 0x400 - 0xdc00) = k := by
  omega

/-! ## Reading strings -/

theorem readEscape_short {letter : Char} (h : (letter, c) ∈ shortEscapes) (rest : List Char) :
    readEscape (letter :: rest) = .ok (c, rest) := by
  simp only [shortEscapes, List.mem_cons, List.not_mem_nil, or_false, Prod.mk.injEq] at h
  rcases h with ⟨rfl, rfl⟩ | ⟨rfl, rfl⟩ | ⟨rfl, rfl⟩ | ⟨rfl, rfl⟩ | ⟨rfl, rfl⟩ | ⟨rfl, rfl⟩ |
    ⟨rfl, rfl⟩ | ⟨rfl, rfl⟩ <;> rfl

/-- A character is read from each of its spellings. -/
theorem SpellsChar.readChars (h : SpellsChar c cs) (rest : List Char) :
    readChars (cs ++ rest) = inFront c (readChars rest) := by
  cases h with
  | plain hquote hescape hcontrol => exact readChars_plain hquote hescape (Nat.not_lt.2 hcontrol)
  | short hshort => exact readChars_escape (readEscape_short hshort rest)
  | code hunit => exact readChars_escape (hunit.readCodePoint rest)
  | pair hc hhigh hlow =>
    obtain ⟨hn, hm, hsum⟩ := halves_of hc (toNat_lt c)
    have hread := hhigh.readCodePoint_pair hlow hn hm rest
    rw [hsum, Char.ofNat_toNat] at hread
    rw [List.append_assoc]
    exact readChars_escape hread

/-- A text is read from each of its spellings. -/
theorem SpellsText.readChars (h : SpellsText s cs) (rest : List Char) :
    readChars (cs ++ '"' :: rest) = .ok (s, rest) := by
  induction h with
  | nil => rw [List.nil_append, Json.readChars]
  | cons hchar _ ih =>
    rw [List.append_assoc, hchar.readChars, ih]
    rfl

/-! ## Passing over strings -/

theorem skipChars_escape {escape : List Char} (h : skipEscape escape = .ok rest) :
    skipChars ('\\' :: escape) = skipChars rest := by
  rw [skipChars]
  split
  · next he =>
    rw [h] at he
    cases he
  · next he =>
    rw [h] at he
    cases he
    rfl

theorem skipChars_plain (hquote : c ≠ '"') (hescape : c ≠ '\\') (hcontrol : 0x20 ≤ c.toNat)
    (rest : List Char) : skipChars (c :: rest) = skipChars rest := by
  rw [skipChars]
  · exact if_neg (Nat.not_lt.2 hcontrol)
  · exact fun h => hquote h
  · exact fun h => hescape h

theorem skipEscape_short {letter : Char} (h : (letter, c) ∈ shortEscapes) (rest : List Char) :
    skipEscape (letter :: rest) = .ok rest := by
  simp only [shortEscapes, List.mem_cons, List.not_mem_nil, or_false, Prod.mk.injEq] at h
  rcases h with ⟨rfl, rfl⟩ | ⟨rfl, rfl⟩ | ⟨rfl, rfl⟩ | ⟨rfl, rfl⟩ | ⟨rfl, rfl⟩ | ⟨rfl, rfl⟩ |
    ⟨rfl, rfl⟩ | ⟨rfl, rfl⟩ <;> rfl

theorem SpellsUnit.skipChars (h : SpellsUnit n cs) (rest : List Char) :
    skipChars ('\\' :: 'u' :: (cs ++ rest)) = skipChars rest := by
  refine skipChars_escape ?_
  rw [skipEscape, h.readUnit]
  rfl

theorem SpellsChar.skipChars (h : SpellsChar c cs) (rest : List Char) :
    skipChars (cs ++ rest) = skipChars rest := by
  cases h with
  | plain hquote hescape hcontrol => exact skipChars_plain hquote hescape hcontrol rest
  | short hshort => exact skipChars_escape (skipEscape_short hshort rest)
  | code hunit => exact hunit.skipChars rest
  | pair hc hhigh hlow =>
    rw [List.append_assoc]
    exact (hhigh.skipChars _).trans (hlow.skipChars rest)

theorem LooseText.skipChars (h : LooseText cs) (rest : List Char) :
    skipChars (cs ++ '"' :: rest) = .ok rest := by
  induction h with
  | nil => rw [List.nil_append, Json.skipChars]
  | char hchar _ ih => rw [List.append_assoc, hchar.skipChars, ih]
  | half hunit _ ih =>
    rw [List.append_assoc]
    exact (hunit.skipChars _).trans ih

/-! ## The writer's spelling -/

/-- The code of a control character. -/
theorem spellsUnit_control (h : c.toNat < 0x20) :
    SpellsUnit c.toNat
      ['0', '0', Bytes.hexDigit (c.toNat / 16), Bytes.hexDigit (c.toNat % 16)] := by
  have hvalue : ((0 * 16 + 0) * 16 + c.toNat / 16) * 16 + c.toNat % 16 = c.toNat := by omega
  have hunit : SpellsUnit (((0 * 16 + 0) * 16 + c.toNat / 16) * 16 + c.toNat % 16)
      ['0', '0', Bytes.hexDigit (c.toNat / 16), Bytes.hexDigit (c.toNat % 16)] :=
    .digits (.small (by decide)) (.small (by decide)) (.small (by omega)) (.small (by omega))
  rw [hvalue] at hunit
  exact hunit

theorem spellsChar_escaped (c : Char) : SpellsChar c (escaped c) := by
  by_cases hshort : c ∈ ['"', '\\', '\x08', '\x0c', '\n', '\r', '\t']
  · simp only [List.mem_cons, List.not_mem_nil, or_false] at hshort
    rcases hshort with rfl | rfl | rfl | rfl | rfl | rfl | rfl <;> exact .short (by decide)
  · simp only [List.mem_cons, List.not_mem_nil, or_false, not_or] at hshort
    obtain ⟨h1, h2, h3, h4, h5, h6, h7⟩ := hshort
    rw [escaped, if_neg h1, if_neg h2, if_neg h3, if_neg h4, if_neg h5, if_neg h6, if_neg h7]
    split
    · next h => exact .code (spellsUnit_control h)
    · next h => exact .plain h1 h2 (Nat.not_lt.1 h)

theorem spellsText_escaped (s : List Char) : SpellsText s (s.flatMap escaped) := by
  induction s with
  | nil => exact .nil
  | cons c s ih => exact .cons (spellsChar_escaped c) ih

end Stockroom.Json
