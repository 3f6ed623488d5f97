import Stockroom.Json.Record
import Stockroom.Proofs.JsonSpellings
import Mathlib.Data.List.DropRight

/-!
# JSON values nobody asked for

The grammar of JSON values, and that the reader passes over whatever follows it, however deeply it
is nested. A value announces itself by its first character; a number ends where no further character
could belong to it. The work goes as deep as there are characters, twice over: one step for a value
and one for the list that it is in.

Results:
1. `Number.skipNumber`: numbers are passed over.
2. `Phrase.skips`: so are values, lists of elements and lists of members.
3. `Phrase.skip`: the reader passes over a value with the blanks around it.
-/
namespace Stockroom.Json

open Text (digitValue?)

variable {b cs ds rest : List Char} {c : Char} {fuel : Nat}

/-! ## Numbers -/

def IsDigit (c : Char) : Prop := '0' ≤ c ∧ c ≤ '9'

instance (c : Char) : Decidable (IsDigit c) := inferInstanceAs (Decidable (_ ∧ _))

/-- One digit or more. -/
def Digits (cs : List Char) : Prop := cs ≠ [] ∧ ∀ c ∈ cs, IsDigit c

instance (cs : List Char) : Decidable (Digits cs) :=
  have := List.decidableBAll IsDigit cs
  inferInstanceAs (Decidable (_ ∧ _))

/-- The whole part of a number. A zero stands alone. -/
inductive Whole : List Char → Prop
  | zero : Whole ['0']
  | other {c : Char} {cs : List Char} : c ≠ '0' → Digits (c :: cs) → Whole (c :: cs)

inductive Fraction : List Char → Prop
  | none : Fraction []
  | some {cs : List Char} : Digits cs → Fraction ('.' :: cs)

inductive Exponent : List Char → Prop
  | none : Exponent []
  | some {e : Char} {sign cs : List Char} : e ∈ ['e', 'E'] → sign ∈ [[], ['+'], ['-']] → Digits cs →
      Exponent (e :: (sign ++ cs))

/-- A number without its sign. -/
inductive Number : List Char → Prop
  | parts {whole fraction exponent : List Char} : Whole whole → Fraction fraction →
      Exponent exponent → Number (whole ++ (fraction ++ exponent))

/-- No character at the front could belong to a number. -/
def Stops (rest : List Char) : Prop :=
  ∀ c ∈ rest.head?, ¬ IsDigit c ∧ c ≠ '.' ∧ c ∉ ['e', 'E']

theorem stops_blanks (hb : Blanks b) (h : Stops rest) : Stops (b ++ rest) := by
  cases b with
  | nil => exact h
  | cons c b =>
    have hc := hb c List.mem_cons_self
    intro c' hc'
    obtain rfl : c = c' := Option.some.inj hc'
    simp only [List.mem_cons, List.not_mem_nil, or_false] at hc
    rcases hc with rfl | rfl | rfl | rfl <;> decide

theorem stops_cons (h : c ∈ [',', ']', '\x7d']) : Stops (c :: rest) := by
  intro c' hc'
  obtain rfl : c = c' := Option.some.inj hc'
  simp only [List.mem_cons, List.not_mem_nil, or_false] at h
  rcases h with rfl | rfl | rfl <;> decide

theorem isSome_digitValue?_iff : (digitValue? c).isSome = true ↔ IsDigit c := by
  rw [digitValue?]
  split
  · next h => exact ⟨fun _ => h, fun _ => rfl⟩
  · next h => exact ⟨nofun, fun hc => absurd hc h⟩

theorem spanDigits_append (hds : ∀ c ∈ ds, IsDigit c) (hrest : ∀ c ∈ rest.head?, ¬ IsDigit c) :
    spanDigits (ds ++ rest) = (ds.filterMap digitValue?, rest) := by
  have hall : ∀ c ∈ ds, (digitValue? c).isSome = true :=
    fun c hc => isSome_digitValue?_iff.2 (hds c hc)
  rw [spanDigits, List.takeWhile_append_of_pos hall, List.dropWhile_append_of_pos hall]
  cases rest with
  | nil => rw [List.takeWhile_nil, List.dropWhile_nil, List.append_nil]
  | cons c rest =>
    have hc : ¬ (digitValue? c).isSome = true :=
      fun h => hrest c rfl (isSome_digitValue?_iff.1 h)
    rw [List.takeWhile_cons, if_neg hc, List.dropWhile_cons, if_neg hc, List.append_nil]

theorem Digits.values (h : Digits cs) : cs.filterMap digitValue? ≠ [] := by
  obtain ⟨hne, hdigits⟩ := h
  cases cs with
  | nil => exact absurd rfl hne
  | cons c cs =>
    obtain ⟨v, hv⟩ := Option.isSome_iff_exists.1
      (isSome_digitValue?_iff.2 (hdigits c List.mem_cons_self))
    rw [List.filterMap_cons_some hv]
    exact List.cons_ne_nil _ _

theorem Digits.skipDigits (h : Digits cs) (hrest : ∀ c ∈ rest.head?, ¬ IsDigit c) :
    skipDigits (cs ++ rest) = .ok rest := by
  have hvalues := h.values
  rw [Json.skipDigits, spanDigits_append h.2 hrest]
  cases hcs : cs.filterMap digitValue? with
  | nil => exact absurd hcs hvalues
  | cons v vs => rfl

theorem Exponent.skipExponent (h : Exponent cs) (hrest : Stops rest) :
    skipExponent (cs ++ rest) = .ok rest := by
  cases h with
  | none =>
    cases rest with
    | nil => rfl
    | cons c rest =>
      have hc := (hrest c rfl).2.2
      simp only [List.mem_cons, List.not_mem_nil, or_false] at hc
      exact if_neg hc
  | @some e sign cs he hsign hdigits =>
    have hskip := hdigits.skipDigits fun c hc => (hrest c hc).1
    simp only [List.mem_cons, List.not_mem_nil, or_false] at he hsign
    rw [List.cons_append, Json.skipExponent, if_pos he]
    rcases hsign with rfl | rfl | rfl
    · obtain ⟨hne, hdigit⟩ := hdigits
      cases cs with
      | nil => exact absurd rfl hne
      | cons d cs =>
        have hd := hdigit d List.mem_cons_self
        rw [if_neg]
        · exact hskip
        · rintro (h | h) <;> cases h <;> revert hd <;> decide
    · exact hskip
    · exact hskip

theorem Fraction.skipFraction (h : Fraction cs) (hrest : ∀ c ∈ rest.head?, ¬ IsDigit c ∧ c ≠ '.') :
    skipFraction (cs ++ rest) = .ok rest := by
  cases h with
  | none =>
    rw [List.nil_append, Json.skipFraction]
    rintro cs rfl
    exact (hrest '.' rfl).2 rfl
  | some hdigits => exact hdigits.skipDigits fun c hc => (hrest c hc).1

theorem Exponent.head (h : Exponent cs) (hrest : Stops rest) :
    ∀ c ∈ (cs ++ rest).head?, ¬ IsDigit c ∧ c ≠ '.' := by
  cases h with
  | none => exact fun c hc => ⟨(hrest c hc).1, (hrest c hc).2.1⟩
  | some he =>
    intro c hc
    obtain rfl := Option.some.inj hc
    simp only [List.mem_cons, List.not_mem_nil, or_false] at he
    rcases he with rfl | rfl <;> decide

theorem Fraction.head (h : Fraction cs) (hrest : ∀ c ∈ rest.head?, ¬ IsDigit c) :
    ∀ c ∈ (cs ++ rest).head?, ¬ IsDigit c := by
  cases h with
  | none => exact hrest
  | some =>
    intro c hc
    obtain rfl := Option.some.inj hc
    decide

theorem Whole.spanDigits (h : Whole cs) (hrest : ∀ c ∈ rest.head?, ¬ IsDigit c) :
    spanDigits (cs ++ rest) = ([0], rest) ∨
      ∃ v vs, v ≠ 0 ∧ spanDigits (cs ++ rest) = (v :: vs, rest) := by
  cases h with
  | zero =>
    have hdigits : Digits ['0'] := by decide
    exact .inl (spanDigits_append hdigits.2 hrest)
  | @other c cs hzero hdigits =>
    have hc := hdigits.2 c List.mem_cons_self
    have hvalue : digitValue? c = some (c.toNat - '0'.toNat) := if_pos hc
    refine .inr ⟨_, _, ?_, (spanDigits_append hdigits.2 hrest).trans
      (congrArg (·, rest) (List.filterMap_cons_some hvalue))⟩
    intro hsame
    refine hzero (Char.toNat_inj.1 ?_)
    have hle : '0'.toNat ≤ c.toNat := hc.1
    omega

/-- A number is passed over. -/
theorem Number.skipNumber (h : Number cs) (hrest : Stops rest) :
    skipNumber (cs ++ rest) = .ok rest := by
  obtain ⟨hwhole, hfraction, hexponent⟩ := h
  have hhead := hexponent.head hrest
  have hskip := hfraction.skipFraction hhead
  have hspan := hwhole.spanDigits (hfraction.head fun c hc => (hhead c hc).1)
  rw [List.append_assoc, List.append_assoc, Json.skipNumber]
  rcases hspan with hspan | ⟨v, vs, hv, hspan⟩
  · rw [hspan]
    show (Json.skipFraction _ >>= _) = _
    rw [hskip]
    exact hexponent.skipExponent hrest
  · rw [hspan]
    cases v with
    | zero => exact absurd rfl hv
    | succ v =>
      show (Json.skipFraction _ >>= _) = _
      rw [hskip]
      exact hexponent.skipExponent hrest

theorem Number.head (h : Number cs) : ∃ c ds, cs = c :: ds ∧ IsDigit c := by
  obtain ⟨hwhole, _, _⟩ := h
  cases hwhole with
  | zero => exact ⟨_, _, rfl, by decide⟩
  | other _ hdigits => exact ⟨_, _, rfl, hdigits.2 _ List.mem_cons_self⟩

/-! ## Values -/

/-- What a stretch of a JSON text is. -/
inductive Part
  | value
  /-- A value with blanks around it. -/
  | element
  /-- The inside of an array that is not empty. -/
  | elements
  /-- A key, a colon and an element. -/
  | member
  /-- The inside of an object that is not empty. -/
  | members

/-- The grammar of values. -/
inductive Phrase : Part → List Char → Prop
  | word {cs : List Char} :
      cs ∈ [['n', 'u', 'l', 'l'], ['t', 'r', 'u', 'e'], ['f', 'a', 'l', 's', 'e']] →
      Phrase .value cs
  | number {cs : List Char} : Number cs → Phrase .value cs
  | negative {cs : List Char} : Number cs → Phrase .value ('-' :: cs)
  | text {cs : List Char} : LooseText cs → Phrase .value ('"' :: (cs ++ ['"']))
  | emptyArray {b : List Char} : Blanks b → Phrase .value ('[' :: (b ++ [']']))
  | array {cs : List Char} : Phrase .elements cs → Phrase .value ('[' :: (cs ++ [']']))
  | emptyObject {b : List Char} : Blanks b → Phrase .value ('\x7b' :: (b ++ ['\x7d']))
  | object {cs : List Char} : Phrase .members cs → Phrase .value ('\x7b' :: (cs ++ ['\x7d']))
  | element {a b cs : List Char} : Blanks a → Phrase .value cs → Blanks b →
      Phrase .element (a ++ (cs ++ b))
  | lastElement {cs : List Char} : Phrase .element cs → Phrase .elements cs
  | moreElements {cs ds : List Char} : Phrase .element cs → Phrase .elements ds →
      Phrase .elements (cs ++ ',' :: ds)
  | member {a b key cs : List Char} : Blanks a → LooseText key → Blanks b → Phrase .element cs →
      Phrase .member (a ++ '"' :: (key ++ '"' :: (b ++ ':' :: cs)))
  | lastMember {cs : List Char} : Phrase .member cs → Phrase .members cs
  | moreMembers {cs ds : List Char} : Phrase .member cs → Phrase .members ds →
      Phrase .members (cs ++ ',' :: ds)

/-- After the blanks at the front something begins that ends nothing. -/
def Opens (cs : List Char) : Prop :=
  ∃ b c ds, Blanks b ∧ c ∉ [' ', '\t', '\n', '\r', ']', '\x7d'] ∧ cs = b ++ c :: ds

theorem Opens.append (h : Opens cs) (ds : List Char) : Opens (cs ++ ds) := by
  obtain ⟨b, c, cs, hb, hc, rfl⟩ := h
  exact ⟨b, c, cs ++ ds, hb, hc, by rw [List.append_assoc, List.cons_append]⟩

theorem Opens.blanks (hb : Blanks b) (h : Opens cs) : Opens (b ++ cs) := by
  obtain ⟨b', c, cs, hb', hc, rfl⟩ := h
  exact ⟨b ++ b', c, cs, List.forall_mem_append.2 ⟨hb, hb'⟩, hc, (List.append_assoc _ _ _).symm⟩

theorem Opens.cons (hc : c ∉ [' ', '\t', '\n', '\r', ']', '\x7d']) : Opens (c :: cs) :=
  ⟨[], c, cs, .nil, hc, rfl⟩

theorem Opens.length_pos (h : Opens cs) : 0 < cs.length := by
  obtain ⟨b, c, ds, _, _, rfl⟩ := h
  rw [List.length_append, List.length_cons]
  omega

/-- Blanks apart, such a text is what it begins with. -/
theorem Opens.dropBlank (h : Opens cs) :
    ∃ c ds, dropBlank cs = c :: ds ∧ c ≠ ']' ∧ c ≠ '\x7d' := by
  obtain ⟨b, c, ds, hb, hc, rfl⟩ := h
  simp only [List.mem_cons, List.not_mem_nil, or_false, not_or] at hc
  refine ⟨c, ds, ?_, hc.2.2.2.2.1, hc.2.2.2.2.2⟩
  rw [dropBlank_append hb]
  refine dropBlank_cons ?_ ds
  simp only [List.mem_cons, List.not_mem_nil, or_false, not_or]
  exact ⟨hc.1, hc.2.1, hc.2.2.1, hc.2.2.2.1⟩

theorem Number.opens (h : Number cs) : Opens cs := by
  obtain ⟨c, ds, rfl, hc⟩ := h.head
  refine .cons fun hmem => ?_
  simp only [List.mem_cons, List.not_mem_nil, or_false] at hmem
  rcases hmem with rfl | rfl | rfl | rfl | rfl | rfl <;> revert hc <;> decide

theorem Phrase.opens {p : Part} (h : Phrase p cs) : Opens cs := by
  induction h with
  | word h =>
    simp only [List.mem_cons, List.not_mem_nil, or_false] at h
    rcases h with rfl | rfl | rfl <;> exact .cons (by decide)
  | number h => exact h.opens
  | negative | text | emptyArray | array | emptyObject | object => exact .cons (by decide)
  | element ha _ _ ih => exact .blanks ha (ih.append _)
  | member ha => exact .blanks ha (.cons (by decide))
  | lastElement _ ih | lastMember _ ih => exact ih
  | moreElements _ _ ih | moreMembers _ _ ih => exact ih.append _

/-! ## Passing over values -/

theorem dropBlank_dropBlank (cs : List Char) : dropBlank (dropBlank cs) = dropBlank cs :=
  List.dropWhile_idempotent isBlank cs

/-- Blanks before a value do not matter. -/
theorem skipValue_dropBlank (fuel : Nat) (h : dropBlank cs = dropBlank ds) :
    skipValue fuel cs = skipValue fuel ds := by
  cases fuel with
  | zero => rw [skipValue, skipValue]
  | succ fuel => rw [skipValue, skipValue, h]

theorem skipElements_dropBlank (fuel : Nat) (cs : List Char) :
    skipElements fuel (dropBlank cs) = skipElements fuel cs := by
  cases fuel with
  | zero => rw [skipElements, skipElements]
  | succ fuel => rw [skipElements, skipElements, skipValue_dropBlank fuel (dropBlank_dropBlank cs)]

theorem skipMembers_dropBlank (fuel : Nat) (cs : List Char) :
    skipMembers fuel (dropBlank cs) = skipMembers fuel cs := by
  cases fuel with
  | zero => rw [skipMembers, skipMembers]
  | succ fuel => rw [skipMembers, skipMembers, dropBlank_dropBlank]

theorem skipValue_digit (hc : IsDigit c) :
    skipValue (fuel + 1) (c :: cs) = skipNumber (c :: cs) := by
  have hblank : dropBlank (c :: cs) = c :: cs := by
    refine dropBlank_cons (fun hmem => ?_) cs
    simp only [List.mem_cons, List.not_mem_nil, or_false] at hmem
    rcases hmem with rfl | rfl | rfl | rfl <;> revert hc <;> decide
  rw [skipValue, hblank]
  split
  case h_1 h => cases h
  case h_9 h =>
    cases h
    exact if_pos (isSome_digitValue?_iff.2 hc)
  all_goals
    next h =>
    cases h
    exact absurd hc (by decide)

theorem skipValue_array (h : Opens cs) :
    skipValue (fuel + 1) ('[' :: cs) = skipElements fuel cs := by
  obtain ⟨c, ds, hcs, hc, -⟩ := h.dropBlank
  have hopen : dropBlank ('[' :: cs) = '[' :: cs := dropBlank_cons (by decide) _
  simp only [skipValue, hopen]
  rw [← skipElements_dropBlank, hcs]
  split
  · next h =>
    cases h
    exact absurd rfl hc
  · rfl

theorem skipValue_object (h : Opens cs) :
    skipValue (fuel + 1) ('\x7b' :: cs) = skipMembers fuel cs := by
  obtain ⟨c, ds, hcs, -, hc⟩ := h.dropBlank
  have hopen : dropBlank ('\x7b' :: cs) = '\x7b' :: cs := dropBlank_cons (by decide) _
  simp only [skipValue, hopen]
  rw [← skipMembers_dropBlank, hcs]
  split
  · next h =>
    cases h
    exact absurd rfl hc
  · rfl

theorem expectColon_append (hb : Blanks b) (rest : List Char) :
    expectColon (b ++ ':' :: rest) = .ok rest := by
  rw [expectColon, hb.dropBlank_cons (by decide)]
  rfl

/-- How the reader passes over each part of a text. -/
def Skips : Part → List Char → Prop
  | .value, cs | .element, cs => ∀ fuel rest, 2 * cs.length ≤ fuel + 1 → Stops rest →
      ∃ b, Blanks b ∧ skipValue fuel (cs ++ rest) = .ok (b ++ rest)
  | .elements, cs => ∀ fuel rest, 2 * cs.length ≤ fuel →
      skipElements fuel (cs ++ ']' :: rest) = .ok rest
  | .member, cs => ∀ fuel rest, 2 * cs.length ≤ fuel + 1 → Stops rest →
      ∃ key value b, dropBlank (cs ++ rest) = '"' :: key ∧
        (skipChars key).bind expectColon = .ok value ∧
        Blanks b ∧ skipValue fuel value = .ok (b ++ rest)
  | .members, cs => ∀ fuel rest, 2 * cs.length ≤ fuel →
      skipMembers fuel (cs ++ '\x7d' :: rest) = .ok rest

/-- A value that is taken in one step. -/
theorem skips_value (hpos : 0 < cs.length)
    (h : ∀ fuel rest, 2 * cs.length ≤ fuel + 2 → Stops rest →
      skipValue (fuel + 1) (cs ++ rest) = .ok rest) : Skips .value cs := by
  intro fuel rest hfuel hrest
  obtain _ | fuel := fuel
  · omega
  · exact ⟨[], .nil, h fuel rest hfuel hrest⟩

theorem skips_element {a : List Char} (ha : Blanks a) (h : Skips .value cs) (hb : Blanks b) :
    Skips .element (a ++ (cs ++ b)) := by
  intro fuel rest hfuel hrest
  rw [List.length_append, List.length_append] at hfuel
  obtain ⟨d, hd, hskip⟩ := h fuel (b ++ rest) (by omega) (stops_blanks hb hrest)
  refine ⟨d ++ b, List.forall_mem_append.2 ⟨hd, hb⟩, ?_⟩
  rw [List.append_assoc, List.append_assoc, List.append_assoc,
    skipValue_dropBlank fuel (dropBlank_append ha _)]
  exact hskip

theorem skips_lastElement (hpos : 0 < cs.length) (h : Skips .element cs) :
    Skips .elements cs := by
  intro fuel rest hfuel
  obtain _ | fuel := fuel
  · omega
  obtain ⟨b, hb, hskip⟩ := h fuel (']' :: rest) (by omega) (stops_cons (by decide))
  rw [skipElements, hskip]
  dsimp only
  rw [hb.dropBlank_cons (by decide)]
  rfl

theorem skips_moreElements (h : Skips .element cs) (hrest : Skips .elements ds) :
    Skips .elements (cs ++ ',' :: ds) := by
  intro fuel rest hfuel
  rw [List.length_append, List.length_cons] at hfuel
  obtain _ | fuel := fuel
  · omega
  obtain ⟨b, hb, hskip⟩ := h fuel (',' :: (ds ++ ']' :: rest)) (by omega) (stops_cons (by decide))
  rw [List.append_assoc, List.cons_append, skipElements, hskip]
  dsimp only
  rw [hb.dropBlank_cons (by decide)]
  exact hrest fuel rest (by omega)

theorem skips_member {a key : List Char} (ha : Blanks a) (hkey : LooseText key) (hb : Blanks b)
    (h : Skips .element cs) : Skips .member (a ++ '"' :: (key ++ '"' :: (b ++ ':' :: cs))) := by
  intro fuel rest hfuel hrest
  simp only [List.length_append, List.length_cons] at hfuel
  obtain ⟨d, hd, hskip⟩ := h fuel rest (by omega) hrest
  refine ⟨key ++ '"' :: (b ++ ':' :: (cs ++ rest)), cs ++ rest, d, ?_, ?_, hd, hskip⟩
  · rw [List.append_assoc, dropBlank_append ha, List.cons_append, dropBlank_cons (by decide)]
    simp only [List.append_assoc, List.cons_append]
  · rw [hkey.skipChars]
    exact expectColon_append hb _

theorem skips_lastMember (hpos : 0 < cs.length) (h : Skips .member cs) : Skips .members cs := by
  intro fuel rest hfuel
  obtain _ | fuel := fuel
  · omega
  obtain ⟨key, value, b, hkey, hcolon, hb, hskip⟩ :=
    h fuel ('\x7d' :: rest) (by omega) (stops_cons (by decide))
  have hend : dropBlank (b ++ '\x7d' :: rest) = '\x7d' :: rest :=
    hb.dropBlank_cons (by decide) _
  simp only [skipMembers, hkey, hcolon, hskip, hend]

theorem skips_moreMembers (h : Skips .member cs) (hrest : Skips .members ds) :
    Skips .members (cs ++ ',' :: ds) := by
  intro fuel rest hfuel
  rw [List.length_append, List.length_cons] at hfuel
  obtain _ | fuel := fuel
  · omega
  obtain ⟨key, value, b, hkey, hcolon, hb, hskip⟩ :=
    h fuel (',' :: (ds ++ '\x7d' :: rest)) (by omega) (stops_cons (by decide))
  have hcomma : dropBlank (b ++ ',' :: (ds ++ '\x7d' :: rest)) = ',' :: (ds ++ '\x7d' :: rest) :=
    hb.dropBlank_cons (by decide) _
  rw [List.append_assoc, List.cons_append]
  simp only [skipMembers, hkey, hcolon, hskip, hcomma]
  exact hrest fuel rest (by omega)

/-- Whatever the grammar allows is passed over. The induction is over the grammar. -/
theorem Phrase.skips {p : Part} (h : Phrase p cs) : Skips p cs := by
  induction h with
  | word h =>
    simp only [List.mem_cons, List.not_mem_nil, or_false] at h
    rcases h with rfl | rfl | rfl <;> exact skips_value (by decide) fun _ _ _ _ => rfl
  | number h =>
    refine skips_value h.opens.length_pos fun fuel rest _ hrest => ?_
    obtain ⟨c, ds, hcs, hc⟩ := h.head
    have hskip := h.skipNumber hrest
    rw [hcs, List.cons_append] at hskip ⊢
    exact (skipValue_digit hc).trans hskip
  | negative h => exact skips_value (Nat.succ_pos _) fun _ _ _ hrest => h.skipNumber hrest
  | @text cs h =>
    refine skips_value (Nat.succ_pos _) fun fuel rest _ _ => ?_
    rw [List.cons_append, List.append_assoc]
    exact h.skipChars rest
  | @emptyArray b hb =>
    refine skips_value (Nat.succ_pos _) fun fuel rest _ _ => ?_
    have hopen : dropBlank ('[' :: (b ++ ']' :: rest)) = '[' :: (b ++ ']' :: rest) :=
      dropBlank_cons (by decide) _
    have hclose : dropBlank (b ++ ']' :: rest) = ']' :: rest :=
      hb.dropBlank_cons (by decide) _
    simp only [List.cons_append, List.append_assoc, List.nil_append, skipValue, hopen, hclose]
  | @array cs h ih =>
    refine skips_value (Nat.succ_pos _) fun fuel rest hfuel _ => ?_
    rw [List.length_cons, List.length_append, List.length_singleton] at hfuel
    rw [List.cons_append, List.append_assoc, skipValue_array (h.opens.append _)]
    exact ih fuel rest (by omega)
  | @emptyObject b hb =>
    refine skips_value (Nat.succ_pos _) fun fuel rest _ _ => ?_
    have hopen : dropBlank ('\x7b' :: (b ++ '\x7d' :: rest)) = '\x7b' :: (b ++ '\x7d' :: rest) :=
      dropBlank_cons (by decide) _
    have hclose : dropBlank (b ++ '\x7d' :: rest) = '\x7d' :: rest :=
      hb.dropBlank_cons (by decide) _
    simp only [List.cons_append, List.append_assoc, List.nil_append, skipValue, hopen, hclose]
  | @object cs h ih =>
    refine skips_value (Nat.succ_pos _) fun fuel rest hfuel _ => ?_
    rw [List.length_cons, List.length_append, List.length_singleton] at hfuel
    rw [List.cons_append, List.append_assoc, skipValue_object (h.opens.append _)]
    exact ih fuel rest (by omega)
  | element ha _ hb ih => exact skips_element ha ih hb
  | lastElement h ih => exact skips_lastElement h.opens.length_pos ih
  | moreElements _ _ ih ihrest => exact skips_moreElements ih ihrest
  | member ha hkey hb _ ih => exact skips_member ha hkey hb ih
  | lastMember h ih => exact skips_lastMember h.opens.length_pos ih
  | moreMembers _ _ ih ihrest => exact skips_moreMembers ih ihrest

/-- A value is passed over with the blanks before it. -/
theorem Phrase.skip (h : Phrase .element cs) (hrest : Stops rest) :
    ∃ b, Blanks b ∧ skip (cs ++ rest) = .ok (b ++ rest) := by
  refine h.skips _ rest ?_ hrest
  rw [List.length_append]
  omega

end Stockroom.Json
