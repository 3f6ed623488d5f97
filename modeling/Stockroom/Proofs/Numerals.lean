import Mathlib.Data.Nat.Digits.Defs
import Stockroom.Proofs.Sums

/-!
# The number a text denotes

The digits of a text before its point are a whole number, and the digits behind the point are its
decimals. A minus sign at the start makes the number negative; underscores mean nothing. The exact
reader accepts a text exactly if it is written so and there is room for its digits, and it reads the
number that the text denotes, with as many decimals as the text has.

Results:
1. `units_foldl_take` and `scale_foldl_take`: what characters add to what has been read.
2. `run_eq_finished_iff`: which texts are read to the end.
3. `readExactChars_iff`: which texts are quantities, and which quantities they are.
-/
namespace Stockroom.Quantity

open Text (digitValue?)

/-! ## Denotation -/

/-- The number that digits denote, the highest first. -/
def number (digits : List Nat) : Nat := Nat.ofDigits 10 digits.reverse

/-- The digits of a text. -/
def digitsOf (cs : List Char) : List Nat := cs.filterMap digitValue?

/-- The digits before the point. -/
def wholeDigits (cs : List Char) : List Nat := digitsOf (cs.takeWhile (· != '.'))

/-- The digits behind the point. -/
def decimalDigits (cs : List Char) : List Nat := digitsOf (cs.dropWhile (· != '.'))

/-- The number a text denotes. -/
def denoted (cs : List Char) : ℚ :=
  (if cs.head? = some '-' then -1 else 1) *
    (number (wholeDigits cs) + number (decimalDigits cs) / 10 ^ (decimalDigits cs).length)

/-- A text behind its sign. -/
def unsigned (cs : List Char) : List Char :=
  if cs.head? = some '-' ∨ cs.head? = some '+' then cs.tail else cs

/-- A text that denotes a number. -/
@[mk_iff]
structure IsNumeral (cs : List Char) : Prop where
  /-- Behind the sign there are digits, underscores and points only, -/
  characters : ∀ c ∈ unsigned cs, (digitValue? c).isSome ∨ c = '_' ∨ c = '.'
  /-- of digits one or more, -/
  digit : digitsOf (unsigned cs) ≠ []
  /-- of points at most one, -/
  point : (unsigned cs).count '.' ≤ 1
  /-- and of underscores none before the first digit. -/
  underscore : '_' ∉ (unsigned cs).takeWhile fun c => (digitValue? c).isNone

/-- There is room for what a text denotes. -/
@[mk_iff]
structure HasRoom (cs : List Char) : Prop where
  /-- The digits need no more than 96 bits, -/
  units : number (digitsOf cs) < 2 ^ 96
  /-- and the last character is still met with fewer than 28 decimals. -/
  decimals : (decimalDigits cs.dropLast).length < 28

theorem number_cons (d : Nat) (digits : List Nat) :
    number (d :: digits) = d * 10 ^ digits.length + number digits := by
  rw [number, List.reverse_cons, Nat.ofDigits_append, Nat.ofDigits_singleton, List.length_reverse,
    number, Nat.add_comm, Nat.mul_comm]

theorem number_append (digits digits' : List Nat) :
    number (digits ++ digits') = number digits * 10 ^ digits'.length + number digits' := by
  rw [number, List.reverse_append, Nat.ofDigits_append, List.length_reverse, number, number,
    Nat.add_comm, Nat.mul_comm]

theorem digitsOf_eq (cs : List Char) : digitsOf cs = wholeDigits cs ++ decimalDigits cs := by
  rw [wholeDigits, decimalDigits, digitsOf, digitsOf, digitsOf, ← List.filterMap_append,
    List.takeWhile_append_dropWhile]

/-! ## Reading on -/

/-- What has been read when one more character is taken in. -/
def Reading.take (r : Reading) (c : Char) : Reading :=
  match digitValue? c with
  | some d => r.digit d
  | none => if c = '.' then { r with pointed := true } else r

variable {r r' : Reading} {c : Char} {cs : List Char}

theorem take_digit {d : Nat} (h : digitValue? c = some d) (r : Reading) : r.take c = r.digit d := by
  rw [Reading.take, h]

theorem take_point (r : Reading) : r.take '.' = { r with pointed := true } := rfl

theorem take_other (h : digitValue? c = none) (hc : c ≠ '.') (r : Reading) : r.take c = r := by
  rw [Reading.take, h]
  exact if_neg hc

/-- A character that is no digit can only be a point. -/
theorem take_no_digit (h : digitValue? c = none) (r : Reading) :
    ∃ pointed, r.take c = { r with pointed := pointed } := by
  by_cases hc : c = '.'
  · exact ⟨true, hc ▸ take_point r⟩
  · exact ⟨r.pointed, take_other h hc r⟩

theorem digitsOf_digit {d : Nat} (h : digitValue? c = some d) (cs : List Char) :
    digitsOf (c :: cs) = d :: digitsOf cs := List.filterMap_cons_some h

theorem digitsOf_other (h : digitValue? c = none) (cs : List Char) :
    digitsOf (c :: cs) = digitsOf cs := List.filterMap_cons_none h

theorem decimalDigits_point (cs : List Char) : decimalDigits ('.' :: cs) = digitsOf cs := rfl

theorem decimalDigits_other (hc : c ≠ '.') (cs : List Char) :
    decimalDigits (c :: cs) = decimalDigits cs := by
  rw [decimalDigits, List.dropWhile_cons_of_pos (by simpa using hc), decimalDigits]

theorem ne_point {d : Nat} (h : digitValue? c = some d) : c ≠ '.' := by
  rintro rfl
  cases h

/-- Characters add their digits to the units that have been read. -/
theorem units_foldl_take (r : Reading) (cs : List Char) : (cs.foldl Reading.take r).units =
    r.units * 10 ^ (digitsOf cs).length + number (digitsOf cs) := by
  induction cs generalizing r with
  | nil => simp [digitsOf, number]
  | cons c cs ih =>
    rw [List.foldl_cons, ih]
    cases hd : digitValue? c with
    | some d =>
      rw [take_digit hd, digitsOf_digit hd, number_cons, List.length_cons, Nat.pow_succ]
      simp only [Reading.digit]
      ring
    | none =>
      obtain ⟨pointed, htake⟩ := take_no_digit hd r
      rw [digitsOf_other hd, htake]

/-- Characters add the digits behind the point to the scale. -/
theorem scale_foldl_take (r : Reading) (cs : List Char) : (cs.foldl Reading.take r).scale =
    r.scale + (if r.pointed then digitsOf cs else decimalDigits cs).length := by
  induction cs generalizing r with
  | nil => cases r.pointed <;> rfl
  | cons c cs ih =>
    rw [List.foldl_cons, ih]
    cases hd : digitValue? c with
    | some d =>
      rw [take_digit hd, digitsOf_digit hd, decimalDigits_other (ne_point hd)]
      cases hp : r.pointed <;> simp [Reading.digit, hp]
      omega
    | none =>
      rw [digitsOf_other hd]
      by_cases hc : c = '.'
      · subst hc
        rw [take_point, decimalDigits_point]
        simp
      · rw [take_other hd hc, decimalDigits_other hc]

theorem started_foldl_take (r : Reading) (cs : List Char) :
    (cs.foldl Reading.take r).started = (r.started || !(digitsOf cs).isEmpty) := by
  induction cs generalizing r with
  | nil => simp [digitsOf]
  | cons c cs ih =>
    rw [List.foldl_cons, ih]
    cases hd : digitValue? c with
    | some d =>
      rw [take_digit hd, digitsOf_digit hd]
      simp [Reading.digit]
    | none =>
      obtain ⟨pointed, htake⟩ := take_no_digit hd r
      rw [digitsOf_other hd, htake]

/-! ## Texts that are read to the end -/

/-- A character may come next. -/
def Reading.Allows (r : Reading) (c : Char) : Prop :=
  (digitValue? c).isSome ∨ (c = '_' ∧ r.started = true) ∨ (c = '.' ∧ r.pointed = false)

/-- Characters may come next. -/
@[mk_iff]
structure Reading.Spells (r : Reading) (cs : List Char) : Prop where
  characters : ∀ c ∈ cs, (digitValue? c).isSome ∨ c = '_' ∨ c = '.'
  point : cs.count '.' ≤ if r.pointed then 0 else 1
  underscore : r.started = true ∨ '_' ∉ cs.takeWhile fun c => (digitValue? c).isNone

/-- There is room for characters. -/
@[mk_iff]
structure Reading.Fits (r : Reading) (cs : List Char) : Prop where
  units : (cs.foldl Reading.take r).units < 2 ^ 96
  scale : cs ≠ [] → (cs.dropLast.foldl Reading.take r).scale < 28

theorem spells_cons : r.Spells (c :: cs) ↔ r.Allows c ∧ (r.take c).Spells cs := by
  rw [Reading.spells_iff, Reading.spells_iff, Reading.Allows, List.forall_mem_cons]
  cases hd : digitValue? c with
  | some d =>
    have hcount : (c :: cs).count '.' = cs.count '.' := List.count_cons_of_ne (ne_point hd)
    have hlead : (c :: cs).takeWhile (fun c => (digitValue? c).isNone) = [] :=
      List.takeWhile_cons_of_neg (by rw [hd]; exact Bool.false_ne_true)
    have hpointed : (r.digit d).pointed = r.pointed := rfl
    have hstarted : (r.digit d).started = true := rfl
    rw [take_digit hd, hcount, hlead, hpointed, hstarted]
    simp
  | none =>
    have hlead : (c :: cs).takeWhile (fun c => (digitValue? c).isNone) =
        c :: cs.takeWhile fun c => (digitValue? c).isNone :=
      List.takeWhile_cons_of_pos (by rw [hd]; rfl)
    rw [hlead]
    by_cases hpoint : c = '.'
    · subst hpoint
      rw [take_point, List.count_cons_self]
      cases hp : r.pointed <;> simp
    · rw [take_other hd hpoint, List.count_cons_of_ne hpoint]
      by_cases hunderscore : c = '_'
      · subst hunderscore
        cases hs : r.started <;> simp
      · simp [hpoint, hunderscore, Ne.symm hunderscore]

theorem fits_cons : r.Fits (c :: cs) ↔
    r.scale < 28 ∧ (r.take c).units < 2 ^ 96 ∧ (r.take c).Fits cs := by
  constructor
  · rintro ⟨hunits, hscale⟩
    have hscale := hscale (List.cons_ne_nil c cs)
    rw [List.foldl_cons] at hunits
    refine ⟨?_, ?_, hunits, ?_⟩
    · rw [scale_foldl_take] at hscale
      omega
    · rw [units_foldl_take] at hunits
      have := Nat.le_mul_of_pos_right (r.take c).units
        (Nat.pow_pos (n := (digitsOf cs).length) (by decide : 0 < 10))
      omega
    · intro hne
      rw [List.dropLast_cons_of_ne_nil hne, List.foldl_cons] at hscale
      exact hscale
  · rintro ⟨hscale, -, hfits⟩
    refine ⟨hfits.units, fun _ => ?_⟩
    by_cases hne : cs = []
    · rw [hne]
      exact hscale
    · rw [List.dropLast_cons_of_ne_nil hne, List.foldl_cons]
      exact hfits.scale hne

theorem run_cons (hr : r.units < 2 ^ 96) : r.run (c :: cs) = .finished r' ↔
    r.scale < 28 ∧ r.Allows c ∧ (r.take c).units < 2 ^ 96 ∧ (r.take c).run cs = .finished r' := by
  by_cases hscale : 28 ≤ r.scale
  · rw [Reading.run, if_pos hscale]
    simp only [reduceCtorEq, false_iff, not_and]
    exact fun hroom => absurd hroom (Nat.not_lt.2 hscale)
  · rw [Reading.run, if_neg hscale, Reading.Allows]
    have hroom : r.scale < 28 := Nat.lt_of_not_le hscale
    cases hd : digitValue? c with
    | some d =>
      rw [take_digit hd]
      by_cases hunits : (r.digit d).units < 2 ^ 96
      · simp [hroom, hunits]
      · simp only [hunits, if_false]
        split <;> simp
    | none =>
      by_cases hpoint : c = '.'
      · subst hpoint
        rw [take_point]
        cases hp : r.pointed <;> simp [hroom, hr]
      · rw [take_other hd hpoint]
        by_cases hunderscore : c = '_'
        · cases hs : r.started <;> simp [hroom, hr, hunderscore]
        · simp [hpoint, hunderscore]

/-- A text is read to the end exactly if its characters are allowed and there is room for them. -/
theorem run_eq_finished_iff (hr : r.units < 2 ^ 96) :
    r.run cs = .finished r' ↔ r.Spells cs ∧ r.Fits cs ∧ cs.foldl Reading.take r = r' := by
  induction cs generalizing r with
  | nil =>
    have hspells : r.Spells [] := ⟨nofun, Nat.zero_le _, .inr List.not_mem_nil⟩
    have hfits : r.Fits [] := ⟨hr, fun h => absurd rfl h⟩
    simp [Reading.run, hspells, hfits]
  | cons c cs ih =>
    rw [run_cons hr, spells_cons, fits_cons, List.foldl_cons]
    constructor
    · rintro ⟨hscale, hallows, hunits, hrun⟩
      obtain ⟨hspells, hfits, hend⟩ := (ih hunits).1 hrun
      exact ⟨⟨hallows, hspells⟩, ⟨hscale, hunits, hfits⟩, hend⟩
    · rintro ⟨⟨hallows, hspells⟩, ⟨hscale, hunits, hfits⟩, hend⟩
      exact ⟨hscale, hallows, hunits, (ih hunits).2 ⟨hspells, hfits, hend⟩⟩

/-! ## Signs -/

theorem splitSign_eq (cs : List Char) :
    splitSign cs = (decide (cs.head? = some '-'), unsigned cs) := by
  unfold splitSign unsigned
  split
  · rfl
  · rfl
  · next hminus hplus =>
    cases cs with
    | nil => rfl
    | cons c cs =>
      have hc : c ≠ '-' ∧ c ≠ '+' := ⟨by rintro rfl; exact hminus cs rfl,
        by rintro rfl; exact hplus cs rfl⟩
      simp [hc.1, hc.2]

/-- A sign adds no digit to a text. -/
theorem unsigned_cases (cs : List Char) : unsigned cs = cs ∨
    ∃ c, digitValue? c = none ∧ c ≠ '.' ∧ cs = c :: unsigned cs := by
  unfold unsigned
  split
  · next hsign =>
    cases cs with
    | nil => exact .inl rfl
    | cons c cs =>
      refine .inr ⟨c, ?_, ?_, rfl⟩
      · rcases hsign with h | h <;> cases h <;> rfl
      · rcases hsign with h | h <;> cases h <;> decide
  · exact .inl rfl

theorem digitsOf_unsigned (cs : List Char) : digitsOf (unsigned cs) = digitsOf cs := by
  rcases unsigned_cases cs with h | ⟨c, hc, -, h⟩
  · rw [h]
  · rw [h, digitsOf_other hc, ← h]

theorem decimalDigits_unsigned (cs : List Char) :
    decimalDigits (unsigned cs) = decimalDigits cs := by
  rcases unsigned_cases cs with h | ⟨c, -, hc, h⟩
  · rw [h]
  · rw [h, decimalDigits_other hc, ← h]

theorem decimalDigits_dropLast_unsigned (h : unsigned cs ≠ []) :
    decimalDigits (unsigned cs).dropLast = decimalDigits cs.dropLast := by
  rcases unsigned_cases cs with hsame | ⟨c, -, hc, hcons⟩
  · rw [hsame]
  · rw [hcons, List.dropLast_cons_of_ne_nil h, decimalDigits_other hc, ← hcons]

theorem fits_unsigned_iff (h : unsigned cs ≠ []) :
    Reading.start.Fits (unsigned cs) ↔ HasRoom cs := by
  rw [Reading.fits_iff, hasRoom_iff, units_foldl_take, scale_foldl_take, digitsOf_unsigned]
  simp [Reading.start, h, decimalDigits_dropLast_unsigned h]

theorem spells_unsigned_iff :
    Reading.start.Spells (unsigned cs) ∧ digitsOf cs ≠ [] ↔ IsNumeral cs := by
  rw [Reading.spells_iff, isNumeral_iff, digitsOf_unsigned]
  simp [Reading.start]
  tauto

/-! ## Quantities -/

variable {q : Quantity}

theorem ofUnits?_eq_some_iff {units : Int} {scale : Nat} :
    ofUnits? units scale = some q ↔ q.IsSettled ∧ q.units = units ∧ q.scale = scale := by
  constructor
  · intro h
    exact ⟨isSettled_ofUnits? h, units_ofUnits? h, scale_ofUnits? h⟩
  · rintro ⟨hsettled, rfl, rfl⟩
    rw [ofUnits?_units, settled_eq hsettled]

theorem signed_eq_ok_iff {negative : Bool} : r.signed negative = .ok q ↔ r.started = true ∧
    ofUnits? (if negative then -(r.units : Int) else r.units) r.scale = some q := by
  unfold Reading.signed
  cases r.started
  · simp
  · simp only [if_true, true_and]
    split
    · next hread => simp [hread]
    · next hread => simp [hread]

/-- What a text denotes, with all its digits in one number. -/
theorem denoted_eq (cs : List Char) : denoted cs =
    ((if cs.head? = some '-' then -(number (digitsOf cs) : Int) else number (digitsOf cs) :
      Int) : ℚ) / 10 ^ (decimalDigits cs).length := by
  rw [denoted, digitsOf_eq, number_append]
  split <;> push_cast <;> field_simp

theorem units_eq_iff {units : Int} {scale : Nat} (h : q.scale = scale) :
    q.units = units ↔ q.value = units / 10 ^ scale := by
  have hpow : (10 : ℚ) ^ scale ≠ 0 := by positivity
  rw [value, h, div_left_inj' hpow, Int.cast_inj]

theorem readExactChars_eq_ok_iff : readExactChars cs = .ok q ↔
    ∃ r, Reading.start.run (unsigned cs) = .finished r ∧
      r.signed (decide (cs.head? = some '-')) = .ok q := by
  unfold readExactChars
  split
  · next hempty =>
    -- there is nothing to read, and nothing is no number
    rw [List.isEmpty_iff.1 hempty]
    refine ⟨nofun, ?_⟩
    rintro ⟨r, ⟨⟩, hsigned⟩
    cases hsigned
  · rw [splitSign_eq]
    cases Reading.start.run (unsigned cs) <;> simp

/-- What has been read of a text when all of it has been taken in. -/
theorem foldl_take_unsigned (cs : List Char) :
    ((unsigned cs).foldl Reading.take .start).units = number (digitsOf cs) ∧
    ((unsigned cs).foldl Reading.take .start).scale = (decimalDigits cs).length ∧
    (((unsigned cs).foldl Reading.take .start).started = true ↔ digitsOf cs ≠ []) := by
  rw [units_foldl_take, scale_foldl_take, started_foldl_take, digitsOf_unsigned,
    decimalDigits_unsigned]
  simp [Reading.start]

theorem unsigned_ne_nil (h : digitsOf cs ≠ []) : unsigned cs ≠ [] := by
  rw [← digitsOf_unsigned] at h
  rintro hnil
  rw [hnil] at h
  exact h rfl

/-- A text is a quantity exactly if it is a numeral and there is room for its digits. The quantity
has the number that is denoted, as many decimals as the text, and no sign if it is nothing. -/
theorem readExactChars_iff : readExactChars cs = .ok q ↔ IsNumeral cs ∧ HasRoom cs ∧
    q.IsSettled ∧ q.value = denoted cs ∧ q.scale = (decimalDigits cs).length := by
  obtain ⟨hunits, hscale, hstarted⟩ := foldl_take_unsigned cs
  rw [readExactChars_eq_ok_iff, denoted_eq, ← spells_unsigned_iff]
  constructor
  · rintro ⟨r, hrun, hsigned⟩
    obtain ⟨hspells, hfits, rfl⟩ := (run_eq_finished_iff (by decide)).1 hrun
    obtain ⟨hbegun, hq⟩ := signed_eq_ok_iff.1 hsigned
    have hdigits := hstarted.1 hbegun
    rw [hunits, hscale, ofUnits?_eq_some_iff] at hq
    obtain ⟨hsettled, hq, hdecimals⟩ := hq
    simp only [decide_eq_true_eq] at hq
    exact ⟨⟨hspells, hdigits⟩, (fits_unsigned_iff (unsigned_ne_nil hdigits)).1 hfits, hsettled,
      (units_eq_iff hdecimals).1 hq, hdecimals⟩
  · rintro ⟨⟨hspells, hdigits⟩, hroom, hsettled, hvalue, hdecimals⟩
    have hfits := (fits_unsigned_iff (unsigned_ne_nil hdigits)).2 hroom
    refine ⟨_, (run_eq_finished_iff (by decide)).2 ⟨hspells, hfits, rfl⟩,
      signed_eq_ok_iff.2 ⟨hstarted.2 hdigits, ?_⟩⟩
    rw [hunits, hscale, ofUnits?_eq_some_iff]
    simp only [decide_eq_true_eq]
    exact ⟨hsettled, (units_eq_iff hdecimals).2 hvalue, hdecimals⟩

end Stockroom.Quantity
