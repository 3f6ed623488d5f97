import Stockroom.Proofs.SameRequest

/-!
# What the digest tells apart

The digest of a request is taken of five texts. Blanks and letter case are gone from them, and a
quantity that can be read stands in its shortest spelling. Quantities of one value have one shortest
spelling, which is read as this value again, so no text that is not a quantity is ever mistaken for
one. That says of every two requests, readable or not, whether they are one to the digest.

Results:
1. `Quantity.canonical_eq_iff`: the canonical form depends on the value and on nothing else.
2. `MoveRequest.plainQuantity_eq_iff`: when quantities enter the digest as one text.
3. `MoveRequest.plainBytes_eq_iff`: when requests are one to the digest.
-/
namespace Stockroom

/-! ## Shortest spellings -/

namespace Quantity

/-- No decimal of a quantity at the end of its decimals is a zero. -/
def IsShortest (q : Quantity) : Prop := q.scale = 0 ∨ q.magnitude % 10 ≠ 0

theorem stripZeros_shortest (magnitude scale : Nat) :
    (stripZeros magnitude scale).2 = 0 ∨ (stripZeros magnitude scale).1 % 10 ≠ 0 := by
  induction scale generalizing magnitude with
  | zero => exact .inl rfl
  | succ scale ih =>
    rw [stripZeros]
    split
    · exact ih (magnitude / 10)
    · next hdigit => exact .inr hdigit

theorem isShortest_canonical (q : Quantity) : q.canonical.IsShortest :=
  stripZeros_shortest q.magnitude q.scale

theorem isSettled_canonical (q : Quantity) : q.canonical.IsSettled := by
  intro hnegative hstripped
  have hmul := stripZeros_mul q.magnitude q.scale
  have hzero : (stripZeros q.magnitude q.scale).1 = 0 := hstripped
  rw [hzero, Nat.zero_mul] at hmul
  simp [canonical, isZero, ← hmul] at hnegative

variable {q q' : Quantity}

theorem unitsAt_of_value {scale : Nat} (h : q.value = q'.value) (hq : q.scale ≤ scale)
    (hq' : q'.scale ≤ scale) : q.unitsAt scale = q'.unitsAt scale := by
  have hcast : (q.unitsAt scale : ℚ) = q'.unitsAt scale := by
    rw [cast_unitsAt hq, cast_unitsAt hq', h]
  exact_mod_cast hcast

theorem unitsAt_scale (q : Quantity) : q.unitsAt q.scale = q.units := by
  rw [unitsAt, Nat.sub_self, Int.pow_zero, Int.mul_one]

/-- A shortest spelling has no more decimals than any other of its value. -/
theorem IsShortest.scale_le (hshort : q.IsShortest) (h : q.value = q'.value) :
    q.scale ≤ q'.scale := by
  by_contra hlt
  rcases hshort with hnone | hdigit
  · omega
  · -- with more decimals than the other, its last one would be a zero
    have hunits := unitsAt_of_value h (Nat.le_refl _) (Nat.le_of_not_le hlt)
    obtain ⟨more, hmore⟩ : ∃ more, q.scale - q'.scale = more + 1 :=
      ⟨q.scale - q'.scale - 1, by omega⟩
    rw [unitsAt_scale, unitsAt, hmore, Int.pow_succ, ← Int.mul_assoc] at hunits
    have hmagnitude := congrArg Int.natAbs hunits
    rw [natAbs_units, Int.natAbs_mul] at hmagnitude
    rw [hmagnitude] at hdigit
    exact hdigit (Nat.mul_mod_left _ 10)

theorem IsSettled.negative_iff (h : q.IsSettled) : q.negative = true ↔ q.units < 0 := by
  unfold units
  split
  · next hnegative =>
    have := h hnegative
    exact ⟨fun _ => by omega, fun _ => hnegative⟩
  · next hnot => exact ⟨fun hnegative => absurd hnegative hnot, fun hlt => by omega⟩

/-- Of each value there is one shortest spelling without the sign of nothing. -/
theorem eq_of_value (hq : q.IsShortest) (hq' : q'.IsShortest) (hsettled : q.IsSettled)
    (hsettled' : q'.IsSettled) (h : q.value = q'.value) : q = q' := by
  have hscale : q.scale = q'.scale := Nat.le_antisymm (hq.scale_le h) (hq'.scale_le h.symm)
  have hunits : q.units = q'.units := by
    have hat := unitsAt_of_value h (Nat.le_refl _) (Nat.le_of_eq hscale.symm)
    rw [unitsAt_scale, hscale, unitsAt_scale] at hat
    exact hat
  ext1
  · rw [Bool.eq_iff_iff, hsettled.negative_iff, hsettled'.negative_iff, hunits]
  · rw [← natAbs_units, hunits, natAbs_units]
  · exact hscale

/-- The canonical form depends on the value and on nothing else. -/
theorem canonical_eq_iff : q.canonical = q'.canonical ↔ q.value = q'.value := by
  constructor
  · intro h
    rw [← value_canonical q, h, value_canonical]
  · intro h
    refine eq_of_value (isShortest_canonical q) (isShortest_canonical q') (isSettled_canonical q)
      (isSettled_canonical q') ?_
    rw [value_canonical, value_canonical, h]

/-- What two texts have in common that stand for one quantity to the digest. -/
inductive SameToDigest (s s' : String) : Prop
  /-- Both are read, and as one value. -/
  | value {q q' : Quantity} (read : readExact s = .ok q) (read' : readExact s' = .ok q')
      (same : q.value = q'.value)
  /-- Neither can be read, and they are one text. -/
  | text {why why' : Malformed} (unread : readExact s = .error why)
      (unread' : readExact s' = .error why') (same : s = s')

end Quantity

/-! ## Requests -/

namespace MoveRequest

open Text (trim lowerAscii)

/-- What two requests have in common that are one to the digest. -/
structure SameToDigest (r r' : MoveRequest) : Prop where
  item : lowerAscii (trim r.item) = lowerAscii (trim r'.item)
  origin : lowerAscii (trim r.origin) = lowerAscii (trim r'.origin)
  destination : lowerAscii (trim r.destination) = lowerAscii (trim r'.destination)
  reason : trim r.reason = trim r'.reason
  quantity : Quantity.SameToDigest (trim r.quantity) (trim r'.quantity)

variable {r r' : MoveRequest}

theorem plainQuantity_of_read {q : Quantity} (h : Quantity.readExact (trim r.quantity) = .ok q) :
    r.plainQuantity = q.canonical.text := by
  rw [plainQuantity, h]

theorem plainQuantity_of_unread {why : Quantity.Malformed}
    (h : Quantity.readExact (trim r.quantity) = .error why) :
    r.plainQuantity = trim r.quantity := by
  rw [plainQuantity, h]

/-- Quantities enter the digest as one text if they have one value, or are one text. -/
theorem plainQuantity_eq_iff : r.plainQuantity = r'.plainQuantity ↔
    Quantity.SameToDigest (trim r.quantity) (trim r'.quantity) := by
  constructor
  · intro h
    cases hread : Quantity.readExact (trim r.quantity) with
    | ok q =>
      obtain ⟨q', hread', hvalue⟩ := readExact_of_plainQuantity h hread
      exact .value hread hread' hvalue.symm
    | error why =>
      cases hread' : Quantity.readExact (trim r'.quantity) with
      | ok q' =>
        obtain ⟨q, hread'', -⟩ := readExact_of_plainQuantity h.symm hread'
        rw [hread] at hread''
        cases hread''
      | error why' =>
        rw [plainQuantity_of_unread hread, plainQuantity_of_unread hread'] at h
        exact .text hread hread' h
  · rintro (⟨hread, hread', hvalue⟩ | ⟨hunread, hunread', hsame⟩)
    · rw [plainQuantity_of_read hread, plainQuantity_of_read hread',
        Quantity.canonical_eq_iff.2 hvalue]
    · rw [plainQuantity_of_unread hunread, plainQuantity_of_unread hunread', hsame]

theorem plainTexts_eq_iff : r.plainTexts = r'.plainTexts ↔ r.SameToDigest r' := by
  rw [plainTexts, plainTexts]
  simp only [List.cons.injEq, and_true]
  constructor
  · rintro ⟨hitem, hquantity, horigin, hdestination, hreason⟩
    exact ⟨hitem, horigin, hdestination, hreason, plainQuantity_eq_iff.1 hquantity⟩
  · intro h
    exact ⟨h.item, plainQuantity_eq_iff.2 h.quantity, h.origin, h.destination, h.reason⟩

theorem plainBytes_eq (h : r.SameToDigest r') : r.plainBytes = r'.plainBytes := by
  rw [plainBytes, plainBytes, plainTexts_eq_iff.2 h]

/-- The bytes that are digested are the same for requests that agree in their identifiers up to
blanks and letter case, in their reasons up to blanks, and in the value of their quantities, and for
no others. A quantity that cannot be read agrees with itself only. -/
theorem plainBytes_eq_iff (h : r.Texts) (h' : r'.Texts) :
    r.plainBytes = r'.plainBytes ↔ r.SameToDigest r' :=
  ⟨fun heq => plainTexts_eq_iff.1 (plainTexts_eq h h' heq), plainBytes_eq⟩

/-! ### Some spellings -/

/-- A request whose identifiers cannot be read. -/
def unreadable (quantity : String) : MoveRequest := ⟨"Crate", quantity, " dock", "shelf", "x "⟩

theorem texts_unreadable {quantity : String} (h : Sized quantity) :
    (unreadable quantity).Texts := by
  have hothers : Sized "Crate" ∧ Sized " dock" ∧ Sized "shelf" ∧ Sized "x " := by
    simp only [Sized]
    decide
  exact ⟨hothers.1, h, hothers.2.1, hothers.2.2.1, hothers.2.2.2⟩

/-- Nothing under a minus sign is nothing, and a text that is no quantity is not. -/
theorem plainBytes_unreadable :
    (unreadable " -0.0_0").plainBytes = (unreadable "0").plainBytes ∧
    (unreadable "none").plainBytes ≠ (unreadable "0").plainBytes := by
  have htexts : (unreadable " -0.0_0").Texts ∧ (unreadable "none").Texts ∧
      (unreadable "0").Texts := by
    refine ⟨texts_unreadable ?_, texts_unreadable ?_, texts_unreadable ?_⟩
    all_goals
      rw [Sized]
      decide
  constructor
  · refine (plainBytes_eq_iff htexts.1 htexts.2.2).2 ⟨rfl, rfl, rfl, rfl, ?_⟩
    have hread : Quantity.readExact (trim " -0.0_0") = .ok ⟨false, 0, 2, by decide, by decide⟩ ∧
        Quantity.readExact (trim "0") = .ok Quantity.zero := by
      decide +kernel
    exact .value hread.1 hread.2 (Quantity.canonical_eq_iff.1 (by decide))
  · intro heq
    have hsame := ((plainBytes_eq_iff htexts.2.1 htexts.2.2).1 heq).quantity
    have hunread : Quantity.readExact (trim "none") = .error .unknownCharacter := by
      decide +kernel
    cases hsame with
    | value hread =>
      have := hread.symm.trans hunread
      cases this
    | text _ _ hsame => exact absurd hsame (by decide)

end MoveRequest

end Stockroom
