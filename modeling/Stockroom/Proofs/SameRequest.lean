import Stockroom.Proofs.PostingSteps
import Stockroom.Proofs.StoredRecords
import Stockroom.Proofs.Sums

/-!
# Requests that mean the same

A request is read in one way and its digest is taken in another: what cannot be read goes into the
digest as it was sent, and what can be read in its shortest spelling. The two ways agree. Requests
that are the same to the digest are both read or both refused, and what is read is one move: the
same item, places and reason, and quantities of one value.

Results:
1. `plainTexts_eq`: the bytes that are digested tell the texts in them apart.
2. `readExact_of_plainQuantity`: a quantity is never taken for a text that is none.
3. `validate_of_plainBytes`: the agreement.
-/
namespace Stockroom

/-! ## Values of quantities -/

namespace Quantity

theorem value_canonical (q : Quantity) : q.canonical.value = q.value := by
  have hscale : q.canonical.scale ≤ q.scale := stripZeros_scale_le _ _
  have hpow : (10 : ℚ) ^ q.scale = 10 ^ (q.scale - q.canonical.scale) * 10 ^ q.canonical.scale := by
    rw [← pow_add, Nat.sub_add_cancel hscale]
  rw [value, value, ← units_canonical q, hpow]
  push_cast
  rw [mul_comm ((10 : ℚ) ^ (q.scale - q.canonical.scale)),
    mul_div_mul_right _ _ (pow_ne_zero _ (by norm_num))]

/-- Without the sign of nothing the value is the same. -/
theorem value_settled (q : Quantity) : q.settled.value = q.value := by
  by_cases hz : q.isZero = true
  · rw [value_of_isZero hz, value_of_isZero (q := q.settled) hz]
  · have hsettled : q.settled = q := by
      rw [settled, Bool.eq_false_iff.2 hz, Bool.not_false, Bool.and_true]
    rw [hsettled]

/-- Two texts of one quantity have one value. -/
theorem value_eq_of_text {q q' : Quantity} (h : q.text = q'.text) : q.value = q'.value := by
  have hread := readExact_text q
  rw [h, readExact_text q'] at hread
  have hsettled := Except.ok.inj hread
  rw [← value_settled q, ← value_settled q', hsettled]

theorem isPositive_iff {q : Quantity} : q.isPositive = true ↔ 0 < q.value := by
  have hpow : (0 : ℚ) < 10 ^ q.scale := by positivity
  rw [isPositive, decide_eq_true_iff, value, div_pos_iff_of_pos_right hpow]
  exact Int.cast_pos.symm

end Quantity

/-! ## Texts that are digested -/

theorem utf8Size_toLower (c : Char) : c.toLower.utf8Size = c.utf8Size := by
  by_cases h : c.val ≥ 'A'.val ∧ c.val ≤ 'Z'.val
  · -- a capital letter and its small one are one byte each
    have hval : c.toLower.val = c.val + ('a'.val - 'A'.val) := congrArg Char.val (dif_pos h)
    have hupper : c.val.toNat ≤ 90 := UInt32.le_iff_toNat_le.1 h.2
    have hlower : c.toLower.val.toNat = c.val.toNat + 32 := by
      rw [hval, UInt32.toNat_add]
      exact Nat.mod_eq_of_lt (by show c.val.toNat + 32 < 2 ^ 32; omega)
    rw [Char.utf8Size_eq_one_iff.2 (UInt32.le_iff_toNat_le.2 (hupper.trans (by decide))),
      Char.utf8Size_eq_one_iff]
    refine UInt32.le_iff_toNat_le.2 ?_
    show c.toLower.val.toNat ≤ 127
    rw [hlower]
    omega
  · exact congrArg Char.utf8Size (dif_neg h)

theorem Sized.lowerAscii {s : String} (h : Sized s) : Sized (Text.lowerAscii s) := by
  rw [Sized, Bytes.length_ofText] at h ⊢
  rw [Text.lowerAscii, String.toList_ofList, List.map_map]
  have hsame : Char.utf8Size ∘ Char.toLower = Char.utf8Size := funext utf8Size_toLower
  rw [hsame]
  exact h

theorem Cbor.text_append_injective {s s' : String} (h : Sized s) (h' : Sized s')
    {rest rest' : Bytes} (heq : text s ++ rest = text s' ++ rest') : s = s' ∧ rest = rest' := by
  have hread := readText_text h rest
  rw [heq, readText_text h' rest'] at hread
  cases hread
  exact ⟨rfl, rfl⟩

/-- Texts one after the other are told apart if there are equally many. -/
theorem Cbor.flatten_texts_injective {texts texts' : List String}
    (hlength : texts.length = texts'.length) (h : ∀ s ∈ texts, Sized s)
    (h' : ∀ s ∈ texts', Sized s)
    (heq : (texts.map text).flatten = (texts'.map text).flatten) : texts = texts' := by
  induction texts generalizing texts' with
  | nil => exact (List.length_eq_zero_iff.1 hlength.symm).symm
  | cons s texts ih =>
    cases texts' with
    | nil => cases hlength
    | cons s' texts' =>
      obtain ⟨hs, htexts⟩ := List.forall_mem_cons.1 h
      obtain ⟨hs', htexts'⟩ := List.forall_mem_cons.1 h'
      obtain ⟨rfl, hrest⟩ := text_append_injective hs hs' heq
      rw [ih (Nat.succ.inj hlength) htexts htexts' hrest]

namespace MoveRequest

/-- The texts of a request can be stored. -/
structure Texts (r : MoveRequest) : Prop where
  item : Sized r.item
  quantity : Sized r.quantity
  origin : Sized r.origin
  destination : Sized r.destination
  reason : Sized r.reason

theorem Texts.plainQuantity {r : MoveRequest} (h : r.Texts) : Sized r.plainQuantity := by
  rw [MoveRequest.plainQuantity]
  split
  · exact Quantity.sized_text _
  · exact h.quantity.trim

theorem Texts.plainTexts {r : MoveRequest} (h : r.Texts) : ∀ s ∈ r.plainTexts, Sized s := by
  simp only [MoveRequest.plainTexts, List.forall_mem_cons]
  exact ⟨h.item.trim.lowerAscii, h.plainQuantity, h.origin.trim.lowerAscii,
    h.destination.trim.lowerAscii, h.reason.trim, nofun⟩

theorem length_plainTexts (r : MoveRequest) : r.plainTexts.length = 5 := rfl

/-- The bytes that are digested tell the texts in them apart. -/
theorem plainTexts_eq {r r' : MoveRequest} (h : r.Texts) (h' : r'.Texts)
    (heq : r.plainBytes = r'.plainBytes) : r.plainTexts = r'.plainTexts := by
  have hlength : r.plainTexts.length = r'.plainTexts.length := by
    rw [length_plainTexts, length_plainTexts]
  -- the arrays are equally long, so they start with the same head
  rw [plainBytes, plainBytes, Cbor.array, Cbor.array, List.length_map, List.length_map,
    hlength] at heq
  exact Cbor.flatten_texts_injective hlength h.plainTexts h'.plainTexts
    (List.append_cancel_left heq)

/-! ## Reading the same -/

/-- A quantity is never taken for a text that is none, and what is read has one value. -/
theorem readExact_of_plainQuantity {r r' : MoveRequest} (h : r.plainQuantity = r'.plainQuantity)
    {q : Quantity} (hread : Quantity.readExact (Text.trim r.quantity) = .ok q) :
    ∃ q', Quantity.readExact (Text.trim r'.quantity) = .ok q' ∧ q'.value = q.value := by
  rw [plainQuantity, plainQuantity, hread] at h
  dsimp only at h
  cases hread' : Quantity.readExact (Text.trim r'.quantity) with
  | ok q' =>
    rw [hread'] at h
    refine ⟨q', rfl, ?_⟩
    rw [← Quantity.value_canonical q', ← Quantity.value_canonical q, Quantity.value_eq_of_text h]
  | error e =>
    -- the shortest spelling of a quantity can be read
    rw [hread'] at h
    have hback := Quantity.readExact_text q.canonical
    rw [h, hread'] at hback
    cases hback

end MoveRequest

/-- The same item, places and reason, and quantities of one value. -/
structure ValidMove.SameMove (v v' : ValidMove) : Prop where
  item : v'.item = v.item
  origin : v'.origin = v.origin
  destination : v'.destination = v.destination
  reason : v'.reason = v.reason
  quantity : v'.quantity.value = v.quantity.value

theorem scanIdentifier_ok {field value : String} {id : Identifier} :
    scanIdentifier field value = .ok id ↔
      Identifier.read (Text.lowerAscii (Text.trim value)) = .ok id := by
  rw [scanIdentifier]
  cases Identifier.read (Text.lowerAscii (Text.trim value)) <;> simp

theorem scanQuantity_ok {value : String} {q : Quantity} :
    scanQuantity value = .ok q ↔
      Quantity.readExact (Text.trim value) = .ok q ∧ q.isPositive = true := by
  rw [scanQuantity]
  cases Quantity.readExact (Text.trim value) with
  | error e => simp
  | ok q' =>
    dsimp only
    split
    · next hpositive =>
      constructor
      · rintro ⟨⟩
        exact ⟨rfl, hpositive⟩
      · rintro ⟨⟨⟩, -⟩
        rfl
    · next hnot =>
      refine ⟨nofun, ?_⟩
      rintro ⟨⟨⟩, hpositive⟩
      exact absurd hpositive hnot

namespace MoveRequest

theorem scanQuantity_of_plainQuantity {r r' : MoveRequest} (h : r.plainQuantity = r'.plainQuantity)
    {q : Quantity} (hscan : scanQuantity r.quantity = .ok q) :
    ∃ q', scanQuantity r'.quantity = .ok q' ∧ q'.value = q.value := by
  obtain ⟨hread, hpositive⟩ := scanQuantity_ok.1 hscan
  obtain ⟨q', hread', hvalue⟩ := readExact_of_plainQuantity h hread
  refine ⟨q', scanQuantity_ok.2 ⟨hread', ?_⟩, hvalue⟩
  rw [Quantity.isPositive_iff, hvalue]
  exact Quantity.isPositive_iff.1 hpositive

/-- Requests that are the same to the digest ask for the same move, or for none. -/
theorem validate_of_plainBytes {r r' : MoveRequest} (h : r.Texts) (h' : r'.Texts)
    (heq : r.plainBytes = r'.plainBytes) {valid : ValidMove} (hvalid : r.validate = .ok valid) :
    ∃ valid', r'.validate = .ok valid' ∧ valid.SameMove valid' := by
  obtain ⟨hitem, hquantity, horigin, hdestination, hreason⟩ := Ledger.validate_ok hvalid
  have htexts := plainTexts_eq h h' heq
  rw [plainTexts, plainTexts] at htexts
  simp only [List.cons.injEq, and_true] at htexts
  obtain ⟨hitem', hquantity', horigin', hdestination', hreason'⟩ := htexts
  obtain ⟨q', hscan, hvalue⟩ := scanQuantity_of_plainQuantity hquantity' hquantity
  rw [scanIdentifier_ok, hitem'] at hitem
  rw [scanIdentifier_ok, horigin'] at horigin
  rw [scanIdentifier_ok, hdestination'] at hdestination
  refine ⟨⟨valid.item, q', valid.origin, valid.destination, Text.trim r'.reason⟩, ?_,
    rfl, rfl, rfl, ?_, hvalue⟩
  · rw [validate, scanIdentifier_ok.2 hitem, hscan, scanIdentifier_ok.2 horigin,
      scanIdentifier_ok.2 hdestination]
    rfl
  · rw [hreason, hreason']

end MoveRequest

end Stockroom
