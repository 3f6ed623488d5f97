import Stockroom.Proofs.Holdings
import Mathlib.Algebra.BigOperators.Group.Finset.Basic
import Mathlib.Algebra.BigOperators.Group.Finset.Piecewise
import Mathlib.Algebra.Order.Group.Int

/-!
# What moves bring and take

The units of one item that moves bring to a location and take from it, counted at one scale. As long
as few units move in all, no balance is ever rounded or refused: at no location can more lie than
has been moved, and over any set of locations what is taken makes up for what is brought.

Results:
1. `abs_net_sum_le` and `net_sum_eq_zero`: no locations gain more than was moved, and all of them
   together gain nothing.
2. `cast_net`: the units that moves add at a location are what they brought less what they took.
3. `apply_exact`: one more move changes the holdings by exactly its units.
4. `ofMoves_exact`: after any moves of few units the holdings are exactly what the moves come to.
-/
namespace Stockroom

section

variable (item : Identifier) (scale : Nat)

/-- The units of the item that a move moves. -/
def Move.unitsOf (m : Move) : Int := if m.item = item then m.quantity.unitsAt scale else 0

/-- What a move adds at a location. -/
def Move.share (m : Move) (location : Identifier) : Int :=
  (if m.destination = location then m.unitsOf item scale else 0) -
    (if m.origin = location then m.unitsOf item scale else 0)

/-- What moves add at a location, all in all. -/
def net (ms : List Move) (location : Identifier) : Int :=
  (ms.map (·.share item scale location)).sum

/-- What moves move, all in all. -/
def volume (ms : List Move) : Int := (ms.map (·.unitsOf item scale)).sum

/-- A move of more than nothing, with few decimals if it is of the item. -/
structure Move.Fits (m : Move) : Prop where
  positive : m.quantity.isPositive = true
  decimals : m.item = item → m.quantity.scale ≤ scale

end

variable {item : Identifier} {scale : Nat}

/-! ## Sums over locations -/

theorem Quantity.unitsAt_nonneg {q : Quantity} (h : q.isPositive = true) (scale : Nat) :
    0 ≤ q.unitsAt scale := by
  have hunits : 0 < q.units := by simpa [isPositive] using h
  rw [unitsAt]
  exact mul_nonneg hunits.le (pow_nonneg (by decide) _)

theorem Move.unitsOf_nonneg (item : Identifier) (scale : Nat) {m : Move}
    (h : m.quantity.isPositive = true) : 0 ≤ m.unitsOf item scale := by
  unfold Move.unitsOf
  split
  · exact Quantity.unitsAt_nonneg h scale
  · exact Int.le_refl _

/-- Over some locations a move comes to what crosses their border. -/
theorem share_sum (m : Move) (locations : Finset Identifier) :
    ∑ l ∈ locations, m.share item scale l =
      (if m.destination ∈ locations then m.unitsOf item scale else 0) -
        (if m.origin ∈ locations then m.unitsOf item scale else 0) := by
  simp only [Move.share, Finset.sum_sub_distrib, Finset.sum_ite_eq]

theorem net_cons (m : Move) (ms : List Move) (location : Identifier) :
    net item scale (m :: ms) location = m.share item scale location + net item scale ms location :=
  List.sum_cons

theorem net_append (ms : List Move) (m : Move) (location : Identifier) :
    net item scale (ms ++ [m]) location =
      net item scale ms location + m.share item scale location := by
  rw [net, List.map_append, List.sum_append]
  simp [net]

theorem volume_append (ms : List Move) (m : Move) :
    volume item scale (ms ++ [m]) = volume item scale ms + m.unitsOf item scale := by
  rw [volume, List.map_append, List.sum_append]
  simp [volume]

/-- No set of locations gains or loses more than was moved. -/
theorem abs_net_sum_le (item : Identifier) (scale : Nat) {ms : List Move}
    (h : ∀ m ∈ ms, m.quantity.isPositive = true) (locations : Finset Identifier) :
    |∑ l ∈ locations, net item scale ms l| ≤ volume item scale ms := by
  induction ms with
  | nil => simp [net, volume]
  | cons m ms ih =>
    have hm := Move.unitsOf_nonneg item scale (h m List.mem_cons_self)
    have hms := ih fun m hm => h m (List.mem_cons_of_mem _ hm)
    have hshare : |∑ l ∈ locations, m.share item scale l| ≤ m.unitsOf item scale := by
      rw [share_sum, abs_le]
      split <;> split <;> omega
    have hvolume : volume item scale (m :: ms) = m.unitsOf item scale + volume item scale ms :=
      List.sum_cons
    simp only [net_cons, Finset.sum_add_distrib]
    rw [hvolume]
    exact (abs_add_le _ _).trans (add_le_add hshare hms)

/-- Locations that hold every origin and destination gain and lose nothing. -/
theorem net_sum_eq_zero {ms : List Move} {locations : Finset Identifier}
    (h : ∀ m ∈ ms, m.origin ∈ locations ∧ m.destination ∈ locations) :
    ∑ l ∈ locations, net item scale ms l = 0 := by
  induction ms with
  | nil => simp [net]
  | cons m ms ih =>
    obtain ⟨horigin, hdestination⟩ := h m List.mem_cons_self
    have hms := ih fun m hm => h m (List.mem_cons_of_mem _ hm)
    simp only [net_cons, Finset.sum_add_distrib]
    rw [share_sum, if_pos horigin, if_pos hdestination, hms]
    omega

theorem abs_net_le (item : Identifier) (scale : Nat) {ms : List Move}
    (h : ∀ m ∈ ms, m.quantity.isPositive = true) (location : Identifier) :
    |net item scale ms location| ≤ volume item scale ms := by
  simpa using abs_net_sum_le item scale h {location}

/-! ## Values -/

/-- What moves brought to a location. -/
def brought (item location : Identifier) (ms : List Move) : ℚ :=
  (ms.map fun m => if m.item = item ∧ m.destination = location then m.quantity.value else 0).sum

/-- What moves took from a location. -/
def taken (item location : Identifier) (ms : List Move) : ℚ :=
  (ms.map fun m => if m.item = item ∧ m.origin = location then m.quantity.value else 0).sum

/-- What moves add at a location is what they bring less what they take. -/
theorem cast_net {ms : List Move} (h : ∀ m ∈ ms, m.Fits item scale) (location : Identifier) :
    (net item scale ms location : ℚ) =
      (brought item location ms - taken item location ms) * 10 ^ scale := by
  induction ms with
  | nil => simp [net, brought, taken]
  | cons m ms ih =>
    have hms := ih fun m hm => h m (List.mem_cons_of_mem _ hm)
    have hshare : (m.share item scale location : ℚ) =
        ((if m.item = item ∧ m.destination = location then m.quantity.value else 0) -
          (if m.item = item ∧ m.origin = location then m.quantity.value else 0)) * 10 ^ scale := by
      by_cases hitem : m.item = item
      · have hunits := Quantity.cast_unitsAt ((h m List.mem_cons_self).decimals hitem)
        simp only [Move.share, Move.unitsOf, hitem, true_and, if_true]
        push_cast
        rw [hunits]
        split <;> split <;> ring
      · simp [Move.share, Move.unitsOf, hitem]
    have hbrought : brought item location (m :: ms) = _ + brought item location ms := List.sum_cons
    have htaken : taken item location (m :: ms) = _ + taken item location ms := List.sum_cons
    rw [net_cons, hbrought, htaken]
    push_cast
    rw [hms, hshare]
    ring

/-! ## Exact holdings -/

namespace Ledger

open Quantity (add?_of_small unitsAt_neg scale_neg)

/-- At every location the holdings of the item have few decimals and so many units. -/
def Counts (item : Identifier) (scale : Nat) (h : Holdings) (units : Identifier → Int) : Prop :=
  ∀ location, (h item location).scale ≤ scale ∧
    (h item location).unitsAt scale = units location

variable {h h' : Holdings} {units : Identifier → Int} {q : Quantity}

theorem counts_nothing : Counts item scale Holdings.nothing fun _ => 0 :=
  fun _ => ⟨Nat.zero_le _, Int.zero_mul _⟩

theorem Counts.set (hcounts : Counts item scale h units) (location : Identifier)
    {r : Quantity} (hscale : r.scale ≤ scale) {n : Int} (hunits : r.unitsAt scale = n) :
    Counts item scale (h.set item location r) (Function.update units location n) := by
  intro l
  by_cases hl : l = location
  · subst hl
    rw [Holdings.set_same, Function.update_self]
    exact ⟨hscale, hunits⟩
  · have hother : ¬ (item = item ∧ l = location) := fun hboth => hl hboth.2
    rw [Holdings.set_other hother, Function.update_of_ne hl]
    exact hcounts l

theorem shift_add_counts (location : Identifier) (hscale : scale ≤ 28)
    (hcounts : Counts item scale h units) (hq : q.scale ≤ scale)
    (hsmall : (units location + q.unitsAt scale).natAbs < 2 ^ 96) :
    ∃ h', h.shift Quantity.add? item location q = some h' ∧
      Counts item scale h'
        (Function.update units location (units location + q.unitsAt scale)) := by
  obtain ⟨hdecimals, hunits⟩ := hcounts location
  rw [← hunits] at hsmall ⊢
  obtain ⟨r, hr, hrscale, hrunits⟩ := add?_of_small hscale hdecimals hq hsmall
  exact ⟨h.set item location r, by rw [Holdings.shift, hr]; rfl,
    hcounts.set location hrscale hrunits⟩

theorem shift_sub_counts (location : Identifier) (hscale : scale ≤ 28)
    (hcounts : Counts item scale h units) (hq : q.scale ≤ scale)
    (hsmall : (units location - q.unitsAt scale).natAbs < 2 ^ 96) :
    ∃ h', h.shift Quantity.sub? item location q = some h' ∧
      Counts item scale h'
        (Function.update units location (units location - q.unitsAt scale)) := by
  obtain ⟨hdecimals, hunits⟩ := hcounts location
  rw [← hunits] at hsmall ⊢
  obtain ⟨r, hr, hrscale, hrunits⟩ := add?_of_small (b := -q) hscale hdecimals
    (by rw [scale_neg]; exact hq) (by rw [unitsAt_neg, ← sub_eq_add_neg]; exact hsmall)
  rw [unitsAt_neg, ← sub_eq_add_neg] at hrunits
  exact ⟨h.set item location r, by rw [Holdings.shift, Quantity.sub?, hr]; rfl,
    hcounts.set location hrscale hrunits⟩

/-- A move of another item leaves the holdings of this one alone. -/
theorem apply_other {m : Move} (hother : m.item ≠ item) (happly : h.apply m = some h') :
    h' item = h item := by
  obtain ⟨middle, hsub, hadd⟩ := Option.bind_eq_some_iff.1 happly
  obtain ⟨r, -, rfl⟩ := Option.map_eq_some_iff.1 hsub
  obtain ⟨r', -, rfl⟩ := Option.map_eq_some_iff.1 hadd
  funext l
  have hne : ∀ location, ¬ (item = m.item ∧ l = location) := fun _ hboth => hother hboth.1.symm
  rw [Holdings.set_other (hne _), Holdings.set_other (hne _)]

/-- One more move changes the holdings by exactly its units. -/
theorem apply_exact {ms : List Move} {m : Move} (hscale : scale ≤ 28)
    (hcounts : Counts item scale h (net item scale ms))
    (hms : ∀ m ∈ ms, m.quantity.isPositive = true) (hm : m.Fits item scale) (hitem : m.item = item)
    (hsmall : volume item scale ms + m.unitsOf item scale < 2 ^ 96) :
    ∃ h', h.apply m = some h' ∧ Counts item scale h' (net item scale (ms ++ [m])) := by
  have hunits : m.unitsOf item scale = m.quantity.unitsAt scale := if_pos hitem
  have hpositive := Move.unitsOf_nonneg item scale hm.positive
  have horigin := abs_le.1 (abs_net_le item scale hms m.origin)
  have hdestination := abs_le.1 (abs_net_le item scale hms m.destination)
  obtain ⟨middle, hsub, hmiddle⟩ := shift_sub_counts m.origin hscale hcounts
    (hm.decimals hitem) (by omega)
  -- the destination can be the origin, where the units have been taken by now
  obtain ⟨h', hadd, hcounts'⟩ := shift_add_counts m.destination hscale hmiddle
    (hm.decimals hitem) (by
      rw [Function.update_apply]
      split
      · next heq =>
        rw [heq] at hdestination
        omega
      · omega)
  refine ⟨h', ?_, fun l => ?_⟩
  · rw [Holdings.apply, hitem, hsub]
    exact hadd
  · obtain ⟨hdecimals, heq⟩ := hcounts' l
    refine ⟨hdecimals, heq.trans ?_⟩
    rw [net_append, Move.share, hunits]
    by_cases hd : l = m.destination
    · rw [hd, Function.update_self, if_pos rfl]
      by_cases ho : m.destination = m.origin
      · rw [ho, Function.update_self, if_pos rfl]
        omega
      · rw [Function.update_of_ne ho, if_neg (Ne.symm ho)]
        omega
    · rw [Function.update_of_ne hd, if_neg (Ne.symm hd)]
      by_cases ho : l = m.origin
      · rw [ho, Function.update_self, if_pos rfl]
        omega
      · rw [Function.update_of_ne ho, if_neg (Ne.symm ho)]
        omega

/-- After any moves of few units the holdings are exactly what the moves come to. -/
theorem ofMoves_exact {ms : List Move} (hscale : scale ≤ 28) (hms : ∀ m ∈ ms, m.Fits item scale)
    (hsmall : volume item scale ms < 2 ^ 96)
    (hfold : Holdings.ofMoves ms = some h) :
    Counts item scale h (net item scale ms) := by
  induction ms using List.reverseRecOn generalizing h with
  | nil =>
    cases hfold
    exact counts_nothing
  | append_singleton ms m ih =>
    have hearlier : ∀ m ∈ ms, m.Fits item scale := fun m hm => hms m (List.mem_append_left _ hm)
    have hm := hms m (List.mem_append_right _ (List.mem_singleton_self m))
    have hnonneg := Move.unitsOf_nonneg item scale hm.positive
    rw [volume_append] at hsmall
    obtain ⟨before, hbefore, hafter⟩ := Holdings.ofMoves_append.1 hfold
    have hcounts := ih hearlier (by omega) hbefore
    by_cases hitem : m.item = item
    · obtain ⟨h', happly, hcounts'⟩ := apply_exact hscale hcounts
        (fun m hm => (hearlier m hm).positive) hm hitem hsmall
      rw [hafter] at happly
      cases happly
      exact hcounts'
    · intro l
      have hshare : m.share item scale l = 0 := by
        simp [Move.share, Move.unitsOf, hitem]
      rw [apply_other hitem hafter, net_append, hshare, add_zero]
      exact hcounts l

end Ledger

end Stockroom
