import Stockroom.Proofs.Conservation
import Stockroom.Proofs.Rounding

/-!
# Totals

The total of an item adds up what its locations hold, in the order of the locations. One location is
owed what another has, so large amounts of both signs meet; although the sum may be nothing, a
running total can be too large, and then the store is reported as corrupt, or have too many digits,
and then it is rounded and the total is not the sum (`not_always_the_sum`). Which of these happens
depends on the order.

Results:
1. `running_exact_iff` and `running_eq_none_iff`: when running totals are exact, and when one of them
   is missing.
2. `exact_in_any_order_iff` and `representable_of_small`: when the order does not matter.
3. `total_adds_up`: what the total of an item is in any books.
4. `not_always_the_sum`: it need not be the sum.
-/
namespace Stockroom

namespace Quantity

variable {amounts part : List Quantity}

/-! ## Running totals -/

/-- The sum of some amounts. -/
def exactSum (amounts : List Quantity) : ℚ := (amounts.map value).sum

/-- The amounts added one after the other, as long as the additions give a result. -/
def running (amounts : List Quantity) : Option Quantity := amounts.foldlM add? zero

theorem exactSum_append (as bs : List Quantity) :
    exactSum (as ++ bs) = exactSum as + exactSum bs := by
  rw [exactSum, List.map_append, List.sum_append, exactSum, exactSum]

theorem exactSum_singleton (q : Quantity) : exactSum [q] = q.value := by
  rw [exactSum, List.map_singleton, List.sum_singleton]

theorem exactSum_perm {as bs : List Quantity} (h : as.Perm bs) : exactSum as = exactSum bs :=
  (h.map value).sum_eq

theorem running_concat (part : List Quantity) (q : Quantity) :
    running (part ++ [q]) = (running part).bind (·.add? q) := by
  rw [running, List.foldlM_append, running]
  simp

/-- Where the amounts so far have no sum, more amounts have none. -/
theorem running_of_prefix (hfront : part <+: amounts) (hnone : running part = none) :
    running amounts = none := by
  obtain ⟨rest, rfl⟩ := hfront
  rw [running] at hnone ⊢
  rw [List.foldlM_append, hnone]
  rfl

/-- The running totals are exact from the first amount to the last. -/
def RunsExactly (amounts : List Quantity) : Prop :=
  ∀ part, part <+: amounts → ∃ q, running part = some q ∧ q.value = exactSum part

theorem exists_running (h : ∀ part, part <+: amounts → Representable (exactSum part)) :
    ∃ q, running amounts = some q ∧ q.value = exactSum amounts := by
  -- on the last amount, which is the last one to be added
  induction amounts using List.reverseRecOn with
  | nil => exact ⟨zero, rfl, value_of_isZero rfl⟩
  | append_singleton as q ih =>
    obtain ⟨r, hr, hvalue⟩ := ih fun part hpart => h part (hpart.trans (List.prefix_append _ _))
    have hnext : exactSum (as ++ [q]) = r.value + q.value := by
      rw [exactSum_append, exactSum_singleton, hvalue]
    have hfits : Representable (r.value + q.value) := hnext ▸ h _ (List.prefix_refl _)
    cases hadd : r.add? q with
    | none =>
      obtain ⟨s, hs⟩ := hfits
      have hlarge := (add?_eq_none_iff r q).1 hadd
      rw [← hs] at hlarge
      exact absurd hlarge (not_tooLarge_value s)
    | some s =>
      refine ⟨s, ?_, ?_⟩
      · rw [running_concat, hr]
        exact hadd
      · rw [hnext]
        exact (value_add? hadd).2 hfits

/-- Running totals are exact exactly where each of them can be written down. -/
theorem running_exact_iff :
    RunsExactly amounts ↔ ∀ part, part <+: amounts → Representable (exactSum part) := by
  constructor
  · intro hexact part hpart
    obtain ⟨q, -, hvalue⟩ := hexact part hpart
    exact ⟨q, hvalue⟩
  · intro h part hpart
    exact exists_running fun front hfront => h front (hfront.trans hpart)

/-- There is no last running total exactly where one of them, perhaps rounded, comes to an amount
that makes it too large. -/
theorem running_eq_none_iff : running amounts = none ↔
    ∃ part q r, part ++ [q] <+: amounts ∧ running part = some r ∧ TooLarge (r.value + q.value) := by
  constructor
  · intro hnone
    induction amounts using List.reverseRecOn with
    | nil => cases hnone
    | append_singleton as q ih =>
      cases hr : running as with
      | none =>
        obtain ⟨part, q', r, hpart, hrunning, hlarge⟩ := ih hr
        exact ⟨part, q', r, hpart.trans (List.prefix_append _ _), hrunning, hlarge⟩
      | some r =>
        rw [running_concat, hr] at hnone
        exact ⟨as, q, r, List.prefix_refl _, hr, (add?_eq_none_iff r q).1 hnone⟩
  · rintro ⟨part, q, r, hpart, hr, hlarge⟩
    refine running_of_prefix hpart ?_
    rw [running_concat, hr]
    exact (add?_eq_none_iff r q).2 hlarge

/-! ## The order of the amounts -/

/-- The running totals are exact in every order exactly where any of the amounts, taken together,
can be written down. -/
theorem exact_in_any_order_iff : (∀ order, order.Perm amounts → RunsExactly order) ↔
    ∀ part, part.Sublist amounts → Representable (exactSum part) := by
  constructor
  · intro h part hpart
    -- these amounts come first in some order
    obtain ⟨rest, hrest⟩ := hpart.exists_perm_append
    exact running_exact_iff.1 (h _ hrest.symm) part (List.prefix_append _ _)
  · intro h order horder
    refine running_exact_iff.2 fun part hpart => ?_
    obtain ⟨part', hperm, hsublist⟩ := List.exists_perm_sublist hpart.sublist horder
    rw [← exactSum_perm hperm]
    exact h part' hsublist

/-- The units of what is there. -/
def unitsHeld (scale : Nat) (amounts : List Quantity) : Int :=
  (amounts.map fun q => max (q.unitsAt scale) 0).sum

/-- The units of what is owed. -/
def unitsOwed (scale : Nat) (amounts : List Quantity) : Int :=
  (amounts.map fun q => max (-q.unitsAt scale) 0).sum

theorem sum_unitsAt (scale : Nat) (amounts : List Quantity) :
    (amounts.map (·.unitsAt scale)).sum = unitsHeld scale amounts - unitsOwed scale amounts := by
  induction amounts with
  | nil => rfl
  | cons q amounts ih =>
    simp only [unitsHeld, unitsOwed, List.map_cons, List.sum_cons] at ih ⊢
    omega

theorem sum_nonneg_mono (f : Quantity → Int) (h : part.Sublist amounts) :
    0 ≤ (part.map fun q => max (f q) 0).sum ∧
      (part.map fun q => max (f q) 0).sum ≤ (amounts.map fun q => max (f q) 0).sum := by
  have hnonneg : ∀ as : List Quantity, ∀ n ∈ as.map fun q => max (f q) 0, 0 ≤ n := by
    intro as n hn
    obtain ⟨q, -, rfl⟩ := List.mem_map.1 hn
    exact le_max_right _ _
  exact ⟨List.sum_nonneg (hnonneg part), (h.map _).sum_le_sum (hnonneg amounts)⟩

theorem exactSum_eq_units {scale : Nat} (hscale : ∀ q ∈ amounts, q.scale ≤ scale) :
    exactSum amounts = ((amounts.map fun q => q.unitsAt scale).sum : Int) / 10 ^ scale := by
  induction amounts with
  | nil => simp [exactSum]
  | cons q amounts ih =>
    have hq := cast_unitsAt (hscale q List.mem_cons_self)
    have hrest := ih fun q hq => hscale q (List.mem_cons_of_mem _ hq)
    rw [exactSum] at hrest ⊢
    rw [List.map_cons, List.sum_cons, hrest, List.map_cons, List.sum_cons, Int.cast_add, hq]
    field_simp

/-- Where neither what is there nor what is owed needs more than 96 bits at the same decimals, any
amounts together can be written down. -/
theorem representable_of_small {scale : Nat} (hscale : scale ≤ 28)
    (hdecimals : ∀ q ∈ amounts, q.scale ≤ scale) (hheld : unitsHeld scale amounts < 2 ^ 96)
    (howed : unitsOwed scale amounts < 2 ^ 96) (hpart : part.Sublist amounts) :
    Representable (exactSum part) := by
  have hunits := sum_unitsAt scale part
  have hheldle := sum_nonneg_mono (·.unitsAt scale) hpart
  have howedle := sum_nonneg_mono (fun q => -q.unitsAt scale) hpart
  have hsmall : Int.natAbs (part.map (·.unitsAt scale)).sum < 2 ^ 96 := by
    unfold unitsHeld unitsOwed at *
    omega
  obtain ⟨q, hq⟩ := Option.isSome_iff_exists.1 (ofUnits?_isSome_iff.2 ⟨hsmall, hscale⟩)
  refine ⟨q, ?_⟩
  rw [value_ofUnits? hq, exactSum_eq_units fun q hq => hdecimals q (hpart.subset hq)]

end Quantity

namespace Ledger

open Quantity (Representable TooLarge RunsExactly exactSum running unitsHeld unitsOwed)

variable {s : Store} {item : Identifier} {held : Holdings} {locations : List Identifier}

/-! ## The total of an item -/

/-- Everywhere an item is, in the order of the locations. -/
structure Listing (s : Store) (item : Identifier) (held : Holdings) (locations : List Identifier) :
    Prop where
  holds : Holds s held
  ascending : locations.Pairwise (· < ·)
  absent : ∀ l, l ∉ locations → held item l = .zero
  listed : balances (.ofItem item) s = .ok (locations.map (held.balance item))

theorem sumOnHand_eq (sum : Quantity) (bs : List Balance) : sumOnHand sum bs =
    match (bs.map (·.onHand)).foldlM Quantity.add? sum with
    | some q => .ok q
    | none => .error (.corrupt .totalOverflow) := by
  induction bs generalizing sum with
  | nil => rfl
  | cons b bs ih =>
    rw [sumOnHand, List.map_cons, List.foldlM_cons]
    cases sum.add? b.onHand with
    | none => rfl
    | some r => exact ih r

/-- The total is the last running total; where there is none the store is reported as corrupt. -/
theorem Listing.total_eq (hlisting : Listing s item held locations) : total item s =
    match running (locations.map (held item)) with
    | some q => .ok q
    | none => .error (.corrupt .totalOverflow) := by
  have honHand : (locations.map (held.balance item)).map (·.onHand) =
      locations.map (held item) := by
    rw [List.map_map]
    rfl
  rw [total, hlisting.listed, running, ← honHand]
  exact sumOnHand_eq _ _

theorem Listing.total_exact (hlisting : Listing s item held locations)
    (hexact : RunsExactly (locations.map (held item))) :
    ∃ q, total item s = .ok q ∧ q.value = exactSum (locations.map (held item)) := by
  obtain ⟨q, hq, hvalue⟩ := hexact _ (List.prefix_refl _)
  refine ⟨q, ?_, hvalue⟩
  rw [hlisting.total_eq, hq]

/-- What the total of an item is, told from the amounts at its locations in their order. -/
structure AddsUp (s : Store) (item : Identifier) (amounts : List Quantity) : Prop where
  /-- It is the last running total, or else the store is reported as corrupt. -/
  outcome : (∃ q, running amounts = some q ∧ total item s = .ok q) ∨
    (running amounts = none ∧ total item s = .error (.corrupt .totalOverflow))
  /-- The report comes exactly where a running total comes to an amount that makes it too large. -/
  corrupt_iff : total item s = .error (.corrupt .totalOverflow) ↔
    ∃ part q r, part ++ [q] <+: amounts ∧ running part = some r ∧ TooLarge (r.value + q.value)
  /-- All running totals are exact exactly where each of them can be written down, -/
  exact_iff : RunsExactly amounts ↔ ∀ part, part <+: amounts → Representable (exactSum part)
  /-- and then the total is the sum. -/
  exact : (∀ part, part <+: amounts → Representable (exactSum part)) →
    ∃ q, total item s = .ok q ∧ q.value = exactSum amounts
  /-- They are exact in every order exactly where any of the amounts together can be written
  down, -/
  any_order_iff : (∀ order, order.Perm amounts → RunsExactly order) ↔
    ∀ part, part.Sublist amounts → Representable (exactSum part)
  /-- and then the total is the sum wherever the same amounts are. -/
  any_order : (∀ part, part.Sublist amounts → Representable (exactSum part)) →
    ∀ s' item' held' locations', Listing s' item' held' locations' →
      (locations'.map (held' item')).Perm amounts →
      ∃ q, total item' s' = .ok q ∧ q.value = exactSum amounts
  /-- For that it is enough that what is there and what is owed are each below 96 bits. -/
  small : ∀ scale, scale ≤ 28 → (∀ q ∈ amounts, q.scale ≤ scale) →
    unitsHeld scale amounts < 2 ^ 96 → unitsOwed scale amounts < 2 ^ 96 →
    ∀ part, part.Sublist amounts → Representable (exactSum part)

theorem Listing.addsUp (hlisting : Listing s item held locations) :
    AddsUp s item (locations.map (held item)) := by
  have htotal := hlisting.total_eq
  constructor
  case outcome =>
    cases hrunning : running (locations.map (held item)) with
    | none => exact .inr ⟨rfl, by rw [htotal, hrunning]⟩
    | some q => exact .inl ⟨q, rfl, by rw [htotal, hrunning]⟩
  case corrupt_iff =>
    rw [← Quantity.running_eq_none_iff, htotal]
    cases running (locations.map (held item)) with
    | none => exact ⟨fun _ => rfl, fun _ => rfl⟩
    | some q => exact ⟨nofun, nofun⟩
  case exact_iff => exact Quantity.running_exact_iff
  case exact => exact fun h => hlisting.total_exact (Quantity.running_exact_iff.2 h)
  case any_order_iff => exact Quantity.exact_in_any_order_iff
  case any_order =>
    intro h s' item' held' locations' hlisting' hperm
    rw [← Quantity.exactSum_perm hperm]
    exact hlisting'.total_exact (Quantity.exact_in_any_order_iff.2 h _ hperm)
  case small =>
    intro scale hscale hdecimals hheld howed part hpart
    exact Quantity.representable_of_small hscale hdecimals hheld howed hpart

theorem exists_listing (actions : List Action) (item : Identifier) :
    ∃ held locations, Listing (Books.opened.run actions).store item held locations := by
  obtain ⟨held, -, hshows⟩ := Books.shown_run actions
  obtain ⟨locations, hascending, hlisted, habsent⟩ := hshows.listed item
  exact ⟨held, locations, hshows.holds, hascending, habsent, hlisted⟩

/-- In any books the total of an item is what adding up the amounts at its locations gives, in the
order of the locations. -/
theorem total_adds_up (actions : List Action) (item : Identifier) :
    ∃ held locations, Listing (Books.opened.run actions).store item held locations ∧
      AddsUp (Books.opened.run actions).store item (locations.map (held item)) := by
  obtain ⟨held, locations, hlisting⟩ := exists_listing actions item
  exact ⟨held, locations, hlisting, hlisting.addsUp⟩

/-! ### Amounts that cross -/

/-- As much as a quantity can be is at two locations, and owed by two others: the amounts of each
sign come together. -/
def crossed : List Action :=
  [.consider (.plain "a" "79228162514264337593543950335" 4 2) (.fresh 0 6) ⟨0⟩, .commit 0 ⟨0⟩,
    .consider (.plain "b" "79228162514264337593543950335" 5 3) (.fresh 0 7) ⟨1⟩, .commit 0 ⟨1⟩]

/-- The same amounts, each next to what is owed for it. -/
def paired : List Action :=
  [.consider (.plain "a" "79228162514264337593543950335" 3 2) (.fresh 0 6) ⟨0⟩, .commit 0 ⟨0⟩,
    .consider (.plain "b" "79228162514264337593543950335" 5 4) (.fresh 0 7) ⟨1⟩, .commit 0 ⟨1⟩]

/-- Next to as much as a quantity can be there is a tenth. -/
def uneven : List Action :=
  [.consider (.plain "a" "79228162514264337593543950335" 4 2) (.fresh 0 6) ⟨0⟩, .commit 0 ⟨0⟩,
    .consider (.plain "b" "0.1" 5 3) (.fresh 0 7) ⟨1⟩, .commit 0 ⟨1⟩]

theorem crossed_total :
    (balances (.ofItem (.fresh 0 1)) (Books.opened.run crossed).store).map
        (·.map (·.onHand)) = .ok [mostOfAll, mostOfAll, -mostOfAll, -mostOfAll] ∧
      total (.fresh 0 1) (Books.opened.run crossed).store = .error (.corrupt .totalOverflow) := by
  decide +kernel

theorem paired_total :
    (balances (.ofItem (.fresh 0 1)) (Books.opened.run paired).store).map
        (·.map (·.onHand)) = .ok [mostOfAll, -mostOfAll, mostOfAll, -mostOfAll] ∧
      total (.fresh 0 1) (Books.opened.run paired).store = .ok .zero := by
  decide +kernel

theorem uneven_total :
    (balances (.ofItem (.fresh 0 1)) (Books.opened.run uneven).store).map
        (·.map (·.onHand)) = .ok [mostOfAll, tenth, -mostOfAll, -tenth] ∧
      total (.fresh 0 1) (Books.opened.run uneven).store = .ok (-tenth) := by
  decide +kernel

theorem Listing.amounts_eq (hlisting : Listing s item held locations) {amounts : List Quantity}
    (h : (balances (.ofItem item) s).map (·.map (·.onHand)) = .ok amounts) :
    locations.map (held item) = amounts := by
  rw [hlisting.listed] at h
  have hamounts : (locations.map (held.balance item)).map (·.onHand) = amounts := Except.ok.inj h
  rw [← hamounts, List.map_map]
  rfl

/-- Where the sum of an item can be written down, the store can be reported as corrupt all the same,
or the total can be another number, and the same amounts at other locations can have another
total. -/
theorem not_always_the_sum :
    (¬ ∀ actions item held locations,
      Listing (Books.opened.run actions).store item held locations →
      Representable (exactSum (locations.map (held item))) →
      ∀ e, total item (Books.opened.run actions).store ≠ .error e) ∧
    (¬ ∀ actions item held locations q,
      Listing (Books.opened.run actions).store item held locations →
      Representable (exactSum (locations.map (held item))) →
      total item (Books.opened.run actions).store = .ok q →
      q.value = exactSum (locations.map (held item))) ∧
    (¬ ∀ actions actions' item held held' locations locations',
      Listing (Books.opened.run actions).store item held locations →
      Listing (Books.opened.run actions').store item held' locations' →
      (locations.map (held item)).Perm (locations'.map (held' item)) →
      Representable (exactSum (locations.map (held item))) →
      total item (Books.opened.run actions).store =
        total item (Books.opened.run actions').store) := by
  obtain ⟨hcrossed, hcorrupt⟩ := crossed_total
  obtain ⟨hpaired, hzero⟩ := paired_total
  obtain ⟨huneven, hrounded⟩ := uneven_total
  obtain ⟨held, locations, hlisting⟩ := exists_listing crossed (.fresh 0 1)
  have hamounts := hlisting.amounts_eq hcrossed
  have hnothing : Representable (exactSum (locations.map (held (.fresh 0 1)))) := by
    refine ⟨.zero, ?_⟩
    rw [hamounts, Quantity.value_of_isZero rfl]
    simp [exactSum, Quantity.value_neg]
  refine ⟨fun hall => ?_, fun hall => ?_, fun hall => ?_⟩
  · exact hall _ _ _ _ hlisting hnothing _ hcorrupt
  · obtain ⟨held', locations', hlisting'⟩ := exists_listing uneven (.fresh 0 1)
    have hsum : exactSum (locations'.map (held' (.fresh 0 1))) = 0 := by
      rw [hlisting'.amounts_eq huneven]
      simp [exactSum, Quantity.value_neg]
    have hvalue := hall _ _ _ _ _ hlisting' ⟨.zero, hsum ▸ Quantity.value_of_isZero rfl⟩ hrounded
    rw [hsum, Quantity.value_neg, neg_eq_zero] at hvalue
    norm_num [tenth, Quantity.value, Quantity.units] at hvalue
  · obtain ⟨held', locations', hlisting'⟩ := exists_listing paired (.fresh 0 1)
    have hperm : (locations.map (held (.fresh 0 1))).Perm
        (locations'.map (held' (.fresh 0 1))) := by
      rw [hamounts, hlisting'.amounts_eq hpaired]
      decide +kernel
    have htotal := hall _ _ _ _ _ _ _ hlisting hlisting' hperm hnothing
    rw [hcorrupt, hzero] at htotal
    cases htotal

end Ledger

end Stockroom
