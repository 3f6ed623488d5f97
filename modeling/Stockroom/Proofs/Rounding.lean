import Stockroom.Ledger.Query
import Stockroom.Proofs.Holdings

/-!
# Rounded balances

A move should change the two balances by exactly its quantity, or be refused. The commitment does
refuse what is too large, but it takes a sum that was rounded for one that is exact: a balance of
many digits swallows a small quantity whole, and the other balance changes all the same
(`not_always_exact`).

Results:
1. `apply_exact_apart` and `apply_exact_within`: when holdings change by exactly what a move brings
   and takes.
2. `commit_rounding`: what becomes of a draft in any books, and when it is exact or refused.
3. `not_always_exact`: it need be neither.
-/
namespace Stockroom.Ledger

open Quantity (Representable TooLarge)
open Store (find?)

variable {h h' : Holdings} {m : Move}

/-! ## Exact moves -/

namespace Holdings

/-- What is on hand has changed by exactly what the move brings and takes. -/
def ChangedBy (h : Holdings) (m : Move) (h' : Holdings) : Prop :=
  ∀ location, (h' m.item location).value = (h m.item location).value +
    (if location = m.destination then m.quantity.value else 0) -
    (if location = m.origin then m.quantity.value else 0)

/-- What a move takes from. -/
def atOrigin (h : Holdings) (m : Move) : Quantity := h m.item m.origin

/-- What a move adds to, when it has left so much at its origin. The two locations can be one. -/
def atDestination (h : Holdings) (m : Move) (left : Quantity) : Quantity :=
  if m.destination = m.origin then left else h m.item m.destination

/-- What is on hand after a move that has left so much at its locations. -/
def leaving (h : Holdings) (m : Move) (left there : Quantity) : Holdings :=
  (h.set m.item m.origin left).set m.item m.destination there

theorem leaving_apply (h : Holdings) (m : Move) (left there : Quantity) (location : Identifier) :
    h.leaving m left there m.item location =
      if location = m.destination then there
      else if location = m.origin then left else h m.item location := by
  simp [leaving, set]

theorem apply_eq_some_iff : h.apply m = some h' ↔ ∃ left there,
    (h.atOrigin m).sub? m.quantity = some left ∧
    (h.atDestination m left).add? m.quantity = some there ∧ h.leaving m left there = h' := by
  have hmet : ∀ left, (h.set m.item m.origin left) m.item m.destination = h.atDestination m left :=
    fun left => by simp [set, atDestination]
  constructor
  · intro happly
    obtain ⟨middle, hsub, hadd⟩ := Option.bind_eq_some_iff.1 happly
    obtain ⟨left, hleft, rfl⟩ := Option.map_eq_some_iff.1 hsub
    obtain ⟨there, hthere, rfl⟩ := Option.map_eq_some_iff.1 hadd
    rw [hmet] at hthere
    exact ⟨left, there, hleft, hthere, rfl⟩
  · rintro ⟨left, there, hleft, hthere, rfl⟩
    rw [← hmet] at hthere
    exact Option.bind_eq_some_iff.2 ⟨_, Option.map_eq_some_iff.2 ⟨left, hleft, rfl⟩,
      Option.map_eq_some_iff.2 ⟨there, hthere, rfl⟩⟩

/-- Between two locations a move is exact where both results are. -/
theorem changedBy_apart (hne : m.origin ≠ m.destination) (left there : Quantity) :
    h.ChangedBy m (h.leaving m left there) ↔
      left.value = (h m.item m.origin).value - m.quantity.value ∧
      there.value = (h m.item m.destination).value + m.quantity.value := by
  constructor
  · intro hchanged
    have horigin := hchanged m.origin
    have hdestination := hchanged m.destination
    rw [leaving_apply, if_neg hne, if_pos rfl, if_neg hne, if_pos rfl, add_zero] at horigin
    rw [leaving_apply, if_pos rfl, if_pos rfl, if_neg hne.symm, sub_zero] at hdestination
    exact ⟨horigin, hdestination⟩
  · rintro ⟨hleft, hthere⟩ location
    rw [leaving_apply]
    by_cases hd : location = m.destination
    · rw [if_pos hd, if_pos hd, if_neg (hd ▸ hne.symm), hd, hthere, sub_zero]
    · by_cases ho : location = m.origin
      · rw [if_neg hd, if_pos ho, if_neg hd, if_pos ho, ho, hleft, add_zero]
      · rw [if_neg hd, if_neg ho, if_neg hd, if_neg ho, add_zero, sub_zero]

/-- Within one location it is exact where it leaves what was there. -/
theorem changedBy_within (heq : m.origin = m.destination) (left there : Quantity) :
    h.ChangedBy m (h.leaving m left there) ↔ there.value = (h m.item m.origin).value := by
  constructor
  · intro hchanged
    have horigin := hchanged m.origin
    rw [leaving_apply, if_pos heq, if_pos heq, if_pos rfl, add_sub_cancel_right] at horigin
    exact horigin
  · intro hthere location
    rw [leaving_apply, heq]
    by_cases hd : location = m.destination
    · rw [if_pos hd, if_pos hd, hd, hthere, heq, add_sub_cancel_right]
    · rw [if_neg hd, if_neg hd, if_neg hd, add_zero, sub_zero]

/-- Between two locations a move is exact or refused exactly where a result is too large, or both
can be written down. -/
theorem apply_exact_apart (hne : m.origin ≠ m.destination) :
    (∀ h', h.apply m = some h' → h.ChangedBy m h') ↔
      TooLarge ((h m.item m.origin).value - m.quantity.value) ∨
      TooLarge ((h m.item m.destination).value + m.quantity.value) ∨
      (Representable ((h m.item m.origin).value - m.quantity.value) ∧
        Representable ((h m.item m.destination).value + m.quantity.value)) := by
  have hdestination : ∀ left, h.atDestination m left = h m.item m.destination :=
    fun _ => if_neg hne.symm
  constructor
  · intro hexact
    rw [← Quantity.sub?_eq_none_iff, ← Quantity.add?_eq_none_iff]
    cases hleft : (h m.item m.origin).sub? m.quantity with
    | none => exact .inl rfl
    | some left =>
    cases hthere : (h m.item m.destination).add? m.quantity with
    | none => exact .inr (.inl rfl)
    | some there =>
    have happly : h.apply m = some (h.leaving m left there) :=
      apply_eq_some_iff.2 ⟨left, there, hleft, by rw [hdestination, hthere], rfl⟩
    obtain ⟨hl, ht⟩ := (changedBy_apart hne left there).1 (hexact _ happly)
    exact .inr (.inr ⟨⟨left, hl⟩, ⟨there, ht⟩⟩)
  · intro hcases h'' happly
    obtain ⟨left, there, hleft, hthere, rfl⟩ := apply_eq_some_iff.1 happly
    rw [hdestination] at hthere
    rw [changedBy_apart hne]
    rcases hcases with hlarge | hlarge | ⟨hl, ht⟩
    · rw [← Quantity.sub?_eq_none_iff] at hlarge
      rw [atOrigin, hlarge] at hleft
      cases hleft
    · rw [← Quantity.add?_eq_none_iff, hthere] at hlarge
      cases hlarge
    · exact ⟨(Quantity.value_sub? hleft).2 hl, (Quantity.value_add? hthere).2 ht⟩

/-- Within one location it is exact or refused exactly where what is taken is brought back. -/
theorem apply_exact_within (heq : m.origin = m.destination) :
    (∀ h', h.apply m = some h' → h.ChangedBy m h') ↔
      ∀ left there, (h m.item m.origin).sub? m.quantity = some left →
        left.add? m.quantity = some there → there.value = (h m.item m.origin).value := by
  have hdestination : ∀ left, h.atDestination m left = left := fun _ => if_pos heq.symm
  constructor
  · intro hexact left there hleft hthere
    have happly : h.apply m = some (h.leaving m left there) :=
      apply_eq_some_iff.2 ⟨left, there, hleft, by rw [hdestination, hthere], rfl⟩
    exact (changedBy_within heq left there).1 (hexact _ happly)
  · intro hback h' happly
    obtain ⟨left, there, hleft, hthere, rfl⟩ := apply_eq_some_iff.1 happly
    rw [hdestination] at hthere
    exact (changedBy_within heq left there).2 (hback left there hleft hthere)

theorem brought_back {a q left there : Quantity} (hleft : a.sub? q = some left)
    (hthere : left.add? q = some there) (hexact : Representable (a.value - q.value)) :
    there.value = a.value := by
  have hvalue := (Quantity.value_sub? hleft).2 hexact
  have hsum : left.value + q.value = a.value := by rw [hvalue, sub_add_cancel]
  have hback := Quantity.value_add? hthere
  rw [hsum] at hback
  exact hback.2 ⟨a, rfl⟩

end Holdings

/-! ## Commitments -/

/-- The balances of a store are these holdings. -/
def Holds (s : Store) (h : Holdings) : Prop :=
  ∀ item location, balance item location s = .ok ⟨item, location, h item location, .zero⟩

/-- The commitment of a draft changes the balances by exactly what the move brings and takes, or it
is refused and changes nothing. -/
def Draft.ExactOrRefused (d : Draft) (now : Date) (s : Store) : Prop :=
  (∃ location,
    commit d now s = (.error (.refused (.balanceOverflow d.move.item location)), s)) ∨
  ∃ before after s', commit d now s = (.ok (.ok d.move.id), s') ∧
    Holds s before ∧ Holds s' after ∧ before.ChangedBy d.move after

theorem Shows.holds {s : Store} (hshows : Shows s.balances h) : Holds s h :=
  fun item location => hshows.balanceIn_eq item location

theorem Holds.unique {s : Store} (hh : Holds s h) (hh' : Holds s h') : h = h' := by
  funext item location
  have heq := Except.ok.inj ((hh item location).symm.trans (hh' item location))
  exact congrArg Balance.onHand heq

section

variable {d : Draft} {now : Date} {s : Store}

theorem commit_leaves (hd : d.Genuine) (hnow : now.Storable)
    (hfirst : find? s.receipts d.call.receiptKey = (.ok none : Except Fault (Option Receipt)))
    (hshows : Shows s.balances h) (happly : h.apply d.move = some h') :
    ∃ s', commit d now s = (.ok (.ok d.move.id), s') ∧ Holds s' h' := by
  obtain ⟨s', hcommit, hwrites⟩ := commit_of_allowed hd hnow hfirst hshows happly
  obtain ⟨h'', happly', hshows'⟩ := hwrites.shows hd hshows
  rw [happly] at happly'
  cases happly'
  exact ⟨s', hcommit, hshows'.holds⟩

/-- Where they do not, the draft is refused: at the origin if what it would leave there is too
large, and at the destination otherwise. -/
theorem commit_refuses (hd : d.Genuine) (now : Date)
    (hfirst : find? s.receipts d.call.receiptKey = (.ok none : Except Fault (Option Receipt)))
    (hshows : Shows s.balances h) (happly : h.apply d.move = none) :
    commit d now s = (.error (.refused (.balanceOverflow d.move.item
      (if ((h.atOrigin d.move).sub? d.move.quantity).isSome then d.move.destination
        else d.move.origin))), s) := by
  rcases applyMove_refused (s := s.update .moves (·.insert d.move.id.bytes d.row)) hshows
    hd.settled happly with ⟨hshift, hrefused⟩ | ⟨middle, hshift, -, hrefused⟩
  · rw [Holdings.atOrigin, Option.map_eq_none_iff.1 hshift]
    exact commit_of_refused hfirst hrefused
  · obtain ⟨left, hleft, -⟩ := Option.map_eq_some_iff.1 hshift
    rw [Holdings.atOrigin, hleft]
    exact commit_of_refused hfirst hrefused

theorem exactOrRefused_iff (hd : d.Genuine) (hnow : now.Storable)
    (hfirst : find? s.receipts d.call.receiptKey = (.ok none : Except Fault (Option Receipt)))
    (hshows : Shows s.balances h) :
    d.ExactOrRefused now s ↔ ∀ h', h.apply d.move = some h' → h.ChangedBy d.move h' := by
  constructor
  · intro hexact h' happly
    obtain ⟨s', hcommit, hholds⟩ := commit_leaves hd hnow hfirst hshows happly
    rcases hexact with ⟨location, hrefused⟩ | ⟨before, after, s'', hdone, hbefore, hafter, hchanged⟩
    · rw [hcommit] at hrefused
      cases hrefused
    · rw [hcommit] at hdone
      cases hdone
      rw [hshows.holds.unique hbefore, hholds.unique hafter]
      exact hchanged
  · intro hexact
    cases happly : h.apply d.move with
    | none => exact .inl ⟨_, commit_refuses hd now hfirst hshows happly⟩
    | some h' =>
      obtain ⟨s', hcommit, hholds⟩ := commit_leaves hd hnow hfirst hshows happly
      exact .inr ⟨h, h', s', hcommit, hshows.holds, hholds, hexact h' happly⟩

/-- What becomes of a draft, told from what is on hand before. -/
structure Draft.Rounding (d : Draft) (now : Date) (s : Store) (held : Holdings) : Prop where
  /-- What is too large for the origin is refused there, -/
  refused_at_origin : TooLarge ((held.atOrigin d.move).value - d.move.quantity.value) →
    commit d now s = (.error (.refused (.balanceOverflow d.move.item d.move.origin)), s)
  /-- and what is too large for the destination is refused there. -/
  refused_at_destination : ∀ left, (held.atOrigin d.move).sub? d.move.quantity = some left →
    TooLarge ((held.atDestination d.move left).value + d.move.quantity.value) →
    commit d now s = (.error (.refused (.balanceOverflow d.move.item d.move.destination)), s)
  /-- Everything else is committed, each balance exact where its value can be written down and
  rounded where it cannot. -/
  committed : ∀ left there, (held.atOrigin d.move).sub? d.move.quantity = some left →
    (held.atDestination d.move left).add? d.move.quantity = some there →
    (left.value = (held.atOrigin d.move).value - d.move.quantity.value ↔
      Representable ((held.atOrigin d.move).value - d.move.quantity.value)) ∧
    (there.value = (held.atDestination d.move left).value + d.move.quantity.value ↔
      Representable ((held.atDestination d.move left).value + d.move.quantity.value)) ∧
    ∃ s', commit d now s = (.ok (.ok d.move.id), s') ∧ Holds s' (held.leaving d.move left there)
  /-- When a move between two locations is exact or refused. -/
  apart : d.move.origin ≠ d.move.destination → (d.ExactOrRefused now s ↔
    TooLarge ((held d.move.item d.move.origin).value - d.move.quantity.value) ∨
    TooLarge ((held d.move.item d.move.destination).value + d.move.quantity.value) ∨
    (Representable ((held d.move.item d.move.origin).value - d.move.quantity.value) ∧
      Representable ((held d.move.item d.move.destination).value + d.move.quantity.value)))
  /-- When a move within one location is. -/
  within : d.move.origin = d.move.destination → (d.ExactOrRefused now s ↔
    ∀ left there, (held d.move.item d.move.origin).sub? d.move.quantity = some left →
      left.add? d.move.quantity = some there →
      there.value = (held d.move.item d.move.origin).value)
  /-- It is enough that what is left in between can be written down. -/
  within_back : d.move.origin = d.move.destination →
    Representable ((held d.move.item d.move.origin).value - d.move.quantity.value) →
    d.ExactOrRefused now s

theorem Shows.rounding (hd : d.Genuine) (hnow : now.Storable)
    (hfirst : find? s.receipts d.call.receiptKey = (.ok none : Except Fault (Option Receipt)))
    (hshows : Shows s.balances h) : d.Rounding now s h := by
  have hiff := exactOrRefused_iff hd hnow hfirst hshows
  constructor
  case refused_at_origin =>
    intro hlarge
    have hnone := (Quantity.sub?_eq_none_iff _ _).2 hlarge
    have happly : h.apply d.move = none := by
      rw [Option.eq_none_iff_forall_ne_some]
      intro h' happly
      obtain ⟨left, there, hleft, -, -⟩ := Holdings.apply_eq_some_iff.1 happly
      rw [hnone] at hleft
      cases hleft
    have hrefused := commit_refuses hd now hfirst hshows happly
    rw [hnone] at hrefused
    exact hrefused
  case refused_at_destination =>
    intro left hleft hlarge
    have hnone := (Quantity.add?_eq_none_iff _ _).2 hlarge
    have happly : h.apply d.move = none := by
      rw [Option.eq_none_iff_forall_ne_some]
      intro h' happly
      obtain ⟨left', there, hleft', hthere, -⟩ := Holdings.apply_eq_some_iff.1 happly
      rw [hleft] at hleft'
      cases hleft'
      rw [hnone] at hthere
      cases hthere
    have hrefused := commit_refuses hd now hfirst hshows happly
    rw [hleft] at hrefused
    exact hrefused
  case committed =>
    intro left there hleft hthere
    exact ⟨Quantity.value_sub? hleft, Quantity.value_add? hthere,
      commit_leaves hd hnow hfirst hshows
        (Holdings.apply_eq_some_iff.2 ⟨left, there, hleft, hthere, rfl⟩)⟩
  case apart => exact fun hne => hiff.trans (Holdings.apply_exact_apart hne)
  case within => exact fun heq => hiff.trans (Holdings.apply_exact_within heq)
  case within_back =>
    intro heq hexact
    exact hiff.2 ((Holdings.apply_exact_within heq).2 fun left there hleft hthere =>
      Holdings.brought_back hleft hthere hexact)

end

/-- In any books a draft that comes first under its key is refused where a result is too large and
committed everywhere else, exactly or not. -/
theorem commit_rounding {actions : List Action} {place : Nat} {d : Draft} {now : Date}
    (hplace : (Books.opened.run actions).drafts[place]? = some d) (hnow : now.Storable)
    (hfirst : find? (Books.opened.run actions).store.receipts d.call.receiptKey =
      (.ok none : Except Fault (Option Receipt))) :
    ∃ held, Holds (Books.opened.run actions).store held ∧
      d.Rounding now (Books.opened.run actions).store held := by
  have hcalls : (Books.opened.run actions).OfCalls fun _ => True :=
    Books.ofCalls_run fun _ _ _ _ => trivial
  obtain ⟨held, -, hshows⟩ := Books.shown_run actions
  have hd := (hcalls.drafts d (List.mem_of_getElem? hplace)).1
  exact ⟨held, hshows.holds, hshows.rounding hd hnow hfirst⟩

/-! ### A quantity that is swallowed -/

/-- As much as a quantity can be is moved to a location, and a tenth is about to be added there. -/
def brimful : List Action :=
  [.consider (.plain "a" "79228162514264337593543950335" 2 3) (.fresh 0 5) ⟨0⟩, .commit 0 ⟨0⟩,
    .consider (.plain "b" "0.1" 6 3) (.fresh 0 7) ⟨1⟩]

def mostOfAll : Quantity :=
  { Quantity.zero with magnitude := 2 ^ 96 - 1, magnitude_lt := by decide }

def tenth : Quantity := ⟨false, 1, 1, by decide, by decide⟩

/-- What can be seen of the draft that waits: it comes first under its key, it is committed, and the
balance at its destination does not change. -/
theorem brimful_draft : (Books.opened.run brimful).drafts.map (fun d =>
    (d.move.item, d.move.origin, d.move.destination, d.move.quantity)) =
      [(.fresh 0 1, .fresh 0 6, .fresh 0 3, tenth)] ∧
    (∀ d ∈ (Books.opened.run brimful).drafts,
      find? (Books.opened.run brimful).store.receipts d.call.receiptKey =
        (.ok none : Except Fault (Option Receipt)) ∧
      (commit d ⟨1⟩ (Books.opened.run brimful).store).1 = .ok (.ok (.fresh 0 7)) ∧
      balance (.fresh 0 1) (.fresh 0 3) (Books.opened.run brimful).store =
        .ok ⟨.fresh 0 1, .fresh 0 3, mostOfAll, .zero⟩ ∧
      balance (.fresh 0 1) (.fresh 0 3) (commit d ⟨1⟩ (Books.opened.run brimful).store).2 =
        .ok ⟨.fresh 0 1, .fresh 0 3, mostOfAll, .zero⟩) := by
  constructor
  · decide +kernel
  · decide +kernel

/-- A commitment can be neither exact nor refused: what is taken at the origin never arrives. -/
theorem not_always_exact : ¬ ∀ (actions : List Action) (place : Nat) (d : Draft) (now : Date),
    (Books.opened.run actions).drafts[place]? = some d → now.Storable →
    find? (Books.opened.run actions).store.receipts d.call.receiptKey =
      (.ok none : Except Fault (Option Receipt)) →
    d.ExactOrRefused now (Books.opened.run actions).store := by
  -- the balance at the destination is the same before and after, and a tenth is not nothing
  intro hall
  obtain ⟨hwaiting, hseen⟩ := brimful_draft
  obtain ⟨d, hdrafts, hd⟩ := List.map_eq_singleton_iff.1 hwaiting
  simp only [Prod.mk.injEq] at hd
  obtain ⟨hitem, horigin, hdestination, hquantity⟩ := hd
  obtain ⟨hfirst, hcommit, hbefore, hafter⟩ := hseen d (by rw [hdrafts]; exact List.mem_cons_self)
  have hexact := hall brimful 0 d ⟨1⟩ (by rw [hdrafts]; rfl) (by decide) hfirst
  rcases hexact with ⟨location, hrefused⟩ | ⟨before, after, s', hdone, hb, ha, hchanged⟩
  · rw [hrefused] at hcommit
    cases hcommit
  · rw [hdone] at hafter
    have hheld : before (.fresh 0 1) (.fresh 0 3) = mostOfAll :=
      congrArg Balance.onHand (Except.ok.inj ((hb _ _).symm.trans hbefore))
    have hleft : after (.fresh 0 1) (.fresh 0 3) = mostOfAll :=
      congrArg Balance.onHand (Except.ok.inj ((ha _ _).symm.trans hafter))
    have hvalue := hchanged (.fresh 0 3)
    rw [hitem, horigin, hdestination, hquantity, hheld, hleft, if_pos rfl,
      if_neg (by decide +kernel), sub_zero] at hvalue
    have htenth : tenth.value = 0 := by linarith
    rw [Quantity.value] at htenth
    norm_num [tenth, Quantity.units] at htenth

theorem commit_rounding_brimful : ∃ d held, (Books.opened.run brimful).drafts[0]? = some d ∧
    Holds (Books.opened.run brimful).store held ∧
    d.Rounding ⟨1⟩ (Books.opened.run brimful).store held := by
  obtain ⟨hwaiting, hseen⟩ := brimful_draft
  obtain ⟨d, hdrafts, -⟩ := List.map_eq_singleton_iff.1 hwaiting
  have hplace : (Books.opened.run brimful).drafts[0]? = some d := by rw [hdrafts]; rfl
  obtain ⟨hfirst, -⟩ := hseen d (List.mem_of_getElem? hplace)
  obtain ⟨held, hholds, hrounding⟩ :=
    commit_rounding hplace (show Date.Storable ⟨1⟩ by decide) hfirst
  exact ⟨d, held, hplace, hholds, hrounding⟩

end Stockroom.Ledger
