import Stockroom.Proofs.Flows
import Stockroom.Proofs.Listings

/-!
# Conservation

Moves only carry things from place to place. As long as the quantities sent for an item, counted in
units of its smallest decimals, stay below 96 bits in all, nothing is refused for want of digits and
nothing is rounded: every balance is what was brought less what was taken, and the item amounts to
nothing in all.

Results:
1. `Shows.listed` and `sumOnHand_exact`: the balances of an item are listed, each once, and their
   sum is exact whatever their order.
2. `Books.entered_run`: what was committed or waits to be was sent.
3. `conserved`: the guarantee, after every step of every run.
-/
namespace Stockroom.Ledger

open Store (find?)

variable {item : Identifier} {scale : Nat}

/-! ## Lists of balances -/

/-- The balances of an item are listed in the order of their locations; where there is no balance
there is nothing. -/
theorem Shows.listed {s : Store} {h : Holdings} (hshows : Shows s.balances h)
    (item : Identifier) :
    ∃ ls : List Identifier, ls.Pairwise (· < ·) ∧
      balances (.ofItem item) s = .ok (ls.map (h.balance item)) ∧
      ∀ l, l ∉ ls → h item l = .zero := by
  obtain ⟨bs, hbs, hof⟩ := hshows.exists_tabulates
  have hadmits : ∀ b : Balance, (Filter.ofItem item).admits b = true ↔ item = b.item := by
    simp [Filter.admits, Filter.ofItem]
  have hmem : ∀ b : Balance, b ∈ bs.filter (Filter.ofItem item).admits ↔
      b ∈ bs ∧ item = b.item := by
    intro b
    rw [List.mem_filter, hadmits]
  refine ⟨(bs.filter (Filter.ofItem item).admits).map (·.location), ?_, ?_, fun l hl => ?_⟩
  · rw [List.pairwise_map]
    refine (hbs.ascending.filter _).imp_of_mem fun {x y} hx hy hbefore => ?_
    have hitem : x.item = y.item := ((hmem x).1 hx).2.symm.trans ((hmem y).1 hy).2
    rcases hbefore with hlt | ⟨-, hlt⟩
    · rw [hitem] at hlt
      exact absurd hlt (List.lt_irrefl _)
    · exact hlt
  · have hall : (Filter.ofItem item).choose bs = bs.filter (Filter.ofItem item).admits := rfl
    rw [hbs.balances_eq, hall, List.map_map]
    refine congrArg Except.ok (Eq.trans (List.map_id _).symm (List.map_congr_left fun b hb => ?_))
    obtain ⟨hin, rfl⟩ := (hmem b).1 hb
    exact hof b hin
  · refine hshows.absent item l ?_
    rw [← Option.not_isSome_iff_eq_none, hbs.isSome_get?_iff]
    rintro ⟨b, hb, hitem, rfl⟩
    exact hl (List.mem_map_of_mem ((hmem b).2 ⟨hb, hitem.symm⟩))

/-- Balances with few decimals have an exact sum, as long as no partial sum has many units. -/
theorem sumOnHand_exact (hscale : scale ≤ 28) {h : Holdings} {units : Identifier → Int}
    (hcounts : Counts item scale h units) {sum : Quantity} (hsum : sum.scale ≤ scale)
    {ls : List Identifier}
    (hsmall : ∀ n, (sum.unitsAt scale + ((ls.take n).map units).sum).natAbs < 2 ^ 96) :
    ∃ q, sumOnHand sum (ls.map (h.balance item)) = .ok q ∧ q.scale ≤ scale ∧
      q.unitsAt scale = sum.unitsAt scale + (ls.map units).sum := by
  induction ls generalizing sum with
  | nil => exact ⟨sum, rfl, hsum, by simp⟩
  | cons l ls ih =>
    obtain ⟨hdecimals, hunits⟩ := hcounts l
    have hfirst := hsmall 1
    simp only [List.take_succ_cons, List.take_zero, List.map_cons, List.map_nil, List.sum_cons,
      List.sum_nil, add_zero] at hfirst
    rw [← hunits] at hfirst
    obtain ⟨r, hr, hrscale, hrunits⟩ := Quantity.add?_of_small hscale hsum hdecimals hfirst
    obtain ⟨q, hq, hqscale, hqunits⟩ := ih hrscale fun n => by
      have hnext := hsmall (n + 1)
      rw [List.take_succ_cons, List.map_cons, List.sum_cons, ← hunits, ← add_assoc, ← hrunits]
        at hnext
      exact hnext
    refine ⟨q, ?_, hqscale, ?_⟩
    · have hadd : sum.add? (h.balance item l).onHand = some r := hr
      rw [List.map_cons, sumOnHand, hadd]
      exact hq
    · rw [hqunits, hrunits, hunits, List.map_cons, List.sum_cons, add_assoc]

/-- What has few units at every location and none in all is summed up to nothing. -/
theorem Shows.total_eq {s : Store} {h : Holdings} (hshows : Shows s.balances h)
    (hscale : scale ≤ 28) {ms : List Move} (hms : ∀ m ∈ ms, m.Fits item scale)
    (hsmall : volume item scale ms < 2 ^ 96) (hcounts : Counts item scale h (net item scale ms)) :
    ∃ q, total item s = .ok q ∧ q.value = 0 := by
  obtain ⟨ls, hascending, hlisted, habsent⟩ := hshows.listed item
  have hnodup : ls.Nodup := by
    refine hascending.imp fun {a b} hlt heq => ?_
    rw [heq] at hlt
    exact List.lt_irrefl _ hlt
  have hpositive : ∀ m ∈ ms, m.quantity.isPositive = true := fun m hm => (hms m hm).positive
  have hpartial : ∀ n, (Quantity.zero.unitsAt scale +
      ((ls.take n).map (net item scale ms)).sum).natAbs < 2 ^ 96 := by
    intro n
    have hsum := List.sum_toFinset (net item scale ms) (hnodup.sublist (List.take_sublist n ls))
    have hbound := abs_le.1 (abs_net_sum_le item scale hpositive (ls.take n).toFinset)
    rw [hsum] at hbound
    rw [Quantity.unitsAt_of_isZero rfl]
    omega
  obtain ⟨q, hq, hqscale, hqunits⟩ := sumOnHand_exact hscale hcounts (Nat.zero_le _) hpartial
  refine ⟨q, ?_, ?_⟩
  · rw [total, hlisted]
    exact hq
  · -- where there is no balance nothing was gained, so the sum is one over all locations
    have hall : ∑ l ∈ ls.toFinset, net item scale ms l = 0 := by
      have hsubset : ls.toFinset ⊆
          ls.toFinset ∪ (ms.map (·.origin) ++ ms.map (·.destination)).toFinset :=
        Finset.subset_union_left
      rw [Finset.sum_subset hsubset fun l _ hl => ?_]
      · refine net_sum_eq_zero fun m hm => ?_
        simp only [Finset.mem_union, List.mem_toFinset, List.mem_append, List.mem_map]
        exact ⟨.inr (.inl ⟨m, hm, rfl⟩), .inr (.inr ⟨m, hm, rfl⟩)⟩
      · have hunits := (hcounts l).2
        rw [habsent l fun hmem => hl (List.mem_toFinset.2 hmem)] at hunits
        exact hunits.symm.trans (Quantity.unitsAt_of_isZero rfl scale)
    rw [List.sum_toFinset _ hnodup] at hall
    have hcast := Quantity.cast_unitsAt hqscale
    rw [hqunits, hall, Quantity.unitsAt_of_isZero rfl] at hcast
    simpa using hcast.symm

/-! ## What is sent -/

section

variable (item : Identifier) (scale : Nat)

/-- A call asks for a move of the item. -/
def Call.AsksFor (c : Call) : Prop := ∃ valid, c.request.validate = .ok valid ∧ valid.item = item

/-- What the call asks to move of the item has few decimals. -/
def Call.Fits (c : Call) : Prop :=
  ∀ valid, c.request.validate = .ok valid → valid.item = item → valid.quantity.scale ≤ scale

/-- The units of the item that a call asks to move. -/
def Call.unitsOf (c : Call) : Int :=
  match c.request.validate with
  | .ok valid => if valid.item = item then valid.quantity.unitsAt scale else 0
  | .error _ => 0

/-- The units of the item that an action sends. -/
def Action.sent (a : Action) : Int := (a.call?.map (·.unitsOf item scale)).getD 0

/-- The units of the item that were committed or wait to be. -/
def Books.entered (b : Books) : Int :=
  volume item scale b.moves + volume item scale (b.drafts.map (·.move))

end

theorem Call.unitsOf_nonneg (item : Identifier) (scale : Nat) (c : Call) :
    0 ≤ c.unitsOf item scale := by
  unfold Call.unitsOf
  split
  · next valid hvalid =>
    split
    · exact Quantity.unitsAt_nonneg (validate_positive hvalid) scale
    · exact Int.le_refl _
  · exact Int.le_refl _

theorem Action.sent_consider (item : Identifier) (scale : Nat) (c : Call) (id : Identifier)
    (now : Date) : (consider c id now).sent item scale = c.unitsOf item scale := by
  rw [sent, call?, Option.map_some, Option.getD_some]

theorem Action.sent_nonneg (item : Identifier) (scale : Nat) (a : Action) :
    0 ≤ a.sent item scale := by
  unfold Action.sent
  cases a.call? with
  | none => exact Int.le_refl _
  | some c =>
    rw [Option.map_some, Option.getD_some]
    exact c.unitsOf_nonneg item scale

/-- A draft moves what its call asks for. -/
theorem Draft.Genuine.unitsOf_eq {d : Draft} (hd : d.Genuine) (item : Identifier) (scale : Nat) :
    d.move.unitsOf item scale = d.call.unitsOf item scale := by
  obtain ⟨valid, hvalid, hmove⟩ := hd.read
  rw [hmove, Call.unitsOf, hvalid]
  rfl

theorem Draft.Genuine.fits {d : Draft} (hd : d.Genuine) (hcall : d.call.Fits item scale) :
    d.move.Fits item scale := by
  refine ⟨hd.positive, fun hitem => ?_⟩
  obtain ⟨valid, hvalid, hmove⟩ := hd.read
  rw [hmove] at hitem ⊢
  exact hcall valid hvalid hitem

theorem Draft.Genuine.asksFor {d : Draft} (hd : d.Genuine) (hcall : d.call.AsksFor item) :
    d.move.item = item := by
  obtain ⟨valid, hvalid, hmove⟩ := hd.read
  obtain ⟨valid', hvalid', hitem⟩ := hcall
  rw [hvalid] at hvalid'
  cases hvalid'
  rw [hmove]
  exact hitem

theorem volume_nonneg (item : Identifier) (scale : Nat) {ms : List Move}
    (h : ∀ m ∈ ms, m.quantity.isPositive = true) : 0 ≤ volume item scale ms :=
  (abs_nonneg _).trans (abs_net_sum_le item scale h ∅)

/-- What waits is what one draft moves and what all others do. -/
theorem volume_eraseIdx (item : Identifier) (scale : Nat) {drafts : List Draft} {place : Nat}
    {d : Draft} (hplace : drafts[place]? = some d) :
    d.move.unitsOf item scale + volume item scale ((drafts.eraseIdx place).map (·.move)) =
      volume item scale (drafts.map (·.move)) := by
  obtain ⟨hlt, rfl⟩ := List.getElem?_eq_some_iff.1 hplace
  have hperm := (List.getElem_cons_eraseIdx_perm hlt).map fun d => d.move.unitsOf item scale
  have hsum := hperm.sum_eq
  rw [List.map_cons, List.sum_cons] at hsum
  simpa only [volume, List.map_map, Function.comp_def] using hsum

namespace Books

theorem OfCalls.drafts_positive {Q : Call → Prop} {b : Books} (h : b.OfCalls Q) :
    ∀ m ∈ b.drafts.map (·.move), m.quantity.isPositive = true := by
  intro m hm
  obtain ⟨d, hd, rfl⟩ := List.mem_map.1 hm
  exact (h.drafts d hd).1.positive

theorem OfCalls.fits {b : Books} (h : b.OfCalls (·.Fits item scale)) :
    ∀ m ∈ b.moves, m.Fits item scale := by
  intro m hm
  obtain ⟨p, hp, rfl⟩ := List.mem_map.1 hm
  exact (h.posted p hp).1.fits (h.posted p hp).2

/-- An action enters no more than it sends. -/
theorem entered_act (item : Identifier) (scale : Nat) {Q : Call → Prop} {b : Books}
    (hcalls : b.OfCalls Q) (a : Action) :
    (b.act a).entered item scale ≤ b.entered item scale + a.sent item scale := by
  have hsent := a.sent_nonneg item scale
  have hstep := act_step b a
  generalize b.act a = b' at hstep ⊢
  unfold entered
  cases hstep with
  | @drafted c _ _ d hprepared hcall _ _ =>
    have hunits := hprepared.toGenuine.unitsOf_eq item scale
    rw [hcall] at hunits
    dsimp only [moves]
    rw [List.map_append, List.map_singleton, volume_append, hunits, Action.sent_consider]
    omega
  | @committed place now d s hplace hwrites hfirst =>
    have herase := volume_eraseIdx item scale hplace
    dsimp only [moves, tell]
    rw [List.map_append, List.map_singleton, volume_append]
    dsimp only
    omega
  | late hplace | failed hplace =>
    have herase := volume_eraseIdx item scale hplace
    have hpositive := Move.unitsOf_nonneg item scale
      (hcalls.drafts _ (List.mem_of_getElem? hplace)).1.positive
    dsimp only [moves, tell]
    omega
  | found | refused | absent | stamped | claimed | completed | reopened =>
    dsimp only [moves, tell]
    omega

/-- No more is entered than was sent. -/
theorem entered_run (item : Identifier) (scale : Nat) (actions : List Action) :
    (opened.run actions).entered item scale ≤ (actions.map (·.sent item scale)).sum := by
  -- on the last action, since what it sends comes last in the sum
  induction actions using List.reverseRecOn with
  | nil => exact Int.le_refl _
  | append_singleton actions a ih =>
    have hcalls : (opened.run actions).OfCalls fun _ => True := ofCalls_run fun _ _ _ _ => trivial
    have hact := entered_act item scale hcalls a
    rw [run_append, List.map_append, List.sum_append, List.map_singleton, List.sum_singleton]
    exact hact.trans (by omega)

/-! ## The guarantee -/

/-- No call for the item was refused because of a balance. -/
def Allowed (item : Identifier) (b : Books) : Prop :=
  ∀ t ∈ b.told, t.call.AsksFor item →
    ∀ i l, t.answer ≠ .error (.refused (.balanceOverflow i l))

theorem answer_ne_overflow (receipt : Receipt) (digest : String) (i l : Identifier) :
    receipt.answer digest ≠ .error (.refused (.balanceOverflow i l)) := by
  intro h
  rw [Receipt.answer, Receipt.replay] at h
  by_cases hdigest : receipt.digest = digest
  · rw [if_pos hdigest] at h
    simp only [bind, Except.bind] at h
    split at h <;> cases h
  · rw [if_neg hdigest] at h
    cases h

/-- A draft of few units is not refused because of a balance. -/
theorem failed_ne_overflow {b : Books} {place : Nat} {now : Date} {d : Draft} {e : Fault}
    (hscale : scale ≤ 28) (hcalls : b.OfCalls (·.Fits item scale)) (hshown : b.Shown)
    (hsmall : b.entered item scale < 2 ^ 96) (hplace : b.drafts[place]? = some d)
    (hrun : Store.atomically (d.commitOnce now) b.store = (.error e, b.store))
    (hasks : d.call.AsksFor item) (i l : Identifier) : e ≠ .refused (.balanceOverflow i l) := by
  rintro rfl
  obtain ⟨hgenuine, hfits⟩ := hcalls.drafts d (List.mem_of_getElem? hplace)
  obtain ⟨h, hholdings, hshows⟩ := hshown
  have hmoves := hcalls.fits
  have hothers : 0 ≤ volume item scale ((b.drafts.eraseIdx place).map (·.move)) := by
    refine volume_nonneg item scale fun m hm => ?_
    obtain ⟨d', hd', rfl⟩ := List.mem_map.1 hm
    exact (hcalls.drafts d' (List.mem_of_mem_eraseIdx hd')).1.positive
  -- the draft is among those that wait, so its units are entered already
  have herase := volume_eraseIdx item scale hplace
  have hpositive := Move.unitsOf_nonneg item scale hgenuine.positive
  rw [entered] at hsmall
  have hcounts := ofMoves_exact hscale hmoves (by omega) hholdings
  obtain ⟨h', happly, -⟩ := apply_exact hscale hcounts (fun m hm => (hmoves m hm).positive)
    (hgenuine.fits hfits) (hgenuine.asksFor hasks) (by omega)
  rw [(apply_of_overflow hgenuine hshows hrun).2] at happly
  cases happly

theorem Allowed.act {b : Books} {a : Action} (h : b.Allowed item) (hscale : scale ≤ 28)
    (hcalls : b.OfCalls (·.Fits item scale)) (hshown : b.Shown)
    (hsmall : b.entered item scale < 2 ^ 96) : (b.act a).Allowed item := by
  have hstep := act_step b a
  generalize b.act a = b' at hstep ⊢
  cases hstep with
  | found | late => exact forall_tell h fun _ => answer_ne_overflow _ _
  | refused hs he =>
    refine forall_tell h fun _ i l heq => he i l ?_
    cases heq
    rfl
  | committed => exact forall_tell h fun _ => nofun
  | failed hplace hrun =>
    refine forall_tell h fun hasks i l heq => ?_
    cases heq
    exact failed_ne_overflow hscale hcalls hshown hsmall hplace hrun hasks i l rfl
  | drafted | absent | stamped | claimed | completed | reopened => exact h

/-- What is promised of an item of which few units are sent. -/
structure Conserved (item : Identifier) (b : Books) : Prop where
  allowed : b.Allowed item
  /-- Every balance is what was brought less what was taken. -/
  balances : ∀ location, ∃ onHand,
    balance item location b.store = .ok ⟨item, location, onHand, .zero⟩ ∧
    onHand.value = brought item location b.moves - taken item location b.moves
  /-- The item amounts to nothing in all. -/
  total : ∃ q, total item b.store = .ok q ∧ q.value = 0

theorem conserved_of_small {b : Books} (hscale : scale ≤ 28)
    (hcalls : b.OfCalls (·.Fits item scale)) (hshown : b.Shown)
    (hsmall : b.entered item scale < 2 ^ 96) (hallowed : b.Allowed item) : b.Conserved item := by
  obtain ⟨h, hholdings, hshows⟩ := hshown
  have hwaiting := volume_nonneg item scale hcalls.drafts_positive
  have hmoved : volume item scale b.moves < 2 ^ 96 := by
    rw [entered] at hsmall
    omega
  have hcounts := ofMoves_exact hscale hcalls.fits hmoved hholdings
  refine ⟨hallowed, fun location => ⟨h item location, hshows.balanceIn_eq item location, ?_⟩,
    hshows.total_eq hscale hcalls.fits hmoved hcounts⟩
  obtain ⟨hdecimals, hunits⟩ := hcounts location
  have hcast := Quantity.cast_unitsAt hdecimals
  rw [hunits, cast_net hcalls.fits] at hcast
  exact (mul_right_cancel₀ (by positivity) hcast).symm

theorem conserved_run {actions : List Action} (hscale : scale ≤ 28)
    (hfits : ∀ a ∈ actions, ∀ c ∈ a.call?, c.Fits item scale)
    (hsmall : (actions.map (·.sent item scale)).sum < 2 ^ 96) :
    (opened.run actions).Conserved item := by
  induction actions using List.reverseRecOn with
  | nil =>
    exact conserved_of_small hscale (ofCalls_run nofun) (shown_run [])
      ((entered_run item scale []).trans_lt hsmall) nofun
  | append_singleton actions a ih =>
    have hsent := a.sent_nonneg item scale
    have hearlier : (actions.map (·.sent item scale)).sum < 2 ^ 96 := by
      rw [List.map_append, List.sum_append, List.map_singleton, List.sum_singleton] at hsmall
      omega
    have hbefore := ih (fun a ha => hfits a (List.mem_append_left _ ha)) hearlier
    have hallowed := hbefore.allowed.act (a := a) hscale
      (ofCalls_run fun a ha => hfits a (List.mem_append_left _ ha)) (shown_run actions)
      ((entered_run item scale actions).trans_lt hearlier)
    refine conserved_of_small hscale (ofCalls_run hfits) (shown_run _)
      ((entered_run item scale _).trans_lt hsmall) ?_
    rw [run_append]
    exact hallowed

end Books

/-- After every step of calls that send few units of an item, none of them was refused because of a
balance, every balance of the item is what was brought less what was taken, and all of them together
come to nothing. -/
theorem conserved {actions : List Action} (hscale : scale ≤ 28)
    (hfits : ∀ a ∈ actions, ∀ c ∈ a.call?, c.Fits item scale)
    (hsmall : (actions.map (·.sent item scale)).sum < 2 ^ 96) (n : Nat) :
    (Books.opened.run (actions.take n)).Conserved item := by
  refine Books.conserved_run hscale (fun a ha => hfits a (List.mem_of_mem_take ha)) ?_
  refine lt_of_le_of_lt ?_ hsmall
  refine ((List.take_sublist n actions).map _).sum_le_sum fun units hunits => ?_
  obtain ⟨a, -, rfl⟩ := List.mem_map.1 hunits
  exact a.sent_nonneg item scale

/-! ### There and back -/

/-- Something is moved, half of it is moved back, and the first call is sent again. -/
def thereAndBack : List Action :=
  [.consider (.plain "a" "1.5" 2 3) (.fresh 0 5) ⟨0⟩, .commit 0 ⟨0⟩,
    .consider (.plain "b" "0.75" 3 2) (.fresh 0 6) ⟨1⟩, .commit 0 ⟨1⟩,
    .consider (.plain "a" "1.50" 2 3) (.fresh 0 7) ⟨2⟩]

theorem fits_plain {key quantity : String} {origin destination scale : Nat} {q : Quantity}
    (hread : scanQuantity quantity = .ok q) (hscale : q.scale ≤ scale) (item : Identifier) :
    (Call.plain key quantity origin destination).Fits item scale := by
  intro valid hvalid _
  obtain ⟨-, hquantity, -⟩ := validate_ok hvalid
  have heq : scanQuantity quantity = .ok valid.quantity := hquantity
  rw [hread] at heq
  cases heq
  exact hscale

theorem conserved_thereAndBack :
    (thereAndBack.map (·.sent (.fresh 0 1) 2)).sum = 375 ∧
    (Books.opened.run (thereAndBack.take 4)).posted.length = 2 ∧
    (Books.opened.run (thereAndBack.take 4)).Conserved (.fresh 0 1) := by
  have hfits : ∀ a ∈ thereAndBack, ∀ c ∈ a.call?, c.Fits (.fresh 0 1) 2 := by
    simp only [thereAndBack, List.forall_mem_cons]
    refine ⟨?_, nofun, ?_, nofun, ?_, nofun⟩
    · rintro c ⟨⟩
      have hread : scanQuantity "1.5" = .ok ⟨false, 15, 1, by decide, by decide⟩ := by
        decide +kernel
      exact fits_plain hread (by decide) _
    · rintro c ⟨⟩
      have hread : scanQuantity "0.75" = .ok ⟨false, 75, 2, by decide, by decide⟩ := by
        decide +kernel
      exact fits_plain hread (by decide) _
    · rintro c ⟨⟩
      have hread : scanQuantity "1.50" = .ok ⟨false, 150, 2, by decide, by decide⟩ := by
        decide +kernel
      exact fits_plain hread (by decide) _
  have hsent : (thereAndBack.map (·.sent (.fresh 0 1) 2)).sum = 375 := by decide +kernel
  exact ⟨hsent, by decide +kernel, conserved (by decide) hfits (by omega) 4⟩

end Stockroom.Ledger
