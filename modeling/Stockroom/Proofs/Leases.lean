import Stockroom.Proofs.PostedEvents

/-!
# Leases

A worker looks for free events first and stamps them later, and by then others may have taken some
of them. The stamp looks again, so what was seen before it does not matter: an event under a live
lease is given to nobody, whoever asks for it. Only a failure that its holder reports frees it
early. An event that was sent is never given out again.

Results:
1. `Books.Linked.granted_taken`: an event that is given out is taken.
2. `Event.Taken.report`: a report leaves it taken, unless it is a failure of its holder.
3. `Books.Linked.granted_ne`: what is not free is given to nobody.
4. `leases_hold`: the guarantee.
-/
namespace Stockroom

namespace Outbox

variable {now leaseEnd : Date} {worker : String}

/-- Sent, or under the lease of a worker until its end. -/
def Event.Taken (worker : String) (leaseEnd : Date) (e : Event) : Prop :=
  e.sentAt.isSome ∨ (e.claimedBy = some worker ∧ e.leaseEnd = some leaseEnd)

theorem Event.not_claimable_of_sent {e : Event} (h : e.sentAt.isSome) :
    ¬ e.isClaimable now = true :=
  fun hfree => Event.not_isPending_iff.2 h (Event.isPending_of_isClaimable hfree)

theorem Event.not_claimable_of_leased {e : Event} {t : Instant} (hend : e.leaseEnd = some t)
    (hlive : (now : Instant) < t) : ¬ e.isClaimable now = true := by
  intro hfree
  have hover := (Bool.and_eq_true_iff.1 hfree).2
  rw [Event.isUnleased, hend] at hover
  exact absurd (of_decide_eq_true hover) (Instant.not_le.2 hlive)

theorem Event.Taken.not_claimable {e : Event} (h : e.Taken worker leaseEnd)
    (hlive : now < leaseEnd) : ¬ e.isClaimable now = true := by
  rcases h with hsent | ⟨-, hend⟩
  · exact Event.not_claimable_of_sent hsent
  · exact Event.not_claimable_of_leased hend (Instant.ofDate_lt_ofDate.2 hlive)

/-- A report leaves an event taken, unless it is a failure of its holder. -/
theorem Event.Taken.report {e after : Event} {reporter : String} {outcome : Outcome}
    (h : e.Taken worker leaseEnd) (hreport : Event.report now reporter e outcome = some after)
    (hother : reporter = worker → ∀ reason, outcome ≠ .failed reason) :
    after.Taken worker leaseEnd := by
  obtain ⟨hpending, ⟨-, rfl⟩ | ⟨reason, hfailed, hholder, rfl⟩⟩ := report_cases hreport
  · exact .inl rfl
  · rcases h with hsent | ⟨hclaimed, -⟩
    · exact absurd hpending (Event.not_isPending_iff.2 hsent)
    · rw [hholder] at hclaimed
      exact absurd hfailed (hother (Option.some.inj hclaimed) reason)

theorem sent_report {e after : Event} {outcome : Outcome}
    (hreport : Event.report now worker e outcome = some after) (hsent : e.sentAt.isSome) :
    after.sentAt.isSome := by
  obtain ⟨hpending, -⟩ := report_cases hreport
  exact absurd hpending (Event.not_isPending_iff.2 hsent)

/-- An event that was recorded as sent is sent, whatever is recorded after it. -/
theorem recordEach_sent {s s' : Store} {outcomes recorded : List (UInt64 × Outcome)}
    (hreasons : ∀ o ∈ outcomes, ∀ reason, o.2 = .failed reason → Sized reason)
    (h : recordEach now worker outcomes s = .ok (recorded, s')) (hs : Sound s) {id : UInt64}
    (hmem : (id, .sent) ∈ recorded) : Has s' id (·.sentAt.isSome) := by
  induction outcomes generalizing s recorded with
  | nil =>
    obtain ⟨rfl, -⟩ := Store.Transaction.pure_ok.1 h
    cases hmem
  | cons head outcomes ih =>
    obtain ⟨first, outcome⟩ := head
    obtain ⟨hfirst, hothers⟩ := List.forall_mem_cons.1 hreasons
    obtain ⟨changed, s₁, later, hone, hrest, rfl⟩ := recordEach_cons_ok h
    rcases recordOne_ok hone with ⟨rfl, rfl⟩ | ⟨e, after, row, hfind, hreport, rfl, hrow, rfl⟩
    · exact ih hothers hrest hs hmem
    have hnext := hs.reported hfirst hfind hreport hrow
    rcases List.mem_cons.1 hmem with heq | hmem
    · cases heq
      obtain ⟨hkey, hlasting, -⟩ := hs.found hfind
      have hlasting' := hlasting.report hfirst hreport
      obtain ⟨-, ⟨-, rfl⟩ | ⟨reason, hfailed, -⟩⟩ := report_cases hreport
      · obtain rfl : id = e.id := Event.key_injective hkey
        have hevents : ((settle e.id .sent s).update .events
            (·.insert (Event.key e.id) row)).events = s.events.insert (Event.key e.id) row :=
          congrArg (·.insert (Event.key e.id) row) (settle_events e.id .sent s)
        have hmade := has_made (F := (·.sentAt.isSome)) (e := e.sent now) hlasting' hrow rfl hevents
        -- what is recorded later finds the event sent and leaves it so
        have hkept := recordEach_invariant (P := fun s => Sound s ∧ Has s e.id (·.sentAt.isSome))
          hrest (fun s e' after' row' other outcome' hmem hs hfind hreport hrow => ?_)
          ⟨hnext, hmade⟩
        · exact hkept.2
        · have hreason := hothers _ ((recordEach_sublist hrest).subset hmem)
          exact ⟨hs.1.reported hreason hfind hreport hrow,
            hs.2.reported hs.1 hreason hfind hreport hrow fun _ => sent_report hreport⟩
      · cases hfailed
    · exact ih hothers hrest hnext hmem

end Outbox

namespace Ledger

open Outbox (Event Has Sound)
open Store (find?)

namespace Books

/-! ## What is given out -/

/-- The events that an action gives to a worker. -/
def granted (b : Books) : Action → List Event
  | .stamp now worker lease ids =>
    (Outbox.stamp now worker lease ids b.store).1.toOption.getD []
  | .claim seen stamped worker limit lease =>
    (Outbox.claim seen stamped worker limit lease b.store).1.toOption.getD []
  | _ => []

theorem mem_getD {α ε : Type} {x : Except ε (List α)} {a : α} (h : a ∈ x.toOption.getD []) :
    ∃ as, x = .ok as ∧ a ∈ as := by
  cases x with
  | error e => cases h
  | ok as => exact ⟨as, rfl, h⟩

/-- Whatever a worker looked at before, what it gets it gets by a stamp. -/
theorem granted_cases {b : Books} {a : Action} {e : Event} (h : e ∈ b.granted a) :
    ∃ stamp ids events, stamp ∈ a.stamp? ∧
      Outbox.stamp stamp.now stamp.worker stamp.lease ids b.store =
        (.ok events, (b.act a).store) ∧ e ∈ events := by
  cases a with
  | stamp now worker lease ids =>
    obtain ⟨events, hevents, he⟩ := mem_getD h
    exact ⟨_, ids, events, rfl, Prod.ext hevents rfl, he⟩
  | claim seen stamped worker limit lease =>
    obtain ⟨events, hevents, he⟩ := mem_getD h
    obtain ⟨ids, hstamp⟩ := Outbox.claim_ok (Prod.ext hevents rfl)
    exact ⟨_, ids, events, rfl, hstamp, he⟩
  | consider | commit | complete | reopen => cases h

/-- An event that is given out is taken. -/
theorem Linked.granted_taken {b : Books} (h : b.Linked) {a : Action} (ha : a.Texts) {e : Event}
    (he : e ∈ b.granted a) {stamp : Stamp} (hstamp : stamp ∈ a.stamp?) :
    e.claimedBy = some stamp.worker ∧ e.leaseEnd = some (stamp.now.after stamp.lease) ∧
      Has (b.act a).store e.id (Event.Taken stamp.worker (stamp.now.after stamp.lease)) := by
  obtain ⟨stamp', ids, events, hstamp', hrun, he⟩ := granted_cases he
  obtain rfl := Option.some.inj (hstamp'.symm.trans hstamp)
  have hworker := ha.worker hstamp
  refine Outbox.stamp_ok (P := Sound) (R := fun e s => e.claimedBy = some stamp'.worker ∧
    e.leaseEnd = some (stamp'.now.after stamp'.lease) ∧
    Has s e.id (Event.Taken stamp'.worker (stamp'.now.after stamp'.lease)))
    (Outbox.keptByStamps_sound hworker _) ?_ ?_ hrun h.notices.sound e he
  · intro s e row id hs hfind hfree hrow
    obtain ⟨-, hlasting, -⟩ := hs.found hfind
    exact ⟨rfl, rfl, Outbox.has_made (hlasting.claim hworker _) hrow (.inr ⟨rfl, rfl⟩) rfl⟩
  · rintro event s e row id ⟨hs, hholder, hend, htaken⟩ hfind hfree hrow
    exact ⟨hs.stamped hworker hfind hfree hrow, hholder, hend,
      htaken.stamped hs hworker hfind hrow fun _ _ => .inr ⟨rfl, rfl⟩⟩

/-- An event that is given out is the notice of a committed move. -/
theorem Linked.granted_tells {b : Books} (h : b.Linked) {a : Action} (ha : a.Texts) {e : Event}
    (he : e ∈ b.granted a) : ∃ p ∈ b.posted, Tells e p := by
  obtain ⟨stamp, ids, events, hstamp, hrun, he⟩ := granted_cases he
  have hworker := ha.worker hstamp
  refine Outbox.stamp_ok (P := (Notices · b.posted)) (R := fun e _ => ∃ p ∈ b.posted, Tells e p)
    (keptByStamps_notices hworker _) ?_ ?_ hrun h.notices e he
  · intro s e row id hs hfind hfree hrow
    obtain ⟨p, hp, htells⟩ := hs.tells hfind
    exact ⟨p, hp, htells.id, htells.topic, htells.payload, htells.lasting.claim hworker _⟩
  · rintro event s e row id ⟨hs, htells⟩ hfind hfree hrow
    exact ⟨hs.stamped hworker hfind hfree hrow, htells⟩

/-- An event that is not free is given to nobody. -/
theorem Linked.granted_ne {b : Books} (h : b.Linked) {a : Action} (ha : a.Texts) {id : UInt64}
    {F : Event → Prop} (hhas : Has b.store id F)
    (hheld : ∀ stamp ∈ a.stamp?, ∀ e : Event, F e → ¬ e.isClaimable stamp.now = true) :
    ∀ e ∈ b.granted a, e.id ≠ id := by
  intro e he
  obtain ⟨stamp, ids, events, hstamp, hrun, he⟩ := granted_cases he
  have hworker := ha.worker hstamp
  have hkept : Outbox.KeptByStamps (fun s => Sound s ∧ Has s id F) stamp.now stamp.worker
      (stamp.now.after stamp.lease) := by
    intro s e row other hs hfind hfree hrow
    exact ⟨hs.1.stamped hworker hfind hfree hrow, hs.2.stamped hs.1 hworker hfind hrow
      fun _ hF => absurd hfree (hheld stamp hstamp e hF)⟩
  refine Outbox.stamp_ok (P := fun s => Sound s ∧ Has s id F) (R := fun e _ => e.id ≠ id)
    hkept ?_ ?_ hrun ⟨h.notices.sound, hhas⟩ e he
  · intro s e row other hs hfind hfree hrow hid
    -- the event that was stamped is the one that is not free
    obtain ⟨hkey, -⟩ := hs.1.found hfind
    rw [hkey] at hfind
    have hid : e.id = id := hid
    exact hheld stamp hstamp e (hs.2.found (hid ▸ hfind)) hfree
  · intro event s e row other hs hfind hfree hrow
    exact ⟨hkept s e row other hs.1 hfind hfree hrow, hs.2⟩

/-! ## What stays taken -/

theorem Linked.taken_run {b : Books} (h : b.Linked) {actions : List Action}
    (htexts : ∀ a ∈ actions, a.Texts) (hfits : (b.run actions).store.counter.Fits) {id : UInt64}
    {worker : String} {leaseEnd : Date}
    (hlive : ∀ stamp ∈ actions.filterMap Action.stamp?, stamp.now < leaseEnd)
    (hnone : ∀ reason, (worker, id, .failed reason) ∉ b.recordedIn actions)
    (hhas : Has b.store id (Event.Taken worker leaseEnd)) :
    Has (b.run actions).store id (Event.Taken worker leaseEnd) := by
  refine h.has_run htexts hfits ?_ ?_ hhas
  · intro stamp hmem e hfree htaken
    exact absurd hfree (htaken.not_claimable (hlive stamp hmem))
  · intro reporter outcome hmem now e after hreport htaken
    refine htaken.report hreport fun hreporter reason hfailed => ?_
    rw [hreporter, hfailed] at hmem
    exact hnone reason hmem

theorem Linked.sent_run {b : Books} (h : b.Linked) {actions : List Action}
    (htexts : ∀ a ∈ actions, a.Texts) (hfits : (b.run actions).store.counter.Fits) {id : UInt64}
    (hhas : Has b.store id (·.sentAt.isSome)) :
    Has (b.run actions).store id (·.sentAt.isSome) := by
  refine h.has_run htexts hfits ?_ ?_ hhas
  · intro stamp _ e hfree hsent
    exact absurd hfree (Event.not_claimable_of_sent hsent)
  · intro _ _ _ _ e after hreport hsent
    exact Outbox.sent_report hreport hsent

theorem Linked.recorded_sent {b : Books} (h : b.Linked) {a : Action} (ha : a.Texts)
    {worker : String} {id : UInt64} (hmem : (worker, id, .sent) ∈ b.recorded a) :
    Has (b.act a).store id (·.sentAt.isSome) := by
  cases a with
  | complete now reporter outcomes =>
    rcases act_complete b now reporter outcomes with ⟨recorded, hrun, heq⟩ | ⟨-, heq⟩
    · rw [heq] at hmem
      obtain ⟨o, ho, heq⟩ := List.mem_map.1 hmem
      cases heq
      exact Outbox.recordEach_sent ha hrun h.notices.sound ho
    · rw [heq] at hmem
      cases hmem
  | consider | commit | stamp | claim | reopen => cases hmem

/-! ## The guarantee -/

/-- What is promised of the leases in a run. -/
structure LeasesHold (actions : List Action) : Prop where
  /-- What a worker is given is under its lease. -/
  stamped : ∀ before first after, actions = before ++ first :: after →
    ∀ e ∈ (opened.run before).granted first, ∀ stamp ∈ first.stamp?,
      e.claimedBy = some stamp.worker ∧ e.leaseEnd = some (stamp.now.after stamp.lease)
  /-- While the lease is live nobody is given the event again, unless a failure of the worker was
  recorded in between. -/
  exclusive : ∀ before first between second after,
    actions = before ++ first :: (between ++ second :: after) →
    ∀ e ∈ (opened.run before).granted first, ∀ stamp ∈ first.stamp?, ∀ leaseEnd ∈ e.leaseEnd,
      ∀ later ∈ second.stamp?, (later.now : Instant) < leaseEnd →
      (∀ reason, (stamp.worker, e.id, .failed reason) ∉
        ((opened.run before).act first).recordedIn between) →
      ∀ e' ∈ (opened.run (before ++ first :: between)).granted second, e'.id ≠ e.id
  /-- An event that was recorded as sent is never given out again. -/
  sent : ∀ before first between second after,
    actions = before ++ first :: (between ++ second :: after) →
    ∀ worker id, (worker, id, .sent) ∈ (opened.run before).recorded first →
      ∀ e' ∈ (opened.run (before ++ first :: between)).granted second, e'.id ≠ id

end Books

/-- Whatever the order of the steps, leases hold under a clock that never goes back. -/
theorem leases_hold {actions : List Action} (htexts : ∀ a ∈ actions, a.Texts)
    (hclock : (actions.filterMap Action.stamp?).Pairwise fun stamp later => stamp.now ≤ later.now)
    (hfits : (Books.opened.run actions).store.counter.Fits) : Books.LeasesHold actions := by
  -- what is known of the books before each action of the run
  have hlinked : ∀ before rest, actions = before ++ rest →
      (Books.opened.run before).Linked ∧ (Books.opened.run before).store.counter.Fits := by
    rintro before rest rfl
    rw [Books.run_append] at hfits
    have hbefore := Books.fits_of_run (Books.ordered_run before) hfits
    exact ⟨Books.linked_run (fun a ha => htexts a (List.mem_append_left _ ha)) hbefore, hbefore⟩
  constructor
  case stamped =>
    rintro before first after rfl e he stamp hstamp
    have hfirst := htexts first (List.mem_append_right _ List.mem_cons_self)
    obtain ⟨hholder, hend, -⟩ := (hlinked _ _ rfl).1.granted_taken hfirst he hstamp
    exact ⟨hholder, hend⟩
  case exclusive =>
    rintro before first between second after rfl e he stamp hstamp leaseEnd hend later hlater hlive
      hnone
    obtain ⟨-, hrest⟩ := List.forall_mem_append.1 htexts
    obtain ⟨hfirst, hrest⟩ := List.forall_mem_cons.1 hrest
    obtain ⟨hbetween, hrest⟩ := List.forall_mem_append.1 hrest
    have hsecond := hrest second List.mem_cons_self
    have hbefore := (hlinked before _ rfl).1
    obtain ⟨hstart, -⟩ := hlinked (before ++ [first]) (between ++ second :: after) (by simp)
    obtain ⟨hthen, hthenFits⟩ := hlinked (before ++ first :: between) (second :: after) (by simp)
    rw [Books.run_append] at hstart hthen hthenFits ⊢
    obtain ⟨-, hgiven, htaken⟩ := hbefore.granted_taken hfirst he hstamp
    obtain rfl := Option.some.inj (hgiven.symm.trans hend)
    have hlive := Instant.ofDate_lt_ofDate.1 hlive
    -- every stamp in between came before the later one
    rw [List.pairwise_filterMap, List.pairwise_append, List.pairwise_cons, List.pairwise_append]
      at hclock
    obtain ⟨-, ⟨-, -, -, hcross⟩, -⟩ := hclock
    have hkept := hstart.taken_run hbetween hthenFits (fun middle hmem => ?_) hnone htaken
    · refine hthen.granted_ne hsecond hkept fun stamp' hstamp' e' htaken' => ?_
      obtain rfl := Option.some.inj (hstamp'.symm.trans hlater)
      exact htaken'.not_claimable hlive
    · obtain ⟨a, ha, hmiddle⟩ := List.mem_filterMap.1 hmem
      exact Int.lt_of_le_of_lt (hcross a ha second List.mem_cons_self middle hmiddle later hlater)
        hlive
  case sent =>
    rintro before first between second after rfl worker id hmem
    obtain ⟨-, hrest⟩ := List.forall_mem_append.1 htexts
    obtain ⟨hfirst, hrest⟩ := List.forall_mem_cons.1 hrest
    obtain ⟨hbetween, hrest⟩ := List.forall_mem_append.1 hrest
    have hsecond := hrest second List.mem_cons_self
    have hbefore := (hlinked before _ rfl).1
    have hstart := (hlinked (before ++ [first]) (between ++ second :: after) (by simp)).1
    obtain ⟨hthen, hthenFits⟩ := hlinked (before ++ first :: between) (second :: after) (by simp)
    rw [Books.run_append] at hstart hthen hthenFits ⊢
    have hsent := hstart.sent_run hbetween hthenFits (hbefore.recorded_sent hfirst hmem)
    exact hthen.granted_ne hsecond hsent fun _ _ e' hsent' => Event.not_claimable_of_sent hsent'

/-! ### A lease that runs out -/

/-- One worker is given an event. Another one that saw it free comes too late, and is given it once
the lease has run out; after that the first one fails, which is not recorded, and succeeds. -/
def handover : List Action :=
  [.consider (.plain "a" "5" 2 3) (.fresh 0 5) ⟨0⟩, .commit 0 ⟨1⟩,
    .claim ⟨2⟩ ⟨3⟩ "worker" 8 (.ofNanos 60), .stamp ⟨40⟩ "other" (.ofNanos 60) [0],
    .claim ⟨63⟩ ⟨64⟩ "other" 8 (.ofNanos 60), .complete ⟨70⟩ "worker" [(0, .failed "down")],
    .complete ⟨71⟩ "worker" [(0, .sent)], .claim ⟨130⟩ ⟨130⟩ "other" 8 (.ofNanos 60)]

theorem leases_hold_handover : Books.LeasesHold handover ∧
    ((Books.opened.run (handover.take 4)).granted
      (.claim ⟨63⟩ ⟨64⟩ "other" 8 (.ofNanos 60))).map (·.id) = [0] := by
  have hsized : Sized "worker" ∧ Sized "other" ∧ Sized "down" := by
    simp only [Sized]
    decide
  obtain ⟨hworker, hother, hdown⟩ := hsized
  have htexts : ∀ a ∈ handover, a.Texts := by
    simp only [handover, List.forall_mem_cons]
    exact ⟨trivial, trivial, hworker, hother, hother,
      List.forall_mem_singleton.2 (Outbox.Outcome.texts_failed hdown),
      List.forall_mem_singleton.2 Outbox.Outcome.texts_sent, hother, List.forall_mem_nil _⟩
  have hseen : (Books.opened.run handover).store.counter.last? = some 1 ∧
      ((Books.opened.run (handover.take 4)).granted
        (.claim ⟨63⟩ ⟨64⟩ "other" 8 (.ofNanos 60))).map (·.id) = [0] := by decide +kernel
  exact ⟨leases_hold htexts (by decide) (.of_last hseen.1 (by decide)), hseen.2⟩

end Ledger

end Stockroom
