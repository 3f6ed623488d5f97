import Stockroom.Proofs.Leases

/-!
# The end of a lease

A lease should last for as long as was asked, or for a year where that is a very long time. A time
that is too long to be measured does count as a year. But a time that can be measured may end after
the calendar does. Such a lease ends when it begins, so what was claimed under it is free at once,
and others claim it too (`not_every_lease_lasts`).

Results:
1. `Date.deadline_le_after_iff` and `Date.lt_after_iff`: which leases last.
2. `claim_leased` and `Sound.claim_leased`: every event of a claim has such a lease, as it is
   returned and as it is stored.
3. `leases_last`: the leases that last are those the calendar has room for, and no others.
4. `not_every_lease_lasts`: there are others.
-/
namespace Stockroom

namespace Date

/-! ## Which leases last -/

/-- When a lease must not be over yet: at the end of the time that was asked for, or a year from
now, whichever comes first. -/
def deadline (t : Date) (d : Duration) : Date :=
  ⟨min (t.nanos + d.nanos) (t.nanos + yearSpan)⟩

/-- The calendar has room for a duration that begins now, or for a year where the duration is too
long to be measured. -/
def HasRoomFor (t : Date) (d : Duration) : Prop :=
  t.nanos + (if d.nanos ≤ longestSpan then d.nanos else yearSpan : Nat) ≤ last.nanos

instance (t : Date) (d : Duration) : Decidable (t.HasRoomFor d) :=
  inferInstanceAs (Decidable (_ ≤ _))

variable {t : Date} {d : Duration}

theorem nanos_after (h : t.HasRoomFor d) :
    (t.after d).nanos = t.nanos + (if d.nanos ≤ longestSpan then d.nanos else yearSpan : Nat) :=
  congrArg nanos (if_pos h)

theorem after_of_no_room (h : ¬ t.HasRoomFor d) : t.after d = t := if_neg h

/-- A lease that takes some time ends later than it begins if the calendar has room for it. -/
theorem lt_after_iff (hd : .zero < d) : t < t.after d ↔ t.HasRoomFor d := by
  have hd : 0 < d.nanos := hd
  constructor
  · intro hlater
    by_contra hroom
    rw [after_of_no_room hroom] at hlater
    exact Int.lt_irrefl _ hlater
  · intro hroom
    show t.nanos < (t.after d).nanos
    rw [nanos_after hroom]
    have hyear : 0 < yearSpan := by decide
    split
    · exact Int.lt_add_of_pos_right _ (Int.natCast_pos.2 hd)
    · exact Int.lt_add_of_pos_right _ (Int.natCast_pos.2 hyear)

/-- A lease lasts until its deadline if the calendar has room for it, or if it takes no time. -/
theorem deadline_le_after_iff : t.deadline d ≤ t.after d ↔ d = .zero ∨ t.HasRoomFor d := by
  by_cases hroom : t.HasRoomFor d
  · refine ⟨fun _ => .inr hroom, fun _ => ?_⟩
    show min (t.nanos + d.nanos) (t.nanos + yearSpan) ≤ (t.after d).nanos
    rw [nanos_after hroom]
    split
    · exact Int.min_le_left _ _
    · exact Int.min_le_right _ _
  · have hyear : 0 < yearSpan := by decide
    rw [after_of_no_room hroom, or_iff_left hroom, Duration.ext_iff]
    show min (t.nanos + d.nanos) (t.nanos + yearSpan) ≤ t.nanos ↔ d.nanos = 0
    omega

end Date

namespace Outbox

/-! ## What is claimed -/

variable {s s' : Store} {seen now : Date} {worker : String} {limit : Nat} {lease : Duration}
  {events : List Event}

/-- An event that was claimed for some time is under a lease that lasts, and is not free, if the
calendar has room for it. -/
structure Event.Leased (now : Date) (lease : Duration) (e : Event) : Prop where
  stamped : e.leaseEnd = some (now.after lease)
  lasts :
    (∀ leaseEnd ∈ e.leaseEnd, (now.deadline lease : Instant) ≤ leaseEnd) ↔ now.HasRoomFor lease
  held : e.isClaimable now = false ↔ now.HasRoomFor lease

theorem Event.leased_claim (hlease : .zero < lease) {e : Event}
    (hfree : e.isClaimable now = true) (worker : String) :
    (e.claim worker (now.after lease)).Leased now lease := by
  have hsome : lease ≠ .zero := by
    rintro rfl
    exact Nat.lt_irrefl 0 hlease
  refine ⟨rfl, ?_, ?_⟩
  · show (∀ leaseEnd ∈ some (now.after lease : Instant),
      (now.deadline lease : Instant) ≤ leaseEnd) ↔ _
    simp only [Option.mem_some_iff, forall_eq', Instant.ofDate_le_ofDate,
      Date.deadline_le_after_iff, hsome, false_or]
  · have hpending : e.isPending = true := isPending_of_isClaimable hfree
    have hpending : (e.claim worker (now.after lease)).isPending = true := hpending
    rw [← Date.lt_after_iff hlease, isClaimable, hpending, Bool.true_and]
    show decide ((now.after lease : Instant) ≤ now) = false ↔ _
    rw [decide_eq_false_iff_not, Instant.ofDate_le_ofDate]
    exact Int.not_le

/-- Every event that a claim returns is under its lease, whatever the store. -/
theorem claim_leased (hlease : .zero < lease)
    (h : claim seen now worker limit lease s = (.ok events, s')) :
    ∀ e ∈ events, e.Leased now lease := by
  obtain ⟨ids, hstamp⟩ := claim_ok h
  have hkept : ∀ P : Prop, KeptByStamps (fun _ => P) now worker (now.after lease) :=
    fun _ _ _ _ _ hs _ _ _ => hs
  exact stamp_ok (P := fun _ => True) (R := fun e _ => e.Leased now lease) (hkept _)
    (fun _ _ _ _ _ _ hfree _ => Event.leased_claim hlease hfree worker) (fun _ => hkept _)
    hstamp trivial

/-- In a store that is in step the event is stored under that lease. -/
theorem Sound.claim_leased (hs : Sound s) (hworker : Sized worker) (hlease : .zero < lease)
    (h : claim seen now worker limit lease s = (.ok events, s')) :
    ∀ e ∈ events, Has s' e.id (Event.Leased now lease) := by
  obtain ⟨ids, hstamp⟩ := claim_ok h
  refine stamp_ok (P := Sound) (R := fun e s => Has s e.id (Event.Leased now lease))
    (keptByStamps_sound hworker _) ?_ ?_ hstamp hs
  · intro s e row id hs hfind hfree hrow
    obtain ⟨-, hlasting, -⟩ := hs.found hfind
    exact has_made (hlasting.claim hworker _) hrow (Event.leased_claim hlease hfree worker) rfl
  · rintro event s e row id ⟨hs, hleased⟩ hfind hfree hrow
    exact ⟨hs.stamped hworker hfind hfree hrow, hleased.stamped hs hworker hfind hrow
      fun _ _ => Event.leased_claim hlease hfree worker⟩

end Outbox

namespace Ledger

open Outbox (Event Has claim)

/-! ## The guarantee -/

/-- A lease lasts until its deadline, and keeps what was claimed from being free, exactly when the
calendar has room for it. -/
theorem leases_last (now : Date) :
    (∀ d, now.deadline d ≤ now.after d ↔ d = .zero ∨ now.HasRoomFor d) ∧
    (∀ (s s' : Store) (seen : Date) (worker : String) (limit : Nat) (lease : Duration)
      (events : List Event), .zero < lease →
      claim seen now worker limit lease s = (.ok events, s') →
      ∀ e ∈ events, e.Leased now lease) ∧
    (∀ (actions : List Action) (s' : Store) (seen : Date) (worker : String) (limit : Nat)
      (lease : Duration) (events : List Event), (∀ a ∈ actions, a.Texts) → Sized worker →
      .zero < lease →
      claim seen now worker limit lease (Books.opened.run actions).store = (.ok events, s') →
      ∀ e ∈ events, Has s' e.id (Event.Leased now lease)) := by
  refine ⟨fun _ => Date.deadline_le_after_iff, ?_, ?_⟩
  · intro s s' seen worker limit lease events hlease hclaim
    exact Outbox.claim_leased hlease hclaim
  · intro actions s' seen worker limit lease events htexts hworker hlease hclaim
    exact (Books.sound_run htexts).claim_leased hworker hlease hclaim

/-! ### A lease that ends when it begins -/

def newYear : Date := .ofUnix 1767225600 0

/-- A time that can be measured and is longer than the calendar. -/
def ages : Duration := .ofMillis (10 ^ 16)

/-- A move is committed, so one event is owed. -/
def oneOwed : List Action :=
  [.consider (.plain "a" "5" 2 3) (.fresh 0 5) newYear, .commit 0 newYear]

/-- What one worker claims for ages is claimed by another at the same instant. -/
theorem claimed_for_ages :
    (claim newYear newYear "worker" 8 ages (Books.opened.run oneOwed).store).1.map
      (·.map fun e => (e.id, e.leaseEnd, e.isClaimable newYear)) =
        .ok [(0, some newYear, true)] ∧
    (claim newYear newYear "other" 8 ages
      (claim newYear newYear "worker" 8 ages (Books.opened.run oneOwed).store).2).1.map
        (·.map (·.id)) = .ok [0] := by
  decide +kernel

/-- A lease may end before its deadline, and what was claimed under it may be free. -/
theorem not_every_lease_lasts :
    (¬ ∀ (now : Date) (d : Duration), now.deadline d ≤ now.after d) ∧
    ¬ ∀ (actions : List Action) (s' : Store) (seen now : Date) (worker : String) (limit : Nat)
      (lease : Duration) (events : List Event), .zero < lease →
      claim seen now worker limit lease (Books.opened.run actions).store = (.ok events, s') →
      ∀ e ∈ events, e.isClaimable now = false ∧
        ∀ leaseEnd ∈ e.leaseEnd, (now.deadline lease : Instant) ≤ leaseEnd := by
  constructor
  · intro hall
    exact absurd (hall newYear ages) (by decide)
  · intro hall
    obtain ⟨hfirst, -⟩ := claimed_for_ages
    rcases hclaim : claim newYear newYear "worker" 8 ages (Books.opened.run oneOwed).store
      with ⟨e | events, s'⟩
    · rw [hclaim] at hfirst
      cases hfirst
    · rw [hclaim] at hfirst
      obtain ⟨e, rfl, hseen⟩ := List.map_eq_singleton_iff.1 (Except.ok.inj hfirst)
      simp only [Prod.mk.injEq] at hseen
      have hfree := (hall oneOwed s' newYear newYear "worker" 8 ages [e] (by decide) hclaim e
        List.mem_cons_self).1
      rw [hseen.2.2] at hfree
      cases hfree

theorem leases_last_minute : ∃ e s',
    claim newYear newYear "worker" 8 (.ofSecs 60) (Books.opened.run oneOwed).store =
      (.ok [e], s') ∧
    newYear.HasRoomFor (.ofSecs 60) ∧ ¬ newYear.HasRoomFor ages ∧
    e.Leased newYear (.ofSecs 60) ∧ Has s' e.id (Event.Leased newYear (.ofSecs 60)) := by
  have hsized : Sized "worker" := by
    simp only [Sized]
    decide
  have hseen : (claim newYear newYear "worker" 8 (.ofSecs 60)
      (Books.opened.run oneOwed).store).1.map (·.map (·.id)) = .ok [0] := by decide +kernel
  rcases hclaim : claim newYear newYear "worker" 8 (.ofSecs 60) (Books.opened.run oneOwed).store
    with ⟨e | events, s'⟩
  · rw [hclaim] at hseen
    cases hseen
  · rw [hclaim] at hseen
    obtain ⟨e, rfl, -⟩ := List.map_eq_singleton_iff.1 (Except.ok.inj hseen)
    obtain ⟨-, hreturned, hstored⟩ := leases_last newYear
    refine ⟨e, s', rfl, by decide, by decide, ?_, ?_⟩
    · exact hreturned _ _ _ _ _ _ _ (by decide) hclaim e List.mem_cons_self
    · refine hstored oneOwed _ _ _ _ _ _ ?_ hsized (by decide) hclaim e List.mem_cons_self
      simp only [oneOwed, List.forall_mem_cons]
      exact ⟨trivial, trivial, List.forall_mem_nil _⟩

end Ledger

end Stockroom
