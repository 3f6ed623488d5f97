import Stockroom.Proofs.Queues

/-!
# The oldest events first

A claim looks through the pending events in the order of their numbers. It passes over those that
are under a live lease, and they do not count towards the limit. The clock may go on before it
stamps what it has found, but what was free is free still while nobody else is at work. So a claim
takes the oldest free events, as many as it was asked for. Nothing else changes, down to the bytes
of the rows.

Results:
1. `stampEach_takes`: free events are all stamped, if the end of the lease can be stored.
2. `Sound.claim_cases`: a claim takes what its look has found, or fails and takes nothing.
3. `claims_oldest_first`: the guarantee.
-/
namespace Stockroom

namespace Outbox

open Store.Transaction

variable {s s' s₁ : Store} {seen now stamped leaseEnd : Date} {worker : String}
  {taken es : List Event} {e : Event}

/-! ## Events that are taken -/

/-- What is under a number depends on its row alone. -/
theorem event?_of_get? {id : UInt64}
    (h : s'.events.get? (Event.key id) = s.events.get? (Event.key id)) :
    event? id s' = event? id s := by
  rw [event?, event?, eventAt, eventAt, Store.find?, Store.find?, h]

/-- Some events of a store have come under a lease, and nothing else has changed. -/
structure Takes (worker : String) (leaseEnd : Date) (taken : List Event) (s s' : Store) :
    Prop where
  found : ∀ e ∈ taken, event? e.id s = .ok (some e)
  /-- Each is stored as it was, but for the holder and the end of the lease. -/
  stored : ∀ e ∈ taken, event? e.id s' = .ok (some (e.claim worker leaseEnd))
  untouched : ∀ key, (∀ e ∈ taken, Event.key e.id ≠ key) →
    s'.events.get? key = s.events.get? key
  pending : s'.pending = s.pending
  ledger : SameLedger s s'

theorem Takes.nothing (worker : String) (leaseEnd : Date) (s : Store) :
    Takes worker leaseEnd [] s s :=
  ⟨nofun, nofun, fun _ _ => rfl, rfl, .refl s⟩

theorem Takes.cons {row : Bytes} (hlasting : e.Lasting) (hworker : Sized worker)
    (hfind : event? e.id s = .ok (some e)) (hnew : ∀ e' ∈ taken, e'.id ≠ e.id)
    (hrow : Stored.encode (e.claim worker leaseEnd) = some row)
    (hrest : Takes worker leaseEnd taken (s.update .events (·.insert (Event.key e.id) row)) s') :
    Takes worker leaseEnd (e :: taken) s s' := by
  have hput : ∀ id, event? id (s.update .events (·.insert (Event.key e.id) row)) =
      if e.id = id then .ok (some (e.claim worker leaseEnd)) else event? id s :=
    event?_put (hlasting.claim hworker leaseEnd) hrow rfl
  constructor
  case found =>
    refine List.forall_mem_cons.2 ⟨hfind, fun e' he' => ?_⟩
    have hfound := hrest.found e' he'
    rwa [hput, if_neg (hnew e' he').symm] at hfound
  case stored =>
    refine List.forall_mem_cons.2 ⟨?_, hrest.stored⟩
    -- the later ones have other numbers, so they leave the row of the first one alone
    have hrow := hrest.untouched _ fun e' he' heq => hnew e' he' (Event.key_injective heq)
    rw [event?_of_get? hrow, hput, if_pos rfl]
  case untouched =>
    intro key hother
    obtain ⟨hfirst, hlater⟩ := List.forall_mem_cons.1 hother
    rw [hrest.untouched key hlater]
    exact (Table.get?_insert _ _ _ _).trans (if_neg hfirst)
  case pending => exact hrest.pending
  case ledger =>
    have hledger := hrest.ledger
    exact ⟨hledger.moves, hledger.balances, hledger.receipts, hledger.audit, hledger.counter⟩

/-! ## Stamps -/

/-- What is free stays free while time passes. -/
theorem Event.isClaimable_mono (hclock : seen ≤ now) (h : e.isClaimable seen = true) :
    e.isClaimable now = true := by
  obtain ⟨hpending, hunleased⟩ := Bool.and_eq_true_iff.1 h
  refine Bool.and_eq_true_iff.2 ⟨hpending, ?_⟩
  rw [isUnleased] at hunleased ⊢
  cases hend : e.leaseEnd with
  | none => rfl
  | some leaseEnd =>
    rw [hend] at hunleased
    exact decide_eq_true
      (Instant.le_trans (of_decide_eq_true hunleased) (Instant.ofDate_le_ofDate.2 hclock))

/-- A free event is stamped if its new row can be written. -/
theorem stampOne_of_row {row : Bytes} (hfind : event? e.id s = .ok (some e))
    (hfree : e.isClaimable now = true)
    (hrow : Stored.encode (e.claim worker leaseEnd) = some row) :
    stampOne now worker leaseEnd e.id s =
      .ok (some (e.claim worker leaseEnd), s.update .events (·.insert (Event.key e.id) row)) := by
  have hread : Store.Transaction.find? .events (Event.key e.id) s = .ok (some e, s) :=
    find?_ok.2 ⟨rfl, hfind⟩
  have hput : putEvent (e.claim worker leaseEnd) s =
      .ok ((), s.update .events (·.insert (Event.key e.id) row)) := put_ok.2 ⟨row, hrow, rfl⟩
  rw [stampOne, bind_of_ok hread]
  dsimp only
  rw [if_pos hfree, bind_of_ok hput]
  rfl

/-- Free events are all stamped, if the end of the lease can be stored. -/
theorem stampEach_takes (hs : Sound s) (hworker : Sized worker) (hend : leaseEnd.Storable)
    (hnodup : (taken.map (·.id)).Nodup) (hfound : ∀ e ∈ taken, event? e.id s = .ok (some e))
    (hfree : ∀ e ∈ taken, e.isClaimable now = true) :
    ∃ s', (taken.map (·.id)).mapM (stampOne now worker leaseEnd) s =
        .ok (taken.map fun e => some (e.claim worker leaseEnd), s') ∧
      Takes worker leaseEnd taken s s' := by
  induction taken generalizing s with
  | nil => exact ⟨s, rfl, .nothing _ _ _⟩
  | cons e taken ih =>
    obtain ⟨hfirst, hnodup⟩ := List.nodup_cons.1 hnodup
    obtain ⟨hfind, hfound⟩ := List.forall_mem_cons.1 hfound
    obtain ⟨hfree, hfreeLater⟩ := List.forall_mem_cons.1 hfree
    have hnew : ∀ e' ∈ taken, e'.id ≠ e.id := fun e' he' heq =>
      hfirst (List.mem_map.2 ⟨e', he', heq⟩)
    obtain ⟨-, hlasting, -⟩ := hs.found hfind
    obtain ⟨row, hrow⟩ := Event.exists_row_iff.2 ((hs.instants hfind).claim hend worker)
    have hput : ∀ id, event? id (s.update .events (·.insert (Event.key e.id) row)) =
        if e.id = id then .ok (some (e.claim worker leaseEnd)) else event? id s :=
      event?_put (hlasting.claim hworker leaseEnd) hrow rfl
    obtain ⟨s', hlater, htakes⟩ := ih (hs.stamped hworker hfind hfree hrow) hnodup
      (fun e' he' => (hput e'.id).trans ((if_neg (hnew e' he').symm).trans (hfound e' he')))
      hfreeLater
    refine ⟨s', ?_, htakes.cons hlasting hworker hfind hnew hrow⟩
    rw [List.map_cons, List.mapM_cons, bind_of_ok (stampOne_of_row hfind hfree hrow),
      bind_of_ok hlater]
    rfl

/-! ## Claims -/

/-- The first events that are free, of some that are listed. -/
def firstFree (now : Date) (limit : Nat) (es : List Event) : List Event :=
  (es.filter (Event.isClaimable now)).take limit

theorem mem_firstFree {limit : Nat} (h : e ∈ firstFree now limit es) :
    e ∈ es ∧ e.isClaimable now = true :=
  List.mem_filter.1 (List.mem_of_mem_take h)

theorem Lists.ascending_firstFree (hes : Lists s es) (now : Date) (limit : Nat) :
    ((firstFree now limit es).map (·.id)).Pairwise (· < ·) :=
  hes.ascending.sublist (((List.take_sublist _ _).trans List.filter_sublist).map _)

theorem nodup_of_ascending {ids : List UInt64} (h : ids.Pairwise (· < ·)) : ids.Nodup := by
  refine h.imp fun {a b} hlt heq => ?_
  rw [heq] at hlt
  exact UInt64.lt_irrefl b hlt

/-- A claim takes what its look has found. If there is anything to take and the end of the lease
cannot be stored, it fails and takes nothing. -/
theorem Sound.claim_cases (hs : Sound s) (hes : Lists s es) (hworker : Sized worker)
    (hclock : seen ≤ stamped) (limit : Nat) (lease : Duration) :
    ((firstFree seen limit es = [] ∨ (stamped.after lease).Storable) ∧
      ∃ s', claim seen stamped worker limit lease s =
          (.ok ((firstFree seen limit es).map (·.claim worker (stamped.after lease))), s') ∧
        Takes worker (stamped.after lease) (firstFree seen limit es) s s') ∨
    (¬ (firstFree seen limit es = [] ∨ (stamped.after lease).Storable) ∧
      claim seen stamped worker limit lease s = (.error (.encoding .instant), s)) := by
  have hnodup := nodup_of_ascending (hes.ascending_firstFree seen limit)
  have hfound : ∀ e ∈ firstFree seen limit es, event? e.id s = .ok (some e) := fun e he =>
    hes.found e (mem_firstFree he).1
  have hfree : ∀ e ∈ firstFree seen limit es, e.isClaimable stamped = true := fun e he =>
    Event.isClaimable_mono hclock (mem_firstFree he).2
  have hclaim : claim seen stamped worker limit lease s =
      stamp stamped worker lease ((firstFree seen limit es).map (·.id)) s := by
    rw [claim, hs.scan_eq hes seen limit]
    rfl
  rw [hclaim]
  generalize firstFree seen limit es = taken at hnodup hfound hfree ⊢
  rcases taken with _ | ⟨e, taken⟩
  · exact .inl ⟨.inl rfl, s, rfl, .nothing _ _ _⟩
  by_cases hend : (stamped.after lease).Storable
  · obtain ⟨s', hall, htakes⟩ := stampEach_takes hs hworker hend hnodup hfound hfree
    refine .inl ⟨.inr hend, s', ?_, htakes⟩
    rw [stamp, if_neg (by simp)]
    refine Store.atomically_ok.2 ?_
    rw [stampAll, bind_of_ok hall]
    refine pure_ok.2 ⟨?_, rfl⟩
    rw [List.filterMap_map, ← List.filterMap_eq_map]
    rfl
  · refine .inr ⟨not_or.2 ⟨List.cons_ne_nil _ _, hend⟩, ?_⟩
    have hfirst : stampOne stamped worker (stamped.after lease) e.id s =
        .error (.encoding .instant) :=
      stampOne_unstorable (hfound e List.mem_cons_self) (hfree e List.mem_cons_self) hend
    have hnone : stampAll stamped worker (stamped.after lease) [] s = .ok ([], s) := rfl
    exact stamp_of_error hnone hfirst

/-- So a claim that succeeds has taken the first free events. -/
theorem Sound.claim_takes (hs : Sound s) (hes : Lists s es) (hworker : Sized worker)
    (hclock : seen ≤ stamped) {limit : Nat} {lease : Duration} {events : List Event}
    (h : claim seen stamped worker limit lease s = (.ok events, s')) :
    events = (firstFree seen limit es).map (·.claim worker (stamped.after lease)) ∧
      Takes worker (stamped.after lease) (firstFree seen limit es) s s' := by
  rcases hs.claim_cases hes hworker hclock limit lease with ⟨-, s₁, hclaim, htakes⟩ | ⟨-, hclaim⟩
  · cases hclaim.symm.trans h
    exact ⟨rfl, htakes⟩
  · cases hclaim.symm.trans h

end Outbox

namespace Ledger

open Outbox (Event Takes claim firstFree)

/-! ## The guarantee -/

/-- What is promised of a claim. -/
structure ClaimsOldest (s : Store) (seen stamped : Date) (worker : String) (limit : Nat)
    (lease : Duration) (es : List Event) : Prop where
  /-- These are all events, in the order of their numbers. -/
  read : s.events.values.mapM Store.readRow = (.ok es : Except Fault (List Event))
  ascending : (es.map (·.id)).Pairwise (· < ·)
  /-- It succeeds if nothing is free, or if the end of the lease can be stored. -/
  succeeds : (claim seen stamped worker limit lease s).1.isOk = true ↔
    firstFree seen limit es = [] ∨ (stamped.after lease).Storable
  /-- Then it takes the first of those that were free, and returns them under their lease. -/
  takes : ∀ events s', claim seen stamped worker limit lease s = (.ok events, s') →
    events = (firstFree seen limit es).map (·.claim worker (stamped.after lease)) ∧
      Takes worker (stamped.after lease) (firstFree seen limit es) s s'

/-- Under a clock that does not go back, a claim that nobody interferes with takes the oldest events
that are free when it looks, and changes nothing else. -/
theorem claims_oldest_first {actions : List Action} (htexts : ∀ a ∈ actions, a.Texts)
    {seen stamped : Date} (hclock : seen ≤ stamped) {worker : String} (hworker : Sized worker)
    (limit : Nat) (lease : Duration) :
    ∃ es, ClaimsOldest (Books.opened.run actions).store seen stamped worker limit lease es := by
  have hsound := Books.sound_run htexts
  obtain ⟨es, hes⟩ := hsound.exists_list
  refine ⟨es, hes.read, hes.ascending, ?_, fun events s' hclaim => ?_⟩
  · rcases hsound.claim_cases hes hworker hclock limit lease
      with ⟨hgood, s', hclaim, -⟩ | ⟨hbad, hclaim⟩
    · rw [hclaim]
      exact ⟨fun _ => hgood, fun _ => rfl⟩
    · rw [hclaim]
      exact ⟨nofun, fun hgood => absurd hgood hbad⟩
  · exact hsound.claim_takes hes hworker hclock hclaim

/-! ### A claim that passes over an event -/

/-- Three moves have been made. The first event was claimed right away. -/
def firstClaimed : List Action :=
  [.consider (.plain "a" "5" 2 3) (.fresh 0 5) ⟨0⟩, .commit 0 ⟨1⟩,
    .claim ⟨2⟩ ⟨2⟩ "other" 8 (.ofNanos 60),
    .consider (.plain "b" "6" 2 3) (.fresh 0 6) ⟨3⟩, .commit 0 ⟨3⟩,
    .consider (.plain "c" "7" 2 3) (.fresh 0 7) ⟨4⟩, .commit 0 ⟨4⟩]

/-- While the lease is live a claim for one event takes the second one. -/
theorem claims_oldest_first_passing : ∃ es e s',
    ClaimsOldest (Books.opened.run firstClaimed).store ⟨8⟩ ⟨9⟩ "worker" 1 (.ofNanos 60) es ∧
    claim ⟨8⟩ ⟨9⟩ "worker" 1 (.ofNanos 60) (Books.opened.run firstClaimed).store =
      (.ok [e], s') ∧ es.map (·.id) = [0, 2, 4] ∧ e.id = 2 := by
  have hsized : Sized "worker" ∧ Sized "other" := by
    simp only [Sized]
    decide
  obtain ⟨hworker, hother⟩ := hsized
  have htexts : ∀ a ∈ firstClaimed, a.Texts := by
    simp only [firstClaimed, List.forall_mem_cons]
    exact ⟨trivial, trivial, hother, trivial, trivial, trivial, trivial, List.forall_mem_nil _⟩
  have hseen : ((Books.opened.run firstClaimed).store.events.values.mapM Store.readRow :
        Except Fault (List Event)).map (·.map (·.id)) = .ok [0, 2, 4] ∧
      (claim ⟨8⟩ ⟨9⟩ "worker" 1 (.ofNanos 60) (Books.opened.run firstClaimed).store).1.map
        (·.map (·.id)) = .ok [2] := by decide +kernel
  obtain ⟨hids, htaken⟩ := hseen
  have hclock : (⟨8⟩ : Date) ≤ ⟨9⟩ := by decide
  obtain ⟨es, hclaims⟩ := claims_oldest_first htexts hclock hworker 1 (.ofNanos 60)
  rw [hclaims.read] at hids
  rcases hclaim : claim ⟨8⟩ ⟨9⟩ "worker" 1 (.ofNanos 60) (Books.opened.run firstClaimed).store
    with ⟨e | events, s'⟩
  · rw [hclaim] at htaken
    cases htaken
  · rw [hclaim] at htaken
    obtain ⟨e, rfl, hid⟩ := List.map_eq_singleton_iff.1 (Except.ok.inj htaken)
    exact ⟨es, e, s', hclaims, rfl, Except.ok.inj hids, hid⟩

end Ledger

end Stockroom
