import Stockroom.Proofs.Draining

/-!
# Leases that cover a pass

Every wait in a pass has its limit: one storage call to claim, one attempt to publish each event,
one storage call to record. A covering lease is as long as all of these together, so each event of
the batch gets its turn before the lease runs out. The bound is met at the last event: by then
everything but one attempt and the record may have taken its full time, and what is left is not
nothing. A lease may also be so long that the clock ends before it does. Then the pass fails before
it has claimed anything.

Results:
1. `World.now_storageCall_le` and `World.now_publish_le`: no wait takes longer than its limit.
2. `claim_length_le`: a claim returns no more events than it was asked for.
3. `publishAll_intime`: a batch is published to its end if there is time for it.
4. `Worker.HasTime.timeFor` and `Worker.HasTime.covered`: a lease that leaves time for a batch and
   two storage calls leaves time for whatever batch the worker takes, so it covers the pass.
5. `covering_lease_outlasts`: the guarantee.
-/
namespace Stockroom

namespace Outbox

variable {s s' : Store} {now : Date} {worker : String}

/-! ## The size of a batch -/

theorem freeAmong_length_le {limit : Nat} {keys : List Bytes} {ids : List UInt64}
    (h : freeAmong now s limit keys = .ok ids) : ids.length ≤ limit := by
  induction keys generalizing limit ids with
  | nil =>
    cases limit <;> cases h <;> exact Nat.zero_le _
  | cons key keys ih =>
    obtain _ | limit := limit
    · cases h
      exact Nat.le_refl _
    rw [freeAmong] at h
    obtain ⟨found, -, h⟩ := bind_eq_ok.1 h
    cases found with
    | none => exact ih h
    | some e =>
      dsimp only at h
      split at h
      · obtain ⟨later, hlater, hpure⟩ := bind_eq_ok.1 h
        cases hpure
        exact Nat.succ_le_succ (ih hlater)
      · exact ih h

theorem stampEach_length {leaseEnd : Date} {ids : List UInt64} {stamped : List (Option Event)}
    (h : ids.mapM (stampOne now worker leaseEnd) s = .ok (stamped, s')) :
    stamped.length = ids.length := by
  induction ids generalizing s stamped with
  | nil =>
    obtain ⟨rfl, -⟩ := Store.Transaction.pure_ok.1 h
    rfl
  | cons id ids ih =>
    rw [List.mapM_cons] at h
    obtain ⟨found, s₁, -, h⟩ := Store.Transaction.bind_ok.1 h
    obtain ⟨later, s₂, hrest, hpure⟩ := Store.Transaction.bind_ok.1 h
    obtain ⟨rfl, rfl⟩ := Store.Transaction.pure_ok.1 hpure
    exact congrArg Nat.succ (ih hrest)

/-- A claim returns no more events than it was asked for, whatever the store. -/
theorem claim_length_le {seen stamped : Date} {limit : Nat} {lease : Duration}
    {events : List Event} (h : (claim seen stamped worker limit lease s).1 = .ok events) :
    events.length ≤ limit := by
  rw [claim] at h
  split at h
  · cases h
  · next ids hscan =>
    refine Nat.le_trans ?_ (freeAmong_length_le hscan)
    rw [stamp] at h
    split at h
    · cases h
      exact Nat.zero_le _
    · obtain ⟨found, s₁, hall, hpure⟩ :=
        Store.Transaction.bind_ok.1 (Store.atomically_ok.1 (Prod.ext h rfl))
      obtain ⟨rfl, -⟩ := Store.Transaction.pure_ok.1 hpure
      rw [← stampEach_length hall]
      exact List.length_filterMap_le _ _

end Outbox

namespace Relay

open Outbox (Event)

variable {β δ α : Type} {w w' : World β δ}

/-! ## Waits -/

/-- A storage call takes no longer than its limit. -/
theorem World.now_storageCall_le (limit : Duration)
    (op : Date → Store → Except Fault α × Store) (w : World β δ) :
    (w.storageCall limit op).2.now ≤ w.now + limit.nanos := by
  rw [storageCall]
  split
  · exact Nat.le_add_right _ _
  · dsimp only
    split
    · next time htime =>
      have hwithin : time ≤ limit := of_decide_eq_true (Option.filter_eq_some_iff.1 htime).2
      exact Nat.add_le_add_left hwithin _
    · exact Nat.le_refl _

/-- What a storage call returns, it returns at some time, for some store. -/
theorem World.storageCall_returns {limit : Duration}
    {op : Date → Store → Except Fault α × Store} {a : α}
    (h : (w.storageCall limit op).1 = .ok a) : ∃ now s, (op now s).1 = .ok a := by
  rw [storageCall] at h
  split at h
  · exact ⟨_, _, h⟩
  · dsimp only at h
    split at h
    · exact ⟨_, _, h⟩
    · cases h

variable [Broker β]

/-- An attempt to publish takes no longer than its limit. -/
theorem World.now_publish_le (limit : Duration) (m : Message) (w : World β δ) :
    (w.publish limit m).2.now ≤ w.now + limit.nanos := by
  rw [publish]
  dsimp only
  split
  · next time htime =>
    have hwithin : time ≤ limit := of_decide_eq_true (Option.filter_eq_some_iff.1 htime).2
    exact Nat.add_le_add_left hwithin _
  · exact Nat.le_refl _

/-! ## Publishing in time -/

/-- There is time to try so many events: each gets its turn before the deadline, even if every
attempt before it takes as long as it may. -/
def TimeFor (limit : Duration) (deadline now count : Nat) : Prop :=
  ∀ i < count, now + i * limit.nanos < deadline

omit [Broker β] in
theorem TimeFor.next {limit : Duration} {deadline now later count : Nat}
    (h : TimeFor limit deadline now (count + 1)) (hlater : later ≤ now + limit.nanos) :
    TimeFor limit deadline later count := by
  intro i hi
  have hnext := h (i + 1) (Nat.succ_lt_succ hi)
  rw [Nat.succ_mul] at hnext
  omega

/-- If there is time for all events of a batch, none is abandoned, and no more time is taken. -/
theorem publishAll_intime {limit : Duration} {deadline : Nat} {batch : List Event}
    (h : TimeFor limit deadline w.now batch.length) (p : Progress) :
    (publishAll limit deadline batch p w).1.abandoned = p.abandoned ∧
      (publishAll limit deadline batch p w).2.now ≤ w.now + batch.length * limit.nanos := by
  induction batch generalizing p w with
  | nil => exact ⟨rfl, Nat.le_add_right _ _⟩
  | cons e batch ih =>
    have hnow : w.now < deadline := by
      have hfirst := h 0 (Nat.succ_pos _)
      rwa [Nat.zero_mul] at hfirst
    have hpublish := w.now_publish_le limit (messageOf e)
    rw [publishAll, if_neg (Nat.not_le.2 hnow)]
    obtain ⟨habandoned, htime⟩ :=
      ih (h.next hpublish) (p.note e.id (w.publish limit (messageOf e)).1)
    refine ⟨habandoned.trans (p.abandoned_note _ _), ?_⟩
    rw [List.length_cons, Nat.succ_mul]
    dsimp only at htime ⊢
    omega

/-- Then all of them are handed to the broker. -/
theorem attempts_publishAll {limit : Duration} {deadline : Nat} {batch : List Event}
    (h : TimeFor limit deadline w.now batch.length) (b : Backoff) :
    (publishAll limit deadline batch (.start b) w).2.attempts.map (·.message) =
      w.attempts.map (·.message) ++ batch.map messageOf := by
  obtain ⟨results, hwithin, hprogress, hattempts⟩ :=
    publishAll_eq limit deadline batch (p := .start b) rfl w
  have hnone := (publishAll_intime h (.start b)).1
  rw [hprogress] at hnone
  have hall : batch.length ≤ results.length := Nat.sub_eq_zero_iff_le.1 hnone
  rw [hattempts, List.take_of_length_le hall]

/-! ## Passes -/

/-- What is promised of a pass whose lease covers it. -/
structure Covered (worker : Worker) (b : Backoff) (w : World β δ) : Prop where
  /-- Whatever was claimed is handed to the broker. -/
  tried : (worker.pass b w).2.2.attempts.map (·.message) = w.attempts.map (·.message) ++
    ((worker.takeBatch w).1.toOption.getD []).map messageOf
  /-- Where the clock ends before the lease does, the pass fails, and nothing was claimed. -/
  overrun : worker.Overruns w →
    worker.pass b w = (.error (.taskFailed .deadlineTooFar), b, w)
  abandoned : ∀ report, (worker.pass b w).1 = .ok report → report.abandoned = 0
  /-- When the pass is over, whatever it came to, the lease has not run out. -/
  intime : (worker.pass b w).2.2.now ≤ w.now + worker.settings.lease.nanos

omit [Broker β] in
/-- A batch is no larger than was asked for. -/
theorem Worker.takeBatch_length_le {worker : Worker} {batch : List Event}
    (h : worker.takeBatch w = (.ok batch, w')) : batch.length ≤ worker.settings.batchSize := by
  obtain ⟨now, s, hreturned⟩ :=
    World.storageCall_returns (congrArg Prod.fst (Worker.takeBatch_ok h))
  rw [Worker.claim] at hreturned
  split at hreturned
  · cases hreturned
  · exact Outbox.claim_length_le hreturned

omit [Broker β] in
/-- A batch takes no longer than a storage call. -/
theorem Worker.now_takeBatch_le {worker : Worker} {result : Except Fault (List Event)}
    (h : worker.takeBatch w = (result, w')) :
    w'.now ≤ w.now + worker.settings.storageTimeout.nanos := by
  by_cases hover : worker.Overruns w
  · rw [Worker.takeBatch_overrun hover] at h
    cases h
    exact Nat.le_add_right _ _
  · rw [Worker.takeBatch_intime hover] at h
    have hnow := w.now_storageCall_le worker.settings.storageTimeout worker.claim
    rw [h] at hnow
    exact hnow

section

variable {worker : Worker}

/-- A worker whose lease leaves time for a storage call, an attempt for each event, and another
storage call. -/
structure Worker.HasTime (worker : Worker) : Prop where
  positive : 0 < worker.settings.publishTimeout.nanos + worker.settings.storageTimeout.nanos
  lease : worker.settings.batchSize * worker.settings.publishTimeout.nanos +
    2 * worker.settings.storageTimeout.nanos ≤ worker.settings.lease.nanos

omit [Broker β] in
/-- It has time for whatever batch it takes. -/
theorem Worker.HasTime.timeFor (h : worker.HasTime) {batch : List Event}
    (htake : worker.takeBatch w = (.ok batch, w')) :
    TimeFor worker.settings.publishTimeout (w.now + worker.settings.lease.nanos) w'.now
      batch.length := by
  have hclaim := Worker.now_takeBatch_le htake
  have hsize := Worker.takeBatch_length_le htake
  obtain ⟨hpositive, hlease⟩ := h
  intro i hi
  -- this event and those before it have their share of the lease
  have hshare : (i + 1) * worker.settings.publishTimeout.nanos ≤
      worker.settings.batchSize * worker.settings.publishTimeout.nanos :=
    Nat.mul_le_mul_right _ (Nat.le_trans hi hsize)
  rw [Nat.succ_mul] at hshare
  omega

theorem Covered.of_nothing {b : Backoff} {w₁ : World β δ} {result : Except Fault (List Event)}
    {outcome : Except Fault Report}
    (hlease : worker.settings.storageTimeout.nanos ≤ worker.settings.lease.nanos)
    (htake : worker.takeBatch w = (result, w₁)) (hnothing : result.toOption.getD [] = [])
    (hpass : worker.pass b w = (outcome, b, w₁))
    (hnone : ∀ report, outcome = .ok report → report.abandoned = 0) : Covered worker b w := by
  refine ⟨?_, worker.pass_overrun b, ?_, ?_⟩
  · rw [hpass, htake, hnothing, (Worker.waits_takeBatch htake).attempts]
    exact (List.append_nil _).symm
  · rw [hpass]
    exact hnone
  · rw [hpass]
    exact Nat.le_trans (Worker.now_takeBatch_le htake) (Nat.add_le_add_left hlease _)

/-- A pass is covered by such a lease. -/
theorem Worker.HasTime.covered (h : worker.HasTime) (b : Backoff) (w : World β δ) :
    Covered worker b w := by
  have hlease := h.lease
  have hcall : worker.settings.storageTimeout.nanos ≤ worker.settings.lease.nanos := by omega
  obtain ⟨fault, w₁, htake, hpass⟩ | ⟨w₁, htake, hpass⟩ |
    ⟨batch, w₁, p, w₂, result, w₃, htake, hpublish, hrecord, hpass⟩ := worker.pass_cases b w
  · refine .of_nothing hcall htake rfl hpass ?_
    rintro _ ⟨⟩
  · refine .of_nothing hcall htake rfl hpass ?_
    rintro _ ⟨⟩
    rfl
  have htime := h.timeFor htake
  obtain ⟨hnone, hpublished⟩ := publishAll_intime htime (.start b)
  have htried := attempts_publishAll htime b
  rw [hpublish] at hnone hpublished htried
  refine ⟨?_, worker.pass_overrun b, fun report hreport => ?_, ?_⟩
  · rw [hpass, (World.Waits.of_storageCall hrecord).attempts, htried,
      (Worker.waits_takeBatch htake).attempts, htake]
    rfl
  · rw [hpass] at hreport
    cases result with
    | error fault => cases hreport
    | ok count =>
      cases hreport
      exact hnone
  · have hclaim := Worker.now_takeBatch_le htake
    have hlast := w₂.now_storageCall_le worker.settings.storageTimeout
      fun now => Outbox.complete now worker.id p.outcomes
    have hall : batch.length * worker.settings.publishTimeout.nanos ≤
        worker.settings.batchSize * worker.settings.publishTimeout.nanos :=
      Nat.mul_le_mul_right _ (Worker.takeBatch_length_le htake)
    rw [hrecord] at hlast
    rw [hpass]
    dsimp only at hpublished hlast ⊢
    omega

end

/-! ## The guarantee -/

/-- Only the lease is raised. -/
theorem Settings.coveringLease_eq (c : Settings) :
    c.coveringLease = { c with lease := c.coveringLease.lease } := by
  unfold coveringLease
  split
  · rfl
  · rfl

/-- A covering lease outlasts the pass, whatever the broker answers, however slow it and the storage
are, and whatever others do meanwhile, unless no wait takes any time or the longest duration is
shorter than the pass. That a clock may end before the lease does is no exception. -/
theorem covering_lease_outlasts {c : Settings} (hsize : c.batchSize ≤ 2 ^ 32 - 1)
    (hpositive : 0 < c.publishTimeout.nanos + c.storageTimeout.nanos)
    (hfits : c.batchSize * c.publishTimeout.nanos + 2 * c.storageTimeout.nanos ≤ Duration.maxNanos)
    (id : String) (b : Backoff) (w : World β δ) : Covered ⟨id, c.coveringLease⟩ b w := by
  have hleast : c.leastLease.nanos =
      c.batchSize * c.publishTimeout.nanos + 2 * c.storageTimeout.nanos := by
    have hpublishes : c.batchSize * c.publishTimeout.nanos ≤ Duration.maxNanos := by omega
    have hcalls : 2 * c.storageTimeout.nanos ≤ Duration.maxNanos := by omega
    rw [Settings.leastLease, Duration.nanos_add, Duration.nanos_times, Duration.nanos_times,
      Settings.batchLimit, Nat.min_eq_left hsize, Nat.mul_comm c.publishTimeout.nanos,
      Nat.mul_comm c.storageTimeout.nanos, Nat.min_eq_left hpublishes, Nat.min_eq_left hcalls,
      Nat.min_eq_left hfits]
  have hlease : c.leastLease.nanos ≤ c.coveringLease.lease.nanos := by
    rw [c.nanos_coveringLease]
    exact Nat.le_max_right _ _
  rw [hleast] at hlease
  rw [c.coveringLease_eq]
  exact Worker.HasTime.covered ⟨hpositive, hlease⟩ b w

/-! ### A broker that never answers -/

/-- A broker that never answers. -/
structure Silent where

instance : Broker Silent where
  publish _ broker := (⟨none, .ok (), []⟩, broker)

/-- A worker with time for one attempt and no more. -/
def hurried : Settings :=
  { Settings.standard with batchSize := 2, lease := .ofSecs 2, storageTimeout := .zero }

/-- A relay is about to start on two events, and nobody answers it. -/
def unanswered : World Silent Unit :=
  ⟨(Ledger.Books.opened.run Ledger.twoOwed).store, ⟨⟩, 0, fun time => ⟨time⟩, [], [], (), []⟩

/-- The worker abandons the second event. With a covering lease it tries both, and the pass ends
just when the lease does. -/
theorem covering_lease_outlasts_unanswered :
    Covered ⟨"worker", hurried.coveringLease⟩ (.start .zero .zero) unanswered ∧
    (Worker.pass ⟨"worker", hurried⟩ (.start .zero .zero) unanswered).1.map (·.abandoned) =
      .ok 1 ∧
    (Worker.pass ⟨"worker", hurried.coveringLease⟩ (.start .zero .zero) unanswered).2.2.now =
      hurried.coveringLease.lease.nanos := by
  have hseen : (Worker.pass ⟨"worker", hurried⟩ (.start .zero .zero) unanswered).1.map
        (·.abandoned) = .ok 1 ∧
      (Worker.pass ⟨"worker", hurried.coveringLease⟩ (.start .zero .zero) unanswered).2.2.now =
        hurried.coveringLease.lease.nanos := by decide +kernel
  exact ⟨covering_lease_outlasts (by decide) (by decide) (by decide) _ _ _, hseen⟩

/-- With the longest time to publish that can be asked for in milliseconds, the clock ends first. -/
example : Worker.Overruns
    ⟨"worker", { Settings.standard with
      batchSize := 500, publishTimeout := .ofMillis (2 ^ 64 - 1) }.coveringLease⟩ unanswered := by
  decide

end Relay

end Stockroom
