import Stockroom.Proofs.CoveringLeases
import Stockroom.Settings

/-!
# How long a covering lease is

A covering lease is meant to be as long as a full pass: the limit of one attempt to publish for each
event of the batch, and the limits of two storage calls. The arithmetic on durations stops at the
longest one, as often as it is used, and that comes to the same as stopping once. But the batch is
counted no further than `batchLimit`, so the lease for a larger one can be shorter than the pass
(`not_every_lease_covers`).

Results:
1. `nanos_leastLease`: what is measured, in exact arithmetic up to the longest duration.
2. `measuredPass_eq_iff`: when that is a full pass.
3. `coveringLease_coveringLease`: a lease is raised once.
4. `leases_raised`: the guarantee, for all settings and for those of any environment.
5. `not_every_lease_covers`: what is measured need not be a full pass.
-/
namespace Stockroom.Relay.Settings

variable (c : Settings)

/-! ## Passes -/

/-- How long a pass takes if every wait in it takes as long as it may, in nanoseconds. -/
def fullPass : Nat := c.batchSize * c.publishTimeout.nanos + 2 * c.storageTimeout.nanos

/-- How long a full pass over no more than the events that are counted takes. -/
def measuredPass : Nat :=
  min c.batchSize batchLimit * c.publishTimeout.nanos + 2 * c.storageTimeout.nanos

/-- The lease that a full pass needs: as long as the pass, or the longest there is. -/
def neededLease : Nat := min Duration.maxNanos c.fullPass

/-- The lease is measured for the whole batch, or would be no longer if it were. -/
def MeasuredInFull : Prop :=
  c.batchSize ≤ batchLimit ∨ c.publishTimeout = .zero ∨ Duration.maxNanos ≤ c.measuredPass

/-- However often the longest duration is reached on the way, the pass that is measured is exact up
to it. -/
theorem nanos_leastLease : c.leastLease.nanos = min Duration.maxNanos c.measuredPass := by
  rw [leastLease, Duration.nanos_add, Duration.nanos_times, Duration.nanos_times, measuredPass,
    Nat.mul_comm c.publishTimeout.nanos, Nat.mul_comm c.storageTimeout.nanos]
  omega

theorem measuredPass_of_le (h : c.batchSize ≤ batchLimit) : c.measuredPass = c.fullPass := by
  rw [measuredPass, fullPass, Nat.min_eq_left h]

/-- Every event that is not counted takes its time in a pass. -/
theorem measuredPass_add_le (h : batchLimit < c.batchSize) :
    c.measuredPass + c.publishTimeout.nanos ≤ c.fullPass := by
  have hone : (batchLimit + 1) * c.publishTimeout.nanos ≤
      c.batchSize * c.publishTimeout.nanos := Nat.mul_le_mul_right _ h
  rw [Nat.succ_mul] at hone
  rw [measuredPass, fullPass, Nat.min_eq_right (Nat.le_of_lt h)]
  omega

theorem measuredPass_le : c.measuredPass ≤ c.fullPass := by
  rcases Nat.lt_or_ge batchLimit c.batchSize with hlarge | hsmall
  · exact Nat.le_of_add_right_le (c.measuredPass_add_le hlarge)
  · exact Nat.le_of_eq (c.measuredPass_of_le hsmall)

theorem min_measuredPass_le : min Duration.maxNanos c.measuredPass ≤ c.neededLease := by
  have hle := c.measuredPass_le
  rw [neededLease]
  omega

/-- What is measured is what a full pass needs exactly where it is measured in full. -/
theorem measuredPass_eq_iff :
    min Duration.maxNanos c.measuredPass = c.neededLease ↔ c.MeasuredInFull := by
  rw [neededLease, MeasuredInFull]
  rcases Nat.lt_or_ge batchLimit c.batchSize with hlarge | hsmall
  · rw [or_iff_right (Nat.not_le.2 hlarge), Duration.ext_iff]
    have hmore := c.measuredPass_add_le hlarge
    constructor
    · intro heq
      show c.publishTimeout.nanos = 0 ∨ _
      omega
    · rintro (hzero | hlong)
      · have hzero : c.publishTimeout.nanos = 0 := hzero
        rw [measuredPass, fullPass, hzero, Nat.mul_zero, Nat.mul_zero]
      · omega
  · rw [c.measuredPass_of_le hsmall]
    exact ⟨fun _ => .inl hsmall, fun _ => rfl⟩

/-! ## Leases -/

/-- How long a pass takes does not depend on the lease. -/
theorem leastLease_coveringLease : c.coveringLease.leastLease = c.leastLease := by
  rw [c.coveringLease_eq]
  rfl

/-- A lease that has been raised is long enough not to be raised again. -/
theorem coveringLease_coveringLease : c.coveringLease.coveringLease = c.coveringLease := by
  have hlong : ¬ c.coveringLease.lease < c.coveringLease.leastLease := by
    show ¬ c.coveringLease.lease.nanos < c.coveringLease.leastLease.nanos
    rw [leastLease_coveringLease, nanos_coveringLease]
    exact Nat.not_lt.2 (Nat.le_max_right _ _)
  exact if_neg hlong

/-- The settings in an environment are what it asks for with the lease raised. -/
theorem exists_ofEnvironment (env : Environment) : ∃ asked : Settings,
    ofEnvironment env = asked.coveringLease ∧ 1 ≤ asked.batchSize ∧
      asked.lease = env.millis "OUTBOX_LEASE_MS" standard.lease :=
  ⟨_, rfl, Nat.le_max_right _ _, rfl⟩

/-- A lease that has been raised is as long as a full pass needs if that was measured in full, or if
the lease that was asked for is. -/
theorem neededLease_le_iff : c.neededLease ≤ c.coveringLease.lease.nanos ↔
    c.MeasuredInFull ∨ c.neededLease ≤ c.lease.nanos := by
  have hshort := c.min_measuredPass_le
  rw [nanos_coveringLease, nanos_leastLease, ← measuredPass_eq_iff]
  omega

/-! ## The guarantee -/

/-- What is promised of settings when their lease is raised. -/
structure LeaseRaised : Prop where
  /-- The lease is the one that was asked for or that of the pass that is measured, whichever is
  longer, and no longer than the longest there is. -/
  lease : c.coveringLease.lease.nanos =
    max c.lease.nanos (min Duration.maxNanos c.measuredPass)
  /-- It is just what a full pass needs, or what was asked for if that is longer, exactly where the
  pass is measured in full or enough was asked for. -/
  exact_iff : c.coveringLease.lease.nanos = max c.lease.nanos c.neededLease ↔
    c.MeasuredInFull ∨ c.neededLease ≤ c.lease.nanos
  others : c.coveringLease = { c with lease := c.coveringLease.lease }
  again : c.coveringLease.coveringLease = c.coveringLease

theorem leaseRaised : c.LeaseRaised := by
  have hshort := c.min_measuredPass_le
  have hlease : c.coveringLease.lease.nanos =
      max c.lease.nanos (min Duration.maxNanos c.measuredPass) := by
    rw [nanos_coveringLease, nanos_leastLease]
  refine ⟨hlease, ?_, c.coveringLease_eq, c.coveringLease_coveringLease⟩
  rw [← neededLease_le_iff, hlease]
  omega

/-- The arithmetic of leases, for any settings and for any environment: what a raised lease is, and
when it covers a full pass. -/
theorem leases_raised (c : Settings) (env : Environment) :
    c.LeaseRaised ∧ 1 ≤ (ofEnvironment env).batchSize ∧
      ((ofEnvironment env).neededLease ≤ (ofEnvironment env).lease.nanos ↔
        (ofEnvironment env).MeasuredInFull ∨
          (ofEnvironment env).neededLease ≤
            (env.millis "OUTBOX_LEASE_MS" standard.lease).nanos) := by
  obtain ⟨asked, heq, hsize, hlease⟩ := exists_ofEnvironment env
  rw [heq, ← hlease]
  have hsame : asked.coveringLease.neededLease = asked.neededLease ∧
      (asked.coveringLease.MeasuredInFull ↔ asked.MeasuredInFull) ∧
      asked.coveringLease.batchSize = asked.batchSize := by
    rw [asked.coveringLease_eq]
    exact ⟨rfl, Iff.rfl, rfl⟩
  obtain ⟨hneeded, hmeasured, hbatch⟩ := hsame
  rw [hneeded, hmeasured, hbatch]
  exact ⟨c.leaseRaised, hsize, asked.neededLease_le_iff⟩

/-! ### A batch that is too large to be counted -/

/-- The usual settings, but for a batch with one event more than is counted. -/
def crowded : Settings := { standard with batchSize := 2 ^ 32 }

/-- An environment that asks for these settings. -/
def crowdedEnvironment : Environment := fun name =>
  if name = "OUTBOX_BATCH_SIZE" then some (Bytes.ofText "4294967296") else none

/-- A lease that has been raised may be shorter than a full pass, by the time of the events that are
not counted. -/
theorem not_every_lease_covers :
    (¬ ∀ c : Settings, c.coveringLease.lease.nanos = max c.lease.nanos c.neededLease) ∧
    ¬ ∀ env : Environment, 1 ≤ (ofEnvironment env).batchSize ∧
      (ofEnvironment env).neededLease ≤ (ofEnvironment env).lease.nanos := by
  have hcrowded : crowded.neededLease = (2 ^ 32 * 2 + 10) * 10 ^ 9 ∧
      crowded.coveringLease.lease.nanos = ((2 ^ 32 - 1) * 2 + 10) * 10 ^ 9 ∧
      crowded.lease.nanos = 60 * 10 ^ 9 := by decide
  have hasked : ofEnvironment crowdedEnvironment = crowded.coveringLease := by decide +kernel
  obtain ⟨hneeded, hlease, hshort⟩ := hcrowded
  constructor
  · intro hall
    have heq := hall crowded
    rw [hneeded, hlease, hshort] at heq
    cases heq
  · intro hall
    have hle := (hall crowdedEnvironment).2
    have hsame : crowded.coveringLease.neededLease = crowded.neededLease := by
      rw [crowded.coveringLease_eq]
      rfl
    rw [hasked, hsame, hneeded, hlease] at hle
    exact absurd hle (by decide)

end Stockroom.Relay.Settings
