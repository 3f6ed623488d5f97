import Stockroom.Duration

/-!
# Relay settings

How many events a relay claims at a time, how long it waits for storage, for the broker and between
passes, and how long its claims last. A lease must outlast a whole pass: every publish timing out,
and one storage call before and one after them.

Main statement: `nanos_coveringLease`, the lease raised to that bound, or to the longest duration.
-/
namespace Stockroom.Relay

/-- How a relay works. -/
structure Settings where
  batchSize : Nat
  idleInterval : Duration
  backoffFloor : Duration
  backoffCap : Duration
  storageTimeout : Duration
  publishTimeout : Duration
  lease : Duration
  deriving DecidableEq

namespace Settings

/-- The settings where nothing else is asked for. -/
def standard : Settings :=
  ⟨20, .ofSecs 2, .ofSecs 1, .ofSecs 30, .ofSecs 5, .ofSecs 2, .ofSecs 60⟩

/-- The largest number of publishes that a lease is measured for. -/
def batchLimit : Nat := 2 ^ 32 - 1

/-- The longest a pass can take. -/
def leastLease (s : Settings) : Duration :=
  s.publishTimeout.times (min s.batchSize batchLimit) + s.storageTimeout.times 2

/-- The settings with a lease that outlasts a pass. -/
def coveringLease (s : Settings) : Settings :=
  if s.lease < s.leastLease then { s with lease := s.leastLease } else s

/-- The lease that covers a pass is the longer of the one asked for and the longest pass. -/
theorem nanos_coveringLease (s : Settings) :
    s.coveringLease.lease.nanos = max s.lease.nanos s.leastLease.nanos := by
  unfold coveringLease
  split
  · next h =>
    have h : s.lease.nanos < s.leastLease.nanos := h
    change s.leastLease.nanos = _
    omega
  · next h =>
    have h : ¬ s.lease.nanos < s.leastLease.nanos := h
    omega

example : standard.leastLease = .ofSecs 50 := by decide

end Settings

end Stockroom.Relay
