import Stockroom.Relay.Pass

/-!
# Relay runs

A relay makes one pass after the other until it is told to stop. After a pass that found nothing it
waits for an idle interval, after one with failures for as long as its backoff says, and after any
other it goes on at once. Between passes it sleeps, so no wait there is longer than the longest
sleep. It finishes the pass it is in before it stops; a wait ends at once. It ends as well where its
clock ends too soon for another pass.
-/
namespace Stockroom.Relay

variable {β δ : Type}

/-- How long to wait after a pass, and the backoff after it. A pass without failures forgets the
  earlier ones. -/
def nextDelay (outcome : Except Fault Report) (idle : Duration) (b : Backoff) :
    Duration × Backoff :=
  match outcome with
  | .ok report =>
    (if report.claimed = 0 then idle else report.retryAfter.getD .zero,
      if report.failed = 0 then b.reset else b)
  | .error _ => b.fail

/-- When a relay is told to stop. -/
structure Shutdown where
  /-- At a time on its clock. -/
  time : Nat
  /-- During the attempt to publish that makes so many in all. -/
  attempts : Option Nat

/-- Whether the relay has been told to stop. -/
def Shutdown.hasCome (s : Shutdown) (w : World β δ) : Bool :=
  s.time ≤ w.now || s.attempts.any (· ≤ w.attempts.length)

/-- Nobody tells the relay to stop, for some hundreds of years. -/
def unstopped : Shutdown := ⟨2 ^ 64, none⟩

/-- Make passes until told to stop, at most `passes` of them. -/
def Worker.runFrom [Broker β] (worker : Worker) (shutdown : Shutdown) :
    (passes : Nat) → Backoff → World β δ → World β δ
  | 0, _, w => w
  | passes + 1, b, w =>
    if worker.Overruns w then w
    else
      let (outcome, b, w) := worker.pass b w
      let (delay, b) := nextDelay outcome worker.settings.idleInterval b
      let wait := delay.slept.nanos
      if shutdown.hasCome w then w
      else if shutdown.time ≤ w.now + wait then w.elapse (shutdown.time - w.now)
      else worker.runFrom shutdown passes b (w.elapse wait)

/-- Make passes until told to stop, at most `passes` of them, starting without failures. -/
def Worker.run [Broker β] (worker : Worker) (shutdown : Shutdown) (passes : Nat)
    (w : World β δ) : World β δ :=
  worker.runFrom shutdown passes worker.backoff w

end Stockroom.Relay
