import Stockroom.Duration

/-!
# Backoff

After a failure a worker waits, after each further one twice as long, up to a cap; a success brings
the delay back down to its floor. A floor above the cap counts as the cap.
-/
namespace Stockroom.Relay

/-- How long a worker waits after its next failure, and the limits of that. -/
structure Backoff where
  floor : Duration
  cap : Duration
  current : Duration
  deriving DecidableEq

namespace Backoff

/-- No failure yet. -/
def start (floor cap : Duration) : Backoff := ⟨min floor cap, cap, min floor cap⟩

/-- Back down to the floor. -/
def reset (b : Backoff) : Backoff := { b with current := b.floor }

/-- The delay after one more failure, and a longer one for the next. -/
def fail (b : Backoff) : Duration × Backoff :=
  (b.current, { b with current := min (b.current.times 2) b.cap })

end Backoff

end Stockroom.Relay
