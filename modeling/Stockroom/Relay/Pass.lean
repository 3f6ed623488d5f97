import Stockroom.Outbox.Outcome
import Stockroom.Relay.Backoff
import Stockroom.Relay.Settings
import Stockroom.Relay.World

/-!
# Relay passes

In one pass a worker claims a batch of events, publishes them one after the other, and records what
came of each. It does not start to publish an event once its lease has run out: somebody else may
hold the rest of the batch by then. A success brings the backoff down, a failure drives it up.

The deadline for all this is set before anything else. It may lie past the end of the clock, if the
lease is some hundred thousand million years long. Then the worker is at its end, and has claimed
nothing.

Main statement: `Worker.pass_cases`, the ways that a pass can go.
-/
namespace Stockroom.Relay

/-- A worker of a relay. -/
structure Worker where
  id : String
  settings : Settings

/-- A worker with the settings that are used where nothing else is asked for. -/
def Worker.standard : Worker := ⟨"worker", .standard⟩

/-- A backoff for a worker that has just started. -/
def Worker.backoff (w : Worker) : Backoff :=
  .start w.settings.backoffFloor w.settings.backoffCap

/-- What a pass came to. -/
structure Report where
  claimed : Nat
  sent : Nat
  failed : Nat
  /-- Claimed but never published, because the lease ran out. -/
  abandoned : Nat
  /-- The delay after the last failure. -/
  retryAfter : Option Duration
  deriving DecidableEq

/-! ## Publishing a batch -/

/-- How far a worker has come with a batch. -/
structure Progress where
  backoff : Backoff
  sent : Nat
  failed : Nat
  abandoned : Nat
  retryAfter : Option Duration
  /-- What there is to record, oldest first. -/
  outcomes : List (UInt64 × Outbox.Outcome)

namespace Progress

/-- Nothing published yet. -/
def start (b : Backoff) : Progress := ⟨b, 0, 0, 0, none, []⟩

/-- Note what came of publishing an event. -/
def note (p : Progress) (id : UInt64) : Except PublishFault Unit → Progress
  | .ok () =>
    { p with
      backoff := p.backoff.reset
      sent := p.sent + 1
      outcomes := p.outcomes ++ [(id, .sent)] }
  | .error e =>
    let (delay, backoff) := p.backoff.fail
    { p with
      backoff
      failed := p.failed + 1
      retryAfter := some delay
      outcomes := p.outcomes ++ [(id, .failed e.message)] }

theorem abandoned_note (p : Progress) (id : UInt64) (result : Except PublishFault Unit) :
    (p.note id result).abandoned = p.abandoned := by
  cases result <;> rfl

/-- What the pass came to. -/
def report (p : Progress) (claimed : Nat) : Report :=
  ⟨claimed, p.sent, p.failed, p.abandoned, p.retryAfter⟩

end Progress

/-- The message that an event stands for. -/
def messageOf (e : Outbox.Event) : Message := ⟨e.topic, Bytes.ofText e.payload⟩

variable {β δ : Type}

/-- Publish the events of a batch in order until a deadline. -/
def publishAll [Broker β] (limit : Duration) (deadline : Nat) :
    List Outbox.Event → Progress → World β δ → Progress × World β δ
  | [], p, w => (p, w)
  | e :: rest, p, w =>
    if deadline ≤ w.now then ({ p with abandoned := rest.length + 1 }, w)
    else
      let (result, w) := w.publish limit (messageOf e)
      publishAll limit deadline rest (p.note e.id result) w

/-! ## Passes -/

/-- The most events that memory has room for. -/
def largestBatch : Nat := 2 ^ 60 - 1

/-- Claim a batch for a worker. -/
def Worker.claim (worker : Worker) (now : Date) (s : Store) :
    Except Fault (List Outbox.Event) × Store :=
  if largestBatch < worker.settings.batchSize then (.error (.taskFailed .batchTooLarge), s)
  else Outbox.claim now now worker.id worker.settings.batchSize worker.settings.lease s

/-- The deadline of a pass that begins now lies past the end of the clock. -/
def Worker.Overruns (worker : Worker) (w : World β δ) : Prop :=
  clockEnd ≤ w.now + worker.settings.lease.nanos

instance (worker : Worker) (w : World β δ) : Decidable (worker.Overruns w) :=
  inferInstanceAs (Decidable (_ ≤ _))

/-- Set the deadline and claim a batch. -/
def Worker.takeBatch (worker : Worker) (w : World β δ) :
    Except Fault (List Outbox.Event) × World β δ :=
  if worker.Overruns w then (.error (.taskFailed .deadlineTooFar), w)
  else w.storageCall worker.settings.storageTimeout worker.claim

section

variable {worker : Worker} {w w' : World β δ}

theorem Worker.takeBatch_overrun (h : worker.Overruns w) :
    worker.takeBatch w = (.error (.taskFailed .deadlineTooFar), w) :=
  if_pos h

theorem Worker.takeBatch_intime (h : ¬ worker.Overruns w) :
    worker.takeBatch w = w.storageCall worker.settings.storageTimeout worker.claim :=
  if_neg h

/-- What is taken was claimed. -/
theorem Worker.takeBatch_ok {batch : List Outbox.Event}
    (h : worker.takeBatch w = (.ok batch, w')) :
    w.storageCall worker.settings.storageTimeout worker.claim = (.ok batch, w') := by
  rw [takeBatch] at h
  split at h
  · cases h
  · exact h

theorem Worker.waits_takeBatch {result : Except Fault (List Outbox.Event)}
    (h : worker.takeBatch w = (result, w')) : w.Waits w' := by
  rw [takeBatch] at h
  split at h
  · cases h
    exact .refl w
  · exact .of_storageCall h

end

/-- Claim a batch, publish it, record what came of it. The deadline is taken before the claim, so it
  never lies beyond the end of the lease. -/
def Worker.pass [Broker β] (worker : Worker) (b : Backoff) (w : World β δ) :
    Except Fault Report × Backoff × World β δ :=
  let deadline := w.now + worker.settings.lease.nanos
  match worker.takeBatch w with
  | (.error e, w) => (.error e, b, w)
  | (.ok [], w) => (.ok ⟨0, 0, 0, 0, none⟩, b, w)
  | (.ok batch, w) =>
    let (p, w) := publishAll worker.settings.publishTimeout deadline batch (.start b) w
    let record now := Outbox.complete now worker.id p.outcomes
    match w.storageCall worker.settings.storageTimeout record with
    | (.error e, w) => (.error e, p.backoff, w)
    | (.ok _, w) => (.ok (p.report batch.length), p.backoff, w)

section

variable [Broker β] (worker : Worker) (b : Backoff) {w : World β δ}

theorem Worker.pass_overrun (h : worker.Overruns w) :
    worker.pass b w = (.error (.taskFailed .deadlineTooFar), b, w) := by
  rw [pass, takeBatch_overrun h]

/-- A pass ends where it takes no batch, or publishes and records the one that it takes. -/
theorem Worker.pass_cases (w : World β δ) :
    (∃ fault w₁, worker.takeBatch w = (.error fault, w₁) ∧
      worker.pass b w = (.error fault, b, w₁)) ∨
    (∃ w₁, worker.takeBatch w = (.ok [], w₁) ∧
      worker.pass b w = (.ok ⟨0, 0, 0, 0, none⟩, b, w₁)) ∨
    ∃ batch w₁ p w₂ result w₃, worker.takeBatch w = (.ok batch, w₁) ∧
      publishAll worker.settings.publishTimeout (w.now + worker.settings.lease.nanos) batch
        (.start b) w₁ = (p, w₂) ∧
      w₂.storageCall worker.settings.storageTimeout
        (fun now => Outbox.complete now worker.id p.outcomes) = (result, w₃) ∧
      worker.pass b w = (result.map fun _ => p.report batch.length, p.backoff, w₃) := by
  rcases htake : worker.takeBatch w with ⟨fault | _ | ⟨e, rest⟩, w₁⟩
  · exact .inl ⟨fault, w₁, rfl, by rw [pass, htake]⟩
  · exact .inr (.inl ⟨w₁, rfl, by rw [pass, htake]⟩)
  · rcases hpublish : publishAll worker.settings.publishTimeout
      (w.now + worker.settings.lease.nanos) (e :: rest) (.start b) w₁ with ⟨p, w₂⟩
    rcases hrecord : w₂.storageCall worker.settings.storageTimeout
      (fun now => Outbox.complete now worker.id p.outcomes) with ⟨result, w₃⟩
    refine .inr (.inr ⟨e :: rest, w₁, p, w₂, result, w₃, rfl, hpublish, hrecord, ?_⟩)
    rw [pass, htake]
    dsimp only
    rw [hpublish]
    dsimp only
    rw [hrecord]
    cases result with
    | error fault => rfl
    | ok count => rfl

end

end Stockroom.Relay
