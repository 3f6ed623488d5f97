import Stockroom.Proofs.Tables
import Stockroom.Relay.Run

/-!
# Passes as rounds

Whatever the world is like, a pass comes down to little: the batch that was claimed, what was heard
of each event of it that was tried, in order, and whether the storage calls succeeded. What the
worker notes and reports follows from these alone.

Results:
1. `publishAll_eq`: publishing a batch is trying some of its events and noting what is heard.
2. `Worker.makes_pass`: every pass is a round.
3. `Worker.drives_runFrom`: every run of a worker is one round after the other, with the delays that
   these ask for.
4. `Worker.Drives.length`: it has as many rounds as the run was allowed passes, unless the worker
   was told to stop or its clock ended.
-/
namespace Stockroom.Relay

open Outbox (Event)

variable {β δ α : Type}

/-! ## What a worker notes -/

/-- What was heard of an event that was tried. -/
abbrev Heard := UInt64 × Except PublishFault Unit

/-- Note what was heard of some events, one after the other. -/
def Progress.noteAll (p : Progress) (tried : List Heard) : Progress :=
  tried.foldl (fun p t => p.note t.1 t.2) p

theorem Progress.noteAll_append (p : Progress) (tried later : List Heard) :
    p.noteAll (tried ++ later) = (p.noteAll tried).noteAll later :=
  List.foldl_append

/-! ## Rounds -/

/-- A pass without the world around it. -/
structure Round where
  /-- What was claimed. -/
  batch : List Event
  /-- What was heard of the events that were tried, which come first in the batch. -/
  results : List (Except PublishFault Unit)
  /-- Whether the storage calls succeeded. -/
  ending : Except Fault Unit
  within : results.length ≤ batch.length

namespace Round

/-- What was heard of which event. -/
def tried (r : Round) : List Heard := (r.batch.map (·.id)).zip r.results

/-- What the worker has noted after all that it tried. -/
def progress (r : Round) (b : Backoff) : Progress := (Progress.start b).noteAll r.tried

/-- What the pass came to. What was claimed and not tried was abandoned. -/
def outcome (r : Round) (b : Backoff) : Except Fault Report :=
  r.ending.map fun _ =>
    { r.progress b with abandoned := r.batch.length - r.results.length }.report r.batch.length

/-- How long to wait after the pass, and the backoff after it. -/
def next (idle : Duration) (r : Round) (b : Backoff) : Duration × Backoff :=
  nextDelay (r.outcome b) idle (r.progress b).backoff

end Round

/-! ## Passes are rounds -/

variable [Broker β]

theorem World.attempts_publish (limit : Duration) (m : Message) (w : World β δ) :
    (w.publish limit m).2.attempts = w.attempts ++ [⟨w.now, m⟩] := by
  rw [publish]
  dsimp only
  split
  · exact (waits_elapse _ _).attempts
  · exact (waits_elapse _ _).attempts

/-- Events of a batch have been tried, from the first one on, and what was heard of each was noted.
The others were abandoned. -/
structure Publishes (batch : List Event) (results : List (Except PublishFault Unit))
    (p p' : Progress) (w w' : World β δ) : Prop where
  within : results.length ≤ batch.length
  progress : p' = { p.noteAll ((batch.map (·.id)).zip results) with
    abandoned := batch.length - results.length }
  attempts : w'.attempts.map (·.message) =
    w.attempts.map (·.message) ++ (batch.take results.length).map messageOf

omit [Broker β] in
theorem Publishes.nothing {batch : List Event} {p p' : Progress} {w : World β δ}
    (h : p' = { p with abandoned := batch.length }) : Publishes batch [] p p' w w := by
  refine ⟨Nat.zero_le _, ?_, ?_⟩
  · rw [List.zip_nil_right, h]
    rfl
  · rw [List.length_nil, List.take_zero, List.map_nil, List.append_nil]

omit [Broker β] in
theorem Publishes.cons {e : Event} {batch : List Event} {result : Except PublishFault Unit}
    {results : List (Except PublishFault Unit)} {p p' : Progress} {w w₁ w' : World β δ} {time : Nat}
    (hfirst : w₁.attempts = w.attempts ++ [⟨time, messageOf e⟩])
    (hrest : Publishes batch results (p.note e.id result) p' w₁ w') :
    Publishes (e :: batch) (result :: results) p p' w w' := by
  refine ⟨Nat.succ_le_succ hrest.within, ?_, ?_⟩
  · rw [hrest.progress, List.length_cons, List.length_cons, Nat.add_sub_add_right]
    rfl
  · rw [hrest.attempts, hfirst, List.map_append, List.append_assoc]
    rfl

/-- Publishing a batch is trying some of its events and noting what is heard. -/
theorem publishAll_eq (limit : Duration) (deadline : Nat) (batch : List Event) {p : Progress}
    (hnone : p.abandoned = 0) (w : World β δ) :
    ∃ results, Publishes batch results p (publishAll limit deadline batch p w).1 w
      (publishAll limit deadline batch p w).2 := by
  induction batch generalizing p w with
  | nil => exact ⟨[], .nothing (by rw [List.length_nil, ← hnone]; rfl)⟩
  | cons e batch ih =>
    rw [publishAll]
    split
    · exact ⟨[], .nothing rfl⟩
    · obtain ⟨results, hrest⟩ := ih ((p.abandoned_note e.id _).trans hnone)
        (w.publish limit (messageOf e)).2
      exact ⟨_ :: results, hrest.cons (w.attempts_publish limit (messageOf e))⟩

/-- A worker has made a pass that was this round: what it claimed, its report, its backoff and what
it published are those of the round. -/
structure Worker.Makes (worker : Worker) (b : Backoff) (w : World β δ) (r : Round)
    (w' : World β δ) : Prop where
  /-- The clock did not end too soon for the pass. -/
  intime : ¬ worker.Overruns w
  claimed : r.batch =
    (w.storageCall worker.settings.storageTimeout worker.claim).1.toOption.getD []
  pass : worker.pass b w = (r.outcome b, (r.progress b).backoff, w')
  attempts : w'.attempts.map (·.message) =
    w.attempts.map (·.message) ++ (r.batch.take r.results.length).map messageOf

/-- A pass that takes nothing is a round in which nothing is tried. -/
theorem Worker.Makes.of_nothing {worker : Worker} {b : Backoff} {w w' : World β δ}
    {batch : Except Fault (List Event)} {ending : Except Fault Unit}
    (hintime : ¬ worker.Overruns w) (htake : worker.takeBatch w = (batch, w'))
    (hnothing : batch.toOption.getD [] = [])
    (hpass : worker.pass b w = (ending.map fun _ => ⟨0, 0, 0, 0, none⟩, b, w')) :
    worker.Makes b w ⟨[], [], ending, Nat.le_refl _⟩ w' := by
  refine ⟨hintime, ?_, hpass, ?_⟩
  · rw [← Worker.takeBatch_intime hintime, htake]
    exact hnothing.symm
  · rw [(Worker.waits_takeBatch htake).attempts]
    exact (List.append_nil _).symm

/-- Every pass is a round. -/
theorem Worker.makes_pass {worker : Worker} {w : World β δ} (hintime : ¬ worker.Overruns w)
    (b : Backoff) : ∃ r, worker.Makes b w r (worker.pass b w).2.2 := by
  obtain ⟨fault, w₁, htake, hpass⟩ | ⟨w₁, htake, hpass⟩ |
    ⟨batch, w₁, p, w₂, result, w₃, htake, hpublish, hrecord, hpass⟩ := worker.pass_cases b w
  · rw [hpass]
    exact ⟨⟨[], [], .error fault, Nat.le_refl _⟩, .of_nothing hintime htake rfl hpass⟩
  · rw [hpass]
    exact ⟨⟨[], [], .ok (), Nat.le_refl _⟩, .of_nothing hintime htake rfl hpass⟩
  · have htaken := Worker.takeBatch_intime hintime
    have hclaim := (Worker.waits_takeBatch htake).attempts
    have hlast := (World.Waits.of_storageCall hrecord).attempts
    rw [htake] at htaken
    obtain ⟨results, hpublishes⟩ := publishAll_eq worker.settings.publishTimeout
      (w.now + worker.settings.lease.nanos) batch (p := .start b) rfl w₁
    rw [hpublish] at hpublishes
    obtain ⟨hwithin, hprogress, hattempts⟩ := hpublishes
    dsimp only at hprogress
    refine ⟨⟨batch, results, result.map fun _ => (), hwithin⟩, hintime,
      by rw [← htaken]; rfl, ?_, ?_⟩
    · rw [hpass, hprogress]
      cases result with
      | error fault => rfl
      | ok count => rfl
    · rw [hpass, hlast, hattempts, hclaim]

/-! ## Runs are sequences of rounds -/

/-- A worker that may make so many passes makes some rounds, one after the other. After each it
waits as the round asks for, with the backoff that the round leaves, until it is told to stop. -/
inductive Worker.Drives (worker : Worker) (shutdown : Shutdown) :
    Nat → Backoff → World β δ → List Round → World β δ → Prop
  /-- It may make no more passes. -/
  | enough (b : Backoff) (w : World β δ) : Drives worker shutdown 0 b w [] w
  /-- Its clock ends too soon for another pass. -/
  | overrun {passes : Nat} {b : Backoff} {w : World β δ} :
      worker.Overruns w → Drives worker shutdown (passes + 1) b w [] w
  | told {passes : Nat} {b : Backoff} {w w₁ : World β δ} {r : Round} :
      worker.Makes b w r w₁ → shutdown.hasCome w₁ = true →
      Drives worker shutdown (passes + 1) b w [r] w₁
  /-- It is told to stop while it waits. -/
  | woken {passes : Nat} {b : Backoff} {w w₁ : World β δ} {r : Round} :
      worker.Makes b w r w₁ → ¬ shutdown.hasCome w₁ = true →
      shutdown.time ≤ w₁.now + (r.next worker.settings.idleInterval b).1.slept.nanos →
      Drives worker shutdown (passes + 1) b w [r] (w₁.elapse (shutdown.time - w₁.now))
  | waited {passes : Nat} {b : Backoff} {w w₁ w₂ : World β δ} {r : Round} {rounds : List Round} :
      worker.Makes b w r w₁ → ¬ shutdown.hasCome w₁ = true →
      ¬ shutdown.time ≤ w₁.now + (r.next worker.settings.idleInterval b).1.slept.nanos →
      Drives worker shutdown passes (r.next worker.settings.idleInterval b).2
        (w₁.elapse (r.next worker.settings.idleInterval b).1.slept.nanos) rounds w₂ →
      Drives worker shutdown (passes + 1) b w (r :: rounds) w₂

/-- Every run of a worker is made of rounds. -/
theorem Worker.drives_runFrom (worker : Worker) (shutdown : Shutdown) (passes : Nat) (b : Backoff)
    (w : World β δ) :
    ∃ rounds, worker.Drives shutdown passes b w rounds (worker.runFrom shutdown passes b w) := by
  induction passes generalizing b w with
  | zero => exact ⟨[], .enough b w⟩
  | succ passes ih =>
    by_cases hover : worker.Overruns w
    · rw [runFrom, if_pos hover]
      exact ⟨[], .overrun hover⟩
    obtain ⟨r, hmakes⟩ := Worker.makes_pass hover b
    generalize (worker.pass b w).2.2 = w₁ at hmakes
    have hrun : worker.runFrom shutdown (passes + 1) b w =
        if shutdown.hasCome w₁ then w₁
        else if shutdown.time ≤
            w₁.now + (r.next worker.settings.idleInterval b).1.slept.nanos then
          w₁.elapse (shutdown.time - w₁.now)
        else worker.runFrom shutdown passes (r.next worker.settings.idleInterval b).2
          (w₁.elapse (r.next worker.settings.idleInterval b).1.slept.nanos) := by
      rw [runFrom, if_neg hover, hmakes.pass]
      rfl
    rw [hrun]
    split
    · next hcome => exact ⟨[r], .told hmakes hcome⟩
    · next hcome =>
      split
      · next hwoken => exact ⟨[r], .woken hmakes hcome hwoken⟩
      · next hwaits =>
        obtain ⟨rounds, hdrives⟩ := ih (r.next worker.settings.idleInterval b).2
          (w₁.elapse (r.next worker.settings.idleInterval b).1.slept.nanos)
        exact ⟨r :: rounds, .waited hmakes hcome hwaits hdrives⟩

omit [Broker β] in
/-- A worker that waits until it is told to stop has been told so. -/
theorem Shutdown.hasCome_elapse (shutdown : Shutdown) (w : World β δ) :
    shutdown.hasCome (w.elapse (shutdown.time - w.now)) = true := by
  have htime : shutdown.time ≤ w.now + (shutdown.time - w.now) :=
    Nat.sub_le_iff_le_add'.1 (Nat.le_refl _)
  exact Bool.or_eq_true_iff.2 (.inl (decide_eq_true htime))

/-- A worker makes as many passes as it may, unless it is told to stop or its clock ends. -/
theorem Worker.Drives.length {worker : Worker} {shutdown : Shutdown} {passes : Nat} {b : Backoff}
    {w w' : World β δ} {rounds : List Round}
    (h : worker.Drives shutdown passes b w rounds w') :
    rounds.length = passes ∨ rounds.length < passes ∧
      (shutdown.hasCome w' = true ∨ worker.Overruns w') := by
  -- one pass is all of them, or fewer
  have hone (passes : Nat) : 1 = passes + 1 ∨ 1 < passes + 1 :=
    Nat.eq_or_lt_of_le (Nat.succ_le_succ passes.zero_le)
  induction h with
  | enough => exact .inl rfl
  | overrun hover => exact .inr ⟨Nat.succ_pos _, .inr hover⟩
  | told _ hcome => exact (hone _).imp_right fun hlt => ⟨hlt, .inl hcome⟩
  | woken => exact (hone _).imp_right fun hlt => ⟨hlt, .inl (shutdown.hasCome_elapse _)⟩
  | waited _ _ _ _ ih =>
    exact ih.imp (congrArg Nat.succ) fun hfewer => hfewer.imp_left Nat.succ_lt_succ

end Stockroom.Relay
