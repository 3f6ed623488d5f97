import Stockroom.Broker.Script
import Stockroom.Power
import Stockroom.Proofs.Books
import Stockroom.Proofs.Rounds

/-!
# Delays between passes

The backoff of a worker is touched in two places: after each attempt to publish, and after each
pass. Whatever happens in a run bears on it as one sign after the other, a success or a failure, and
it counts the failures since the last success: after so many of them it is the floor doubled as many
times, up to the cap. The longest duration does not come into it, since the cap is no longer.

Results:
1. `Backoff.Counts.fail` and `Backoff.Counts.reset`: what a failure and a success make of the count.
2. `Backoff.Counts.noteAll` and `Backoff.Counts.next`: so it counts within a pass and after it.
3. `Round.next_idle`, `Round.next_at_once`, `Round.next_failed` and `Round.next_erred`: the delay
   after a pass, in the four ways it can go.
4. `Worker.Drives.goesOn`: the backoff that a worker comes to a pass with.
5. `delays_follow_failures`: the guarantee, for any passes and for every run of a worker.
-/
namespace Stockroom.Relay

/-! ## Counting failures -/

/-- What bears on the backoff of a worker. -/
inductive Sign
  /-- An event was published. -/
  | sent
  /-- An attempt to publish failed. -/
  | failed
  /-- A pass is over in which nothing failed. -/
  | clean
  /-- A pass is over that storage did not let go well. -/
  | erred
  deriving DecidableEq

def Sign.isFailure : Sign → Bool
  | failed | erred => true
  | sent | clean => false

/-- The failures since the last success, or since the start. -/
def failuresSince (signs : List Sign) : Nat := (signs.reverse.takeWhile Sign.isFailure).length

theorem failuresSince_concat (signs : List Sign) (sign : Sign) :
    failuresSince (signs ++ [sign]) = if sign.isFailure then failuresSince signs + 1 else 0 := by
  rw [failuresSince, failuresSince, List.reverse_append, List.reverse_singleton,
    List.singleton_append, List.takeWhile_cons]
  split
  · rfl
  · rfl

example : failuresSince [.failed, .sent, .failed, .erred] = 2 := by decide

/-- The backoff, in nanoseconds, after so many failures. -/
def delayAfter (floor cap : Duration) (failures : Nat) : Nat :=
  min cap.nanos (min floor.nanos cap.nanos * 2 ^ failures)

theorem delayAfter_zero (floor cap : Duration) :
    delayAfter floor cap 0 = min floor.nanos cap.nanos := by
  rw [delayAfter, Nat.pow_zero, Nat.mul_one]
  exact Nat.min_eq_right (Nat.min_le_right _ _)

/-- Doubling and the cap get along: it does not matter that what is doubled was capped before. -/
theorem delayAfter_succ (floor cap : Duration) (failures : Nat) :
    delayAfter floor cap (failures + 1) =
      min (min (delayAfter floor cap failures * 2) Duration.maxNanos) cap.nanos := by
  have hcap := cap.nanos_le
  rw [delayAfter, delayAfter, Nat.pow_succ, ← Nat.mul_assoc]
  generalize min floor.nanos cap.nanos * 2 ^ failures = grown
  omega

theorem delayAfter_le (floor cap : Duration) (failures : Nat) :
    delayAfter floor cap failures ≤ cap.nanos :=
  Nat.min_le_left _ _

theorem le_delayAfter (floor cap : Duration) (failures : Nat) :
    min floor.nanos cap.nanos ≤ delayAfter floor cap failures :=
  Nat.le_min.2 ⟨Nat.min_le_right _ _, Nat.le_mul_of_pos_right _ (Nat.two_pow_pos failures)⟩

/-! ## The backoff counts -/

namespace Backoff

/-- A backoff with these limits has counted so many failures. -/
structure Counts (least most : Duration) (failures : Nat) (b : Backoff) : Prop where
  floor : b.floor = min least most
  cap : b.cap = most
  current : b.current.nanos = delayAfter least most failures

variable {floor cap : Duration} {failures : Nat} {b : Backoff}

theorem counts_start (floor cap : Duration) : (start floor cap).Counts floor cap 0 := by
  refine ⟨rfl, rfl, ?_⟩
  rw [delayAfter_zero]
  exact Duration.nanos_min floor cap

theorem Counts.reset (h : b.Counts floor cap failures) : b.reset.Counts floor cap 0 := by
  refine ⟨h.floor, h.cap, ?_⟩
  rw [delayAfter_zero, ← Duration.nanos_min, ← h.floor]
  rfl

theorem Counts.fail (h : b.Counts floor cap failures) :
    b.fail.2.Counts floor cap (failures + 1) := by
  refine ⟨h.floor, h.cap, ?_⟩
  rw [delayAfter_succ, ← h.current, ← Duration.nanos_times]
  show (min (b.current.times 2) b.cap).nanos = _
  rw [Duration.nanos_min, h.cap]

end Backoff

open Backoff (Counts)

variable {floor cap : Duration} {earlier : List Sign}

/-- The sign of an attempt to publish. -/
def Sign.ofResult : Except PublishFault Unit → Sign
  | .ok _ => .sent
  | .error _ => .failed

theorem Backoff.Counts.note {p : Progress} (h : p.backoff.Counts floor cap (failuresSince earlier))
    (id : UInt64) (result : Except PublishFault Unit) :
    (p.note id result).backoff.Counts floor cap
      (failuresSince (earlier ++ [Sign.ofResult result])) := by
  rw [failuresSince_concat]
  cases result with
  | ok u => exact h.reset
  | error fault => exact h.fail

/-- Within a pass the backoff counts from attempt to attempt. -/
theorem Backoff.Counts.noteAll {p : Progress}
    (h : p.backoff.Counts floor cap (failuresSince earlier)) (tried : List Heard) :
    (p.noteAll tried).backoff.Counts floor cap
      (failuresSince (earlier ++ tried.map fun t => Sign.ofResult t.2)) := by
  induction tried generalizing p earlier with
  | nil =>
    rw [List.map_nil, List.append_nil]
    exact h
  | cons t tried ih =>
    rw [List.map_cons, List.append_cons]
    exact ih (h.note t.1 t.2)

/-! ## What a pass comes to -/

theorem Progress.noteAll_of_sent (p : Progress) {tried : List Heard}
    (h : ∀ t ∈ tried, t.2 = .ok ()) :
    (p.noteAll tried).failed = p.failed ∧ (p.noteAll tried).retryAfter = p.retryAfter := by
  induction tried generalizing p with
  | nil => exact ⟨rfl, rfl⟩
  | cons t tried ih =>
    obtain ⟨hfirst, hrest⟩ := List.forall_mem_cons.1 h
    obtain ⟨id, result⟩ := t
    obtain rfl : result = .ok () := hfirst
    exact ih (p.note id (.ok ())) hrest

/-- The delay that a pass asks for is the backoff just before its last failure. -/
theorem Progress.noteAll_of_failed (p : Progress) {before later : List Heard} {id : UInt64}
    {fault : PublishFault} (h : ∀ t ∈ later, t.2 = .ok ()) :
    (p.noteAll (before ++ (id, .error fault) :: later)).failed ≠ 0 ∧
      (p.noteAll (before ++ (id, .error fault) :: later)).retryAfter =
        some (p.noteAll before).backoff.current := by
  obtain ⟨hfailed, hretry⟩ :=
    ((p.noteAll before).note id (.error fault)).noteAll_of_sent h
  rw [noteAll_append]
  refine ⟨fun hzero => ?_, hretry⟩
  exact Nat.succ_ne_zero _ (hfailed.symm.trans hzero)

namespace Round

/-- Nothing that was tried in the pass failed. -/
def IsClean (r : Round) : Prop := ∀ t ∈ r.tried, t.2 = .ok ()

instance (r : Round) : Decidable r.IsClean := inferInstanceAs (Decidable (∀ t ∈ r.tried, _))

/-- The sign that the end of a pass is, if it is any. -/
def lastSign (r : Round) : List Sign :=
  match r.ending with
  | .error _ => [.erred]
  | .ok _ => if r.IsClean then [.clean] else []

/-- The signs of a pass in order. -/
def signs (r : Round) : List Sign := (r.tried.map fun t => Sign.ofResult t.2) ++ r.lastSign

/-- Unless nothing failed, something failed last. -/
theorem exists_last_failure {tried : List Heard} (h : ¬ ∀ t ∈ tried, t.2 = .ok ()) :
    ∃ before id fault later, tried = before ++ (id, .error fault) :: later ∧
      ∀ t ∈ later, t.2 = .ok () := by
  induction tried with
  | nil => exact absurd nofun h
  | cons t tried ih =>
    by_cases hrest : ∀ t ∈ tried, t.2 = .ok ()
    · obtain ⟨id, fault | ⟨⟩⟩ := t
      · exact ⟨[], id, fault, tried, rfl, hrest⟩
      · exact (h (List.forall_mem_cons.2 ⟨rfl, hrest⟩)).elim
    · obtain ⟨before, id, fault, later, rfl, hlater⟩ := ih hrest
      exact ⟨t :: before, id, fault, later, rfl, hlater⟩

theorem failed_progress_iff (r : Round) (b : Backoff) :
    (r.progress b).failed = 0 ↔ r.IsClean := by
  constructor
  · intro hzero
    by_contra hfailed
    obtain ⟨before, id, fault, later, htried, hlater⟩ := exists_last_failure hfailed
    rw [progress, htried] at hzero
    exact ((Progress.start b).noteAll_of_failed hlater).1 hzero
  · exact fun hclean => ((Progress.start b).noteAll_of_sent hclean).1

/-! ## The delay after a pass -/

variable {idle : Duration} {r : Round} {b : Backoff}

theorem next_of_ok (h : r.ending = .ok ()) :
    r.next idle b =
      (if r.batch = [] then idle else (r.progress b).retryAfter.getD .zero,
        if r.IsClean then (r.progress b).backoff.reset else (r.progress b).backoff) := by
  rw [next, outcome, h]
  show ((if r.batch.length = 0 then idle else (r.progress b).retryAfter.getD .zero),
    if (r.progress b).failed = 0 then _ else _) = _
  simp only [List.length_eq_zero_iff, failed_progress_iff]

theorem next_of_error {fault : Fault} (h : r.ending = .error fault) :
    r.next idle b = (r.progress b).backoff.fail := by
  rw [next, outcome, h]
  rfl

/-- A worker waits for its idle interval after it found nothing. -/
theorem next_idle (h : r.ending = .ok ()) (hnothing : r.batch = []) :
    (r.next idle b).1 = idle := by
  rw [next_of_ok h]
  exact if_pos hnothing

/-- It goes on at once after it found something and nothing failed. -/
theorem next_at_once (h : r.ending = .ok ()) (hsome : r.batch ≠ []) (hclean : r.IsClean) :
    (r.next idle b).1 = .zero := by
  rw [next_of_ok h]
  dsimp only
  rw [if_neg hsome, progress, ((Progress.start b).noteAll_of_sent hclean).2]
  rfl

/-- It waits for as long as its last failure asked for. -/
theorem next_failed {before later : List Heard} {id : UInt64} {fault : PublishFault}
    (h : r.ending = .ok ()) (htried : r.tried = before ++ (id, .error fault) :: later)
    (hlater : ∀ t ∈ later, t.2 = .ok ()) :
    (r.next idle b).1 = ((Progress.start b).noteAll before).backoff.current := by
  have hsome : r.batch ≠ [] := by
    intro hnothing
    rw [tried, hnothing] at htried
    exact List.append_ne_nil_of_right_ne_nil before (List.cons_ne_nil _ _) htried.symm
  rw [next_of_ok h]
  dsimp only
  rw [if_neg hsome, progress, htried, ((Progress.start b).noteAll_of_failed hlater).2]
  rfl

/-- It waits for as long as one more failure asks for after storage let it down. -/
theorem next_erred {fault : Fault} (h : r.ending = .error fault) :
    (r.next idle b).1 = (r.progress b).backoff.current := by
  rw [next_of_error h]
  rfl

end Round

/-- After a pass the backoff counts the signs of the pass too. -/
theorem Backoff.Counts.next {b : Backoff} (h : b.Counts floor cap (failuresSince earlier))
    (idle : Duration) (r : Round) :
    (r.next idle b).2.Counts floor cap (failuresSince (earlier ++ r.signs)) := by
  have htried : (r.progress b).backoff.Counts floor cap _ := noteAll (p := .start b) h r.tried
  rw [Round.signs, Round.lastSign, ← List.append_assoc]
  rcases hending : r.ending with fault | ⟨⟩
  · rw [Round.next_of_error hending, failuresSince_concat]
    exact htried.fail
  · rw [Round.next_of_ok hending]
    dsimp only
    split
    · rw [failuresSince_concat]
      exact htried.reset
    · rw [List.append_nil]
      exact htried

/-! ## Pass after pass -/

/-- The backoff of a worker after some passes. -/
def backoffAfter (idle : Duration) (rounds : List Round) (b : Backoff) : Backoff :=
  rounds.foldl (fun b r => (r.next idle b).2) b

theorem Backoff.Counts.backoffAfter {b : Backoff} (h : b.Counts floor cap (failuresSince earlier))
    (idle : Duration) (rounds : List Round) :
    (backoffAfter idle rounds b).Counts floor cap
      (failuresSince (earlier ++ rounds.flatMap Round.signs)) := by
  induction rounds generalizing b earlier with
  | nil =>
    rw [List.flatMap_nil, List.append_nil]
    exact h
  | cons r rounds ih =>
    rw [List.flatMap_cons, ← List.append_assoc]
    exact ih (h.next idle r)

section

variable {β δ : Type} [Broker β] {worker : Worker} {shutdown : Shutdown} {passes : Nat}
  {b : Backoff} {w w' : World β δ} {before after : List Round} {r : Round}

/-- The first round of a run is a pass from where the run begins. -/
theorem Worker.Drives.makes (h : worker.Drives shutdown passes b w (r :: after) w') :
    ∃ w₁, worker.Makes b w r w₁ := by
  cases h with
  | told hmakes | woken hmakes | waited hmakes => exact ⟨_, hmakes⟩

/-- After some of its passes a run goes on as one that begins there, with the backoff that these
left and as many passes fewer. -/
theorem Worker.Drives.goesOn (h : worker.Drives shutdown passes b w (before ++ r :: after) w') :
    ∃ w₀, worker.Drives shutdown (passes - before.length)
      (backoffAfter worker.settings.idleInterval before b) w₀ (r :: after) w' := by
  induction before generalizing passes b w with
  | nil => exact ⟨w, h⟩
  | cons r' before ih =>
    rw [List.cons_append] at h
    have hmore : before ++ r :: after ≠ [] :=
      List.append_ne_nil_of_right_ne_nil _ (List.cons_ne_nil r after)
    generalize hrest : before ++ r :: after = rest at h hmore
    cases h with
    | told | woken => exact absurd rfl hmore
    | waited _ _ _ hdrives =>
      rw [← hrest] at hdrives
      rw [List.length_cons, Nat.add_sub_add_right]
      exact ih hdrives

end

/-- A pass after some earlier ones, with a worker that started without failures: how the backoff
develops, and how long the worker waits then. -/
structure Round.Paced (floor cap idle : Duration) (earlier : List Round) (b : Backoff)
    (r : Round) : Prop where
  /-- After each attempt in the pass the backoff counts the failures since the last success. -/
  within : ∀ before later, r.tried = before ++ later →
    ((Progress.start b).noteAll before).backoff.current.nanos =
      delayAfter floor cap (failuresSince
        (earlier.flatMap Round.signs ++ before.map fun t => Sign.ofResult t.2))
  /-- So it does after the pass. -/
  after : (r.next idle b).2.current.nanos =
    delayAfter floor cap (failuresSince ((earlier ++ [r]).flatMap Round.signs))
  nothing : r.ending = .ok () → r.batch = [] → (r.next idle b).1 = idle
  atOnce : r.ending = .ok () → r.batch ≠ [] → r.IsClean → (r.next idle b).1 = .zero
  failed : ∀ before id fault later, r.ending = .ok () →
    r.tried = before ++ (id, .error fault) :: later → (∀ t ∈ later, t.2 = .ok ()) →
    (r.next idle b).1 = ((Progress.start b).noteAll before).backoff.current
  erred : ∀ fault, r.ending = .error fault →
    (r.next idle b).1 = (r.progress b).backoff.current
  /-- What the worker waits for after a failure lies within the limits. -/
  bounded : ¬ r.IsClean ∨ (∃ fault, r.ending = .error fault) →
    min floor.nanos cap.nanos ≤ (r.next idle b).1.nanos ∧ (r.next idle b).1.nanos ≤ cap.nanos

theorem Backoff.counts_backoffAfter (floor cap idle : Duration) (rounds : List Round) :
    (backoffAfter idle rounds (.start floor cap)).Counts floor cap
      (failuresSince (rounds.flatMap Round.signs)) := by
  rw [← List.nil_append (rounds.flatMap Round.signs)]
  exact (counts_start floor cap).backoffAfter idle rounds

/-- The backoff after some attempts of a pass. -/
theorem Round.current_noteAll (floor cap idle : Duration) (rounds : List Round)
    (tried : List Heard) :
    ((Progress.start (backoffAfter idle rounds (.start floor cap))).noteAll
        tried).backoff.current.nanos =
      delayAfter floor cap (failuresSince
        (rounds.flatMap Round.signs ++ tried.map fun t => Sign.ofResult t.2)) := by
  have hcounts := Backoff.counts_backoffAfter floor cap idle rounds
  exact (Backoff.Counts.noteAll (p := .start _) hcounts tried).current

theorem Round.paced (floor cap idle : Duration) (rounds : List Round) (r : Round) :
    r.Paced floor cap idle rounds (backoffAfter idle rounds (.start floor cap)) := by
  refine ⟨fun before _ _ => current_noteAll floor cap idle rounds before, ?_, next_idle,
    next_at_once, fun _ _ _ _ => next_failed, fun _ => next_erred, ?_⟩
  · have hcounts := Backoff.counts_backoffAfter floor cap idle (rounds ++ [r])
    rw [backoffAfter, List.foldl_append] at hcounts
    exact hcounts.current
  · intro hfailure
    obtain ⟨tried, hdelay⟩ : ∃ tried,
        (r.next idle (backoffAfter idle rounds (.start floor cap))).1 =
          ((Progress.start (backoffAfter idle rounds (.start floor cap))).noteAll
            tried).backoff.current := by
      rcases hending : r.ending with fault | ⟨⟩
      · exact ⟨r.tried, next_erred hending⟩
      · have hclean : ¬ r.IsClean :=
          hfailure.resolve_right fun ⟨_, h⟩ => nomatch hending.symm.trans h
        obtain ⟨before, id, fault, later, htried, hlater⟩ := exists_last_failure hclean
        exact ⟨before, next_failed hending htried hlater⟩
    rw [hdelay, current_noteAll]
    exact ⟨le_delayAfter _ _ _, delayAfter_le _ _ _⟩

/-- What is promised of a run from one world to another. -/
structure Worker.Paces {β δ : Type} [Broker β] (worker : Worker) (shutdown : Shutdown)
    (passes : Nat) (w w' : World β δ) (rounds : List Round) : Prop where
  /-- The passes of the run are made one after the other, and between them the worker waits as each
  asks for. -/
  drives : worker.Drives shutdown passes worker.backoff w rounds w'
  /-- There are as many as there may be, unless the worker was told to stop or its clock ended. -/
  length : rounds.length = passes ∨ rounds.length < passes ∧
    (shutdown.hasCome w' = true ∨ worker.Overruns w')
  /-- The worker comes to each with a backoff that has counted the failures of those before it, and
  the run goes on from there with that. -/
  paced : ∀ earlier r later, rounds = earlier ++ r :: later →
    ∃ (b : Backoff) (w₀ w₁ : World β δ),
      worker.Drives shutdown (passes - earlier.length) b w₀ (r :: later) w' ∧
      worker.Makes b w₀ r w₁ ∧
      r.Paced worker.settings.backoffFloor worker.settings.backoffCap
        worker.settings.idleInterval earlier b

/-- Whatever a worker hears and whether or not storage lets it down, its backoff is the floor
doubled for every failure since the last success, up to the cap. After a pass it waits for the idle
interval, not at all, or for what the backoff was before the last failure. Every run is made of such
passes, as many as it may make until it is told to stop. -/
theorem delays_follow_failures :
    (∀ (floor cap idle : Duration) (earlier : List Round) (r : Round),
      r.Paced floor cap idle earlier (backoffAfter idle earlier (.start floor cap))) ∧
    ∀ (β δ : Type) [Broker β] (worker : Worker) (shutdown : Shutdown) (passes : Nat)
      (w : World β δ),
      ∃ rounds, worker.Paces shutdown passes w (worker.run shutdown passes w) rounds := by
  refine ⟨Round.paced, ?_⟩
  intro β δ _ worker shutdown passes w
  obtain ⟨rounds, hdrives⟩ := worker.drives_runFrom shutdown passes worker.backoff w
  refine ⟨rounds, hdrives, hdrives.length, fun earlier r later hrounds => ?_⟩
  rw [hrounds] at hdrives
  obtain ⟨w₀, hrest⟩ := hdrives.goesOn
  obtain ⟨w₁, hmakes⟩ := hrest.makes
  exact ⟨_, w₀, w₁, hrest, hmakes, Round.paced _ _ _ earlier r⟩

/-! ### A broker that is out of reach at times -/

/-- A relay is about to start on two events. The broker does not take the first message, takes the
second, does not take the next two, and takes all later ones. Storage does not answer after the
fourth. -/
def startsFlaky : World Script Unit where
  store := (Ledger.Books.opened.run Ledger.twoOwed).store
  broker := ⟨[⟨some .zero, .unreachable "down", false⟩, .plain,
    ⟨some .zero, .unreachable "down", false⟩, ⟨some .zero, .rejected "full", true⟩]⟩
  now := 0
  calendar time := ⟨time⟩
  storage := []
  agenda := []
  diary := ()
  attempts := []

/-- In the first pass one event fails and the other is sent, so the second begins after one second,
and the third after one more. In that the event fails again and storage takes its five seconds, so
two failures count when the worker begins to wait, and the fourth pass begins after four seconds.
After the fifth, with nothing left to do, it has waited for the idle interval. -/
theorem delays_follow_failures_startsFlaky : ∃ rounds,
    Worker.standard.Paces unstopped 5 startsFlaky (Worker.standard.run unstopped 5 startsFlaky)
      rounds ∧
    rounds.length = 5 ∧
    (Worker.standard.run unstopped 5 startsFlaky).attempts.map (·.time) =
      [0, 0, 1, 2, 11].map (· * 10 ^ 9) ∧
    (Worker.standard.run unstopped 5 startsFlaky).now = 13 * 10 ^ 9 := by
  have hseen : (Worker.standard.run unstopped 5 startsFlaky).now = 13 * 10 ^ 9 ∧
      (Worker.standard.run unstopped 5 startsFlaky).attempts.map (·.time) =
        [0, 0, 1, 2, 11].map (· * 10 ^ 9) := by decide +kernel
  obtain ⟨rounds, hpaces⟩ := delays_follow_failures.2 Script Unit .standard unstopped 5 startsFlaky
  refine ⟨rounds, hpaces, hpaces.length.resolve_right ?_, hseen.2, hseen.1⟩
  rintro ⟨-, hcome | hover⟩
  · rw [Shutdown.hasCome, hseen.1] at hcome
    exact absurd hcome (by decide)
  · rw [Worker.Overruns, hseen.1] at hover
    exact absurd hover (by decide)

end Stockroom.Relay
