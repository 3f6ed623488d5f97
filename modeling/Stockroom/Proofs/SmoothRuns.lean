import Stockroom.Proofs.CoveringLeases
import Stockroom.Proofs.SideBySide

/-!
# Runs on a smooth day

What workers side by side are promised is said of turns. A run of a relay is made of turns, and on a
smooth day of smooth ones: the broker takes every message in time, storage calls arrive, what the
calendar shows can be stored, and whoever else uses the store takes smooth turns as well. That no
event is given up need not be asked for. A lease that covers a pass leaves time for each event of
the batch before the deadline, so nothing is left of the batch when the pass is recorded.

Results:
1. `Conditions.suits_smooth`: a worker can make its passes on a smooth day.
2. `Worker.HasTime.leavesUndone`: with enough time it leaves nothing undone.
3. `run_side_by_side`: so the guarantee holds of every run.
-/
namespace Stockroom.Relay

open Ledger (Books Action)
open Outbox (Event event?)

variable {β δ : Type} {worker : Worker}

/-! ## Smooth days -/

namespace Conditions

/-- A smooth day for a worker, on which nothing is given up. -/
def smooth (worker : Worker) : Conditions where
  turn o t := t.Texts ∧ o.Smooth t ∧ o.givenUp t = []
  date now := now.Storable ∧ now < now.after worker.settings.lease
  storage time := ∃ t ∈ time, t ≤ worker.settings.storageTimeout
  left count := count = 0

theorem Allow.smooth {o : Office} {turns : List Turn}
    (h : (Conditions.smooth worker).Allow o turns) :
    (∀ t ∈ turns, t.Texts) ∧ o.SmoothIn turns ∧ o.givenUpIn turns = [] := by
  induction turns generalizing o with
  | nil => exact ⟨List.forall_mem_nil _, trivial, rfl⟩
  | cons t turns ih =>
    obtain ⟨⟨htext, hsmooth, hnone⟩, hrest⟩ := h
    obtain ⟨htexts, hday, hnothing⟩ := ih hrest
    refine ⟨List.forall_mem_cons.2 ⟨htext, htexts⟩, ⟨hsmooth, hday⟩, ?_⟩
    rw [Office.givenUpIn, hnone, hnothing]
    rfl

/-- No storage call is lost. -/
theorem not_mayLose_smooth : ¬ (smooth worker).MayLose worker.settings.storageTimeout := by
  rintro ⟨time, ⟨t, ht, hle⟩, hlost⟩
  exact Option.filter_eq_none_iff.1 hlost t ht (decide_eq_true hle)

end Conditions

/-- Whoever makes a call takes smooth turns. -/
theorem ofTurns_smooth_post (time : Nat) (c : Ledger.Call) (id : Identifier) (now : Date) :
    (Appointment.mk time fun s (diary : δ) => ((Ledger.post c id now s).2, diary)).OfTurns
      (.smooth worker) :=
  ofTurns_post (C := .smooth worker) (fun _ _ _ _ => ⟨trivial, trivial, rfl⟩)
    (fun _ _ _ => ⟨trivial, trivial, rfl⟩) time c id now

variable [Broker β]

/-- The broker takes every message before the worker gives up waiting for it, and storage is in no
trouble afterwards. -/
structure Obliging (β : Type) [Broker β] (worker : Worker) : Prop where
  takes : ∀ (m : Message) (broker : β),
    (Broker.publish m broker).1.heard worker.settings.publishTimeout = .ok ()
  storage : ∀ (m : Message) (broker : β), ∀ time ∈ (Broker.publish m broker).1.storage,
    (Conditions.smooth worker).storage time

/-- A worker can make its passes on a smooth day. -/
theorem Conditions.suits_smooth (hworker : Sized worker.id) (h : Obliging β worker) :
    (smooth worker).Suits β worker [] where
  claim o b now ids hpasses hdate := by
    refine ⟨hworker, ⟨hdate.2, fun leaseEnd hend => ?_⟩, rfl⟩
    rw [Office.leaseEnds, hpasses] at hend
    cases hend
  publish o batch p m broker hpasses := by
    refine ⟨Reply.words_of_ok (Reply.heard_ok (h.takes m broker)), fun pass hpass => ?_, rfl⟩
    rw [hpasses] at hpass
    cases hpass
    exact h.takes m broker
  record o batch p now hpasses hdate hleft := by
    refine ⟨trivial, hdate.1, ?_⟩
    rw [Office.givenUp, hpasses, List.length_eq_zero_iff.1 hleft]
    rfl
  stop hlost _ := absurd hlost not_mayLose_smooth
  storage := h.storage
  nothing := rfl

/-- A worker that has time for its batches leaves nothing of them undone. -/
theorem Worker.HasTime.leavesUndone (h : worker.HasTime) (b : Backoff) (w : World β δ) :
    worker.LeavesUndone (· = 0) b w := by
  intro batch w₁ p w₂ htake hpublish
  have hnone := (publishAll_intime (h.timeFor htake) (.start b)).1
  rw [hpublish] at hnone
  exact hnone

/-! ## The guarantee -/

/-- However long a relay runs on a smooth day that begins without leases, no event is received
twice, none is lost, and when it stops nothing is held and nothing was given up. -/
theorem run_side_by_side {before : List Action} {w : World (Minuted β) δ}
    (hbefore : ∀ a ∈ before, a.Texts)
    (hfree : ∀ id e, event? id (Books.opened.run before).store = .ok (some e) → e.leaseEnd = none)
    (hworker : Sized worker.id) (htime : worker.HasTime) (hbroker : Obliging β worker)
    (h : Mirrors (.smooth worker) (Office.onto (Books.opened.run before)) w) (shutdown : Shutdown)
    (passes : Nat) (hfits : (worker.run shutdown passes w).store.counter.Fits) :
    ∃ o handed, Mirrors (.smooth worker) o (worker.run shutdown passes w) ∧ o.passes = [] ∧
      SideBySide (Books.opened.run before) o handed [] := by
  obtain ⟨_, ⟨turns, hallow, rfl⟩, hmirrors, hpasses⟩ :=
    h.runFrom (Conditions.suits_smooth hworker hbroker) htime.leavesUndone shutdown passes
      worker.backoff
  obtain ⟨htexts, hsmooth, hnothing⟩ := hallow.smooth
  have hmirrors : Mirrors (.smooth worker) _ (worker.run shutdown passes w) := hmirrors
  rw [← hmirrors.store] at hfits
  have hday := orderly_day hbefore hfree htexts hsmooth hfits
  rw [hnothing] at hday
  exact ⟨_, _, hmirrors, hpasses, hday.sideBySide (Office.trials_run _ turns)⟩

/-! ### A move that is made during a pass -/

/-- A broker that takes every message after a second. -/
structure Willing where

instance : Broker Willing where
  publish _ broker := (⟨some (.ofSecs 1), .ok (), []⟩, broker)

/-- A relay is about to start on a store. Somebody makes a move just after that. -/
def startsSmooth (s : Store) : World (Minuted Willing) Unit where
  store := s
  broker := ⟨⟨⟩, []⟩
  now := 0
  calendar _ := ⟨0⟩
  storage := []
  agenda := [⟨1, fun s diary =>
    ((Ledger.post (.plain "b" "6" 2 3) (.fresh 0 6) ⟨0⟩ s).2, diary)⟩]
  diary := ()
  attempts := []

theorem mirrors_startsSmooth (b : Books) :
    Mirrors (.smooth .standard) (Office.onto b) (startsSmooth b.store) where
  store := rfl
  trials := rfl
  agenda := List.forall_mem_singleton.2 (ofTurns_smooth_post _ _ _ _)
  dates _ := show Date.Storable ⟨0⟩ ∧ (⟨0⟩ : Date) < Date.after ⟨0⟩ (.ofSecs 60) by decide
  storage := List.forall_mem_nil _

theorem obliging_willing : Obliging Willing .standard :=
  ⟨fun _ _ => rfl, fun _ _ => List.forall_mem_nil _⟩

theorem hasTime_standard : Worker.standard.HasTime := ⟨by decide, by decide⟩

/-- The first pass takes the event of the move that was made before, the second that of the other,
and the third finds nothing. -/
theorem run_side_by_side_startsSmooth : ∃ o handed,
    o.books.store =
      (Worker.standard.run unstopped 3 (startsSmooth (Books.opened.run firstMove).store)).store ∧
    SideBySide (Books.opened.run firstMove) o handed [] ∧ handed.length = 2 := by
  have hrows : ∀ row ∈ (Books.opened.run firstMove).store.events.rows,
      ∀ e ∈ (Stored.decode row.2 : Option Event), e.leaseEnd = none := by decide +kernel
  have hseen : (Worker.standard.run unstopped 3
        (startsSmooth (Books.opened.run firstMove).store)).store.counter.last? = some 3 ∧
      (Worker.standard.run unstopped 3
        (startsSmooth (Books.opened.run firstMove).store)).broker.trials.length = 2 := by
    decide +kernel
  have hsized : Sized Worker.standard.id := by
    simp only [Sized]
    decide
  obtain ⟨o, handed, hmirrors, -, hside⟩ := run_side_by_side texts_firstMove
    (unleased_of_rows hrows) hsized hasTime_standard obliging_willing
    (mirrors_startsSmooth _) unstopped 3 (.of_last hseen.1 (by decide))
  refine ⟨o, handed, hmirrors.store, hside, ?_⟩
  have hlength := congrArg List.length hside.received
  rw [List.length_map, List.length_map, hmirrors.trials, hseen.2] at hlength
  exact hlength.symm

end Stockroom.Relay
