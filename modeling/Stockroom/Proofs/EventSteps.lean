import Stockroom.Proofs.Books

/-!
# What actions do to events

A commitment makes one event. Any other action changes events by stamps and by reports that are
recorded, one event at a time, if it changes any.

Results:
1. `Books.act_complete`: a completion takes effect with what it records, or not at all.
2. `Books.act_events`: what stamps and recorded reports keep is kept by every action but a
   commitment.
-/
namespace Stockroom.Ledger

open Outbox (KeptByStamps KeptByReports)

/-! ## What an action brings -/

/-- The texts that an action stores with events can be stored. -/
def Action.Texts : Action → Prop
  | stamp _ worker _ _ | claim _ _ worker _ _ => Sized worker
  | complete _ _ outcomes => ∀ o ∈ outcomes, ∀ reason, o.2 = .failed reason → Sized reason
  | consider _ _ _ | commit _ _ | reopen => True

/-- Who stamps events, when, and for how long. -/
structure Stamp where
  now : Date
  worker : String
  lease : Duration

/-- The stamp that an action puts on events. -/
def Action.stamp? : Action → Option Stamp
  | stamp now worker lease _ => some ⟨now, worker, lease⟩
  | claim _ stamped worker _ lease => some ⟨stamped, worker, lease⟩
  | _ => none

theorem Action.Texts.worker {a : Action} (ha : a.Texts) {stamp : Stamp}
    (hstamp : stamp ∈ a.stamp?) : Sized stamp.worker := by
  cases a with
  | stamp | claim =>
    cases hstamp
    exact ha
  | consider | commit | complete | reopen => cases hstamp

namespace Books

/-! ## What is recorded -/

/-- The outcomes that an action records and that change anything, with the worker they come
from. -/
def recorded (b : Books) : Action → List (String × UInt64 × Outbox.Outcome)
  | .complete now worker outcomes =>
    match (Store.atomically (Outbox.recordEach now worker outcomes) b.store).1 with
    | .ok recorded => recorded.map (worker, ·)
    | .error _ => []
  | _ => []

/-- The outcomes that some actions record, one after the other. -/
def recordedIn (b : Books) : List Action → List (String × UInt64 × Outbox.Outcome)
  | [] => []
  | a :: actions => b.recorded a ++ (b.act a).recordedIn actions

/-- A completion takes effect with what it records, or not at all. -/
theorem act_complete (b : Books) (now : Date) (worker : String)
    (outcomes : List (UInt64 × Outbox.Outcome)) :
    (∃ recorded, Outbox.recordEach now worker outcomes b.store =
        .ok (recorded, (b.act (.complete now worker outcomes)).store) ∧
      b.recorded (.complete now worker outcomes) = recorded.map (worker, ·)) ∨
    (b.act (.complete now worker outcomes)).store = b.store ∧
      b.recorded (.complete now worker outcomes) = [] := by
  have hstore : (b.act (.complete now worker outcomes)).store =
      (Store.atomically (Outbox.recordEach now worker outcomes) b.store).2 := by
    show (Outbox.complete now worker outcomes b.store).2 = _
    rw [Outbox.complete_eq]
  rw [hstore, recorded, Store.atomically]
  cases Outbox.recordEach now worker outcomes b.store with
  | error e => exact .inr ⟨rfl, rfl⟩
  | ok p => exact .inl ⟨p.1, rfl, rfl⟩

theorem recorded_complete {b : Books} {now : Date} {worker reporter : String}
    {outcomes : List (UInt64 × Outbox.Outcome)} {id : UInt64} {outcome : Outbox.Outcome}
    (h : (reporter, id, outcome) ∈ b.recorded (.complete now worker outcomes)) :
    (id, outcome) ∈ outcomes := by
  rcases act_complete b now worker outcomes with ⟨recorded, hrun, heq⟩ | ⟨-, heq⟩
  · rw [heq] at h
    obtain ⟨o, ho, heq⟩ := List.mem_map.1 h
    cases heq
    exact (Outbox.recordEach_sublist hrun).subset ho
  · rw [heq] at h
    cases h

end Books

theorem Action.Texts.reason {a : Action} (ha : a.Texts) {b : Books} {worker : String} {id : UInt64}
    {outcome : Outbox.Outcome} (hmem : (worker, id, outcome) ∈ b.recorded a) :
    ∀ reason, outcome = .failed reason → Sized reason := by
  cases a with
  | complete => exact ha _ (Books.recorded_complete hmem)
  | consider | commit | stamp | claim | reopen => cases hmem

/-! ## What is kept -/

/-- A commitment makes an event. Every other action keeps what stamps and recorded reports keep. -/
theorem Books.act_events {P : Store → Prop} {b : Books} {a : Action} (h : P b.store)
    (htables : ∀ s, s.events = b.store.events → s.pending = b.store.pending → P s)
    (hstamp : ∀ stamp ∈ a.stamp?,
      KeptByStamps P stamp.now stamp.worker (stamp.now.after stamp.lease))
    (hreport : ∀ now worker outcomes, (∀ o ∈ outcomes, (worker, o) ∈ b.recorded a) →
      KeptByReports P now worker outcomes) :
    (∃ (place : Nat) (now : Date) (d : Draft), b.drafts[place]? = some d ∧
      d.Writes now b.store (b.act a).store ∧
      (b.act a).posted = b.posted ++ [⟨d, now⟩]) ∨
    ((b.act a).posted = b.posted ∧ P (b.act a).store) := by
  have hstep := act_step b a
  generalize hb' : b.act a = b' at hstep ⊢
  cases hstep with
  | committed hplace hwrites hfirst => exact .inl ⟨_, _, _, hplace, hwrites, rfl⟩
  | refused hs he =>
    rcases hs with rfl | rfl
    · exact .inr ⟨rfl, h⟩
    · exact .inr ⟨rfl, htables _ rfl rfl⟩
  | @stamped now worker lease ids =>
    exact .inr ⟨rfl, Outbox.stamp_invariant (hstamp _ rfl) ids h⟩
  | @claimed seen stamped worker limit lease =>
    exact .inr ⟨rfl, Outbox.claim_invariant (hstamp _ rfl) limit h⟩
  | @completed now worker outcomes =>
    refine .inr ⟨rfl, ?_⟩
    rw [← hb']
    rcases act_complete b now worker outcomes with ⟨recorded, hrun, heq⟩ | ⟨heq, -⟩
    · refine Outbox.recordEach_invariant hrun (hreport now worker recorded fun o ho => ?_) h
      rw [heq]
      exact List.mem_map.2 ⟨o, ho, rfl⟩
    · rw [heq]
      exact h
  | drafted | reopened => exact .inr ⟨rfl, htables _ rfl rfl⟩
  | found | late | failed | absent => exact .inr ⟨rfl, h⟩

end Stockroom.Ledger
