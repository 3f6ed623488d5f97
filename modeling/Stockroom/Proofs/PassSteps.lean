import Stockroom.Proofs.Passes
import Mathlib.Logic.Relation

/-!
# What a pass does to a store

However a pass goes, all that becomes of the store is made of three things: what its worker stamps,
what it records, and what others do while it waits. Publishing changes nothing. So what each of
these keeps is kept from the beginning of a pass to its end.

Results:
1. `Comes.elapse` and `Comes.storageCall`: waiting, and waiting for a storage call.
2. `Comes.publishAll`: a batch is published without an effect of its own.
3. `Comes.pass`: a whole pass.
-/
namespace Stockroom.Relay

open Outbox (Event Outcome)
open Relation (ReflTransGen)

variable {β δ α : Type} {worker : Worker} {planned : List (Appointment δ)}

/-- One thing that is done to a store during a pass: by its worker, or by somebody who keeps an
appointment. -/
inductive Effect (worker : String) (planned : List (Appointment δ)) : Store → Store → Prop
  | stamp {s : Store} (now : Date) (lease : Duration) (ids : List UInt64) :
      Effect worker planned s (Outbox.stamp now worker lease ids s).2
  | complete {s : Store} (now : Date) {outcomes : List (UInt64 × Outcome)}
      (reasons : ∀ o ∈ outcomes, ∀ reason, o.2 = .failed reason → Sized reason) :
      Effect worker planned s (Outbox.complete now worker outcomes s).2
  | keep {s : Store} {a : Appointment δ} (ha : a ∈ planned) (diary : δ) :
      Effect worker planned s (a.act s diary).1

/-- A world has come from a store by such effects, and nothing else is planned in it. -/
structure Comes (worker : Worker) (planned : List (Appointment δ)) (s : Store) (w : World β δ) :
    Prop where
  store : ReflTransGen (Effect worker.id planned) s w.store
  agenda : w.agenda ⊆ planned

theorem Comes.trans {s : Store} {w w' : World β δ} (h : Comes worker planned s w)
    (h' : Comes worker planned w.store w') : Comes worker planned s w' :=
  ⟨h.store.trans h'.store, h'.agenda⟩

/-! ## Time -/

variable {w : World β δ}

theorem keep_comes (time : Nat) {agenda : List (Appointment δ)} (h : agenda ⊆ planned) :
    Comes worker planned w.store (World.keep time agenda w) := by
  induction agenda generalizing w with
  | nil => exact ⟨.refl, List.nil_subset _⟩
  | cons a agenda ih =>
    obtain ⟨ha, hrest⟩ := List.cons_subset.1 h
    rw [World.keep]
    split
    · obtain ⟨hstore, hagenda⟩ := ih (w := { w with
        store := (a.act w.store w.diary).1, diary := (a.act w.store w.diary).2 }) hrest
      exact ⟨.head (.keep ha w.diary) hstore, hagenda⟩
    · exact ⟨.refl, h⟩

/-- While time passes, others keep their appointments. -/
theorem Comes.elapse (h : w.agenda ⊆ planned) (nanos : Nat) :
    Comes worker planned w.store (w.elapse nanos) := by
  obtain ⟨hstore, hagenda⟩ :
      Comes worker planned w.store (World.keep (w.now + nanos) w.agenda w) := keep_comes _ h
  exact ⟨hstore, hagenda⟩

theorem Comes.onStore {op : Date → Store → Except Fault α × Store}
    (hop : ∀ now s, ReflTransGen (Effect worker.id planned) s (op now s).2)
    (h : w.agenda ⊆ planned) : Comes worker planned w.store (w.onStore op).2 :=
  ⟨hop w.today w.store, h⟩

/-- What a storage call does is done, whether its result arrives or not. -/
theorem Comes.storageCall {op : Date → Store → Except Fault α × Store}
    (hop : ∀ now s, ReflTransGen (Effect worker.id planned) s (op now s).2)
    (h : w.agenda ⊆ planned) (limit : Duration) :
    Comes worker planned w.store (w.storageCall limit op).2 := by
  rw [World.storageCall]
  split
  · exact .onStore hop h
  · next time storage _ =>
    have hwaits (nanos : Nat) :
        Comes worker planned w.store (World.elapse { w with storage } nanos) :=
      Comes.elapse (w := { w with storage }) h nanos
    dsimp only
    split
    · exact (hwaits _).trans (.onStore hop (hwaits _).agenda)
    · exact (hwaits _).trans (.onStore hop (hwaits _).agenda)

/-! ## Passes -/

variable [Broker β]

theorem Comes.publish (h : w.agenda ⊆ planned) (limit : Duration) (m : Message) :
    Comes worker planned w.store (w.publish limit m).2 := by
  obtain ⟨nanos, hpublish⟩ := publish_cases limit m w
  rw [hpublish]
  exact Comes.elapse (w := { w with
    broker := (Broker.publish m w.broker).2
    attempts := w.attempts ++ [Attempt.mk w.now m]
    storage := (Broker.publish m w.broker).1.storage ++ w.storage }) h nanos

/-- The reasons for failures can be stored. -/
def Progress.Texts (p : Progress) : Prop :=
  ∀ o ∈ p.outcomes, ∀ reason, o.2 = .failed reason → Sized reason

theorem Progress.texts_start (b : Backoff) : (Progress.start b).Texts :=
  fun _ ho => absurd ho List.not_mem_nil

theorem Progress.Texts.note (hwords : WellSpoken β) {p : Progress} (h : p.Texts) (id : UInt64)
    (limit : Duration) (m : Message) (broker : β) :
    (p.note id ((Broker.publish m broker).1.heard limit)).Texts := by
  intro o ho reason hreason
  rcases Progress.mem_note ho with ho | ⟨-, rfl⟩ | ⟨fault, hheard, rfl⟩
  · exact h o ho reason hreason
  · cases hreason
  · cases hreason
    exact Reply.sized_heard (hwords m broker) hheard

/-- A batch is published without an effect of its own, as far as the worker comes. -/
theorem Comes.publishAll (worker : Worker) (batch : List Event) (hwords : WellSpoken β)
    {p : Progress} (hp : p.Texts) (h : w.agenda ⊆ planned) (limit : Duration) (deadline : Nat) :
    Comes worker planned w.store (Relay.publishAll limit deadline batch p w).2 ∧
      (Relay.publishAll limit deadline batch p w).1.Texts := by
  induction batch generalizing w p with
  | nil => exact ⟨⟨.refl, h⟩, hp⟩
  | cons e rest ih =>
    rw [Relay.publishAll]
    split
    · exact ⟨⟨.refl, h⟩, hp⟩
    · have hpublish : Comes worker planned w.store (w.publish limit (messageOf e)).2 :=
        .publish h _ _
      have hnote : (p.note e.id (w.publish limit (messageOf e)).1).Texts := by
        obtain ⟨nanos, heq⟩ := publish_cases limit (messageOf e) w
        rw [heq]
        exact hp.note hwords e.id limit (messageOf e) w.broker
      obtain ⟨hrest, hnotes⟩ := ih hnote hpublish.agenda
      exact ⟨hpublish.trans hrest, hnotes⟩

omit [Broker β] in
/-- What a worker does to take a batch is a stamp, if anything. -/
theorem Comes.takeBatch (h : w.agenda ⊆ planned) :
    Comes worker planned w.store (worker.takeBatch w).2 := by
  by_cases hover : worker.Overruns w
  · rw [Worker.takeBatch_overrun hover]
    exact ⟨.refl, h⟩
  · rw [Worker.takeBatch_intime hover]
    refine .storageCall (fun now s => ?_) h worker.settings.storageTimeout
    rcases claim_cases worker now s with ⟨fault, hnothing⟩ | ⟨ids, hstamp⟩
    · rw [hnothing]
    · rw [hstamp]
      exact .single (.stamp _ _ _)

/-- All that becomes of the store in a pass are effects of its worker and of those who keep
appointments. -/
theorem Comes.pass (hwords : WellSpoken β) (b : Backoff) (h : w.agenda ⊆ planned) :
    Comes worker planned w.store (worker.pass b w).2.2 := by
  have hfirst : Comes worker planned w.store (worker.takeBatch w).2 := .takeBatch h
  obtain ⟨fault, w₁, htake, hpass⟩ | ⟨w₁, htake, hpass⟩ |
    ⟨batch, w₁, p, w₂, result, w₃, htake, hpublish, hrecord, hpass⟩ := worker.pass_cases b w
  · rw [htake] at hfirst
    rw [hpass]
    exact hfirst
  · rw [htake] at hfirst
    rw [hpass]
    exact hfirst
  · rw [htake] at hfirst
    obtain ⟨hpublished, hreasons⟩ := Comes.publishAll worker batch hwords
      (Progress.texts_start b) hfirst.agenda worker.settings.publishTimeout
      (w.now + worker.settings.lease.nanos)
    rw [hpublish] at hpublished hreasons
    have hlast : Comes worker planned w₂.store (w₂.storageCall worker.settings.storageTimeout
        fun now => Outbox.complete now worker.id p.outcomes).2 :=
      .storageCall (fun now s => .single (.complete now hreasons)) hpublished.agenda _
    rw [hrecord] at hlast
    rw [hpass]
    exact hfirst.trans (hpublished.trans hlast)

end Stockroom.Relay
