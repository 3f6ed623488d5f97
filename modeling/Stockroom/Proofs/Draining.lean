import Stockroom.Proofs.PassSteps
import Stockroom.Proofs.Queues
import Stockroom.Proofs.Rounds

/-!
# Draining the outbox

A relay that is alone takes the first events of the queue in each pass, as many as a batch has room
for. Those that are sent leave the queue, the others keep their places at its head and are taken
again in the next pass. So an event gets its turn once enough of those before it are gone: as long
as fewer events are refused than a batch has room for, all get their turn, and if a whole batch is
refused over and over, none of the others ever does.

Results:
1. `Worker.Makes.serves`: what a pass takes from the queue and what it leaves there.
2. `Serves.mem_iff`: in which passes an event gets its turn.
3. `Serves.all`: when all events have had theirs.
4. `waiting_events_get_turns`: the guarantee, for a relay alone on any reachable store.
5. `refused_event_blocks`: one event that is refused can keep another from its turn.
-/
namespace Stockroom.Relay

open Outbox (Event Outcome Queues Has failedIds)

variable {β δ α : Type} {w w₁ w' : World β δ}

/-! ## A relay alone -/

/-- Time has passed, and nobody else has plans. -/
structure World.Ages (w w' : World β δ) : Prop where
  calendar : w'.calendar = w.calendar
  alone : w'.agenda = []
  now : w.now ≤ w'.now

theorem World.ages_self (h : w.agenda = []) : w.Ages w := ⟨rfl, h, Nat.le_refl _⟩

theorem World.Ages.trans (h : w.Ages w₁) (h' : w₁.Ages w') : w.Ages w' :=
  ⟨h'.calendar.trans h.calendar, h'.alone, Nat.le_trans h.now h'.now⟩

theorem World.elapse_alone (h : w.agenda = []) (nanos : Nat) :
    w.Ages (w.elapse nanos) ∧ (w.elapse nanos).store = w.store := by
  rw [elapse, h]
  exact ⟨⟨rfl, rfl, Nat.le_add_right _ _⟩, rfl⟩

/-- A storage call that succeeds was made at some time later. -/
theorem World.storageCall_ok {limit : Duration} {op : Date → Store → Except Fault α × Store}
    {a : α} (halone : w.agenda = []) (h : w.storageCall limit op = (.ok a, w')) :
    op w'.today w.store = (.ok a, w'.store) ∧ w.Ages w' := by
  have honStore {w₁ : World β δ} (hages : w.Ages w₁) (hstore : w₁.store = w.store)
      (h : w₁.onStore op = (.ok a, w')) :
      op w'.today w.store = (.ok a, w'.store) ∧ w.Ages w' := by
    rw [onStore, hstore] at h
    obtain ⟨hresult, rfl⟩ := Prod.mk.inj h
    exact ⟨Prod.ext hresult rfl, hages.calendar, hages.alone, hages.now⟩
  rw [storageCall] at h
  rcases hstorage : w.storage with _ | ⟨time, storage⟩
  · rw [hstorage] at h
    exact honStore (ages_self halone) rfl h
  · rw [hstorage] at h
    dsimp only at h
    split at h
    · next time _ =>
      obtain ⟨hages, hstore⟩ := elapse_alone (w := { w with storage }) halone time.nanos
      exact honStore ⟨hages.calendar, hages.alone, hages.now⟩ hstore h
    · cases h

variable [Broker β]

theorem World.publish_alone (halone : w.agenda = []) (limit : Duration) (m : Message) :
    w.Ages (w.publish limit m).2 ∧ (w.publish limit m).2.store = w.store := by
  obtain ⟨nanos, hpublish⟩ := publish_cases limit m w
  rw [hpublish]
  obtain ⟨hages, hstore⟩ := World.elapse_alone (w := { w with
    broker := (Broker.publish m w.broker).2
    attempts := w.attempts ++ [Attempt.mk w.now m]
    storage := (Broker.publish m w.broker).1.storage ++ w.storage }) halone nanos
  exact ⟨⟨hages.calendar, hages.alone, hages.now⟩, hstore⟩

theorem publishAll_alone (halone : w.agenda = []) (limit : Duration) (deadline : Nat)
    (batch : List Event) (p : Progress) :
    w.Ages (publishAll limit deadline batch p w).2 ∧
      (publishAll limit deadline batch p w).2.store = w.store := by
  induction batch generalizing p w with
  | nil => exact ⟨World.ages_self halone, rfl⟩
  | cons e batch ih =>
    rw [publishAll]
    split
    · exact ⟨World.ages_self halone, rfl⟩
    · obtain ⟨hfirst, hstore⟩ := w.publish_alone halone limit (messageOf e)
      obtain ⟨hrest, hstore'⟩ := ih hfirst.alone (p.note e.id (w.publish limit (messageOf e)).1)
      exact ⟨hfirst.trans hrest, hstore'.trans hstore⟩

/-- If the deadline has not passed after a batch was published, no event was abandoned. -/
theorem abandoned_publishAll (limit : Duration) (deadline : Nat) (batch : List Event)
    (p : Progress)
    (hintime : (publishAll limit deadline batch p w).2.now < deadline) :
    (publishAll limit deadline batch p w).1.abandoned = p.abandoned := by
  induction batch generalizing p w with
  | nil => rfl
  | cons e batch ih =>
    rw [publishAll] at hintime ⊢
    split
    · next hpassed =>
      rw [if_pos hpassed] at hintime
      exact absurd hpassed (Nat.not_le.2 hintime)
    · next hpassed =>
      rw [if_neg hpassed] at hintime
      exact (ih _ hintime).trans (p.abandoned_note _ _)

/-! ## Counting -/

/-- What is recorded of an attempt. -/
def outcomeOf : Except PublishFault Unit → Outcome
  | .ok () => .sent
  | .error fault => .failed fault.message

omit [Broker β] in
theorem Progress.outcomes_noteAll (p : Progress) (tried : List Heard) :
    (p.noteAll tried).outcomes = p.outcomes ++ tried.map fun t => (t.1, outcomeOf t.2) := by
  induction tried generalizing p with
  | nil => exact (List.append_nil _).symm
  | cons t tried ih =>
    obtain ⟨id, fault | ⟨⟩⟩ := t
    · exact (ih _).trans (List.append_assoc _ _ _)
    · exact (ih _).trans (List.append_assoc _ _ _)

theorem Progress.sent_noteAll (p : Progress) (tried : List Heard) :
    (p.noteAll tried).sent = p.sent + tried.countP (·.2.isOk) := by
  induction tried generalizing p with
  | nil => rfl
  | cons t tried ih =>
    obtain ⟨id, fault | ⟨⟩⟩ := t
    · exact ih _
    · refine (ih _).trans ?_
      rw [List.countP_cons_of_pos rfl]
      exact Nat.add_right_comm _ _ _

theorem length_failedIds (tried : List Heard) :
    (failedIds (tried.map fun t => (t.1, outcomeOf t.2))).length =
      tried.countP (!·.2.isOk) := by
  induction tried with
  | nil => rfl
  | cons t tried ih =>
    obtain ⟨id, fault | ⟨⟩⟩ := t
    · rw [List.countP_cons_of_pos rfl]
      exact congrArg Nat.succ ih
    · rw [List.countP_cons_of_neg Bool.false_ne_true]
      exact ih

theorem countP_isOk_add (tried : List Heard) :
    tried.countP (·.2.isOk) + tried.countP (!·.2.isOk) = tried.length := by
  rw [List.length_eq_countP_add_countP (fun t : Heard => t.2.isOk)]
  simp only [Bool.not_eq_true, Bool.decide_eq_false]

namespace Round

/-- How many events were sent in the pass. -/
def sent (r : Round) : Nat := r.tried.countP (·.2.isOk)

/-- How many were tried and not sent. -/
def refused (r : Round) : Nat := r.tried.countP (!·.2.isOk)

theorem sent_add_refused (r : Round) : r.sent + r.refused = r.tried.length :=
  countP_isOk_add r.tried

/-- In a pass that abandons nothing the whole batch is tried. -/
theorem ids_tried {r : Round} (h : r.batch.length ≤ r.results.length) :
    r.tried.map (·.1) = r.batch.map (·.id) :=
  List.map_fst_zip (by rw [List.length_map]; exact h)

/-- A pass that succeeds says how many events it sent and abandoned. -/
theorem outcome_ok {r : Round} {b : Backoff} {report : Report} (h : r.outcome b = .ok report) :
    report.sent = r.sent ∧ report.abandoned = r.batch.length - r.results.length := by
  rw [outcome] at h
  rcases hending : r.ending with fault | ⟨⟩
  · rw [hending] at h
    cases h
  · rw [hending] at h
    cases h
    exact ⟨((Progress.start b).sent_noteAll r.tried).trans (Nat.zero_add _), rfl⟩

end Round

/-! ## One pass -/

/-- The relay is alone, and the events that are pending are free from now on. -/
structure World.Quiet (w : World β δ) (queue : List UInt64) : Prop where
  alone : w.agenda = []
  queues : Queues w.store queue
  free : ∀ id ∈ queue, ∀ time, w.now ≤ time →
    Has w.store id (·.isClaimable (w.calendar time) = true)

variable {worker : Worker} {queue : List UInt64} {b : Backoff} {r : Round} {s' : Store}

omit [Broker β] in
theorem World.Quiet.ages (h : w.Quiet queue) (hages : w.Ages w') (hstore : w'.store = w.store) :
    w'.Quiet queue := by
  refine ⟨hages.alone, hstore ▸ h.queues, fun id hid time htime => ?_⟩
  rw [hstore, hages.calendar]
  exact h.free id hid time (Nat.le_trans hages.now htime)

omit [Broker β] in
/-- What a claim takes. -/
theorem World.Quiet.claim (h : w.Quiet queue) (hworker : Sized worker.id) {time : Nat}
    (htime : w.now ≤ time) {events : List Event}
    (hclaim : worker.claim (w.calendar time) w.store = (.ok events, s')) :
    events.map (·.id) = queue.take worker.settings.batchSize ∧ Queues s' queue ∧
      Outbox.Holds s' worker.id (queue.take worker.settings.batchSize) ∧
      ∀ id ∈ queue.drop worker.settings.batchSize,
        Outbox.event? id s' = Outbox.event? id w.store := by
  rw [Worker.claim] at hclaim
  split at hclaim
  · cases hclaim
  · exact h.queues.claim hworker (fun id hid => h.free id hid time htime) hclaim

omit [Broker β] in
/-- The queue after a pass: events that are under no lease, and events that are as they were. -/
theorem World.Quiet.after {left rest : List UInt64} (h : w.Quiet queue) (hages : w.Ages w')
    (hqueues : Queues w'.store (left ++ rest))
    (hleft : ∀ id ∈ left, Has w'.store id (·.leaseEnd = none))
    (hrest : ∀ id ∈ rest,
      id ∈ queue ∧ Outbox.event? id w'.store = Outbox.event? id w.store) :
    w'.Quiet (left ++ rest) := by
  refine ⟨hages.alone, hqueues, fun id hid time htime => ?_⟩
  rcases List.mem_append.1 hid with hid' | hid'
  · obtain ⟨e, hfind, hpending, hlease⟩ := (hqueues.mem_iff.1 hid).and (hleft id hid')
    refine ⟨e, hfind, ?_⟩
    show (e.isPending && e.leaseEnd.all _) = true
    rw [hpending, hlease]
    rfl
  · obtain ⟨hold, hsame⟩ := hrest id hid'
    have hfree := h.free id hold time (Nat.le_trans hages.now htime)
    rw [← hages.calendar] at hfree
    exact hfree.of_eq hsame

/-- What there is to record of a batch that was published, if none of it was abandoned. -/
structure Recorded (batch : List Event) (p : Progress) : Prop where
  none : p.abandoned = 0
  ids : p.outcomes.map (·.1) = batch.map (·.id)
  failed : p.sent + (failedIds p.outcomes).length = batch.length
  reasons : p.Texts

theorem recorded_publishAll (hwords : WellSpoken β) (limit : Duration) (deadline : Nat)
    (batch : List Event) (b : Backoff)
    (hintime : (publishAll limit deadline batch (.start b) w).2.now < deadline) :
    Recorded batch (publishAll limit deadline batch (.start b) w).1 := by
  have hnone := abandoned_publishAll limit deadline batch (.start b) hintime
  have hreasons := (Comes.publishAll (w := w) ⟨"", .standard⟩ batch hwords (Progress.texts_start b)
    (List.Subset.refl _) limit deadline).2
  obtain ⟨results, hwithin, hprogress, -⟩ :=
    publishAll_eq limit deadline batch (p := .start b) rfl w
  generalize (publishAll limit deadline batch (.start b) w).1 = p at hnone hreasons hprogress ⊢
  have hall : batch.length ≤ results.length := by
    rw [hprogress] at hnone
    exact Nat.sub_eq_zero_iff_le.1 hnone
  have houtcomes : p.outcomes = ((batch.map (·.id)).zip results).map
      fun t => (t.1, outcomeOf t.2) := by
    rw [hprogress]
    exact (Progress.start b).outcomes_noteAll _
  have hsent : p.sent = ((batch.map (·.id)).zip results).countP (·.2.isOk) := by
    rw [hprogress]
    exact ((Progress.start b).sent_noteAll _).trans (Nat.zero_add _)
  refine ⟨hnone, ?_, ?_, hreasons⟩
  · rw [houtcomes, List.map_map]
    exact List.map_fst_zip (by rw [List.length_map]; exact hall)
  · rw [houtcomes, length_failedIds, hsent, countP_isOk_add, List.length_zip, List.length_map,
      Nat.min_eq_left hall]

/-- What a pass that succeeds has done. -/
theorem Worker.pass_ok {report : Report} {b' : Backoff}
    (h : worker.pass b w = (.ok report, b', w')) :
    ∃ events w₁, w.storageCall worker.settings.storageTimeout worker.claim = (.ok events, w₁) ∧
      (events = [] ∧ w' = w₁ ∧ report = ⟨0, 0, 0, 0, none⟩ ∨ ∃ p w₂ n,
        publishAll worker.settings.publishTimeout (w.now + worker.settings.lease.nanos) events
          (.start b) w₁ = (p, w₂) ∧
        w₂.storageCall worker.settings.storageTimeout
          (fun now => Outbox.complete now worker.id p.outcomes) = (.ok n, w') ∧
        report = p.report events.length) := by
  obtain ⟨fault, w₁, htake, hpass⟩ | ⟨w₁, htake, hpass⟩ |
    ⟨batch, w₁, p, w₂, result, w₃, htake, hpublish, hrecord, hpass⟩ := worker.pass_cases b w
  · cases h.symm.trans hpass
  · cases h.symm.trans hpass
    exact ⟨[], w', Worker.takeBatch_ok htake, .inl ⟨rfl, rfl, rfl⟩⟩
  · refine ⟨batch, w₁, Worker.takeBatch_ok htake, .inr ⟨p, w₂, ?_⟩⟩
    rcases result with fault | n
    · cases h.symm.trans hpass
    · cases h.symm.trans hpass
      exact ⟨n, hpublish, hrecord, rfl⟩

/-- A batch that a worker holds is published and recorded before a deadline. -/
theorem recorded_batch {w₂ : World β δ} {batch : List Event} {rest : List UInt64} {p : Progress}
    {n deadline : Nat} (hwords : WellSpoken β) (halone : w₁.agenda = [])
    (hqueues : Queues w₁.store (batch.map (·.id) ++ rest))
    (hholds : Outbox.Holds w₁.store worker.id (batch.map (·.id)))
    (hpublish : publishAll worker.settings.publishTimeout deadline batch (.start b) w₁ = (p, w₂))
    (hrecord : w₂.storageCall worker.settings.storageTimeout
      (fun now => Outbox.complete now worker.id p.outcomes) = (.ok n, w'))
    (hintime : w'.now < deadline) :
    Recorded batch p ∧ w₁.Ages w' ∧ Queues w'.store (failedIds p.outcomes ++ rest) ∧
      (∀ id ∈ failedIds p.outcomes, Has w'.store id (·.leaseEnd = none)) ∧
      ∀ id ∈ rest, Outbox.event? id w'.store = Outbox.event? id w₁.store := by
  obtain ⟨hages, hstore⟩ := publishAll_alone halone worker.settings.publishTimeout deadline batch
    (.start b)
  have hrecorded := recorded_publishAll (w := w₁) hwords worker.settings.publishTimeout deadline
    batch b
  rw [hpublish] at hages hstore hrecorded
  obtain ⟨hcomplete, hages'⟩ := World.storageCall_ok hages.alone hrecord
  rw [hstore] at hcomplete
  have hrecorded := hrecorded (Nat.lt_of_le_of_lt hages'.now hintime)
  rw [← hrecorded.ids] at hqueues hholds
  obtain ⟨hnext, hreleased, hsame⟩ := hqueues.complete hrecorded.reasons hholds hcomplete
  refine ⟨hrecorded, hages.trans hages', hnext, fun id hid => ?_, fun id hid => hsame id ?_⟩
  · exact hreleased id ((List.filter_sublist.map _).subset hid)
  · intro hmem
    exact (List.nodup_append.1 hqueues.nodup).2.2 id hmem id hid rfl

/-- The whole batch of such a pass is tried, and what failed is what was refused. -/
theorem Round.refused_of_recorded {p : Progress} (hrecorded : Recorded r.batch p)
    (hreport : r.outcome b = .ok (p.report r.batch.length)) :
    r.tried.map (·.1) = r.batch.map (·.id) ∧ (failedIds p.outcomes).length = r.refused := by
  obtain ⟨hsent, habandoned⟩ := outcome_ok hreport
  have htried := ids_tried (Nat.sub_eq_zero_iff_le.1 (habandoned.symm.trans hrecorded.none))
  have hlength := congrArg List.length htried
  rw [List.length_map, List.length_map] at hlength
  have hcount := r.sent_add_refused
  rw [hlength, ← hrecorded.failed, ← hsent] at hcount
  exact ⟨htried, (Nat.add_left_cancel hcount).symm⟩

/-- A pass that is recorded before its lease ends tries the first events of the queue. Those that
are sent leave it, the others stay at its head. -/
theorem Worker.Makes.serves (hmakes : worker.Makes b w r w') (hquiet : w.Quiet queue)
    (hworker : Sized worker.id) (hwords : WellSpoken β) (hending : r.ending = .ok ())
    (hintime : w'.now < w.now + worker.settings.lease.nanos) :
    r.tried.map (·.1) = queue.take worker.settings.batchSize ∧
      ∃ left, left.length = r.refused ∧
        w'.Quiet (left ++ queue.drop worker.settings.batchSize) := by
  obtain ⟨report, hreport⟩ : ∃ report, r.outcome b = .ok report := by
    rw [Round.outcome, hending]
    exact ⟨_, rfl⟩
  obtain ⟨batch, w₁, hcall, hrest⟩ := Worker.pass_ok (hreport ▸ hmakes.pass)
  obtain rfl : r.batch = batch := by
    rw [hmakes.claimed, hcall]
    rfl
  obtain ⟨hclaim, hages⟩ := World.storageCall_ok hquiet.alone hcall
  rw [World.today, hages.calendar] at hclaim
  obtain ⟨hids, hqueues, hholds, hothers⟩ := hquiet.claim hworker hages.now hclaim
  rw [← List.take_append_drop worker.settings.batchSize queue, ← hids] at hqueues
  rw [← hids] at hholds ⊢
  obtain ⟨hnone, rfl, -⟩ | ⟨p, w₂, n, hpublish, hrecord, rfl⟩ := hrest
  · have htried : r.tried = [] := by
      rw [Round.tried, hnone]
      rfl
    rw [hnone] at hqueues ⊢
    refine ⟨by rw [htried]; rfl, [], by rw [Round.refused, htried]; rfl, ?_⟩
    exact hquiet.after hages hqueues (List.forall_mem_nil _)
      fun id hid => ⟨List.mem_of_mem_drop hid, hothers id hid⟩
  · obtain ⟨hrecorded, hages', hnext, hreleased, hsame⟩ :=
      recorded_batch hwords hages.alone hqueues hholds hpublish hrecord hintime
    obtain ⟨htried, hrefused⟩ := Round.refused_of_recorded hrecorded hreport
    refine ⟨htried, _, hrefused, hquiet.after (hages.trans hages') hnext hreleased ?_⟩
    exact fun id hid => ⟨List.mem_of_mem_drop hid, (hsame id hid).trans (hothers id hid)⟩

/-- A pass that succeeds is a round whose storage calls did. -/
theorem Worker.makes_pass_ok (h : (worker.pass b w).1.isOk = true) :
    ∃ r, worker.Makes b w r (worker.pass b w).2.2 ∧ r.ending = .ok () := by
  have hintime : ¬ worker.Overruns w := by
    intro hover
    rw [Worker.pass_overrun worker b hover] at h
    cases h
  obtain ⟨r, hmakes⟩ := Worker.makes_pass hintime b
  refine ⟨r, hmakes, ?_⟩
  rcases hending : r.ending with fault | ⟨⟩
  · rw [hmakes.pass, Round.outcome, hending] at h
    cases h
  · rfl

/-- Only what was claimed is tried. -/
theorem Worker.Makes.claimed_of_tried (h : worker.Makes b w r w') {id : UInt64}
    (htried : id ∈ r.tried.map (·.1)) :
    id ∈ ((w.storageCall worker.settings.storageTimeout worker.claim).1.toOption.getD []).map
      (·.id) := by
  obtain ⟨t, ht, rfl⟩ := List.mem_map.1 htried
  rw [← h.claimed]
  exact (List.of_mem_zip ht).1

/-! ## Pass after pass -/

/-- A worker makes some passes, one after the other, with any backoffs and any pauses between them.
Each of them is recorded before its lease ends. -/
inductive Worker.Works (worker : Worker) : World β δ → List Round → Prop
  | rest (w : World β δ) : Works worker w []
  | pass {b : Backoff} {w w₁ : World β δ} {r : Round} {rounds : List Round} (pause : Nat) :
      worker.Makes b w r w₁ → r.ending = .ok () →
      w₁.now < w.now + worker.settings.lease.nanos → Works worker (w₁.elapse pause) rounds →
      Works worker w (r :: rounds)

/-- Passes that take the first events of a queue, so many at a time. -/
inductive Serves (size : Nat) : List UInt64 → List Round → Prop
  | rest (queue : List UInt64) : Serves size queue []
  | pass {queue left : List UInt64} {r : Round} {rounds : List Round} :
      queue.Nodup → r.tried.map (·.1) = queue.take size → left.length = r.refused →
      Serves size (left ++ queue.drop size) rounds → Serves size queue (r :: rounds)

variable {rounds : List Round}

theorem Worker.Works.serves (h : worker.Works w rounds) (hquiet : w.Quiet queue)
    (hworker : Sized worker.id) (hwords : WellSpoken β) :
    Serves worker.settings.batchSize queue rounds := by
  induction h generalizing queue with
  | rest w => exact .rest queue
  | pass pause hmakes hending hintime _ ih =>
    obtain ⟨htried, left, hleft, hnext⟩ := hmakes.serves hquiet hworker hwords hending hintime
    obtain ⟨hages, hstore⟩ := World.elapse_alone hnext.alone pause
    exact .pass hquiet.queues.nodup htried hleft (ih (hnext.ages hages hstore))

/-- An event was handed to the broker in one of some passes. -/
def Tried (id : UInt64) (rounds : List Round) : Prop := ∃ r ∈ rounds, id ∈ r.tried.map (·.1)

/-- How many events were sent in some passes. -/
def sentIn (rounds : List Round) : Nat := (rounds.map Round.sent).sum

omit [Broker β] in
theorem tried_cons {id : UInt64} {r : Round} {rounds : List Round} :
    Tried id (r :: rounds) ↔ id ∈ r.tried.map (·.1) ∨ Tried id rounds := by
  rw [Tried, List.exists_mem_cons_iff]
  rfl

theorem mem_take_iff {size place : Nat} {id : UInt64} (hnodup : queue.Nodup)
    (hplace : queue[place]? = some id) : id ∈ queue.take size ↔ place < size := by
  constructor
  · intro hmem
    by_contra hlate
    rw [← Nat.add_sub_cancel' (Nat.not_lt.1 hlate), ← List.getElem?_drop] at hplace
    exact List.disjoint_take_drop hnodup (Nat.le_refl _) hmem (List.mem_of_getElem? hplace)
  · intro hearly
    exact List.mem_of_getElem? ((List.getElem?_take_of_lt hearly).trans hplace)

/-- Where an event is in the queue and how many were sent says when it gets its turn. -/
theorem Serves.tried_iff {size passes place : Nat} {id : UInt64} (h : Serves size queue rounds)
    (hpasses : passes < rounds.length) (hplace : queue[place]? = some id) :
    Tried id (rounds.take (passes + 1)) ↔ place < size + sentIn (rounds.take passes) := by
  induction h generalizing passes place with
  | rest queue => exact absurd hpasses (Nat.not_lt_zero _)
  | @pass queue left r rounds hnodup htried hleft _ ih =>
    have hfirst : id ∈ r.tried.map (·.1) ↔ place < size := htried ▸ mem_take_iff hnodup hplace
    obtain _ | passes := passes
    · rw [List.take_succ_cons, tried_cons, hfirst]
      exact ⟨fun h => h.elim (fun h => h) nofun, .inl⟩
    rw [List.take_succ_cons, tried_cons, hfirst, List.take_succ_cons]
    show _ ↔ place < size + (r.sent + sentIn (rounds.take passes))
    by_cases hearly : place < size
    · exact ⟨fun _ => Nat.lt_add_right _ hearly, fun _ => .inl hearly⟩
    have hlate := Nat.le_of_not_lt hearly
    have hfull : (queue.take size).length = size := by
      refine List.length_take_of_le ?_
      exact Nat.le_trans hlate (Nat.le_of_lt (List.getElem?_eq_some_iff.1 hplace).1)
    have htotal : r.tried.length = size := by rw [← hfull, ← htried, List.length_map]
    have hcount := r.sent_add_refused
    rw [← hleft, htotal] at hcount
    have hnext : (left ++ queue.drop size)[left.length + (place - size)]? = some id := by
      rw [List.getElem?_append_right (Nat.le_add_right _ _), Nat.add_sub_cancel_left,
        List.getElem?_drop, Nat.add_sub_cancel' hlate, hplace]
    rw [ih (Nat.lt_of_succ_lt_succ hpasses) hnext]
    omega

/-- As long as fewer events are refused than a batch has room for, every event gets its turn. -/
theorem Serves.all {size refused passes : Nat} (h : Serves size queue rounds)
    (hroom : refused < size) (hpasses : rounds.length = passes + 1)
    (hrefused : ∀ r ∈ rounds, r.refused ≤ refused)
    (hfew : queue.length ≤ size + (size - refused) * passes) : ∀ id ∈ queue, Tried id rounds := by
  induction h generalizing passes with
  | rest queue => cases hpasses
  | @pass queue left r rounds hnodup htried hleft _ ih =>
    obtain ⟨hfirst, hrefused⟩ := List.forall_mem_cons.1 hrefused
    intro id hid
    rw [← List.take_append_drop size queue, ← htried] at hid
    rw [tried_cons]
    refine (List.mem_append.1 hid).imp_right fun hid => ?_
    obtain _ | passes := passes
    · rw [Nat.mul_zero, Nat.add_zero] at hfew
      rw [List.drop_of_length_le hfew] at hid
      cases hid
    · refine ih (Nat.succ.inj hpasses) hrefused ?_ id (List.mem_append_right _ hid)
      rw [List.length_append, List.length_drop, hleft]
      rw [Nat.mul_succ] at hfew
      omega

/-! ## The guarantee -/

open Ledger (Action Books twoOwed)

/-- Passes that take so many events at a time give those that are waiting their turns. -/
structure TakesTurns (size : Nat) (waiting : List Event) (rounds : List Round) : Prop where
  /-- An event is handed to the broker within some passes exactly if enough events are sent in all
  of these but the last: it is among the first of those still waiting then. -/
  turn : ∀ place e passes, waiting[place]? = some e → passes < rounds.length →
    (Tried e.id (rounds.take (passes + 1)) ↔ place < size + sentIn (rounds.take passes))
  /-- So all are handed to the broker if fewer are refused in any pass than a batch has room for,
  and sooner the fewer these are. -/
  all : ∀ refused passes, refused < size → rounds.length = passes + 1 →
    (∀ r ∈ rounds, r.refused ≤ refused) → waiting.length ≤ size + (size - refused) * passes →
    ∀ e ∈ waiting, Tried e.id rounds

/-- A relay alone on a store that calls and workers have left behind, where nobody holds a live
lease: as long as its passes are recorded before their leases end, whatever the broker answers,
those that are waiting get their turns. -/
theorem waiting_events_get_turns (hwords : WellSpoken β) (hworker : Sized worker.id)
    {actions : List Action} (htexts : ∀ a ∈ actions, a.Texts)
    (hstore : w.store = (Books.opened.run actions).store) (halone : w.agenda = []) :
    ∃ waiting, Outbox.pending w.store.pending.size w.store = .ok waiting ∧
      ((∀ e ∈ waiting, ∀ time, w.now ≤ time → e.isUnleased (w.calendar time) = true) →
        ∀ rounds, worker.Works w rounds →
          TakesTurns worker.settings.batchSize waiting rounds) := by
  have hsound : Outbox.Sound w.store := hstore ▸ Books.sound_run htexts
  obtain ⟨es, hes⟩ := hsound.exists_list
  have hpending := hsound.pending_eq hes w.store.pending.size
  rw [List.take_of_length_le (Nat.le_of_eq (hsound.size_eq hes).symm)] at hpending
  refine ⟨es.filter Event.isPending, hpending, fun hfree rounds hworks => ?_⟩
  have hquiet : w.Quiet ((es.filter Event.isPending).map (·.id)) := by
    refine ⟨halone, Queues.of_list hsound hes, fun id hid time htime => ?_⟩
    obtain ⟨e, he, rfl⟩ := List.mem_map.1 hid
    obtain ⟨hmem, hwaits⟩ := List.mem_filter.1 he
    exact ⟨e, hes.found e hmem, Bool.and_eq_true_iff.2 ⟨hwaits, hfree e he time htime⟩⟩
  have hserves := hworks.serves hquiet hworker hwords
  constructor
  case turn =>
    intro place e passes hplace hpasses
    exact hserves.tried_iff hpasses (by rw [List.getElem?_map, hplace]; rfl)
  case all =>
    intro refused passes hroom hpasses hrefused hfew e he
    refine hserves.all hroom hpasses hrefused ?_ e.id (List.mem_map_of_mem he)
    rw [List.length_map]
    exact hfew

/-! ### One event that is refused -/

/-- A broker that is out of reach for so many messages. -/
structure Outage where
  left : Nat

instance : Broker Outage where
  publish _ outage :=
    if outage.left = 0 then (.atOnce (.ok ()), outage)
    else (.atOnce (.error (.unreachable "down")), ⟨outage.left - 1⟩)

theorem wellSpoken_outage : WellSpoken Outage := by
  intro m outage fault hfault
  by_cases hup : outage.left = 0
  · rw [show Broker.publish m outage = (.atOnce (.ok ()), outage) from if_pos hup] at hfault
    cases hfault
  · rw [show Broker.publish m outage = (_, _) from if_neg hup] at hfault
    cases hfault
    simp only [Sized]
    decide

/-- A relay is about to start on a store while the broker is out of reach for one message. -/
def startsDown (s : Store) : World Outage Unit := ⟨s, ⟨1⟩, 0, fun time => ⟨time⟩, [], [], (), []⟩

theorem store_startsDown (s : Store) : (startsDown s).store = s := rfl

def downOnce : World Outage Unit := startsDown (Books.opened.run twoOwed).store

/-- A worker that claims one event at a time. -/
def oneByOne : Worker := ⟨"worker", { Settings.standard with batchSize := 1 }⟩

theorem store_downOnce : downOnce.store = (Books.opened.run twoOwed).store :=
  store_startsDown _

theorem agenda_downOnce : downOnce.agenda = [] := by
  rw [downOnce, startsDown]

theorem texts_twoOwed : ∀ a ∈ twoOwed, a.Texts := by
  simp only [twoOwed, List.forall_mem_cons]
  exact ⟨trivial, trivial, trivial, trivial, trivial, List.forall_mem_nil _⟩

theorem sized_oneByOne : Sized oneByOne.id := by
  simp only [Sized]
  decide

/-- The first pass has been made. -/
def triedOnce : World Outage Unit := (oneByOne.pass oneByOne.backoff downOnce).2.2.elapse 0

-- One statement, so that the two moves are worked out only once.
/-- What is waiting, and what the first two passes come to: both succeed in time, and both claim
the first event. -/
theorem seen_downOnce :
    (Outbox.pending downOnce.store.pending.size downOnce.store).map
        (·.map fun e => (e.id, e.leaseEnd)) = .ok [(0, none), (2000000, none)] ∧
      (∀ w ∈ [downOnce, triedOnce], (oneByOne.pass oneByOne.backoff w).1.isOk = true ∧
        (oneByOne.pass oneByOne.backoff w).2.2.now < w.now + oneByOne.settings.lease.nanos) ∧
      ∀ w ∈ [downOnce, triedOnce],
        ((w.storageCall oneByOne.settings.storageTimeout oneByOne.claim).1.toOption.getD []).map
          (·.id) = [0] := by
  decide +kernel

/-- Both events are waiting, and nobody has claimed them. -/
theorem waiting_twoOwed : ∃ waiting,
    Outbox.pending downOnce.store.pending.size downOnce.store = .ok waiting ∧
      waiting.map (·.id) = [0, 2000000] ∧ ∀ e ∈ waiting, ∀ time, e.isUnleased time = true := by
  have hids := seen_downOnce.1
  generalize Outbox.pending downOnce.store.pending.size downOnce.store = result at hids ⊢
  rcases result with fault | waiting
  · cases hids
  have hids : waiting.map (fun e => (e.id, e.leaseEnd)) = [(0, none), (2000000, none)] :=
    Except.ok.inj hids
  refine ⟨waiting, rfl, ?_, fun e he time => ?_⟩
  · have hfirst := congrArg (List.map (·.1)) hids
    rwa [List.map_map] at hfirst
  · have hmem := List.mem_map_of_mem (f := fun e : Event => (e.id, e.leaseEnd)) he
    rw [hids] at hmem
    have hfree : e.leaseEnd = none := by
      rcases List.mem_cons.1 hmem with hfirst | hsecond
      · exact congrArg Prod.snd hfirst
      · exact congrArg Prod.snd (List.mem_singleton.1 hsecond)
    rw [Event.isUnleased, hfree]
    rfl

/-- The first two passes are both spent on the first event. -/
theorem works_downOnce : ∃ rounds, oneByOne.Works downOnce rounds ∧ rounds.length = 2 ∧
    ∀ id, Tried id rounds → id = 0 := by
  obtain ⟨-, hpasses, hclaims⟩ := seen_downOnce
  obtain ⟨⟨hpass₁, htime₁⟩, hpasses⟩ := List.forall_mem_cons.1 hpasses
  obtain ⟨hpass₂, htime₂⟩ := List.forall_mem_singleton.1 hpasses
  obtain ⟨hclaim₁, hclaims⟩ := List.forall_mem_cons.1 hclaims
  have hclaim₂ := List.forall_mem_singleton.1 hclaims
  obtain ⟨r₁, hfirst, hok₁⟩ := Worker.makes_pass_ok hpass₁
  obtain ⟨r₂, hsecond, hok₂⟩ := Worker.makes_pass_ok hpass₂
  have hlater : oneByOne.Works triedOnce [r₂] := .pass 0 hsecond hok₂ htime₂ (.rest _)
  have hworks : oneByOne.Works downOnce [r₁, r₂] := .pass 0 hfirst hok₁ htime₁ hlater
  refine ⟨[r₁, r₂], hworks, rfl, fun id htried => ?_⟩
  rcases tried_cons.1 htried with hid | hlater
  · exact List.mem_singleton.1 (hclaim₁ ▸ hfirst.claimed_of_tried hid)
  · obtain ⟨r, hr, hid⟩ := hlater
    obtain rfl := List.mem_singleton.1 hr
    exact List.mem_singleton.1 (hclaim₂ ▸ hsecond.claimed_of_tried hid)

theorem waiting_events_get_turns_downOnce : ∃ waiting rounds,
    Outbox.pending downOnce.store.pending.size downOnce.store = .ok waiting ∧
      waiting.map (·.id) = [0, 2000000] ∧ oneByOne.Works downOnce rounds ∧
      rounds.length = 2 ∧ TakesTurns 1 waiting rounds := by
  obtain ⟨rounds, hworks, hlength, -⟩ := works_downOnce
  obtain ⟨waiting, hpending, hids, hfree⟩ := waiting_twoOwed
  obtain ⟨_, hsame, hturns⟩ := waiting_events_get_turns (w := downOnce) wellSpoken_outage
    sized_oneByOne texts_twoOwed store_downOnce agenda_downOnce
  obtain rfl := Except.ok.inj (hpending.symm.trans hsame)
  exact ⟨waiting, rounds, hpending, hids, hworks, hlength,
    hturns (fun e he time _ => hfree e he _) rounds hworks⟩

/-- Not every event gets its turn as soon as the batches have room for all. -/
theorem refused_event_blocks :
    ¬ ∀ (worker : Worker) (actions : List Action) (w : World Outage Unit) (waiting : List Event)
      (rounds : List Round), Sized worker.id → (∀ a ∈ actions, a.Texts) →
      w.store = (Books.opened.run actions).store → w.agenda = [] →
      Outbox.pending w.store.pending.size w.store = .ok waiting →
      (∀ e ∈ waiting, ∀ time, w.now ≤ time → e.isUnleased (w.calendar time) = true) →
      0 < worker.settings.batchSize → worker.Works w rounds →
      waiting.length ≤ worker.settings.batchSize * rounds.length →
      ∀ e ∈ waiting, Tried e.id rounds := by
  intro h
  obtain ⟨rounds, hworks, hlength, honly⟩ := works_downOnce
  obtain ⟨waiting, hpending, hids, hfree⟩ := waiting_twoOwed
  have hroom : waiting.length ≤ oneByOne.settings.batchSize * rounds.length := by
    have htwo := congrArg List.length hids
    rw [List.length_map] at htwo
    rw [htwo, hlength]
    decide
  have hsecond : (2000000 : UInt64) ∈ waiting.map (·.id) := by
    rw [hids]
    decide
  obtain ⟨e, he, hid⟩ := List.mem_map.1 hsecond
  have htried := h oneByOne twoOwed downOnce waiting rounds sized_oneByOne texts_twoOwed
    store_downOnce agenda_downOnce hpending (fun e he time _ => hfree e he _) Nat.one_pos hworks
    hroom e he
  have hfirst := honly e.id htried
  rw [hid] at hfirst
  exact absurd hfirst (by decide)

end Stockroom.Relay
