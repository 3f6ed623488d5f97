import Stockroom.Proofs.Draining
import Stockroom.Proofs.Settlements

/-!
# Accounts of passes

What a pass reports, what the broker was handed, and what the store holds afterwards are three
accounts of the same events. They agree, wherever the lease cuts the batch off: what was tried comes
first in the batch, what the broker accepted is sent, what it refused is free again with one more
attempt to its name, and the rest is as it was claimed. So after any number of passes the attempts
of an event are the times that it was refused, up to the largest number that is stored.

Results:
1. `Publishes.tally`: the numbers of a report are those of what was heard.
2. `Leaves.of_settles`: what a claim and a record leave of a store, wherever the batch is cut off.
3. `publishAll_hands`: what is heard of a batch is what the broker answers to its first events.
4. `Worker.adds_up`: a whole pass.
5. `passes_add_up`: the guarantee.
-/
namespace Stockroom.Relay

open Outbox (Event Outcome Sound Takes Settles Verdict event?)

variable {β δ α : Type} {w w' : World β δ}

/-! ## Numbers -/

/-- The numbers of a report agree with each other and with what was heard of a batch. -/
structure Tally (report : Report) (batch : List Event) (results : List (Except PublishFault Unit)) :
    Prop where
  claimed : report.claimed = batch.length
  total : report.claimed = report.sent + report.failed + report.abandoned
  sent : report.sent = results.countP (·.isOk)
  failed : report.failed = results.countP (!·.isOk)
  /-- There is something to wait for exactly if something failed. -/
  retry : report.retryAfter = none ↔ report.failed = 0

theorem Progress.failed_noteAll (p : Progress) (tried : List Heard) :
    (p.noteAll tried).failed = p.failed + tried.countP (!·.2.isOk) := by
  induction tried generalizing p with
  | nil => rfl
  | cons t tried ih =>
    obtain ⟨id, fault | ⟨⟩⟩ := t
    · refine (ih _).trans ?_
      rw [List.countP_cons_of_pos rfl]
      exact Nat.add_right_comm _ _ _
    · exact ih _

theorem Progress.retryAfter_noteAll (p : Progress) (tried : List Heard) :
    (p.noteAll tried).retryAfter = none ↔
      p.retryAfter = none ∧ tried.countP (!·.2.isOk) = 0 := by
  induction tried generalizing p with
  | nil => exact ⟨fun h => ⟨h, rfl⟩, fun h => h.1⟩
  | cons t tried ih =>
    obtain ⟨id, fault | ⟨⟩⟩ := t
    · refine (ih _).trans ?_
      rw [List.countP_cons_of_pos rfl]
      exact ⟨fun h => absurd h.1 nofun, fun h => absurd h.2 (Nat.succ_ne_zero _)⟩
    · exact ih _

/-- The numbers that a worker reports are those of what it heard. -/
theorem Publishes.tally {b : Backoff} {batch : List Event}
    {results : List (Except PublishFault Unit)} {p : Progress}
    (h : Publishes batch results (.start b) p w w') :
    Tally (p.report batch.length) batch results := by
  obtain ⟨hwithin, rfl, -⟩ := h
  have hresults : ((batch.map (·.id)).zip results).map Prod.snd = results :=
    List.map_snd_zip (by rw [List.length_map]; exact hwithin)
  generalize (batch.map (·.id)).zip results = tried at hresults ⊢
  subst hresults
  have hsent := (Progress.start b).sent_noteAll tried
  have hfailed := (Progress.start b).failed_noteAll tried
  have hretry := (Progress.start b).retryAfter_noteAll tried
  have hboth := countP_isOk_add tried
  rw [List.length_map] at hwithin ⊢
  replace hsent := hsent.trans (Nat.zero_add _)
  replace hfailed := hfailed.trans (Nat.zero_add _)
  refine ⟨rfl, ?_, ?_, ?_, ?_⟩
  · show batch.length = Progress.sent _ + Progress.failed _ + (batch.length - tried.length)
    rw [hsent, hfailed, hboth, Nat.add_sub_cancel' hwithin]
  · rw [List.countP_map]
    exact hsent
  · rw [List.countP_map]
    exact hfailed
  · show Progress.retryAfter _ = none ↔ Progress.failed _ = 0
    rw [hfailed]
    exact hretry.trans (and_iff_right rfl)

/-! ## Stores -/

/-- The events that were tried come first in a batch. -/
theorem map_fst_zip {γ ε : Type} (as : List γ) (bs : List ε) :
    (as.zip bs).map Prod.fst = as.take bs.length := by
  induction as generalizing bs with
  | nil => exact List.take_nil.symm
  | cons a as ih =>
    cases bs with
    | nil => rfl
    | cons b bs => exact congrArg (a :: ·) (ih bs)

/-- What there is to say of the events that were tried. -/
def verdicts (batch : List Event) (results : List (Except PublishFault Unit)) : List Verdict :=
  (batch.zip results).map fun t => (t.1, outcomeOf t.2)

theorem Publishes.outcomes {b : Backoff} {batch : List Event}
    {results : List (Except PublishFault Unit)} {p : Progress}
    (h : Publishes batch results (.start b) p w w') :
    p.outcomes = Outbox.reported (verdicts batch results) := by
  rw [h.progress]
  refine ((Progress.start b).outcomes_noteAll _).trans ?_
  rw [List.zip_map_left, Outbox.reported, verdicts, List.map_map, List.map_map]
  rfl

variable {s s₁ s' : Store} {now leaseEnd : Date} {worker : String} {taken batch : List Event}
  {results : List (Except PublishFault Unit)} {e : Event}

/-- What a pass leaves of a store in which it claims a batch and records what was heard of it. -/
structure Leaves (worker : String) (now : Date) (batch : List Event)
    (results : List (Except PublishFault Unit)) (s s' : Store) : Prop where
  ascending : (batch.map (·.id)).Pairwise (· < ·)
  /-- The events of the batch were pending, and are returned as they were stored, but under the
  lease. -/
  claimed : ∀ e ∈ batch, ∃ before leaseEnd, event? e.id s = .ok (some before) ∧
    before.isPending = true ∧ e = before.claim worker leaseEnd
  accepted : ∀ e, (e, .ok ()) ∈ batch.zip results →
    event? e.id s' = .ok (some (e.sent now)) ∧ s'.pending.get? (Event.key e.id) = none
  refused : ∀ e fault, (e, .error fault) ∈ batch.zip results →
    event? e.id s' = .ok (some (e.failed fault.message)) ∧
      (e.failed fault.message).attempts.toNat = min (e.attempts.toNat + 1) (2 ^ 32 - 1) ∧
      (s'.pending.get? (Event.key e.id)).isSome = true
  /-- What was not tried is still claimed. -/
  abandoned : ∀ e ∈ batch.drop results.length, event? e.id s' = .ok (some e) ∧
    (s'.pending.get? (Event.key e.id)).isSome = true
  others : ∀ key, (∀ e ∈ batch, Event.key e.id ≠ key) →
    s'.events.get? key = s.events.get? key ∧ s'.pending.get? key = s.pending.get? key

theorem mem_verdicts {r : Except PublishFault Unit} (h : (e, r) ∈ batch.zip results) :
    (e, outcomeOf r) ∈ verdicts batch results :=
  List.mem_map.2 ⟨(e, r), h, rfl⟩

theorem mem_of_mem_verdicts {v : Verdict} (h : v ∈ verdicts batch results) :
    v.1 ∈ batch.take results.length := by
  obtain ⟨t, ht, rfl⟩ := List.mem_map.1 h
  rw [← map_fst_zip]
  exact List.mem_map_of_mem ht

theorem ids_zip (batch : List Event) (results : List (Except PublishFault Unit)) :
    (batch.zip results).map (·.1.id) = (batch.map (·.id)).take results.length := by
  rw [← List.map_take, ← map_fst_zip, List.map_map]
  rfl

theorem nodup_zip (hnodup : (batch.map (·.id)).Nodup) :
    ((batch.zip results).map (·.1.id)).Nodup := by
  rw [ids_zip]
  exact hnodup.sublist (List.take_sublist _ _)

/-- What is claimed and recorded, wherever the batch is cut off. -/
theorem Leaves.of_settles (hs : Sound s) (hascending : (taken.map (·.id)).Pairwise (· < ·))
    (hpending : ∀ e ∈ taken, e.isPending = true) (htakes : Takes worker leaseEnd taken s s₁)
    (hsettles : Settles now (verdicts (taken.map (·.claim worker leaseEnd)) results) s₁ s') :
    Leaves worker now (taken.map (·.claim worker leaseEnd)) results s s' := by
  have hids : (taken.map (·.claim worker leaseEnd)).map (·.id) = taken.map (·.id) := by
    rw [List.map_map]
    rfl
  have hclaimed : ∀ e ∈ taken.map (·.claim worker leaseEnd), ∃ before ∈ taken,
      before.claim worker leaseEnd = e := fun e he => List.mem_map.1 he
  generalize taken.map (·.claim worker leaseEnd) = batch at hids hclaimed hsettles
  constructor
  case ascending => rwa [hids]
  case claimed =>
    intro e he
    obtain ⟨before, hbefore, rfl⟩ := hclaimed e he
    exact ⟨before, leaseEnd, htakes.found before hbefore, hpending before hbefore, rfl⟩
  case accepted =>
    intro e htried
    have hstored := hsettles.stored _ (mem_verdicts htried)
    have hwaiting := hsettles.waiting _ (mem_verdicts htried)
    refine ⟨hstored, ?_⟩
    rw [← Option.not_isSome_iff_eq_none]
    exact fun hsome => hwaiting.1 hsome rfl
  case refused =>
    intro e fault htried
    have hstored := hsettles.stored _ (mem_verdicts htried)
    have hwaiting := hsettles.waiting _ (mem_verdicts htried)
    exact ⟨hstored, Outbox.toNat_attempts_failed fault.message e, hwaiting.2 nofun⟩
  case abandoned =>
    intro e he
    -- what was said of others does not touch this event
    have hother : ∀ v ∈ verdicts batch results, Event.key v.1.id ≠ Event.key e.id := by
      intro v hv heq
      have hnodup := Outbox.nodup_of_ascending (hids ▸ hascending)
      have hlate : e.id ∈ (batch.map (·.id)).drop results.length := by
        rw [← List.map_drop]
        exact List.mem_map_of_mem he
      have hearly : e.id ∈ (batch.map (·.id)).take results.length := by
        rw [← List.map_take, ← Outbox.Event.key_injective heq]
        exact List.mem_map_of_mem (mem_of_mem_verdicts hv)
      exact List.disjoint_take_drop hnodup (Nat.le_refl _) hearly hlate
    obtain ⟨hevent, hindex⟩ := hsettles.untouched _ hother
    obtain ⟨before, hbefore, rfl⟩ := hclaimed e (List.mem_of_mem_drop he)
    have hfound := htakes.found before hbefore
    refine ⟨(Outbox.event?_of_get? hevent).trans (htakes.stored before hbefore), ?_⟩
    rw [hindex, htakes.pending]
    exact (hs.index _).2 ⟨before, hfound, hpending before hbefore⟩
  case others =>
    intro key hother
    obtain ⟨hevent, hindex⟩ := hsettles.untouched key fun v hv =>
      hother v.1 (List.mem_of_mem_take (mem_of_mem_verdicts hv))
    refine ⟨hevent.trans (htakes.untouched key fun before hbefore => ?_), ?_⟩
    · have hmem : before.id ∈ batch.map (·.id) := hids ▸ List.mem_map_of_mem hbefore
      obtain ⟨e, he, heq⟩ := List.mem_map.1 hmem
      rw [← heq]
      exact hother e he
    · rw [hindex, htakes.pending]

/-! ## Attempts -/

/-- The numbers of the events that were tried and refused. -/
def refusedIds (batch : List Event) (results : List (Except PublishFault Unit)) : List UInt64 :=
  ((batch.zip results).filter (!·.2.isOk)).map (·.1.id)

theorem mem_refusedIds_iff {id : UInt64} : id ∈ refusedIds batch results ↔
    ∃ e fault, (e, .error fault) ∈ batch.zip results ∧ e.id = id := by
  constructor
  · intro hin
    obtain ⟨⟨e, r⟩, ht, rfl⟩ := List.mem_map.1 hin
    obtain ⟨ht, hbad⟩ := List.mem_filter.1 ht
    rcases r with fault | ⟨⟩
    · exact ⟨e, fault, ht, rfl⟩
    · cases hbad
  · rintro ⟨e, fault, ht, rfl⟩
    exact List.mem_map.2 ⟨_, List.mem_filter.2 ⟨ht, rfl⟩, rfl⟩

/-- What was refused was tried, in the order of the batch. -/
theorem refusedIds_sublist (batch : List Event) (results : List (Except PublishFault Unit)) :
    (refusedIds batch results).Sublist ((batch.map (·.id)).take results.length) := by
  rw [← ids_zip]
  exact List.filter_sublist.map _

/-- What was accepted was not refused. -/
theorem not_refused_of_accepted (hnodup : (batch.map (·.id)).Nodup)
    (ht : (e, .ok ()) ∈ batch.zip results) : e.id ∉ refusedIds batch results := by
  intro hin
  obtain ⟨e', fault, ht', hid⟩ := mem_refusedIds_iff.1 hin
  cases List.inj_on_of_nodup_map (nodup_zip hnodup) ht' ht hid

/-- What was not tried was not refused. -/
theorem not_refused_of_abandoned (hnodup : (batch.map (·.id)).Nodup)
    (he : e ∈ batch.drop results.length) : e.id ∉ refusedIds batch results := by
  intro hin
  have hlate : e.id ∈ (batch.map (·.id)).drop results.length := by
    rw [← List.map_drop]
    exact List.mem_map_of_mem he
  exact List.disjoint_take_drop hnodup (Nat.le_refl _)
    ((refusedIds_sublist batch results).subset hin) hlate

/-- An event that is refused has one more attempt to its name, and no other has. -/
theorem Leaves.attempts (h : Leaves worker now batch results s s') {id : UInt64} {before : Event}
    (hfind : event? id s = .ok (some before)) :
    ∃ after, event? id s' = .ok (some after) ∧ after.attempts.toNat =
      min (before.attempts.toNat + (refusedIds batch results).count id) (2 ^ 32 - 1) := by
  have hbound : before.attempts.toNat < 2 ^ 32 := before.attempts.toNat_lt
  have hnodup := Outbox.nodup_of_ascending h.ascending
  -- an event that is not among the refused keeps its count
  have hsame {after : Event} (hnot : id ∉ refusedIds batch results)
      (hafter : after.attempts = before.attempts) : after.attempts.toNat =
        min (before.attempts.toNat + (refusedIds batch results).count id) (2 ^ 32 - 1) := by
    rw [hafter, List.count_eq_zero_of_not_mem hnot]
    omega
  by_cases hbatch : id ∈ batch.map (·.id)
  · obtain ⟨e, he, rfl⟩ := List.mem_map.1 hbatch
    have hattempts : e.attempts = before.attempts := by
      obtain ⟨before', leaseEnd, hfind', -, rfl⟩ := h.claimed e he
      cases hfind'.symm.trans hfind
      rfl
    rw [← List.take_append_drop results.length batch] at he
    rcases List.mem_append.1 he with htake | hdrop
    · rw [← map_fst_zip] at htake
      obtain ⟨⟨e, r⟩, ht, rfl⟩ := List.mem_map.1 htake
      rcases r with fault | ⟨⟩
      · obtain ⟨hafter, hcount, -⟩ := h.refused e fault ht
        have honce : (refusedIds batch results).count e.id = 1 :=
          List.count_eq_one_of_mem
            (hnodup.sublist ((refusedIds_sublist batch results).trans (List.take_sublist _ _)))
            (mem_refusedIds_iff.2 ⟨e, fault, ht, rfl⟩)
        exact ⟨_, hafter, by rw [hcount, hattempts, honce]⟩
      · have hnot := not_refused_of_accepted hnodup ht
        exact ⟨_, (h.accepted e ht).1, hsame hnot hattempts⟩
    · have hnot := not_refused_of_abandoned hnodup hdrop
      exact ⟨_, (h.abandoned e hdrop).1, hsame hnot hattempts⟩
  · have hother := h.others (Event.key id) fun e he heq =>
      hbatch (Outbox.Event.key_injective heq ▸ List.mem_map_of_mem he)
    have hnot : id ∉ refusedIds batch results := fun hin =>
      hbatch (List.mem_of_mem_take ((refusedIds_sublist batch results).subset hin))
    exact ⟨before, (Outbox.event?_of_get? hother.1).trans hfind, hsame hnot rfl⟩

/-! ## Brokers -/

variable [Broker β]

/-- A worker hears what the broker answers. -/
theorem World.publish_heard (limit : Duration) (m : Message) (w : World β δ) :
    (w.publish limit m).1 = (Broker.publish m w.broker).1.heard limit ∧
      (w.publish limit m).2.broker = (Broker.publish m w.broker).2 := by
  obtain ⟨nanos, hpublish⟩ := publish_cases limit m w
  rw [hpublish]
  exact ⟨rfl, (waits_elapse _ _).broker⟩

/-- Hand messages to a broker, one after the other: what is heard of each, and the broker after
that. -/
def handOver (limit : Duration) : List Message → β → List (Except PublishFault Unit) × β
  | [], broker => ([], broker)
  | m :: rest, broker =>
    let (reply, broker) := Broker.publish m broker
    let (later, broker) := handOver limit rest broker
    (reply.heard limit :: later, broker)

theorem sized_handOver (hwords : WellSpoken β) {limit : Duration} {messages : List Message}
    {broker : β} {fault : PublishFault} (h : .error fault ∈ (handOver limit messages broker).1) :
    Sized fault.message := by
  induction messages generalizing broker with
  | nil => cases h
  | cons m messages ih =>
    rcases List.mem_cons.1 h with hfirst | hlater
    · exact Reply.sized_heard (hwords m broker) hfirst.symm
    · exact ih hlater

/-- What is heard of a batch is what the broker answers to its first events. -/
theorem publishAll_hands (limit : Duration) (deadline : Nat) (batch : List Event) {p : Progress}
    (hnone : p.abandoned = 0) (w : World β δ) :
    ∃ results, Publishes batch results p (publishAll limit deadline batch p w).1 w
        (publishAll limit deadline batch p w).2 ∧
      handOver limit ((batch.take results.length).map messageOf) w.broker =
        (results, (publishAll limit deadline batch p w).2.broker) := by
  induction batch generalizing p w with
  | nil => exact ⟨[], .nothing (by rw [List.length_nil, ← hnone]; rfl), rfl⟩
  | cons e batch ih =>
    rw [publishAll]
    split
    · exact ⟨[], .nothing rfl, rfl⟩
    · obtain ⟨hresult, hbroker⟩ := w.publish_heard limit (messageOf e)
      obtain ⟨results, hrest, hheard⟩ := ih (p := p.note e.id (w.publish limit (messageOf e)).1)
        ((p.abandoned_note e.id _).trans hnone) (w.publish limit (messageOf e)).2
      refine ⟨_ :: results, hrest.cons (w.attempts_publish limit (messageOf e)), ?_⟩
      rw [hbroker] at hheard
      rw [List.length_cons, List.take_succ_cons, List.map_cons, handOver, hresult]
      dsimp only
      rw [hheard]

/-! ## Passes -/

/-- What a worker claims in a pass, and what is heard of it. -/
structure Account where
  batch : List Event
  results : List (Except PublishFault Unit)

variable {w₁ w₂ : World β δ} {worker : Worker} {b b' : Backoff} {p : Progress}
  {report : Report}

/-- A batch that a worker holds has been published as far as the deadline let it, and what was heard
has been recorded. -/
structure Finishes (worker : Worker) (deadline : Nat) (b : Backoff) (a : Account) (p : Progress)
    (w w' : World β δ) : Prop where
  publishes : Publishes a.batch a.results (.start b) p w w'
  heard : handOver worker.settings.publishTimeout ((a.batch.take a.results.length).map messageOf)
    w.broker = (a.results, w'.broker)
  settles : Settles w'.today (verdicts a.batch a.results) w.store w'.store
  sound : Sound w'.store
  ages : w.Ages w'
  cut : p.abandoned ≠ 0 → deadline ≤ w'.now

theorem Finishes.nothing (hs : Sound w.store) (halone : w.agenda = []) (worker : Worker)
    (deadline : Nat) (b : Backoff) : Finishes worker deadline b ⟨[], []⟩ (.start b) w w :=
  ⟨.nothing rfl, rfl, .nothing _ _, hs, World.ages_self halone, fun h => absurd rfl h⟩

theorem Finishes.of_record {deadline n : Nat} (hwords : WellSpoken β) (hs : Sound w.store)
    (halone : w.agenda = []) (hnodup : (batch.map (·.id)).Nodup)
    (hheld : ∀ e ∈ batch, e.HeldBy worker.id w.store)
    (hpublish : publishAll worker.settings.publishTimeout deadline batch (.start b) w = (p, w₂))
    (hrecord : w₂.storageCall worker.settings.storageTimeout
      (fun now => Outbox.complete now worker.id p.outcomes) = (.ok n, w')) :
    ∃ results, Finishes worker deadline b ⟨batch, results⟩ p w w' := by
  obtain ⟨results, hpublishes, hheard⟩ :=
    publishAll_hands worker.settings.publishTimeout deadline batch (p := .start b) rfl w
  obtain ⟨hages, hstore⟩ := publishAll_alone halone worker.settings.publishTimeout deadline batch
    (.start b)
  have hcut :=
    abandoned_publishAll (w := w) worker.settings.publishTimeout deadline batch (.start b)
  rw [hpublish] at hpublishes hheard hages hstore hcut
  have hwaits := World.Waits.of_storageCall hrecord
  obtain ⟨hcomplete, hages'⟩ := World.storageCall_ok hages.alone hrecord
  have hreasons : ∀ v ∈ verdicts batch results, ∀ reason, v.2 = .failed reason → Sized reason := by
    intro v hv reason hreason
    obtain ⟨⟨e, r⟩, ht, rfl⟩ := List.mem_map.1 hv
    rcases r with fault | ⟨⟩
    · cases hreason
      have hanswers := congrArg Prod.fst hheard
      have hmem := (List.of_mem_zip ht).2
      dsimp only at hanswers
      rw [← hanswers] at hmem
      exact sized_handOver hwords hmem
    · cases hreason
  have htried : ((verdicts batch results).map (·.1.id)).Nodup := by
    rw [verdicts, List.map_map]
    exact nodup_zip hnodup
  rw [hstore, hpublishes.outcomes] at hcomplete
  have hsound : Sound (Outbox.complete w'.today worker.id
      (Outbox.reported (verdicts batch results)) w.store).2 := by
    refine Outbox.complete_invariant (Outbox.keptByReports_sound fun o ho => ?_) hs
    obtain ⟨v, hv, rfl⟩ := List.mem_map.1 ho
    exact hreasons v hv
  rw [hcomplete] at hsound
  obtain ⟨-, hsettles⟩ := Outbox.complete_settles hs htried hreasons
    (fun v hv => hheld v.1 (List.mem_of_mem_take (mem_of_mem_verdicts hv))) hcomplete
  refine ⟨results, ⟨hpublishes.within, hpublishes.progress, ?_⟩, ?_, hsettles, hsound,
    hages.trans hages', fun hsome => ?_⟩
  · rw [hwaits.attempts]
    exact hpublishes.attempts
  · rw [hwaits.broker]
    exact hheard
  · have hpassed : deadline ≤ w₂.now := Nat.not_lt.1 fun hintime => hsome (hcut hintime)
    exact Nat.le_trans hpassed hages'.now

/-- The account of a pass that has been reported: what the storage gives out, and what the broker
answers when it is handed the first of these, as many as were sent or refused. -/
def Worker.account (worker : Worker) (w : World β δ) (report : Report) : Account :=
  let batch := (w.storageCall worker.settings.storageTimeout worker.claim).1.toOption.getD []
  let tried := (batch.take (report.sent + report.failed)).map messageOf
  ⟨batch, (handOver worker.settings.publishTimeout tried w.broker).1⟩

/-- What is promised of a pass that reports. -/
structure AddsUp (worker : Worker) (w w' : World β δ) (report : Report) (a : Account) : Prop where
  tally : Tally report a.batch a.results
  /-- The broker is handed the messages of the events that were sent or refused, which come first in
  the batch, each of them once and in order. It is handed nothing else. -/
  handed : w'.attempts.map (·.message) = w.attempts.map (·.message) ++
    (a.batch.take (report.sent + report.failed)).map messageOf
  broker : w'.broker = (handOver worker.settings.publishTimeout
    ((a.batch.take (report.sent + report.failed)).map messageOf) w.broker).2
  leaves : Leaves worker.id w'.today a.batch a.results w.store w'.store
  /-- Only what the lease did not last for is abandoned. -/
  cut : report.abandoned ≠ 0 → w.now + worker.settings.lease.nanos ≤ w'.now

/-- A pass of a worker that is alone adds up. -/
theorem Worker.adds_up (hwords : WellSpoken β) (hworker : Sized worker.id) (hs : Sound w.store)
    (halone : w.agenda = []) (h : worker.pass b w = (.ok report, b', w')) :
    AddsUp worker w w' report (worker.account w report) ∧ Sound w'.store ∧ w.Ages w' := by
  obtain ⟨batch, w₁, hcall, hrest⟩ := Worker.pass_ok h
  obtain ⟨hclaim, hages⟩ := World.storageCall_ok halone hcall
  rw [Worker.claim] at hclaim
  split at hclaim
  · cases hclaim
  obtain ⟨es, hes⟩ := hs.exists_list
  obtain ⟨hbatch, htakes⟩ := hs.claim_takes hes hworker (Int.le_refl _) hclaim
  have hascending := hes.ascending_firstFree w₁.today worker.settings.batchSize
  have hpending : ∀ e ∈ Outbox.firstFree w₁.today worker.settings.batchSize es,
      e.isPending = true := fun e he =>
    Outbox.Event.isPending_of_isClaimable (Outbox.mem_firstFree he).2
  have hsound : Sound (Outbox.claim w₁.today w₁.today worker.id worker.settings.batchSize
      worker.settings.lease w.store).2 :=
    Outbox.claim_invariant (Outbox.keptByStamps_sound hworker _) _ hs
  rw [hclaim] at hsound
  have hheld : ∀ e ∈ batch, e.HeldBy worker.id w₁.store := by
    rw [hbatch]
    refine List.forall_mem_map.2 fun e he => ⟨htakes.stored e he, hpending e he, rfl⟩
  have hnodup : (batch.map (·.id)).Nodup := by
    rw [hbatch, List.map_map]
    exact Outbox.nodup_of_ascending hascending
  obtain ⟨results, p, hfinishes, rfl⟩ : ∃ results p,
      Finishes worker (w.now + worker.settings.lease.nanos) b ⟨batch, results⟩ p w₁ w' ∧
        report = p.report batch.length := by
    obtain ⟨rfl, rfl, hreport⟩ | ⟨p, w₂, n, hpublish, hrecord, hreport⟩ := hrest
    · exact ⟨[], .start b, .nothing hsound hages.alone _ _ _, hreport⟩
    · obtain ⟨results, hfinishes⟩ :=
        Finishes.of_record hwords hsound hages.alone hnodup hheld hpublish hrecord
      exact ⟨results, p, hfinishes, hreport⟩
  have hwaits := World.Waits.of_storageCall hcall
  have htally := hfinishes.publishes.tally
  have hlength : results.length =
      (p.report batch.length).sent + (p.report batch.length).failed := by
    rw [htally.sent, htally.failed, List.length_eq_countP_add_countP (·.isOk)]
    simp only [Bool.not_eq_true, Bool.decide_eq_false]
  have hheard := hfinishes.heard
  rw [hwaits.broker, hlength] at hheard
  have haccount : worker.account w (p.report batch.length) = ⟨batch, results⟩ := by
    rw [Worker.account, hcall]
    exact congrArg (Account.mk batch) (congrArg Prod.fst hheard)
  rw [haccount]
  refine ⟨⟨htally, ?_, (congrArg Prod.snd hheard).symm, ?_, hfinishes.cut⟩, hfinishes.sound,
    hages.trans hfinishes.ages⟩
  · rw [hfinishes.publishes.attempts, hwaits.attempts, hlength]
  · have hsettles := hfinishes.settles
    dsimp only at hsettles ⊢
    rw [hbatch] at hsettles ⊢
    exact .of_settles hs hascending hpending htakes hsettles

theorem Worker.pass_of_report (h : (worker.pass b w).1 = .ok report) :
    worker.pass b w = (.ok report, (worker.pass b w).2.1, (worker.pass b w).2.2) := by
  rw [← h]

/-! ## Pass after pass -/

/-- Workers make some passes that report, one after the other, with any backoffs and any pauses
between them. -/
inductive Passes : World β δ → List Account → World β δ → Prop
  | rest (w : World β δ) : Passes w [] w
  | pass {worker : Worker} {b b' : Backoff} {w w₁ w' : World β δ} {report : Report}
      {accounts : List Account} (pause : Nat) : Sized worker.id →
      worker.pass b w = (.ok report, b', w₁) → Passes (w₁.elapse pause) accounts w' →
      Passes w (worker.account w report :: accounts) w'

/-- How often an event was refused in some passes. -/
def refusals (id : UInt64) (accounts : List Account) : Nat :=
  (accounts.flatMap fun a => refusedIds a.batch a.results).count id

/-- The attempts of an event are the times that it was refused. -/
theorem Passes.attempts {accounts : List Account} (h : Passes w accounts w')
    (hwords : WellSpoken β) (hs : Sound w.store) (halone : w.agenda = []) {id : UInt64}
    {before : Event} (hfind : event? id w.store = .ok (some before)) :
    ∃ after, event? id w'.store = .ok (some after) ∧
      after.attempts.toNat = min (before.attempts.toNat + refusals id accounts) (2 ^ 32 - 1) := by
  induction h generalizing before with
  | rest w =>
    have hbound : before.attempts.toNat < 2 ^ 32 := before.attempts.toNat_lt
    refine ⟨before, hfind, ?_⟩
    show _ = min (before.attempts.toNat + 0) _
    omega
  | @pass worker b b' w w₁ w' report accounts pause hworker hpass _ ih =>
    obtain ⟨hadds, hsound, hages⟩ := Worker.adds_up hwords hworker hs halone hpass
    obtain ⟨middle, hmiddle, hcount⟩ := hadds.leaves.attempts hfind
    obtain ⟨hlater, hstore⟩ := World.elapse_alone hages.alone pause
    rw [← hstore] at hsound hmiddle
    obtain ⟨after, hafter, hall⟩ := ih hsound hlater.alone hmiddle
    refine ⟨after, hafter, ?_⟩
    rw [hall, hcount, refusals, refusals, List.flatMap_cons, List.count_append]
    omega

/-! ## The guarantee -/

open Ledger (Action Books)

/-- The accounts of a relay alone on a store that calls and workers have left behind add up,
whatever the broker answers and whenever the lease runs out: those of every pass that reports, and
the attempts of every event after any number of them. -/
theorem passes_add_up (hwords : WellSpoken β) {actions : List Action}
    (htexts : ∀ a ∈ actions, a.Texts) (hstore : w.store = (Books.opened.run actions).store)
    (halone : w.agenda = []) :
    (∀ (worker : Worker) (b b' : Backoff) (report : Report) (w' : World β δ), Sized worker.id →
      worker.pass b w = (.ok report, b', w') →
      AddsUp worker w w' report (worker.account w report)) ∧
    ∀ (accounts : List Account) (w' : World β δ), Passes w accounts w' →
      ∀ id before, event? id w.store = .ok (some before) →
      ∃ after, event? id w'.store = .ok (some after) ∧ after.attempts.toNat =
        min (before.attempts.toNat + refusals id accounts) (2 ^ 32 - 1) := by
  have hs : Sound w.store := hstore ▸ Books.sound_run htexts
  constructor
  · intro worker b b' report w' hworker hpass
    exact (Worker.adds_up hwords hworker hs halone hpass).1
  · intro accounts w' hpasses id before hfind
    exact hpasses.attempts hwords hs halone hfind

/-! ### Two events, one of them refused once -/

/-- The first pass has been made. -/
def triedBoth : World Outage Unit :=
  (Worker.standard.pass Worker.standard.backoff downOnce).2.2.elapse 0

-- One statement, so that the two moves are worked out only once.
/-- What is reported of the first two passes, and how often the first event was refused. -/
theorem seen_triedBoth :
    (Worker.standard.pass Worker.standard.backoff downOnce).1 = .ok ⟨2, 1, 1, 0, some (.ofSecs 1)⟩ ∧
    (Worker.standard.pass Worker.standard.backoff triedBoth).1 = .ok ⟨1, 1, 0, 0, none⟩ ∧
    refusals 0 [Worker.standard.account downOnce ⟨2, 1, 1, 0, some (.ofSecs 1)⟩,
      Worker.standard.account triedBoth ⟨1, 1, 0, 0, none⟩] = 1 ∧
    (event? 0 downOnce.store).map (·.map (·.attempts)) = .ok (some 0) := by
  decide +kernel

theorem passes_add_up_downOnce : ∃ report w₁ accounts w₂ after,
    AddsUp .standard downOnce w₁ report (Worker.standard.account downOnce report) ∧
    report.sent = 1 ∧ report.failed = 1 ∧ Passes downOnce accounts w₂ ∧ accounts.length = 2 ∧
    event? 0 w₂.store = .ok (some after) ∧ after.attempts = 1 := by
  obtain ⟨hfirst, hsecond, hrefusals, hfresh⟩ := seen_triedBoth
  have hsized : Sized Worker.standard.id := by
    simp only [Sized]
    decide
  obtain ⟨hadds, hattempts⟩ := passes_add_up (w := downOnce) wellSpoken_outage texts_twoOwed
    store_downOnce agenda_downOnce
  have hpass₁ := Worker.pass_of_report hfirst
  have hpass₂ := Worker.pass_of_report hsecond
  have hlater : Passes triedBoth [Worker.standard.account triedBoth ⟨1, 1, 0, 0, none⟩]
      ((Worker.standard.pass Worker.standard.backoff triedBoth).2.2.elapse 0) :=
    .pass 0 hsized hpass₂ (.rest _)
  have hpasses := Passes.pass 0 hsized hpass₁ hlater
  obtain ⟨before, hfind, hnone⟩ : ∃ before, event? 0 downOnce.store = .ok (some before) ∧
      before.attempts = 0 := by
    generalize event? 0 downOnce.store = found at hfresh ⊢
    rcases found with fault | _ | before
    · cases hfresh
    · cases hfresh
    · exact ⟨before, rfl, Option.some.inj (Except.ok.inj hfresh)⟩
  obtain ⟨after, hafter, hcount⟩ := hattempts _ _ hpasses 0 before hfind
  rw [hrefusals, hnone] at hcount
  refine ⟨_, _, _, _, after, hadds _ _ _ _ _ hsized hpass₁, rfl, rfl, hpasses, rfl, hafter, ?_⟩
  exact UInt32.toNat_inj.1 hcount

end Stockroom.Relay
