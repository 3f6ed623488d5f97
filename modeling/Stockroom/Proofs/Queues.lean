import Stockroom.Proofs.Attempts

/-!
# The queue of pending events

The pending events stand in a queue in the order of their numbers. If all of them are free and
nobody else is at work, a claim takes the first ones, as many as it asks for. A record then takes
those that were sent out of the queue; those that failed keep their places and are free again.

Results:
1. `Queues.claim`: what a claim takes from a queue of free events.
2. `Queues.complete`: what a record leaves of it.
-/
namespace Stockroom.Outbox

open Store (find?)
open Store.Transaction

variable {s s' : Store} {now leaseEnd : Date} {worker : String} {queue ids : List UInt64}

/-- The tables are in step, and these are the numbers of the pending events in order. -/
structure Queues (s : Store) (queue : List UInt64) : Prop where
  sound : Sound s
  keys : s.pending.keys = queue.map Event.key

namespace Queues

theorem nodup (h : Queues s queue) : queue.Nodup := by
  refine List.Nodup.of_map Event.key ?_
  rw [← h.keys]
  exact s.pending.nodup_keys

theorem mem_iff (h : Queues s queue) {id : UInt64} :
    id ∈ queue ↔ Has s id (·.isPending = true) := by
  rw [← List.mem_map_of_injective fun _ _ => Event.key_injective, ← h.keys,
    ← Table.isSome_get?_iff]
  exact h.sound.index _

theorem of_list {es : List Event} (h : Sound s) (hes : Lists s es) :
    Queues s ((es.filter Event.isPending).map (·.id)) := by
  refine ⟨h, ?_⟩
  rw [h.keys_eq hes, List.map_map]
  rfl

/-- There is only one queue. -/
theorem unique (h : Queues s queue) (h' : Queues s ids) : queue = ids :=
  List.map_injective_iff.2 (fun _ _ => Event.key_injective) (h.keys.symm.trans h'.keys)

/-- A look at a queue of free events finds the first ones. -/
theorem scan (h : Queues s queue) (hfree : ∀ id ∈ queue, Has s id (·.isClaimable now = true))
    (limit : Nat) : scan now limit s = .ok (queue.take limit) := by
  obtain ⟨es, hes⟩ := h.sound.exists_list
  obtain rfl := h.unique (of_list h.sound hes)
  have hall : es.filter (Event.isClaimable now) = es.filter Event.isPending := by
    rw [← filter_claimable]
    refine List.filter_eq_self.2 fun e he => ?_
    exact (hfree e.id (List.mem_map_of_mem he)).found (hes.found e (List.mem_of_mem_filter he))
  rw [h.sound.scan_eq hes, hall, List.map_take]

end Queues

/-! ## Claims -/

/-- A free event is stamped. -/
theorem stampOne_free {id : UInt64} {stamped : Option Event} (hs : Sound s)
    (hfree : Has s id (·.isClaimable now = true))
    (h : stampOne now worker leaseEnd id s = .ok (stamped, s')) :
    ∃ (e : Event) (row : Bytes), e.id = id ∧ find? s.events (Event.key id) = .ok (some e) ∧
      e.isClaimable now = true ∧ stamped = some (e.claim worker leaseEnd) ∧
      Stored.encode (e.claim worker leaseEnd) = some row ∧
      s' = s.update .events (·.insert (Event.key e.id) row) := by
  obtain ⟨e, hfind, hclaimable⟩ := hfree
  have hread : Store.Transaction.find? .events (Event.key id) s = .ok (some e, s) :=
    find?_ok.2 ⟨rfl, hfind⟩
  rw [stampOne, bind_of_ok hread] at h
  dsimp only at h
  rw [if_pos hclaimable] at h
  obtain ⟨_, s₁, hput, hpure⟩ := bind_ok.1 h
  obtain ⟨row, hrow, rfl⟩ := putEvent_ok hput
  obtain ⟨rfl, rfl⟩ := pure_ok.1 hpure
  exact ⟨e, row, (Event.key_injective (hs.found hfind).1).symm, hfind, hclaimable, rfl, hrow, rfl⟩

/-- Free events are all stamped, each once. -/
theorem stampEach_free {stamped : List (Option Event)} (hs : Sound s) (hworker : Sized worker)
    (hids : ids.Nodup) (hfree : ∀ id ∈ ids, Has s id (·.isClaimable now = true))
    (h : ids.mapM (stampOne now worker leaseEnd) s = .ok (stamped, s')) :
    (stamped.filterMap id).map (·.id) = ids := by
  induction ids generalizing s stamped with
  | nil =>
    obtain ⟨rfl, -⟩ := pure_ok.1 h
    rfl
  | cons first ids ih =>
    obtain ⟨hfirst, hlater⟩ := List.nodup_cons.1 hids
    obtain ⟨hthis, hothers⟩ := List.forall_mem_cons.1 hfree
    rw [List.mapM_cons] at h
    obtain ⟨found, s₁, hone, h⟩ := bind_ok.1 h
    obtain ⟨later, s₂, hrest, hpure⟩ := bind_ok.1 h
    obtain ⟨rfl, rfl⟩ := pure_ok.1 hpure
    obtain ⟨e, row, rfl, hfind, hclaimable, rfl, hrow, rfl⟩ := stampOne_free hs hthis hone
    have hput : ∀ id, event? id (s.update .events (·.insert (Event.key e.id) row)) =
        if e.id = id then .ok (some (e.claim worker leaseEnd)) else event? id s :=
      event?_put ((hs.found hfind).2.1.claim hworker leaseEnd) hrow rfl
    refine congrArg (e.id :: ·)
      (ih (hs.stamped hworker hfind hclaimable hrow) hlater (fun id hid => ?_) hrest)
    refine (hothers id hid).of_eq ((hput id).trans (if_neg fun heq => hfirst ?_))
    have heq : e.id = id := heq
    exact heq ▸ hid

theorem stamp_free {lease : Duration} {events : List Event} (hs : Sound s) (hworker : Sized worker)
    (hids : ids.Nodup) (hfree : ∀ id ∈ ids, Has s id (·.isClaimable now = true))
    (h : stamp now worker lease ids s = (.ok events, s')) : events.map (·.id) = ids := by
  rw [stamp] at h
  split at h
  · next hnone =>
    cases h
    exact (List.isEmpty_iff.1 hnone).symm
  · obtain ⟨stamped, s₁, hall, hpure⟩ := bind_ok.1 (Store.atomically_ok.1 h)
    obtain ⟨rfl, rfl⟩ := pure_ok.1 hpure
    exact stampEach_free hs hworker hids hfree hall

/-- A worker holds pending events. -/
def Holds (s : Store) (worker : String) (ids : List UInt64) : Prop :=
  ∀ id ∈ ids, Has s id fun e => e.isPending = true ∧ e.claimedBy = some worker

/-- A claim takes the first events of a queue in which all are free. The queue stays as it is, and
so do the events further back. -/
theorem Queues.claim {lease : Duration} {limit : Nat} {events : List Event} (h : Queues s queue)
    (hworker : Sized worker) (hfree : ∀ id ∈ queue, Has s id (·.isClaimable now = true))
    (hclaim : Outbox.claim now now worker limit lease s = (.ok events, s')) :
    events.map (·.id) = queue.take limit ∧ Queues s' queue ∧ Holds s' worker (queue.take limit) ∧
      ∀ id ∈ queue.drop limit, event? id s' = event? id s := by
  have hqueue : Queues s' queue := by
    have hkept : KeptByStamps (fun s₁ => Sound s₁ ∧ s₁.pending = s.pending) now worker
        (now.after lease) := fun _ _ _ _ h₁ hfind hclaimable hrow =>
      ⟨h₁.1.stamped hworker hfind hclaimable hrow, h₁.2⟩
    have hclaimed : Sound (Outbox.claim now now worker limit lease s).2 ∧
        (Outbox.claim now now worker limit lease s).2.pending = s.pending :=
      claim_invariant hkept limit ⟨h.sound, rfl⟩
    rw [hclaim] at hclaimed
    exact ⟨hclaimed.1, hclaimed.2 ▸ h.keys⟩
  rw [Outbox.claim, h.scan hfree] at hclaim
  dsimp only at hclaim
  have hids := stamp_free h.sound hworker (h.nodup.sublist (List.take_sublist _ _))
    (fun id hid => hfree id (List.mem_of_mem_take hid)) hclaim
  have hassigns : Assigns worker (now.after lease) s (stamp now worker lease (queue.take limit) s).2
      (((stamp now worker lease (queue.take limit) s).1.toOption.getD []).map (·.id)) :=
    stamp_assigns h.sound hworker _
  rw [hclaim] at hassigns
  simp only [Except.toOption, Option.getD_some, hids] at hassigns
  refine ⟨hids, hqueue, fun id hid => ?_, fun id hid => ?_⟩
  · obtain ⟨e, hfind, hpending⟩ := hqueue.mem_iff.1 (List.mem_of_mem_take hid)
    rcases hassigns id e hfind with ⟨-, before, -, rfl⟩ | ⟨hout, -⟩
    · exact ⟨_, hfind, hpending, rfl⟩
    · exact absurd hid hout
  · obtain ⟨e, hfind, -⟩ := hqueue.mem_iff.1 (List.mem_of_mem_drop hid)
    rcases hassigns id e hfind with ⟨hin, -⟩ | ⟨-, hbefore⟩
    · exact absurd hid (List.disjoint_take_drop h.nodup (Nat.le_refl _) hin)
    · rw [hfind, hbefore]

/-! ## Records -/

/-- What a worker says of an event that it holds is recorded. The event is free then, and out of the
queue if it was sent. -/
theorem recordOne_held {id : UInt64} {outcome : Outcome} {changed : Bool} (hs : Sound s)
    (hreason : ∀ reason, outcome = .failed reason → Sized reason)
    (hheld : Has s id fun e => e.isPending = true ∧ e.claimedBy = some worker)
    (h : recordOne now worker id outcome s = .ok (changed, s')) :
    Sound s' ∧ s'.pending = (settle id outcome s).pending ∧
      Has s' id (·.leaseEnd = none) ∧ ∀ other ≠ id, event? other s' = event? other s := by
  obtain ⟨e, hfind, hpending, hholder⟩ := hheld
  obtain ⟨after, hreport⟩ : ∃ after, Event.report now worker e outcome = some after := by
    cases outcome with
    | sent => exact ⟨_, if_pos hpending⟩
    | failed reason => exact ⟨_, if_pos ⟨hpending, hholder⟩⟩
  rw [recordOne_of_report hfind hreport] at h
  obtain ⟨_, s₁, hput, hpure⟩ := bind_ok.1 h
  obtain ⟨row, hrow, rfl⟩ := putEvent_ok hput
  obtain ⟨-, rfl⟩ := pure_ok.1 hpure
  obtain ⟨hkey, hlasting, -⟩ := hs.found hfind
  have hid : after.id = id := (report_notice hreport).1.trans (Event.key_injective hkey).symm
  have hput := event?_report (hlasting.report hreason hreport) hrow id outcome s
  refine ⟨hs.reported hreason hfind hreport hrow, rfl, ⟨after, ?_, ?_⟩, fun other hother => ?_⟩
  · exact (hput id).trans (if_pos hid)
  · obtain ⟨-, ⟨-, rfl⟩ | ⟨_, -, -, rfl⟩⟩ := report_cases hreport
    · rfl
    · rfl
  · exact (hput other).trans (if_neg fun heq => hother (heq.symm.trans hid))

theorem keys_settle_sent (s : Store) {id : UInt64} {before after : List UInt64}
    (hkeys : s.pending.keys = (before ++ id :: after).map Event.key)
    (hnodup : (before ++ id :: after).Nodup) :
    (settle id .sent s).pending.keys = (before ++ after).map Event.key := by
  have hother : ∀ other ∈ before ++ after, Event.key other ≠ Event.key id := by
    rintro other hmem heq
    obtain rfl := Event.key_injective heq
    exact (List.nodup_middle.1 hnodup).notMem hmem
  show (s.pending.erase (Event.key id)).keys = _
  rw [Table.keys_erase, hkeys, List.map_append, List.map_cons, List.filter_append,
    List.filter_cons_of_neg (by simp), ← List.filter_append, ← List.map_append]
  refine List.filter_eq_self.2 (List.forall_mem_map.2 fun other hmem => ?_)
  simpa using hother other hmem

/-- Those that failed, of some outcomes. -/
def failedIds (outcomes : List (UInt64 × Outcome)) : List UInt64 :=
  (outcomes.filter (·.2 ≠ .sent)).map (·.1)

theorem failedIds_cons_sent (id : UInt64) (outcomes : List (UInt64 × Outcome)) :
    failedIds ((id, .sent) :: outcomes) = failedIds outcomes :=
  rfl

theorem failedIds_cons_failed (id : UInt64) (reason : String)
    (outcomes : List (UInt64 × Outcome)) :
    failedIds ((id, .failed reason) :: outcomes) = id :: failedIds outcomes :=
  rfl

/-- Outcomes of events that a worker holds and that stand one after the other in the queue are all
recorded. Those that failed stay where they are. -/
theorem recordAll_held {outcomes : List (UInt64 × Outcome)} {n : Nat} {kept rest : List UInt64}
    (h : Queues s (kept ++ (outcomes.map (·.1) ++ rest)))
    (hreasons : ∀ o ∈ outcomes, ∀ reason, o.2 = .failed reason → Sized reason)
    (hheld : Holds s worker (outcomes.map (·.1)))
    (hall : recordAll now worker outcomes s = .ok (n, s')) :
    Queues s' (kept ++ (failedIds outcomes ++ rest)) ∧
      (∀ id ∈ outcomes.map (·.1), Has s' id (·.leaseEnd = none)) ∧
      ∀ id ∉ outcomes.map (·.1), event? id s' = event? id s := by
  induction outcomes generalizing s n kept with
  | nil =>
    obtain ⟨-, rfl⟩ := pure_ok.1 hall
    exact ⟨h, nofun, fun _ _ => rfl⟩
  | cons first outcomes ih =>
    obtain ⟨id, outcome⟩ := first
    obtain ⟨hreason, hreasons⟩ := List.forall_mem_cons.1 hreasons
    obtain ⟨hthis, hothers⟩ := List.forall_mem_cons.1 hheld
    have hnodup : (kept ++ id :: (outcomes.map (·.1) ++ rest)).Nodup := h.nodup
    have hnew : id ∉ outcomes.map (·.1) := fun hmem =>
      (List.nodup_middle.1 hnodup).notMem
        (List.mem_append_right _ (List.mem_append_left _ hmem))
    obtain ⟨changed, later, s₁, hone, hrest, -⟩ := recordAll_cons_ok.1 hall
    obtain ⟨hs₁, hpending, hfree, hsame⟩ := recordOne_held h.sound hreason hthis hone
    have hheld₁ : Holds s₁ worker (outcomes.map (·.1)) := fun other hmem =>
      (hothers other hmem).of_eq (hsame other (ne_of_mem_of_not_mem hmem hnew))
    obtain ⟨kept', hqueue, hkept'⟩ : ∃ kept', Queues s₁ (kept' ++ (outcomes.map (·.1) ++ rest)) ∧
        kept' ++ (failedIds outcomes ++ rest) =
          kept ++ (failedIds ((id, outcome) :: outcomes) ++ rest) := by
      cases outcome with
      | sent =>
        refine ⟨kept, ⟨hs₁, ?_⟩, by rw [failedIds_cons_sent]⟩
        rw [hpending]
        exact keys_settle_sent s h.keys hnodup
      | failed reason =>
        refine ⟨kept ++ [id], ⟨hs₁, ?_⟩, ?_⟩
        · rw [hpending, List.append_assoc]
          exact h.keys
        · rw [failedIds_cons_failed, List.append_assoc]
          rfl
    obtain ⟨hnext, hreleased, hkept⟩ := ih hqueue hreasons hheld₁ hrest
    refine ⟨hkept' ▸ hnext, List.forall_mem_cons.2 ⟨hfree.of_eq (hkept id hnew), hreleased⟩, ?_⟩
    intro other hother
    obtain ⟨hne, hother⟩ := not_or.1 (mt List.mem_cons.2 hother)
    exact (hkept other hother).trans (hsame other hne)

/-- A record of outcomes for the first events of a queue takes those that were sent out of it. Those
that failed are free again, and the others are as they were. -/
theorem Queues.complete {outcomes : List (UInt64 × Outcome)} {n : Nat} {rest : List UInt64}
    (h : Queues s (outcomes.map (·.1) ++ rest))
    (hreasons : ∀ o ∈ outcomes, ∀ reason, o.2 = .failed reason → Sized reason)
    (hheld : Holds s worker (outcomes.map (·.1)))
    (hcomplete : Outbox.complete now worker outcomes s = (.ok n, s')) :
    Queues s' (failedIds outcomes ++ rest) ∧
      (∀ id ∈ outcomes.map (·.1), Has s' id (·.leaseEnd = none)) ∧
      ∀ id ∉ outcomes.map (·.1), event? id s' = event? id s := by
  have hqueue : Queues s ([] ++ (outcomes.map (·.1) ++ rest)) := h
  exact recordAll_held hqueue hreasons hheld (Store.atomically_ok.1 hcomplete)

end Stockroom.Outbox
