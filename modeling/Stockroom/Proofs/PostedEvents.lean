import Stockroom.Proofs.OutboxRows
import Stockroom.Proofs.OwedNotices

/-!
# Events of committed moves

While calls and workers run in any order, a draft that waits holds the number of an event that does
not exist yet. Every commitment makes one event, under a number that no other draft ever had, so
an event is never written over by another one, and it can be followed from its commitment on.

Results:
1. `Has.put`: what is known of one event is kept when another one is written, or when the new state
   of the event is of the same kind.
2. `Notices.stamped`, `Notices.reported` and `Notices.posting`: whatever is done to events, they
   stay those of the committed moves.
3. `Books.linked_run`: so they are after any run in which the numbers fit.
4. `Books.Linked.has_act`: only the stamp of an event and a recorded report change what is known of
   it.
-/
namespace Stockroom

namespace Outbox

open Store (find?)

variable {s s' : Store} {now : Date} {worker : String} {id : UInt64} {F : Event → Prop}

/-- There is an event under the number, and it is of a kind. -/
def Has (s : Store) (id : UInt64) (F : Event → Prop) : Prop :=
  ∃ e, event? id s = .ok (some e) ∧ F e

theorem Has.of_eq (h : Has s id F) (heq : event? id s' = event? id s) : Has s' id F := by
  obtain ⟨e, hfind, hF⟩ := h
  exact ⟨e, heq.trans hfind, hF⟩

theorem Has.of_events (h : Has s id F) (hevents : s'.events = s.events) : Has s' id F := by
  refine h.of_eq ?_
  rw [event?, event?, eventAt, eventAt, hevents]

theorem Has.found (h : Has s id F) {e : Event}
    (hfind : find? s.events (Event.key id) = .ok (some e)) : F e := by
  obtain ⟨e', hfind', hF⟩ := h
  cases hfind'.symm.trans hfind
  exact hF

instance [DecidablePred F] : Decidable (Has s id F) :=
  match hfind : event? id s with
  | .ok (some e) => decidable_of_iff (F e) ⟨fun hF => ⟨e, hfind, hF⟩, fun h => h.found hfind⟩
  | .ok none => .isFalse fun ⟨_, h, _⟩ => by cases hfind.symm.trans h
  | .error _ => .isFalse fun ⟨_, h, _⟩ => by cases hfind.symm.trans h

theorem Has.and {G : Event → Prop} (hF : Has s id F) (hG : Has s id G) :
    ∃ e, event? id s = .ok (some e) ∧ F e ∧ G e := by
  obtain ⟨e, hfind, hFe⟩ := hF
  exact ⟨e, hfind, hFe, hG.found hfind⟩

/-- Under the number of an event that is put there is the event, under others what was there. -/
theorem event?_put {e : Event} {row : Bytes} (hlasting : e.Lasting) (hrow : Stored.encode e = some row)
    (hevents : s'.events = s.events.insert (Event.key e.id) row) (id : UInt64) :
    event? id s' = if e.id = id then .ok (some e) else event? id s := by
  rw [event?, eventAt, hevents, Store.find?_insert ((Event.reads_back hlasting).decode hrow)]
  exact if_congr ⟨Event.key_injective, congrArg Event.key⟩ rfl rfl

/-- The same of an event that a report is put into. -/
theorem event?_report {e : Event} {row : Bytes} (hlasting : e.Lasting)
    (hrow : Stored.encode e = some row) (other : UInt64) (outcome : Outcome) (s : Store)
    (id : UInt64) :
    event? id ((settle other outcome s).update .events (·.insert (Event.key e.id) row)) =
      if e.id = id then .ok (some e) else event? id s :=
  event?_put hlasting hrow (congrArg (·.insert (Event.key e.id) row) (settle_events other outcome s))
    id

theorem has_made {e : Event} {row : Bytes} (hlasting : e.Lasting) (hrow : Stored.encode e = some row)
    (hF : F e) (hevents : s'.events = s.events.insert (Event.key e.id) row) : Has s' e.id F :=
  ⟨e, (event?_put hlasting hrow hevents e.id).trans (if_pos rfl), hF⟩

/-- What is known of one event is kept when another one is written, or when the new state of the
event is of the same kind. -/
theorem Has.put (h : Has s id F) {e : Event} {row : Bytes} (hlasting : e.Lasting)
    (hrow : Stored.encode e = some row) (hF : e.id = id → F e)
    (hevents : s'.events = s.events.insert (Event.key e.id) row) : Has s' id F := by
  by_cases heq : e.id = id
  · rw [← heq]
    exact has_made hlasting hrow (hF heq) hevents
  · exact h.of_eq ((event?_put hlasting hrow hevents id).trans (if_neg heq))

theorem Has.stamped (h : Has s id F) (hs : Sound s) {other : UInt64} {e : Event}
    {leaseEnd : Date} {row : Bytes} (hworker : Sized worker)
    (hfind : find? s.events (Event.key other) = .ok (some e))
    (hrow : Stored.encode (e.claim worker leaseEnd) = some row)
    (hF : e.id = id → F e → F (e.claim worker leaseEnd)) :
    Has (s.update .events (·.insert (Event.key e.id) row)) id F := by
  obtain ⟨hkey, hlasting, -⟩ := hs.found hfind
  refine h.put (hlasting.claim hworker _) hrow (fun hid => hF hid (h.found ?_)) rfl
  rw [hkey] at hfind
  exact hid ▸ hfind

theorem Has.reported (h : Has s id F) (hs : Sound s) {other : UInt64} {e after : Event}
    {outcome : Outcome} {row : Bytes} (hreason : ∀ reason, outcome = .failed reason → Sized reason)
    (hfind : find? s.events (Event.key other) = .ok (some e))
    (hreport : Event.report now worker e outcome = some after)
    (hrow : Stored.encode after = some row) (hF : e.id = id → F e → F after) :
    Has ((settle other outcome s).update .events (·.insert (Event.key after.id) row)) id F := by
  obtain ⟨hkey, hlasting, -⟩ := hs.found hfind
  have hid := (report_notice hreport).1
  refine h.put (hlasting.report hreason hreport) hrow (fun heq => ?_) ?_
  · rw [hid] at heq
    refine hF heq (h.found ?_)
    rw [hkey] at hfind
    exact heq ▸ hfind
  · show (settle other outcome s).events.insert _ row = _
    rw [settle_events]

end Outbox

namespace Ledger

open Outbox (Event Has Sound event? eventAt)
open Store (find?)

variable {s s' : Store} {posted : List Posting} {d : Draft} {now : Date} {worker : String}

/-! ## Events and committed moves -/

/-- The events are the notices of the committed moves. -/
structure Notices (s : Store) (posted : List Posting) : Prop where
  sound : Sound s
  kept : ∀ p ∈ posted, Has s p.draft.event (Tells · p)
  owned : ∀ key, (s.events.get? key).isSome → ∃ p ∈ posted, Event.key p.draft.event = key

theorem Notices.of_tables (h : Notices s posted) (hevents : s'.events = s.events)
    (hpending : s'.pending = s.pending) : Notices s' posted := by
  refine ⟨h.sound.of_tables hevents hpending, fun p hp => (h.kept p hp).of_events hevents, ?_⟩
  rw [hevents]
  exact h.owned

theorem Notices.tells (h : Notices s posted) {key : Bytes} {e : Event}
    (hfind : find? s.events key = .ok (some e)) : ∃ p ∈ posted, Tells e p := by
  obtain ⟨row, hget, -⟩ := Store.find?_eq_ok_some.1 hfind
  obtain ⟨p, hp, rfl⟩ := h.owned key (by rw [hget]; rfl)
  exact ⟨p, hp, (h.kept p hp).found hfind⟩

theorem Notices.owned_insert (h : Notices s posted) {key row old : Bytes}
    (hget : s.events.get? key = some old) (k : Bytes)
    (hsome : ((s.events.insert key row).get? k).isSome) :
    ∃ p ∈ posted, Event.key p.draft.event = k := by
  rw [Table.get?_insert] at hsome
  split at hsome
  · next heq => exact h.owned k (by rw [← heq, hget]; rfl)
  · exact h.owned k hsome

theorem Notices.stamped (h : Notices s posted) {id : UInt64} {e : Event} {leaseEnd : Date}
    {row : Bytes} (hworker : Sized worker) (hfind : find? s.events (Event.key id) = .ok (some e))
    (hfree : e.isClaimable now = true) (hrow : Stored.encode (e.claim worker leaseEnd) = some row) :
    Notices (s.update .events (·.insert (Event.key e.id) row)) posted := by
  obtain ⟨hkey, -⟩ := h.sound.found hfind
  obtain ⟨old, hget, -⟩ := Store.find?_eq_ok_some.1 hfind
  rw [hkey] at hget
  refine ⟨h.sound.stamped hworker hfind hfree hrow, fun p hp => ?_, h.owned_insert hget⟩
  refine (h.kept p hp).stamped h.sound hworker hfind hrow fun _ htells => ?_
  exact ⟨htells.id, htells.topic, htells.payload, htells.lasting.claim hworker _⟩

theorem Notices.reported (h : Notices s posted) {id : UInt64} {e after : Event}
    {outcome : Outbox.Outcome} {row : Bytes}
    (hreason : ∀ reason, outcome = .failed reason → Sized reason)
    (hfind : find? s.events (Event.key id) = .ok (some e))
    (hreport : Event.report now worker e outcome = some after)
    (hrow : Stored.encode after = some row) :
    Notices ((Outbox.settle id outcome s).update .events (·.insert (Event.key after.id) row))
      posted := by
  obtain ⟨hid, htopic, hpayload⟩ := Outbox.report_notice hreport
  obtain ⟨hkey, -⟩ := h.sound.found hfind
  obtain ⟨old, hget, -⟩ := Store.find?_eq_ok_some.1 hfind
  rw [hkey, ← hid] at hget
  refine ⟨h.sound.reported hreason hfind hreport hrow, fun p hp => ?_, ?_⟩
  · refine (h.kept p hp).reported h.sound hreason hfind hreport hrow fun _ htells => ?_
    exact ⟨hid.trans htells.id, htopic.trans htells.topic, hpayload.trans htells.payload,
      htells.lasting.report hreason hreport⟩
  · show ∀ key, (((Outbox.settle id outcome s).events.insert _ row).get? key).isSome → _
    rw [Outbox.settle_events]
    exact h.owned_insert hget

theorem keptByStamps_notices (hworker : Sized worker) (leaseEnd : Date) :
    Outbox.KeptByStamps (Notices · posted) now worker leaseEnd :=
  fun _ _ _ _ hs hfind hfree hrow => hs.stamped hworker hfind hfree hrow

theorem keptByReports_notices {outcomes : List (UInt64 × Outbox.Outcome)}
    (hreasons : ∀ o ∈ outcomes, ∀ reason, o.2 = .failed reason → Sized reason) :
    Outbox.KeptByReports (Notices · posted) now worker outcomes :=
  fun _ _ _ _ _ _ hmem hs hfind hreport hrow => hs.reported (hreasons _ hmem) hfind hreport hrow

theorem Draft.Writes.has_fresh (h : d.Writes now s s') :
    Has s' d.event (· = Event.fresh d.event MoveNotice.topic d.payload now) := by
  obtain ⟨row, hrow, hevents⟩ := h.events
  exact Outbox.has_made (F := (· = _)) (d.lasting_event now) hrow rfl hevents

/-- A committed move makes its event, under a number of its own. -/
theorem Notices.posting (h : Notices s posted) (hwrites : d.Writes now s s')
    (hnew : ∀ p ∈ posted, p.draft.event ≠ d.event) : Notices s' (posted ++ [⟨d, now⟩]) := by
  obtain ⟨row, hrow, hevents⟩ := hwrites.events
  refine ⟨hwrites.sound h.sound, ?_, fun key hsome => ?_⟩
  · refine List.forall_mem_append.2 ⟨fun p hp => ?_, List.forall_mem_singleton.2 ?_⟩
    · exact (h.kept p hp).put (d.lasting_event now) hrow (fun heq => absurd heq.symm (hnew p hp))
        hevents
    · obtain ⟨e, hfind, rfl⟩ := hwrites.has_fresh
      exact ⟨_, hfind, tells_fresh d now⟩
  · rw [hevents, Table.get?_insert] at hsome
    split at hsome
    · next heq => exact ⟨⟨d, now⟩, List.mem_append_right _ (List.mem_singleton_self _), heq⟩
    · obtain ⟨p, hp, hkey⟩ := h.owned key hsome
      exact ⟨p, List.mem_append_left _ hp, hkey⟩

/-! ## Runs -/

namespace Books

/-- Every draft has an event number of its own, and the events are those of the committed moves. -/
structure Linked (b : Books) : Prop where
  ordered : b.store.counter.Ordered
  distinct : (b.admitted.map (·.event)).Nodup
  gave : ∀ d ∈ b.admitted, b.store.counter.Gave d.event
  notices : Notices b.store b.posted

theorem linked_opened : opened.Linked :=
  ⟨Counter.ordered_start, .nil, nofun, Outbox.sound_empty, nofun, nofun⟩

theorem gave_act {b : Books} (h : b.store.counter.Ordered) (a : Action) {n : UInt64}
    (hgave : b.store.counter.Gave n) : (b.act a).store.counter.Gave n := by
  rcases act_counter b a with heq | heq | heq
  · rw [heq]
    exact hgave
  · rw [heq]
    exact (hgave.take h).take (Counter.ordered_take _)
  · rw [heq]
    exact hgave.reopen

/-- Numbers of one kind that drafts take when they are prepared are taken once, and stay given
out. -/
theorem numbers_act {b : Books} {number : Draft → UInt64} (hordered : b.store.counter.Ordered)
    (hdistinct : (b.admitted.map number).Nodup)
    (hgave : ∀ d ∈ b.admitted, b.store.counter.Gave (number d))
    (htaken : ∀ d : Draft, d.PreparedFrom b.store → (twoTaken b.store).counter.Fits →
      b.store.counter.next ≤ (number d).toNat ∧ (twoTaken b.store).counter.Gave (number d))
    {a : Action} (hfits : (b.act a).store.counter.Fits) :
    ((b.act a).admitted.map number).Nodup ∧
      ∀ d ∈ (b.act a).admitted, (b.act a).store.counter.Gave (number d) := by
  rcases act_admitted b a with ⟨c, now, d, -, hprepared, hstore, hperm⟩ | hsub
  · obtain ⟨hnext, hgiven⟩ := htaken d hprepared (hstore ▸ hfits)
    have hnew : number d ∉ b.admitted.map number := by
      intro hmem
      obtain ⟨d', hd', heq⟩ := List.mem_map.1 hmem
      have hlt := (hgave d' hd').lt_next hordered
      rw [heq] at hlt
      exact Nat.lt_irrefl _ (Nat.lt_of_lt_of_le hlt hnext)
    refine ⟨((hperm.map _).nodup_iff).2 (List.nodup_cons.2 ⟨hnew, hdistinct⟩), fun d' hd' => ?_⟩
    rcases List.mem_cons.1 (hperm.mem_iff.1 hd') with rfl | hd'
    · rw [hstore]
      exact hgiven
    · exact gave_act hordered a (hgave d' hd')
  · exact ⟨nodup_of_subperm (subperm_map hsub) hdistinct, fun d hd =>
      gave_act hordered a (hgave d (hsub.subset hd))⟩

theorem Linked.numbers_act {b : Books} (h : b.Linked) {a : Action}
    (hfits : (b.act a).store.counter.Fits) :
    ((b.act a).admitted.map (·.event)).Nodup ∧
      ∀ d ∈ (b.act a).admitted, (b.act a).store.counter.Gave d.event := by
  refine Books.numbers_act h.ordered h.distinct h.gave (fun d hprepared hfits => ?_) hfits
  obtain ⟨hevent, -⟩ := hprepared.numbers hfits
  exact ⟨Nat.le_of_eq hevent.symm, b.store.counter.next + 1, rfl, hevent ▸ Nat.le_succ _⟩

theorem Linked.posting_eq {b : Books} (h : b.Linked) {p p' : Posting} (hp : p ∈ b.posted)
    (hp' : p' ∈ b.posted) (heq : p.draft.event = p'.draft.event) : p = p' := by
  have hdistinct := h.distinct
  rw [admitted, List.map_append, List.map_map] at hdistinct
  exact List.inj_on_of_nodup_map (List.nodup_append'.1 hdistinct).2.1 hp hp' heq

theorem Linked.act {b : Books} (h : b.Linked) {a : Action} (ha : a.Texts)
    (hfits : (b.act a).store.counter.Fits) : (b.act a).Linked := by
  obtain ⟨hdistinct, hgave⟩ := h.numbers_act hfits
  refine ⟨ordered_act h.ordered a, hdistinct, hgave, ?_⟩
  rcases act_events (P := (Notices · b.posted)) h.notices (fun _ => h.notices.of_tables)
    (fun _ hstamp => keptByStamps_notices (ha.worker hstamp) _)
    (fun _ _ _ hrecorded => keptByReports_notices fun o ho => ha.reason (hrecorded o ho))
    with ⟨_, _, d, hplace, hwrites, hposted⟩ | ⟨hposted, hs⟩
  · rw [hposted]
    exact h.notices.posting hwrites (waiting_ne h.distinct hplace)
  · rw [hposted]
    exact hs

/-- Whatever the order of the steps, drafts and events keep to their numbers as long as these
fit. -/
theorem Linked.run {b : Books} (h : b.Linked) {actions : List Action}
    (htexts : ∀ a ∈ actions, a.Texts) (hfits : (b.run actions).store.counter.Fits) :
    (b.run actions).Linked := by
  induction actions generalizing b with
  | nil => exact h
  | cons a actions ih =>
    obtain ⟨ha, htexts⟩ := List.forall_mem_cons.1 htexts
    exact ih (h.act ha (fits_of_run (ordered_act h.ordered a) hfits)) htexts hfits

theorem linked_run {actions : List Action} (htexts : ∀ a ∈ actions, a.Texts)
    (hfits : (opened.run actions).store.counter.Fits) : (opened.run actions).Linked :=
  linked_opened.run htexts hfits

/-! ## What becomes of one event -/

/-- What is known of one event changes with a stamp of it or a recorded report, if at all. -/
theorem Linked.has_act {b : Books} (h : b.Linked) {a : Action} (ha : a.Texts) {id : UInt64}
    {F : Event → Prop}
    (hstamp : ∀ stamp ∈ a.stamp?, ∀ e : Event, e.isClaimable stamp.now = true → F e →
      F (e.claim stamp.worker (stamp.now.after stamp.lease)))
    (hreport : ∀ worker outcome, (worker, id, outcome) ∈ b.recorded a →
      ∀ now (e after : Event), Event.report now worker e outcome = some after → F e → F after)
    (hhas : Has b.store id F) : Has (b.act a).store id F := by
  have hstamps : ∀ stamp ∈ a.stamp?, Outbox.KeptByStamps (fun s => Sound s ∧ Has s id F)
      stamp.now stamp.worker (stamp.now.after stamp.lease) := by
    intro stamp hmem s e row other hs hfind hfree hrow
    have hworker := ha.worker hmem
    exact ⟨hs.1.stamped hworker hfind hfree hrow,
      hs.2.stamped hs.1 hworker hfind hrow fun _ => hstamp stamp hmem e hfree⟩
  have hreports : ∀ now worker outcomes, (∀ o ∈ outcomes, (worker, o) ∈ b.recorded a) →
      Outbox.KeptByReports (fun s => Sound s ∧ Has s id F) now worker outcomes := by
    intro now worker outcomes hrecorded s e after row other outcome hmem hs hfind hchange hrow
    have hreason := ha.reason (hrecorded _ hmem)
    refine ⟨hs.1.reported hreason hfind hchange hrow,
      hs.2.reported hs.1 hreason hfind hchange hrow fun hid => ?_⟩
    have hother := (Outbox.Event.key_injective (hs.1.found hfind).1).trans hid
    rw [hother] at hmem
    exact hreport worker outcome (hrecorded _ hmem) now e after hchange
  rcases act_events ⟨h.notices.sound, hhas⟩ (fun _ hevents hpending =>
      ⟨h.notices.sound.of_tables hevents hpending, hhas.of_events hevents⟩) hstamps hreports
    with ⟨_, now, d, hplace, hwrites, -⟩ | ⟨-, hs⟩
  · obtain ⟨row, hrow, hevents⟩ := hwrites.events
    refine hhas.put (d.lasting_event now) hrow (fun hid => ?_) hevents
    -- the event that is known is that of another move
    obtain ⟨e, hfind, -⟩ := hhas
    obtain ⟨p, hp, htells⟩ := h.notices.tells hfind
    have hkey := (h.notices.sound.found hfind).1
    have heq : p.draft.event = d.event :=
      htells.id.symm.trans ((Outbox.Event.key_injective hkey).symm.trans hid.symm)
    exact absurd heq (waiting_ne h.distinct hplace p hp)
  · exact hs.2

theorem Linked.has_run {b : Books} (h : b.Linked) {actions : List Action}
    (htexts : ∀ a ∈ actions, a.Texts) (hfits : (b.run actions).store.counter.Fits) {id : UInt64}
    {F : Event → Prop}
    (hstamp : ∀ stamp ∈ actions.filterMap Action.stamp?, ∀ e : Event,
      e.isClaimable stamp.now = true → F e →
      F (e.claim stamp.worker (stamp.now.after stamp.lease)))
    (hreport : ∀ worker outcome, (worker, id, outcome) ∈ b.recordedIn actions →
      ∀ now (e after : Event), Event.report now worker e outcome = some after → F e → F after)
    (hhas : Has b.store id F) : Has (b.run actions).store id F := by
  induction actions generalizing b with
  | nil => exact hhas
  | cons a actions ih =>
    obtain ⟨ha, htexts⟩ := List.forall_mem_cons.1 htexts
    have hnext := h.act ha (fits_of_run (ordered_act h.ordered a) hfits)
    refine ih hnext htexts hfits (fun stamp hmem => hstamp stamp ?_)
      (fun worker outcome hmem => hreport worker outcome (List.mem_append_right _ hmem))
      (h.has_act ha (fun stamp hmem => hstamp stamp ?_)
        (fun worker outcome hmem => hreport worker outcome (List.mem_append_left _ hmem)) hhas)
    · obtain ⟨a', ha', heq⟩ := List.mem_filterMap.1 hmem
      exact List.mem_filterMap.2 ⟨a', List.mem_cons_of_mem _ ha', heq⟩
    · exact List.mem_filterMap.2 ⟨a, List.mem_cons_self, hmem⟩

end Books

end Ledger

end Stockroom
