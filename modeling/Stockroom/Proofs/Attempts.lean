import Stockroom.Proofs.AllOrNothing
import Stockroom.Proofs.Leases

/-!
# Attempts that are counted

An attempt to publish an event counts when its failure is recorded. Only the worker that holds the
event can have that done, and recording it takes the event away from the worker, so an event that
is given out once fails once at most. A worker whose lease ran out holds the event until it is given
to somebody else. From then on what it says of a failure goes unnoticed, wherever in a list of
outcomes and whatever the clocks show.

Results:
1. `stamp_assigns`: an event that is returned is under the lease, and no other event has changed.
2. `recordAll_unheld`: a failure of an event that its worker does not hold changes nothing.
3. `Books.accounted_run`: what the history of an event says of its attempts and of its holder.
4. `counted_once`: the guarantee.
-/
namespace Stockroom

namespace Outbox

open Store (find?)
open Store.Transaction

variable {s s' : Store} {now leaseEnd : Date} {worker : String}

/-! ## Events that are given out -/

/-- From one store to the next, the events with some numbers have come under a lease, and others are
as they were. -/
def Assigns (worker : String) (leaseEnd : Date) (s s' : Store) (ids : List UInt64) : Prop :=
  ∀ id e, event? id s' = .ok (some e) →
    (id ∈ ids ∧ ∃ before, event? id s = .ok (some before) ∧ e = before.claim worker leaseEnd) ∨
    (id ∉ ids ∧ event? id s = .ok (some e))

theorem Assigns.nothing (worker : String) (leaseEnd : Date) (s : Store) :
    Assigns worker leaseEnd s s [] :=
  fun _ _ hfind => .inr ⟨List.not_mem_nil, hfind⟩

/-- An event may come under the lease more than once. -/
theorem Assigns.cons {e : Event} {row : Bytes} {ids : List UInt64} {s₁ : Store} (hlasting : e.Lasting)
    (hworker : Sized worker) (hfind : event? e.id s = .ok (some e))
    (hrow : Stored.encode (e.claim worker leaseEnd) = some row)
    (hevents : s₁.events = s.events.insert (Event.key e.id) row)
    (hrest : Assigns worker leaseEnd s₁ s' ids) : Assigns worker leaseEnd s s' (e.id :: ids) := by
  have hput := event?_put (hlasting.claim hworker leaseEnd) hrow hevents
  have hown : event? e.id s₁ = .ok (some (e.claim worker leaseEnd)) := (hput _).trans (if_pos rfl)
  intro id after hafter
  by_cases hid : e.id = id
  · subst hid
    refine .inl ⟨List.mem_cons_self, e, hfind, ?_⟩
    rcases hrest _ after hafter with ⟨-, before, hbefore, rfl⟩ | ⟨-, hbefore⟩
    · cases hown.symm.trans hbefore
      rfl
    · cases hown.symm.trans hbefore
      rfl
  · have hother : event? id s₁ = event? id s := (hput id).trans (if_neg hid)
    rcases hrest _ after hafter with ⟨hmem, before, hbefore, rfl⟩ | ⟨hmem, hbefore⟩
    · exact .inl ⟨List.mem_cons_of_mem _ hmem, before, hother ▸ hbefore, rfl⟩
    · refine .inr ⟨fun hmem' => ?_, hother ▸ hbefore⟩
      exact (List.mem_cons.1 hmem').elim (fun heq => hid heq.symm) hmem

theorem stampEach_assigns {ids : List UInt64} {stamped : List (Option Event)} (hs : Sound s)
    (hworker : Sized worker) (h : ids.mapM (stampOne now worker leaseEnd) s = .ok (stamped, s')) :
    Assigns worker leaseEnd s s' ((stamped.filterMap id).map (·.id)) := by
  induction ids generalizing s stamped with
  | nil =>
    obtain ⟨rfl, rfl⟩ := pure_ok.1 h
    exact .nothing _ _ _
  | cons first ids ih =>
    rw [List.mapM_cons] at h
    obtain ⟨found, s₁, hone, h⟩ := bind_ok.1 h
    obtain ⟨later, s₂, hrest, hpure⟩ := bind_ok.1 h
    obtain ⟨rfl, rfl⟩ := pure_ok.1 hpure
    rcases stampOne_ok hone with ⟨rfl, rfl⟩ | ⟨e, row, hfind, hfree, rfl, hrow, rfl⟩
    · have hlater := ih hs hrest
      exact hlater
    · obtain ⟨hkey, htexts, -⟩ := hs.found hfind
      have hown : event? e.id s = .ok (some e) := by
        rw [event?, eventAt, ← hkey]
        exact hfind
      have hall := Assigns.cons htexts hworker hown hrow rfl
        (ih (hs.stamped hworker hfind hfree hrow) hrest)
      exact hall

/-- An event that is returned is under the lease, and no other event has changed. -/
theorem stamp_assigns {lease : Duration} (hs : Sound s) (hworker : Sized worker)
    (ids : List UInt64) :
    Assigns worker (now.after lease) s (stamp now worker lease ids s).2
      (((stamp now worker lease ids s).1.toOption.getD []).map (·.id)) := by
  rcases h : stamp now worker lease ids s with ⟨e | events, s'⟩
  · rw [stamp_error h]
    exact .nothing _ _ _
  · rw [stamp] at h
    split at h
    · cases h
      exact .nothing _ _ _
    · obtain ⟨stamped, s₁, hall, hpure⟩ := bind_ok.1 (Store.atomically_ok.1 h)
      obtain ⟨rfl, rfl⟩ := pure_ok.1 hpure
      exact stampEach_assigns hs hworker hall

theorem claim_assigns {seen stamped : Date} {lease : Duration} (hs : Sound s)
    (hworker : Sized worker) (limit : Nat) :
    Assigns worker (stamped.after lease) s (claim seen stamped worker limit lease s).2
      (((claim seen stamped worker limit lease s).1.toOption.getD []).map (·.id)) := by
  rw [claim]
  split
  · exact .nothing _ _ _
  · exact stamp_assigns hs hworker _

/-! ## What holds of every event -/

/-- Every event is of a kind, which may depend on its number. -/
def Each (s : Store) (F : UInt64 → Event → Prop) : Prop :=
  ∀ id e, event? id s = .ok (some e) → F id e

variable {F : UInt64 → Event → Prop}

theorem Each.of_events (h : Each s F) (hevents : s'.events = s.events) : Each s' F := by
  intro id e hfind
  rw [event?, eventAt, hevents] at hfind
  exact h id e hfind

theorem Each.put (h : Each s F) {e : Event} {row : Bytes} (hlasting : e.Lasting)
    (hrow : Stored.encode e = some row) (he : F e.id e)
    (hevents : s'.events = s.events.insert (Event.key e.id) row) : Each s' F := by
  intro id e' hfind
  rw [event?_put hlasting hrow hevents] at hfind
  split at hfind
  · next hid =>
    cases hfind
    exact hid ▸ he
  · exact h id e' hfind

theorem Each.reported (h : Each s F) (hs : Sound s) {id : UInt64} {e after : Event}
    {outcome : Outcome} {row : Bytes} (hreason : ∀ reason, outcome = .failed reason → Sized reason)
    (hfind : find? s.events (Event.key id) = .ok (some e))
    (hreport : Event.report now worker e outcome = some after)
    (hrow : Stored.encode after = some row) (hF : F e.id e → F e.id after) :
    Each ((settle id outcome s).update .events (·.insert (Event.key after.id) row)) F := by
  obtain ⟨hkey, hlasting, -⟩ := hs.found hfind
  have hid := (report_notice hreport).1
  refine h.put (hlasting.report hreason hreport) hrow ?_ ?_
  · rw [hkey] at hfind
    exact hid ▸ hF (h _ e hfind)
  · show (settle id outcome s).events.insert _ row = _
    rw [settle_events]

/-! ## Failures of events that are not held -/

/-- The event under a number, if there is one, is not held by a worker. -/
def Unheld (s : Store) (id : UInt64) (worker : String) : Prop :=
  Each s fun other e => other = id → e.claimedBy ≠ some worker

/-- Whoever reports on an event holds it no longer. -/
theorem claimedBy_report {e after : Event} {outcome : Outcome}
    (h : Event.report now worker e outcome = some after) : after.claimedBy = none := by
  obtain ⟨-, ⟨-, rfl⟩ | ⟨reason, -, -, rfl⟩⟩ := report_cases h
  · rfl
  · rfl

theorem Unheld.reported {id : UInt64} (h : Unheld s id worker) (hs : Sound s)
    {other : UInt64} {e after : Event} {outcome : Outcome} {row : Bytes}
    (hreason : ∀ reason, outcome = .failed reason → Sized reason)
    (hfind : find? s.events (Event.key other) = .ok (some e))
    (hreport : Event.report now worker e outcome = some after)
    (hrow : Stored.encode after = some row) :
    Unheld ((settle other outcome s).update .events (·.insert (Event.key after.id) row)) id
      worker := by
  refine Each.reported h hs hreason hfind hreport hrow fun _ _ => ?_
  rw [claimedBy_report hreport]
  exact nofun

/-- A failure of an event that its worker does not hold goes unnoticed. -/
theorem recordOne_unheld {id : UInt64} (hs : Sound s) (h : Unheld s id worker) (now : Date)
    (reason : String) : recordOne now worker id (.failed reason) s = .ok (false, s) := by
  rcases hs.event?_cases id with hnone | ⟨e, hfind, -⟩
  · exact recordOne_of_none hnone nofun
  · refine recordOne_of_none hfind ?_
    rintro _ ⟨⟩
    exact if_neg fun hheld => h id e hfind rfl hheld.2

/-- Wherever it is in a list, it makes no difference. -/
theorem recordAll_unheld {id : UInt64} {earlier later : List (UInt64 × Outcome)} (hs : Sound s)
    (h : Unheld s id worker)
    (hreasons : ∀ o ∈ earlier, ∀ reason, o.2 = .failed reason → Sized reason) (now : Date)
    (reason : String) :
    recordAll now worker (earlier ++ (id, .failed reason) :: later) s =
      recordAll now worker (earlier ++ later) s := by
  induction earlier generalizing s with
  | nil =>
    rw [List.nil_append, List.nil_append, recordAll, bind_of_ok (recordOne_unheld hs h now reason)]
    exact congrFun (bind_pure (recordAll now worker later)) s
  | cons head earlier ih =>
    obtain ⟨other, outcome⟩ := head
    obtain ⟨hreason, hreasons⟩ := List.forall_mem_cons.1 hreasons
    rw [List.cons_append, List.cons_append, recordAll, recordAll]
    cases hone : recordOne now worker other outcome s with
    | error e => rw [bind_of_error hone, bind_of_error hone]
    | ok first =>
      obtain ⟨changed, s₁⟩ := first
      have hnext : Sound s₁ ∧ Unheld s₁ id worker := by
        rcases recordOne_ok hone with ⟨-, rfl⟩ | ⟨e, after, row, hfind, hreport, -, hrow, rfl⟩
        · exact ⟨hs, h⟩
        · exact ⟨hs.reported hreason hfind hreport hrow,
            h.reported hs hreason hfind hreport hrow⟩
      rw [bind_of_ok hone, bind_of_ok hone, bind_apply, bind_apply, ih hnext.1 hnext.2 hreasons]

theorem complete_unheld {id : UInt64} {earlier later : List (UInt64 × Outcome)} (hs : Sound s)
    (h : Unheld s id worker)
    (hreasons : ∀ o ∈ earlier, ∀ reason, o.2 = .failed reason → Sized reason) (now : Date)
    (reason : String) :
    complete now worker (earlier ++ (id, .failed reason) :: later) s =
      complete now worker (earlier ++ later) s := by
  rw [complete, complete, Store.atomically, Store.atomically,
    recordAll_unheld hs h hreasons now reason]

/-- A worker that reports nothing but failures of an event it does not hold leaves the row as it
was. -/
theorem complete_row {id : UInt64} {outcomes : List (UInt64 × Outcome)} (hs : Sound s)
    (h : Unheld s id worker)
    (hreasons : ∀ o ∈ outcomes, ∀ reason, o.2 = .failed reason → Sized reason)
    (hfailed : ∀ outcome, (id, outcome) ∈ outcomes → ∃ reason, outcome = .failed reason)
    (now : Date) :
    (complete now worker outcomes s).2.events.get? (Event.key id) =
      s.events.get? (Event.key id) := by
  have hkept : KeptByReports (fun s' => Sound s' ∧ Unheld s' id worker ∧
      s'.events.get? (Event.key id) = s.events.get? (Event.key id)) now worker outcomes := by
    rintro s' e after row other outcome hmem ⟨hs', h', hsame⟩ hfind hreport hrow
    have hreason := hreasons _ hmem
    refine ⟨hs'.reported hreason hfind hreport hrow, h'.reported hs' hreason hfind hreport hrow,
      Eq.trans ?_ hsame⟩
    have hkey := (hs'.found hfind).1
    show ((settle other outcome s').events.insert (Event.key after.id) row).get? _ = _
    rw [settle_events, Table.get?_insert, (report_notice hreport).1, ← hkey]
    refine if_neg fun heq => ?_
    -- a failure that is recorded is one of an event that its worker holds
    obtain rfl := Event.key_injective heq
    obtain ⟨reason, rfl⟩ := hfailed _ hmem
    obtain ⟨-, ⟨hsent, -⟩ | ⟨_, -, hheld, -⟩⟩ := report_cases hreport
    · cases hsent
    · exact h' _ e hfind rfl hheld
  exact (complete_invariant hkept ⟨hs, h, rfl⟩).2.2

/-! ## The history of an event -/

/-- What is known of an event that was given to some workers, one after the other: under none of
them has it failed twice, and if anybody holds it, the last of them does. -/
structure Event.Accounted (holders : List String) (e : Event) : Prop where
  attempts : e.attempts.toNat + e.claimedBy.isSome.toNat ≤ holders.length
  holder : ∀ worker ∈ e.claimedBy, holders.getLast? = some worker

theorem Event.accounted_fresh (holders : List String) (id : UInt64) (topic payload : String)
    (now : Date) : (Event.fresh id topic payload now).Accounted holders :=
  ⟨Nat.zero_le _, nofun⟩

theorem Event.Accounted.claim {e : Event} {holders : List String} (h : e.Accounted holders)
    (worker : String) (leaseEnd : Date) :
    (e.claim worker leaseEnd).Accounted (holders ++ [worker]) := by
  constructor
  case attempts =>
    have := h.attempts
    show e.attempts.toNat + 1 ≤ (holders ++ [worker]).length
    rw [List.length_append, List.length_singleton]
    omega
  case holder =>
    rintro _ ⟨⟩
    exact List.getLast?_concat

theorem attempts_failed_le (reason : String) (e : Event) :
    (e.failed reason).attempts.toNat ≤ e.attempts.toNat + 1 := by
  rw [toNat_attempts_failed]
  exact Nat.min_le_left _ _

/-- A failure counts for the worker that held the event, and nobody holds it after that. -/
theorem Event.Accounted.report {e after : Event} {holders : List String} {outcome : Outcome}
    (h : e.Accounted holders) (hreport : Event.report now worker e outcome = some after) :
    after.Accounted holders := by
  have hnobody := claimedBy_report hreport
  have hbound := h.attempts
  refine ⟨?_, fun w hw => ?_⟩
  · rw [hnobody]
    show after.attempts.toNat + 0 ≤ holders.length
    obtain ⟨-, ⟨-, rfl⟩ | ⟨reason, -, hheld, rfl⟩⟩ := report_cases hreport
    · show e.attempts.toNat + 0 ≤ holders.length
      omega
    · have := attempts_failed_le reason e
      rw [hheld] at hbound
      have hbound : e.attempts.toNat + 1 ≤ holders.length := hbound
      omega
  · rw [hnobody] at hw
    cases hw

/-- Every event is accounted for by the workers it was given to. -/
def Accounted (s : Store) (holders : UInt64 → List String) : Prop :=
  Each s fun id e => e.Accounted (holders id)

end Outbox

namespace Ledger

open Outbox (Event Sound Accounted Unheld event?)

namespace Books

/-- The worker that an action gives an event to, if it does. -/
def givenTo (b : Books) (id : UInt64) (a : Action) : Option String :=
  if id ∈ (b.granted a).map (·.id) then a.stamp?.map (·.worker) else none

/-- The workers that some actions give an event to, one after the other. -/
def holdersIn (b : Books) (id : UInt64) : List Action → List String
  | [] => []
  | a :: actions => (b.givenTo id a).toList ++ (b.act a).holdersIn id actions

theorem holdersIn_concat (b : Books) (id : UInt64) (actions : List Action) (a : Action) :
    b.holdersIn id (actions ++ [a]) =
      b.holdersIn id actions ++ ((b.run actions).givenTo id a).toList := by
  induction actions generalizing b with
  | nil => exact List.append_nil _
  | cons first actions ih =>
    rw [List.cons_append, holdersIn, holdersIn, ih, List.append_assoc]
    rfl

/-- An event that an action gives out is under the lease of its stamp, and others are as they
were. -/
theorem granted_assigns {b : Books} (h : Sound b.store) {a : Action} (ha : a.Texts) {stamp : Stamp}
    (hstamp : stamp ∈ a.stamp?) :
    Outbox.Assigns stamp.worker (stamp.now.after stamp.lease) b.store (b.act a).store
      ((b.granted a).map (·.id)) := by
  cases a with
  | stamp now worker lease ids =>
    cases hstamp
    exact Outbox.stamp_assigns h ha ids
  | claim seen stamped worker limit lease =>
    cases hstamp
    exact Outbox.claim_assigns h ha limit
  | consider | commit | complete | reopen => cases hstamp

/-- What gives nothing out leaves every event of its kind, if new events are and reports leave them
so. -/
theorem each_quiet {b : Books} {F : UInt64 → Event → Prop} (h : Outbox.Each b.store F)
    (hs : Sound b.store) {a : Action} (ha : a.Texts) (hstamp : a.stamp? = none)
    (hfresh : ∀ id topic payload now, F id (Event.fresh id topic payload now))
    (hreport : ∀ now worker outcome (e after : Event),
      Event.report now worker e outcome = some after → F e.id e → F e.id after) :
    Outbox.Each (b.act a).store F := by
  have hstamps : ∀ stamp ∈ a.stamp?, Outbox.KeptByStamps (fun s => Sound s ∧ Outbox.Each s F)
      stamp.now stamp.worker (stamp.now.after stamp.lease) := by
    intro stamp hmem
    rw [hstamp] at hmem
    cases hmem
  have hreports : ∀ now worker outcomes, (∀ o ∈ outcomes, (worker, o) ∈ b.recorded a) →
      Outbox.KeptByReports (fun s => Sound s ∧ Outbox.Each s F) now worker outcomes := by
    intro now worker outcomes hrecorded s e after row id outcome hmem hkept hfind hchange hrow
    have hreason := ha.reason (hrecorded _ hmem)
    exact ⟨hkept.1.reported hreason hfind hchange hrow,
      hkept.2.reported hkept.1 hreason hfind hchange hrow (hreport _ _ _ _ _ hchange)⟩
  rcases act_events ⟨hs, h⟩ (fun s hevents hpending =>
      ⟨hs.of_tables hevents hpending, h.of_events hevents⟩) hstamps hreports
    with ⟨_, now, d, -, hwrites, -⟩ | ⟨-, hkept⟩
  · obtain ⟨row, hrow, hevents⟩ := hwrites.events
    exact h.put (d.lasting_event now) hrow (hfresh _ _ _ _) hevents
  · exact hkept.2

theorem accounted_act {b : Books} {holders : UInt64 → List String}
    (h : Accounted b.store holders) (hs : Sound b.store) {a : Action} (ha : a.Texts) :
    Accounted (b.act a).store fun id => holders id ++ (b.givenTo id a).toList := by
  cases hstamp : a.stamp? with
  | none =>
    have hnobody : ∀ id, b.givenTo id a = none := by
      intro id
      rw [givenTo, hstamp]
      exact ite_self _
    simp only [hnobody, Option.toList_none, List.append_nil]
    exact each_quiet h hs ha hstamp (fun _ _ _ _ => Event.accounted_fresh _ _ _ _ _)
      fun _ _ _ _ _ hreport he => he.report hreport
  | some stamp =>
    intro id e hfind
    show e.Accounted (holders id ++ (b.givenTo id a).toList)
    rcases granted_assigns hs ha hstamp id e hfind
      with ⟨hmem, before, hbefore, rfl⟩ | ⟨hmem, hbefore⟩
    · rw [givenTo, if_pos hmem, hstamp]
      exact (h id before hbefore).claim _ _
    · rw [givenTo, if_neg hmem, Option.toList_none, List.append_nil]
      exact h id e hbefore

/-- Whatever the order of the steps, every event is accounted for. -/
theorem accounted_run {actions : List Action} (htexts : ∀ a ∈ actions, a.Texts) :
    Accounted (opened.run actions).store fun id => opened.holdersIn id actions := by
  induction actions using List.reverseRecOn with
  | nil =>
    intro id e hfind
    cases hfind
  | append_singleton actions a ih =>
    obtain ⟨hbefore, ha⟩ := List.forall_mem_append.1 htexts
    simp only [holdersIn_concat, run_append]
    exact accounted_act (ih hbefore) (sound_run hbefore) (ha a List.mem_cons_self)

/-! ## The guarantee -/

/-- What is promised of the attempts that are counted in a run. -/
structure CountedOnce (actions : List Action) : Prop where
  /-- An event has failed no more often than it was given out. -/
  attempts : ∀ id e, event? id (opened.run actions).store = .ok (some e) →
    e.attempts.toNat ≤ (opened.holdersIn id actions).length
  /-- A failure from anybody but the last worker that the event was given to makes no difference,
  whatever else is reported with it. -/
  ignored : ∀ worker id, (opened.holdersIn id actions).getLast? ≠ some worker →
    ∀ now earlier reason later,
      (Action.complete now worker (earlier ++ (id, .failed reason) :: later)).Texts →
      Outbox.complete now worker (earlier ++ (id, .failed reason) :: later)
          (opened.run actions).store =
        Outbox.complete now worker (earlier ++ later) (opened.run actions).store
  /-- If it reports nothing but failures of the event, the row stays as it was. -/
  unchanged : ∀ worker id, (opened.holdersIn id actions).getLast? ≠ some worker →
    ∀ now outcomes, (Action.complete now worker outcomes).Texts →
      (∀ outcome, (id, outcome) ∈ outcomes → ∃ reason, outcome = .failed reason) →
      (Outbox.complete now worker outcomes (opened.run actions).store).2.events.get?
          (Event.key id) =
        (opened.run actions).store.events.get? (Event.key id)

end Books

/-- Whatever the order of the steps and whatever the clocks show, no attempt is counted twice. -/
theorem counted_once {actions : List Action} (htexts : ∀ a ∈ actions, a.Texts) :
    Books.CountedOnce actions := by
  have hsound := Books.sound_run htexts
  have haccounted := Books.accounted_run htexts
  have hunheld : ∀ worker id, (Books.opened.holdersIn id actions).getLast? ≠ some worker →
      Unheld (Books.opened.run actions).store id worker := by
    rintro worker id hother _ e hfind rfl hheld
    exact hother ((haccounted _ e hfind).holder worker hheld)
  constructor
  case attempts =>
    intro id e hfind
    exact (Nat.le_add_right _ _).trans (haccounted id e hfind).attempts
  case ignored =>
    intro worker id hother now earlier reason later hreasons
    exact Outbox.complete_unheld hsound (hunheld worker id hother)
      (List.forall_mem_append.1 hreasons).1 now reason
  case unchanged =>
    intro worker id hother now outcomes hreasons hfailed
    exact Outbox.complete_row hsound (hunheld worker id hother) hreasons hfailed now

/-! ### A lease that is taken over -/

/-- One worker is given an event, fails and says so twice. It is given the event again, and when
that lease has run out, another worker is. -/
def takeover : List Action :=
  [.consider (.plain "a" "5" 2 3) (.fresh 0 5) ⟨0⟩, .commit 0 ⟨1⟩,
    .claim ⟨2⟩ ⟨3⟩ "worker" 8 (.ofNanos 60),
    .complete ⟨4⟩ "worker" [(0, .failed "down"), (0, .failed "down")],
    .claim ⟨5⟩ ⟨6⟩ "worker" 8 (.ofNanos 60), .claim ⟨66⟩ ⟨67⟩ "other" 8 (.ofNanos 60)]

theorem counted_once_takeover : Books.CountedOnce takeover ∧
    Books.opened.holdersIn 0 takeover = ["worker", "worker", "other"] ∧
    (event? 0 (Books.opened.run takeover).store).map (·.map fun e => (e.attempts, e.claimedBy)) =
      .ok (some (1, some "other")) := by
  have hsized : Sized "worker" ∧ Sized "other" ∧ Sized "down" := by
    simp only [Sized]
    decide
  obtain ⟨hworker, hother, hdown⟩ := hsized
  have htexts : ∀ a ∈ takeover, a.Texts := by
    simp only [takeover, List.forall_mem_cons]
    have hfailed := Outbox.Outcome.texts_failed hdown
    exact ⟨trivial, trivial, hworker,
      List.forall_mem_cons.2 ⟨hfailed, List.forall_mem_singleton.2 hfailed⟩, hworker, hother,
      List.forall_mem_nil _⟩
  exact ⟨counted_once htexts, by decide +kernel, by decide +kernel⟩

end Ledger

end Stockroom
