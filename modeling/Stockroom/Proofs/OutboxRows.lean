import Stockroom.Proofs.EventSteps
import Stockroom.Proofs.JsonText
import Stockroom.Proofs.Numbers
import Mathlib.Data.List.Sort

/-!
# The outbox and its index in step

Events sit in one table and the keys of the pending ones in another. Posting a move writes both, a
claim and a failure write the event alone, and a success writes the event and takes its key out of
the index. Whatever the order of these steps, and whichever outcomes are reported for whichever
numbers, the two tables stay in step and the optional fields of every event belong together.

Results:
1. `Sound.put`: a coherent event put under its number keeps the tables in step, if the index has the
   number exactly when the event is pending.
2. `Ledger.Books.sound_run`: so every run keeps them in step.
3. `Sound.pending_eq`, `Sound.scan_eq` and `Sound.scan_finds`: what is read through the index is
   what a look at all events would find, in the order of their numbers.
4. `outbox_in_step`: the guarantee.
-/
namespace Stockroom

namespace Outbox

open Store (find? find?_eq_ok_some)

variable {s s' : Store} {now : Date} {worker : String}

/-! ## Fields that belong together -/

/-- A lease has a holder and an end or neither, a sent event has no lease, and there are words for
an error exactly when an attempt has failed. -/
structure Event.Coherent (e : Event) : Prop where
  lease : e.claimedBy.isSome ↔ e.leaseEnd.isSome
  sent : e.sentAt.isSome → e.claimedBy = none ∧ e.leaseEnd = none
  error : e.lastError.isSome ↔ 0 < e.attempts

theorem Event.coherent_fresh (id : UInt64) (topic payload : String) (now : Date) :
    (Event.fresh id topic payload now).Coherent :=
  ⟨Iff.rfl, nofun, nofun, fun h => absurd h (UInt32.lt_irrefl 0)⟩

theorem Event.not_isPending_iff {e : Event} : ¬ e.isPending = true ↔ e.sentAt.isSome := by
  rw [Event.isPending]
  cases e.sentAt with
  | none => exact ⟨fun h => absurd rfl h, nofun⟩
  | some t => exact ⟨fun _ => rfl, fun _ => nofun⟩

theorem Event.isPending_of_isClaimable {e : Event} (h : e.isClaimable now = true) :
    e.isPending = true :=
  (Bool.and_eq_true_iff.1 h).1

theorem Event.Coherent.claim {e : Event} (h : e.Coherent) (hfree : e.isClaimable now = true)
    (leaseEnd : Date) : (e.claim worker leaseEnd).Coherent := by
  refine ⟨⟨fun _ => rfl, fun _ => rfl⟩, fun hsent => ?_, h.error⟩
  exact absurd (Event.isPending_of_isClaimable hfree) (Event.not_isPending_iff.2 hsent)

theorem toNat_attempts_failed (reason : String) (e : Event) :
    (e.failed reason).attempts.toNat = min (e.attempts.toNat + 1) (2 ^ 32 - 1) := by
  have hlt := e.attempts.toNat_lt
  show (if e.attempts.toNat + 1 < 2 ^ 32 then e.attempts + 1 else e.attempts).toNat = _
  split
  · next hroom =>
    rw [UInt32.toNat_add, show (1 : UInt32).toNat = 1 from rfl, Nat.mod_eq_of_lt hroom]
    omega
  · omega

theorem attempts_failed_pos (reason : String) (e : Event) : 0 < (e.failed reason).attempts := by
  rw [UInt32.lt_iff_toNat_lt, toNat_attempts_failed]
  exact Nat.lt_min.2 ⟨Nat.succ_pos _, by decide⟩

theorem Event.Coherent.report {e after : Event} {outcome : Outcome} (h : e.Coherent)
    (hreport : Event.report now worker e outcome = some after) : after.Coherent := by
  obtain ⟨hpending, ⟨-, rfl⟩ | ⟨reason, -, -, rfl⟩⟩ := report_cases hreport
  · exact ⟨Iff.rfl, fun _ => ⟨rfl, rfl⟩, h.error⟩
  · exact ⟨Iff.rfl, fun _ => ⟨rfl, rfl⟩, fun _ => attempts_failed_pos reason e, fun _ => rfl⟩

/-! ## Two tables in step -/

/-- Every row is a coherent event under its own number, and the index has the keys of the pending
ones. -/
structure Sound (s : Store) : Prop where
  rows : ∀ key row, s.events.get? key = some row →
    ∃ e : Event, key = Event.key e.id ∧ Stored.encode e = some row ∧ e.Lasting ∧ e.Coherent
  index : ∀ key, (s.pending.get? key).isSome ↔
    ∃ e, eventAt key s = .ok (some e) ∧ e.isPending = true

theorem sound_empty : Sound .empty := by
  refine ⟨nofun, fun key => ⟨nofun, ?_⟩⟩
  rintro ⟨e, hfind, -⟩
  cases hfind

theorem Sound.of_tables (h : Sound s) (hevents : s'.events = s.events)
    (hpending : s'.pending = s.pending) : Sound s' := by
  refine ⟨?_, ?_⟩
  · rw [hevents]
    exact h.rows
  · unfold eventAt
    rw [hevents, hpending]
    exact h.index

/-- What is found was stored under its own number. -/
theorem Sound.found (h : Sound s) {key : Bytes} {e : Event}
    (hfind : find? s.events key = .ok (some e)) : key = Event.key e.id ∧ e.Lasting ∧ e.Coherent := by
  obtain ⟨row, hget, hdecode⟩ := find?_eq_ok_some.1 hfind
  obtain ⟨e', hkey, hrow, hlasting, hcoherent⟩ := h.rows key row hget
  rw [(Event.reads_back hlasting).decode hrow] at hdecode
  cases hdecode
  exact ⟨hkey, hlasting, hcoherent⟩

theorem Sound.instants (h : Sound s) {id : UInt64} {e : Event}
    (hfind : event? id s = .ok (some e)) : e.Instants := by
  obtain ⟨row, hget, hdecode⟩ := find?_eq_ok_some.1 hfind
  obtain ⟨e', -, hrow, hlasting, -⟩ := h.rows _ row hget
  rw [(Event.reads_back hlasting).decode hrow] at hdecode
  cases hdecode
  exact Event.exists_row_iff.1 ⟨row, hrow⟩

/-- Events that are in step can all be read. -/
theorem Sound.event?_cases (h : Sound s) (id : UInt64) :
    event? id s = .ok none ∨ ∃ e : Event, event? id s = .ok (some e) ∧ e.id = id := by
  cases hget : s.events.get? (Event.key id) with
  | none => exact .inl (Store.find?_eq_ok_none.2 hget)
  | some row =>
    obtain ⟨e, hkey, hrow, hlasting, -⟩ := h.rows _ _ hget
    refine .inr ⟨e, ?_, (Event.key_injective hkey).symm⟩
    exact find?_eq_ok_some.2 ⟨row, hget, (Event.reads_back hlasting).decode hrow⟩

/-- A coherent event put under its number keeps the tables in step, if the index has the number
exactly when the event is pending. -/
theorem Sound.put (h : Sound s) {e : Event} {row : Bytes} (hrow : Stored.encode e = some row)
    (hlasting : e.Lasting) (hcoherent : e.Coherent)
    (hevents : s'.events = s.events.insert (Event.key e.id) row)
    (hindex : ∀ key, (s'.pending.get? key).isSome =
      if Event.key e.id = key then e.isPending else (s.pending.get? key).isSome) : Sound s' := by
  constructor
  case rows =>
    intro key row' hget
    rw [hevents, Table.get?_insert] at hget
    split at hget
    · next heq =>
      cases hget
      exact ⟨e, heq.symm, hrow, hlasting, hcoherent⟩
    · exact h.rows key row' hget
  case index =>
    intro key
    have hdecode := (Event.reads_back hlasting).decode hrow
    rw [hindex, eventAt, hevents, Store.find?_insert hdecode]
    by_cases heq : Event.key e.id = key
    · rw [if_pos heq, if_pos heq]
      refine ⟨fun hpending => ⟨e, rfl, hpending⟩, ?_⟩
      rintro ⟨_, ⟨⟩, hpending⟩
      exact hpending
    · rw [if_neg heq, if_neg heq]
      exact h.index key

theorem Sound.stamped (h : Sound s) {id : UInt64} {e : Event} {leaseEnd : Date} {row : Bytes}
    (hworker : Sized worker) (hfind : find? s.events (Event.key id) = .ok (some e))
    (hfree : e.isClaimable now = true) (hrow : Stored.encode (e.claim worker leaseEnd) = some row) :
    Sound (s.update .events (·.insert (Event.key e.id) row)) := by
  obtain ⟨hkey, hlasting, hcoherent⟩ := h.found hfind
  have hpending := Event.isPending_of_isClaimable hfree
  refine h.put hrow (hlasting.claim hworker _) (hcoherent.claim hfree _) rfl fun key => ?_
  split
  · next heq =>
    have heq : Event.key id = key := hkey.trans heq
    -- the event was pending before, so the index has it
    have hindexed := (h.index key).2 ⟨e, by rw [eventAt, ← heq]; exact hfind, hpending⟩
    exact hindexed.trans hpending.symm
  · rfl

theorem Sound.reported (h : Sound s) {id : UInt64} {e after : Event} {outcome : Outcome}
    {row : Bytes} (hreason : ∀ reason, outcome = .failed reason → Sized reason)
    (hfind : find? s.events (Event.key id) = .ok (some e))
    (hreport : Event.report now worker e outcome = some after)
    (hrow : Stored.encode after = some row) :
    Sound ((settle id outcome s).update .events (·.insert (Event.key after.id) row)) := by
  obtain ⟨hkey, hlasting, hcoherent⟩ := h.found hfind
  have hid := (report_notice hreport).1
  have hlasting' := hlasting.report hreason hreport
  have hcoherent' := hcoherent.report hreport
  obtain ⟨hpending, ⟨rfl, rfl⟩ | ⟨reason, rfl, -, rfl⟩⟩ := report_cases hreport
  · refine h.put hrow hlasting' hcoherent' rfl fun key => ?_
    show ((s.pending.erase (Event.key id)).get? key).isSome = _
    rw [Table.get?_erase, hkey, hid]
    split
    · rfl
    · rfl
  · refine h.put hrow hlasting' hcoherent' rfl fun key => ?_
    split
    · next heq =>
      rw [hid, ← hkey] at heq
      have hindexed := (h.index key).2 ⟨e, by rw [eventAt, ← heq]; exact hfind, hpending⟩
      exact hindexed.trans hpending.symm
    · rfl

theorem keptByStamps_sound (hworker : Sized worker) (leaseEnd : Date) :
    KeptByStamps Sound now worker leaseEnd :=
  fun _ _ _ _ hs hfind hfree hrow => hs.stamped hworker hfind hfree hrow

theorem keptByReports_sound {outcomes : List (UInt64 × Outcome)}
    (hreasons : ∀ o ∈ outcomes, ∀ reason, o.2 = .failed reason → Sized reason) :
    KeptByReports Sound now worker outcomes :=
  fun _ _ _ _ _ _ hmem hs hfind hreport hrow => hs.reported (hreasons _ hmem) hfind hreport hrow

/-! ## What the index is good for -/

/-- The events of a store in the order of their numbers. -/
structure Lists (s : Store) (es : List Event) : Prop where
  read : s.events.values.mapM Store.readRow = (.ok es : Except Fault (List Event))
  ascending : (es.map (·.id)).Pairwise (· < ·)
  found : ∀ e ∈ es, eventAt (Event.key e.id) s = .ok (some e)
  all : ∀ key e, eventAt key s = .ok (some e) → e ∈ es

/-- The rows of tables in step can all be read. -/
theorem Sound.exists_list (h : Sound s) : ∃ es, Lists s es := by
  have hread : ∀ row ∈ s.events.rows, ∃ e : Event,
      row.1 = Event.key e.id ∧ Store.readRow row.2 = .ok e := by
    intro row hmem
    obtain ⟨e, hkey, hrow, hlasting, -⟩ := h.rows _ _ (Table.get?_eq_some_iff.2 hmem)
    exact ⟨e, hkey, Store.readRow_ok.2 ((Event.reads_back hlasting).decode hrow)⟩
  obtain ⟨es, hes⟩ := exists_forall₂ hread
  refine ⟨es, ?_, ?_, ?_, ?_⟩
  · refine mapM_eq_ok ?_
    rw [Table.values, List.forall₂_map_left_iff]
    exact hes.imp fun _ _ hrow => hrow.2
  · have hkeys : es.map (fun e => Event.key e.id) = s.events.keys := by
      rw [Table.keys, ← List.forall₂_eq_eq_eq, List.forall₂_map_left_iff,
        List.forall₂_map_right_iff]
      exact hes.flip.imp fun _ _ hrow => hrow.1.symm
    have hsorted := List.pairwise_map.2 s.events.ascending
    rw [← Table.keys, ← hkeys, List.pairwise_map] at hsorted
    exact List.pairwise_map.2 (hsorted.imp Event.key_lt_iff.1)
  · intro e he
    obtain ⟨row, hmem, hkey, hrow⟩ := exists_of_forall₂ hes.flip e he
    rw [← hkey]
    exact find?_eq_ok_some.2 ⟨_, Table.get?_eq_some_iff.2 hmem, Store.readRow_ok.1 hrow⟩
  · intro key e hfind
    obtain ⟨row, hget, hdecode⟩ := find?_eq_ok_some.1 hfind
    obtain ⟨e', he', -, hrow⟩ := exists_of_forall₂ hes _ (Table.get?_eq_some_iff.1 hget)
    cases hrow.symm.trans (Store.readRow_ok.2 hdecode)
    exact he'

section

variable {es : List Event} (h : Sound s) (hes : Lists s es)
include h hes

/-- The index has the keys of the pending events in order. -/
theorem Sound.keys_eq :
    s.pending.keys = (es.filter Event.isPending).map fun e => Event.key e.id := by
  refine List.Pairwise.eq_of_mem_iff (List.pairwise_map.2 s.pending.ascending) ?_ fun key => ?_
  · have hsorted := List.pairwise_map.1 hes.ascending
    exact List.pairwise_map.2 ((hsorted.filter _).imp Event.key_lt_iff.2)
  · rw [← Table.isSome_get?_iff, h.index, List.mem_map]
    constructor
    · rintro ⟨e, hfind, hpending⟩
      exact ⟨e, List.mem_filter.2 ⟨hes.all _ _ hfind, hpending⟩, (h.found hfind).1.symm⟩
    · rintro ⟨e, he, rfl⟩
      obtain ⟨he, hpending⟩ := List.mem_filter.1 he
      exact ⟨e, hes.found e he, hpending⟩

theorem Sound.size_eq : s.pending.size = (es.filter Event.isPending).length := by
  have hlength := congrArg List.length (h.keys_eq hes)
  rw [Table.keys, List.length_map, List.length_map] at hlength
  exact hlength

/-- The pending events are read through the index in the order of their numbers. -/
theorem Sound.pending_eq (n : Nat) : pending n s = .ok ((es.filter Event.isPending).take n) := by
  have hread : (s.pending.keys.take n).mapM (eventAt · s) =
      .ok (((es.filter Event.isPending).take n).map some) := by
    refine mapM_eq_ok ?_
    rw [h.keys_eq hes, ← List.map_take, List.forall₂_map_left_iff, List.forall₂_map_right_iff,
      List.forall₂_same]
    intro e he
    exact hes.found e (List.mem_of_mem_filter (List.mem_of_mem_take he))
  rw [pending, hread]
  show Except.ok (List.filterMap id (List.map some _)) = _
  rw [List.filterMap_map, Function.id_comp, List.filterMap_some]

omit h in
theorem freeAmong_eq (now : Date) {waiting : List Event} (hsub : ∀ e ∈ waiting, e ∈ es)
    (limit : Nat) :
    freeAmong now s limit (waiting.map fun e => Event.key e.id) =
      .ok (((waiting.filter (Event.isClaimable now)).take limit).map (·.id)) := by
  induction waiting generalizing limit with
  | nil =>
    rw [List.filter_nil, List.take_nil]
    cases limit <;> rfl
  | cons e waiting ih =>
    obtain ⟨hfirst, hsub⟩ := List.forall_mem_cons.1 hsub
    have hfind := hes.found e hfirst
    cases limit with
    | zero => rfl
    | succ limit =>
      rw [List.map_cons, freeAmong, hfind]
      show (if e.isClaimable now = true then _ else _) = _
      split
      · next hfree =>
        rw [ih hsub, List.filter_cons_of_pos hfree]
        rfl
      · next hheld => rw [ih hsub, List.filter_cons_of_neg hheld]

omit h hes in
theorem filter_claimable (now : Date) (es : List Event) :
    (es.filter Event.isPending).filter (Event.isClaimable now) =
      es.filter (Event.isClaimable now) := by
  rw [List.filter_filter]
  refine List.filter_congr fun e _ => ?_
  rw [Event.isClaimable, Bool.and_right_comm, Bool.and_self]

/-- A look through the index finds the events that are free to be claimed. -/
theorem Sound.scan_eq (now : Date) (limit : Nat) :
    scan now limit s = .ok (((es.filter (Event.isClaimable now)).take limit).map (·.id)) := by
  rw [scan, h.keys_eq hes, ← filter_claimable]
  exact freeAmong_eq hes now (fun e he => List.mem_of_mem_filter he) limit

end

/-- Whoever looks for as many events as are pending finds every one that is free. -/
theorem Sound.scan_finds (h : Sound s) {key : Bytes} {e : Event}
    (hfind : eventAt key s = .ok (some e)) (hfree : e.isClaimable now = true) {limit : Nat}
    (hlimit : s.pending.size ≤ limit) : ∃ ids, scan now limit s = .ok ids ∧ e.id ∈ ids := by
  obtain ⟨es, hes⟩ := h.exists_list
  refine ⟨_, h.scan_eq hes now limit, List.mem_map.2 ⟨e, ?_, rfl⟩⟩
  have hfew : (es.filter (Event.isClaimable now)).length ≤ limit := by
    rw [← filter_claimable]
    refine (List.length_filter_le _ _).trans ?_
    rw [← h.size_eq hes]
    exact hlimit
  rw [List.take_of_length_le hfew]
  exact List.mem_filter.2 ⟨hes.all key e hfind, hfree⟩

end Outbox

/-! ## Runs -/

namespace Ledger

open Outbox (Event Sound)

theorem Draft.lasting_event (d : Draft) (now : Date) :
    (Event.fresh d.event MoveNotice.topic d.payload now).Lasting := by
  refine ⟨⟨?_, MoveNotice.sized_texts _ _ _, nofun, nofun⟩,
    ⟨Instant.isSettled_ofDate now, nofun, nofun⟩⟩
  show (Bytes.ofText "stock.moved").length < 2 ^ 64
  decide

/-- A committed move leaves a pending event, whatever was under its number. -/
theorem Draft.Writes.sound {d : Draft} {now : Date} {s s' : Store} (h : d.Writes now s s')
    (hs : Sound s) : Sound s' := by
  obtain ⟨row, hrow, hevents⟩ := h.events
  refine hs.put hrow (d.lasting_event now) (Event.coherent_fresh _ _ _ _) hevents fun key => ?_
  rw [h.pending, Table.get?_insert]
  show (if Event.key d.event = key then some [] else _).isSome =
    if Event.key d.event = key then true else _
  split
  · rfl
  · rfl

namespace Books

theorem sound_act {b : Books} (h : Sound b.store) {a : Action} (ha : a.Texts) :
    Sound (b.act a).store := by
  rcases act_events h (fun _ => h.of_tables)
    (fun _ hstamp => Outbox.keptByStamps_sound (ha.worker hstamp) _)
    (fun _ _ _ hrecorded => Outbox.keptByReports_sound fun o ho => ha.reason (hrecorded o ho))
    with ⟨_, _, d, -, hwrites, -⟩ | ⟨-, hs⟩
  · exact hwrites.sound h
  · exact hs

/-- Whatever the order of the steps of calls and workers, events and index are in step. -/
theorem sound_run {actions : List Action} (h : ∀ a ∈ actions, a.Texts) :
    Sound (opened.run actions).store :=
  run_invariant (P := fun b => Sound b.store) Outbox.sound_empty fun _ a ha hb =>
    sound_act hb (h a ha)

end Books

/-! ## The guarantee -/

/-- An action, or the report of a single outcome. -/
inductive Deed
  | act (a : Action)
  | markSent (now : Date) (worker : String) (id : UInt64)
  | markFailed (now : Date) (worker : String) (id : UInt64) (reason : String)

/-- The action that a deed amounts to. -/
def Deed.action : Deed → Action
  | act a => a
  | markSent now worker id => .complete now worker [(id, .sent)]
  | markFailed now worker id reason => .complete now worker [(id, .failed reason)]

namespace Books

/-- The books after a deed. -/
def perform (b : Books) : Deed → Books
  | .act a => b.act a
  | .markSent now worker id => { b with store := (Outbox.markSent now worker id b.store).2 }
  | .markFailed now worker id reason =>
    { b with store := (Outbox.markFailed now worker id reason b.store).2 }

theorem foldl_perform (b : Books) (deeds : List Deed) :
    deeds.foldl perform b = b.run (deeds.map Deed.action) := by
  rw [run, List.foldl_map]
  congr 1
  funext b deed
  cases deed <;> rfl

end Books

end Ledger

namespace Outbox

open Ledger (Books Action Deed)

/-- What is promised of the events and of the index of those that have not been sent. -/
structure InStep (s : Store) : Prop where
  /-- Every row can be read and is under the number of its event. -/
  rows : ∀ key row, s.events.get? key = some row →
    ∃ e : Event, Stored.decode row = some e ∧ key = Event.key e.id ∧ e.Coherent
  /-- The index has the keys of the events that have not been sent, and no others. -/
  index : ∀ key, (s.pending.get? key).isSome ↔
    ∃ e : Event, eventAt key s = .ok (some e) ∧ e.sentAt = none
  /-- So the pending events are the first ones that have not been sent, in the order of their
  numbers, and as many as the index has keys. -/
  listed : ∃ es : List Event,
    s.events.values.mapM Store.readRow = (.ok es : Except Fault (List Event)) ∧
    (es.map (·.id)).Pairwise (· < ·) ∧
    (∀ n, pending n s = .ok ((es.filter (·.sentAt.isNone)).take n)) ∧
    s.pending.size = (es.filter (·.sentAt.isNone)).length

/-- Whatever calls, workers and the host did, and whatever they reported, the events and the index
are in step. -/
theorem outbox_in_step {deeds : List Deed} (h : ∀ deed ∈ deeds, deed.action.Texts) :
    InStep (deeds.foldl Books.perform .opened).store := by
  have hsound : Sound (deeds.foldl Books.perform .opened).store := by
    rw [Books.foldl_perform]
    exact Books.sound_run (List.forall_mem_map.2 h)
  generalize (deeds.foldl Books.perform .opened).store = s at hsound ⊢
  constructor
  case rows =>
    intro key row hget
    obtain ⟨e, hkey, hrow, hlasting, hcoherent⟩ := hsound.rows key row hget
    exact ⟨e, (Event.reads_back hlasting).decode hrow, hkey, hcoherent⟩
  case index =>
    intro key
    rw [hsound.index]
    simp only [Event.isPending, Option.isNone_iff_eq_none]
  case listed =>
    obtain ⟨es, hes⟩ := hsound.exists_list
    exact ⟨es, hes.read, hes.ascending, hsound.pending_eq hes, hsound.size_eq hes⟩

/-! ### Two events -/

/-- Two moves are committed and both events are claimed. One is reported as failed twice and by a
stranger, the other as sent, and so is one that does not exist. -/
def twoEvents : List Deed :=
  [.act (.consider (.plain "a" "5" 2 3) (.fresh 0 5) ⟨0⟩), .act (.commit 0 ⟨1⟩), .act .reopen,
    .act (.consider (.plain "b" "6" 2 3) (.fresh 0 6) ⟨2⟩), .act (.commit 0 ⟨2⟩),
    .act (.claim ⟨3⟩ ⟨4⟩ "worker" 8 (.ofSecs 60)), .markFailed ⟨5⟩ "stranger" 0 "down",
    .act (.complete ⟨6⟩ "worker" [(0, .failed "down"), (0, .failed "down"), (7, .sent)]),
    .markSent ⟨7⟩ "worker" 2000000]

theorem outbox_in_step_twoEvents : InStep (twoEvents.foldl Books.perform .opened).store ∧
    (pending 8 (twoEvents.foldl Books.perform .opened).store).map (·.map (·.attempts)) =
      .ok [1] := by
  have hsized : Sized "worker" ∧ Sized "down" := by
    simp only [Sized]
    decide
  obtain ⟨hworker, hdown⟩ := hsized
  have htexts : ∀ deed ∈ twoEvents, deed.action.Texts := by
    simp only [twoEvents, List.forall_mem_cons]
    have hfailed := Outcome.texts_failed hdown
    refine ⟨trivial, trivial, trivial, trivial, trivial, hworker,
      List.forall_mem_singleton.2 hfailed,
      List.forall_mem_cons.2 ⟨hfailed, List.forall_mem_cons.2 ⟨hfailed, ?_⟩⟩,
      List.forall_mem_singleton.2 Outcome.texts_sent, List.forall_mem_nil _⟩
    exact List.forall_mem_singleton.2 Outcome.texts_sent
  exact ⟨outbox_in_step htexts, by decide +kernel⟩

end Outbox

end Stockroom
