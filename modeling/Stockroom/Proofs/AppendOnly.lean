import Stockroom.Proofs.Attempts
import Stockroom.Proofs.PassSteps
import Stockroom.Proofs.Replays

/-!
# Rows that are only added

Every kind of row has one writer. Calls add rows of the ledger, audit entries, receipts and events,
and change two balances; workers change events, and of an event only how it fares. A call writes
under an identifier, two numbers and a key that nobody had before it, so nothing that was written
before is written over. What an event says, a committed move and a receipt stay for ever.

Results:
1. `Outbox.stamp_outboxOnly` and `Outbox.complete_outboxOnly`: workers move events on, and change
   nothing else.
2. `Relay.pass_moved`: so does a whole pass, except for what others do in the meantime.
3. `Books.Proper.unwritten`: nothing is yet where a draft that waits will be written.
4. `Books.Proper.commit` and `Books.Proper.post`: so calls add rows, and change two balances.
5. `append_only`: the guarantee.
-/
namespace Stockroom

open Store (find? find?_eq_ok_none)

/-! ## Tables that grow -/

/-- Every row of one table is in the other. -/
def Table.Extends (t t' : Table) : Prop :=
  ∀ key row, t.get? key = some row → t'.get? key = some row

theorem Table.Extends.refl (t : Table) : t.Extends t := fun _ _ h => h

theorem Table.Extends.of_eq {t t' : Table} (h : t' = t) : t.Extends t' := h ▸ .refl t

theorem Table.Extends.trans {t t' t'' : Table} (h : t.Extends t') (h' : t'.Extends t'') :
    t.Extends t'' :=
  fun key row hget => h' key row (h key row hget)

theorem Table.extends_insert {t : Table} {key : Bytes} (hnew : t.get? key = none) (row : Bytes) :
    t.Extends (t.insert key row) := by
  intro k row' hget
  rw [get?_insert]
  split
  · next heq =>
    rw [← heq, hnew] at hget
    cases hget
  · exact hget

/-! ## What workers do -/

namespace Outbox

variable {s s' s'' : Store} {now leaseEnd : Date} {worker : String}

/-- One event later on: it says the same, has failed as often at least, and if it was sent, it was
sent then. -/
structure Event.Advances (e e' : Event) : Prop where
  id : e'.id = e.id
  topic : e'.topic = e.topic
  payload : e'.payload = e.payload
  createdAt : e'.createdAt = e.createdAt
  attempts : e.attempts ≤ e'.attempts
  sent : ∀ t, e.sentAt = some t → e'.sentAt = some t

theorem Event.Advances.refl (e : Event) : e.Advances e :=
  ⟨rfl, rfl, rfl, rfl, UInt32.le_refl _, fun _ h => h⟩

theorem Event.Advances.trans {e e' e'' : Event} (h : e.Advances e') (h' : e'.Advances e'') :
    e.Advances e'' :=
  ⟨h'.id.trans h.id, h'.topic.trans h.topic, h'.payload.trans h.payload,
    h'.createdAt.trans h.createdAt, UInt32.le_trans h.attempts h'.attempts,
    fun t ht => h'.sent t (h.sent t ht)⟩

theorem Event.advances_claim (e : Event) (worker : String) (leaseEnd : Date) :
    e.Advances (e.claim worker leaseEnd) :=
  ⟨rfl, rfl, rfl, rfl, UInt32.le_refl _, fun _ h => h⟩

theorem attempts_le_failed (reason : String) (e : Event) :
    e.attempts ≤ (e.failed reason).attempts := by
  rw [UInt32.le_iff_toNat_le, toNat_attempts_failed]
  exact Nat.le_min.2 ⟨Nat.le_succ _, Nat.le_pred_of_lt e.attempts.toNat_lt⟩

theorem Event.advances_report {e after : Event} {outcome : Outcome}
    (h : Event.report now worker e outcome = some after) : e.Advances after := by
  obtain ⟨hpending, hafter⟩ := report_cases h
  have hunsent : ∀ t, e.sentAt = some t → after.sentAt = some t := by
    intro t ht
    rw [Event.isPending, ht] at hpending
    cases hpending
  obtain ⟨-, rfl⟩ | ⟨reason, -, -, rfl⟩ := hafter
  · exact ⟨rfl, rfl, rfl, rfl, UInt32.le_refl _, hunsent⟩
  · exact ⟨rfl, rfl, rfl, rfl, attempts_le_failed reason e, hunsent⟩

/-- Every event is still there, if later on. -/
def Advance (s s' : Store) : Prop :=
  ∀ id e, event? id s = .ok (some e) → Has s' id e.Advances

theorem Advance.of_events (h : s'.events = s.events) : Advance s s' :=
  fun _ e hfind => Has.of_events ⟨e, hfind, .refl e⟩ h

theorem Advance.trans (h : Advance s s') (h' : Advance s' s'') : Advance s s'' := by
  intro id e hfind
  obtain ⟨e', hfind', hadvances⟩ := h id e hfind
  obtain ⟨e'', hfind'', hadvances'⟩ := h' id e' hfind'
  exact ⟨e'', hfind'', hadvances.trans hadvances'⟩

/-- From one store to the next, events have moved on, and nothing else has changed. -/
structure OutboxOnly (s s' : Store) : Prop extends SameLedger s s' where
  events : Advance s s'
  others : ∀ key, (s'.events.get? key).isSome = (s.events.get? key).isSome

theorem OutboxOnly.refl (s : Store) : OutboxOnly s s :=
  ⟨.refl s, .of_events rfl, fun _ => rfl⟩

theorem OutboxOnly.trans (h : OutboxOnly s s') (h' : OutboxOnly s' s'') : OutboxOnly s s'' :=
  ⟨⟨h'.moves.trans h.moves, h'.balances.trans h.balances, h'.receipts.trans h.receipts,
    h'.audit.trans h.audit, h'.counter.trans h.counter⟩, h.events.trans h'.events,
    fun key => (h'.others key).trans (h.others key)⟩

theorem isSome_insert_found {t : Table} {key row : Bytes} {e : Event}
    (hfind : find? t key = .ok (some e)) (k : Bytes) :
    ((t.insert key row).get? k).isSome = (t.get? k).isSome := by
  obtain ⟨old, hget, -⟩ := Store.find?_eq_ok_some.1 hfind
  rw [Table.get?_insert]
  split
  · next heq =>
    rw [← heq, hget]
    rfl
  · rfl

theorem keptByStamps_outboxOnly (hworker : Sized worker) (leaseEnd : Date) (s : Store) :
    KeptByStamps (fun s' => Sound s' ∧ OutboxOnly s s') now worker leaseEnd := by
  rintro s' e row id ⟨hs, h⟩ hfind hfree hrow
  obtain ⟨hkey, -⟩ := hs.found hfind
  refine ⟨hs.stamped hworker hfind hfree hrow, h.toSameLedger.update_events _,
    fun other before hbefore => ?_, fun key => ?_⟩
  · exact (h.events other before hbefore).stamped hs hworker hfind hrow fun _ hadvances =>
      hadvances.trans (Event.advances_claim e _ _)
  · rw [hkey] at hfind
    exact (isSome_insert_found hfind key).trans (h.others key)

theorem keptByReports_outboxOnly {outcomes : List (UInt64 × Outcome)}
    (hreasons : ∀ o ∈ outcomes, ∀ reason, o.2 = .failed reason → Sized reason) (s : Store) :
    KeptByReports (fun s' => Sound s' ∧ OutboxOnly s s') now worker outcomes := by
  rintro s' e after row id outcome hmem ⟨hs, h⟩ hfind hreport hrow
  obtain ⟨hkey, -⟩ := hs.found hfind
  have hreason := hreasons _ hmem
  refine ⟨hs.reported hreason hfind hreport hrow, (h.toSameLedger.settle _ _).update_events _,
    fun other before hbefore => ?_, fun key => ?_⟩
  · exact (h.events other before hbefore).reported hs hreason hfind hreport hrow
      fun _ hadvances => hadvances.trans (Event.advances_report hreport)
  · rw [hkey, ← (report_notice hreport).1] at hfind
    show (((settle id outcome s').events.insert _ row).get? key).isSome = _
    rw [settle_events]
    exact (isSome_insert_found hfind key).trans (h.others key)

theorem stamp_outboxOnly (hs : Sound s) (hworker : Sized worker) (lease : Duration)
    (ids : List UInt64) :
    Sound (stamp now worker lease ids s).2 ∧ OutboxOnly s (stamp now worker lease ids s).2 :=
  stamp_invariant (keptByStamps_outboxOnly hworker _ s) ids ⟨hs, .refl s⟩

theorem claim_outboxOnly (hs : Sound s) (hworker : Sized worker) (seen stamped : Date)
    (limit : Nat) (lease : Duration) :
    OutboxOnly s (claim seen stamped worker limit lease s).2 :=
  (claim_invariant (keptByStamps_outboxOnly hworker _ s) limit ⟨hs, .refl s⟩).2

theorem complete_outboxOnly (hs : Sound s) {outcomes : List (UInt64 × Outcome)}
    (hreasons : ∀ o ∈ outcomes, ∀ reason, o.2 = .failed reason → Sized reason) :
    Sound (complete now worker outcomes s).2 ∧ OutboxOnly s (complete now worker outcomes s).2 :=
  complete_invariant (keptByReports_outboxOnly hreasons s) ⟨hs, .refl s⟩

end Outbox

/-! ## What a pass does -/

namespace Relay

open Outbox (Sound OutboxOnly)
open Relation (ReflTransGen)

variable {β δ : Type} {s s' : Store} {worker : String} {planned : List (Appointment δ)}

/-- Somebody leaves events and their index in step. -/
def Appointment.KeepsSound (a : Appointment δ) : Prop :=
  ∀ s diary, Sound s → Sound (a.act s diary).1

/-- From one store to the next, events have moved on and nothing else has changed, or an
appointment was kept. -/
def Moved (planned : List (Appointment δ)) (s s' : Store) : Prop :=
  OutboxOnly s s' ∨ ∃ a ∈ planned, ∃ diary, s' = (a.act s diary).1

theorem Effect.moved (hworker : Sized worker) (hkept : ∀ a ∈ planned, a.KeepsSound) (hs : Sound s)
    (h : Effect worker planned s s') : Sound s' ∧ Moved planned s s' := by
  cases h with
  | stamp now lease ids =>
    exact (Outbox.stamp_outboxOnly hs hworker lease ids).imp_right .inl
  | complete now hreasons =>
    exact (Outbox.complete_outboxOnly hs hreasons).imp_right .inl
  | keep ha diary => exact ⟨hkept _ ha s diary hs, .inr ⟨_, ha, diary, rfl⟩⟩

theorem effects_moved (hworker : Sized worker) (hkept : ∀ a ∈ planned, a.KeepsSound) (hs : Sound s)
    (h : ReflTransGen (Effect worker planned) s s') :
    Sound s' ∧ ReflTransGen (Moved planned) s s' := by
  induction h with
  | refl => exact ⟨hs, .refl⟩
  | tail _ hlast ih =>
    obtain ⟨hs', hmoved⟩ := hlast.moved hworker hkept ih.1
    exact ⟨hs', ih.2.tail hmoved⟩

/-- When nobody has an appointment, nothing but events has changed. -/
theorem outboxOnly_of_moved (h : ReflTransGen (Moved ([] : List (Appointment δ))) s s') :
    OutboxOnly s s' := by
  induction h with
  | refl => exact .refl s
  | tail _ hlast ih =>
    rcases hlast with hlast | ⟨a, ha, -⟩
    · exact ih.trans hlast
    · cases ha

variable [Broker β] {worker : Worker} {w : World β δ}

theorem pass_moved (hwords : WellSpoken β) (hworker : Sized worker.id) (hs : Sound w.store)
    (hkept : ∀ a ∈ w.agenda, a.KeepsSound) (b : Backoff) :
    ReflTransGen (Moved w.agenda) w.store (worker.pass b w).2.2.store :=
  (effects_moved hworker hkept hs (Comes.pass hwords b (List.Subset.refl _)).store).2

theorem pass_outboxOnly (hwords : WellSpoken β) (hworker : Sized worker.id) (hs : Sound w.store)
    (halone : w.agenda = []) (b : Backoff) : OutboxOnly w.store (worker.pass b w).2.2.store := by
  refine outboxOnly_of_moved (δ := δ) ?_
  rw [← halone]
  exact pass_moved hwords hworker hs (by rw [halone]; exact nofun) b

end Relay

/-! ## What calls do -/

namespace Ledger

open Outbox (Event OutboxOnly event?)
open Relay (Backoff Moved WellSpoken Worker World)
open Relation (ReflTransGen)

variable {s s' s'' : Store} {c : Call} {d : Draft} {now : Date}

/-- A balance that a call may change: that of its item at one of its two locations. -/
def Call.Touches (c : Call) (key : Bytes) : Prop :=
  ∃ valid, c.request.validate = .ok valid ∧
    (key = Balance.key valid.item valid.origin ∨ key = Balance.key valid.item valid.destination)

/-- From one store to the next, rows were added and the two balances of a call have changed, and
nothing else. -/
structure AddsOnly (c : Call) (s s' : Store) : Prop where
  moves : s.moves.Extends s'.moves
  events : s.events.Extends s'.events
  pending : s.pending.Extends s'.pending
  receipts : s.receipts.Extends s'.receipts
  audit : s.audit.Extends s'.audit
  balances : ∀ key, ¬ c.Touches key → s'.balances.get? key = s.balances.get? key

theorem AddsOnly.of_sameTables (h : SameTables s s') : AddsOnly c s s' :=
  ⟨.of_eq (h .moves), .of_eq (h .events), .of_eq (h .pending), .of_eq (h .receipts),
    .of_eq (h .audit), fun key _ => congrArg (·.get? key) (h .balances)⟩

theorem AddsOnly.trans (h : AddsOnly c s s') (h' : AddsOnly c s' s'') : AddsOnly c s s'' :=
  ⟨h.moves.trans h'.moves, h.events.trans h'.events, h.pending.trans h'.pending,
    h.receipts.trans h'.receipts, h.audit.trans h'.audit,
    fun key hkey => (h'.balances key hkey).trans (h.balances key hkey)⟩

theorem Shifted.get?_other {change : Quantity → Quantity → Option Quantity} {q : Quantity}
    {item location : Identifier} {t t' : Table} (h : Shifted change item location q t t')
    {key : Bytes} (hne : Balance.key item location ≠ key) : t'.get? key = t.get? key := by
  obtain ⟨b, onHand, row, -, -, -, rfl⟩ := h
  rw [Table.get?_insert, if_neg hne]

/-- A committed move changes no balance but the two that its call may change. -/
theorem Draft.Writes.balance_other (h : d.Writes now s s') (hd : d.Genuine) {key : Bytes}
    (hkey : ¬ d.call.Touches key) : s'.balances.get? key = s.balances.get? key := by
  obtain ⟨valid, hvalid, hmove⟩ := hd.read
  obtain ⟨t, hsub, hadd⟩ := h.balances
  rw [hmove] at hsub hadd
  have horigin : Balance.key valid.item valid.origin ≠ key :=
    fun heq => hkey ⟨valid, hvalid, .inl heq.symm⟩
  have hdestination : Balance.key valid.item valid.destination ≠ key :=
    fun heq => hkey ⟨valid, hvalid, .inr heq.symm⟩
  exact (hadd.get?_other hdestination).trans (hsub.get?_other horigin)

/-- Nothing is yet where a draft will be written, unless it be a receipt. -/
structure Draft.Unwritten (d : Draft) (s : Store) : Prop where
  move : s.moves.get? d.move.id.bytes = none
  event : s.events.get? (Event.key d.event) = none
  pending : s.pending.get? (Event.key d.event) = none
  audit : s.audit.get? (AuditEntry.key d.auditNumber) = none

theorem Draft.Writes.addsOnly (h : d.Writes now s s') (hd : d.Genuine) (hnew : d.Unwritten s)
    (hfirst : find? s.receipts d.call.receiptKey = (.ok none : Except Fault (Option Receipt))) :
    AddsOnly d.call s s' := by
  constructor
  case moves =>
    rw [h.moves]
    exact Table.extends_insert hnew.move _
  case events =>
    obtain ⟨row, -, hevents⟩ := h.events
    rw [hevents]
    exact Table.extends_insert hnew.event _
  case pending =>
    rw [h.pending]
    exact Table.extends_insert hnew.pending _
  case receipts =>
    obtain ⟨row, -, hreceipts⟩ := h.receipts
    rw [hreceipts]
    exact Table.extends_insert (find?_eq_ok_none.1 hfirst) _
  case audit =>
    rw [h.audit]
    cases Stored.encode d.auditEntry with
    | none => exact .refl _
    | some row => exact Table.extends_insert hnew.audit _
  case balances => exact fun key => h.balance_other hd

namespace Books

/-! ### Audit entries -/

/-- Every draft has a number of its own for its audit entry, and there are entries for committed
moves only. -/
structure Audited (b : Books) : Prop where
  distinct : (b.admitted.map (·.auditNumber)).Nodup
  gave : ∀ d ∈ b.admitted, b.store.counter.Gave d.auditNumber
  owned : ∀ key, (b.store.audit.get? key).isSome →
    ∃ p ∈ b.posted, AuditEntry.key p.draft.auditNumber = key

theorem audited_opened : opened.Audited := ⟨.nil, nofun, nofun⟩

theorem Audited.act {b : Books} (h : b.Audited) (hordered : b.store.counter.Ordered) {a : Action}
    (hfits : (b.act a).store.counter.Fits) : (b.act a).Audited := by
  have htaken : ∀ d : Draft, d.PreparedFrom b.store → (twoTaken b.store).counter.Fits →
      b.store.counter.next ≤ d.auditNumber.toNat ∧
        (twoTaken b.store).counter.Gave d.auditNumber := by
    intro d hprepared hfits
    obtain ⟨-, hnumber⟩ := hprepared.numbers hfits
    exact ⟨hnumber ▸ Nat.le_succ _, _, rfl, Nat.le_of_eq hnumber⟩
  obtain ⟨hdistinct, hgave⟩ := numbers_act hordered h.distinct h.gave htaken hfits
  refine ⟨hdistinct, hgave, fun key hsome => ?_⟩
  rcases act_posts b a with ⟨place, now, d, -, -, hwrites, -, hposted⟩ | ⟨hposted, hrows⟩
  · rw [hposted]
    have hearlier (hsome : (b.store.audit.get? key).isSome) :
        ∃ p ∈ b.posted ++ [⟨d, now⟩], AuditEntry.key p.draft.auditNumber = key := by
      obtain ⟨p, hp, hkey⟩ := h.owned key hsome
      exact ⟨p, List.mem_append_left _ hp, hkey⟩
    rw [hwrites.audit] at hsome
    cases hrow : Stored.encode d.auditEntry with
    | none =>
      rw [hrow] at hsome
      exact hearlier hsome
    | some row =>
      rw [hrow, Option.elim_some, Table.get?_insert] at hsome
      split at hsome
      · next heq => exact ⟨⟨d, now⟩, List.mem_append_right _ (List.mem_singleton_self _), heq⟩
      · exact hearlier hsome
  · rw [hposted]
    rw [hrows.audit] at hsome
    exact h.owned key hsome

/-- So it is after any run in which the numbers fit. -/
theorem audited_run {actions : List Action} (hfits : (opened.run actions).store.counter.Fits) :
    (opened.run actions).Audited := by
  induction actions using List.reverseRecOn with
  | nil => exact audited_opened
  | append_singleton actions a ih =>
    rw [run_append] at hfits ⊢
    have hordered := ordered_run actions
    exact (ih (fits_of_run hordered hfits)).act hordered hfits

/-! ### Commitments -/

/-- A run whose texts can be stored and whose numbers fit, where every call brings an identifier of
its own. -/
structure Proper (actions : List Action) : Prop where
  texts : ∀ a ∈ actions, a.Texts
  ids : (actions.filterMap Action.id?).Nodup
  fits : (opened.run actions).store.counter.Fits

theorem Proper.before {before after : List Action} (h : Proper (before ++ after)) :
    Proper before := by
  obtain ⟨htexts, hids, hfits⟩ := h
  rw [List.filterMap_append] at hids
  rw [run_append] at hfits
  exact ⟨(List.forall_mem_append.1 htexts).1, (List.nodup_append'.1 hids).1,
    fits_of_run (ordered_run before) hfits⟩

variable {actions : List Action}

/-- Nothing is yet where a draft that waits will be written. -/
theorem Proper.unwritten (h : Proper actions) {place : Nat}
    (hplace : (opened.run actions).drafts[place]? = some d) :
    d.Unwritten (opened.run actions).store := by
  have hlinked := linked_run h.texts h.fits
  have haudited := audited_run h.fits
  have hmove := unfiled_run h.ids hplace
  generalize opened.run actions = b at hplace hlinked haudited hmove ⊢
  have hevent : b.store.events.get? (Event.key d.event) = none := by
    rw [← Option.not_isSome_iff_eq_none]
    intro hsome
    obtain ⟨p, hp, hkey⟩ := hlinked.notices.owned _ hsome
    exact waiting_ne hlinked.distinct hplace p hp (Event.key_injective hkey)
  constructor
  case move => exact hmove
  case event => exact hevent
  case pending =>
    -- what is pending is an event, and there is none under this number
    rw [← Option.not_isSome_iff_eq_none, hlinked.notices.sound.index]
    rintro ⟨e, hfind, -⟩
    rw [Outbox.eventAt, find?_eq_ok_none.2 hevent] at hfind
    cases hfind
  case audit =>
    rw [← Option.not_isSome_iff_eq_none]
    intro hsome
    obtain ⟨p, hp, hkey⟩ := haudited.owned _ hsome
    exact waiting_ne haudited.distinct hplace p hp (AuditEntry.key_injective hkey)

/-- A commitment only adds rows, apart from the balances of its call. -/
theorem Proper.commit (h : Proper actions) {place : Nat}
    (hplace : (opened.run actions).drafts[place]? = some d) (now : Date) :
    AddsOnly d.call (opened.run actions).store ((opened.run actions).commit place now).store := by
  have hcalls : (opened.run actions).OfCalls fun _ => True := ofCalls_run fun _ _ _ _ => trivial
  obtain ⟨hgenuine, -⟩ := hcalls.drafts d (List.mem_of_getElem? hplace)
  have hnew := h.unwritten hplace
  generalize opened.run actions = b at hplace hnew ⊢
  have hstep := commit_step place now b
  generalize b.commit place now = b' at hstep ⊢
  cases hstep with
  | committed hplace' hwrites hfirst =>
    cases hplace.symm.trans hplace'
    exact hwrites.addsOnly hgenuine hnew hfirst
  | late | failed | absent => exact .of_sameTables fun _ => rfl

theorem consider_tables (b : Books) (c : Call) (id : Identifier) (now : Date) :
    SameTables b.store (b.consider c id now).store := by
  have hstep := consider_step c id now b
  generalize b.consider c id now = b' at hstep ⊢
  cases hstep with
  | drafted => exact (counter_twoTaken_or (.inr rfl)).1
  | found => exact fun _ => rfl
  | refused hs => exact (counter_twoTaken_or hs).1

/-- If a call is admitted with a draft, that is the last one. -/
theorem call_of_consider {b : Books} {id : Identifier}
    (hlast : (b.consider c id now).drafts[b.drafts.length]? = some d) : d.call = c := by
  have hstep := consider_step c id now b
  generalize b.consider c id now = b' at hlast hstep
  cases hstep with
  | drafted hprepared hcall hid hnow =>
    rw [List.getElem?_concat_length] at hlast
    cases hlast
    exact hcall
  | found | refused =>
    have hlast : b.drafts[b.drafts.length]? = some d := hlast
    rw [List.getElem?_length] at hlast
    cases hlast

/-- A call that brings a new identifier is as good as any before it. -/
theorem Proper.consider (h : Proper actions) {id : Identifier}
    (hid : id ∉ actions.filterMap Action.id?)
    (hfits : ((opened.run actions).consider c id now).store.counter.Fits) :
    Proper (actions ++ [.consider c id now]) := by
  constructor
  case texts => exact List.forall_mem_append.2 ⟨h.texts, List.forall_mem_singleton.2 trivial⟩
  case ids =>
    rw [List.filterMap_append]
    exact List.nodup_append'.2 ⟨h.ids, List.nodup_singleton _, List.disjoint_singleton.2 hid⟩
  case fits =>
    rw [run_append]
    exact hfits

/-- A whole call only adds rows as well, if it brings a new identifier and its numbers fit. -/
theorem Proper.post (h : Proper actions) {id : Identifier}
    (hid : id ∉ actions.filterMap Action.id?)
    (hfits : (Ledger.post c id now (opened.run actions).store).2.counter.Fits) :
    AddsOnly c (opened.run actions).store
      (Ledger.post c id now (opened.run actions).store).2 := by
  rw [← store_call] at hfits ⊢
  have hsame := consider_tables (opened.run actions) c id now
  have hordered := ordered_act (ordered_run actions) (.consider c id now)
  have hadmitted := h.consider hid
    (fits_of_run hordered (show (run _ [.commit _ now]).store.counter.Fits from hfits))
  have hrun : opened.run (actions ++ [.consider c id now]) =
      (opened.run actions).consider c id now := run_append _ _ _
  refine (AddsOnly.of_sameTables hsame).trans ?_
  cases hlast :
      ((opened.run actions).consider c id now).drafts[(opened.run actions).drafts.length]? with
  | none =>
    rw [Books.commit, hlast]
    exact .of_sameTables fun _ => rfl
  | some d =>
    have hcall := call_of_consider hlast
    rw [← hrun] at hlast ⊢
    exact hcall ▸ hadmitted.commit hlast now

end Books

/-! ## What stays for ever -/

/-- Rows of the ledger, receipts and audit entries are still there, and so are events, if later
on. -/
structure Remembers (s s' : Store) : Prop where
  moves : s.moves.Extends s'.moves
  receipts : s.receipts.Extends s'.receipts
  audit : s.audit.Extends s'.audit
  events : Outbox.Advance s s'

theorem Remembers.trans (h : Remembers s s') (h' : Remembers s' s'') : Remembers s s'' :=
  ⟨h.moves.trans h'.moves, h.receipts.trans h'.receipts, h.audit.trans h'.audit,
    h.events.trans h'.events⟩

theorem AddsOnly.remembers (h : AddsOnly c s s') : Remembers s s' := by
  refine ⟨h.moves, h.receipts, h.audit, fun id e hfind => ⟨e, ?_, .refl e⟩⟩
  obtain ⟨row, hget, hdecode⟩ := Store.find?_eq_ok_some.1 hfind
  exact Store.find?_eq_ok_some.2 ⟨row, h.events _ row hget, hdecode⟩

theorem remembers_of_outboxOnly (h : OutboxOnly s s') : Remembers s s' :=
  ⟨.of_eq h.moves, .of_eq h.receipts, .of_eq h.audit, h.events⟩

theorem remembers_of_sameTables (h : SameTables s s') : Remembers s s' :=
  ⟨.of_eq (h .moves), .of_eq (h .receipts), .of_eq (h .audit), .of_events (h .events)⟩

namespace Books

variable {actions : List Action}

/-- Every action leaves what stays for ever. -/
theorem Proper.remembers_act (h : Proper actions) {a : Action} (ha : a.Texts) :
    Remembers (opened.run actions).store ((opened.run actions).act a).store := by
  have hs := sound_run h.texts
  cases a with
  | consider c id now => exact remembers_of_sameTables (consider_tables _ c id now)
  | commit place now =>
    cases hplace : (opened.run actions).drafts[place]? with
    | none =>
      rw [act, Books.commit, hplace]
      exact remembers_of_sameTables fun _ => rfl
    | some d => exact (h.commit hplace now).remembers
  | stamp now worker lease ids =>
    exact remembers_of_outboxOnly (Outbox.stamp_outboxOnly hs ha lease ids).2
  | claim seen stamped worker limit lease =>
    exact remembers_of_outboxOnly (Outbox.claim_outboxOnly hs ha seen stamped limit lease)
  | complete now worker outcomes =>
    exact remembers_of_outboxOnly (Outbox.complete_outboxOnly hs ha).2
  | reopen => exact remembers_of_sameTables fun name => by cases name <;> rfl

/-- So does the rest of a run. -/
theorem Proper.remembers {before after : List Action} (h : Proper (before ++ after)) :
    Remembers (opened.run before).store (opened.run (before ++ after)).store := by
  induction after using List.reverseRecOn with
  | nil =>
    rw [List.append_nil]
    exact remembers_of_sameTables fun _ => rfl
  | append_singleton after a ih =>
    rw [← List.append_assoc] at h ⊢
    have ha := h.texts a (List.mem_append_right _ (List.mem_singleton_self a))
    rw [run_append]
    exact (ih h.before).trans (h.before.remembers_act ha)

/-! ## The guarantee -/

/-- What is promised of the rows after a run. -/
structure AppendOnly (actions : List Action) : Prop where
  /-- Workers move events on, and change nothing else. -/
  stamp : ∀ now worker lease ids, Sized worker → OutboxOnly (opened.run actions).store
    (Outbox.stamp now worker lease ids (opened.run actions).store).2
  claim : ∀ seen stamped worker limit lease, Sized worker → OutboxOnly (opened.run actions).store
    (Outbox.claim seen stamped worker limit lease (opened.run actions).store).2
  complete : ∀ now worker outcomes, (Action.complete now worker outcomes).Texts →
    OutboxOnly (opened.run actions).store
      (Outbox.complete now worker outcomes (opened.run actions).store).2
  /-- Nor does a whole pass change anything else, whatever the broker says and however long it
  takes, -/
  pass : ∀ (β δ : Type) [Broker β] (worker : Worker) (backoff : Backoff) (w : World β δ),
    WellSpoken β → Sized worker.id → w.store = (opened.run actions).store → w.agenda = [] →
    OutboxOnly w.store (worker.pass backoff w).2.2.store
  /-- except for what others do in the meantime. -/
  pass_among : ∀ (β δ : Type) [Broker β] (worker : Worker) (backoff : Backoff) (w : World β δ),
    WellSpoken β → Sized worker.id → w.store = (opened.run actions).store →
    (∀ a ∈ w.agenda, a.KeepsSound) →
    ReflTransGen (Moved w.agenda) w.store (worker.pass backoff w).2.2.store
  /-- A call adds rows and changes its two balances, and nothing else. -/
  call : ∀ c id now, id ∉ actions.filterMap Action.id? →
    (Ledger.post c id now (opened.run actions).store).2.counter.Fits →
    AddsOnly c (opened.run actions).store (Ledger.post c id now (opened.run actions).store).2
  /-- When others come between its two steps, the first changes no table, -/
  admission : ∀ c id now, SameTables (opened.run actions).store
    (Ledger.consider c id now (opened.run actions).store).2
  /-- and the second does what the whole call would. -/
  commitment : ∀ d ∈ (opened.run actions).drafts, ∀ now, AddsOnly d.call
    (opened.run actions).store (Ledger.commit d now (opened.run actions).store).2
  /-- What was there at any time before is there still. Events are further on, and say the same. -/
  forever : ∀ before after, actions = before ++ after →
    Remembers (opened.run before).store (opened.run actions).store

end Books

/-- Whatever the order of the steps, rows are only added, but for events that move on and the
balances of a move. -/
theorem append_only {actions : List Action} (htexts : ∀ a ∈ actions, a.Texts)
    (hids : (actions.filterMap Action.id?).Nodup)
    (hfits : (Books.opened.run actions).store.counter.Fits) : Books.AppendOnly actions := by
  have hproper : Books.Proper actions := ⟨htexts, hids, hfits⟩
  have hsound := Books.sound_run htexts
  constructor
  case stamp => exact fun now worker lease ids hworker =>
    (Outbox.stamp_outboxOnly hsound hworker lease ids).2
  case claim => exact fun seen stamped worker limit lease hworker =>
    Outbox.claim_outboxOnly hsound hworker seen stamped limit lease
  case complete => exact fun now worker outcomes hreasons =>
    (Outbox.complete_outboxOnly hsound hreasons).2
  case pass =>
    intro β δ _ worker backoff w hwords hworker hstore halone
    rw [← hstore] at hsound
    exact Relay.pass_outboxOnly hwords hworker hsound halone backoff
  case pass_among =>
    intro β δ _ worker backoff w hwords hworker hstore hkept
    rw [← hstore] at hsound
    exact Relay.pass_moved hwords hworker hsound hkept backoff
  case call => exact fun c id now hid hcall => hproper.post hid hcall
  case admission => exact fun c id now => (counter_twoTaken_or (consider_sameTables c id now _)).1
  case commitment =>
    intro d hd now
    obtain ⟨place, hplace⟩ := List.mem_iff_getElem?.1 hd
    have hcommit := hproper.commit hplace now
    rw [Books.commit, hplace] at hcommit
    exact hcommit
  case forever =>
    rintro before after rfl
    exact hproper.remembers

/-! ### A second try -/

/-- The event of a move cannot be delivered at first. While another move is made, a second worker
delivers it. -/
def secondTry : List Action :=
  [.consider (.plain "a" "5" 2 3) (.fresh 0 5) ⟨0⟩, .commit 0 ⟨1⟩,
    .claim ⟨2⟩ ⟨3⟩ "worker" 8 (.ofNanos 60), .complete ⟨4⟩ "worker" [(0, .failed "down")],
    .consider (.plain "b" "2" 3 2) (.fresh 0 6) ⟨5⟩, .claim ⟨6⟩ ⟨7⟩ "other" 8 (.ofNanos 60),
    .commit 0 ⟨8⟩, .complete ⟨9⟩ "other" [(0, .sent)]]

theorem append_only_secondTry : Books.AppendOnly secondTry ∧
    (Books.opened.run secondTry).store.moves.size = 2 ∧
    (event? 0 (Books.opened.run secondTry).store).map (·.map fun e => (e.attempts, e.sentAt)) =
      .ok (some (1, some (⟨9⟩ : Date))) := by
  have hsized : Sized "worker" ∧ Sized "other" ∧ Sized "down" := by
    simp only [Sized]
    decide
  obtain ⟨hworker, hother, hdown⟩ := hsized
  have htexts : ∀ a ∈ secondTry, a.Texts := by
    simp only [secondTry, List.forall_mem_cons]
    exact ⟨trivial, trivial, hworker,
      List.forall_mem_singleton.2 (Outbox.Outcome.texts_failed hdown), trivial, hother, trivial,
      List.forall_mem_singleton.2 Outbox.Outcome.texts_sent, List.forall_mem_nil _⟩
  have hseen : (Books.opened.run secondTry).store.counter.last? = some 3 ∧
      (Books.opened.run secondTry).store.moves.size = 2 ∧
      (event? 0 (Books.opened.run secondTry).store).map (·.map fun e => (e.attempts, e.sentAt)) =
        .ok (some (1, some (⟨9⟩ : Date))) := by decide +kernel
  exact ⟨append_only htexts (by decide +kernel) (.of_last hseen.1 (by decide)), hseen.2⟩

end Ledger

end Stockroom
