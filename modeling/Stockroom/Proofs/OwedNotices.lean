import Stockroom.Ledger.Query
import Stockroom.Proofs.ExactlyOnce
import Stockroom.Proofs.Holdings
import Stockroom.Proofs.OutboxRows

/-!
# Owed notices

A notice is owed if and only if a move was committed. Moves are filed under random identifiers,
events and audit entries under ascending numbers, and receipts under keys; whatever calls, workers
and the host did, one after the other, all of them are in step with the committed moves.

Results:
1. `Numbered.posting`: a committed move takes numbers beyond those of all earlier ones.
2. `Logged.posting` and `Logged.replace`: so its event and its audit entry come last, and what
   workers do to events neither moves them nor changes what they say.
3. `Books.recorded_after`: what holds after any operations.
4. `owed_notices`: the guarantee, for records as they are read.
-/
namespace Stockroom.Ledger

open Outbox (Event)
open Store (find?)

variable {s s' : Store} {posted : List Posting} {d : Draft} {now : Date}

/-! ## Numbers of committed moves -/

/-- The numbers of committed moves ascend, and all of them were given out. -/
structure Numbered (s : Store) (posted : List Posting) : Prop where
  ordered : s.counter.Ordered
  events : posted.Pairwise fun p p' => p.draft.event < p'.draft.event
  audit : posted.Pairwise fun p p' => p.draft.auditNumber < p'.draft.auditNumber
  gave : ∀ p ∈ posted, s.counter.Gave p.draft.event ∧ s.counter.Gave p.draft.auditNumber

theorem Numbered.of_counter (h : Numbered s posted) (hcounter : s'.counter = s.counter) :
    Numbered s' posted := by
  refine ⟨?_, h.events, h.audit, ?_⟩
  · rw [hcounter]
    exact h.ordered
  · rw [hcounter]
    exact h.gave

theorem Numbered.reopen (h : Numbered s posted) : Numbered s.reopen posted :=
  ⟨Counter.ordered_reopen _, h.events, h.audit, h.gave⟩

theorem Numbered.twoTaken (h : Numbered s posted) : Numbered (twoTaken s) posted := by
  refine ⟨Counter.ordered_take _, h.events, h.audit, fun p hp => ?_⟩
  obtain ⟨hevent, haudit⟩ := h.gave p hp
  exact ⟨(hevent.take h.ordered).take (Counter.ordered_take _),
    (haudit.take h.ordered).take (Counter.ordered_take _)⟩

/-- The numbers of a draft are the next two, if they fit. -/
theorem Draft.PreparedFrom.numbers (h : d.PreparedFrom s)
    (hfits : (Ledger.twoTaken s).counter.Fits) :
    d.event.toNat = s.counter.next ∧ d.auditNumber.toNat = s.counter.next + 1 := by
  have hfirst : s.counter.take.2.Fits := hfits.of_take (Counter.ordered_take s.counter)
  constructor
  · rw [h.event]
    exact Counter.toNat_take hfirst
  · rw [h.auditNumber]
    exact Counter.toNat_take hfits

/-- A committed move takes numbers beyond those of all earlier ones. -/
theorem Numbered.posting (h : Numbered s posted) (hprepared : d.PreparedFrom s)
    (hfits : (Ledger.twoTaken s).counter.Fits) (now : Date) :
    Numbered (Ledger.twoTaken s) (posted ++ [⟨d, now⟩]) := by
  obtain ⟨hevent, haudit⟩ := hprepared.numbers hfits
  refine ⟨h.twoTaken.ordered, ?_, ?_, ?_⟩
  · refine List.pairwise_append.2 ⟨h.events, List.pairwise_singleton _ _, fun p hp p' hp' => ?_⟩
    have hlt := (h.gave p hp).1.lt_next h.ordered
    rw [List.mem_singleton.1 hp', UInt64.lt_iff_toNat_lt, hevent]
    exact hlt
  · refine List.pairwise_append.2 ⟨h.audit, List.pairwise_singleton _ _, fun p hp p' hp' => ?_⟩
    have hlt := (h.gave p hp).2.lt_next h.ordered
    rw [List.mem_singleton.1 hp', UInt64.lt_iff_toNat_lt, haudit]
    exact Nat.lt_succ_of_lt hlt
  · intro p hp
    rcases List.mem_append.1 hp with hp | hp
    · exact h.twoTaken.gave p hp
    · rw [List.mem_singleton.1 hp]
      exact ⟨⟨s.counter.next + 1, rfl, by rw [hevent]; exact Nat.le_succ _⟩,
        ⟨s.counter.next + 1, rfl, by rw [haudit]⟩⟩

/-! ## Rows of committed moves -/

/-- The ledger holds the row of every committed move, and as many rows as there are moves. -/
structure Filed (s : Store) (posted : List Posting) : Prop where
  size : s.moves.size = posted.length
  rows : ∀ p ∈ posted, s.moves.get? p.draft.move.id.bytes = some p.draft.row

theorem Filed.of_moves (h : Filed s posted) (hmoves : s'.moves = s.moves) : Filed s' posted := by
  refine ⟨?_, ?_⟩
  · rw [hmoves]
    exact h.size
  · rw [hmoves]
    exact h.rows

/-- A move with a new identifier is one row more. -/
theorem Filed.posting (h : Filed s posted) (hwrites : d.Writes now s s')
    (hnew : s.moves.get? d.move.id.bytes = none) : Filed s' (posted ++ [⟨d, now⟩]) := by
  refine ⟨?_, fun p hp => ?_⟩
  · rw [hwrites.moves, Table.size_insert hnew, h.size, List.length_append]
    rfl
  · rw [hwrites.moves, Table.get?_insert]
    rcases List.mem_append.1 hp with hp | hp
    · split
      · next heq =>
        rw [heq, h.rows p hp] at hnew
        cases hnew
      · exact h.rows p hp
    · rw [List.mem_singleton.1 hp, if_pos rfl]

/-! ## Events and audit entries -/

/-- The event is the notice of a committed move, whatever became of it since. -/
structure Tells (e : Event) (p : Posting) : Prop where
  id : e.id = p.draft.event
  topic : e.topic = MoveNotice.topic
  payload : e.payload = p.draft.payload
  lasting : e.Lasting

/-- The row holds the notice of a committed move under its number. -/
def EventRow (row : Bytes × Bytes) (p : Posting) : Prop :=
  row.1 = Event.key p.draft.event ∧ ∃ e, Stored.encode e = some row.2 ∧ Tells e p

/-- The row holds the audit entry of a committed move under its number. -/
def AuditRow (row : Bytes × Bytes) (p : Posting) : Prop :=
  row.1 = AuditEntry.key p.draft.auditNumber ∧ Stored.encode p.draft.auditEntry = some row.2

/-- Row by row, events and audit entries are those of the committed moves, in their order. -/
structure Logged (s : Store) (posted : List Posting) : Prop where
  events : List.Forall₂ EventRow s.events.rows posted
  audit : List.Forall₂ AuditRow s.audit.rows posted

theorem tells_fresh (d : Draft) (now : Date) :
    Tells (Event.fresh d.event MoveNotice.topic d.payload now) ⟨d, now⟩ :=
  ⟨rfl, rfl, rfl, d.lasting_event now⟩

/-- The event and the audit entry of a committed move come last. -/
theorem Logged.posting (h : Logged s posted) (hwrites : d.Writes now s s') (hd : d.Genuine)
    (hnumbered : Numbered s (posted ++ [⟨d, now⟩])) : Logged s' (posted ++ [⟨d, now⟩]) := by
  have hlast : ∀ p ∈ posted, p.draft.event < d.event ∧ p.draft.auditNumber < d.auditNumber :=
    fun p hp => ⟨(List.pairwise_append.1 hnumbered.events).2.2 p hp _ List.mem_cons_self,
      (List.pairwise_append.1 hnumbered.audit).2.2 p hp _ List.mem_cons_self⟩
  obtain ⟨row, hrow, hevents⟩ := hwrites.events
  obtain ⟨entry, hentry⟩ := AuditEntry.exists_row (e := d.auditEntry)
    (Move.storable_of_encode hd.row)
  have haudit : s'.audit = s.audit.insert (AuditEntry.key d.auditNumber) entry := by
    rw [hwrites.audit, hentry]
    rfl
  constructor
  case events =>
    have hbefore : ∀ row ∈ s.events.rows, row.1 < Event.key d.event := by
      intro row hrow
      obtain ⟨p, hp, hkey, -⟩ := exists_of_forall₂ h.events row hrow
      rw [hkey]
      exact Outbox.Event.key_lt_iff.2 (hlast p hp).1
    rw [hevents, Table.rows_insert_last hbefore]
    exact List.rel_append h.events (.cons ⟨rfl, _, hrow, tells_fresh d now⟩ .nil)
  case audit =>
    have hbefore : ∀ row ∈ s.audit.rows, row.1 < AuditEntry.key d.auditNumber := by
      intro row hrow
      obtain ⟨p, hp, hkey, -⟩ := exists_of_forall₂ h.audit row hrow
      rw [hkey]
      exact AuditEntry.key_lt_iff.2 (hlast p hp).2
    rw [haudit, Table.rows_insert_last hbefore]
    exact List.rel_append h.audit (.cons ⟨rfl, hentry⟩ .nil)

theorem Logged.of_tables (h : Logged s posted) (hevents : s'.events = s.events)
    (haudit : s'.audit = s.audit) : Logged s' posted := by
  refine ⟨?_, ?_⟩
  · rw [hevents]
    exact h.events
  · rw [haudit]
    exact h.audit

/-- An event that is found is the notice of a committed move. -/
theorem Logged.found (h : Logged s posted) {id : UInt64} {e : Event}
    (hfind : find? s.events (Event.key id) = .ok (some e)) :
    ∃ row, s.events.get? (Event.key e.id) = some row ∧ Stored.decode row = some e ∧
      e.id = id ∧ e.Lasting := by
  obtain ⟨row, hget, hdecode⟩ := Store.find?_eq_ok_some.1 hfind
  obtain ⟨p, -, hkey, e', hrow, htells⟩ :=
    exists_of_forall₂ h.events _ (Table.get?_eq_some_iff.1 hget)
  rw [(Event.reads_back htells.lasting).decode hrow] at hdecode
  cases hdecode
  have hid : e.id = id := htells.id.trans (Outbox.Event.key_injective hkey).symm
  exact ⟨row, by rw [hid]; exact hget, (Event.reads_back htells.lasting).decode hrow, hid,
    htells.lasting⟩

/-- What workers do to an event neither moves it nor changes what it says. -/
theorem Logged.replace (h : Logged s posted) {id : UInt64} {e after : Event} {row : Bytes}
    (hfind : find? s.events (Event.key id) = .ok (some e))
    (hrow : Stored.encode after = some row)
    (hsame : after.id = e.id ∧ after.topic = e.topic ∧ after.payload = e.payload)
    (hlasting : e.Lasting → after.Lasting) :
    Logged (s.update .events (·.insert (Event.key after.id) row)) posted := by
  obtain ⟨hid, htopic, hpayload⟩ := hsame
  obtain ⟨old, hget, hdecode, -, hold⟩ := h.found hfind
  rw [← hid] at hget
  refine ⟨?_, h.audit⟩
  show List.Forall₂ EventRow (s.events.insert (Event.key after.id) row).rows posted
  rw [Table.rows_insert_present hget, List.forall₂_map_left_iff]
  refine ((List.forall₂_and_left _ _).2 ⟨fun r hr => hr, h.events⟩).imp ?_
  rintro r p ⟨hmem, hkey, e', hrow', htells⟩
  split
  · next heq =>
    -- the row under this key is the one that was found
    have hrest := Table.key_injective hmem (Table.get?_eq_some_iff.1 hget) heq
    rw [hrest] at hrow' hkey
    rw [(Event.reads_back htells.lasting).decode hrow'] at hdecode
    cases hdecode
    exact ⟨hkey, after, hrow, hid.trans htells.id, htopic.trans htells.topic,
      hpayload.trans htells.payload, hlasting hold⟩
  · exact ⟨hkey, e', hrow', htells⟩

theorem Logged.claim (h : Logged s posted) {worker : String} (hworker : Sized worker)
    (seen stamped : Date) (limit : Nat) (lease : Duration) :
    Logged (Outbox.claim seen stamped worker limit lease s).2 posted := by
  refine Outbox.claim_invariant (P := (Logged · posted)) ?_ limit h
  intro s e row id h hfind _ hrow
  have hreplaced := h.replace hfind hrow ⟨rfl, rfl, rfl⟩ fun hlasting =>
    hlasting.claim hworker _
  exact hreplaced

theorem Logged.complete (h : Logged s posted) {outcomes : List (UInt64 × Outbox.Outcome)}
    (hreasons : ∀ o ∈ outcomes, ∀ reason, o.2 = .failed reason → Sized reason) (now : Date)
    (worker : String) : Logged (Outbox.complete now worker outcomes s).2 posted := by
  refine Outbox.complete_invariant (P := (Logged · posted)) ?_ h
  intro s e after row id outcome hmem h hfind hreport hrow
  have hevents := Outbox.settle_events id outcome s
  have hsettled : Logged (Outbox.settle id outcome s) posted :=
    h.of_tables hevents (by unfold Outbox.settle; split <;> rfl)
  rw [← hevents] at hfind
  exact hsettled.replace hfind hrow (Outbox.report_notice hreport) fun hlasting =>
    hlasting.report (hreasons _ hmem) hreport

/-! ## Operations -/

/-- The texts that a call stores can be stored. -/
structure Call.Texts (c : Call) : Prop where
  key : Sized c.idempotencyKey
  endpoint : Sized c.endpoint
  reason : Sized c.request.reason
  requestId : ∀ r ∈ c.requestId, Sized r

/-- The texts that an operation stores can be stored. -/
def Operation.Texts : Operation → Prop
  | call c _ _ _ => c.Texts
  | claim _ _ worker _ _ => Sized worker
  | complete _ _ outcomes => ∀ o ∈ outcomes, ∀ reason, o.2 = .failed reason → Sized reason
  | reopen => True

/-- The identifier that a call brings for its move. -/
def Operation.id? : Operation → Option Identifier
  | call _ id _ _ => some id
  | _ => none

namespace Books

/-- An action leaves the counter alone, takes two numbers, or reopens the database. -/
theorem act_counter (b : Books) (a : Action) :
    (b.act a).store.counter = b.store.counter ∨
    (b.act a).store.counter = b.store.counter.take.2.take.2 ∨
    (b.act a).store.counter = b.store.counter.reopen := by
  have hstep := act_step b a
  generalize b.act a = b' at hstep ⊢
  cases hstep with
  | drafted => exact .inr (.inl rfl)
  | refused hs he =>
    rcases hs with rfl | rfl
    · exact .inl rfl
    · exact .inr (.inl rfl)
  | committed hplace hwrites hfirst => exact .inl hwrites.counter
  | stamped => exact .inl (Outbox.stamp_sameLedger _ _ _ _ _).counter
  | claimed => exact .inl (Outbox.claim_sameLedger _ _ _ _ _ _).counter
  | completed => exact .inl (Outbox.complete_sameLedger _ _ _ _).counter
  | reopened => exact .inr (.inr rfl)
  | found | late | failed | absent => exact .inl rfl

theorem ordered_act {b : Books} (h : b.store.counter.Ordered) (a : Action) :
    (b.act a).store.counter.Ordered := by
  rcases act_counter b a with heq | heq | heq
  · rw [heq]
    exact h
  · rw [heq]
    exact Counter.ordered_take _
  · rw [heq]
    exact Counter.ordered_reopen _

theorem ordered_run (actions : List Action) : (opened.run actions).store.counter.Ordered :=
  run_invariant (P := (·.store.counter.Ordered)) Counter.ordered_start
    fun _ a _ h => ordered_act h a

/-- Numbers that fit after a run fitted before. -/
theorem fits_of_run {b : Books} (h : b.store.counter.Ordered) {actions : List Action}
    (hfits : (b.run actions).store.counter.Fits) : b.store.counter.Fits := by
  induction actions generalizing b with
  | nil => exact hfits
  | cons a actions ih =>
    have hnext := ih (ordered_act h a) hfits
    rcases act_counter b a with heq | heq | heq
    · rw [heq] at hnext
      exact hnext
    · rw [heq] at hnext
      exact (hnext.of_take (Counter.ordered_take _)).of_take h
    · rw [heq] at hnext
      exact hnext

/-- Committed moves are named by the identifiers that their calls brought. -/
theorem ids_after (operations : List Operation) :
    ((after operations).posted.map (·.draft.move.id)).Sublist
      (operations.filterMap Operation.id?) := by
  induction operations using List.reverseRecOn with
  | nil => exact List.Sublist.slnil
  | append_singleton operations operation ih =>
    rw [after_append, List.filterMap_append]
    cases operation with
    | call c id seen posted =>
      rcases run_call_cases (drafts_after operations) c id seen posted with
        ⟨d, s, -, -, hid, -, h⟩ | ⟨s, answer, -, h⟩
      · rw [h]
        dsimp only [tell]
        rw [List.map_append, List.map_singleton, hid]
        exact ih.append (List.Sublist.refl [id])
      · rw [h]
        exact ih.trans (List.sublist_append_left _ _)
    | claim seen stamped worker limit lease => exact ih.trans (List.sublist_append_left _ _)
    | complete now worker outcomes => exact ih.trans (List.sublist_append_left _ _)
    | reopen => exact ih.trans (List.sublist_append_left _ _)

/-- The ledger, the events and the audit entries are in step with the committed moves. -/
structure Recorded (b : Books) : Prop where
  numbered : Numbered b.store b.posted
  filed : Filed b.store b.posted
  logged : Logged b.store b.posted

theorem recorded_opened : opened.Recorded :=
  ⟨⟨Counter.ordered_start, .nil, .nil, nofun⟩, ⟨rfl, nofun⟩, ⟨.nil, .nil⟩⟩

/-- A call keeps them in step, if it brings a new identifier and its numbers fit. -/
theorem Recorded.call {b : Books} (h : b.Recorded) (hdrafts : b.drafts = [])
    (hreceipted : b.Receipted) {c : Call} {id : Identifier} {seen posted : Date}
    (hnew : ∀ p ∈ b.posted, p.draft.move.id ≠ id)
    (hfits : (b.run (Operation.call c id seen posted).actions).store.counter.Fits) :
    (b.run (Operation.call c id seen posted).actions).Recorded := by
  have htaken : Filed (twoTaken b.store) b.posted ∧ Logged (twoTaken b.store) b.posted :=
    ⟨h.filed.of_moves rfl, h.logged.of_tables rfl rfl⟩
  rcases run_call_cases hdrafts c id seen posted with
    ⟨d, s, hprepared, -, hid, hwrites, heq⟩ | ⟨s, answer, hs, heq⟩
  · rw [heq] at hfits ⊢
    have hcounter : s.counter.Fits := hfits
    rw [hwrites.counter] at hcounter
    have hnumbered := h.numbered.posting hprepared hcounter posted
    -- a row under this identifier would be that of an earlier call
    have habsent : (twoTaken b.store).moves.get? d.move.id.bytes = none := by
      rw [← Option.not_isSome_iff_eq_none]
      intro hsome
      obtain ⟨p, hp, hbytes⟩ := (hreceipted.moves _).1 hsome
      exact hnew p hp ((Identifier.ext hbytes).trans hid)
    exact ⟨hnumbered.of_counter hwrites.counter, htaken.1.posting hwrites habsent,
      htaken.2.posting hwrites hprepared.toGenuine hnumbered⟩
  · rw [heq]
    rcases hs with rfl | rfl
    · exact ⟨h.numbered, h.filed, h.logged⟩
    · exact ⟨h.numbered.twoTaken, htaken.1, htaken.2⟩

/-- Whatever was done, one operation after the other, they are in step. -/
theorem recorded_after {operations : List Operation}
    (htexts : ∀ operation ∈ operations, operation.Texts)
    (hids : (operations.filterMap Operation.id?).Nodup)
    (hfits : (after operations).store.counter.Fits) : (after operations).Recorded := by
  induction operations using List.reverseRecOn with
  | nil => exact recorded_opened
  | append_singleton operations operation ih =>
    rw [after_append] at hfits ⊢
    rw [List.filterMap_append] at hids
    obtain ⟨hearlier, -, hdisjoint⟩ := List.nodup_append'.1 hids
    have h := ih (fun o ho => htexts o (List.mem_append_left _ ho)) hearlier
      (fits_of_run (ordered_run _) hfits)
    have hlast := htexts operation (List.mem_append_right _ (List.mem_singleton_self _))
    cases operation with
    | call c id seen posted =>
      refine h.call (drafts_after operations) (receipted_run _) (fun p hp heq => ?_) hfits
      exact hdisjoint ((ids_after operations).subset (List.mem_map.2 ⟨p, hp, heq⟩))
        List.mem_cons_self
    | claim seen stamped worker limit lease =>
      have hsame := Outbox.claim_sameLedger seen stamped worker limit lease
        (after operations).store
      exact ⟨h.numbered.of_counter hsame.counter, h.filed.of_moves hsame.moves,
        h.logged.claim hlast seen stamped limit lease⟩
    | complete now worker outcomes =>
      have hsame := Outbox.complete_sameLedger now worker outcomes (after operations).store
      exact ⟨h.numbered.of_counter hsame.counter, h.filed.of_moves hsame.moves,
        h.logged.complete hlast now worker⟩
    | reopen => exact ⟨h.numbered.reopen, h.filed.of_moves rfl, h.logged.of_tables rfl rfl⟩

end Books

/-! ## What is read -/

theorem Draft.Genuine.move_reads_back (hd : d.Genuine) (htexts : d.call.Texts) :
    Stored.ReadsBack d.move := by
  obtain ⟨valid, hvalid, hmove⟩ := hd.read
  obtain ⟨-, -, -, -, hreason⟩ := validate_ok hvalid
  refine Move.reads_back hd.settled hd.dated ⟨?_, ?_⟩
  · rw [hmove]
    show Sized valid.reason
    rw [hreason]
    exact htexts.reason.trim
  · rw [hmove]
    exact htexts.requestId

theorem Draft.Genuine.auditEntry_reads_back (hd : d.Genuine) (htexts : d.call.Texts) :
    Stored.ReadsBack d.auditEntry := by
  have hword : ∀ word ∈ ["user", "stock.move", "stock_ledger", "ok"], Sized word := by
    simp only [Sized]
    decide
  exact AuditEntry.reads_back hd.dated ⟨hword "user" (by decide), hword "stock.move" (by decide),
    hword "stock_ledger" (by decide), Identifier.sized_text _, hword "ok" (by decide),
    htexts.requestId, MoveNotice.sized_texts _ _ _⟩

theorem Logged.read_events (h : Logged s posted) : ∃ es : List Event,
    s.events.values.mapM Store.readRow = (.ok es : Except Fault (List Event)) ∧
    List.Forall₂ Tells es posted := by
  suffices hes : ∃ es : List Event,
      List.Forall₂ (fun row e => Store.readRow row = .ok e) s.events.values es ∧
      List.Forall₂ Tells es posted by
    obtain ⟨es, hread, htells⟩ := hes
    exact ⟨es, mapM_eq_ok hread, htells⟩
  have hrows := h.events
  clear h
  rw [Table.values]
  generalize s.events.rows = rows at hrows ⊢
  induction hrows with
  | nil => exact ⟨[], .nil, .nil⟩
  | cons hrow _ ih =>
    obtain ⟨es, hread, htells⟩ := ih
    obtain ⟨-, e, hencode, he⟩ := hrow
    have hdecode := (Event.reads_back he.lasting).decode hencode
    exact ⟨e :: es, .cons (Store.readRow_ok.2 hdecode) hread, .cons he htells⟩

theorem Logged.read_audit (h : Logged s posted)
    (hposted : ∀ p ∈ posted, p.draft.Genuine ∧ p.draft.call.Texts) :
    auditTrail s = .ok (posted.map (·.draft.auditEntry)) := by
  have hrows := h.audit
  rw [auditTrail, Table.values]
  refine mapM_eq_ok ?_
  rw [List.forall₂_map_left_iff, List.forall₂_map_right_iff]
  clear h
  generalize s.audit.rows = rows at hrows ⊢
  induction hrows with
  | nil => exact .nil
  | @cons row p rows posted hrow _ ih =>
    obtain ⟨hgenuine, htexts⟩ := hposted p List.mem_cons_self
    have hdecode := (hgenuine.auditEntry_reads_back htexts).decode hrow.2
    exact .cons (Store.readRow_ok.2 hdecode) (ih fun p hp => hposted p (List.mem_cons_of_mem _ hp))

/-! ## The guarantee -/

/-- The notice in a text names a move, its item and its quantity, decimals and all. -/
def Announces (payload : String) (m : Move) : Prop :=
  ∃ notice, MoveNotice.ofJson payload = .ok notice ∧
    Identifier.read notice.move = .ok m.id ∧ Identifier.read notice.item = .ok m.item ∧
    Quantity.readExact notice.quantity = .ok m.quantity

theorem Draft.Genuine.announces (hd : d.Genuine) : Announces d.payload d.move := by
  refine ⟨noticeOf d.move, MoveNotice.ofJson_toJson _, Identifier.read_text _,
    Identifier.read_text _, ?_⟩
  rw [noticeOf, Quantity.readExact_text, Quantity.settled_eq hd.settled]

/-- What is owed for the committed moves, in the order of their commitment. -/
structure Books.Owed (b : Books) : Prop where
  /-- The ledger holds the committed moves, -/
  ledger : ∀ p ∈ b.posted, move? p.draft.move.id b.store = .ok (some p.draft.move)
  /-- and nothing else. -/
  ledger_size : b.store.moves.size = b.posted.length
  /-- In the order of their numbers the events announce the committed moves. -/
  events : ∃ es : List Event,
    b.store.events.values.mapM Store.readRow = (.ok es : Except Fault (List Event)) ∧
    (es.map (·.id)).Pairwise (· < ·) ∧
    List.Forall₂ (fun e p => e.topic = "stock.moved" ∧ e.payload = p.draft.payload ∧
      Announces e.payload p.draft.move) es b.posted
  /-- The audit entries name them and carry the same payloads. -/
  audit : ∃ entries, auditTrail b.store = .ok entries ∧
    List.Forall₂ (fun entry p => Identifier.read entry.resourceId = .ok p.draft.move.id ∧
      entry.metadata = p.draft.payload) entries b.posted
  /-- Each has its own receipt with its answer, -/
  receipts : ∀ p ∈ b.posted, ∃ receipt : Receipt,
    find? b.store.receipts p.draft.call.receiptKey = .ok (some receipt) ∧
    MoveAnswer.ofJson receipt.body = .ok (.ok p.draft.move.id)
  receipts_distinct : b.posted.Pairwise fun p p' =>
    p.draft.call.receiptKey ≠ p'.draft.call.receiptKey
  /-- and there are no other receipts. -/
  receipts_size : b.store.receipts.size = b.posted.length

/-- Whatever calls, workers and the host did, one after the other, the committed moves are what is
in the ledger, owed to the broker, noted in the audit entries and answered from the receipts. -/
theorem owed_notices {operations : List Operation}
    (htexts : ∀ operation ∈ operations, operation.Texts)
    (hids : (operations.filterMap Operation.id?).Nodup)
    (hfits : (Books.after operations).store.counter.Fits) : (Books.after operations).Owed := by
  have hcalls : (Books.after operations).OfCalls Call.Texts := by
    refine Books.ofCalls_run fun a ha c hc => ?_
    obtain ⟨operation, hmem, ha⟩ := List.mem_flatMap.1 ha
    have hoperation := htexts operation hmem
    cases operation with
    | call c' id seen posted =>
      obtain rfl | rfl := by simpa [Operation.actions] using ha
      · cases hc
        exact hoperation
      · cases hc
    | claim | complete | reopen =>
      obtain rfl := by simpa [Operation.actions] using ha
      cases hc
  have hreceipted := Books.receipted_run (operations.flatMap Operation.actions)
  have hrecorded := Books.recorded_after htexts hids hfits
  change (Books.after operations).Receipted at hreceipted
  generalize Books.after operations = b at hcalls hreceipted hrecorded ⊢
  constructor
  case ledger =>
    intro p hp
    obtain ⟨hgenuine, hcall⟩ := hcalls.posted p hp
    exact Store.find?_eq_ok_some.2 ⟨_, hrecorded.filed.rows p hp,
      (hgenuine.move_reads_back hcall).decode hgenuine.row⟩
  case ledger_size => exact hrecorded.filed.size
  case events =>
    obtain ⟨es, hread, htells⟩ := hrecorded.logged.read_events
    refine ⟨es, hread, ?_, ?_⟩
    · have hids : es.map (·.id) = b.posted.map (·.draft.event) := by
        rw [← List.forall₂_eq_eq_eq, List.forall₂_map_left_iff, List.forall₂_map_right_iff]
        exact htells.imp fun _ _ h => h.id
      rw [hids]
      exact List.pairwise_map.2 hrecorded.numbered.events
    · -- that the move is a committed one is lost in the pairs, so it is put in first
      have hall := (List.forall₂_and_left b.posted es).2 ⟨fun p hp => hp, htells.flip⟩
      refine hall.flip.imp ?_
      rintro e p ⟨hp, he⟩
      refine ⟨he.topic, he.payload, ?_⟩
      rw [he.payload]
      exact (hcalls.posted p hp).1.announces
  case audit =>
    refine ⟨_, hrecorded.logged.read_audit hcalls.posted, ?_⟩
    rw [List.forall₂_map_left_iff, List.forall₂_same]
    exact fun p _ => ⟨Identifier.read_text _, rfl⟩
  case receipts =>
    intro p hp
    obtain ⟨row, hrow, hget⟩ := hreceipted.kept p hp
    obtain ⟨hgenuine, hcall⟩ := hcalls.posted p hp
    refine ⟨p.draft.receipt, Store.find?_eq_ok_some.2 ⟨row, hget, ?_⟩,
      MoveAnswer.ofJson_toJson _⟩
    exact (hgenuine.receipt_reads_back hcall.key hcall.endpoint).decode hrow
  case receipts_distinct => exact hreceipted.once
  case receipts_size => exact hreceipted.size

/-! ### A busy day -/

/-- A move is committed, its event is claimed and not delivered, the database is opened anew, the
first call is sent again, and another move is committed. -/
def busyDay : List Operation :=
  [.call (.plain "a" "5.0" 2 3) (.fresh 0 5) ⟨0⟩ ⟨1⟩, .claim ⟨2⟩ ⟨2⟩ "worker" 8 ⟨60, by decide⟩,
    .complete ⟨3⟩ "worker" [(0, .failed "down")], .reopen,
    .call (.plain "a" "5" 2 3) (.fresh 0 6) ⟨4⟩ ⟨4⟩,
    .call (.plain "b" "2" 3 2) (.fresh 0 7) ⟨5⟩ ⟨6⟩]

theorem texts_plain {key : String} (hkey : Sized key) (quantity : String)
    (origin destination : Nat) : (Call.plain key quantity origin destination).Texts := by
  have hword : Sized "/moves" ∧ Sized "" := by
    simp only [Sized]
    decide
  refine ⟨hkey, hword.1, hword.2, ?_⟩
  rintro _ ⟨⟩

theorem owed_notices_busyDay : (Books.after busyDay).posted.length = 2 ∧
    (Books.after busyDay).Owed := by
  have hsized : Sized "a" ∧ Sized "b" ∧ Sized "worker" ∧ Sized "down" := by
    simp only [Sized]
    decide
  obtain ⟨ha, hb, hworker, hdown⟩ := hsized
  have htexts : ∀ operation ∈ busyDay, operation.Texts := by
    simp only [busyDay, List.forall_mem_cons]
    refine ⟨texts_plain ha _ _ _, hworker, ?_, trivial, texts_plain ha _ _ _, texts_plain hb _ _ _,
      List.forall_mem_nil _⟩
    intro o ho reason hreason
    rw [List.mem_singleton.1 ho] at hreason
    cases hreason
    exact hdown
  have hseen : (Books.after busyDay).posted.length = 2 ∧
      (Books.after busyDay).store.counter.last? = some 2000001 := by decide +kernel
  exact ⟨hseen.1, owed_notices htexts (by decide +kernel) (.of_last hseen.2 (by decide))⟩

end Stockroom.Ledger
