import Stockroom.Outbox.Outcome
import Stockroom.Proofs.StoredRecords
import Stockroom.Proofs.Transactions

/-!
# What the outbox does to a store

A stamp and a report each replace one event, and a report of success also takes the event out of the
pending ones. Nothing else of the store is touched, whatever becomes of the transaction.

Results:
1. `stampOne_ok`, `recordOne_ok`: the ways these steps end.
2. `claim_sameLedger`, `stamp_sameLedger`, `complete_sameLedger`: moves, balances, receipts, audit
   entries and the counter stay as they were.
3. `stamp_invariant`, `claim_invariant`, `complete_invariant`: what each replacement of an event
   keeps is kept by the whole operation.
-/
namespace Stockroom.Outbox

open Store (find?)
open Store.Transaction

variable {s s' : Store} {now : Date} {worker : String}

/-! ## Single events -/

theorem putEvent_ok {e : Event} {u : Unit} (h : putEvent e s = .ok (u, s')) :
    ∃ row, Stored.encode e = some row ∧
      s' = s.update .events (·.insert (Event.key e.id) row) :=
  put_ok.1 h

/-- A stamp leaves everything as it was, or replaces a free event by the claimed one. -/
theorem stampOne_ok {leaseEnd : Date} {id : UInt64} {stamped : Option Event}
    (h : stampOne now worker leaseEnd id s = .ok (stamped, s')) :
    (stamped = none ∧ s' = s) ∨
    ∃ (e : Event) (row : Bytes), find? s.events (Event.key id) = .ok (some e) ∧
      e.isClaimable now = true ∧ stamped = some (e.claim worker leaseEnd) ∧
      Stored.encode (e.claim worker leaseEnd) = some row ∧
      s' = s.update .events (·.insert (Event.key e.id) row) := by
  obtain ⟨found, s₁, hfind, h⟩ := bind_ok.1 h
  obtain ⟨rfl, hfind⟩ := find?_ok.1 hfind
  cases found with
  | none =>
    obtain ⟨rfl, rfl⟩ := pure_ok.1 h
    exact .inl ⟨rfl, rfl⟩
  | some e =>
    dsimp only at h
    split at h
    · next hfree =>
      obtain ⟨_, s₂, hput, hpure⟩ := bind_ok.1 h
      obtain ⟨row, hrow, rfl⟩ := putEvent_ok hput
      obtain ⟨rfl, rfl⟩ := pure_ok.1 hpure
      exact .inr ⟨e, row, hfind, hfree, rfl, hrow, rfl⟩
    · obtain ⟨rfl, rfl⟩ := pure_ok.1 h
      exact .inl ⟨rfl, rfl⟩

/-- The store without an event among the pending ones, if it was sent. -/
def settle (id : UInt64) (outcome : Outcome) (s : Store) : Store :=
  if outcome = .sent then s.update .pending (·.erase (Event.key id)) else s

theorem settle_events (id : UInt64) (outcome : Outcome) (s : Store) :
    (settle id outcome s).events = s.events := by
  unfold settle
  split
  · rfl
  · rfl

/-- A report that changes an event replaces it. -/
theorem recordOne_of_report {id : UInt64} {outcome : Outcome} {e after : Event}
    (hfind : find? s.events (Event.key id) = .ok (some e))
    (hreport : Event.report now worker e outcome = some after) :
    recordOne now worker id outcome s =
      (putEvent after >>= fun _ => pure true) (settle id outcome s) := by
  have hread : Store.Transaction.find? .events (Event.key id) s = .ok (some e, s) :=
    find?_ok.2 ⟨rfl, hfind⟩
  rw [recordOne, bind_of_ok hread]
  dsimp only
  rw [hreport]
  cases outcome <;> rfl

theorem recordOne_of_none {id : UInt64} {outcome : Outcome} {found : Option Event}
    (hfind : find? s.events (Event.key id) = .ok found)
    (hreport : ∀ e ∈ found, Event.report now worker e outcome = none) :
    recordOne now worker id outcome s = .ok (false, s) := by
  have hread : Store.Transaction.find? .events (Event.key id) s = .ok (found, s) :=
    find?_ok.2 ⟨rfl, hfind⟩
  rw [recordOne, bind_of_ok hread]
  cases found with
  | none => rfl
  | some e =>
    dsimp only
    rw [hreport e rfl]
    rfl

/-- A report leaves everything as it was, or replaces the event by what the report makes of it. -/
theorem recordOne_ok {id : UInt64} {outcome : Outcome} {changed : Bool}
    (h : recordOne now worker id outcome s = .ok (changed, s')) :
    (changed = false ∧ s' = s) ∨
    ∃ (e after : Event) (row : Bytes), find? s.events (Event.key id) = .ok (some e) ∧
      Event.report now worker e outcome = some after ∧ changed = true ∧
      Stored.encode after = some row ∧
      s' = (settle id outcome s).update .events (·.insert (Event.key after.id) row) := by
  obtain ⟨found, s₁, hfind, -⟩ := bind_ok.1 h
  obtain ⟨-, hfind⟩ := find?_ok.1 hfind
  by_cases hsame : ∀ e ∈ found, Event.report now worker e outcome = none
  · rw [recordOne_of_none hfind hsame] at h
    cases h
    exact .inl ⟨rfl, rfl⟩
  · simp only [not_forall] at hsame
    obtain ⟨e, rfl, hreport⟩ := hsame
    obtain ⟨after, hreport⟩ := Option.ne_none_iff_exists'.1 hreport
    rw [recordOne_of_report hfind hreport] at h
    obtain ⟨_, s₂, hput, hpure⟩ := bind_ok.1 h
    obtain ⟨row, hrow, rfl⟩ := putEvent_ok hput
    obtain ⟨rfl, rfl⟩ := pure_ok.1 hpure
    exact .inr ⟨e, after, row, hfind, hreport, rfl, hrow, rfl⟩

/-- What a report says of an event that it changes, and what it makes of it. -/
theorem report_cases {e after : Event} {outcome : Outcome}
    (h : Event.report now worker e outcome = some after) :
    e.isPending = true ∧
    ((outcome = .sent ∧ after = e.sent now) ∨
    ∃ reason, outcome = .failed reason ∧ e.claimedBy = some worker ∧ after = e.failed reason) := by
  cases outcome with
  | sent =>
    rw [Event.report] at h
    split at h
    · next hpending =>
      cases h
      exact ⟨hpending, .inl ⟨rfl, rfl⟩⟩
    · cases h
  | failed reason =>
    rw [Event.report] at h
    split at h
    · next hheld =>
      cases h
      exact ⟨hheld.1, .inr ⟨reason, rfl, hheld.2, rfl⟩⟩
    · cases h

/-- A report changes neither the number of an event nor what it says. -/
theorem report_notice {e after : Event} {outcome : Outcome}
    (h : Event.report now worker e outcome = some after) :
    after.id = e.id ∧ after.topic = e.topic ∧ after.payload = e.payload := by
  obtain ⟨-, ⟨-, rfl⟩ | ⟨reason, -, -, rfl⟩⟩ := report_cases h
  · exact ⟨rfl, rfl, rfl⟩
  · exact ⟨rfl, rfl, rfl⟩

/-! ### What is stored of changed events -/

theorem Event.Lasting.claim {e : Event} (h : e.Lasting) (hworker : Sized worker)
    (leaseEnd : Date) : (e.claim worker leaseEnd).Lasting := by
  refine ⟨⟨h.texts.topic, h.texts.payload, h.texts.lastError, ?_⟩,
    ⟨h.settled.createdAt, h.settled.sentAt, ?_⟩⟩
  · rintro w ⟨⟩
    exact hworker
  · rintro t ⟨⟩
    exact Instant.isSettled_ofDate leaseEnd

theorem Event.Lasting.release {e : Event} (h : e.Lasting) : e.release.Lasting :=
  ⟨⟨h.texts.topic, h.texts.payload, h.texts.lastError, nofun⟩,
    ⟨h.settled.createdAt, h.settled.sentAt, nofun⟩⟩

theorem Event.Lasting.report {e after : Event} {outcome : Outcome} (h : e.Lasting)
    (hreason : ∀ reason, outcome = .failed reason → Sized reason)
    (hreport : Event.report now worker e outcome = some after) : after.Lasting := by
  obtain ⟨-, ⟨-, rfl⟩ | ⟨reason, heq, -, rfl⟩⟩ := report_cases hreport
  · refine Event.Lasting.release ⟨⟨h.texts.topic, h.texts.payload, h.texts.lastError,
      h.texts.claimedBy⟩, ⟨h.settled.createdAt, ?_, h.settled.leaseEnd⟩⟩
    rintro t ⟨⟩
    exact Instant.isSettled_ofDate now
  · refine Event.Lasting.release ⟨⟨h.texts.topic, h.texts.payload, ?_, h.texts.claimedBy⟩,
      ⟨h.settled.createdAt, h.settled.sentAt, h.settled.leaseEnd⟩⟩
    rintro _ ⟨⟩
    exact hreason reason heq

theorem Outcome.texts_sent : ∀ reason, Outcome.sent = .failed reason → Sized reason := nofun

theorem Outcome.texts_failed {words : String} (h : Sized words) :
    ∀ reason, Outcome.failed words = .failed reason → Sized reason := by
  rintro _ ⟨⟩
  exact h

/-! ## Whole operations -/

/-- What a stamp of any event keeps. -/
def KeptByStamps (P : Store → Prop) (now : Date) (worker : String) (leaseEnd : Date) : Prop :=
  ∀ s (e : Event) row id, P s → find? s.events (Event.key id) = .ok (some e) →
    e.isClaimable now = true → Stored.encode (e.claim worker leaseEnd) = some row →
    P (s.update .events (·.insert (Event.key e.id) row))

/-- What a report on any event keeps. -/
def KeptByReports (P : Store → Prop) (now : Date) (worker : String)
    (outcomes : List (UInt64 × Outcome)) : Prop :=
  ∀ s (e after : Event) row id outcome, (id, outcome) ∈ outcomes → P s →
    find? s.events (Event.key id) = .ok (some e) →
    Event.report now worker e outcome = some after → Stored.encode after = some row →
    P ((settle id outcome s).update .events (·.insert (Event.key after.id) row))

variable {P : Store → Prop}

theorem stamp_invariant {lease : Duration} (hkept : KeptByStamps P now worker (now.after lease))
    (ids : List UInt64) (hs : P s) : P (stamp now worker lease ids s).2 := by
  have hone : ∀ id, Preserves P (stampOne now worker (now.after lease) id) := by
    intro id s stamped s' h hs
    rcases stampOne_ok h with ⟨-, rfl⟩ | ⟨e, row, hfind, hfree, -, hrow, rfl⟩
    · exact hs
    · exact hkept s e row id hs hfind hfree hrow
  rw [stamp]
  split
  · exact hs
  · exact Store.atomically_preserves
      (preserves_bind (preserves_mapM hone ids) fun _ => preserves_pure _) hs

theorem claim_invariant {seen stamped : Date} {lease : Duration}
    (hkept : KeptByStamps P stamped worker (stamped.after lease)) (limit : Nat) (hs : P s) :
    P (claim seen stamped worker limit lease s).2 := by
  rw [claim]
  split
  · exact hs
  · exact stamp_invariant hkept _ hs

/-- What the stamp of an event makes sure of, and later stamps keep, holds of all that is
returned. -/
theorem stamp_ok {R : Event → Store → Prop} {lease : Duration} {ids : List UInt64}
    {events : List Event} (hkept : KeptByStamps P now worker (now.after lease))
    (hmade : ∀ s (e : Event) row id, P s → find? s.events (Event.key id) = .ok (some e) →
      e.isClaimable now = true → Stored.encode (e.claim worker (now.after lease)) = some row →
      R (e.claim worker (now.after lease)) (s.update .events (·.insert (Event.key e.id) row)))
    (hstays : ∀ event, KeptByStamps (fun s => P s ∧ R event s) now worker (now.after lease))
    (h : stamp now worker lease ids s = (.ok events, s')) (hs : P s) : ∀ e ∈ events, R e s' := by
  rw [stamp] at h
  split at h
  · cases h
    exact nofun
  · obtain ⟨stamped, s₁, hall, hpure⟩ := bind_ok.1 (Store.atomically_ok.1 h)
    obtain ⟨rfl, rfl⟩ := pure_ok.1 hpure
    have hevents : P s' ∧ ∀ stamped' ∈ stamped, ∀ e ∈ stamped', R e s' := by
      refine mapM_ok (R := fun stamped' s => ∀ e ∈ stamped', R e s) ?_ ?_ hall hs
      · intro id s stamped' s' h hs
        rcases stampOne_ok h with ⟨rfl, rfl⟩ | ⟨e, row, hfind, hfree, rfl, hrow, rfl⟩
        · exact ⟨hs, nofun⟩
        · refine ⟨hkept s e row id hs hfind hfree hrow, ?_⟩
          rintro _ ⟨⟩
          exact hmade s e row id hs hfind hfree hrow
      · intro id stamped' s a s' h hs
        rcases stampOne_ok h with ⟨-, rfl⟩ | ⟨e, row, hfind, hfree, -, hrow, rfl⟩
        · exact hs
        · exact ⟨hkept s e row id hs.1 hfind hfree hrow, fun e' he' =>
            (hstays e' s e row id ⟨hs.1, hs.2 e' he'⟩ hfind hfree hrow).2⟩
    intro e he
    obtain ⟨stamped', hmem, heq⟩ := List.mem_filterMap.1 he
    exact hevents.2 stamped' hmem e heq

/-- A claim that returns anything is a stamp of what it has seen. -/
theorem claim_ok {seen stamped : Date} {limit : Nat} {lease : Duration} {events : List Event}
    (h : claim seen stamped worker limit lease s = (.ok events, s')) :
    ∃ ids, stamp stamped worker lease ids s = (.ok events, s') := by
  rw [claim] at h
  split at h
  · cases h
  · exact ⟨_, h⟩

/-- Outcomes are recorded one after the other, each in the store that the ones before have left. -/
theorem recordAll_cons_ok {id : UInt64} {outcome : Outcome} {outcomes : List (UInt64 × Outcome)}
    {k : Nat} :
    recordAll now worker ((id, outcome) :: outcomes) s = .ok (k, s') ↔
      ∃ changed n s₁, recordOne now worker id outcome s = .ok (changed, s₁) ∧
        recordAll now worker outcomes s₁ = .ok (n, s') ∧ k = n + changed.toNat := by
  simp only [recordAll, bind_ok, pure_ok]
  constructor
  · rintro ⟨changed, s₁, hone, n, s₂, hrest, rfl, rfl⟩
    exact ⟨changed, n, s₁, hone, hrest, rfl⟩
  · rintro ⟨changed, n, s₁, hone, hrest, rfl⟩
    exact ⟨changed, s₁, hone, n, s', hrest, rfl, rfl⟩

theorem preserves_recordAll {outcomes : List (UInt64 × Outcome)}
    (hkept : KeptByReports P now worker outcomes) :
    Preserves P (recordAll now worker outcomes) := by
  induction outcomes with
  | nil => exact preserves_pure _
  | cons head outcomes ih =>
    obtain ⟨id, outcome⟩ := head
    refine preserves_bind ?_ fun _ => preserves_bind (ih ?_) fun _ => preserves_pure _
    · intro s changed s' h hs
      rcases recordOne_ok h with ⟨-, rfl⟩ | ⟨e, after, row, hfind, hreport, -, hrow, rfl⟩
      · exact hs
      · exact hkept s e after row id outcome List.mem_cons_self hs hfind hreport hrow
    · intro s e after row id outcome hmem
      exact hkept s e after row id outcome (List.mem_cons_of_mem _ hmem)

theorem complete_invariant {outcomes : List (UInt64 × Outcome)}
    (hkept : KeptByReports P now worker outcomes) (hs : P s) :
    P (complete now worker outcomes s).2 :=
  Store.atomically_preserves (preserves_recordAll hkept) hs

/-! ### What was recorded -/

/-- Record outcomes in order. Says which of them changed anything. -/
def recordEach (now : Date) (worker : String) :
    List (UInt64 × Outcome) → Store.Transaction (List (UInt64 × Outcome))
  | [] => return []
  | (id, outcome) :: rest => do
    let changed ← recordOne now worker id outcome
    let later ← recordEach now worker rest
    return if changed then (id, outcome) :: later else later

/-- How many outcomes changed anything is the number of those that did. -/
theorem recordAll_eq (now : Date) (worker : String) (outcomes : List (UInt64 × Outcome))
    (s : Store) :
    recordAll now worker outcomes s =
      (recordEach now worker outcomes s).map fun p => (p.1.length, p.2) := by
  induction outcomes generalizing s with
  | nil => rfl
  | cons head outcomes ih =>
    obtain ⟨id, outcome⟩ := head
    rw [recordAll, recordEach]
    cases hone : recordOne now worker id outcome s with
    | error e =>
      rw [bind_of_error hone, bind_of_error hone]
      rfl
    | ok first =>
      obtain ⟨changed, s₁⟩ := first
      rw [bind_of_ok hone, bind_of_ok hone, bind_apply, bind_apply, ih]
      cases recordEach now worker outcomes s₁ with
      | error e => rfl
      | ok rest =>
        cases changed
        · rfl
        · rfl

theorem complete_eq (now : Date) (worker : String) (outcomes : List (UInt64 × Outcome))
    (s : Store) :
    complete now worker outcomes s =
      ((Store.atomically (recordEach now worker outcomes) s).1.map List.length,
        (Store.atomically (recordEach now worker outcomes) s).2) := by
  rw [complete, Store.atomically, Store.atomically, recordAll_eq]
  cases recordEach now worker outcomes s <;> rfl

theorem recordEach_cons_ok {id : UInt64} {outcome : Outcome} {outcomes recorded : _}
    (h : recordEach now worker ((id, outcome) :: outcomes) s = .ok (recorded, s')) :
    ∃ changed s₁ later, recordOne now worker id outcome s = .ok (changed, s₁) ∧
      recordEach now worker outcomes s₁ = .ok (later, s') ∧
      recorded = if changed then (id, outcome) :: later else later := by
  obtain ⟨changed, s₁, hone, h⟩ := bind_ok.1 h
  obtain ⟨later, s₂, hrest, hpure⟩ := bind_ok.1 h
  obtain ⟨rfl, rfl⟩ := pure_ok.1 hpure
  exact ⟨changed, s₁, later, hone, hrest, rfl⟩

theorem recordEach_sublist {outcomes recorded : List (UInt64 × Outcome)}
    (h : recordEach now worker outcomes s = .ok (recorded, s')) : recorded.Sublist outcomes := by
  induction outcomes generalizing s recorded with
  | nil =>
    obtain ⟨rfl, -⟩ := pure_ok.1 h
    exact .slnil
  | cons head outcomes ih =>
    obtain ⟨changed, s₁, later, -, hrest, rfl⟩ := recordEach_cons_ok h
    cases changed
    · exact (ih hrest).cons _
    · exact (ih hrest).cons_cons _

/-- Only what is recorded can break anything. -/
theorem recordEach_invariant {outcomes recorded : List (UInt64 × Outcome)}
    (h : recordEach now worker outcomes s = .ok (recorded, s'))
    (hkept : KeptByReports P now worker recorded) (hs : P s) : P s' := by
  induction outcomes generalizing s recorded with
  | nil =>
    obtain ⟨-, rfl⟩ := pure_ok.1 h
    exact hs
  | cons head outcomes ih =>
    obtain ⟨changed, s₁, later, hone, hrest, rfl⟩ := recordEach_cons_ok h
    rcases recordOne_ok hone with ⟨rfl, rfl⟩ | ⟨e, after, row, hfind, hreport, rfl, hrow, rfl⟩
    · exact ih hrest hkept hs
    · refine ih hrest (fun s e after row id outcome hmem => ?_) ?_
      · exact hkept s e after row id outcome (List.mem_cons_of_mem _ hmem)
      · exact hkept s e after row _ _ List.mem_cons_self hs hfind hreport hrow

/-! ## The rest of the store -/

/-- Two stores that differ in their events at most. -/
structure SameLedger (s s' : Store) : Prop where
  moves : s'.moves = s.moves
  balances : s'.balances = s.balances
  receipts : s'.receipts = s.receipts
  audit : s'.audit = s.audit
  counter : s'.counter = s.counter

theorem SameLedger.refl (s : Store) : SameLedger s s := ⟨rfl, rfl, rfl, rfl, rfl⟩

theorem SameLedger.update_events {s₀ : Store} (h : SameLedger s₀ s) (f : Table → Table) :
    SameLedger s₀ (s.update .events f) :=
  ⟨h.moves, h.balances, h.receipts, h.audit, h.counter⟩

theorem SameLedger.settle {s₀ : Store} (h : SameLedger s₀ s) (id : UInt64) (outcome : Outcome) :
    SameLedger s₀ (settle id outcome s) := by
  unfold Outbox.settle
  split
  · exact ⟨h.moves, h.balances, h.receipts, h.audit, h.counter⟩
  · exact h

theorem stamp_sameLedger (now : Date) (worker : String) (lease : Duration) (ids : List UInt64)
    (s : Store) : SameLedger s (stamp now worker lease ids s).2 :=
  stamp_invariant (fun _ _ _ _ h _ _ _ => h.update_events _) ids (.refl s)

theorem claim_sameLedger (seen stamped : Date) (worker : String) (limit : Nat)
    (lease : Duration) (s : Store) :
    SameLedger s (claim seen stamped worker limit lease s).2 :=
  claim_invariant (fun _ _ _ _ h _ _ _ => h.update_events _) limit (.refl s)

theorem complete_sameLedger (now : Date) (worker : String) (outcomes : List (UInt64 × Outcome))
    (s : Store) : SameLedger s (complete now worker outcomes s).2 :=
  complete_invariant (fun _ _ _ _ id outcome _ h _ _ _ => (h.settle id outcome).update_events _)
    (.refl s)

end Stockroom.Outbox
