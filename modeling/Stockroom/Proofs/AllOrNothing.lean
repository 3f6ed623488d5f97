import Stockroom.Proofs.Holdings

/-!
# All or nothing

A call, a claim and a report can fail at many points: a row cannot be read, a balance would need too
many digits, an instant cannot be stored. Where one of them fails, every table has the rows that it
had before, in every store, readable or not. Only the counter may have moved on. That holds as well
of the failures that come late, when other rows have been written already.

Results:
1. `consider_sameTables`, `post_sameTables`: a call that fails leaves every table alone.
2. `Shifted.shift_eq`, `shift_unreadable`: how the transaction goes on from a balance.
3. `mapM_of_error`, `recordAll_of_error`: a batch fails at the first event that fails.
4. `all_or_nothing`: the guarantee.
-/
namespace Stockroom

open Store (find?)
open Store.Transaction

/-- Two stores with the same rows in every table. -/
def SameTables (s s' : Store) : Prop := ∀ name, s'.table name = s.table name

/-- A row that is there and is not the record it should be. -/
def Spoiled (α : Type) [Stored α] (t : Table) (key : Bytes) : Prop :=
  ∃ row, t.get? key = some row ∧ (Stored.decode row : Option α) = none

section

variable {α β : Type} [Stored α] {s s₁ : Store}

theorem Spoiled.find?_eq {t : Table} {key : Bytes} (h : Spoiled α t key) :
    (find? t key : Except Fault (Option α)) = .error (.corrupt .unreadable) := by
  obtain ⟨row, hget, hdecode⟩ := h
  rw [Store.find?, hget]
  dsimp only
  rw [Store.readRow, hdecode]
  rfl

/-- A transaction that looks for a spoiled row ends there. -/
theorem Spoiled.find?_fails (name : TableName) {key : Bytes} (h : Spoiled α (s.table name) key) :
    (Store.Transaction.find? name key : Store.Transaction (Option α)) s =
      .error (.corrupt .unreadable) := by
  rw [Store.Transaction.find?, h.find?_eq]
  rfl

/-- A transaction that puts down what has no stored form ends there. -/
theorem put_of_none {name : TableName} {key : Bytes} {a : α} (h : Stored.encode a = none) :
    put name key a s = .error (.encoding .instant) := by
  rw [put, Store.writeRow, h]
  rfl

omit [Stored α] in
/-- What is done one by one fails where one of it fails, whatever went well before. -/
theorem mapM_of_error {f : α → Store.Transaction β} {before after : List α} {a : α} {bs : List β}
    {e : Fault} (hbefore : before.mapM f s = .ok (bs, s₁)) (herror : f a s₁ = .error e) :
    (before ++ a :: after).mapM f s = .error e := by
  rw [List.mapM_append, bind_of_ok hbefore, List.mapM_cons]
  exact bind_of_error (bind_of_error herror)

end

namespace Ledger

variable {s : Store} {t t' : Table} {item location : Identifier} {q : Quantity} {now : Date}
variable {change : Quantity → Quantity → Option Quantity}

/-! ## Balances -/

/-- Where one balance can change, the transaction goes on with the new table. -/
theorem Shifted.shift_eq (h : Shifted change item location q s.balances t) :
    shift change item location q s = .ok ((), s.update .balances fun _ => t) := by
  obtain ⟨b, onHand, row, hbalance, hchange, hrow, rfl⟩ := h
  rw [Ledger.shift_eq change q hbalance, hchange]
  exact put_ok.2 ⟨row, hrow, rfl⟩

theorem shift_unreadable (change : Quantity → Quantity → Option Quantity) (q : Quantity)
    (h : Spoiled Balance s.balances (Balance.key item location)) :
    shift change item location q s = .error (.corrupt .unreadable) := by
  rw [shift]
  exact bind_of_error (Spoiled.find?_fails .balances h)

/-- Once the first balance has been written, a move is what becomes of the second. -/
theorem applyMove_of_first {m : Move}
    (hsub : Shifted Quantity.sub? m.item m.origin m.quantity s.balances t) :
    applyMove m s =
      shift Quantity.add? m.item m.destination m.quantity (s.update .balances fun _ => t) :=
  bind_of_ok hsub.shift_eq

theorem shift_overflow {b : Balance} (hbalance : balanceIn item location s.balances = .ok b)
    (hchange : change b.onHand q = none) :
    shift change item location q s = .error (.refused (.balanceOverflow item location)) := by
  rw [Ledger.shift_eq change q hbalance, hchange]

/-- A commitment fails as the second balance does. -/
theorem commit_of_second {d : Draft} {e : Fault}
    (hfirst : find? s.receipts d.call.receiptKey = (.ok none : Except Fault (Option Receipt)))
    (hsub : Shifted Quantity.sub? d.move.item d.move.origin d.move.quantity s.balances t)
    (hadd : ∀ s₁ : Store, s₁.balances = t →
      shift Quantity.add? d.move.item d.move.destination d.move.quantity s₁ = .error e) :
    commit d now s = (.error e, s) := by
  refine commit_of_refused hfirst ?_
  rw [applyMove_of_first (s := s.update .moves (·.insert d.move.id.bytes d.row)) hsub]
  exact hadd _ rfl

/-- When both balances have been written, an instant that cannot be stored fails the event. -/
theorem post_of_unstorable {d : Draft}
    (hsub : Shifted Quantity.sub? d.move.item d.move.origin d.move.quantity s.balances t)
    (hadd : Shifted Quantity.add? d.move.item d.move.destination d.move.quantity t t')
    (hnow : ¬ now.Storable) : d.post now s = .error (.encoding .instant) := by
  have hfresh : Stored.encode
      (Outbox.Event.fresh d.event MoveNotice.topic d.payload now) = none := by
    rw [← Option.not_isSome_iff_eq_none, Option.isSome_iff_exists]
    exact fun hrow => hnow (Outbox.Event.instants_fresh_iff.1 (Outbox.Event.exists_row_iff.1 hrow))
  have hmove := (applyMove_of_first
    (s := s.update .moves (·.insert d.move.id.bytes d.row)) hsub).trans (Shifted.shift_eq hadd)
  rw [Draft.post_eq, bind_of_ok hmove]
  exact bind_of_error (bind_of_error (put_of_none hfresh))

/-! ## Calls -/

theorem counter_twoTaken_or {s s' : Store} (h : s' = s ∨ s' = twoTaken s) :
    SameTables s s' ∧ (s'.counter = s.counter ∨ s'.counter = s.counter.take.2.take.2) := by
  rcases h with rfl | rfl
  · exact ⟨fun _ => rfl, .inl rfl⟩
  · exact ⟨fun name => by cases name <;> rfl, .inr rfl⟩

/-- Admission writes nothing, however it ends. -/
theorem consider_sameTables (c : Call) (id : Identifier) (now : Date) (s : Store) :
    (consider c id now s).2 = s ∨ (consider c id now s).2 = twoTaken s := by
  rcases consider_cases c id now s with ⟨d, h, -⟩ | ⟨receipt, -, -, h⟩ | ⟨e, s', h, hs, -⟩
  · rw [h]
    exact .inr rfl
  · rw [h]
    exact .inl rfl
  · rw [h]
    exact hs

theorem commit_error {d : Draft} {e : Fault} {s' : Store}
    (h : commit d now s = (.error e, s')) : s' = s := by
  rcases commit_cases d now s with ⟨s₁, -, hcommit, -⟩ | ⟨receipt, -, hcommit, -⟩ | ⟨e', -, hcommit⟩
  · rw [hcommit] at h
    cases h
  · rw [hcommit] at h
    exact (congrArg Prod.snd h).symm
  · rw [hcommit] at h
    exact (congrArg Prod.snd h).symm

/-- A call that fails has written nothing. -/
theorem post_sameTables {c : Call} {id : Identifier} {e : Fault} {s' : Store}
    (h : post c id now s = (.error e, s')) : s' = s ∨ s' = twoTaken s := by
  have hadmitted := consider_sameTables c id now s
  rw [post] at h
  rcases hconsider : consider c id now s with ⟨e | answer | d, s₁⟩
  · rw [hconsider] at h hadmitted
    cases h
    exact hadmitted
  · rw [hconsider] at h
    cases h
  · rw [hconsider] at h hadmitted
    rw [commit_error h]
    exact hadmitted

end Ledger

namespace Outbox

variable {s s₁ : Store} {now leaseEnd : Date} {worker : String} {id : UInt64}

/-! ## Batches -/

theorem stampOne_unreadable (h : Spoiled Event s.events (Event.key id)) :
    stampOne now worker leaseEnd id s = .error (.corrupt .unreadable) := by
  rw [stampOne]
  exact bind_of_error (Spoiled.find?_fails .events h)

/-- A lease whose end cannot be stored fails at the first event that is free. -/
theorem stampOne_unstorable {e : Event} (hfind : find? s.events (Event.key id) = .ok (some e))
    (hfree : e.isClaimable now = true) (hend : ¬ leaseEnd.Storable) :
    stampOne now worker leaseEnd id s = .error (.encoding .instant) := by
  have hclaim : Stored.encode (e.claim worker leaseEnd) = none := by
    rw [← Option.not_isSome_iff_eq_none, Option.isSome_iff_exists]
    exact fun hrow => hend (Event.exists_row_iff.1 hrow).of_claim
  have hread : Store.Transaction.find? .events (Event.key id) s = .ok (some e, s) :=
    find?_ok.2 ⟨rfl, hfind⟩
  rw [stampOne, bind_of_ok hread]
  dsimp only
  rw [if_pos hfree]
  exact bind_of_error (put_of_none hclaim)

/-- A batch fails at the first event that cannot be stamped, whatever was stamped before. -/
theorem stamp_of_error {lease : Duration} {before after : List UInt64} {stamped : List Event}
    {e : Fault} (hbefore : stampAll now worker (now.after lease) before s = .ok (stamped, s₁))
    (herror : stampOne now worker (now.after lease) id s₁ = .error e) :
    stamp now worker lease (before ++ id :: after) s = (.error e, s) := by
  obtain ⟨found, s₂, hmapM, hpure⟩ := bind_ok.1 hbefore
  obtain ⟨-, rfl⟩ := pure_ok.1 hpure
  have hall : stampAll now worker (now.after lease) (before ++ id :: after) s = .error e := by
    rw [stampAll]
    exact bind_of_error (mapM_of_error hmapM herror)
  rw [stamp, if_neg (by simp), Store.atomically, hall]

theorem recordOne_unreadable {outcome : Outcome} (h : Spoiled Event s.events (Event.key id)) :
    recordOne now worker id outcome s = .error (.corrupt .unreadable) := by
  rw [recordOne]
  exact bind_of_error (Spoiled.find?_fails .events h)

/-- Outcomes are recorded up to the first that cannot be. -/
theorem recordAll_of_error {before after : List (UInt64 × Outcome)} {outcome : Outcome} {n : Nat}
    {e : Fault} (hbefore : recordAll now worker before s = .ok (n, s₁))
    (herror : recordOne now worker id outcome s₁ = .error e) :
    recordAll now worker (before ++ (id, outcome) :: after) s = .error e := by
  induction before generalizing s n with
  | nil =>
    obtain ⟨-, rfl⟩ := pure_ok.1 hbefore
    exact bind_of_error herror
  | cons head before ih =>
    obtain ⟨first, outcome'⟩ := head
    obtain ⟨changed, m, s₂, hone, hrest, -⟩ := recordAll_cons_ok.1 hbefore
    rw [List.cons_append, recordAll, bind_of_ok hone]
    exact bind_of_error (ih hrest)

/-- A success that is recorded under a clock that cannot be stored fails, although the event has
been taken out of the pending ones by then. -/
theorem recordOne_unstorable {e : Event} (hfind : find? s.events (Event.key id) = .ok (some e))
    (hpending : e.isPending = true) (hnow : ¬ now.Storable) :
    recordOne now worker id .sent s = .error (.encoding .instant) := by
  have hreport : Event.report now worker e .sent = some (e.sent now) := if_pos hpending
  have hsent : Stored.encode (e.sent now) = none := by
    rw [← Option.not_isSome_iff_eq_none, Option.isSome_iff_exists]
    exact fun hrow => hnow (Event.exists_row_iff.1 hrow).of_sent
  rw [recordOne_of_report hfind hreport]
  exact bind_of_error (put_of_none hsent)

theorem complete_of_error {outcomes : List (UInt64 × Outcome)} {e : Fault}
    (h : recordAll now worker outcomes s = .error e) :
    complete now worker outcomes s = (.error e, s) := by
  rw [complete, Store.atomically, h]

theorem stamp_error {lease : Duration} {ids : List UInt64} {e : Fault} {s' : Store}
    (h : stamp now worker lease ids s = (.error e, s')) : s' = s := by
  rw [stamp] at h
  split at h
  · cases h
  · have hsame := Store.atomically_error (congrArg Prod.fst h)
    rw [h] at hsame
    exact hsame

theorem claim_error {seen stamped : Date} {limit : Nat} {lease : Duration} {e : Fault}
    {s' : Store} (h : claim seen stamped worker limit lease s = (.error e, s')) : s' = s := by
  rw [claim] at h
  split at h
  · exact (congrArg Prod.snd h).symm
  · exact stamp_error h

theorem complete_error {outcomes : List (UInt64 × Outcome)} {e : Fault} {s' : Store}
    (h : complete now worker outcomes s = (.error e, s')) : s' = s := by
  have hsame := Store.atomically_error (congrArg Prod.fst h)
  rw [complete] at h
  rw [h] at hsame
  exact hsame

end Outbox

/-! ## The guarantee -/

open Ledger (Draft Shifted balanceIn)
open Outbox (Event)

/-- What is promised of everything that fails on a store, whatever its rows are. -/
structure AllOrNothing (s : Store) : Prop where
  /-- A call that fails leaves every table alone, and takes two numbers at most. -/
  call : ∀ c id now e s', Ledger.post c id now s = (.error e, s') →
    SameTables s s' ∧ (s'.counter = s.counter ∨ s'.counter = s.counter.take.2.take.2)
  /-- Others may come between the two steps of a call. The first writes nothing in any case. -/
  admission : ∀ c id now result s', Ledger.consider c id now s = (result, s') →
    SameTables s s' ∧ (s'.counter = s.counter ∨ s'.counter = s.counter.take.2.take.2)
  commitment : ∀ d now e s', Ledger.commit d now s = (.error e, s') → s' = s
  claim : ∀ seen stamped worker limit lease e s',
    Outbox.claim seen stamped worker limit lease s = (.error e, s') → s' = s
  /-- Others may come between the two steps of a claim as well. -/
  stamp : ∀ now worker lease ids e s',
    Outbox.stamp now worker lease ids s = (.error e, s') → s' = s
  complete : ∀ now worker outcomes e s',
    Outbox.complete now worker outcomes s = (.error e, s') → s' = s
  /-- The first balance is written, and the second cannot be read. -/
  secondUnreadable : ∀ (d : Draft) now t,
    find? s.receipts d.call.receiptKey = (.ok none : Except Fault (Option Receipt)) →
    Shifted Quantity.sub? d.move.item d.move.origin d.move.quantity s.balances t →
    Spoiled Balance t (Balance.key d.move.item d.move.destination) →
    Ledger.commit d now s = (.error (.corrupt .unreadable), s)
  /-- The first balance is written, and the second becomes too large. -/
  secondOverflow : ∀ (d : Draft) now t b,
    find? s.receipts d.call.receiptKey = (.ok none : Except Fault (Option Receipt)) →
    Shifted Quantity.sub? d.move.item d.move.origin d.move.quantity s.balances t →
    balanceIn d.move.item d.move.destination t = .ok b → b.onHand.add? d.move.quantity = none →
    Ledger.commit d now s =
      (.error (.refused (.balanceOverflow d.move.item d.move.destination)), s)
  /-- Both balances are written, and the event cannot be. -/
  eventUnstorable : ∀ (d : Draft) now t t',
    find? s.receipts d.call.receiptKey = (.ok none : Except Fault (Option Receipt)) →
    Shifted Quantity.sub? d.move.item d.move.origin d.move.quantity s.balances t →
    Shifted Quantity.add? d.move.item d.move.destination d.move.quantity t t' →
    ¬ now.Storable → Ledger.commit d now s = (.error (.encoding .instant), s)
  /-- Part of a batch is stamped, and the next event cannot be read. -/
  stampUnreadable : ∀ now worker (lease : Duration) before id after stamped s₁,
    Outbox.stampAll now worker (now.after lease) before s = .ok (stamped, s₁) →
    Spoiled Event s₁.events (Event.key id) →
    Outbox.stamp now worker lease (before ++ id :: after) s = (.error (.corrupt .unreadable), s)
  /-- Part of a batch is stamped, and the end of the lease cannot be stored. -/
  stampUnstorable : ∀ now worker (lease : Duration) before id after stamped s₁ (e : Event),
    Outbox.stampAll now worker (now.after lease) before s = .ok (stamped, s₁) →
    find? s₁.events (Event.key id) = .ok (some e) → e.isClaimable now = true →
    ¬ (now.after lease).Storable →
    Outbox.stamp now worker lease (before ++ id :: after) s = (.error (.encoding .instant), s)
  /-- Part of a report is recorded, and the next event cannot be read. -/
  recordUnreadable : ∀ now worker before id outcome after n s₁,
    Outbox.recordAll now worker before s = .ok (n, s₁) →
    Spoiled Event s₁.events (Event.key id) →
    Outbox.complete now worker (before ++ (id, outcome) :: after) s =
      (.error (.corrupt .unreadable), s)
  /-- Part of a report is recorded, and the instant of a success cannot be stored. -/
  recordUnstorable : ∀ now worker before id after n s₁ (e : Event),
    Outbox.recordAll now worker before s = .ok (n, s₁) →
    find? s₁.events (Event.key id) = .ok (some e) → e.isPending = true → ¬ now.Storable →
    Outbox.complete now worker (before ++ (id, .sent) :: after) s = (.error (.encoding .instant), s)

/-- In every store, whatever rows it holds, what fails changes no table. -/
theorem all_or_nothing (s : Store) : AllOrNothing s := by
  constructor
  case call => exact fun _ _ _ _ _ h => Ledger.counter_twoTaken_or (Ledger.post_sameTables h)
  case admission =>
    intro c id now result s' h
    have hadmitted := Ledger.consider_sameTables c id now s
    rw [h] at hadmitted
    exact Ledger.counter_twoTaken_or hadmitted
  case commitment => exact fun _ _ _ _ => Ledger.commit_error
  case claim => exact fun _ _ _ _ _ _ _ => Outbox.claim_error
  case stamp => exact fun _ _ _ _ _ _ => Outbox.stamp_error
  case complete => exact fun _ _ _ _ _ => Outbox.complete_error
  case secondUnreadable =>
    intro d now t hfirst hsub hspoiled
    exact Ledger.commit_of_second hfirst hsub fun s₁ hs₁ =>
      Ledger.shift_unreadable _ _ (hs₁ ▸ hspoiled)
  case secondOverflow =>
    intro d now t b hfirst hsub hbalance hadd
    exact Ledger.commit_of_second hfirst hsub fun s₁ hs₁ =>
      Ledger.shift_overflow (hs₁ ▸ hbalance) hadd
  case eventUnstorable =>
    intro d now t t' hfirst hsub hadd hnow
    exact Ledger.commit_of_post_error hfirst (Ledger.post_of_unstorable hsub hadd hnow)
  case stampUnreadable =>
    intro now worker lease before id after stamped s₁ hbefore hspoiled
    exact Outbox.stamp_of_error hbefore (Outbox.stampOne_unreadable hspoiled)
  case stampUnstorable =>
    intro now worker lease before id after stamped s₁ e hbefore hfind hfree hend
    exact Outbox.stamp_of_error hbefore (Outbox.stampOne_unstorable hfind hfree hend)
  case recordUnreadable =>
    intro now worker before id outcome after n s₁ hbefore hspoiled
    refine Outbox.complete_of_error (Outbox.recordAll_of_error hbefore ?_)
    exact Outbox.recordOne_unreadable hspoiled
  case recordUnstorable =>
    intro now worker before id after n s₁ e hbefore hfind hpending hnow
    refine Outbox.complete_of_error (Outbox.recordAll_of_error hbefore ?_)
    exact Outbox.recordOne_unstorable hfind hpending hnow

/-! ### A balance that is no record -/

/-- A store with a row that cannot be read, where the balance of an item at a location should be. -/
def spoiledAt (item location : Identifier) : Store :=
  Store.empty.update .balances (·.insert (Balance.key item location) [0xff])

/-- The quantity has been taken from the origin when the balance at the destination turns out to be
no record. Nothing of that is left, except that two numbers have been taken. -/
theorem all_or_nothing_spoiled :
    (Ledger.post (.plain "a" "5" 2 3) (.fresh 0 5) ⟨0⟩ (spoiledAt (.fresh 0 1) (.fresh 0 3))).1 =
      .error (.corrupt .unreadable) ∧
    SameTables (spoiledAt (.fresh 0 1) (.fresh 0 3))
      (Ledger.post (.plain "a" "5" 2 3) (.fresh 0 5) ⟨0⟩ (spoiledAt (.fresh 0 1) (.fresh 0 3))).2 := by
  have hfails : (Ledger.post (.plain "a" "5" 2 3) (.fresh 0 5) ⟨0⟩
      (spoiledAt (.fresh 0 1) (.fresh 0 3))).1 = .error (.corrupt .unreadable) := by decide +kernel
  refine ⟨hfails, ((all_or_nothing _).call (.plain "a" "5" 2 3) (.fresh 0 5) ⟨0⟩
    (.corrupt .unreadable) _ ?_).1⟩
  rw [← hfails]

end Stockroom
