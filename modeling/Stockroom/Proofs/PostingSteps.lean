import Stockroom.Ledger.Posting
import Stockroom.Proofs.Transactions

/-!
# What posting a move does

A call has two steps. Each ends in one of a few ways, and the results say which: everything later
about calls follows from them and none of it opens the steps again.

Results:
1. `consider_cases`: the ways admission ends. It changes no row, and a draft is `Genuine`.
2. `Draft.Writes`: what a committed move leaves in each table.
3. `commit_cases`: commitment writes all of it, or answers from a receipt, or fails; in the last two
   cases the store stays as it was.
-/
namespace Stockroom.Ledger

open Store (find? writeRow_ok find?_eq_ok_none)
open Store.Transaction

/-! ## Admission -/

/-- The store once two numbers have been taken from it. -/
def twoTaken (s : Store) : Store := s.takeNumber.2.takeNumber.2

/-- What every admitted draft is: its request was read, and it is ready to be written. -/
structure Draft.Genuine (d : Draft) : Prop where
  keyed : Text.trim d.call.idempotencyKey ≠ ""
  read : ∃ valid, d.call.request.validate = .ok valid ∧
    d.move = d.call.move valid d.move.id d.move.createdAt
  dated : d.move.createdAt.IsSettled
  row : Stored.encode d.move = some d.row

/-- A draft that was prepared from a store, with the numbers it took. -/
structure Draft.PreparedFrom (d : Draft) (s : Store) : Prop extends d.Genuine where
  first : find? s.receipts d.call.receiptKey = (.ok none : Except Fault (Option Receipt))
  event : d.event = s.takeNumber.1
  auditNumber : d.auditNumber = s.takeNumber.2.takeNumber.1

variable {c : Call} {id : Identifier} {now : Date} {s s' : Store}

/-- A request is read field by field. -/
theorem validate_ok {r : MoveRequest} {valid : ValidMove} (h : r.validate = .ok valid) :
    scanIdentifier "item_id" r.item = .ok valid.item ∧
    scanQuantity r.quantity = .ok valid.quantity ∧
    scanIdentifier "from_location_id" r.origin = .ok valid.origin ∧
    scanIdentifier "to_location_id" r.destination = .ok valid.destination ∧
    valid.reason = Text.trim r.reason := by
  obtain ⟨item, hitem, h⟩ := bind_eq_ok.1 h
  obtain ⟨quantity, hquantity, h⟩ := bind_eq_ok.1 h
  obtain ⟨origin, horigin, h⟩ := bind_eq_ok.1 h
  obtain ⟨destination, hdestination, h⟩ := bind_eq_ok.1 h
  cases h
  exact ⟨hitem, hquantity, horigin, hdestination, rfl⟩

theorem scanIdentifier_ne_overflow (field value : String) (item location : Identifier) :
    scanIdentifier field value ≠ .error (.balanceOverflow item location) := by
  unfold scanIdentifier
  split <;> exact nofun

theorem scanQuantity_ne_overflow (value : String) (item location : Identifier) :
    scanQuantity value ≠ .error (.balanceOverflow item location) := by
  unfold scanQuantity
  split
  · split <;> exact nofun
  · exact nofun

theorem validate_ne_overflow (r : MoveRequest) (item location : Identifier) :
    r.validate ≠ .error (.balanceOverflow item location) := by
  intro h
  rcases bind_eq_error.1 h with h | ⟨_, -, h⟩
  · exact scanIdentifier_ne_overflow _ _ _ _ h
  rcases bind_eq_error.1 h with h | ⟨_, -, h⟩
  · exact scanQuantity_ne_overflow _ _ _ h
  rcases bind_eq_error.1 h with h | ⟨_, -, h⟩
  · exact scanIdentifier_ne_overflow _ _ _ _ h
  rcases bind_eq_error.1 h with h | ⟨_, -, h⟩
  · exact scanIdentifier_ne_overflow _ _ _ _ h
  · cases h

theorem prepare_eq (c : Call) (valid : ValidMove) (id : Identifier) (now : Date) (s : Store) :
    prepare c valid id now s =
      ((Store.writeRow (c.move valid id now)).map fun row =>
        .drafted ⟨c, c.move valid id now, row, s.takeNumber.1, s.takeNumber.2.takeNumber.1⟩,
        twoTaken s) :=
  rfl

/-- The ways admission ends: with a draft; with a receipt that was found; or with a fault, which is
never about a balance. -/
theorem consider_cases (c : Call) (id : Identifier) (now : Date) (s : Store) :
    (∃ d : Draft, consider c id now s = (.ok (.drafted d), twoTaken s) ∧ d.PreparedFrom s ∧
      d.call = c ∧ d.move.id = id ∧ d.move.createdAt = now) ∨
    (∃ receipt : Receipt, Text.trim c.idempotencyKey ≠ "" ∧
      find? s.receipts c.receiptKey = .ok (some receipt) ∧
      consider c id now s = ((receipt.answer c.request.digest).map .answered, s)) ∨
    (∃ e s', consider c id now s = (.error e, s') ∧ (s' = s ∨ s' = twoTaken s) ∧
      ∀ item location, e ≠ .refused (.balanceOverflow item location)) := by
  by_cases hkey : Text.trim c.idempotencyKey = ""
  · exact .inr (.inr ⟨.refused .keyRequired, s, by rw [consider, if_pos hkey], .inl rfl, nofun⟩)
  cases hfind : (find? s.receipts c.receiptKey : Except Fault (Option Receipt)) with
  | error e =>
    refine .inr (.inr ⟨e, s, by rw [consider, if_neg hkey, hfind], .inl rfl, ?_⟩)
    rw [Store.find?_eq_error hfind]
    exact nofun
  | ok found =>
  cases found with
  | some receipt => exact .inr (.inl ⟨receipt, hkey, rfl, by rw [consider, if_neg hkey, hfind]⟩)
  | none =>
  cases hvalid : c.request.validate with
  | error why =>
    refine .inr (.inr ⟨.refused why, s, ?_, .inl rfl, ?_⟩)
    · simp only [consider, if_neg hkey, hfind, hvalid]
    · rintro item location heq
      cases heq
      exact validate_ne_overflow _ _ _ hvalid
  | ok valid =>
  have hprepare : consider c id now s = prepare c valid id now s := by
    simp only [consider, if_neg hkey, hfind, hvalid]
  rw [hprepare, prepare_eq]
  cases hrow : Store.writeRow (c.move valid id now) with
  | error e =>
    refine .inr (.inr ⟨e, twoTaken s, rfl, .inr rfl, ?_⟩)
    unfold Store.writeRow at hrow
    split at hrow
    · cases hrow
    · cases hrow
      exact nofun
  | ok row =>
    refine .inl ⟨_, rfl, ⟨⟨hkey, ⟨valid, hvalid, rfl⟩, Instant.isSettled_ofDate now,
      writeRow_ok.1 hrow⟩, hfind, rfl, rfl⟩, rfl, rfl, rfl⟩

/-! ## Commitment -/

/-- What a table of balances says of an item at a location. -/
def balanceIn (item location : Identifier) (t : Table) : Except Fault Balance :=
  (find? t (Balance.key item location)).map (·.getD (.zero item location))

/-- One balance has changed by a quantity, from one table of balances to the next. -/
def Shifted (change : Quantity → Quantity → Option Quantity) (item location : Identifier)
    (q : Quantity) (t t' : Table) : Prop :=
  ∃ (b : Balance) (onHand : Quantity) (row : Bytes), balanceIn item location t = .ok b ∧
    change b.onHand q = some onHand ∧ Stored.encode { b with onHand } = some row ∧
    t' = t.insert (Balance.key item location) row

/-- What a change of one balance comes to, once the balance has been read. -/
theorem shift_eq (change : Quantity → Quantity → Option Quantity) {item location : Identifier}
    (q : Quantity) {b : Balance} (h : balanceIn item location s.balances = .ok b) :
    shift change item location q s =
      match change b.onHand q with
      | none => .error (.refused (.balanceOverflow item location))
      | some onHand => put .balances (Balance.key item location) { b with onHand } s := by
  rw [balanceIn] at h
  cases hfind : (find? s.balances (Balance.key item location) : Except Fault (Option Balance)) with
  | error e =>
    rw [hfind] at h
    cases h
  | ok stored =>
    rw [hfind] at h
    cases h
    have hread : Store.Transaction.find? .balances (Balance.key item location) s =
        .ok (stored, s) := find?_ok.2 ⟨rfl, hfind⟩
    rw [shift, bind_of_ok hread]
    dsimp only
    cases change (stored.getD (.zero item location)).onHand q <;> rfl

theorem shift_ok {change : Quantity → Quantity → Option Quantity} {item location : Identifier}
    {q : Quantity} {u : Unit} (h : shift change item location q s = .ok (u, s')) :
    ∃ t, Shifted change item location q s.balances t ∧ s' = s.update .balances fun _ => t := by
  obtain ⟨stored, s₁, hfind, -⟩ := bind_ok.1 h
  obtain ⟨-, hfind⟩ := find?_ok.1 hfind
  have hbalance : balanceIn item location s.balances = .ok (stored.getD (.zero item location)) :=
    congrArg (Except.map _) hfind
  rw [shift_eq change q hbalance] at h
  split at h
  · cases h
  · next onHand hchange =>
    obtain ⟨row, hrow, rfl⟩ := put_ok.1 h
    exact ⟨_, ⟨_, onHand, row, hbalance, hchange, hrow, rfl⟩, rfl⟩

/-- What a committed move leaves in each table. -/
structure Draft.Writes (d : Draft) (now : Date) (s s' : Store) : Prop where
  moves : s'.moves = s.moves.insert d.move.id.bytes d.row
  balances : ∃ t,
    Shifted Quantity.sub? d.move.item d.move.origin d.move.quantity s.balances t ∧
    Shifted Quantity.add? d.move.item d.move.destination d.move.quantity t s'.balances
  events : ∃ row,
    Stored.encode (Outbox.Event.fresh d.event MoveNotice.topic d.payload now) = some row ∧
    s'.events = s.events.insert (Outbox.Event.key d.event) row
  pending : s'.pending = s.pending.insert (Outbox.Event.key d.event) []
  audit : s'.audit = (Stored.encode d.auditEntry).elim s.audit
    (s.audit.insert (AuditEntry.key d.auditNumber))
  receipts : ∃ row, Stored.encode d.receipt = some row ∧
    s'.receipts = s.receipts.insert d.call.receiptKey row
  counter : s'.counter = s.counter

theorem appendAudit_ok {n : UInt64} {entry : AuditEntry} {u : Unit}
    (h : appendAudit n entry s = .ok (u, s')) :
    s' = s.update .audit fun t => (Stored.encode entry).elim t (t.insert (AuditEntry.key n)) := by
  rw [appendAudit] at h
  cases hrow : Stored.encode entry with
  | some row =>
    rw [hrow] at h
    exact putRow_ok.1 h
  | none =>
    rw [hrow] at h
    obtain ⟨-, rfl⟩ := pure_ok.1 h
    rfl

theorem Draft.post_ok {d : Draft} {u : Unit} (h : d.post now s = .ok (u, s')) :
    d.Writes now s s' := by
  obtain ⟨_, s₁, hmoves, h⟩ := bind_ok.1 h
  obtain ⟨_, s₃, hbalances, h⟩ := bind_ok.1 h
  obtain ⟨_, s₂, hsub, hadd⟩ := bind_ok.1 hbalances
  obtain ⟨_, s₅, henqueue, h⟩ := bind_ok.1 h
  obtain ⟨_, s₄, hevents, hpending⟩ := bind_ok.1 henqueue
  obtain ⟨_, s₆, haudit, hreceipts⟩ := bind_ok.1 h
  obtain rfl := putRow_ok.1 hmoves
  obtain ⟨t, hshift, rfl⟩ := shift_ok hsub
  obtain ⟨t', hshift', rfl⟩ := shift_ok hadd
  obtain ⟨row, hrow, rfl⟩ := put_ok.1 hevents
  obtain rfl := putRow_ok.1 hpending
  obtain rfl := appendAudit_ok haudit
  obtain ⟨row', hrow', rfl⟩ := put_ok.1 hreceipts
  exact ⟨rfl, ⟨t, hshift, hshift'⟩, ⟨row, hrow, rfl⟩, rfl, rfl, ⟨row', hrow', rfl⟩, rfl⟩

/-- A receipt that is found is returned, and nothing is written. -/
theorem commitOnce_of_found {d : Draft} {receipt : Receipt} (now : Date)
    (h : find? s.receipts d.call.receiptKey = .ok (some receipt)) :
    Store.atomically (d.commitOnce now) s = (.ok (some receipt), s) := by
  have hread : Store.Transaction.find? .receipts d.call.receiptKey s = .ok (some receipt, s) :=
    find?_ok.2 ⟨rfl, h⟩
  rw [Store.atomically_ok, Draft.commitOnce, bind_of_ok hread]
  rfl

/-- A commitment fails where the receipts cannot be read, or where posting fails. -/
theorem commitOnce_error {d : Draft} {e : Fault}
    (h : Store.atomically (d.commitOnce now) s = (.error e, s)) :
    e = .corrupt .unreadable ∨ d.post now s = .error e := by
  have honce : d.commitOnce now s = .error e := by
    rw [Store.atomically] at h
    cases hrun : d.commitOnce now s with
    | error e' =>
      rw [hrun] at h
      cases h
      rfl
    | ok p =>
      rw [hrun] at h
      cases h
  rcases bind_error.1 honce with h | ⟨stored, s₁, hfind, h⟩
  · left
    rw [Store.Transaction.find?] at h
    cases hfind : (find? (s.table .receipts) d.call.receiptKey : Except Fault (Option Receipt)) with
    | error e' =>
      rw [hfind] at h
      cases h
      exact Store.find?_eq_error hfind
    | ok stored =>
      rw [hfind] at h
      cases h
  · right
    obtain ⟨rfl, -⟩ := find?_ok.1 hfind
    cases stored with
    | some receipt => cases h
    | none =>
      rcases bind_error.1 h with h | ⟨_, s₂, -, h⟩
      · exact h
      · cases h

/-- With no receipt yet, a commitment fails as posting does. -/
theorem commit_of_post_error {d : Draft} {e : Fault}
    (hfirst : find? s.receipts d.call.receiptKey = (.ok none : Except Fault (Option Receipt)))
    (hpost : d.post now s = .error e) : commit d now s = (.error e, s) := by
  have hread : Store.Transaction.find? .receipts d.call.receiptKey s =
      .ok ((none : Option Receipt), s) := find?_ok.2 ⟨rfl, hfirst⟩
  have honce : d.commitOnce now s = .error e := by
    rw [Draft.commitOnce, bind_of_ok hread]
    exact bind_of_error hpost
  rw [commit, Store.atomically, honce]

/-- The ways commitment ends: with everything written; with a receipt that was found; or with a
fault. Only the first changes the store. -/
theorem commit_cases (d : Draft) (now : Date) (s : Store) :
    (∃ s', Store.atomically (d.commitOnce now) s = (.ok none, s') ∧
      commit d now s = (.ok (.ok d.move.id), s') ∧ d.Writes now s s' ∧
      find? s.receipts d.call.receiptKey = (.ok none : Except Fault (Option Receipt))) ∨
    (∃ receipt : Receipt, Store.atomically (d.commitOnce now) s = (.ok (some receipt), s) ∧
      commit d now s = (receipt.answer d.call.request.digest, s) ∧
      find? s.receipts d.call.receiptKey = .ok (some receipt)) ∨
    (∃ e, Store.atomically (d.commitOnce now) s = (.error e, s) ∧
      commit d now s = (.error e, s)) := by
  obtain ⟨result, s', h⟩ : ∃ result s', Store.atomically (d.commitOnce now) s = (result, s') :=
    ⟨_, _, rfl⟩
  rw [commit, h]
  cases result with
  | error e =>
    have hsame : (Store.atomically (d.commitOnce now) s).2 = s := by
      refine Store.atomically_error (e := e) ?_
      rw [h]
    rw [h] at hsame
    cases hsame
    exact .inr (.inr ⟨e, rfl, rfl⟩)
  | ok found =>
    obtain ⟨stored, s₁, hfind, hrest⟩ := bind_ok.1 (Store.atomically_ok.1 h)
    obtain ⟨rfl, hfind⟩ := find?_ok.1 hfind
    cases stored with
    | some receipt =>
      obtain ⟨rfl, rfl⟩ := pure_ok.1 hrest
      exact .inr (.inl ⟨receipt, rfl, rfl, hfind⟩)
    | none =>
      obtain ⟨_, s₂, hpost, hpure⟩ := bind_ok.1 hrest
      obtain ⟨rfl, rfl⟩ := pure_ok.1 hpure
      exact .inl ⟨_, rfl, rfl, Draft.post_ok hpost, hfind⟩

end Stockroom.Ledger
