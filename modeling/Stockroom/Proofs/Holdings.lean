import Stockroom.Proofs.Books
import Stockroom.Proofs.StoredRecords
import Stockroom.Proofs.Sums

/-!
# Holdings

What is on hand, as a function of the item and the location, and how a move changes it. The table of
balances shows holdings, row by row, and posting a move does to the table what the move does to the
holdings. So after any run the table shows what the committed moves come to, one after the other.

Results:
1. `applyMove_shows` and `applyMove_refused`: the transaction follows the holdings.
2. `commit_of_allowed` and `commit_of_refused`: the holdings decide whether a draft is committed.
3. `Books.shown_run`: after any run the balances are what the committed moves come to.
-/
namespace Stockroom.Ledger

open Store (find? find?_eq_ok_some find?_eq_ok_none)
open Store.Transaction

/-! ## Holdings -/

/-- What is on hand, by item and location. -/
abbrev Holdings := Identifier → Identifier → Quantity

namespace Holdings

def nothing : Holdings := fun _ _ => .zero

/-- The same holdings but for one item at one location. -/
def set (h : Holdings) (item location : Identifier) (q : Quantity) : Holdings :=
  fun i l => if i = item ∧ l = location then q else h i l

/-- Change what is on hand of an item at a location by a quantity, where there is a result. -/
def shift (change : Quantity → Quantity → Option Quantity) (item location : Identifier)
    (q : Quantity) (h : Holdings) : Option Holdings :=
  (change (h item location) q).map (h.set item location)

/-- Take the quantity of a move from one location and bring it to the other. -/
def apply (h : Holdings) (m : Move) : Option Holdings := do
  let h ← h.shift Quantity.sub? m.item m.origin m.quantity
  h.shift Quantity.add? m.item m.destination m.quantity

/-- What moves come to, one after the other. -/
def ofMoves (ms : List Move) : Option Holdings := ms.foldlM apply nothing

theorem ofMoves_append {ms : List Move} {m : Move} {h : Holdings} :
    ofMoves (ms ++ [m]) = some h ↔
      ∃ before, ofMoves ms = some before ∧ before.apply m = some h := by
  rw [ofMoves, ofMoves, List.foldlM_append]
  simp [Option.bind_eq_some_iff]

theorem set_same (h : Holdings) (item location : Identifier) (q : Quantity) :
    h.set item location q item location = q :=
  if_pos ⟨rfl, rfl⟩

theorem set_other {h : Holdings} {item location i l : Identifier} {q : Quantity}
    (hne : ¬ (i = item ∧ l = location)) : h.set item location q i l = h i l :=
  if_neg hne

end Holdings

/-! ## Tables that show holdings -/

theorem balanceKey_injective {i l i' l' : Identifier}
    (h : Balance.key i l = Balance.key i' l') : i = i' ∧ l = l' := by
  have hlen : i.bytes.length = i'.bytes.length := by rw [i.length_bytes, i'.length_bytes]
  obtain ⟨hitem, hlocation⟩ := List.append_inj h hlen
  exact ⟨Identifier.ext hitem, Identifier.ext hlocation⟩

/-- A table of balances that holds these holdings: every row is a balance under its own key, and
what has no row is nothing. -/
structure Shows (t : Table) (h : Holdings) : Prop where
  row : ∀ key row, t.get? key = some row → ∃ item location, key = Balance.key item location ∧
    Stored.encode (⟨item, location, h item location, .zero⟩ : Balance) = some row
  absent : ∀ item location, t.get? (Balance.key item location) = none → h item location = .zero
  settled : ∀ item location, (h item location).IsSettled

theorem shows_empty : Shows .empty Holdings.nothing :=
  ⟨nofun, fun _ _ _ => rfl, fun _ _ => Quantity.isSettled_zero⟩

variable {t t' : Table} {h h' : Holdings} {item location : Identifier} {q : Quantity}
variable {change : Quantity → Quantity → Option Quantity}

theorem Shows.balanceIn_eq (hshows : Shows t h) (item location : Identifier) :
    balanceIn item location t = .ok ⟨item, location, h item location, .zero⟩ := by
  rw [balanceIn]
  cases hget : t.get? (Balance.key item location) with
  | none =>
    rw [find?_eq_ok_none.2 hget, hshows.absent item location hget]
    rfl
  | some row =>
    obtain ⟨item', location', hkey, hrow⟩ := hshows.row _ _ hget
    obtain ⟨rfl, rfl⟩ := balanceKey_injective hkey
    have hback := Balance.reads_back (b := ⟨item, location, h item location, .zero⟩)
      (hshows.settled item location) Quantity.isSettled_zero
    rw [find?_eq_ok_some.2 ⟨row, hget, hback.decode hrow⟩]
    rfl

/-- A balance put in its place is shown, and all others still are. -/
theorem Shows.insert (hshows : Shows t h) (hq : q.IsSettled) {row : Bytes}
    (hrow : Stored.encode (⟨item, location, q, .zero⟩ : Balance) = some row) :
    Shows (t.insert (Balance.key item location) row) (h.set item location q) := by
  -- a row of the new table is the one put there, or an old one under another key
  refine ⟨fun key row' hget => ?_, fun i l hget => ?_, fun i l => ?_⟩
  · rw [Table.get?_insert] at hget
    split at hget
    · next heq =>
      cases hget
      exact ⟨item, location, heq.symm, by rw [Holdings.set_same]; exact hrow⟩
    · next hne =>
      obtain ⟨i, l, rfl, hold⟩ := hshows.row key row' hget
      have hother : ¬ (i = item ∧ l = location) := by
        rintro ⟨rfl, rfl⟩
        exact hne rfl
      exact ⟨i, l, rfl, by rw [Holdings.set_other hother]; exact hold⟩
  · rw [Table.get?_insert] at hget
    split at hget
    · cases hget
    · next hne =>
      have hother : ¬ (i = item ∧ l = location) := by
        rintro ⟨rfl, rfl⟩
        exact hne rfl
      rw [Holdings.set_other hother]
      exact hshows.absent i l hget
  · unfold Holdings.set
    split
    · exact hq
    · exact hshows.settled i l

/-! ## Changes -/

/-- A change of a quantity that keeps the sign of nothing away. -/
def KeepsSettled (change : Quantity → Quantity → Option Quantity) (q : Quantity) : Prop :=
  ∀ a r, a.IsSettled → change a q = some r → r.IsSettled

theorem keepsSettled_add? (hq : q.IsSettled) : KeepsSettled Quantity.add? q :=
  fun _ _ ha hr => Quantity.isSettled_add? ha hq hr

theorem keepsSettled_sub? (hq : q.IsSettled) : KeepsSettled Quantity.sub? q :=
  fun _ _ ha hr => Quantity.isSettled_sub? ha hq hr

/-- A balance that has changed shows the holdings that have changed. -/
theorem Shifted.shows (hshifted : Shifted change item location q t t') (hshows : Shows t h)
    (hkeeps : KeepsSettled change q) :
    ∃ h', h.shift change item location q = some h' ∧ Shows t' h' := by
  obtain ⟨b, onHand, row, hbalance, hchange, hrow, rfl⟩ := hshifted
  rw [hshows.balanceIn_eq item location] at hbalance
  cases hbalance
  refine ⟨h.set item location onHand, ?_, ?_⟩
  · rw [Holdings.shift, hchange]
    rfl
  · exact hshows.insert (hkeeps _ _ (hshows.settled item location) hchange) hrow

/-- Where the holdings can change the balance can. -/
theorem shift_shows {s : Store} (hshows : Shows s.balances h) (hkeeps : KeepsSettled change q)
    (hshift : h.shift change item location q = some h') :
    ∃ t, shift change item location q s = .ok ((), s.update .balances fun _ => t) ∧
      Shows t h' := by
  obtain ⟨onHand, hchange, rfl⟩ := Option.map_eq_some_iff.1 hshift
  obtain ⟨row, hrow⟩ :=
    Balance.exists_row (⟨item, location, onHand, .zero⟩ : Balance)
  refine ⟨s.balances.insert (Balance.key item location) row, ?_, ?_⟩
  · rw [shift_eq change q (hshows.balanceIn_eq item location)]
    simp only [hchange]
    exact put_ok.2 ⟨row, hrow, rfl⟩
  · exact hshows.insert (hkeeps _ _ (hshows.settled item location) hchange) hrow

theorem shift_refused {s : Store} (hshows : Shows s.balances h)
    (hshift : h.shift change item location q = none) :
    shift change item location q s = .error (.refused (.balanceOverflow item location)) := by
  rw [shift_eq change q (hshows.balanceIn_eq item location)]
  simp only [Option.map_eq_none_iff.1 hshift]

/-- Where the holdings allow a move, the balances do. -/
theorem applyMove_shows {s : Store} {m : Move} (hshows : Shows s.balances h)
    (hsettled : m.quantity.IsSettled) (happly : h.apply m = some h') :
    ∃ t, applyMove m s = .ok ((), s.update .balances fun _ => t) ∧ Shows t h' := by
  obtain ⟨middle, hsub, hadd⟩ := Option.bind_eq_some_iff.1 happly
  obtain ⟨t, ht, hshows⟩ := shift_shows hshows (keepsSettled_sub? hsettled) hsub
  obtain ⟨t', ht', hshows'⟩ := shift_shows (s := s.update .balances fun _ => t) hshows
    (keepsSettled_add? hsettled) hadd
  refine ⟨t', ?_, hshows'⟩
  rw [applyMove, bind_of_ok ht, ht']
  rfl

/-- Where they do not, the move is refused at one of its locations. -/
theorem applyMove_refused {s : Store} {m : Move} (hshows : Shows s.balances h)
    (hsettled : m.quantity.IsSettled) (happly : h.apply m = none) :
    (h.shift Quantity.sub? m.item m.origin m.quantity = none ∧
      applyMove m s = .error (.refused (.balanceOverflow m.item m.origin))) ∨
    (∃ middle, h.shift Quantity.sub? m.item m.origin m.quantity = some middle ∧
      middle.shift Quantity.add? m.item m.destination m.quantity = none ∧
      applyMove m s = .error (.refused (.balanceOverflow m.item m.destination))) := by
  cases hsub : h.shift Quantity.sub? m.item m.origin m.quantity with
  | none =>
    refine .inl ⟨rfl, ?_⟩
    rw [applyMove]
    exact bind_of_error (shift_refused hshows hsub)
  | some middle =>
    rw [Holdings.apply, hsub] at happly
    obtain ⟨t, ht, hmiddle⟩ := shift_shows hshows (keepsSettled_sub? hsettled) hsub
    refine .inr ⟨middle, rfl, happly, ?_⟩
    rw [applyMove, bind_of_ok ht]
    exact shift_refused (s := s.update .balances fun _ => t) hmiddle happly

/-! ## Commitments -/

theorem validate_positive {r : MoveRequest} {valid : ValidMove} (hvalid : r.validate = .ok valid) :
    valid.quantity.isPositive = true := by
  obtain ⟨-, hquantity, -⟩ := validate_ok hvalid
  unfold scanQuantity at hquantity
  split at hquantity
  · split at hquantity
    · next hpositive =>
      cases hquantity
      exact hpositive
    · cases hquantity
  · cases hquantity

theorem isSettled_of_isPositive (hpositive : q.isPositive = true) : q.IsSettled := by
  intro hnegative
  have hunits : 0 < q.units := by simpa [Quantity.isPositive] using hpositive
  rw [Quantity.units, if_pos hnegative] at hunits
  omega

theorem Draft.Genuine.positive {d : Draft} (hd : d.Genuine) :
    d.move.quantity.isPositive = true := by
  obtain ⟨valid, hvalid, hmove⟩ := hd.read
  rw [hmove]
  exact validate_positive hvalid

theorem Draft.Genuine.settled {d : Draft} (hd : d.Genuine) : d.move.quantity.IsSettled :=
  isSettled_of_isPositive hd.positive

/-- What is written after the balances. -/
def Draft.leave (d : Draft) (now : Date) : Store.Transaction Unit := do
  enqueue d.event MoveNotice.topic d.payload now
  appendAudit d.auditNumber d.auditEntry
  put .receipts d.call.receiptKey d.receipt

theorem Draft.post_eq (d : Draft) (now : Date) (s : Store) :
    d.post now s =
      (applyMove d.move >>= fun _ => d.leave now)
        (s.update .moves (·.insert d.move.id.bytes d.row)) :=
  rfl

theorem Draft.leave_ok {d : Draft} (hd : d.Genuine) {now : Date} (hnow : now.Storable)
    (s : Store) : ∃ s', d.leave now s = .ok ((), s') := by
  have hcreated := Move.storable_of_encode hd.row
  obtain ⟨event, hevent⟩ :=
    Outbox.Event.exists_row_iff.2 (Outbox.Event.instants_fresh_iff.2 hnow)
  obtain ⟨receipt, hreceipt⟩ := Receipt.exists_row (r := d.receipt) hcreated
  obtain ⟨entry, hentry⟩ := AuditEntry.exists_row (e := d.auditEntry) hcreated
  obtain ⟨s₁, henqueue⟩ : ∃ s₁, enqueue d.event MoveNotice.topic d.payload now s = .ok ((), s₁) :=
    ⟨_, bind_ok.2 ⟨(), _, put_ok.2 ⟨event, hevent, rfl⟩, putRow_ok.2 rfl⟩⟩
  have haudit : appendAudit d.auditNumber d.auditEntry s₁ =
      .ok ((), s₁.update .audit (·.insert (AuditEntry.key d.auditNumber) entry)) := by
    rw [appendAudit, hentry]
    rfl
  exact ⟨_, bind_ok.2 ⟨(), s₁, henqueue, bind_ok.2 ⟨(), _, haudit,
    put_ok.2 ⟨receipt, hreceipt, rfl⟩⟩⟩⟩

theorem Draft.leave_error {d : Draft} {now : Date} {s : Store} {e : Fault}
    (h : d.leave now s = .error e) : e = .encoding .instant := by
  rcases bind_error.1 h with h | ⟨_, s₁, -, h⟩
  · rcases bind_error.1 h with h | ⟨_, s₂, -, h⟩
    · exact put_error h
    · cases h
  rcases bind_error.1 h with h | ⟨_, s₂, -, h⟩
  · rw [appendAudit] at h
    cases hentry : Stored.encode d.auditEntry with
    | none =>
      rw [hentry] at h
      cases h
    | some row =>
      rw [hentry] at h
      cases h
  · exact put_error h

/-- With no receipt yet, a commitment fails as the move does. -/
theorem commit_of_refused {d : Draft} {now : Date} {s : Store} {e : Fault}
    (hfirst : find? s.receipts d.call.receiptKey = (.ok none : Except Fault (Option Receipt)))
    (hmove : applyMove d.move (s.update .moves (·.insert d.move.id.bytes d.row)) = .error e) :
    commit d now s = (.error e, s) := by
  refine commit_of_post_error hfirst ?_
  rw [Draft.post_eq]
  exact bind_of_error hmove

/-- With no receipt yet, a commitment succeeds where the holdings allow the move and the clock can
be stored. -/
theorem commit_of_allowed {d : Draft} (hd : d.Genuine) {now : Date} (hnow : now.Storable)
    {s : Store}
    (hfirst : find? s.receipts d.call.receiptKey = (.ok none : Except Fault (Option Receipt)))
    (hshows : Shows s.balances h) (happly : h.apply d.move = some h') :
    ∃ s', commit d now s = (.ok (.ok d.move.id), s') ∧ d.Writes now s s' := by
  have hread : Store.Transaction.find? .receipts d.call.receiptKey s =
      .ok ((none : Option Receipt), s) := find?_ok.2 ⟨rfl, hfirst⟩
  obtain ⟨t, hmove, -⟩ := applyMove_shows
    (s := s.update .moves (·.insert d.move.id.bytes d.row)) hshows hd.settled happly
  obtain ⟨s', hleave⟩ := Draft.leave_ok hd hnow
    ((s.update .moves (·.insert d.move.id.bytes d.row)).update .balances fun _ => t)
  have hpost : d.post now s = .ok ((), s') := by
    rw [Draft.post_eq, bind_of_ok hmove, hleave]
  have honce : d.commitOnce now s = .ok (none, s') := by
    rw [Draft.commitOnce, bind_of_ok hread]
    exact bind_ok.2 ⟨(), s', hpost, rfl⟩
  refine ⟨s', ?_, Draft.post_ok hpost⟩
  rw [commit, Store.atomically, honce]

/-- What a committed move leaves shows the holdings after the move. -/
theorem Draft.Writes.shows {d : Draft} {now : Date} {s s' : Store} (hwrites : d.Writes now s s')
    (hd : d.Genuine) (hshows : Shows s.balances h) :
    ∃ h', h.apply d.move = some h' ∧ Shows s'.balances h' := by
  obtain ⟨t, hsub, hadd⟩ := hwrites.balances
  obtain ⟨middle, hmiddle, hshows⟩ := hsub.shows hshows (keepsSettled_sub? hd.settled)
  obtain ⟨h', hh', hshows⟩ := hadd.shows hshows (keepsSettled_add? hd.settled)
  refine ⟨h', ?_, hshows⟩
  rw [Holdings.apply, hmiddle]
  exact hh'

/-- A commitment fails because of a balance only where the holdings do not allow the move. -/
theorem apply_of_overflow {d : Draft} (hd : d.Genuine) {now : Date} {s : Store}
    (hshows : Shows s.balances h)
    (herror : Store.atomically (d.commitOnce now) s =
      (.error (.refused (.balanceOverflow item location)), s)) :
    item = d.move.item ∧ h.apply d.move = none := by
  rcases commitOnce_error herror with heq | hpost
  · cases heq
  rw [Draft.post_eq] at hpost
  rcases bind_error.1 hpost with hmove | ⟨_, s₁, -, hleave⟩
  · cases happly : h.apply d.move with
    | some h' =>
      obtain ⟨t, hok, -⟩ := applyMove_shows
        (s := s.update .moves (·.insert d.move.id.bytes d.row)) hshows hd.settled happly
      rw [hok] at hmove
      cases hmove
    | none =>
      rcases applyMove_refused (s := s.update .moves (·.insert d.move.id.bytes d.row)) hshows
        hd.settled happly with ⟨-, hrefused⟩ | ⟨middle, -, -, hrefused⟩
      · rw [hrefused] at hmove
        cases hmove
        exact ⟨rfl, rfl⟩
      · rw [hrefused] at hmove
        cases hmove
        exact ⟨rfl, rfl⟩
  · cases Draft.leave_error hleave

/-! ## Runs -/

namespace Books

/-- The balances are what the committed moves come to. -/
def Shown (b : Books) : Prop := ∃ h, Holdings.ofMoves b.moves = some h ∧ Shows b.store.balances h

theorem Shown.act {b : Books} {a : Action} {Q : Call → Prop} (hb : b.Shown)
    (hcalls : b.OfCalls Q) : (b.act a).Shown := by
  obtain ⟨h, hholdings, hshows⟩ := hb
  rcases act_posts b a with ⟨place, now, d, -, hplace, hwrites, -, hposted⟩ | ⟨hposted, hrows⟩
  · have hd := (hcalls.drafts d (List.mem_of_getElem? hplace)).1
    obtain ⟨h', happly, hshows⟩ := hwrites.shows hd hshows
    refine ⟨h', ?_, hshows⟩
    rw [moves, hposted, List.map_append]
    exact Holdings.ofMoves_append.2 ⟨h, hholdings, happly⟩
  · rw [Shown, moves, hposted, hrows.balances]
    exact ⟨h, hholdings, hshows⟩

/-- Whatever happened, the balances are what the committed moves come to. -/
theorem shown_run (actions : List Action) : (opened.run actions).Shown := by
  have hall : (opened.run actions).Shown ∧ (opened.run actions).OfCalls fun _ => True := by
    refine run_invariant (P := fun b => b.Shown ∧ b.OfCalls fun _ => True)
      ⟨⟨_, rfl, shows_empty⟩, nofun, nofun, nofun⟩ ?_
    rintro b a - ⟨hshown, hcalls⟩
    exact ⟨hshown.act hcalls, hcalls.act fun _ _ => trivial⟩
  exact hall.1

end Books

end Stockroom.Ledger
