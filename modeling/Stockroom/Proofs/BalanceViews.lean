import Stockroom.Ledger.Query
import Stockroom.Proofs.Flows
import Stockroom.Proofs.Replays

/-!
# Balances as a view of the ledger

A balance is stored and changed move by move, and its row is written and read anew each time.
Nothing is lost on the way: what is on hand of an item at a location is what one finds by going
through the committed moves of the item from the first to the last, with the same decimals. Calls
that commit nothing leave no trace in the balances.

Results:
1. `recomputed_of_ofMoves`: going through the moves of one item, with one location in mind, finds
   what the holdings say.
2. `Draft.Writes.isSome_balance`: a committed move gives rows to its two locations and to no others.
3. `Books.act_moves`: an action adds one move to the committed ones, or leaves the balances alone.
4. `balances_are_view`: the guarantee.
5. `balances_view_rows`: the same of the moves that are read from the rows of the ledger.
-/
namespace Stockroom.Ledger

open Store (find?)

variable {item location : Identifier}

/-! ## Going through the moves -/

/-- What a move makes of what is on hand at a location. It takes away first and brings then. -/
def passing (location : Identifier) (q : Quantity) (m : Move) : Option Quantity :=
  (if m.origin = location then q.sub? m.quantity else some q).bind fun q =>
    if m.destination = location then q.add? m.quantity else some q

/-- What the moves of an item leave at a location, one after the other from nothing. -/
def recomputed (item location : Identifier) (ms : List Move) : Option Quantity :=
  (ms.filter (·.item = item)).foldlM (passing location) .zero

/-- A move names an item at a location. -/
def Names (item location : Identifier) (m : Move) : Prop :=
  m.item = item ∧ (m.origin = location ∨ m.destination = location)

theorem shift_at {h h' : Holdings} {change : Quantity → Quantity → Option Quantity}
    {l : Identifier} {q : Quantity} (hshift : h.shift change item l q = some h') :
    (if l = location then change (h item location) q else some (h item location)) =
      some (h' item location) := by
  obtain ⟨r, hr, rfl⟩ := Option.map_eq_some_iff.1 hshift
  split
  · next heq =>
    subst heq
    rw [hr, Holdings.set_same]
  · next hne => rw [Holdings.set_other fun hboth => hne hboth.2.symm]

/-- The holdings change at a location as the move says. -/
theorem passing_of_apply {h h' : Holdings} {m : Move} (happly : h.apply m = some h')
    (location : Identifier) :
    passing location (h m.item location) m = some (h' m.item location) := by
  obtain ⟨middle, hsub, hadd⟩ := Option.bind_eq_some_iff.1 happly
  rw [passing, shift_at hsub]
  exact shift_at hadd

/-- Going through the moves of one item, with one location in mind, finds what the holdings say. -/
theorem recomputed_of_ofMoves {ms : List Move} {h : Holdings}
    (hholdings : Holdings.ofMoves ms = some h) (item location : Identifier) :
    recomputed item location ms = some (h item location) := by
  induction ms using List.reverseRecOn generalizing h with
  | nil =>
    cases hholdings
    rfl
  | append_singleton ms m ih =>
    obtain ⟨before, hbefore, happly⟩ := Holdings.ofMoves_append.1 hholdings
    have hsofar := ih hbefore
    unfold recomputed at hsofar ⊢
    rw [List.filter_append, List.foldlM_append, hsofar]
    by_cases hitem : m.item = item
    · rw [List.filter_cons_of_pos (by simpa using hitem), List.filter_nil]
      subst hitem
      simpa using passing_of_apply happly location
    · rw [List.filter_cons_of_neg (by simpa using hitem), List.filter_nil,
        apply_other hitem happly]
      rfl

/-! ## Rows -/

theorem Shifted.isSome_get? {change : Quantity → Quantity → Option Quantity} {q : Quantity}
    {t t' : Table} (h : Shifted change item location q t t') (key : Bytes) :
    (t'.get? key).isSome ↔ Balance.key item location = key ∨ (t.get? key).isSome := by
  obtain ⟨b, onHand, row, -, -, -, rfl⟩ := h
  rw [Table.get?_insert]
  split
  · next heq => exact ⟨fun _ => .inl heq, fun _ => rfl⟩
  · next hne => exact ⟨.inr, fun hsome => hsome.resolve_left hne⟩

theorem key_eq_iff {i l : Identifier} :
    Balance.key i l = Balance.key item location ↔ i = item ∧ l = location :=
  ⟨balanceKey_injective, fun h => by rw [h.1, h.2]⟩

/-- A committed move gives rows to its two locations and to no others. -/
theorem Draft.Writes.isSome_balance {d : Draft} {now : Date} {s s' : Store}
    (h : d.Writes now s s') (item location : Identifier) :
    (s'.balances.get? (Balance.key item location)).isSome ↔
      (s.balances.get? (Balance.key item location)).isSome ∨ Names item location d.move := by
  obtain ⟨t, hsub, hadd⟩ := h.balances
  rw [hadd.isSome_get?, hsub.isSome_get?, key_eq_iff, key_eq_iff, Names]
  tauto

/-! ## What an action contributes -/

namespace Books

theorem moves_of_posted {b b' : Books} {d : Draft} {now : Date}
    (h : b'.posted = b.posted ++ [⟨d, now⟩]) : b'.moves = b.moves ++ [d.move] := by
  rw [moves, h, List.map_append]
  rfl

/-- An action adds one move to the committed ones, and the call is told so for the first time; or it
leaves the committed moves and the balances alone. -/
theorem act_moves (b : Books) (a : Action) :
    (∃ d : Draft, (b.act a).moves = b.moves ++ [d.move] ∧
      (b.act a).told = b.told ++ [⟨d.call, .ok (.ok d.move.id)⟩] ∧
      find? b.store.receipts d.call.receiptKey = (.ok none : Except Fault (Option Receipt))) ∨
    ((b.act a).moves = b.moves ∧ (b.act a).store.balances = b.store.balances) := by
  obtain ⟨place, now, d, rfl, hplace, hwrites, hfirst, hposted⟩ | ⟨hposted, hrows⟩ := act_posts b a
  · refine .inl ⟨d, moves_of_posted hposted, ?_, hfirst⟩
    -- of the ways a commitment ends only one adds to what is posted
    have hstep := act_step b (.commit place now)
    generalize b.act (.commit place now) = b' at hstep hposted ⊢
    cases hstep with
    | committed hplace' _ _ =>
      cases hplace.symm.trans hplace'
      rfl
    | late | failed | absent => simp [tell] at hposted
  · refine .inr ⟨?_, hrows.balances⟩
    rw [moves, hposted]
    rfl

/-! ## The guarantee -/

/-- A location has a balance exactly when a committed move names it. -/
def Rowed (b : Books) : Prop := ∀ item location,
  (b.store.balances.get? (Balance.key item location)).isSome ↔
    ∃ m ∈ b.moves, Names item location m

theorem rowed_run (actions : List Action) : (opened.run actions).Rowed := by
  refine run_invariant (P := Rowed) (fun item location => ⟨nofun, nofun⟩) ?_
  rintro b a - hb item location
  rcases act_posts b a with ⟨_, _, d, -, -, hwrites, -, hposted⟩ | ⟨hposted, hrows⟩
  · rw [hwrites.isSome_balance, hb, moves_of_posted hposted]
    simp only [List.mem_append, List.mem_singleton, or_and_right, exists_or, exists_eq_left]
  · rw [hrows.balances, hb, moves, moves, hposted]

/-- What is on hand is what going through the moves finds, in the same decimals. -/
theorem onHand_run (actions : List Action) (item location : Identifier) :
    ∃ q, recomputed item location (opened.run actions).moves = some q ∧
      balance item location (opened.run actions).store = .ok ⟨item, location, q, .zero⟩ := by
  obtain ⟨h, hholdings, hshows⟩ := shown_run actions
  exact ⟨_, recomputed_of_ofMoves hholdings item location, hshows.balanceIn_eq item location⟩

/-- The balances say what the committed moves say. -/
structure ViewsLedger (b : Books) : Prop where
  /-- What is on hand is what going through the moves finds, in the same decimals. -/
  onHand : ∀ item location, ∃ q, recomputed item location b.moves = some q ∧
    balance item location b.store = .ok ⟨item, location, q, .zero⟩
  /-- There is a row exactly where a committed move came or went. -/
  stored : ∀ item location, (b.store.balances.get? (Balance.key item location)).isSome ↔
    ∃ m ∈ b.moves, m.item = item ∧ (m.origin = location ∨ m.destination = location)
  /-- A next step commits one move, of a call that is told so and left no receipt before, or it
  contributes nothing. -/
  next : ∀ a,
    (∃ d : Draft, (b.act a).moves = b.moves ++ [d.move] ∧
      (b.act a).told = b.told ++ [⟨d.call, .ok (.ok d.move.id)⟩] ∧
      find? b.store.receipts d.call.receiptKey = (.ok none : Except Fault (Option Receipt))) ∨
    ((b.act a).moves = b.moves ∧ (b.act a).store.balances = b.store.balances)

end Books

/-- Whatever calls, workers and the host did, the balances are a view of the committed moves. -/
theorem balances_are_view (actions : List Action) :
    (Books.opened.run actions).ViewsLedger := by
  constructor
  case onHand => exact Books.onHand_run actions
  case stored => exact Books.rowed_run actions
  case next => exact Books.act_moves _

/-- If calls bring different identifiers, the moves of this view are those that are read from the
rows of the ledger, in the order of their commitment. So there is a balance exactly where a row of
the ledger came or went. -/
theorem balances_view_rows {actions : List Action}
    (htexts : ∀ a ∈ actions, ∀ c ∈ a.call?, c.Texts)
    (hids : (actions.filterMap Action.id?).Nodup) :
    ∃ ms, (Books.opened.run actions).store.moves.values.mapM Store.readRow =
        (.ok ms : Except Fault (List Move)) ∧
      ms.Perm (Books.opened.run actions).moves ∧ ∀ item location,
        (∃ q, recomputed item location (Books.opened.run actions).moves = some q ∧
          balance item location (Books.opened.run actions).store =
            .ok ⟨item, location, q, .zero⟩) ∧
        (((Books.opened.run actions).store.balances.get? (Balance.key item location)).isSome ↔
          ∃ m ∈ ms, Names item location m) := by
  obtain ⟨ms, hread, hperm⟩ := Books.moves_are_rows htexts hids
  refine ⟨ms, hread, hperm, fun item location =>
    ⟨Books.onHand_run actions item location, ?_⟩⟩
  rw [Books.rowed_run actions item location]
  exact ⟨fun ⟨m, hm, hnames⟩ => ⟨m, hperm.mem_iff.2 hm, hnames⟩,
    fun ⟨m, hm, hnames⟩ => ⟨m, hperm.mem_iff.1 hm, hnames⟩⟩

end Stockroom.Ledger
