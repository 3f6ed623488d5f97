import Stockroom.Proofs.OwedNotices
import Stockroom.Proofs.SameRequest

/-!
# Replays

A call that comes again is answered from the receipt, and its request is not read: all that is
compared is its digest. If no two requests that are sent share a digest, that is enough. Whoever is
told that a move was made asked for that move, in whatever spelling; and a request that cannot be
read is told of the conflict under a used key, as any other request would be.

Results:
1. `Discerned.same_terms`: a request with the digest of a committed one asks for the same move.
2. `Books.filed_run`: in any order of the steps, the ledger holds the committed moves.
3. `Books.moves_are_rows`: what is read from its rows are these moves.
4. `answers_truthful`: the guarantee.
-/
namespace Stockroom

/-- What a move moved: the part of it that a request asks for. -/
def Move.terms (m : Move) : ValidMove := ⟨m.item, m.quantity, m.origin, m.destination, m.reason⟩

namespace Ledger

open Store (find?)

/-- The identifier that an action brings for a move. -/
def Action.id? : Action → Option Identifier
  | consider _ id _ => some id
  | _ => none

/-- Calls whose texts can be stored, where a digest stands for one request only. -/
structure Discerned (Q : Call → Prop) : Prop where
  texts : ∀ c, Q c → c.Texts
  request : ∀ c, Q c → c.request.Texts
  digest : ∀ c c', Q c → Q c' → c.request.digest = c'.request.digest →
    c.request.plainBytes = c'.request.plainBytes

/-- A request with the digest of one that was read can be read, and asks for the same move. -/
theorem Discerned.same_terms {Q : Call → Prop} (hQ : Discerned Q) {d : Draft} (hgenuine : d.Genuine)
    {c : Call} (hd : Q d.call) (hc : Q c) (hdigest : d.call.request.digest = c.request.digest) :
    ∃ valid, c.request.validate = .ok valid ∧ d.move.terms.SameMove valid := by
  obtain ⟨valid, hvalid, hmove⟩ := hgenuine.read
  rw [hmove]
  exact MoveRequest.validate_of_plainBytes (hQ.request _ hd) (hQ.request _ hc)
    (hQ.digest _ _ hd hc hdigest) hvalid

namespace Books

/-! ## The ledger in any order of the steps -/

/-- Drafts have the identifiers that their calls brought, each for one draft. -/
theorem ids_run (actions : List Action) :
    ((opened.run actions).admitted.map (·.move.id)).Subperm (actions.filterMap Action.id?) := by
  induction actions using List.reverseRecOn with
  | nil => exact List.Subperm.refl _
  | append_singleton actions a ih =>
    rw [run_append, List.filterMap_append]
    rcases act_admitted (opened.run actions) a with ⟨c, now, d, rfl, -, -, hperm⟩ | hsub
    · refine (hperm.map _).subperm.trans ?_
      exact ((List.subperm_cons d.move.id).2 ih).trans (List.perm_append_singleton _ _).symm.subperm
    · exact (subperm_map hsub).trans (ih.trans (List.sublist_append_left _ _).subperm)

/-- If calls bring different identifiers, the ledger has no row yet for a draft that waits. -/
theorem unfiled_run {actions : List Action} (hids : (actions.filterMap Action.id?).Nodup)
    {place : Nat} {d : Draft} (hplace : (opened.run actions).drafts[place]? = some d) :
    (opened.run actions).store.moves.get? d.move.id.bytes = none := by
  have hdistinct := nodup_of_subperm (ids_run actions) hids
  -- a row under this identifier would be that of a committed draft, and this one still waits
  rw [← Option.not_isSome_iff_eq_none]
  intro hsome
  obtain ⟨p, hp, hbytes⟩ := ((receipted_run actions).moves _).1 hsome
  exact waiting_ne hdistinct hplace p hp (Identifier.ext hbytes)

/-- If calls bring different identifiers, the ledger holds the committed moves. -/
theorem filed_run {actions : List Action} (hids : (actions.filterMap Action.id?).Nodup) :
    Filed (opened.run actions).store (opened.run actions).posted := by
  induction actions using List.reverseRecOn with
  | nil => exact ⟨rfl, nofun⟩
  | append_singleton actions a ih =>
    have hearlier : (actions.filterMap Action.id?).Nodup := by
      rw [List.filterMap_append] at hids
      exact (List.nodup_append'.1 hids).1
    have hunfiled := @unfiled_run actions hearlier
    specialize ih hearlier
    rw [run_append]
    generalize opened.run actions = b at ih hunfiled ⊢
    show Filed (b.act a).store (b.act a).posted
    rcases act_posts b a with ⟨place, now, d, -, hplace, hwrites, -, hposted⟩ | ⟨hposted, hrows⟩
    · rw [hposted]
      exact ih.posting hwrites (hunfiled hplace)
    · rw [hposted]
      exact ih.of_moves hrows.moves

/-- The rows of the ledger are those of the committed moves. -/
theorem rows_perm {actions : List Action} (hids : (actions.filterMap Action.id?).Nodup) :
    (opened.run actions).store.moves.rows.Perm
      ((opened.run actions).posted.map fun p => (p.draft.move.id.bytes, p.draft.row)) := by
  have hdistinct := nodup_of_subperm (ids_run actions) hids
  obtain ⟨hsize, hrows⟩ := filed_run hids
  generalize opened.run actions = b at hdistinct hsize hrows ⊢
  have hkeys : (b.posted.map (·.draft.move.id)).Nodup := by
    rw [admitted, List.map_append, List.map_map] at hdistinct
    exact (List.nodup_append'.1 hdistinct).2.1
  have hnodup : (b.posted.map fun p => (p.draft.move.id.bytes, p.draft.row)).Nodup := by
    rw [List.Nodup, List.pairwise_map] at hkeys ⊢
    exact hkeys.imp fun hne heq => hne (Identifier.ext (congrArg Prod.fst heq))
  have hfound : (b.posted.map fun p => (p.draft.move.id.bytes, p.draft.row)) ⊆
      b.store.moves.rows :=
    List.forall_mem_map.2 fun p hp => Table.get?_eq_some_iff.1 (hrows p hp)
  refine ((List.subperm_of_subset hnodup hfound).perm_of_length_le ?_).symm
  rw [List.length_map]
  exact Nat.le_of_eq hsize

/-- What is read from the ledger are the committed moves, in the order of their identifiers. -/
theorem moves_are_rows {actions : List Action} (htexts : ∀ a ∈ actions, ∀ c ∈ a.call?, c.Texts)
    (hids : (actions.filterMap Action.id?).Nodup) :
    ∃ ms, (opened.run actions).store.moves.values.mapM Store.readRow =
        (.ok ms : Except Fault (List Move)) ∧
      ms.Perm (opened.run actions).moves := by
  have hof := ofCalls_run htexts
  have hrows := (rows_perm hids).map Prod.snd
  generalize opened.run actions = b at hof hrows ⊢
  rw [List.map_map] at hrows
  have hread : List.Forall₂ (fun row m => Store.readRow row = (.ok m : Except Fault Move))
      (b.posted.map (·.draft.row)) b.moves := by
    rw [moves, List.forall₂_map_left_iff, List.forall₂_map_right_iff, List.forall₂_same]
    intro p hp
    obtain ⟨hgenuine, hcall⟩ := hof.posted p hp
    rw [Store.readRow, (hgenuine.move_reads_back hcall).decode hgenuine.row]
  obtain ⟨ms, hall, hperm⟩ := List.perm_comp_forall₂ hrows hread
  exact ⟨ms, mapM_eq_ok hall, hperm⟩

/-! ## Requests that are answered -/

/-- The receipt of a committed move can be found. -/
theorem Receipted.finds {b : Books} (h : b.Receipted) {p : Posting} (hp : p ∈ b.posted)
    (hgenuine : p.draft.Genuine) (htexts : p.draft.call.Texts) :
    find? b.store.receipts p.draft.call.receiptKey = .ok (some p.draft.receipt) := by
  obtain ⟨row, hrow, hget⟩ := h.kept p hp
  exact Store.find?_eq_ok_some.2
    ⟨row, hget, (hgenuine.receipt_reads_back htexts.key htexts.endpoint).decode hrow⟩

/-- What calls are told about their moves, however often they come and however they are spelled. -/
structure Truthful (Q : Call → Prop) (b : Books) : Prop where
  /-- A good answer names a move in the ledger, and it is the move that the request asks for. -/
  answered : ∀ t ∈ b.told, ∀ answer, t.answer = .ok answer →
    ∃ valid m, t.call.request.validate = .ok valid ∧ Identifier.read answer.move = .ok m.id ∧
      move? m.id b.store = .ok (some m) ∧ m.terms.SameMove valid
  /-- So a request that cannot be read gets no good answer. -/
  unread : ∀ t ∈ b.told, ∀ why, t.call.request.validate = .error why →
    ∃ e, t.answer = .error e
  /-- Under a used key and endpoint it is told of the conflict, and nothing else changes. -/
  conflict : ∀ c id now why, Q c → c.request.validate = .error why →
    (∃ p ∈ b.posted, p.draft.call.SamePair c) →
    b.act (.consider c id now) = b.tell c (.error (.conflict c.idempotencyKey c.endpoint))

end Books

/-- Whatever the order of the steps, no call is answered for another move than its own. -/
theorem answers_truthful {Q : Call → Prop} (hQ : Discerned Q) {actions : List Action}
    (hcalls : ∀ a ∈ actions, ∀ c ∈ a.call?, Q c)
    (hids : (actions.filterMap Action.id?).Nodup) : (Books.opened.run actions).Truthful Q := by
  have hof := Books.ofCalls_run hcalls
  have hreceipted := Books.receipted_run actions
  have hfiled := Books.filed_run hids
  have halike := Books.answeredAlike_run hcalls fun c hc =>
    ⟨(hQ.texts c hc).key, (hQ.texts c hc).endpoint⟩
  generalize Books.opened.run actions = b at hof hreceipted hfiled halike ⊢
  have hanswered : ∀ t ∈ b.told, ∀ answer, t.answer = .ok answer →
      ∃ valid m, t.call.request.validate = .ok valid ∧ Identifier.read answer.move = .ok m.id ∧
        move? m.id b.store = .ok (some m) ∧ m.terms.SameMove valid := by
    intro t ht answer hgood
    obtain ⟨p, hp, -, hdigest, rfl⟩ := halike t ht answer hgood
    obtain ⟨hgenuine, hp'⟩ := hof.posted p hp
    obtain ⟨valid, hvalid, hsame⟩ := hQ.same_terms hgenuine hp' (hof.told t ht) hdigest
    refine ⟨valid, p.draft.move, hvalid, Identifier.read_text _, ?_, hsame⟩
    exact Store.find?_eq_ok_some.2 ⟨_, hfiled.rows p hp,
      (hgenuine.move_reads_back (hQ.texts _ hp')).decode hgenuine.row⟩
  constructor
  case answered => exact hanswered
  case unread =>
    intro t ht why hwhy
    cases hanswer : t.answer with
    | error e => exact ⟨e, rfl⟩
    | ok answer =>
      obtain ⟨valid, m, hvalid, -⟩ := hanswered t ht answer hanswer
      rw [hwhy] at hvalid
      cases hvalid
  case conflict =>
    rintro c id now why hc hwhy ⟨p, hp, hpair⟩
    obtain ⟨hgenuine, hp'⟩ := hof.posted p hp
    have hfind := hreceipted.finds hp hgenuine (hQ.texts _ hp')
    rw [hpair.receiptKey] at hfind
    have hkey : Text.trim c.idempotencyKey ≠ "" := by
      rw [← hpair.1]
      exact hgenuine.keyed
    -- with the same digest it could be read, as the request that was committed could
    have hdigest : p.draft.receipt.digest ≠ c.request.digest := by
      intro heq
      obtain ⟨valid, hvalid, -⟩ := hQ.same_terms hgenuine hp' hc heq
      rw [hwhy] at hvalid
      cases hvalid
    rw [Books.consider_conflict id now hkey hfind hdigest, ← hpair.1, ← hpair.2]
    rfl

/-! ### Spellings -/

/-- A request, the same request in another spelling, and one that cannot be read. -/
def spellings : List Call :=
  [.plain "a" "5.0" 10 3,
    { Call.plain "a" "+05" 10 3 with
      request := ⟨(Identifier.fresh 0 1).text, " +05", "00000000-0000-7000-8000-00000000000A ",
        (Identifier.fresh 0 3).text, " "⟩ },
    .plain "a" "five" 10 3]

/-- The request is made, and then all of them are sent under its key. -/
def respelled : List Action :=
  [.consider spellings[0] (.fresh 0 5) ⟨0⟩, .commit 0 ⟨1⟩, .consider spellings[1] (.fresh 0 6) ⟨2⟩,
    .consider spellings[2] (.fresh 0 7) ⟨3⟩]

theorem discerned_spellings : Discerned (· ∈ spellings) := by
  have hsized : ∀ c ∈ spellings, Sized c.idempotencyKey ∧ Sized c.endpoint ∧
      Sized c.request.item ∧ Sized c.request.quantity ∧ Sized c.request.origin ∧
      Sized c.request.destination ∧ Sized c.request.reason ∧ c.requestId = none := by
    simp only [Sized]
    decide +kernel
  constructor
  case texts =>
    intro c hc
    obtain ⟨hkey, hendpoint, -, -, -, -, hreason, hnone⟩ := hsized c hc
    refine ⟨hkey, hendpoint, hreason, fun r hr => ?_⟩
    rw [hnone] at hr
    cases hr
  case request =>
    intro c hc
    obtain ⟨-, -, hitem, hquantity, horigin, hdestination, hreason, -⟩ := hsized c hc
    exact ⟨hitem, hquantity, horigin, hdestination, hreason⟩
  case digest =>
    have hdigest : ∀ c ∈ spellings, ∀ c' ∈ spellings,
        c.request.digest = c'.request.digest → c.request.plainBytes = c'.request.plainBytes := by
      decide +kernel
    exact fun c c' hc => hdigest c hc c'

theorem answers_truthful_respelled :
    (Books.opened.run respelled).Truthful (· ∈ spellings) ∧
    (Books.opened.run respelled).told.map (·.answer) =
      [.ok (.ok (.fresh 0 5)), .ok (.ok (.fresh 0 5)), .error (.conflict "a" "/moves")] := by
  have hcalls : ∀ a ∈ respelled, ∀ c ∈ a.call?, c ∈ spellings := by
    simp only [respelled, List.forall_mem_cons]
    refine ⟨?_, ?_, ?_, ?_, List.forall_mem_nil _⟩
    all_goals
      rintro c ⟨⟩
    all_goals
      exact List.getElem_mem _
  exact ⟨answers_truthful discerned_spellings hcalls (by decide +kernel), by decide +kernel⟩

end Ledger

end Stockroom
