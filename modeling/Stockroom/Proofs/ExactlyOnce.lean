import Stockroom.Proofs.Books
import Stockroom.Proofs.JsonText
import Stockroom.Proofs.StoredRecords

/-!
# Exactly once

A call may be sent any number of times, and its copies may run at once. Between its admission and
its commitment anything can happen, so the commitment looks for a receipt again. That is enough:
whatever the order of the steps, receipts and committed moves stay in bijection.

Results:
1. `Books.receipted_run`: every committed move has its receipt, under a key of its own, and every
   receipt belongs to a committed move.
2. `Books.answeredAlike_run`: every good answer names the move committed under the key of the call,
   for the same request.
3. `exactly_once`: at most one move for each key and endpoint, one answer, a conflict for every
   other request, and receipts that are never replaced.
-/
namespace Stockroom

/-! ## Receipts read back -/

theorem length_toHex (bytes : Bytes) : bytes.toHex.length = 2 * bytes.length := by
  rw [Bytes.toHex, String.length_ofList, Bytes.toHexChars, List.length_flatMap]
  simp [Nat.mul_comm]

theorem Digest.length_sha256 (message : Bytes) : (sha256 message).length = 32 := by
  simp [sha256]

theorem sized_digest (r : MoveRequest) : Sized r.digest := by
  have hlen : r.digest.length = 64 := by
    rw [MoveRequest.digest, Digest.sha256Hex, length_toHex, Digest.length_sha256]
  rw [← String.ofList_toList (s := r.digest)]
  refine Sized.ofList ?_
  rw [String.length_toList, hlen]
  decide

namespace Ledger

open Store (find? find?_eq_ok_some find?_eq_ok_none)

/-- What can be sent in a header: a key without the character zero, and texts that can be stored. -/
structure Call.Sendable (c : Call) : Prop where
  no_zero : '\x00' ∉ c.idempotencyKey.toList
  key : Sized c.idempotencyKey
  endpoint : Sized c.endpoint

/-- The same idempotency key at the same endpoint. -/
def Call.SamePair (c c' : Call) : Prop :=
  c.idempotencyKey = c'.idempotencyKey ∧ c.endpoint = c'.endpoint

theorem Call.SamePair.receiptKey {c c' : Call} (h : c.SamePair c') :
    c.receiptKey = c'.receiptKey := by
  rw [Call.receiptKey, Call.receiptKey, h.1, h.2]

/-- Keys of receipts tell pairs apart. -/
theorem Call.Sendable.samePair {c c' : Call} (hc : c.Sendable) (hc' : c'.Sendable)
    (h : c.receiptKey = c'.receiptKey) : c.SamePair c' := by
  obtain ⟨hendpoint, hkey⟩ := Bytes.separator_injective hc.no_zero hc'.no_zero h
  exact ⟨hkey, hendpoint⟩

theorem Draft.Genuine.receipt_reads_back {d : Draft} (hd : d.Genuine)
    (hkey : Sized d.call.idempotencyKey) (hendpoint : Sized d.call.endpoint) :
    Stored.ReadsBack d.receipt :=
  Receipt.reads_back hd.dated ⟨hkey, hendpoint, sized_digest _, MoveAnswer.sized_ok _⟩

/-- A receipt answers the same request with the move, and any other with a conflict. -/
theorem Draft.answer_receipt (d : Draft) (digest : String) :
    d.receipt.answer digest =
      if d.call.request.digest = digest then .ok (.ok d.move.id)
      else .error (.conflict d.call.idempotencyKey d.call.endpoint) := by
  have hbody : MoveAnswer.ofJson d.receipt.body = .ok (.ok d.move.id) :=
    MoveAnswer.ofJson_toJson _
  have hdigest : d.receipt.digest = d.call.request.digest := rfl
  rw [Receipt.answer, Receipt.replay, hdigest]
  by_cases h : d.call.request.digest = digest
  · rw [if_pos h, if_pos h]
    simp only [bind, Except.bind, hbody]
    rfl
  · rw [if_neg h, if_neg h]
    rfl

/-! ## Receipts and committed moves -/

namespace Books

/-- Every committed move has its receipt and its ledger row, and there are no others. -/
structure Receipted (b : Books) : Prop where
  once : b.posted.Pairwise fun p p' => p.draft.call.receiptKey ≠ p'.draft.call.receiptKey
  kept : ∀ p ∈ b.posted, ∃ row, Stored.encode p.draft.receipt = some row ∧
    b.store.receipts.get? p.draft.call.receiptKey = some row
  owned : ∀ key row, b.store.receipts.get? key = some row →
    ∃ p ∈ b.posted, p.draft.call.receiptKey = key
  size : b.store.receipts.size = b.posted.length
  moves : ∀ key, (b.store.moves.get? key).isSome ↔ ∃ p ∈ b.posted, p.draft.move.id.bytes = key

theorem receipted_opened : opened.Receipted :=
  ⟨.nil, nofun, nofun, rfl, fun _ => ⟨nofun, nofun⟩⟩

/-- A commitment puts its receipt under a key that had none. -/
theorem Receipted.posting {b : Books} (h : b.Receipted) {d : Draft} {now : Date} {s : Store}
    (hwrites : d.Writes now b.store s)
    (hfirst : find? b.store.receipts d.call.receiptKey = (.ok none : Except Fault (Option Receipt)))
    {b' : Books} (hstore : b'.store = s) (hposted : b'.posted = b.posted ++ [⟨d, now⟩]) :
    b'.Receipted := by
  have habsent := find?_eq_ok_none.1 hfirst
  have hnew : ∀ p ∈ b.posted, p.draft.call.receiptKey ≠ d.call.receiptKey := by
    intro p hp heq
    obtain ⟨row, -, hget⟩ := h.kept p hp
    rw [heq, habsent] at hget
    cases hget
  obtain ⟨row, hrow, hreceipts⟩ := hwrites.receipts
  refine ⟨?_, ?_, ?_, ?_, ?_⟩
  · rw [hposted]
    refine List.pairwise_append.2 ⟨h.once, List.pairwise_singleton _ _, fun p hp p' hp' => ?_⟩
    rw [List.mem_singleton.1 hp']
    exact hnew p hp
  · intro p hp
    rw [hposted] at hp
    rw [hstore, hreceipts, Table.get?_insert]
    rcases List.mem_append.1 hp with hp | hp
    · rw [if_neg (hnew p hp).symm]
      exact h.kept p hp
    · rw [List.mem_singleton.1 hp, if_pos rfl]
      exact ⟨row, hrow, rfl⟩
  · intro key row hget
    rw [hstore, hreceipts, Table.get?_insert] at hget
    rw [hposted]
    split at hget
    · next heq => exact ⟨⟨d, now⟩, List.mem_append_right _ (List.mem_singleton_self _), heq⟩
    · obtain ⟨p, hp, hkey⟩ := h.owned key row hget
      exact ⟨p, List.mem_append_left _ hp, hkey⟩
  · rw [hstore, hreceipts, Table.size_insert habsent, h.size, hposted, List.length_append]
    rfl
  · intro key
    rw [hstore, hwrites.moves, Table.get?_insert, hposted]
    simp only [List.mem_append, List.mem_singleton, or_and_right, exists_or, exists_eq_left,
      ← h.moves]
    split
    · next heq => exact ⟨fun _ => .inr heq, fun _ => rfl⟩
    · next hne => exact ⟨.inl, fun h => h.resolve_right hne⟩

theorem Receipted.act {b : Books} (h : b.Receipted) (a : Action) : (b.act a).Receipted := by
  rcases act_posts b a with ⟨place, now, d, -, -, hwrites, hfirst, hposted⟩ | ⟨hposted, hrows⟩
  · exact h.posting hwrites hfirst rfl hposted
  · refine ⟨?_, ?_, ?_, ?_, ?_⟩
    · rw [hposted]
      exact h.once
    · rw [hposted, hrows.receipts]
      exact h.kept
    · rw [hposted, hrows.receipts]
      exact h.owned
    · rw [hposted, hrows.receipts]
      exact h.size
    · rw [hposted, hrows.moves]
      exact h.moves

theorem Receipted.posting_eq {b : Books} (h : b.Receipted) {p p' : Posting} (hp : p ∈ b.posted)
    (hp' : p' ∈ b.posted) (hkey : p.draft.call.receiptKey = p'.draft.call.receiptKey) : p = p' := by
  have hnodup : (b.posted.map fun p => p.draft.call.receiptKey).Nodup := List.pairwise_map.2 h.once
  exact List.inj_on_of_nodup_map hnodup hp hp' hkey

/-- Whatever happened, receipts and committed moves are in bijection. -/
theorem receipted_run (actions : List Action) : (opened.run actions).Receipted :=
  run_invariant receipted_opened fun _ a _ hb => hb.act a

theorem receipt_stays {b : Books} {a : Action} {key row : Bytes}
    (h : b.store.receipts.get? key = some row) :
    (b.act a).store.receipts.get? key = some row := by
  rcases act_posts b a with ⟨place, now, d, -, -, hwrites, hfirst, -⟩ | ⟨-, hrows⟩
  · obtain ⟨row', -, hreceipts⟩ := hwrites.receipts
    rw [hreceipts, Table.get?_insert]
    split
    · next heq =>
      rw [← heq, find?_eq_ok_none.1 hfirst] at h
      cases h
    · exact h
  · rw [hrows.receipts]
    exact h

/-- A receipt that is found is that of the move committed under its key. -/
theorem Receipted.found {Q : Call → Prop} {b : Books} (h : b.Receipted) (hcalls : b.OfCalls Q)
    (hsized : ∀ c, Q c → Sized c.idempotencyKey ∧ Sized c.endpoint) {key : Bytes}
    {receipt : Receipt} (hfind : find? b.store.receipts key = .ok (some receipt)) :
    ∃ p ∈ b.posted, p.draft.call.receiptKey = key ∧ receipt = p.draft.receipt := by
  obtain ⟨row, hget, hdecode⟩ := find?_eq_ok_some.1 hfind
  obtain ⟨p, hp, hkey⟩ := h.owned key row hget
  obtain ⟨row', hrow, hkept⟩ := h.kept p hp
  rw [hkey, hget] at hkept
  cases hkept
  obtain ⟨hgenuine, hcall⟩ := hcalls.posted p hp
  obtain ⟨hsizedKey, hsizedEndpoint⟩ := hsized _ hcall
  rw [(hgenuine.receipt_reads_back hsizedKey hsizedEndpoint).decode hrow] at hdecode
  cases hdecode
  exact ⟨p, hp, hkey, rfl⟩

/-! ## Answers -/

/-- A good answer names the move committed under the key of the call. -/
def Answered (b : Books) : Prop :=
  ∀ t ∈ b.told, ∀ answer, t.answer = .ok answer →
    ∃ p ∈ b.posted, p.draft.call.receiptKey = t.call.receiptKey ∧ answer = .ok p.draft.move.id

/-- A good answer names the move committed under the key of the call, and that move was committed
for a request with the same digest. -/
def AnsweredAlike (b : Books) : Prop :=
  ∀ t ∈ b.told, ∀ answer, t.answer = .ok answer →
    ∃ p ∈ b.posted, p.draft.call.receiptKey = t.call.receiptKey ∧
      p.draft.call.request.digest = t.call.request.digest ∧ answer = .ok p.draft.move.id

/-- A receipt that is found answers with the move committed under its key, if the request is the
same. -/
theorem Receipted.answer_found {Q : Call → Prop} {b : Books} (h : b.Receipted)
    (hcalls : b.OfCalls Q) (hsized : ∀ c, Q c → Sized c.idempotencyKey ∧ Sized c.endpoint)
    {key : Bytes} {receipt : Receipt} (hfind : find? b.store.receipts key = .ok (some receipt))
    {digest : String} {answer : MoveAnswer} (hanswer : receipt.answer digest = .ok answer) :
    ∃ p ∈ b.posted, p.draft.call.receiptKey = key ∧ p.draft.call.request.digest = digest ∧
      answer = .ok p.draft.move.id := by
  obtain ⟨p, hp, hkey, rfl⟩ := h.found hcalls hsized hfind
  rw [Draft.answer_receipt] at hanswer
  split at hanswer
  · next hdigest =>
    cases hanswer
    exact ⟨p, hp, hkey, hdigest, rfl⟩
  · cases hanswer

theorem AnsweredAlike.act {Q : Call → Prop} {b : Books} {a : Action} (h : b.AnsweredAlike)
    (hreceipted : b.Receipted) (hcalls : b.OfCalls Q)
    (hsized : ∀ c, Q c → Sized c.idempotencyKey ∧ Sized c.endpoint) : (b.act a).AnsweredAlike := by
  have hstep := act_step b a
  generalize b.act a = b' at hstep ⊢
  cases hstep with
  | found hfind =>
    exact forall_tell h fun good hgood => hreceipted.answer_found hcalls hsized hfind hgood
  | refused hs he => exact forall_tell h nofun
  | @committed place now d s hplace hwrites hfirst =>
    refine forall_tell (fun t ht good hgood => ?_) fun good hgood => ?_
    · obtain ⟨p, hp, hsame⟩ := h t ht good hgood
      exact ⟨p, List.mem_append_left _ hp, hsame⟩
    · cases hgood
      exact ⟨⟨d, now⟩, List.mem_append_right _ (List.mem_singleton_self _), rfl, rfl, rfl⟩
  | late hplace hfind =>
    exact forall_tell h fun good hgood => hreceipted.answer_found hcalls hsized hfind hgood
  | failed hplace hrun => exact forall_tell h nofun
  | drafted | absent | stamped | claimed | completed | reopened => exact h

/-- Whatever happened, good answers name moves committed for the same request. -/
theorem answeredAlike_run {Q : Call → Prop} {actions : List Action}
    (hcalls : ∀ a ∈ actions, ∀ c ∈ a.call?, Q c)
    (hsized : ∀ c, Q c → Sized c.idempotencyKey ∧ Sized c.endpoint) :
    (opened.run actions).AnsweredAlike := by
  have hall : (opened.run actions).AnsweredAlike ∧ (opened.run actions).Receipted ∧
      (opened.run actions).OfCalls Q := by
    refine run_invariant (P := fun b => b.AnsweredAlike ∧ b.Receipted ∧ b.OfCalls Q)
      ⟨nofun, receipted_opened, nofun, nofun, nofun⟩ ?_
    rintro b a ha ⟨hanswered, hreceipted, hof⟩
    exact ⟨hanswered.act hreceipted hof hsized, hreceipted.act a, hof.act (hcalls a ha)⟩
  exact hall.1

/-- Whatever happened, good answers name committed moves. -/
theorem answered_run {Q : Call → Prop} {actions : List Action}
    (hcalls : ∀ a ∈ actions, ∀ c ∈ a.call?, Q c)
    (hsized : ∀ c, Q c → Sized c.idempotencyKey ∧ Sized c.endpoint) :
    (opened.run actions).Answered := by
  intro t ht answer hanswer
  obtain ⟨p, hp, hkey, -, heq⟩ := answeredAlike_run hcalls hsized t ht answer hanswer
  exact ⟨p, hp, hkey, heq⟩

/-! ## Calls that come too late -/

theorem answer_of_digest_ne {receipt : Receipt} {digest : String} (h : receipt.digest ≠ digest) :
    receipt.answer digest = .error (.conflict receipt.idempotencyKey receipt.endpoint) := by
  rw [Receipt.answer, Receipt.replay, if_neg h]
  rfl

/-- A call that finds a receipt is answered from it, and nothing else changes. -/
theorem consider_found {b : Books} {c : Call} {receipt : Receipt} (id : Identifier) (now : Date)
    (hkey : Text.trim c.idempotencyKey ≠ "")
    (hfind : find? b.store.receipts c.receiptKey = .ok (some receipt)) :
    b.act (.consider c id now) = b.tell c (receipt.answer c.request.digest) := by
  rw [act, consider, Ledger.consider, if_neg hkey, hfind]
  dsimp only
  cases receipt.answer c.request.digest <;> rfl

theorem commit_found {b : Books} {place : Nat} {d : Draft} {receipt : Receipt} (now : Date)
    (hplace : b.drafts[place]? = some d)
    (hfind : find? b.store.receipts d.call.receiptKey = .ok (some receipt)) :
    b.act (.commit place now) =
      { b with drafts := b.drafts.eraseIdx place }.tell d.call
        (receipt.answer d.call.request.digest) := by
  have hrun := commitOnce_of_found now hfind
  have hcommit : Ledger.commit d now b.store =
      (receipt.answer d.call.request.digest, b.store) := by
    rw [Ledger.commit, hrun]
  have hpostings : d.postings now b.store = [] := by
    rw [Draft.postings, hrun]
  rw [act, commit, hplace]
  dsimp only
  rw [hcommit, hpostings, List.append_nil]

/-- A call that finds the receipt of another request is told of the conflict, and nothing else
changes. -/
theorem consider_conflict {b : Books} {c : Call} {receipt : Receipt} (id : Identifier)
    (now : Date) (hkey : Text.trim c.idempotencyKey ≠ "")
    (hfind : find? b.store.receipts c.receiptKey = .ok (some receipt))
    (hdigest : receipt.digest ≠ c.request.digest) :
    b.act (.consider c id now) =
      b.tell c (.error (.conflict receipt.idempotencyKey receipt.endpoint)) := by
  rw [consider_found id now hkey hfind, answer_of_digest_ne hdigest]

theorem commit_conflict {b : Books} {place : Nat} {d : Draft} {receipt : Receipt} (now : Date)
    (hplace : b.drafts[place]? = some d)
    (hfind : find? b.store.receipts d.call.receiptKey = .ok (some receipt))
    (hdigest : receipt.digest ≠ d.call.request.digest) :
    b.act (.commit place now) =
      { b with drafts := b.drafts.eraseIdx place }.tell d.call
        (.error (.conflict receipt.idempotencyKey receipt.endpoint)) := by
  rw [commit_found now hplace hfind, answer_of_digest_ne hdigest]

/-! ## The guarantee -/

/-- What is promised of every key and endpoint. -/
structure ExactlyOnce (b : Books) : Prop where
  /-- At most one move has been committed. -/
  one_move : b.posted.Pairwise fun p p' => ¬ p.draft.call.SamePair p'.draft.call
  /-- The ledger holds the committed moves and no others. -/
  ledger : ∀ key, (b.store.moves.get? key).isSome ↔ ∃ p ∈ b.posted, p.draft.move.id.bytes = key
  /-- Good answers name the committed move, -/
  answer_names : ∀ t ∈ b.told, ∀ answer, t.answer = .ok answer →
    ∃ p ∈ b.posted, p.draft.call.SamePair t.call ∧ answer = .ok p.draft.move.id
  /-- so they are the same. -/
  one_answer : ∀ t ∈ b.told, ∀ t' ∈ b.told, t.call.SamePair t'.call →
    ∀ answer answer', t.answer = .ok answer → t'.answer = .ok answer' → answer = answer'
  /-- Another request under a used key ends in a conflict when it is admitted, -/
  conflict_admitted : ∀ (c : Call) id now (receipt : Receipt), c.Sendable →
    Text.trim c.idempotencyKey ≠ "" →
    find? b.store.receipts c.receiptKey = .ok (some receipt) →
    receipt.digest ≠ c.request.digest →
    b.act (.consider c id now) = b.tell c (.error (.conflict c.idempotencyKey c.endpoint))
  /-- or when it is committed. -/
  conflict_committed : ∀ place now d (receipt : Receipt), b.drafts[place]? = some d →
    find? b.store.receipts d.call.receiptKey = .ok (some receipt) →
    receipt.digest ≠ d.call.request.digest →
    b.act (.commit place now) =
      { b with drafts := b.drafts.eraseIdx place }.tell d.call
        (.error (.conflict d.call.idempotencyKey d.call.endpoint))
  /-- No step replaces a receipt or takes it away. -/
  stays : ∀ a key row, b.store.receipts.get? key = some row →
    (b.act a).store.receipts.get? key = some row
  /-- No call finds the receipt of another key or another endpoint. -/
  own : ∀ (c : Call) (receipt : Receipt), c.Sendable →
    find? b.store.receipts c.receiptKey = .ok (some receipt) →
    receipt.idempotencyKey = c.idempotencyKey ∧ receipt.endpoint = c.endpoint

end Books

/-- Whatever the order of the steps of calls and workers, every key and endpoint gets what is
promised. -/
theorem exactly_once {actions : List Action}
    (h : ∀ a ∈ actions, ∀ c ∈ a.call?, c.Sendable) : (Books.opened.run actions).ExactlyOnce := by
  have hsized : ∀ c : Call, c.Sendable → Sized c.idempotencyKey ∧ Sized c.endpoint :=
    fun _ hc => ⟨hc.key, hc.endpoint⟩
  have hcalls := Books.ofCalls_run h
  have hreceipted := Books.receipted_run actions
  have hanswered := Books.answered_run h hsized
  generalize Books.opened.run actions = b at hcalls hreceipted hanswered ⊢
  have hown : ∀ (c : Call) (receipt : Receipt), c.Sendable →
      find? b.store.receipts c.receiptKey = .ok (some receipt) →
      receipt.idempotencyKey = c.idempotencyKey ∧ receipt.endpoint = c.endpoint := by
    intro c receipt hc hfind
    obtain ⟨p, hp, hkey, rfl⟩ := hreceipted.found hcalls hsized hfind
    exact (hcalls.posted p hp).2.samePair hc hkey
  have hnames : ∀ t ∈ b.told, ∀ answer, t.answer = .ok answer →
      ∃ p ∈ b.posted, p.draft.call.SamePair t.call ∧ answer = .ok p.draft.move.id := by
    intro t ht answer hanswer
    obtain ⟨p, hp, hkey, heq⟩ := hanswered t ht answer hanswer
    exact ⟨p, hp, (hcalls.posted p hp).2.samePair (hcalls.told t ht) hkey, heq⟩
  constructor
  case one_move => exact hreceipted.once.imp fun hne hsame => hne hsame.receiptKey
  case ledger => exact hreceipted.moves
  case answer_names => exact hnames
  case one_answer =>
    intro t ht t' ht' hsame answer answer' hanswer hanswer'
    obtain ⟨p, hp, hkey, rfl⟩ := hanswered t ht answer hanswer
    obtain ⟨p', hp', hkey', rfl⟩ := hanswered t' ht' answer' hanswer'
    have heq : p.draft.call.receiptKey = p'.draft.call.receiptKey :=
      hkey.trans (hsame.receiptKey.trans hkey'.symm)
    rw [hreceipted.posting_eq hp hp' heq]
  case conflict_admitted =>
    intro c id now receipt hc hkey hfind hdigest
    obtain ⟨hsameKey, hsameEndpoint⟩ := hown c receipt hc hfind
    rw [Books.consider_conflict id now hkey hfind hdigest, hsameKey, hsameEndpoint]
  case conflict_committed =>
    intro place now d receipt hplace hfind hdigest
    have hd := (hcalls.drafts d (List.mem_of_getElem? hplace)).2
    obtain ⟨hsameKey, hsameEndpoint⟩ := hown d.call receipt hd hfind
    rw [Books.commit_conflict now hplace hfind hdigest, hsameKey, hsameEndpoint]
  case stays => exact fun a key row => Books.receipt_stays
  case own => exact hown

/-! ### A race -/

theorem sendable_plain (quantity : String) : (Call.plain "key" quantity 2 3).Sendable := by
  constructor
  case no_zero =>
    show '\x00' ∉ "key".toList
    decide
  case key =>
    show (Bytes.ofText "key").length < 2 ^ 64
    decide
  case endpoint =>
    show (Bytes.ofText "/moves").length < 2 ^ 64
    decide

/-- Both requests are admitted before either is committed, and the later one is committed first. -/
def race : List Action :=
  [.consider (.plain "key" "5" 2 3) (.fresh 0 5) ⟨0⟩,
    .consider (.plain "key" "6" 2 3) (.fresh 0 6) ⟨0⟩, .commit 1 ⟨1⟩, .commit 0 ⟨1⟩]

set_option maxRecDepth 10000 in
theorem exactly_once_race : (Books.opened.run race).ExactlyOnce ∧
    (Books.opened.run race).told.map (·.answer) =
      [.ok (.ok (.fresh 0 6)), .error (.conflict "key" "/moves")] := by
  have hcalls : ∀ a ∈ race, ∀ c ∈ a.call?, c.Sendable := by
    simp only [race, List.forall_mem_cons]
    refine ⟨?_, ?_, nofun, nofun, nofun⟩
    · rintro c ⟨⟩
      exact sendable_plain "5"
    · rintro c ⟨⟩
      exact sendable_plain "6"
  exact ⟨exactly_once hcalls, by decide +kernel⟩

end Ledger

end Stockroom
