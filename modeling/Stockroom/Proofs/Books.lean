import Stockroom.Proofs.OutboxSteps
import Stockroom.Proofs.PostingSteps
import Mathlib.Data.List.Induction
import Mathlib.Data.List.Perm.Basic
import Mathlib.Data.List.Perm.Subperm

/-!
# Books

What has happened to a store since it was empty: which calls have been admitted and wait to be
committed, which moves were committed, and what every call was told. The history is kept beside the
store and never read by it. An action is one step of a call or of a worker, so a list of actions is
any number of calls and workers in any order; an operation is a whole call with nothing in between.

Results:
1. `act_step`: what each action does, one case for each way it can end.
2. `act_posts`: only a commitment changes moves, balances, receipts and audit entries.
3. `run_invariant`: what holds of new books and is kept by every action holds after any run.
4. `store_call`: the two steps of a call one after the other are the whole call.
-/
namespace Stockroom.Ledger

open Store (find?)

/-! ## Histories -/

/-- A committed move, with the instant of its commitment. -/
structure Posting where
  draft : Draft
  postedAt : Date

/-- What a call was told in the end. -/
structure Told where
  call : Call
  answer : Except Fault MoveAnswer

/-- A store and its history. -/
structure Books where
  store : Store
  /-- The drafts that wait to be committed, in the order of their admission. -/
  drafts : List Draft
  /-- The committed moves, in the order of their commitment. -/
  posted : List Posting
  told : List Told

/-- The committed moves, in the order of their commitment. -/
def Books.moves (b : Books) : List Move := b.posted.map (·.draft.move)

/-- Books nothing has been entered in. -/
def Books.opened : Books := ⟨.empty, [], [], []⟩

/-- The move that the commitment of a draft commits: the draft, or nothing where the commitment
fails or finds a receipt. -/
def Draft.postings (d : Draft) (now : Date) (s : Store) : List Posting :=
  match (Store.atomically (d.commitOnce now) s).1 with
  | .ok none => [⟨d, now⟩]
  | _ => []

/-- A call to move some quantity of one item, without anything that a call can do without. -/
def Call.plain (key quantity : String) (origin destination : Nat) : Call :=
  ⟨⟨(Identifier.fresh 0 1).text, quantity, (Identifier.fresh 0 origin).text,
    (Identifier.fresh 0 destination).text, ""⟩, .fresh 0 4, "/moves", key, none⟩

/-! ## Actions -/

/-- One step of a call or of a worker. -/
inductive Action
  /-- A call is admitted. -/
  | consider (c : Call) (id : Identifier) (now : Date)
  /-- The draft at a place among those that wait is committed. -/
  | commit (place : Nat) (now : Date)
  /-- A worker stamps events, whenever and however it came to choose them. -/
  | stamp (now : Date) (worker : String) (lease : Duration) (ids : List UInt64)
  /-- A worker looks for free events and stamps them at once. -/
  | claim (seen stamped : Date) (worker : String) (limit : Nat) (lease : Duration)
  | complete (now : Date) (worker : String) (outcomes : List (UInt64 × Outbox.Outcome))
  | reopen

/-- The call that an action admits. -/
def Action.call? : Action → Option Call
  | consider c _ _ => some c
  | _ => none

namespace Books

/-- Note what a call was told. -/
def tell (b : Books) (c : Call) (answer : Except Fault MoveAnswer) : Books :=
  { b with told := b.told ++ [⟨c, answer⟩] }

/-- Admit a call. -/
def consider (c : Call) (id : Identifier) (now : Date) (b : Books) : Books :=
  match Ledger.consider c id now b.store with
  | (.error e, s) => { b with store := s }.tell c (.error e)
  | (.ok (.answered answer), s) => { b with store := s }.tell c (.ok answer)
  | (.ok (.drafted d), s) => { b with store := s, drafts := b.drafts ++ [d] }

/-- Commit the draft at a place. -/
def commit (place : Nat) (now : Date) (b : Books) : Books :=
  match b.drafts[place]? with
  | none => b
  | some d =>
    { b with
      store := (Ledger.commit d now b.store).2
      drafts := b.drafts.eraseIdx place
      posted := b.posted ++ d.postings now b.store }.tell d.call (Ledger.commit d now b.store).1

/-- The books after an action. -/
def act (b : Books) : Action → Books
  | .consider c id now => b.consider c id now
  | .commit place now => b.commit place now
  | .stamp now worker lease ids =>
    { b with store := (Outbox.stamp now worker lease ids b.store).2 }
  | .claim seen stamped worker limit lease =>
    { b with store := (Outbox.claim seen stamped worker limit lease b.store).2 }
  | .complete now worker outcomes =>
    { b with store := (Outbox.complete now worker outcomes b.store).2 }
  | .reopen => { b with store := b.store.reopen }

/-- The books after some actions. -/
def run (b : Books) (actions : List Action) : Books := actions.foldl act b

end Books

/-- Two moves are made, and the store is reopened in between. -/
def twoOwed : List Action :=
  [.consider (.plain "a" "5" 2 3) (.fresh 0 5) ⟨0⟩, .commit 0 ⟨1⟩, .reopen,
    .consider (.plain "b" "6" 2 3) (.fresh 0 6) ⟨2⟩, .commit 0 ⟨3⟩]

namespace Books

/-! ## What an action does -/

/-- The ways an action ends, and the books it leaves. -/
inductive Step (b : Books) : Action → Books → Prop
  | drafted {c : Call} {id : Identifier} {now : Date} {d : Draft} :
      d.PreparedFrom b.store → d.call = c → d.move.id = id → d.move.createdAt = now →
      Step b (.consider c id now) { b with store := twoTaken b.store, drafts := b.drafts ++ [d] }
  | found {c : Call} {id : Identifier} {now : Date} {receipt : Receipt} :
      find? b.store.receipts c.receiptKey = .ok (some receipt) →
      Step b (.consider c id now) (b.tell c (receipt.answer c.request.digest))
  | refused {c : Call} {id : Identifier} {now : Date} {e : Fault} {s : Store} :
      s = b.store ∨ s = twoTaken b.store →
      (∀ item location, e ≠ .refused (.balanceOverflow item location)) →
      Step b (.consider c id now) ({ b with store := s }.tell c (.error e))
  | committed {place : Nat} {now : Date} {d : Draft} {s : Store} :
      b.drafts[place]? = some d → d.Writes now b.store s →
      find? b.store.receipts d.call.receiptKey = (.ok none : Except Fault (Option Receipt)) →
      Step b (.commit place now)
        (tell ⟨s, b.drafts.eraseIdx place, b.posted ++ [⟨d, now⟩], b.told⟩ d.call
          (.ok (.ok d.move.id)))
  | late {place : Nat} {now : Date} {d : Draft} {receipt : Receipt} :
      b.drafts[place]? = some d →
      find? b.store.receipts d.call.receiptKey = .ok (some receipt) →
      Step b (.commit place now)
        ({ b with drafts := b.drafts.eraseIdx place }.tell d.call
          (receipt.answer d.call.request.digest))
  | failed {place : Nat} {now : Date} {d : Draft} {e : Fault} :
      b.drafts[place]? = some d →
      Store.atomically (d.commitOnce now) b.store = (.error e, b.store) →
      Step b (.commit place now)
        ({ b with drafts := b.drafts.eraseIdx place }.tell d.call (.error e))
  | absent {place : Nat} {now : Date} :
      b.drafts[place]? = none → Step b (.commit place now) b
  | stamped {now : Date} {worker : String} {lease : Duration} {ids : List UInt64} :
      Step b (.stamp now worker lease ids)
        { b with store := (Outbox.stamp now worker lease ids b.store).2 }
  | claimed {seen stamped : Date} {worker : String} {limit : Nat} {lease : Duration} :
      Step b (.claim seen stamped worker limit lease)
        { b with store := (Outbox.claim seen stamped worker limit lease b.store).2 }
  | completed {now : Date} {worker : String} {outcomes : List (UInt64 × Outbox.Outcome)} :
      Step b (.complete now worker outcomes)
        { b with store := (Outbox.complete now worker outcomes b.store).2 }
  | reopened : Step b .reopen { b with store := b.store.reopen }

/-! ### How each action ends -/

theorem consider_step (c : Call) (id : Identifier) (now : Date) (b : Books) :
    Step b (.consider c id now) (b.consider c id now) := by
  rcases consider_cases c id now b.store with
    ⟨d, hconsider, hprepared, hcall, hid, hnow⟩ | ⟨receipt, -, hfind, hconsider⟩ |
    ⟨e, s, hconsider, hs, he⟩
  · rw [consider, hconsider]
    exact .drafted hprepared hcall hid hnow
  · have htold : b.consider c id now = b.tell c (receipt.answer c.request.digest) := by
      rw [consider, hconsider]
      cases receipt.answer c.request.digest <;> rfl
    rw [htold]
    exact .found hfind
  · rw [consider, hconsider]
    exact .refused hs he

theorem commit_step (place : Nat) (now : Date) (b : Books) :
    Step b (.commit place now) (b.commit place now) := by
  rw [commit]
  split
  · next hplace => exact .absent hplace
  · next d hplace =>
    rcases commit_cases d now b.store with
      ⟨s, hrun, hcommit, hwrites, hfind⟩ | ⟨receipt, hrun, hcommit, hfind⟩ | ⟨e, hrun, hcommit⟩
    · rw [Draft.postings, hrun, hcommit]
      exact .committed hplace hwrites hfind
    · rw [Draft.postings, hrun, hcommit]
      dsimp only
      rw [List.append_nil]
      exact .late hplace hfind
    · rw [Draft.postings, hrun, hcommit]
      dsimp only
      rw [List.append_nil]
      exact .failed hplace hrun

/-- Every action ends in one of these ways. -/
theorem act_step (b : Books) (a : Action) : Step b a (b.act a) := by
  cases a with
  | consider c id now => exact consider_step c id now b
  | commit place now => exact commit_step place now b
  | stamp now worker lease ids => exact .stamped
  | claim seen stamped worker limit lease => exact .claimed
  | complete now worker outcomes => exact .completed
  | reopen => exact .reopened

/-! ### What an action leaves alone -/

/-- Two stores with the same moves, balances, receipts and audit entries. -/
structure SameRows (s s' : Store) : Prop where
  moves : s'.moves = s.moves
  balances : s'.balances = s.balances
  receipts : s'.receipts = s.receipts
  audit : s'.audit = s.audit

theorem sameRows_of_sameLedger {s s' : Store} (h : Outbox.SameLedger s s') : SameRows s s' :=
  ⟨h.moves, h.balances, h.receipts, h.audit⟩

/-- Only a commitment changes moves, balances, receipts and audit entries. -/
theorem act_posts (b : Books) (a : Action) :
    (∃ place now d, a = .commit place now ∧ b.drafts[place]? = some d ∧
      d.Writes now b.store (b.act a).store ∧
      find? b.store.receipts d.call.receiptKey = (.ok none : Except Fault (Option Receipt)) ∧
      (b.act a).posted = b.posted ++ [⟨d, now⟩]) ∨
    ((b.act a).posted = b.posted ∧ SameRows b.store (b.act a).store) := by
  have hstep := act_step b a
  generalize b.act a = b' at hstep ⊢
  cases hstep with
  | committed hplace hwrites hfirst =>
    exact .inl ⟨_, _, _, rfl, hplace, hwrites, hfirst, rfl⟩
  | drafted | found | late | failed | absent | reopened =>
    exact .inr ⟨rfl, rfl, rfl, rfl, rfl⟩
  | refused hs he =>
    rcases hs with rfl | rfl
    · exact .inr ⟨rfl, rfl, rfl, rfl, rfl⟩
    · exact .inr ⟨rfl, rfl, rfl, rfl, rfl⟩
  | stamped =>
    exact .inr ⟨rfl, sameRows_of_sameLedger (Outbox.stamp_sameLedger _ _ _ _ _)⟩
  | claimed =>
    exact .inr ⟨rfl, sameRows_of_sameLedger (Outbox.claim_sameLedger _ _ _ _ _ _)⟩
  | completed =>
    exact .inr ⟨rfl, sameRows_of_sameLedger (Outbox.complete_sameLedger _ _ _ _)⟩

/-- A move that was committed stays committed. -/
theorem mem_posted_act {b : Books} {p : Posting} (hp : p ∈ b.posted) (a : Action) :
    p ∈ (b.act a).posted := by
  rcases act_posts b a with ⟨_, _, d, -, -, -, -, hposted⟩ | ⟨hposted, -⟩
  · rw [hposted]
    exact List.mem_append_left _ hp
  · rw [hposted]
    exact hp

/-- What holds of all that calls were told holds still when it holds of the news. -/
theorem forall_tell {P : Told → Prop} {told : List Told} {c : Call}
    {answer : Except Fault MoveAnswer} (h : ∀ t ∈ told, P t) (hnew : P ⟨c, answer⟩) :
    ∀ t ∈ told ++ [⟨c, answer⟩], P t :=
  List.forall_mem_append.2 ⟨h, List.forall_mem_singleton.2 hnew⟩

/-- Every draft is genuine, and every call is of a kind. -/
structure OfCalls (Q : Call → Prop) (b : Books) : Prop where
  drafts : ∀ d ∈ b.drafts, d.Genuine ∧ Q d.call
  posted : ∀ p ∈ b.posted, p.draft.Genuine ∧ Q p.draft.call
  told : ∀ t ∈ b.told, Q t.call

theorem OfCalls.act {Q : Call → Prop} {b : Books} {a : Action} (h : b.OfCalls Q)
    (ha : ∀ c ∈ a.call?, Q c) : (b.act a).OfCalls Q := by
  have others : ∀ {place}, ∀ d ∈ b.drafts.eraseIdx place, d.Genuine ∧ Q d.call :=
    fun d hd => h.drafts d (List.mem_of_mem_eraseIdx hd)
  have hstep := act_step b a
  generalize b.act a = b' at hstep ⊢
  cases hstep with
  | drafted hprepared hcall hid hnow =>
    refine ⟨fun d hd => ?_, h.posted, h.told⟩
    rcases List.mem_append.1 hd with hd | hd
    · exact h.drafts d hd
    · rw [List.mem_singleton.1 hd]
      exact ⟨hprepared.toGenuine, hcall ▸ ha _ rfl⟩
  | found | refused => exact ⟨h.drafts, h.posted, forall_tell h.told (ha _ rfl)⟩
  | @committed place now d s hplace hwrites hfirst =>
    have hd := h.drafts _ (List.mem_of_getElem? hplace)
    refine ⟨others, fun p hp => ?_, forall_tell h.told hd.2⟩
    rcases List.mem_append.1 hp with hp | hp
    · exact h.posted p hp
    · rw [List.mem_singleton.1 hp]
      exact hd
  | late hplace | failed hplace =>
    have hd := h.drafts _ (List.mem_of_getElem? hplace)
    exact ⟨others, h.posted, forall_tell h.told hd.2⟩
  | absent | stamped | claimed | completed | reopened => exact ⟨h.drafts, h.posted, h.told⟩

/-! ### What becomes of drafts -/

theorem subperm_map {α β : Type} {f : α → β} {xs ys : List α} (h : xs.Subperm ys) :
    (xs.map f).Subperm (ys.map f) := by
  obtain ⟨zs, hperm, hsub⟩ := h
  exact ⟨zs.map f, hperm.map f, hsub.map f⟩

theorem nodup_of_subperm {α : Type} {xs ys : List α} (h : xs.Subperm ys) (hys : ys.Nodup) :
    xs.Nodup := by
  obtain ⟨zs, hperm, hsub⟩ := h
  exact hperm.nodup_iff.1 (hys.sublist hsub)

/-- The drafts that wait and those that were committed. -/
def admitted (b : Books) : List Draft := b.drafts ++ b.posted.map (·.draft)

/-- What tells drafts apart tells a draft that waits from the committed ones. -/
theorem waiting_ne {b : Books} {β : Type} {f : Draft → β} (h : (b.admitted.map f).Nodup)
    {place : Nat} {d : Draft} (hplace : b.drafts[place]? = some d) :
    ∀ p ∈ b.posted, f p.draft ≠ f d := by
  rw [admitted, List.map_append] at h
  intro p hp heq
  refine (List.nodup_append'.1 h).2.2 (List.mem_map.2 ⟨d, List.mem_of_getElem? hplace, rfl⟩)
    (List.mem_map.2 ⟨p.draft, List.mem_map.2 ⟨p, hp, rfl⟩, heq⟩)

/-- A draft is admitted once. After that it waits, is committed, or is given up. -/
theorem act_admitted (b : Books) (a : Action) :
    (∃ (c : Call) (now : Date) (d : Draft), a = .consider c d.move.id now ∧
      d.PreparedFrom b.store ∧ (b.act a).store = twoTaken b.store ∧
      (b.act a).admitted.Perm (d :: b.admitted)) ∨
    (b.act a).admitted.Subperm b.admitted := by
  have hstep := act_step b a
  generalize b.act a = b' at hstep ⊢
  cases hstep with
  | @drafted c id now d hprepared hcall hid hnow =>
    obtain rfl := hid
    refine .inl ⟨c, now, d, rfl, hprepared, rfl, ?_⟩
    show (b.drafts ++ [d] ++ b.posted.map (·.draft)).Perm (d :: (b.drafts ++ _))
    rw [List.append_assoc]
    exact List.perm_middle
  | @committed place now d s hplace hwrites hfirst =>
    obtain ⟨hlt, rfl⟩ := List.getElem?_eq_some_iff.1 hplace
    refine .inr (List.Perm.subperm ?_)
    show (b.drafts.eraseIdx place ++ (b.posted ++ [Posting.mk _ now]).map (·.draft)).Perm
      (b.drafts ++ b.posted.map (·.draft))
    rw [List.map_append, ← List.append_assoc]
    refine (List.perm_append_singleton _ _).trans ?_
    exact (List.getElem_cons_eraseIdx_perm hlt).append_right _
  | late | failed =>
    exact .inr ((List.eraseIdx_sublist _ _).append (List.Sublist.refl _)).subperm
  | found | refused | absent | stamped | claimed | completed | reopened =>
    exact .inr (List.Subperm.refl _)

/-! ## Runs -/

theorem run_append (b : Books) (xs ys : List Action) : b.run (xs ++ ys) = (b.run xs).run ys :=
  List.foldl_append

/-- What every action keeps is kept by a run. -/
theorem run_invariant {P : Books → Prop} {b : Books} {actions : List Action} (h : P b)
    (hstep : ∀ b a, a ∈ actions → P b → P (b.act a)) : P (b.run actions) := by
  induction actions generalizing b with
  | nil => exact h
  | cons a actions ih =>
    exact ih (hstep b a List.mem_cons_self h) fun b' a' ha =>
      hstep b' a' (List.mem_cons_of_mem _ ha)

theorem ofCalls_run {Q : Call → Prop} {actions : List Action}
    (h : ∀ a ∈ actions, ∀ c ∈ a.call?, Q c) : (opened.run actions).OfCalls Q :=
  run_invariant ⟨nofun, nofun, nofun⟩ fun _ a ha hb => hb.act (h a ha)

end Books

/-! ## Operations -/

/-- A whole call, or what a worker or the host does at once. -/
inductive Operation
  /-- A call that nothing comes between. It reads the clock when it is admitted and again when it
  is committed. -/
  | call (c : Call) (id : Identifier) (seen posted : Date)
  | claim (seen stamped : Date) (worker : String) (limit : Nat) (lease : Duration)
  | complete (now : Date) (worker : String) (outcomes : List (UInt64 × Outbox.Outcome))
  | reopen

/-- The steps of an operation. With no other draft waiting, that of a call is the first one. -/
def Operation.actions : Operation → List Action
  | call c id seen posted => [.consider c id seen, .commit 0 posted]
  | claim seen stamped worker limit lease => [.claim seen stamped worker limit lease]
  | complete now worker outcomes => [.complete now worker outcomes]
  | reopen => [.reopen]

namespace Books

/-- The books after some operations, one after the other. -/
def after (operations : List Operation) : Books :=
  opened.run (operations.flatMap Operation.actions)

theorem after_append (operations : List Operation) (operation : Operation) :
    after (operations ++ [operation]) = (after operations).run operation.actions := by
  rw [after, List.flatMap_append, run_append, List.flatMap_singleton, after]

theorem run_call_actions (b : Books) (c : Call) (id : Identifier) (seen posted : Date) :
    b.run (Operation.call c id seen posted).actions = (b.consider c id seen).commit 0 posted := by
  rw [Operation.actions, run, List.foldl_cons, List.foldl_cons, List.foldl_nil, act, act]

/-- The two steps of a call one after the other are the whole call, whatever other drafts wait, since
a draft that is admitted is the last one. -/
theorem store_call (b : Books) (c : Call) (id : Identifier) (now : Date) :
    ((b.consider c id now).commit b.drafts.length now).store = (post c id now b.store).2 := by
  rw [post, consider]
  rcases Ledger.consider c id now b.store with ⟨e | answer | d, s⟩
  · simp [commit, tell]
  · simp [commit, tell]
  · simp [commit, tell]

/-- A call commits one move and tells so, or it tells something else and changes no row. -/
theorem run_call_cases {b : Books} (h : b.drafts = []) (c : Call) (id : Identifier)
    (seen posted : Date) :
    (∃ d s, d.PreparedFrom b.store ∧ d.call = c ∧ d.move.id = id ∧
      d.Writes posted (twoTaken b.store) s ∧
      b.run (Operation.call c id seen posted).actions =
        tell ⟨s, [], b.posted ++ [⟨d, posted⟩], b.told⟩ c (.ok (.ok id))) ∨
    (∃ s answer, (s = b.store ∨ s = twoTaken b.store) ∧
      b.run (Operation.call c id seen posted).actions = { b with store := s }.tell c answer) := by
  rw [run_call_actions]
  obtain ⟨s, drafts, entries, told⟩ := b
  obtain rfl : drafts = [] := h
  have hstep := consider_step c id seen ⟨s, [], entries, told⟩
  generalize Books.consider _ _ _ _ = b' at hstep ⊢
  cases hstep with
  | found hfind => exact .inr ⟨_, _, .inl rfl, rfl⟩
  | refused hs he => exact .inr ⟨_, _, hs, rfl⟩
  | @drafted _ _ _ d hprepared hcall hid hnow =>
    -- the draft is the only one that waits, so it is the one committed
    have hstep := commit_step 0 posted ⟨twoTaken s, [d], entries, told⟩
    dsimp only [List.nil_append]
    generalize Books.commit _ _ _ = b'' at hstep ⊢
    cases hstep with
    | absent hplace => cases hplace
    | committed hplace hwrites hfirst =>
      cases hplace
      exact .inl ⟨d, _, hprepared, hcall, hid, hwrites, by rw [hcall, hid]; rfl⟩
    | late hplace hfind =>
      cases hplace
      exact .inr ⟨_, _, .inr rfl, by rw [hcall]; rfl⟩
    | failed hplace hrun =>
      cases hplace
      exact .inr ⟨_, _, .inr rfl, by rw [hcall]; rfl⟩

/-- Between operations no draft waits. -/
theorem drafts_after (operations : List Operation) : (after operations).drafts = [] := by
  induction operations using List.reverseRecOn with
  | nil => rfl
  | append_singleton operations operation ih =>
    rw [after_append]
    cases operation with
    | call c id seen posted =>
      rcases run_call_cases ih c id seen posted with ⟨d, s, -, -, -, -, h⟩ | ⟨s, answer, -, h⟩
      · rw [h]
        rfl
      · rw [h]
        exact ih
    | claim seen stamped worker limit lease => exact ih
    | complete now worker outcomes => exact ih
    | reopen => exact ih

end Books

end Stockroom.Ledger
