import Stockroom.Proofs.Leases
import Stockroom.Relay.Pass

/-!
# Deliveries

A pass of a relay has three kinds of steps: it claims events, publishes them one by one, and
records what it heard. Between them calls are served, other workers do the same, and any worker may
stop for good. The broker answers as it likes, or not at all. What was tried is kept beside the
store and never read by it.

Results:
1. `Progress.mem_note`: a worker notes a success only when it heard of one.
2. `Office.Honest.turn`: so every success that waits to be recorded was one.
3. `delivered_or_pending`: the event of a committed move is pending or its message was taken, and
   no event is marked as sent whose message was not.
-/
namespace Stockroom

/-! ## Words of a fault -/

theorem sized_append {s t : String} (hs : s.toList.length < 2 ^ 60)
    (ht : t.toList.length < 2 ^ 60) : Sized (s ++ t) := by
  rw [← String.ofList_toList (s := s ++ t), String.toList_append]
  refine Sized.ofList ?_
  rw [List.length_append]
  omega

namespace Duration

theorem length_inUnit_le (a : Duration) {places : Nat} {unit : List Char} (hplaces : places ≤ 9)
    (hunit : unit.length ≤ 2) : (inUnit a.nanos places unit).length ≤ 41 := by
  have hwhole : a.nanos / 10 ^ places < 10 ^ 29 :=
    calc
      a.nanos / 10 ^ places ≤ a.nanos := Nat.div_le_self _ _
      _ < 2 ^ 64 * 10 ^ 9 := a.nanos_lt
      _ ≤ 10 ^ 29 := by decide
  have hdigits := (Nat.length_toDigits_le_iff (b := 10) (by decide) (by decide)).2 hwhole
  have hdecimals : (decimals (a.nanos % 10 ^ places) places).length ≤ places := by
    rw [decimals, List.length_reverse]
    refine (List.dropWhile_sublist _).length_le.trans ?_
    rw [List.length_reverse, Text.length_fixedDigits]
  have hrest : (if a.nanos % 10 ^ places = 0 then []
      else '.' :: decimals (a.nanos % 10 ^ places) places).length ≤ 10 := by
    split
    · exact Nat.zero_le _
    · exact Nat.succ_le_succ (hdecimals.trans hplaces)
  rw [inUnit, List.length_append, List.length_append, Text.digits]
  omega

theorem length_text_le (a : Duration) : a.text.toList.length ≤ 41 := by
  rw [text, String.toList_ofList]
  split
  · exact a.length_inUnit_le (by decide) (by decide)
  · split
    · exact a.length_inUnit_le (by decide) (by decide)
    · split
      · exact a.length_inUnit_le (by decide) (by decide)
      · exact a.length_inUnit_le (by decide) (by decide)

end Duration

/-- What a sender hears that waits up to a limit. -/
def Reply.heard (limit : Duration) (r : Reply) : Except PublishFault Unit :=
  match r.after.filter (· ≤ limit) with
  | some _ => r.outcome
  | none => .error (.timedOut limit)

theorem Reply.heard_ok {limit : Duration} {r : Reply} (h : r.heard limit = .ok ()) :
    r.outcome = .ok () := by
  rw [heard] at h
  split at h
  · exact h
  · cases h

theorem Reply.sized_heard {limit : Duration} {r : Reply} {fault : PublishFault}
    (hwords : ∀ fault, r.outcome = .error fault → Sized fault.message)
    (h : r.heard limit = .error fault) : Sized fault.message := by
  rw [heard] at h
  split at h
  · exact hwords fault h
  · cases h
    have hlength := limit.length_text_le
    refine sized_append (s := "publish timed out after ") (by decide) ?_
    omega

/-- What takes a message has no words for a fault. -/
theorem Reply.words_of_ok {r : Reply} (h : r.outcome = .ok ()) :
    ∀ fault, r.outcome = .error fault → Sized fault.message := by
  intro fault hfault
  rw [h] at hfault
  cases hfault

namespace Ledger

open Outbox (Event Has)

/-- What is to be published for a committed move. -/
def Posting.message (p : Posting) : Message := ⟨MoveNotice.topic, Bytes.ofText p.draft.payload⟩

theorem Tells.messageOf_eq {e : Event} {p : Posting} (h : Tells e p) :
    Relay.messageOf e = p.message := by
  rw [Relay.messageOf, Posting.message, h.topic, h.payload]

/-- What was known of the events of committed moves that were sent holds of those that are sent
after an action, if it holds of those that the action records as sent. -/
theorem Books.Linked.sent_act {b : Books} (h : b.Linked) {a : Action} (ha : a.Texts)
    {Q : Posting → Prop}
    (hsent : ∀ p ∈ b.posted, Has b.store p.draft.event fun e => e.sentAt.isSome → Q p)
    (hrecorded : ∀ p ∈ b.posted, ∀ worker, (worker, p.draft.event, .sent) ∈ b.recorded a → Q p) :
    ∀ p ∈ (b.act a).posted, Has (b.act a).store p.draft.event fun e => e.sentAt.isSome → Q p := by
  have hold : ∀ p ∈ b.posted,
      Has (b.act a).store p.draft.event fun e => e.sentAt.isSome → Q p := by
    intro p hp
    refine h.has_act ha (fun _ _ e _ hQ => hQ) ?_ (hsent p hp)
    intro worker outcome hmem now e after hreport hQ
    obtain ⟨-, ⟨rfl, -⟩ | ⟨reason, -, -, rfl⟩⟩ := Outbox.report_cases hreport
    · exact fun _ => hrecorded p hp worker hmem
    · exact hQ
  rcases act_posts b a with ⟨_, now, d, -, -, hwrites, -, hposted⟩ | ⟨hposted, -⟩
  · rw [hposted]
    refine List.forall_mem_append.2 ⟨hold, List.forall_mem_singleton.2 ?_⟩
    obtain ⟨e, hfind, rfl⟩ := hwrites.has_fresh
    exact ⟨_, hfind, nofun⟩
  · rw [hposted]
    exact hold

end Ledger

namespace Relay

open Ledger (Books Action Call Posting Tells)
open Outbox (Event Has event?)

/-! ## Turns -/

/-- An attempt to publish a message, and what the broker made of it. -/
structure Trial where
  message : Message
  reply : Reply

/-- A pass that a worker has begun and not finished. -/
structure Pass where
  worker : Worker
  /-- What it has claimed and not tried to publish yet. -/
  batch : List Event
  progress : Progress

/-- The books, the passes that are under way, and everything that was tried. -/
structure Office where
  books : Books
  passes : List Pass
  /-- Every attempt to publish so far, oldest first. -/
  trials : List Trial

/-- A step of a call or of a pass. -/
inductive Turn
  | consider (c : Call) (id : Identifier) (now : Date)
  | commit (place : Nat) (now : Date)
  | reopen
  /-- A worker begins a pass with events that it saw at some time. -/
  | claim (worker : Worker) (b : Backoff) (now : Date) (ids : List UInt64)
  /-- The worker of the pass at a place tries to publish the next event. -/
  | publish (place : Nat) (reply : Reply)
  /-- The worker of the pass at a place records what it has heard, and the pass is over. -/
  | record (place : Nat) (now : Date)
  /-- The worker of the pass at a place stops for good. -/
  | stop (place : Nat)

namespace Office

/-- Nothing has happened yet. -/
def opened : Office := ⟨.opened, [], []⟩

/-- The office after a change of the books. -/
def act (o : Office) (a : Action) : Office := { o with books := o.books.act a }

/-- The office after a turn. -/
def turn (o : Office) : Turn → Office
  | .consider c id now => o.act (.consider c id now)
  | .commit place now => o.act (.commit place now)
  | .reopen => o.act .reopen
  | .claim worker b now ids =>
    let a := .stamp now worker.id worker.settings.lease ids
    { o.act a with passes := o.passes ++ [⟨worker, o.books.granted a, .start b⟩] }
  | .publish place reply =>
    match o.passes[place]? with
    | some ⟨worker, e :: rest, progress⟩ =>
      let result := reply.heard worker.settings.publishTimeout
      { o with
        passes := o.passes.set place ⟨worker, rest, progress.note e.id result⟩
        trials := o.trials ++ [⟨messageOf e, reply⟩] }
    | _ => o
  | .record place now =>
    match o.passes[place]? with
    | some pass =>
      { o.act (.complete now pass.worker.id pass.progress.outcomes) with
        passes := o.passes.eraseIdx place }
    | none => o
  | .stop place => { o with passes := o.passes.eraseIdx place }

/-- The office after some turns. -/
def run (o : Office) (turns : List Turn) : Office := turns.foldl turn o

/-- The broker has taken the message, whether the sender heard of it or not. -/
def Accepted (o : Office) (m : Message) : Prop :=
  ∃ trial ∈ o.trials, trial.message = m ∧ trial.reply.outcome = .ok ()

/-- A turn changes the books by one action, if at all. -/
theorem turn_books (o : Office) (t : Turn) :
    (o.turn t).books = o.books ∨ ∃ a, (o.turn t).books = o.books.act a := by
  cases t with
  | consider c id now => exact .inr ⟨.consider c id now, rfl⟩
  | commit place now => exact .inr ⟨.commit place now, rfl⟩
  | reopen => exact .inr ⟨.reopen, rfl⟩
  | claim worker b now ids =>
    exact .inr ⟨.stamp now worker.id worker.settings.lease ids, rfl⟩
  | publish place reply =>
    refine .inl ?_
    rw [turn]
    split
    · rfl
    · rfl
  | record place now =>
    rw [turn]
    split
    · next pass hplace =>
      exact .inr ⟨.complete now pass.worker.id pass.progress.outcomes, rfl⟩
    · exact .inl rfl
  | stop place => exact .inl rfl

theorem run_books (o : Office) (turns : List Turn) :
    ∃ actions, (o.run turns).books = o.books.run actions := by
  induction turns generalizing o with
  | nil => exact ⟨[], rfl⟩
  | cons t turns ih =>
    obtain ⟨actions, hactions⟩ := ih (o.turn t)
    rcases turn_books o t with hsame | ⟨a, ha⟩
    · rw [hsame] at hactions
      exact ⟨actions, hactions⟩
    · rw [ha] at hactions
      exact ⟨a :: actions, hactions⟩

/-- Numbers that fit after a run fitted after its first turn. -/
theorem fits_of_run {o : Office} (h : o.books.store.counter.Ordered) {t : Turn}
    {turns : List Turn} (hfits : (o.run (t :: turns)).books.store.counter.Fits) :
    (o.turn t).books.store.counter.Fits := by
  have hordered : (o.turn t).books.store.counter.Ordered := by
    rcases turn_books o t with heq | ⟨a, heq⟩
    · rw [heq]
      exact h
    · rw [heq]
      exact Ledger.Books.ordered_act h a
  obtain ⟨actions, hactions⟩ := run_books (o.turn t) turns
  have hfirst : ((o.turn t).books.run actions).store.counter.Fits := hactions ▸ hfits
  exact Ledger.Books.fits_of_run hordered hfirst

end Office

/-! ## What a worker notes -/

/-- A worker notes a success only when it heard of one. -/
theorem Progress.mem_note {p : Progress} {id : UInt64} {result : Except PublishFault Unit}
    {o : UInt64 × Outbox.Outcome} (h : o ∈ (p.note id result).outcomes) :
    o ∈ p.outcomes ∨ (result = .ok () ∧ o = (id, .sent)) ∨
      ∃ fault, result = .error fault ∧ o = (id, .failed fault.message) := by
  cases result with
  | ok u =>
    rcases List.mem_append.1 h with h | h
    · exact .inl h
    · exact .inr (.inl ⟨rfl, List.mem_singleton.1 h⟩)
  | error fault =>
    rcases List.mem_append.1 h with h | h
    · exact .inl h
    · exact .inr (.inr ⟨fault, rfl, List.mem_singleton.1 h⟩)

/-- A pass deals with notices of committed moves, and waits to record only successes that were
some. -/
structure Pass.Honest (pass : Pass) (o : Office) : Prop where
  worker : Sized pass.worker.id
  batch : ∀ e ∈ pass.batch, ∃ p ∈ o.books.posted, Tells e p
  sent : ∀ id, (id, .sent) ∈ pass.progress.outcomes →
    ∃ p ∈ o.books.posted, p.draft.event = id ∧ o.Accepted p.message
  reasons : ∀ outcome ∈ pass.progress.outcomes, ∀ reason, outcome.2 = .failed reason →
    Sized reason

theorem Pass.Honest.mono {pass : Pass} {o o' : Office} (h : pass.Honest o)
    (hposted : ∀ p ∈ o.books.posted, p ∈ o'.books.posted)
    (htrials : ∀ trial ∈ o.trials, trial ∈ o'.trials) : pass.Honest o' := by
  refine ⟨h.worker, fun e he => ?_, fun id hid => ?_, h.reasons⟩
  · obtain ⟨p, hp, htells⟩ := h.batch e he
    exact ⟨p, hposted p hp, htells⟩
  · obtain ⟨p, hp, hevent, trial, htrial, haccepted⟩ := h.sent id hid
    exact ⟨p, hposted p hp, hevent, trial, htrials trial htrial, haccepted⟩

namespace Office

/-- Every event that is marked as sent was taken by the broker, and so is every one that will be. -/
structure Honest (o : Office) : Prop where
  linked : o.books.Linked
  sent : ∀ p ∈ o.books.posted,
    Has o.books.store p.draft.event fun e => e.sentAt.isSome → o.Accepted p.message
  passes : ∀ pass ∈ o.passes, pass.Honest o

theorem honest_opened : opened.Honest :=
  ⟨Ledger.Books.linked_opened, List.forall_mem_nil _, List.forall_mem_nil _⟩

/-- A change of the books keeps to that, if it records as sent only what was taken. -/
theorem Honest.act {o : Office} (h : o.Honest) {a : Action} (ha : a.Texts)
    (hfits : (o.books.act a).store.counter.Fits)
    (hrecorded : ∀ p ∈ o.books.posted, ∀ worker,
      (worker, p.draft.event, .sent) ∈ o.books.recorded a → o.Accepted p.message) :
    (o.act a).Honest :=
  ⟨h.linked.act ha hfits, h.linked.sent_act ha h.sent hrecorded, fun pass hpass =>
    (h.passes pass hpass).mono (fun _ hp => Ledger.Books.mem_posted_act hp a) fun _ ht => ht⟩

/-- Fewer passes do not matter. -/
theorem Honest.of_passes {o : Office} (h : o.Honest) {passes : List Pass}
    (hpasses : ∀ pass ∈ passes, pass.Honest o) : Honest { o with passes } :=
  ⟨h.linked, h.sent, fun pass hpass =>
    (hpasses pass hpass).mono (fun _ hp => hp) fun _ ht => ht⟩

theorem Honest.publish {o : Office} (h : o.Honest) {place : Nat} {worker : Worker} {e : Event}
    {rest : List Event} {progress : Progress} {reply : Reply}
    (hplace : o.passes[place]? = some ⟨worker, e :: rest, progress⟩)
    (hreply : ∀ fault, reply.outcome = .error fault → Sized fault.message) :
    Honest { o with
      passes := o.passes.set place
        ⟨worker, rest, progress.note e.id (reply.heard worker.settings.publishTimeout)⟩
      trials := o.trials ++ [⟨messageOf e, reply⟩] } := by
  have hpass := h.passes _ (List.mem_of_getElem? hplace)
  have hmore : ∀ trial ∈ o.trials, trial ∈ o.trials ++ [Trial.mk (messageOf e) reply] :=
    fun _ => List.mem_append_left _
  refine ⟨h.linked, fun p hp => ?_, fun pass hmem => ?_⟩
  · obtain ⟨e', hfind, hsent⟩ := h.sent p hp
    refine ⟨e', hfind, fun hsome => ?_⟩
    obtain ⟨trial, htrial, haccepted⟩ := hsent hsome
    exact ⟨trial, hmore trial htrial, haccepted⟩
  · rcases List.mem_or_eq_of_mem_set hmem with hmem | rfl
    · exact (h.passes pass hmem).mono (fun _ hp => hp) hmore
    obtain ⟨p, hp, htells⟩ := hpass.batch e List.mem_cons_self
    refine ⟨hpass.worker, fun e' he' => hpass.batch e' (List.mem_cons_of_mem _ he'), ?_, ?_⟩
    · intro id hid
      rcases Progress.mem_note hid with hid | ⟨hheard, heq⟩ | ⟨fault, -, heq⟩
      · obtain ⟨p', hp', hevent, trial, htrial, haccepted⟩ := hpass.sent id hid
        exact ⟨p', hp', hevent, trial, hmore trial htrial, haccepted⟩
      · cases heq
        exact ⟨p, hp, htells.id.symm, _, List.mem_append_right _ (List.mem_singleton_self _),
          htells.messageOf_eq, Reply.heard_ok hheard⟩
      · cases heq
    · intro outcome houtcome reason hreason
      rcases Progress.mem_note houtcome with houtcome | ⟨-, rfl⟩ | ⟨fault, hheard, rfl⟩
      · exact hpass.reasons outcome houtcome reason hreason
      · cases hreason
      · cases hreason
        exact Reply.sized_heard hreply hheard

end Office

/-- The texts that a turn stores can be stored. -/
def Turn.Texts : Turn → Prop
  | claim worker _ _ _ => Sized worker.id
  | publish _ reply => ∀ fault, reply.outcome = .error fault → Sized fault.message
  | _ => True

namespace Office

theorem Honest.turn {o : Office} (h : o.Honest) {t : Turn} (ht : t.Texts)
    (hfits : (o.turn t).books.store.counter.Fits) : (o.turn t).Honest := by
  cases t with
  | consider | commit | reopen =>
    exact h.act trivial hfits fun _ _ _ hmem => absurd hmem List.not_mem_nil
  | claim worker b now ids =>
    have hworker : Action.Texts (.stamp now worker.id worker.settings.lease ids) := ht
    have hstamped := h.act hworker hfits fun _ _ _ hmem => absurd hmem List.not_mem_nil
    refine hstamped.of_passes (List.forall_mem_append.2 ⟨hstamped.passes, ?_⟩)
    refine List.forall_mem_singleton.2 ⟨ht, fun e he => ?_,
      fun _ hid => absurd hid List.not_mem_nil, List.forall_mem_nil _⟩
    obtain ⟨p, hp, htells⟩ := h.linked.granted_tells hworker he
    exact ⟨p, Ledger.Books.mem_posted_act hp _, htells⟩
  | publish place reply =>
    rw [Office.turn] at hfits ⊢
    split
    · next worker e rest progress hplace => exact h.publish hplace ht
    · exact h
  | record place now =>
    rw [Office.turn] at hfits ⊢
    split
    · next pass hplace =>
      have hpass := h.passes pass (List.mem_of_getElem? hplace)
      rw [hplace] at hfits
      have hdone := h.act (a := .complete now pass.worker.id pass.progress.outcomes)
        hpass.reasons hfits ?_
      · exact hdone.of_passes fun pass' hmem => hdone.passes pass' (List.mem_of_mem_eraseIdx hmem)
      · intro p hp worker hmem
        obtain ⟨p', hp', hevent, haccepted⟩ := hpass.sent _ (Ledger.Books.recorded_complete hmem)
        rw [← h.linked.posting_eq hp' hp hevent]
        exact haccepted
    · exact h
  | stop place =>
    exact h.of_passes fun pass hmem => h.passes pass (List.mem_of_mem_eraseIdx hmem)

theorem Honest.run {o : Office} (h : o.Honest) {turns : List Turn} (htexts : ∀ t ∈ turns, t.Texts)
    (hfits : (o.run turns).books.store.counter.Fits) : (o.run turns).Honest := by
  induction turns generalizing o with
  | nil => exact h
  | cons t turns ih =>
    obtain ⟨ht, htexts⟩ := List.forall_mem_cons.1 htexts
    exact ih (h.turn ht (fits_of_run h.linked.ordered hfits)) htexts hfits

/-! ## The guarantee -/

/-- What is promised of the events of committed moves. -/
structure Delivers (o : Office) : Prop where
  /-- Every committed move has its event, which says what it said when the move was committed. The
  broker has taken it, or it is pending and will be found once its lease has run out. -/
  owed : ∀ p ∈ o.books.posted, ∃ e : Event,
    event? p.draft.event o.books.store = .ok (some e) ∧
    e.topic = "stock.moved" ∧ e.payload = p.draft.payload ∧
    (o.Accepted (messageOf e) ∨
      e.sentAt = none ∧ (o.books.store.pending.get? (Event.key e.id)).isSome ∧
      ∀ now : Date, (∀ leaseEnd ∈ e.leaseEnd, leaseEnd ≤ (now : Instant)) →
        e.isClaimable now = true ∧ ∀ limit, o.books.store.pending.size ≤ limit →
          ∃ ids, Outbox.scan now limit o.books.store = .ok ids ∧ e.id ∈ ids)
  /-- No event is marked as sent that the broker has not taken. -/
  sent : ∀ id e, event? id o.books.store = .ok (some e) → e.sentAt.isSome →
    o.Accepted (messageOf e)

theorem Honest.delivers {o : Office} (h : o.Honest) : o.Delivers := by
  have hsound := h.linked.notices.sound
  constructor
  case owed =>
    intro p hp
    obtain ⟨e, hfind, hsent⟩ := h.sent p hp
    have htells := (h.linked.notices.kept p hp).found hfind
    refine ⟨e, hfind, htells.topic, htells.payload, ?_⟩
    by_cases hsome : e.sentAt.isSome
    · rw [htells.messageOf_eq]
      exact .inl (hsent hsome)
    have hpending : e.isPending = true := not_imp_comm.1 Outbox.Event.not_isPending_iff.1 hsome
    refine .inr ⟨Option.not_isSome_iff_eq_none.1 hsome, ?_, fun now hover => ?_⟩
    · rw [htells.id]
      exact (hsound.index _).2 ⟨e, hfind, hpending⟩
    · have hfree : e.isClaimable now = true := by
        refine Bool.and_eq_true_iff.2 ⟨hpending, (Option.all_eq_true _ _).2 ?_⟩
        exact fun leaseEnd hend => decide_eq_true (hover leaseEnd hend)
      exact ⟨hfree, fun limit hlimit => hsound.scan_finds hfind hfree hlimit⟩
  case sent =>
    intro id e hfind hsome
    obtain ⟨p, hp, htells⟩ := h.linked.notices.tells hfind
    have hid : id = p.draft.event :=
      (Outbox.Event.key_injective (hsound.found hfind).1).trans htells.id
    rw [htells.messageOf_eq]
    exact (h.sent p hp).found (hid ▸ hfind) hsome

end Office

/-- Whatever the order of the steps, whoever stops, and whatever the broker answers, the event of a
committed move is pending or was taken, and no event is marked as sent that was not. -/
theorem delivered_or_pending {turns : List Turn} (htexts : ∀ t ∈ turns, t.Texts)
    (hfits : (Office.opened.run turns).books.store.counter.Fits) :
    (Office.opened.run turns).Delivers :=
  (Office.honest_opened.run htexts hfits).delivers

/-! ### Taken twice, and still pending -/

/-- The broker takes a message, but its reply never comes, so a failure is recorded. Another worker
publishes the message again and stops before it records anything. -/
def takenTwice : List Turn :=
  [.consider (.plain "a" "5" 2 3) (.fresh 0 5) ⟨0⟩, .commit 0 ⟨1⟩,
    .claim ⟨"worker", .standard⟩ (.start .zero .zero) ⟨2⟩ [0], .publish 0 ⟨none, .ok (), []⟩,
    .record 0 ⟨3⟩, .claim ⟨"other", .standard⟩ (.start .zero .zero) ⟨4⟩ [0],
    .publish 0 (.atOnce (.ok ())), .stop 0]

theorem delivered_or_pending_takenTwice : (Office.opened.run takenTwice).Delivers ∧
    (Office.opened.run takenTwice).trials.length = 2 ∧
    (Outbox.pending 8 (Office.opened.run takenTwice).books.store).map (·.map (·.attempts)) =
      .ok [1] := by
  have hsized : Sized "worker" ∧ Sized "other" := by
    simp only [Sized]
    decide
  have htexts : ∀ t ∈ takenTwice, t.Texts := by
    simp only [takenTwice, List.forall_mem_cons]
    exact ⟨trivial, trivial, hsized.1, Reply.words_of_ok rfl, trivial, hsized.2,
      Reply.words_of_ok rfl, trivial, List.forall_mem_nil _⟩
  have hseen : (Office.opened.run takenTwice).books.store.counter.last? = some 1 ∧
      (Office.opened.run takenTwice).trials.length = 2 ∧
      (Outbox.pending 8 (Office.opened.run takenTwice).books.store).map (·.map (·.attempts)) =
        .ok [1] := by decide +kernel
  exact ⟨delivered_or_pending htexts (.of_last hseen.1 (by decide)), hseen.2⟩

end Relay

end Stockroom
