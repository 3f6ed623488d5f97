import Stockroom.Proofs.Relays
import Stockroom.Relay.Run

/-!
# Passes as they run

A worker makes its passes in a world where time passes, storage is slow at times, and others have
plans of their own. Whatever happens there is made of the turns that calls and passes are made of,
so what holds after any turns holds after any number of passes. What holds only after turns of some
kind holds in a world whose conditions allow no others.

Results:
1. `Mirrors.elapse`: while time passes, others take their turns.
2. `Mirrors.publishAll`: a batch is published turn by turn.
3. `Mirrors.pass` and `Mirrors.runFrom`: whole passes, and whole runs of a relay.
4. `run_delivers`: so the guarantee holds in every world.
-/
namespace Stockroom.Relay

open Outbox (Event)

variable {β δ α : Type}

/-! ## Conditions -/

/-- What may happen around a relay. -/
structure Conditions where
  /-- The turns that may be taken. -/
  turn : Office → Turn → Prop
  /-- What the calendar may show. -/
  date : Date → Prop
  /-- How long a storage call may take; nothing where it may never end. -/
  storage : Option Duration → Prop
  /-- How many events of its batch a pass may leave undone. -/
  left : Nat → Prop

namespace Conditions

/-- Anything may happen that leaves texts which can be stored. -/
def any : Conditions where
  turn _ t := t.Texts
  date _ := True
  storage _ := True
  left _ := True

/-- The conditions allow some turns, one after the other. -/
def Allow (C : Conditions) (o : Office) : List Turn → Prop
  | [] => True
  | t :: turns => C.turn o t ∧ C.Allow (o.turn t) turns

variable {C : Conditions} {o : Office} {turns turns' : List Turn}

theorem Allow.append (h : C.Allow o turns) (h' : C.Allow (o.run turns) turns') :
    C.Allow o (turns ++ turns') := by
  induction turns generalizing o with
  | nil => exact h'
  | cons t turns ih => exact ⟨h.1, ih h.2 h'⟩

theorem Allow.texts (h : any.Allow o turns) : ∀ t ∈ turns, t.Texts := by
  induction turns generalizing o with
  | nil => exact List.forall_mem_nil _
  | cons t turns ih => exact List.forall_mem_cons.2 ⟨h.1, ih h.2⟩

/-- Storage calls may take longer than somebody waits for them. -/
def MayLose (C : Conditions) (limit : Duration) : Prop :=
  ∃ time, C.storage time ∧ time.filter (· ≤ limit) = none

/-- A worker can make its passes under the conditions, while some others are under way. -/
structure Suits (C : Conditions) (β : Type) [Broker β] (worker : Worker) (passes : List Pass) :
    Prop where
  claim : ∀ (o : Office) (b : Backoff) (now : Date) (ids : List UInt64), o.passes = passes →
    C.date now → C.turn o (.claim worker b now ids)
  publish : ∀ (o : Office) (batch : List Event) (p : Progress) (m : Message) (broker : β),
    o.passes = passes ++ [⟨worker, batch, p⟩] →
    C.turn o (.publish passes.length (Broker.publish m broker).1)
  record : ∀ (o : Office) (batch : List Event) (p : Progress) (now : Date),
    o.passes = passes ++ [⟨worker, batch, p⟩] → C.date now → C.left batch.length →
    C.turn o (.record passes.length now)
  /-- A worker that does not learn what it has claimed stops. -/
  stop : C.MayLose worker.settings.storageTimeout → ∀ o, C.turn o (.stop passes.length)
  storage : ∀ (m : Message) (broker : β), ∀ time ∈ (Broker.publish m broker).1.storage,
    C.storage time
  nothing : C.left 0

end Conditions

/-- What a broker says when it does not take a message can be stored. -/
def WellSpoken (β : Type) [Broker β] : Prop :=
  ∀ m (b : β) fault, (Broker.publish m b).1.outcome = .error fault → Sized fault.message

theorem Conditions.suits_any [Broker β] (hwords : WellSpoken β) {worker : Worker}
    (hworker : Sized worker.id) (passes : List Pass) : any.Suits β worker passes where
  claim _ _ _ _ _ _ := hworker
  publish _ _ _ m broker _ := hwords m broker
  record _ _ _ _ _ _ _ := trivial
  stop _ _ := trivial
  storage _ _ _ _ := trivial
  nothing := trivial

/-! ## Worlds and offices -/

/-- A broker and everything that was tried with it. -/
structure Minuted (β : Type) where
  broker : β
  trials : List Trial

instance [Broker β] : Broker (Minuted β) where
  publish m b :=
    let (reply, broker) := Broker.publish m b.broker
    (reply, ⟨broker, b.trials ++ [⟨m, reply⟩]⟩)

variable {C : Conditions}

/-- Some turns that the conditions allow lead from one office to the other. -/
def Reaches (C : Conditions) (o o' : Office) : Prop :=
  ∃ turns : List Turn, C.Allow o turns ∧ o.run turns = o'

theorem Reaches.refl (o : Office) : Reaches C o o := ⟨[], trivial, rfl⟩

theorem Reaches.trans {o o' o'' : Office} (h : Reaches C o o') (h' : Reaches C o' o'') :
    Reaches C o o'' := by
  obtain ⟨turns, hallow, rfl⟩ := h
  obtain ⟨turns', hallow', rfl⟩ := h'
  exact ⟨turns ++ turns', hallow.append hallow', List.foldl_append⟩

theorem Reaches.turn (o : Office) {t : Turn} (ht : C.turn o t) : Reaches C o (o.turn t) :=
  ⟨[t], ⟨ht, trivial⟩, rfl⟩

theorem Office.Honest.reaches {o o' : Office} (h : o.Honest) (hreach : Reaches .any o o')
    (hfits : o'.books.store.counter.Fits) : o'.Honest := by
  obtain ⟨turns, hallow, rfl⟩ := hreach
  exact h.run hallow.texts hfits

/-- What somebody else does is made of such turns, and leaves alone the passes that are under
way. -/
def Appointment.OfTurns (C : Conditions) (a : Appointment δ) : Prop :=
  ∀ (o : Office) (diary : δ), ∃ o', Reaches C o o' ∧
    o'.books.store = (a.act o.books.store diary).1 ∧ o'.passes = o.passes ∧ o'.trials = o.trials

/-- The office has what the world has, and the same may happen to both. -/
structure Mirrors (C : Conditions) (o : Office) (w : World (Minuted β) δ) : Prop where
  store : o.books.store = w.store
  trials : o.trials = w.broker.trials
  agenda : ∀ a ∈ w.agenda, a.OfTurns C
  dates : ∀ time, C.date (w.calendar time)
  storage : ∀ time ∈ w.storage, C.storage time

/-- From the office one is reached that mirrors the world, with these passes under way. -/
def Follows (C : Conditions) (o : Office) (w : World (Minuted β) δ) (passes : List Pass) : Prop :=
  ∃ o', Reaches C o o' ∧ Mirrors C o' w ∧ o'.passes = passes

theorem Follows.of_reaches {o o' : Office} {w : World (Minuted β) δ} {passes : List Pass}
    (hreach : Reaches C o o') (h : Follows C o' w passes) : Follows C o w passes := by
  obtain ⟨o'', hreach', hmirrors, hpasses⟩ := h
  exact ⟨o'', hreach.trans hreach', hmirrors, hpasses⟩

theorem Mirrors.follows {o : Office} {w : World (Minuted β) δ} (h : Mirrors C o w) :
    Follows C o w o.passes :=
  ⟨o, .refl o, h, rfl⟩

/-- A whole call is made of turns: it is admitted, and its draft is the last one that waits. -/
theorem ofTurns_post (hconsider : ∀ o c id now, C.turn o (.consider c id now))
    (hcommit : ∀ o place now, C.turn o (.commit place now)) (time : Nat) (c : Ledger.Call)
    (id : Identifier) (now : Date) :
    (Appointment.mk time fun s (diary : δ) => ((Ledger.post c id now s).2, diary)).OfTurns C := by
  intro o diary
  refine ⟨(o.turn (.consider c id now)).turn (.commit o.books.drafts.length now),
    ?_, Ledger.Books.store_call o.books c id now, rfl, rfl⟩
  exact (Reaches.turn o (hconsider o c id now)).trans (Reaches.turn _ (hcommit _ _ now))

/-! ### Turns of the last pass -/

section

variable {o : Office} {passes : List Pass}

theorem turn_publish {worker : Worker} {e : Event} {rest : List Event} {p : Progress}
    (h : o.passes = passes ++ [⟨worker, e :: rest, p⟩]) (reply : Reply) :
    o.turn (.publish passes.length reply) =
      ⟨o.books,
        passes ++ [⟨worker, rest, p.note e.id (reply.heard worker.settings.publishTimeout)⟩],
        o.trials ++ [⟨messageOf e, reply⟩]⟩ := by
  rw [Office.turn, h, List.getElem?_concat_length]
  simp

theorem turn_record {pass : Pass} (h : o.passes = passes ++ [pass]) (now : Date) :
    o.turn (.record passes.length now) =
      ⟨o.books.act (.complete now pass.worker.id pass.progress.outcomes), passes, o.trials⟩ := by
  rw [Office.turn, h, List.getElem?_concat_length]
  simp [Office.act, List.eraseIdx_append_of_length_le]

theorem turn_stop {pass : Pass} (h : o.passes = passes ++ [pass]) :
    o.turn (.stop passes.length) = ⟨o.books, passes, o.trials⟩ := by
  rw [Office.turn, h]
  simp [List.eraseIdx_append_of_length_le]

end

/-! ## Time -/

/-- What is due at a time is done by turns. -/
theorem keep_reaches (time : Nat) {agenda : List (Appointment δ)} {o : Office}
    {w : World (Minuted β) δ} (hstore : o.books.store = w.store)
    (hagenda : ∀ a ∈ agenda, a.OfTurns C) :
    ∃ o', Reaches C o o' ∧ o'.books.store = (World.keep time agenda w).store ∧
      o'.passes = o.passes ∧ o'.trials = o.trials ∧
      ∀ a ∈ (World.keep time agenda w).agenda, a.OfTurns C := by
  induction agenda generalizing o w with
  | nil => exact ⟨o, .refl o, hstore, rfl, rfl, List.forall_mem_nil _⟩
  | cons a agenda ih =>
    obtain ⟨ha, hrest⟩ := List.forall_mem_cons.1 hagenda
    rw [World.keep]
    split
    · obtain ⟨o₁, hreach, hstore₁, hpasses₁, htrials₁⟩ := ha o w.diary
      rw [hstore] at hstore₁
      obtain ⟨o₂, hreach₂, hstore₂, hpasses₂, htrials₂, hleft⟩ :=
        ih (o := o₁) (w := { w with
          store := (a.act w.store w.diary).1, diary := (a.act w.store w.diary).2 }) hstore₁ hrest
      exact ⟨o₂, hreach.trans hreach₂, hstore₂, hpasses₂.trans hpasses₁,
        htrials₂.trans htrials₁, hleft⟩
    · exact ⟨o, .refl o, hstore, rfl, rfl, hagenda⟩

variable {o : Office} {w : World (Minuted β) δ}

/-- While time passes, others take their turns. -/
theorem Mirrors.elapse (h : Mirrors C o w) (nanos : Nat) :
    Follows C o (w.elapse nanos) o.passes := by
  obtain ⟨o', hreach, hstore, hpasses, htrials, hagenda⟩ :=
    keep_reaches (w.now + nanos) h.store h.agenda
  obtain ⟨hbroker, hcalendar, -, hstorage, -⟩ := w.waits_elapse nanos
  refine ⟨o', hreach, ⟨hstore, ?_, hagenda, ?_, ?_⟩, hpasses⟩
  · rw [htrials, h.trials, hbroker]
  · rw [hcalendar]
    exact h.dates
  · exact fun time htime => h.storage time (hstorage.subset htime)

/-- What is done to the store is done, whether its result arrives or not. -/
theorem Mirrors.storageCall (h : Mirrors C o w) (limit : Duration)
    (op : Date → Store → Except Fault α × Store) :
    ∃ o' now, Reaches C o o' ∧ o'.passes = o.passes ∧ C.date now ∧
      (∀ o'' : Office, o''.books.store = (op now o'.books.store).2 → o''.trials = o'.trials →
        Mirrors C o'' (w.storageCall limit op).2) ∧
      ((w.storageCall limit op).1 = (op now o'.books.store).1 ∨
        C.MayLose limit ∧ ∃ fault, (w.storageCall limit op).1 = .error fault) := by
  have hafter : ∀ {o' : Office} {w' : World (Minuted β) δ}, Mirrors C o' w' → ∀ o'' : Office,
      o''.books.store = (op w'.today o'.books.store).2 → o''.trials = o'.trials →
      Mirrors C o'' (w'.onStore op).2 := by
    intro o' w' hmirrors o'' hstore htrials
    rw [hmirrors.store] at hstore
    exact ⟨hstore, htrials.trans hmirrors.trials, hmirrors.agenda, hmirrors.dates,
      hmirrors.storage⟩
  rw [World.storageCall]
  split
  · exact ⟨o, w.today, .refl o, rfl, h.dates _, hafter h, .inl (by rw [h.store]; rfl)⟩
  · next time storage hstorage =>
    obtain ⟨htime, hlater⟩ := List.forall_mem_cons.1 (hstorage ▸ h.storage)
    have hrest : Mirrors C o { w with storage } := ⟨h.store, h.trials, h.agenda, h.dates, hlater⟩
    dsimp only
    split
    · next time' _ =>
      obtain ⟨o', hreach, hmirrors, hpasses⟩ := hrest.elapse time'.nanos
      exact ⟨o', _, hreach, hpasses, hmirrors.dates _, hafter hmirrors,
        .inl (by rw [hmirrors.store]; rfl)⟩
    · next hlost =>
      obtain ⟨o', hreach, hmirrors, hpasses⟩ := hrest.elapse limit.nanos
      exact ⟨o', _, hreach, hpasses, hmirrors.dates _, hafter hmirrors,
        .inr ⟨⟨time, htime, hlost⟩, _, rfl⟩⟩

/-! ## Batches -/

variable [Broker β]

theorem publish_cases (limit : Duration) (m : Message) (w : World β δ) :
    ∃ nanos, w.publish limit m =
      ((Broker.publish m w.broker).1.heard limit, World.elapse { w with
        broker := (Broker.publish m w.broker).2
        attempts := w.attempts ++ [Attempt.mk w.now m]
        storage := (Broker.publish m w.broker).1.storage ++ w.storage } nanos) := by
  rw [World.publish, Reply.heard]
  dsimp only
  cases (Broker.publish m w.broker).1.after.filter (· ≤ limit) with
  | some time => exact ⟨time.nanos, rfl⟩
  | none => exact ⟨limit.nanos, rfl⟩

variable {worker : Worker} {passes : List Pass} {batch : List Event} {p : Progress}

theorem Mirrors.tried (h : Mirrors C o w) (hsuits : C.Suits β worker passes) (m : Message)
    (passes' : List Pass) :
    Mirrors C ⟨o.books, passes', o.trials ++ [⟨m, (Broker.publish m w.broker.broker).1⟩]⟩
      { w with
        broker := (Broker.publish m w.broker).2
        attempts := w.attempts ++ [Attempt.mk w.now m]
        storage := (Broker.publish m w.broker).1.storage ++ w.storage } where
  store := h.store
  trials := congrArg (· ++ [_]) h.trials
  agenda := h.agenda
  dates := h.dates
  storage := List.forall_mem_append.2 ⟨hsuits.storage m w.broker.broker, h.storage⟩

/-- A batch is published turn by turn, as far as the worker comes. -/
theorem Mirrors.publishAll (hsuits : C.Suits β worker passes) (h : Mirrors C o w)
    (hpasses : o.passes = passes ++ [⟨worker, batch, p⟩]) (hnone : p.abandoned = 0)
    (deadline : Nat) :
    ∃ left q,
      q.outcomes =
        (Relay.publishAll worker.settings.publishTimeout deadline batch p w).1.outcomes ∧
      left.length =
        (Relay.publishAll worker.settings.publishTimeout deadline batch p w).1.abandoned ∧
      Follows C o (Relay.publishAll worker.settings.publishTimeout deadline batch p w).2
        (passes ++ [⟨worker, left, q⟩]) := by
  induction batch generalizing o w p with
  | nil => exact ⟨[], p, rfl, hnone.symm, o, .refl o, h, hpasses⟩
  | cons e rest ih =>
    rw [Relay.publishAll]
    split
    · exact ⟨e :: rest, p, rfl, rfl, o, .refl o, h, hpasses⟩
    · obtain ⟨nanos, hpublish⟩ :=
        publish_cases worker.settings.publishTimeout (messageOf e) w
      rw [hpublish]
      -- the attempt is a turn of this pass, and others take theirs while the worker waits
      have hturn := turn_publish hpasses (Broker.publish (messageOf e) w.broker.broker).1
      have htried := Reaches.turn o
        (hsuits.publish o (e :: rest) p (messageOf e) w.broker.broker hpasses)
      rw [hturn] at htried
      obtain ⟨o₂, hreach₂, hmirrors₂, hpasses₂⟩ :=
        (h.tried hsuits (messageOf e) _).elapse nanos
      obtain ⟨left, q, houtcomes, hleft, hrest⟩ :=
        ih hmirrors₂ hpasses₂ ((p.abandoned_note e.id _).trans hnone)
      exact ⟨left, q, houtcomes, hleft, .of_reaches (htried.trans hreach₂) hrest⟩

/-! ## Passes and runs -/

omit [Broker β] in
/-- A worker claims nothing, or stamps what it has seen. -/
theorem claim_cases (worker : Worker) (now : Date) (s : Store) :
    (∃ fault, worker.claim now s = (.error fault, s)) ∨
    ∃ ids, worker.claim now s =
      Outbox.stamp now worker.id worker.settings.lease ids s := by
  rw [Worker.claim]
  split
  · exact .inl ⟨_, rfl⟩
  · rw [Outbox.claim]
    split
    · exact .inl ⟨_, rfl⟩
    · exact .inr ⟨_, rfl⟩

/-- A worker that has taken nothing has nothing to record. -/
theorem Mirrors.finish_nothing (hsuits : C.Suits β worker passes) {b : Backoff}
    (h : Mirrors C o w) (hpasses : o.passes = passes ++ [⟨worker, [], .start b⟩]) :
    Follows C o w passes := by
  have hrecord := Reaches.turn o
    (hsuits.record o [] (.start b) w.today hpasses (h.dates _) hsuits.nothing)
  rw [turn_record hpasses] at hrecord
  exact ⟨_, hrecord, ⟨h.store, h.trials, h.agenda, h.dates, h.storage⟩, rfl⟩

/-- A worker that does not learn what it has taken stops. -/
theorem Mirrors.stop (hsuits : C.Suits β worker passes) (h : Mirrors C o w) {pass : Pass}
    (hpasses : o.passes = passes ++ [pass])
    (hlost : C.MayLose worker.settings.storageTimeout) : Follows C o w passes := by
  have hstop := Reaches.turn o (hsuits.stop hlost o)
  rw [turn_stop hpasses] at hstop
  exact ⟨_, hstop, ⟨h.store, h.trials, h.agenda, h.dates, h.storage⟩, rfl⟩

/-- How much a pass that begins in a world may leave undone of the batch that it takes. -/
def Worker.LeavesUndone (worker : Worker) (left : Nat → Prop) (b : Backoff) (w : World β δ) :
    Prop :=
  ∀ batch w₁ p w₂, worker.takeBatch w = (.ok batch, w₁) →
    Relay.publishAll worker.settings.publishTimeout (w.now + worker.settings.lease.nanos) batch
      (.start b) w₁ = (p, w₂) → left p.abandoned

/-- A worker that takes a batch has begun a pass with it. -/
theorem Mirrors.takeBatch (hsuits : C.Suits β worker o.passes) (b : Backoff) (h : Mirrors C o w) :
    (∀ fault w₁, worker.takeBatch w = (.error fault, w₁) → Follows C o w₁ o.passes) ∧
    ∀ batch w₁, worker.takeBatch w = (.ok batch, w₁) →
      Follows C o w₁ (o.passes ++ [⟨worker, batch, .start b⟩]) := by
  by_cases hover : worker.Overruns w
  · rw [Worker.takeBatch_overrun hover]
    refine ⟨?_, nofun⟩
    rintro _ _ ⟨⟩
    exact h.follows
  obtain ⟨o₁, now, hreach₁, hpasses₁, hdate, hmirrors₁, hresult⟩ :=
    h.storageCall worker.settings.storageTimeout worker.claim
  rw [Worker.takeBatch_intime hover, ← hpasses₁]
  rw [← hpasses₁] at hsuits
  generalize w.storageCall worker.settings.storageTimeout worker.claim = call
    at hmirrors₁ hresult ⊢
  obtain ⟨result, w₁⟩ := call
  dsimp only at hmirrors₁ hresult
  suffices hall : (∀ fault, result = .error fault → Follows C o₁ w₁ o₁.passes) ∧
      ∀ batch, result = .ok batch →
        Follows C o₁ w₁ (o₁.passes ++ [⟨worker, batch, .start b⟩]) by
    refine ⟨?_, ?_⟩
    · rintro fault _ ⟨⟩
      exact .of_reaches hreach₁ (hall.1 fault rfl)
    · rintro batch _ ⟨⟩
      exact .of_reaches hreach₁ (hall.2 batch rfl)
  rcases claim_cases worker now o₁.books.store with ⟨fault, hnothing⟩ | ⟨ids, hstamp⟩
  · rw [hnothing] at hmirrors₁ hresult
    refine ⟨fun _ _ => (hmirrors₁ o₁ rfl rfl).follows, ?_⟩
    rintro batch rfl
    obtain ⟨⟨⟩⟩ | ⟨-, fault', ⟨⟩⟩ := hresult
  rw [hstamp] at hmirrors₁ hresult
  -- the claim is a turn that begins a pass, with what was stamped for its batch
  have hclaimed := Reaches.turn o₁ (hsuits.claim o₁ b now ids rfl hdate)
  have hmirrors₂ : Mirrors C (o₁.turn (.claim worker b now ids)) w₁ := hmirrors₁ _ rfl rfl
  have hpasses₂ : (o₁.turn (.claim worker b now ids)).passes = o₁.passes ++ [⟨worker,
      (Outbox.stamp now worker.id worker.settings.lease ids o₁.books.store).1.toOption.getD [],
      .start b⟩] := rfl
  generalize o₁.turn (.claim worker b now ids) = o₂ at hclaimed hmirrors₂ hpasses₂
  constructor
  · rintro fault rfl
    refine .of_reaches hclaimed ?_
    obtain hresult | ⟨hlost, -⟩ := hresult
    · rw [← hresult] at hpasses₂
      exact hmirrors₂.finish_nothing hsuits hpasses₂
    · exact hmirrors₂.stop hsuits hpasses₂ hlost
  · rintro batch rfl
    obtain hresult | ⟨-, fault', ⟨⟩⟩ := hresult
    rw [← hresult] at hpasses₂
    exact .of_reaches hclaimed ⟨o₂, .refl o₂, hmirrors₂, hpasses₂⟩

/-- A worker that has taken a batch publishes it and records what it heard. -/
theorem Mirrors.finish (hsuits : C.Suits β worker passes) {b : Backoff} (h : Mirrors C o w)
    (hpasses : o.passes = passes ++ [⟨worker, batch, .start b⟩]) {deadline : Nat}
    {w₂ w₃ : World (Minuted β) δ} {result : Except Fault Nat}
    (hpublish : Relay.publishAll worker.settings.publishTimeout deadline batch (.start b) w =
      (p, w₂))
    (hrecord : w₂.storageCall worker.settings.storageTimeout
      (fun now => Outbox.complete now worker.id p.outcomes) = (result, w₃))
    (hleft : C.left p.abandoned) : Follows C o w₃ passes := by
  obtain ⟨left, q, houtcomes, hlength, o₁, hreach₁, hmirrors₁, hpasses₁⟩ :=
    h.publishAll hsuits hpasses rfl deadline
  rw [hpublish] at houtcomes hlength hmirrors₁
  obtain ⟨o₂, now, hreach₂, hpasses₂, hdate, hmirrors₂, -⟩ := hmirrors₁.storageCall
    worker.settings.storageTimeout fun now => Outbox.complete now worker.id p.outcomes
  rw [hrecord] at hmirrors₂
  rw [← hpasses₂] at hpasses₁
  have hturn := Reaches.turn o₂ (hsuits.record o₂ left q now hpasses₁ hdate (hlength ▸ hleft))
  rw [turn_record hpasses₁, houtcomes] at hturn
  exact ⟨_, (hreach₁.trans hreach₂).trans hturn, hmirrors₂ _ rfl rfl, rfl⟩

/-- A pass is made of turns, and is over in the end. -/
theorem Mirrors.pass (hsuits : C.Suits β worker o.passes) {b : Backoff}
    (hleft : worker.LeavesUndone C.left b w) (h : Mirrors C o w) :
    Follows C o (worker.pass b w).2.2 o.passes := by
  obtain ⟨hfailed, htaken⟩ := h.takeBatch hsuits b
  obtain ⟨fault, w₁, htake, hpass⟩ | ⟨w₁, htake, hpass⟩ |
    ⟨batch, w₁, p, w₂, result, w₃, htake, hpublish, hrecord, hpass⟩ := worker.pass_cases b w
  · rw [hpass]
    exact hfailed fault w₁ htake
  · rw [hpass]
    obtain ⟨o₁, hreach₁, hmirrors₁, hpasses₁⟩ := htaken [] w₁ htake
    exact .of_reaches hreach₁ (hmirrors₁.finish_nothing hsuits hpasses₁)
  · rw [hpass]
    obtain ⟨o₁, hreach₁, hmirrors₁, hpasses₁⟩ := htaken batch w₁ htake
    exact .of_reaches hreach₁ (hmirrors₁.finish hsuits hpasses₁ hpublish hrecord
      (hleft batch w₁ p w₂ htake hpublish))

/-- A run of a relay is made of turns. -/
theorem Mirrors.runFrom (hsuits : C.Suits β worker o.passes)
    (hleft : ∀ (b : Backoff) (w : World (Minuted β) δ), worker.LeavesUndone C.left b w)
    (shutdown : Shutdown) (passes : Nat) (b : Backoff) (h : Mirrors C o w) :
    Follows C o (worker.runFrom shutdown passes b w) o.passes := by
  induction passes generalizing o w b with
  | zero => exact h.follows
  | succ passes ih =>
    rw [Worker.runFrom]
    split
    · exact h.follows
    have hpass := h.pass hsuits (hleft b w)
    generalize worker.pass b w = pass at hpass ⊢
    obtain ⟨outcome, b', w₁⟩ := pass
    obtain ⟨o₁, hreach₁, hmirrors₁, hpasses₁⟩ := hpass
    refine .of_reaches hreach₁ ?_
    rw [← hpasses₁] at hsuits ⊢
    dsimp only
    split
    · exact hmirrors₁.follows
    · split
      · exact hmirrors₁.elapse _
      · obtain ⟨o₂, hreach₂, hmirrors₂, hpasses₂⟩ := hmirrors₁.elapse _
        rw [← hpasses₂] at hsuits ⊢
        exact .of_reaches hreach₂ (ih hsuits _ hmirrors₂)

/-- However long a relay runs, and whatever happens in the world meanwhile, the events of committed
moves are pending or were taken, and none is marked as sent that was not. -/
theorem run_delivers (hwords : WellSpoken β) (hworker : Sized worker.id)
    (hhonest : o.Honest) (h : Mirrors .any o w) (shutdown : Shutdown) (passes : Nat)
    (hfits : (worker.run shutdown passes w).store.counter.Fits) :
    ∃ o', Mirrors .any o' (worker.run shutdown passes w) ∧ o'.Delivers := by
  obtain ⟨o', hreach, hmirrors, -⟩ := h.runFrom (Conditions.suits_any hwords hworker o.passes)
    (fun _ _ _ _ _ _ _ _ => trivial) shutdown passes worker.backoff
  refine ⟨o', hmirrors, (hhonest.reaches hreach ?_).delivers⟩
  rw [hmirrors.store]
  exact hfits

end Stockroom.Relay
