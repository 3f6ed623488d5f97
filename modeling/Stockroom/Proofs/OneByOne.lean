import Stockroom.Proofs.AllOrNothing
import Stockroom.Proofs.PostedEvents

/-!
# Reports in parts

A report of many outcomes is recorded in one transaction, and each outcome finds the event as the
outcomes before it have left it. So it makes no difference where a report is cut: the parts one
after the other leave the store that the whole leaves, and together they change as much. At the end
of that every outcome is reported by itself, and the number that the whole report is answered with
is the number of outcomes that were news.

Results:
1. `recordAll_append`: the transaction of a report is that of its first part and then that of its
   second.
2. `recordAll_iff_marks`: it succeeds as the reports of its single outcomes do.
3. `Sound.recordAll_succeeds_iff`: when it succeeds. Only the instant of a success can go wrong.
4. `recorded_one_by_one`: the guarantee.
-/
namespace Stockroom

namespace Outbox

open Store (find?)
open Store.Transaction

variable {s s' : Store} {now : Date} {worker : String} {id : UInt64} {outcome : Outcome}
variable {outcomes xs ys : List (UInt64 × Outcome)}

/-! ## Two parts -/

/-- The second part starts where the first one ends. -/
theorem recordAll_append (now : Date) (worker : String) (xs ys : List (UInt64 × Outcome)) :
    recordAll now worker (xs ++ ys) = (do
      let n ← recordAll now worker xs
      let m ← recordAll now worker ys
      return n + m) := by
  induction xs with
  | nil =>
    rw [List.nil_append, recordAll, pure_bind]
    simp only [Nat.zero_add, bind_pure]
  | cons first xs ih =>
    obtain ⟨id, outcome⟩ := first
    rw [List.cons_append, recordAll, recordAll, ih]
    simp only [bind_assoc, pure_bind, Nat.add_right_comm]

theorem complete_append_iff {k : Nat} :
    complete now worker (xs ++ ys) s = (.ok k, s') ↔
      ∃ n m s₁, complete now worker xs s = (.ok n, s₁) ∧
        complete now worker ys s₁ = (.ok m, s') ∧ k = n + m := by
  simp only [complete, Store.atomically_ok, recordAll_append, bind_ok, pure_ok]
  constructor
  · rintro ⟨n, s₁, hfirst, m, s₂, hsecond, rfl, rfl⟩
    exact ⟨n, m, s₁, hfirst, hsecond, rfl⟩
  · rintro ⟨n, m, s₁, hfirst, hsecond, rfl⟩
    exact ⟨n, s₁, hfirst, m, s', hsecond, rfl, rfl⟩

/-! ## Single outcomes -/

/-- Report one outcome by itself. Says whether that is news. -/
def mark (now : Date) (worker : String) : UInt64 × Outcome → Store → Except Fault Bool × Store
  | (id, .sent) => markSent now worker id
  | (id, .failed reason) => markFailed now worker id reason

/-- Report outcomes by themselves, one after the other. Says which of them are news. -/
def markEach (now : Date) (worker : String) :
    List (UInt64 × Outcome) → Store → List (Except Fault Bool) × Store
  | [], s => ([], s)
  | o :: rest, s =>
    let (answer, s) := mark now worker o s
    let (answers, s) := markEach now worker rest s
    (answer :: answers, s)

theorem mark_eq (now : Date) (worker : String) (o : UInt64 × Outcome) (s : Store) :
    mark now worker o s =
      ((complete now worker [o] s).1.map fun n => decide (n = 1),
        (complete now worker [o] s).2) := by
  obtain ⟨id, _ | reason⟩ := o
  · rfl
  · rfl

/-- An outcome is reported by itself as it is recorded among others. -/
theorem mark_ok {news : Bool} :
    mark now worker (id, outcome) s = (.ok news, s') ↔
      recordOne now worker id outcome s = .ok (news, s') := by
  rw [mark_eq, complete, Store.atomically, recordAll]
  cases hone : recordOne now worker id outcome s with
  | error e =>
    rw [bind_of_error hone]
    constructor
    · intro h
      cases h
    · intro h
      cases h
  | ok first =>
    obtain ⟨changed, s₁⟩ := first
    rw [bind_of_ok hone]
    cases changed
    · exact ⟨fun h => by cases h; rfl, fun h => by cases h; rfl⟩
    · exact ⟨fun h => by cases h; rfl, fun h => by cases h; rfl⟩

theorem markEach_cons_ok {answers : List Bool} :
    markEach now worker ((id, outcome) :: outcomes) s = (answers.map .ok, s') ↔
      ∃ news later s₁, recordOne now worker id outcome s = .ok (news, s₁) ∧
        markEach now worker outcomes s₁ = (later.map .ok, s') ∧ answers = news :: later := by
  simp only [← mark_ok]
  constructor
  · intro h
    cases answers with
    | nil => cases h
    | cons news later =>
      obtain ⟨hall, hstore⟩ := Prod.ext_iff.1 h
      obtain ⟨hfirst, hrest⟩ := List.cons.inj hall
      exact ⟨news, later, _, Prod.ext hfirst rfl, Prod.ext hrest hstore, rfl⟩
  · rintro ⟨news, later, s₁, hfirst, hrest, rfl⟩
    rw [markEach, hfirst]
    dsimp only
    rw [hrest]
    rfl

/-- A report succeeds as the reports of its single outcomes do, and is answered with the number of
those that are news. -/
theorem recordAll_iff_marks {k : Nat} :
    recordAll now worker outcomes s = .ok (k, s') ↔
      ∃ answers : List Bool, markEach now worker outcomes s = (answers.map .ok, s') ∧
        k = answers.count true := by
  induction outcomes generalizing s k with
  | nil =>
    constructor
    · intro h
      obtain ⟨rfl, rfl⟩ := pure_ok.1 h
      exact ⟨[], rfl, rfl⟩
    · rintro ⟨answers, hmarks, rfl⟩
      cases answers with
      | nil => exact pure_ok.2 ⟨rfl, (congrArg Prod.snd hmarks).symm⟩
      | cons => cases hmarks
  | cons first outcomes ih =>
    obtain ⟨id, outcome⟩ := first
    have hcount : ∀ (news : Bool) (later : List Bool),
        (news :: later).count true = later.count true + news.toNat := by
      rintro (_ | _) later
      · rfl
      · exact List.count_cons_self
    rw [recordAll_cons_ok]
    simp only [markEach_cons_ok]
    constructor
    · rintro ⟨news, n, s₁, hone, hrest, rfl⟩
      obtain ⟨later, hmarks, rfl⟩ := ih.1 hrest
      exact ⟨news :: later, ⟨news, later, s₁, hone, hmarks, rfl⟩, (hcount news later).symm⟩
    · rintro ⟨_, ⟨news, later, s₁, hone, hmarks, rfl⟩, rfl⟩
      exact ⟨news, _, s₁, hone, ih.2 ⟨later, hmarks, rfl⟩, hcount news later⟩

/-! ## Reports that succeed -/

/-- What is reported of one event is recorded or makes no difference, unless it is a success at an
instant that cannot be stored. -/
theorem Sound.recordOne_cases (hs : Sound s) (now : Date) (worker : String) (id : UInt64)
    (outcome : Outcome) :
    (∃ changed s', recordOne now worker id outcome s = .ok (changed, s')) ∨
    (outcome = .sent ∧ Has s id (·.isPending = true) ∧ ¬ now.Storable ∧
      recordOne now worker id outcome s = .error (.encoding .instant)) := by
  rcases hs.event?_cases id with hnone | ⟨e, hfind, -⟩
  · exact .inl ⟨false, s, recordOne_of_none hnone nofun⟩
  cases hreport : Event.report now worker e outcome with
  | none =>
    refine .inl ⟨false, s, recordOne_of_none hfind ?_⟩
    rintro _ ⟨⟩
    exact hreport
  | some after =>
    by_cases hrow : ∃ row, Stored.encode after = some row
    · obtain ⟨row, hrow⟩ := hrow
      rw [recordOne_of_report hfind hreport]
      exact .inl ⟨true, _, bind_ok.2 ⟨(), _, put_ok.2 ⟨row, hrow, rfl⟩, rfl⟩⟩
    · rw [Event.exists_row_iff] at hrow
      have hinstants := hs.instants hfind
      obtain ⟨hpending, ⟨rfl, rfl⟩ | ⟨reason, rfl, -, rfl⟩⟩ := report_cases hreport
      · have hnow : ¬ now.Storable := fun hnow =>
          hrow (hinstants.sent hnow)
        exact .inr ⟨rfl, ⟨e, hfind, hpending⟩, hnow, recordOne_unstorable hfind hpending hnow⟩
      · exact absurd ⟨hinstants.createdAt, hinstants.sentAt, nofun⟩ hrow

theorem Sound.recordOne (hs : Sound s) (hreason : ∀ reason, outcome = .failed reason → Sized reason)
    {changed : Bool} (h : recordOne now worker id outcome s = .ok (changed, s')) : Sound s' := by
  rcases recordOne_ok h with ⟨-, rfl⟩ | ⟨e, after, row, hfind, hreport, -, hrow, rfl⟩
  · exact hs
  · exact hs.reported hreason hfind hreport hrow

/-- An instant that cannot be stored takes no event out of the pending ones. -/
theorem Sound.recordOne_waiting (hs : Sound s) (hnow : ¬ now.Storable) {changed : Bool}
    (h : Outbox.recordOne now worker id outcome s = .ok (changed, s')) :
    s'.pending = s.pending := by
  rcases recordOne_ok h with ⟨-, rfl⟩ | ⟨e, after, row, hfind, hreport, -, hrow, rfl⟩
  · rfl
  · obtain ⟨-, ⟨-, rfl⟩ | ⟨reason, rfl, -, -⟩⟩ := report_cases hreport
    · exact absurd (Event.exists_row_iff.1 ⟨row, hrow⟩).of_sent hnow
    · rfl

/-- A report can be recorded at any instant that can be stored, and at others if it tells of no
success of a pending event. -/
theorem Sound.recordAll_succeeds_iff (hs : Sound s)
    (hreasons : ∀ o ∈ outcomes, ∀ reason, o.2 = .failed reason → Sized reason) :
    (∃ k s', recordAll now worker outcomes s = .ok (k, s')) ↔
      now.Storable ∨ ∀ id, (id, .sent) ∈ outcomes → ¬ Has s id (·.isPending = true) := by
  induction outcomes generalizing s with
  | nil => exact ⟨fun _ => .inr fun _ hmem => absurd hmem List.not_mem_nil, fun _ => ⟨0, s, rfl⟩⟩
  | cons first outcomes ih =>
    obtain ⟨id, outcome⟩ := first
    obtain ⟨hreason, hreasons⟩ := List.forall_mem_cons.1 hreasons
    rcases hs.recordOne_cases now worker id outcome with
      ⟨changed, s₁, hone⟩ | ⟨rfl, hpending, hnow, herror⟩
    · have hs₁ := hs.recordOne hreason hone
      have hrest : (∃ k s', recordAll now worker ((id, outcome) :: outcomes) s = .ok (k, s')) ↔
          ∃ k s', recordAll now worker outcomes s₁ = .ok (k, s') := by
        simp only [recordAll_cons_ok]
        constructor
        · rintro ⟨_, s', news, n, s₂, hone', hrest, -⟩
          cases hone.symm.trans hone'
          exact ⟨n, s', hrest⟩
        · rintro ⟨n, s', hrest⟩
          exact ⟨_, s', changed, n, s₁, hone, hrest, rfl⟩
      rw [hrest, ih hs₁ hreasons]
      refine or_congr_right' fun hnow => ?_
      -- then nothing becomes of the event but a failed one, so the same events are pending
      have hsame : ∀ id, Has s₁ id (·.isPending = true) ↔ Has s id (·.isPending = true) := by
        intro id
        have hafter := hs₁.index (Event.key id)
        rw [hs.recordOne_waiting hnow hone] at hafter
        exact hafter.symm.trans (hs.index (Event.key id))
      have hfirst : outcome = .sent → ¬ Has s id (·.isPending = true) := by
        rintro rfl ⟨e, hfind, hpending⟩
        cases hone.symm.trans (recordOne_unstorable hfind hpending hnow)
      simp only [hsame]
      refine ⟨fun hlater other hmem => ?_, fun hall other hmem => ?_⟩
      · rcases List.mem_cons.1 hmem with heq | hmem
        · cases heq
          exact hfirst rfl
        · exact hlater other hmem
      · exact hall other (List.mem_cons_of_mem _ hmem)
    · rw [recordAll, bind_of_error herror]
      constructor
      · rintro ⟨k, s', h⟩
        cases h
      · rintro (hstorable | hnone)
        · exact absurd hstorable hnow
        · exact absurd hpending (hnone id List.mem_cons_self)

/-! ## The guarantee -/

/-- What is promised of a report in two parts. -/
structure OneByOne (now : Date) (worker : String) (xs ys : List (UInt64 × Outcome))
    (s : Store) : Prop where
  /-- The whole succeeds as the first part and then the second do. It leaves the same store, and
  the answers add up. -/
  parts : ∀ k s', complete now worker (xs ++ ys) s = (.ok k, s') ↔
    ∃ n m s₁, complete now worker xs s = (.ok n, s₁) ∧ complete now worker ys s₁ = (.ok m, s') ∧
      k = n + m
  /-- It succeeds as its outcomes do when they are reported by themselves, and the answer is the
  number of those that are news. -/
  marks : ∀ k s', complete now worker (xs ++ ys) s = (.ok k, s') ↔
    ∃ answers : List Bool, markEach now worker (xs ++ ys) s = (answers.map .ok, s') ∧
      k = answers.count true
  /-- It succeeds at every instant that can be stored, and at any other unless it tells of the
  success of a pending event. -/
  succeeds : (∃ k s', complete now worker (xs ++ ys) s = (.ok k, s')) ↔
    now.Storable ∨ ∀ id, (id, .sent) ∈ xs ++ ys → ¬ Has s id (·.isPending = true)

open Ledger (Books Action)

/-- Whatever calls, workers and the host did, and whatever is reported of whichever events, it is
recorded as if it were reported one by one. -/
theorem recorded_one_by_one {actions : List Action} (htexts : ∀ a ∈ actions, a.Texts)
    (hreport : (Action.complete now worker (xs ++ ys)).Texts) :
    OneByOne now worker xs ys (Books.opened.run actions).store := by
  constructor
  case parts => exact fun k s' => complete_append_iff
  case marks =>
    intro k s'
    rw [complete, Store.atomically_ok]
    exact recordAll_iff_marks
  case succeeds =>
    simp only [complete, Store.atomically_ok]
    exact (Books.sound_run htexts).recordAll_succeeds_iff hreport

/-! ### Two holders -/

/-- One worker is given an event and another worker another one. -/
def twoHolders : List Action :=
  [.consider (.plain "a" "5" 2 3) (.fresh 0 5) ⟨0⟩, .commit 0 ⟨1⟩,
    .claim ⟨2⟩ ⟨3⟩ "worker" 8 (.ofSecs 60),
    .consider (.plain "b" "6" 2 3) (.fresh 0 6) ⟨4⟩, .commit 0 ⟨5⟩,
    .claim ⟨6⟩ ⟨7⟩ "other" 8 (.ofSecs 60)]

theorem sized_twoHolders : Sized "worker" ∧ Sized "other" ∧ Sized "down" := by
  simp only [Sized]
  decide

theorem texts_twoHolders : ∀ a ∈ twoHolders, a.Texts := by
  obtain ⟨hworker, hother, -⟩ := sized_twoHolders
  simp only [twoHolders, List.forall_mem_cons]
  exact ⟨trivial, trivial, hworker, trivial, trivial, hother, List.forall_mem_nil _⟩

/-- The first worker says that it failed with its event, twice, and with that of the other one. -/
def failures : List (UInt64 × Outcome) :=
  [(0, .failed "down"), (2, .failed "down"), (0, .failed "down")]

/-- It says that its event was sent, then again that it failed with it, then that an event was sent
that does not exist, and that the event of the other worker was. -/
def afterthoughts : List (UInt64 × Outcome) :=
  [(0, .sent), (0, .failed "down"), (7, .sent), (2, .sent)]

theorem recorded_one_by_one_twoHolders :
    OneByOne ⟨8⟩ "worker" failures afterthoughts (Books.opened.run twoHolders).store ∧
    (markEach ⟨8⟩ "worker" (failures ++ afterthoughts) (Books.opened.run twoHolders).store).1 =
      [true, false, false, true, false, false, true].map .ok := by
  have hfailed := Outcome.texts_failed sized_twoHolders.2.2
  have hreports : ∀ o ∈ failures ++ afterthoughts, ∀ reason, o.2 = .failed reason →
      Sized reason := by
    simp only [failures, afterthoughts, List.cons_append, List.nil_append, List.forall_mem_cons]
    exact ⟨hfailed, hfailed, hfailed, Outcome.texts_sent, hfailed, Outcome.texts_sent,
      Outcome.texts_sent, List.forall_mem_nil _⟩
  exact ⟨recorded_one_by_one texts_twoHolders hreports, by decide +kernel⟩

end Outbox

end Stockroom
