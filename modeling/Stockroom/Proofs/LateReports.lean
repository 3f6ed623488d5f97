import Stockroom.Proofs.Attempts
import Stockroom.Proofs.OneByOne

/-!
# Reports that come twice

A worker that does not learn that its report was recorded sends it again, perhaps much later. Then
everything in it is spent. An event that it reported as sent is sent, and stays so. An event that it
reported as failed is not held by it: the first report took the event away from it, or found that it
did not hold it, and only a claim of its own can give it back. Others may claim the event and report
on it meanwhile as they please.

Results:
1. `recordAll_spent`: spent outcomes change nothing.
2. `recordAll_spends`: outcomes that have been recorded are spent, those that were no news too.
3. `Books.Linked.spent_act`: only the claim of its worker can renew an outcome.
4. `late_reports_harmless`: the guarantee.
-/
namespace Stockroom

namespace Outbox

open Store (find?)
open Store.Transaction

variable {s s' : Store} {now : Date} {worker : String} {id : UInt64} {outcome : Outcome}
variable {outcomes : List (UInt64 × Outcome)}

/-! ## Outcomes that are spent -/

/-- Nothing can come of what a worker says of an event: the event was sent, or the worker tells of a
failure and does not hold the event. -/
def Spent (s : Store) (worker : String) (id : UInt64) : Outcome → Prop
  | .sent => Has s id (·.sentAt.isSome)
  | .failed _ => Unheld s id worker

theorem recordOne_spent (hs : Sound s) (h : Spent s worker id outcome) (now : Date) :
    recordOne now worker id outcome s = .ok (false, s) := by
  cases outcome with
  | sent =>
    obtain ⟨e, hfind, hsent⟩ := h
    refine recordOne_of_none hfind ?_
    rintro _ ⟨⟩
    exact if_neg (Event.not_isPending_iff.2 hsent)
  | failed reason => exact recordOne_unheld hs h now reason

/-- Spent outcomes change nothing, however many there are. -/
theorem recordAll_spent (hs : Sound s) (h : ∀ o ∈ outcomes, Spent s worker o.1 o.2)
    (now : Date) : recordAll now worker outcomes s = .ok (0, s) := by
  induction outcomes with
  | nil => rfl
  | cons first outcomes ih =>
    obtain ⟨id, outcome⟩ := first
    obtain ⟨hfirst, hlater⟩ := List.forall_mem_cons.1 h
    exact recordAll_cons_ok.2 ⟨false, 0, s, recordOne_spent hs hfirst now, ih hlater, rfl⟩

/-- Whatever is reported of whichever event, by whomever, a spent outcome stays spent. -/
theorem Spent.reported (h : Spent s worker id outcome) (hs : Sound s) {reporter : String}
    {other : UInt64} {e after : Event} {what : Outcome} {row : Bytes}
    (hreason : ∀ reason, what = .failed reason → Sized reason)
    (hfind : find? s.events (Event.key other) = .ok (some e))
    (hreport : Event.report now reporter e what = some after)
    (hrow : Stored.encode after = some row) :
    Spent ((settle other what s).update .events (·.insert (Event.key after.id) row)) worker id
      outcome := by
  cases outcome with
  | sent => exact Has.reported h hs hreason hfind hreport hrow fun _ => sent_report hreport
  | failed reason =>
    refine Each.reported h hs hreason hfind hreport hrow fun _ _ => ?_
    rw [claimedBy_report hreport]
    exact nofun

/-- Of an event that a report does not change there is no more to be said. -/
theorem Event.Coherent.spent {e : Event} (hcoherent : e.Coherent)
    (hfind : event? id s = .ok (some e)) (hreport : Event.report now worker e outcome = none) :
    Spent s worker id outcome := by
  cases outcome with
  | sent =>
    rw [Event.report] at hreport
    split at hreport
    · cases hreport
    · next hpending => exact ⟨e, hfind, Event.not_isPending_iff.1 hpending⟩
  | failed reason =>
    rw [Event.report] at hreport
    split at hreport
    · cases hreport
    · next hnot =>
      rintro other e' hfind' rfl hheld
      cases hfind.symm.trans hfind'
      by_cases hpending : e.isPending = true
      · exact hnot ⟨hpending, hheld⟩
      · rw [(hcoherent.sent (Event.not_isPending_iff.1 hpending)).1] at hheld
        cases hheld

/-- Of an event that a report has changed there is no more to be said either. -/
theorem spent_of_report {e after : Event} (hfind : event? id s = .ok (some after))
    (hreport : Event.report now worker e outcome = some after) : Spent s worker id outcome := by
  obtain ⟨-, ⟨rfl, rfl⟩ | ⟨reason, rfl, -, rfl⟩⟩ := report_cases hreport
  · exact ⟨_, hfind, rfl⟩
  · rintro other e' hfind' rfl
    cases hfind.symm.trans hfind'
    exact nofun

/-- An outcome that is recorded is spent, whether it is news or not. -/
theorem recordOne_spends {changed : Bool} (hs : Sound s)
    (hreason : ∀ reason, outcome = .failed reason → Sized reason)
    (hknown : outcome = .sent → Has s id fun _ => True)
    (h : recordOne now worker id outcome s = .ok (changed, s')) : Spent s' worker id outcome := by
  rcases hs.event?_cases id with hnone | ⟨e, hfind, rfl⟩
  · rw [recordOne_of_none hnone nofun] at h
    cases h
    cases outcome with
    | sent =>
      obtain ⟨e, hfind, -⟩ := hknown rfl
      cases hnone.symm.trans hfind
    | failed reason =>
      rintro other e hfind rfl
      cases hnone.symm.trans hfind
  cases hreport : Event.report now worker e outcome with
  | none =>
    have hsame : ∀ e' ∈ some e, Event.report now worker e' outcome = none := by
      rintro _ ⟨⟩
      exact hreport
    rw [recordOne_of_none hfind hsame] at h
    cases h
    exact (hs.found hfind).2.2.spent hfind hreport
  | some after =>
    rw [recordOne_of_report hfind hreport] at h
    obtain ⟨_, s₁, hput, hpure⟩ := bind_ok.1 h
    obtain ⟨row, hrow, rfl⟩ := putEvent_ok hput
    obtain ⟨-, rfl⟩ := pure_ok.1 hpure
    refine spent_of_report ?_ hreport
    have hfound := event?_report ((hs.found hfind).2.1.report hreason hreport) hrow e.id outcome s
    exact (hfound e.id).trans (if_pos (report_notice hreport).1)

/-- Outcomes that are recorded are spent, whatever else is said of their events in between. -/
theorem recordAll_spends {n : Nat} (hs : Sound s)
    (hreasons : ∀ o ∈ outcomes, ∀ reason, o.2 = .failed reason → Sized reason)
    (hknown : ∀ id, (id, .sent) ∈ outcomes → Has s id fun _ => True)
    (h : recordAll now worker outcomes s = .ok (n, s')) :
    ∀ o ∈ outcomes, Spent s' worker o.1 o.2 := by
  induction outcomes generalizing s n with
  | nil => exact nofun
  | cons first outcomes ih =>
    obtain ⟨id, outcome⟩ := first
    obtain ⟨hreason, hreasons⟩ := List.forall_mem_cons.1 hreasons
    obtain ⟨news, m, s₁, hone, hrest, -⟩ := recordAll_cons_ok.1 h
    have hs₁ := hs.recordOne hreason hone
    refine List.forall_mem_cons.2 ⟨?_, ih hs₁ hreasons (fun other hmem => ?_) hrest⟩
    · have hspent : Spent s₁ worker id outcome :=
        recordOne_spends hs hreason (fun hsent => hknown id (hsent ▸ List.mem_cons_self)) hone
      have hkept : KeptByReports (fun s => Sound s ∧ Spent s worker id outcome) now worker
          outcomes := fun _ _ _ _ _ _ hmem hs hfind hreport hrow =>
        ⟨hs.1.reported (hreasons _ hmem) hfind hreport hrow,
          hs.2.reported hs.1 (hreasons _ hmem) hfind hreport hrow⟩
      exact (preserves_recordAll hkept hrest ⟨hs₁, hspent⟩).2
    · have hbefore := hknown other (List.mem_cons_of_mem _ hmem)
      rcases recordOne_ok hone with ⟨-, rfl⟩ | ⟨e, after, row, hfind, hreport, -, hrow, rfl⟩
      · exact hbefore
      · exact hbefore.reported hs hreason hfind hreport hrow fun _ _ => trivial

end Outbox

namespace Ledger

open Outbox (Event Has Sound Spent Unheld Outcome event?)

namespace Books

variable {b : Books} {worker : String} {id : UInt64} {outcome : Outcome}

/-! ## Runs -/

/-- Whoever is not given an event does not come to hold it. -/
theorem unheld_act (hs : Sound b.store) {a : Action} (ha : a.Texts)
    (hother : b.givenTo id a ≠ some worker) (h : Unheld b.store id worker) :
    Unheld (b.act a).store id worker := by
  cases hstamp : a.stamp? with
  | none =>
    refine each_quiet h hs ha hstamp (fun _ _ _ _ _ => nofun) ?_
    intro now reporter what e after hreport _ _
    rw [Outbox.claimedBy_report hreport]
    exact nofun
  | some stamp =>
    rintro other e hfind rfl hheld
    rcases granted_assigns hs ha hstamp other e hfind with ⟨hmem, before, -, rfl⟩ | ⟨-, hbefore⟩
    · rw [givenTo, if_pos hmem, hstamp] at hother
      exact hother hheld
    · exact h other e hbefore rfl hheld

/-- A spent outcome stays spent unless its worker is given the event. -/
theorem Linked.spent_act (h : b.Linked) {a : Action} (ha : a.Texts)
    (hother : b.givenTo id a ≠ some worker) (hspent : Spent b.store worker id outcome) :
    Spent (b.act a).store worker id outcome := by
  cases outcome with
  | sent =>
    refine h.has_act ha (fun stamp _ e hfree hsent => ?_) (fun _ _ _ _ e after hreport hsent => ?_)
      hspent
    · exact absurd hfree (Event.not_claimable_of_sent hsent)
    · exact Outbox.sent_report hreport hsent
  | failed reason => exact unheld_act h.notices.sound ha hother hspent

theorem Linked.spent_run (h : b.Linked) {actions : List Action} (htexts : ∀ a ∈ actions, a.Texts)
    (hfits : (b.run actions).store.counter.Fits) (hothers : worker ∉ b.holdersIn id actions)
    (hspent : Spent b.store worker id outcome) :
    Spent (b.run actions).store worker id outcome := by
  induction actions generalizing b with
  | nil => exact hspent
  | cons a actions ih =>
    obtain ⟨ha, htexts⟩ := List.forall_mem_cons.1 htexts
    obtain ⟨hnow, hlater⟩ := not_or.1 (mt List.mem_append.2 hothers)
    refine ih (h.act ha (fits_of_run (ordered_act h.ordered a) hfits)) htexts hfits hlater
      (h.spent_act ha (fun hgiven => hnow ?_) hspent)
    rw [hgiven]
    exact List.mem_singleton_self worker

/-! ## The guarantee -/

/-- What is promised of a report that comes again after some other actions. -/
structure Harmless (before between : List Action) (now : Date) (worker : String)
    (outcomes : List (UInt64 × Outcome)) : Prop where
  /-- The report is recorded at first, at any instant that can be stored. -/
  recorded : now.Storable →
    ∃ n s', Outbox.complete now worker outcomes (opened.run before).store = (.ok n, s')
  /-- If it was recorded, it is recorded again at any later time as no news, and changes nothing. -/
  again : ∀ n s', Outbox.complete now worker outcomes (opened.run before).store = (.ok n, s') →
    ∀ later, Outbox.complete later worker outcomes
        (opened.run (before ++ .complete now worker outcomes :: between)).store =
      (.ok 0, (opened.run (before ++ .complete now worker outcomes :: between)).store)

end Books

variable {before between : List Action} {now : Date} {worker : String}
variable {outcomes : List (UInt64 × Outcome)}

/-- Whatever calls, workers and the host did before and do in between, a report of events that
exist does no harm when it comes again, unless its worker is given one of its events in between. -/
theorem late_reports_harmless
    (htexts : ∀ a ∈ before ++ .complete now worker outcomes :: between, a.Texts)
    (hfits : (Books.opened.run
      (before ++ .complete now worker outcomes :: between)).store.counter.Fits)
    (hknown : ∀ o ∈ outcomes, Has (Books.opened.run before).store o.1 fun _ => True)
    (hothers : ∀ o ∈ outcomes, worker ∉
      (Books.opened.run (before ++ [.complete now worker outcomes])).holdersIn o.1 between) :
    Books.Harmless before between now worker outcomes := by
  obtain ⟨hbefore, hrest⟩ := List.forall_mem_append.1 htexts
  obtain ⟨hreport, hbetween⟩ := List.forall_mem_cons.1 hrest
  have hsound := Books.sound_run hbefore
  constructor
  case recorded =>
    intro hnow
    simp only [Outbox.complete, Store.atomically_ok]
    exact (hsound.recordAll_succeeds_iff hreport).2 (.inl hnow)
  case again =>
    intro n s' hdone later
    have hspent := Outbox.recordAll_spends hsound hreport (fun id hmem => hknown _ hmem)
      (Store.atomically_ok.1 hdone)
    have hstore : s' = (Books.opened.run (before ++ [.complete now worker outcomes])).store := by
      rw [Books.run_append]
      exact (congrArg Prod.snd hdone).symm
    rw [List.append_cons] at htexts hfits ⊢
    have hlast := Books.sound_run htexts
    rw [Books.run_append] at hfits hlast ⊢
    have hfirst : ∀ a ∈ before ++ [.complete now worker outcomes], a.Texts :=
      (List.forall_mem_append.1 htexts).1
    have hlinked := Books.linked_run hfirst (Books.fits_of_run (Books.ordered_run _) hfits)
    refine Store.atomically_ok.2 (Outbox.recordAll_spent hlast (fun o ho => ?_) later)
    exact hlinked.spent_run hbetween hfits (hothers o ho) (hstore ▸ hspent o ho)

/-! ### A report that is believed lost -/

open Outbox (twoHolders)

/-- A failure that counts, one that does not because another worker holds the event, and a success
of that same event. -/
def lostReport : List (UInt64 × Outcome) := [(0, .failed "down"), (2, .failed "down"), (2, .sent)]

/-- Meanwhile the other worker is given the first event and sends it, and the first worker is given
nothing. -/
def meanwhile : List Action :=
  [.claim ⟨9⟩ ⟨10⟩ "other" 8 (.ofSecs 60), .claim ⟨11⟩ ⟨12⟩ "worker" 8 (.ofSecs 60),
    .complete ⟨13⟩ "other" [(0, .sent)]]

theorem late_reports_harmless_lostReport :
    Books.Harmless twoHolders meanwhile ⟨8⟩ "worker" lostReport ∧
    (Outbox.complete ⟨8⟩ "worker" lostReport (Books.opened.run twoHolders).store).1 = .ok 2 := by
  obtain ⟨hworker, hother, hdown⟩ := Outbox.sized_twoHolders
  have hfailed := Outbox.Outcome.texts_failed hdown
  have hreport : (Action.complete ⟨8⟩ "worker" lostReport).Texts := by
    simp only [Action.Texts, lostReport, List.forall_mem_cons]
    exact ⟨hfailed, hfailed, Outbox.Outcome.texts_sent, List.forall_mem_nil _⟩
  have hmeanwhile : ∀ a ∈ meanwhile, a.Texts := by
    simp only [meanwhile, List.forall_mem_cons]
    exact ⟨hother, hworker, List.forall_mem_singleton.2 Outbox.Outcome.texts_sent,
      List.forall_mem_nil _⟩
  have htexts : ∀ a ∈ twoHolders ++ .complete ⟨8⟩ "worker" lostReport :: meanwhile, a.Texts :=
    List.forall_mem_append.2
      ⟨Outbox.texts_twoHolders, List.forall_mem_cons.2 ⟨hreport, hmeanwhile⟩⟩
  have hseen : (Outbox.complete ⟨8⟩ "worker" lostReport (Books.opened.run twoHolders).store).1 =
        .ok 2 ∧
      (Books.opened.run
        (twoHolders ++ .complete ⟨8⟩ "worker" lostReport :: meanwhile)).store.counter.last? =
          some 3 ∧
      (∀ o ∈ lostReport, Has (Books.opened.run twoHolders).store o.1 fun _ => True) ∧
      ∀ o ∈ lostReport, "worker" ∉
        (Books.opened.run (twoHolders ++ [.complete ⟨8⟩ "worker" lostReport])).holdersIn o.1
          meanwhile := by
    decide +kernel
  obtain ⟨hcount, hlast, hknown, hothers⟩ := hseen
  exact ⟨late_reports_harmless htexts (.of_last hlast (by decide)) hknown hothers, hcount⟩

end Ledger

end Stockroom
