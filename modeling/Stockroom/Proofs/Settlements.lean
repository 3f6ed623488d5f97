import Stockroom.Proofs.OldestFirst

/-!
# Settled events

What a worker says of events that it holds is recorded for each of them. An event that was sent
leaves the pending ones, one that failed stays and is free, and the rows of all other events are as
they were, down to the bytes.

Results:
1. `recordOne_settles`: what is said of one event.
2. `recordAll_settles` and `complete_settles`: what is said of many.
-/
namespace Stockroom.Outbox

open Store.Transaction

variable {s s' s₁ : Store} {now : Date} {worker : String} {e : Event} {outcome : Outcome}

/-- What becomes of an event when an outcome is recorded. -/
def Event.concluded (now : Date) (e : Event) : Outcome → Event
  | .sent => e.sent now
  | .failed reason => e.failed reason

theorem Event.id_concluded (now : Date) (e : Event) (outcome : Outcome) :
    (e.concluded now outcome).id = e.id := by
  cases outcome <;> rfl

/-- An event that a worker may speak for: it is stored like this, pending and held by the worker. -/
structure Event.HeldBy (worker : String) (s : Store) (e : Event) : Prop where
  found : event? e.id s = .ok (some e)
  pending : e.isPending = true
  holder : e.claimedBy = some worker

theorem Event.HeldBy.report (h : e.HeldBy worker s) (now : Date) (outcome : Outcome) :
    Event.report now worker e outcome = some (e.concluded now outcome) := by
  cases outcome with
  | sent => exact if_pos h.pending
  | failed reason => exact if_pos ⟨h.pending, h.holder⟩

theorem Event.HeldBy.of_get? (h : e.HeldBy worker s)
    (hsame : s'.events.get? (Event.key e.id) = s.events.get? (Event.key e.id)) :
    e.HeldBy worker s' :=
  ⟨(event?_of_get? hsame).trans h.found, h.pending, h.holder⟩

/-- An event and what is said of it. -/
abbrev Verdict := Event × Outcome

/-- What is said of some events has been recorded, and nothing else has changed. -/
structure Settles (now : Date) (verdicts : List Verdict) (s s' : Store) : Prop where
  stored : ∀ v ∈ verdicts, event? v.1.id s' = .ok (some (v.1.concluded now v.2))
  /-- Those that were sent are pending no longer. -/
  waiting : ∀ v ∈ verdicts, (s'.pending.get? (Event.key v.1.id)).isSome = true ↔ v.2 ≠ .sent
  untouched : ∀ key, (∀ v ∈ verdicts, Event.key v.1.id ≠ key) →
    s'.events.get? key = s.events.get? key ∧ s'.pending.get? key = s.pending.get? key

theorem Settles.nothing (now : Date) (s : Store) : Settles now [] s s :=
  ⟨nofun, nofun, fun _ _ => ⟨rfl, rfl⟩⟩

theorem Settles.cons {v : Verdict} {verdicts : List Verdict} (hfirst : Settles now [v] s s₁)
    (hnew : ∀ v' ∈ verdicts, v'.1.id ≠ v.1.id) (hrest : Settles now verdicts s₁ s') :
    Settles now (v :: verdicts) s s' := by
  -- the later ones have other numbers, so they leave the rows of the first one alone
  obtain ⟨hevent, hindex⟩ := hrest.untouched (Event.key v.1.id)
    fun v' hv' heq => hnew v' hv' (Event.key_injective heq)
  constructor
  case stored =>
    refine List.forall_mem_cons.2 ⟨?_, hrest.stored⟩
    rw [event?_of_get? hevent]
    exact hfirst.stored v List.mem_cons_self
  case waiting =>
    refine List.forall_mem_cons.2 ⟨?_, hrest.waiting⟩
    rw [hindex]
    exact hfirst.waiting v List.mem_cons_self
  case untouched =>
    intro key hother
    obtain ⟨hthis, hlater⟩ := List.forall_mem_cons.1 hother
    obtain ⟨hevent, hindex⟩ := hrest.untouched key hlater
    obtain ⟨hevent', hindex'⟩ := hfirst.untouched key (List.forall_mem_singleton.2 hthis)
    exact ⟨hevent.trans hevent', hindex.trans hindex'⟩

/-! ## One event -/

theorem get?_settle {id : UInt64} {key : Bytes} (hother : Event.key id ≠ key) :
    (settle id outcome s).pending.get? key = s.pending.get? key := by
  unfold settle
  split
  · exact (Table.get?_erase _ _ _).trans (if_neg hother)
  · rfl

theorem isSome_get?_settle {id : UInt64} (h : (s.pending.get? (Event.key id)).isSome = true) :
    ((settle id outcome s).pending.get? (Event.key id)).isSome = true ↔ outcome ≠ .sent := by
  cases outcome with
  | sent =>
    have hgone : (settle id .sent s).pending.get? (Event.key id) = none :=
      (Table.get?_erase _ _ _).trans (if_pos rfl)
    rw [hgone]
    exact ⟨nofun, fun hne => absurd rfl hne⟩
  | failed reason => exact ⟨fun _ => nofun, fun _ => h⟩

/-- What a worker says of an event that it holds is recorded. -/
theorem recordOne_settles {changed : Bool} (hs : Sound s)
    (hreason : ∀ reason, outcome = .failed reason → Sized reason) (hheld : e.HeldBy worker s)
    (h : recordOne now worker e.id outcome s = .ok (changed, s')) :
    changed = true ∧ Sound s' ∧ Settles now [(e, outcome)] s s' := by
  have hreport := hheld.report now outcome
  rw [recordOne_of_report hheld.found hreport] at h
  obtain ⟨_, s₁, hput, hpure⟩ := bind_ok.1 h
  obtain ⟨row, hrow, rfl⟩ := putEvent_ok hput
  obtain ⟨rfl, rfl⟩ := pure_ok.1 hpure
  obtain ⟨-, hlasting, -⟩ := hs.found hheld.found
  have hid := e.id_concluded now outcome
  refine ⟨rfl, hs.reported hreason hheld.found hreport hrow, ?_⟩
  constructor
  case stored =>
    refine List.forall_mem_singleton.2 ?_
    exact (event?_report (hlasting.report hreason hreport) hrow e.id outcome s e.id).trans
      (if_pos hid)
  case waiting =>
    exact List.forall_mem_singleton.2
      (isSome_get?_settle ((hs.index _).2 ⟨e, hheld.found, hheld.pending⟩))
  case untouched =>
    intro key hother
    have hother : Event.key e.id ≠ key := hother (e, outcome) List.mem_cons_self
    refine ⟨?_, get?_settle hother⟩
    show ((settle e.id outcome s).events.insert _ row).get? key = _
    rw [settle_events, Table.get?_insert, hid, if_neg hother]

/-! ## Many events -/

/-- What there is to record of some events. -/
def reported (verdicts : List Verdict) : List (UInt64 × Outcome) :=
  verdicts.map fun v => (v.1.id, v.2)

/-- What a worker says of events that it holds is recorded for all of them. -/
theorem recordAll_settles {verdicts : List Verdict} {n : Nat} (hs : Sound s)
    (hnodup : (verdicts.map (·.1.id)).Nodup)
    (hreasons : ∀ v ∈ verdicts, ∀ reason, v.2 = .failed reason → Sized reason)
    (hheld : ∀ v ∈ verdicts, v.1.HeldBy worker s)
    (h : recordAll now worker (reported verdicts) s = .ok (n, s')) :
    n = verdicts.length ∧ Settles now verdicts s s' := by
  induction verdicts generalizing s n with
  | nil =>
    obtain ⟨rfl, rfl⟩ := pure_ok.1 h
    exact ⟨rfl, .nothing _ _⟩
  | cons v verdicts ih =>
    obtain ⟨e, outcome⟩ := v
    obtain ⟨hfirst, hnodup⟩ := List.nodup_cons.1 hnodup
    obtain ⟨hreason, hreasons⟩ := List.forall_mem_cons.1 hreasons
    obtain ⟨hthis, hothers⟩ := List.forall_mem_cons.1 hheld
    have hnew : ∀ v ∈ verdicts, v.1.id ≠ e.id := fun v hv heq =>
      hfirst (List.mem_map.2 ⟨v, hv, heq⟩)
    obtain ⟨changed, later, s₁, hone, hrest, rfl⟩ := recordAll_cons_ok.1 h
    obtain ⟨rfl, hs₁, hsettles⟩ := recordOne_settles hs hreason hthis hone
    have hheld₁ : ∀ v ∈ verdicts, v.1.HeldBy worker s₁ := fun v hv =>
      (hothers v hv).of_get? (hsettles.untouched _ (List.forall_mem_singleton.2 fun heq =>
        hnew v hv (Event.key_injective heq).symm)).1
    obtain ⟨rfl, hlater⟩ := ih hs₁ hnodup hreasons hheld₁ hrest
    exact ⟨rfl, hsettles.cons hnew hlater⟩

theorem complete_settles {verdicts : List Verdict} {n : Nat} (hs : Sound s)
    (hnodup : (verdicts.map (·.1.id)).Nodup)
    (hreasons : ∀ v ∈ verdicts, ∀ reason, v.2 = .failed reason → Sized reason)
    (hheld : ∀ v ∈ verdicts, v.1.HeldBy worker s)
    (h : complete now worker (reported verdicts) s = (.ok n, s')) :
    n = verdicts.length ∧ Settles now verdicts s s' :=
  recordAll_settles hs hnodup hreasons hheld (Store.atomically_ok.1 h)

end Stockroom.Outbox
