import Stockroom.Proofs.AllOrNothing
import Stockroom.Proofs.Leases

/-!
# What becomes of a batch

A stamp and a record each treat a list of events one by one, in one transaction. Whatever the list
is, the outcome is said in a few words: which events have changed, how, and that no other has.

Results:
1. `stamp_gives`: a stamp gives out events that were free, each once, and touches no other.
2. `complete_sent`: a record of successes marks their events as sent, and touches no other.
3. `Books.Linked.quiet_kept` and `Books.Linked.quiet_found`: other actions leave events as they are
   and bring at most one that nobody has claimed yet.
-/
namespace Stockroom

namespace Outbox

open Store (find?)
open Store.Transaction

variable {s s' : Store} {now leaseEnd : Date} {worker : String}

/-- An event under a lease was not sent. -/
theorem Sound.not_sent_of_leased (h : Sound s) {id : UInt64} (hleased : Has s id (·.leaseEnd.isSome))
    (hsent : Has s id (·.sentAt.isSome)) : False := by
  obtain ⟨e, hfind, hend, hsent⟩ := hleased.and hsent
  rw [((h.found hfind).2.2.sent hsent).2] at hend
  cases hend

/-! ## What a stamp gives out -/

/-- A stamp has given out events from one store to the next: each was free before and is under the
lease now, and none is among them twice. Others are as they were. -/
structure Gives (now leaseEnd : Date) (s s' : Store) (events : List Event) : Prop where
  distinct : (events.map (·.id)).Nodup
  free : ∀ id ∈ events.map (·.id), Has s id (·.isClaimable now = true)
  leased : ∀ id ∈ events.map (·.id), Has s' id (·.leaseEnd = some leaseEnd)
  others : ∀ id ∉ events.map (·.id), event? id s' = event? id s

theorem Gives.nothing (now leaseEnd : Date) (s : Store) : Gives now leaseEnd s s [] :=
  ⟨.nil, nofun, nofun, fun _ _ => rfl⟩

/-- What has been given out is not free any more, so it is not given out again. -/
theorem Gives.cons {e : Event} {row : Bytes} {events : List Event} {s₁ : Store} (hs : Sound s)
    (hworker : Sized worker) (hlive : now < leaseEnd)
    (hfind : event? e.id s = .ok (some e)) (hfree : e.isClaimable now = true)
    (hrow : Stored.encode (e.claim worker leaseEnd) = some row)
    (hevents : s₁.events = s.events.insert (Event.key e.id) row)
    (hrest : Gives now leaseEnd s₁ s' events) :
    Gives now leaseEnd s s' (e.claim worker leaseEnd :: events) := by
  have hput := event?_put ((hs.found hfind).2.1.claim hworker leaseEnd) hrow hevents
  have hfirst : event? e.id s₁ = .ok (some (e.claim worker leaseEnd)) := by
    rw [hput]
    exact if_pos rfl
  have hothers : ∀ id, id ≠ e.id → event? id s₁ = event? id s := by
    intro id hid
    rw [hput]
    exact if_neg fun heq => hid heq.symm
  have hnew : e.id ∉ events.map (·.id) := by
    intro hmem
    exact Event.not_claimable_of_leased rfl (Instant.ofDate_lt_ofDate.2 hlive)
      ((hrest.free _ hmem).found hfirst)
  constructor
  case distinct => exact List.nodup_cons.2 ⟨hnew, hrest.distinct⟩
  case free =>
    refine List.forall_mem_cons.2 ⟨⟨e, hfind, hfree⟩, fun id hid => ?_⟩
    exact (hrest.free id hid).of_eq (hothers id fun heq => hnew (heq ▸ hid)).symm
  case leased =>
    refine List.forall_mem_cons.2 ⟨⟨_, (hrest.others _ hnew).trans hfirst, rfl⟩, hrest.leased⟩
  case others =>
    intro id hid
    obtain ⟨hne, hid⟩ := not_or.1 (mt List.mem_cons.2 hid)
    exact (hrest.others id hid).trans (hothers id hne)

theorem stampEach_gives {ids : List UInt64} {stamped : List (Option Event)} (hs : Sound s)
    (hworker : Sized worker) (hlive : now < leaseEnd)
    (h : ids.mapM (stampOne now worker leaseEnd) s = .ok (stamped, s')) :
    Gives now leaseEnd s s' (stamped.filterMap id) := by
  induction ids generalizing s stamped with
  | nil =>
    obtain ⟨rfl, rfl⟩ := pure_ok.1 h
    exact .nothing _ _ _
  | cons first ids ih =>
    rw [List.mapM_cons] at h
    obtain ⟨found, s₁, hone, h⟩ := bind_ok.1 h
    obtain ⟨later, s₂, hrest, hpure⟩ := bind_ok.1 h
    obtain ⟨rfl, rfl⟩ := pure_ok.1 hpure
    rcases stampOne_ok hone with ⟨rfl, rfl⟩ | ⟨e, row, hfind, hfree, rfl, hrow, rfl⟩
    · have hlater := ih hs hrest
      exact hlater
    · have hown : event? e.id s = .ok (some e) := by
        rw [event?, eventAt, ← (hs.found hfind).1]
        exact hfind
      exact .cons hs hworker hlive hown hfree hrow rfl
        (ih (hs.stamped hworker hfind hfree hrow) hrest)

/-- A stamp gives out events that were free, each once, and touches no other. One that fails gives
out none. -/
theorem stamp_gives {lease : Duration} (hs : Sound s) (hworker : Sized worker)
    (hlive : now < now.after lease) (ids : List UInt64) :
    Gives now (now.after lease) s (stamp now worker lease ids s).2
      ((stamp now worker lease ids s).1.toOption.getD []) := by
  rcases h : stamp now worker lease ids s with ⟨e | events, s'⟩
  · rw [stamp_error h]
    exact .nothing _ _ _
  · rw [stamp] at h
    split at h
    · cases h
      exact .nothing _ _ _
    · obtain ⟨stamped, s₁, hall, hpure⟩ := bind_ok.1 (Store.atomically_ok.1 h)
      obtain ⟨rfl, rfl⟩ := pure_ok.1 hpure
      exact stampEach_gives hs hworker hlive hall

/-! ## What a record of successes does -/

/-- Events have been marked as sent from one store to the next. Others are as they were. -/
structure Closes (s s' : Store) (ids : List UInt64) : Prop where
  sound : Sound s'
  sent : ∀ id ∈ ids, Has s id (fun _ => True) → Has s' id (·.sentAt.isSome)
  others : ∀ id ∉ ids, event? id s' = event? id s

theorem Closes.nothing (hs : Sound s) : Closes s s [] := ⟨hs, nofun, fun _ _ => rfl⟩

theorem Closes.cons {s₁ : Store} {id : UInt64} {ids : List UInt64} (hfirst : Closes s s₁ [id])
    (hrest : Closes s₁ s' ids) : Closes s s' (id :: ids) := by
  refine ⟨hrest.sound, fun other hother hhas => ?_, fun other hother => ?_⟩
  · by_cases hlater : other ∈ ids
    · refine hrest.sent other hlater ?_
      by_cases heq : other = id
      · obtain ⟨e, hfind, -⟩ := hfirst.sent other (List.mem_singleton.2 heq) hhas
        exact ⟨e, hfind, trivial⟩
      · exact hhas.of_eq (hfirst.others other (mt List.mem_singleton.1 heq))
    · have heq : other = id := (List.mem_cons.1 hother).resolve_right hlater
      exact (hfirst.sent other (List.mem_singleton.2 heq) hhas).of_eq (hrest.others other hlater)
  · obtain ⟨hne, hlater⟩ := not_or.1 (mt List.mem_cons.2 hother)
    exact (hrest.others other hlater).trans (hfirst.others other (mt List.mem_singleton.1 hne))

theorem Closes.one {id : UInt64} (hs : Sound s')
    (hsent : Has s id (fun _ => True) → Has s' id (·.sentAt.isSome))
    (hothers : ∀ other, other ≠ id → event? other s' = event? other s) : Closes s s' [id] := by
  refine ⟨hs, fun other hother => ?_, fun other hother => ?_⟩
  · rw [List.mem_singleton.1 hother]
    exact hsent
  · exact hothers other (mt List.mem_singleton.2 hother)

/-- A success is recorded, unless the event was sent before or does not exist. -/
theorem recordOne_sent (hs : Sound s) (hnow : now.Storable) (worker : String) (id : UInt64) :
    ∃ changed s', recordOne now worker id .sent s = .ok (changed, s') ∧ Closes s s' [id] := by
  rcases hs.event?_cases id with hnone | ⟨e, hfind, rfl⟩
  · refine ⟨false, s, recordOne_of_none hnone nofun, .one hs ?_ fun _ _ => rfl⟩
    rintro ⟨e, hfind, -⟩
    cases hnone.symm.trans hfind
  by_cases hpending : e.isPending = true
  · have hreport : Event.report now worker e .sent = some (e.sent now) := if_pos hpending
    obtain ⟨row, hrow⟩ := Event.exists_row_iff.2 ((hs.instants hfind).sent hnow)
    have hput := event?_report ((hs.found hfind).2.1.report Outcome.texts_sent hreport) hrow e.id
      .sent s
    refine ⟨true, _, ?_, .one (hs.reported Outcome.texts_sent hfind hreport hrow) ?_ ?_⟩
    · rw [recordOne_of_report hfind hreport]
      exact bind_ok.2 ⟨(), _, put_ok.2 ⟨row, hrow, rfl⟩, rfl⟩
    · exact fun _ => ⟨e.sent now, (hput e.id).trans (if_pos rfl), rfl⟩
    · exact fun other hother => (hput other).trans (if_neg fun heq => hother heq.symm)
  · have hreport : ∀ e' ∈ some e, Event.report now worker e' .sent = none := by
      rintro _ ⟨⟩
      exact if_neg hpending
    refine ⟨false, s, recordOne_of_none hfind hreport, .one hs (fun _ => ?_) fun _ _ => rfl⟩
    exact ⟨e, hfind, Event.not_isPending_iff.1 hpending⟩

theorem recordAll_sent (hs : Sound s) (hnow : now.Storable) (worker : String)
    {outcomes : List (UInt64 × Outcome)} (hsent : ∀ o ∈ outcomes, o.2 = .sent) :
    ∃ n s', recordAll now worker outcomes s = .ok (n, s') ∧
      Closes s s' (outcomes.map (·.1)) := by
  induction outcomes generalizing s with
  | nil => exact ⟨0, s, rfl, .nothing hs⟩
  | cons first outcomes ih =>
    obtain ⟨id, outcome⟩ := first
    obtain ⟨houtcome, hlater⟩ := List.forall_mem_cons.1 hsent
    obtain rfl : outcome = .sent := houtcome
    obtain ⟨changed, s₁, hone, hfirst⟩ := recordOne_sent hs hnow worker id
    obtain ⟨n, s₂, hall, hrest⟩ := ih hfirst.sound hlater
    exact ⟨n + changed.toNat, s₂, recordAll_cons_ok.2 ⟨changed, n, s₁, hone, hall, rfl⟩,
      hfirst.cons hrest⟩

/-- A record of successes marks their events as sent, and touches no other. It cannot fail. -/
theorem complete_sent (hs : Sound s) (hnow : now.Storable) (worker : String)
    {outcomes : List (UInt64 × Outcome)} (hsent : ∀ o ∈ outcomes, o.2 = .sent) :
    Closes s (complete now worker outcomes s).2 (outcomes.map (·.1)) := by
  obtain ⟨n, s', hall, hcloses⟩ := recordAll_sent hs hnow worker hsent
  rw [complete, Store.atomically, hall]
  exact hcloses

end Outbox

namespace Ledger

open Outbox (Event Has)

namespace Books

variable {b : Books} {a : Action} {F : Event → Prop} {id : UInt64}

/-- What neither stamps nor records anything leaves events as they are. -/
theorem Linked.quiet_kept (h : b.Linked) (ha : a.Texts) (hstamp : a.stamp? = none)
    (hrecorded : b.recorded a = []) (hhas : Has b.store id F) : Has (b.act a).store id F := by
  refine h.has_act ha (fun stamp hmem => ?_) (fun worker outcome hmem => ?_) hhas
  · rw [hstamp] at hmem
    cases hmem
  · rw [hrecorded] at hmem
    cases hmem

/-- All that it can bring is an event that nobody has claimed yet. -/
theorem Linked.quiet_found (h : b.Linked) (ha : a.Texts) (hstamp : a.stamp? = none)
    (hrecorded : b.recorded a = []) (hfits : (b.act a).store.counter.Fits)
    (hnew : ∀ e : Event, e.sentAt = none → e.leaseEnd = none → ¬ F e)
    (hhas : Has (b.act a).store id F) : Has b.store id F := by
  obtain ⟨e, hfind, hF⟩ := hhas
  have hnext := h.act ha hfits
  obtain ⟨p, hp, htells⟩ := hnext.notices.tells hfind
  obtain rfl : id = p.draft.event :=
    (Outbox.Event.key_injective (hnext.notices.sound.found hfind).1).trans htells.id
  have hold : p ∈ b.posted → Has b.store p.draft.event F := by
    intro hp
    obtain ⟨e', hfind', -⟩ := h.notices.kept p hp
    have hsame : Has (b.act a).store p.draft.event (· = e') :=
      h.quiet_kept ha hstamp hrecorded ⟨e', hfind', rfl⟩
    exact ⟨e', hfind', hsame.found hfind ▸ hF⟩
  rcases act_posts b a with ⟨_, now, d, -, -, hwrites, -, hposted⟩ | ⟨hposted, -⟩
  · rw [hposted] at hp
    rcases List.mem_append.1 hp with hp | hp
    · exact hold hp
    · obtain rfl := List.mem_singleton.1 hp
      have hfresh := hwrites.has_fresh.found hfind
      rw [hfresh] at hF
      exact absurd hF (hnew _ rfl rfl)
  · exact hold (hposted ▸ hp)

theorem exists_tells_act {e : Event} (h : ∃ p ∈ b.posted, Tells e p) (a : Action) :
    ∃ p ∈ (b.act a).posted, Tells e p := by
  obtain ⟨p, hp, htells⟩ := h
  exact ⟨p, mem_posted_act hp a, htells⟩

end Books

end Ledger

end Stockroom
