import Stockroom.Proofs.Batches
import Stockroom.Proofs.Relays

/-!
# Relays side by side

Workers look for free events on their own, so several of them see the same ones, and what they saw
may be out of date when they stamp it. Nevertheless every event has one place: it is free, or it is
held by one pass that has not tried it, or by one that has, or it was sent. A stamp takes events
from the first place to the second, an attempt to the third, a record to the last. What the workers
are called does not matter.

Results:
1. `Orderly.claimed`, `Orderly.published`, `Orderly.recorded`: each step of a pass keeps every event
   in one place.
2. `Orderly.run`: so does every run of a smooth day.
3. `side_by_side`: the guarantee.
-/
namespace Stockroom

namespace Relay

open Ledger (Books Action Tells)
open Outbox (Event Has event? Gives Closes)

/-! ## Where events are -/

/-- The events that the worker of a pass has tried to publish and not recorded. -/
def Pass.tried (pass : Pass) : List UInt64 := pass.progress.outcomes.map (·.1)

/-- The events that it has claimed and not tried to publish. -/
def Pass.waiting (pass : Pass) : List UInt64 := pass.batch.map (·.id)

def tried (passes : List Pass) : List UInt64 := passes.flatMap Pass.tried

def waiting (passes : List Pass) : List UInt64 := passes.flatMap Pass.waiting

/-- The events that workers hold, between a stamp and a record. -/
def held (passes : List Pass) : List UInt64 := tried passes ++ waiting passes

/-- Every event is in one place. `early` says which ones were sent before anything was received, and
`left` are the ones that a worker claimed and gave up. -/
structure Orderly (early : UInt64 → Prop) (b : Books) (passes : List Pass) (received : List Event)
    (left : List UInt64) : Prop where
  linked : b.Linked
  successes : ∀ pass ∈ passes, ∀ o ∈ pass.progress.outcomes, o.2 = .sent
  /-- What is held or received is the notice of a committed move. -/
  notices : ∀ pass ∈ passes, ∀ e ∈ pass.batch, ∃ p ∈ b.posted, Tells e p
  told : ∀ e ∈ received, ∃ p ∈ b.posted, Tells e p
  /-- What is held is held once and under a lease, and little else is under a lease. -/
  apart : (held passes).Nodup
  leased : ∀ id ∈ held passes, Has b.store id (·.leaseEnd.isSome)
  leases : ∀ id, Has b.store id (·.leaseEnd.isSome) → id ∈ held passes ∨ id ∈ left
  /-- What was received is held until it is recorded, and is sent afterwards. -/
  once : (received.map (·.id)).Nodup
  tried : ∀ id ∈ tried passes, id ∈ received.map (·.id)
  later : ∀ id ∈ received.map (·.id), ¬ early id
  got : ∀ id ∈ received.map (·.id), id ∈ Relay.tried passes ∨ Has b.store id (·.sentAt.isSome)
  sent : ∀ id, Has b.store id (·.sentAt.isSome) → early id ∨ id ∈ received.map (·.id)
  early : ∀ id, early id → Has b.store id (·.sentAt.isSome)

section

variable {early : UInt64 → Prop} {b b' : Books} {passes passes' : List Pass}
variable {received granted : List Event} {left : List UInt64} {now leaseEnd : Date}
variable {worker : Worker} {a : Action}

/-- The order of the passes does not matter. -/
theorem Orderly.of_perm (h : Orderly early b passes received left) (hperm : passes.Perm passes') :
    Orderly early b passes' received left := by
  have htried : (Relay.tried passes).Perm (Relay.tried passes') := hperm.flatMap_right _
  have hheld : (held passes).Perm (held passes') := htried.append (hperm.flatMap_right _)
  exact {
    linked := h.linked
    successes := fun pass hpass => h.successes pass (hperm.mem_iff.2 hpass)
    notices := fun pass hpass => h.notices pass (hperm.mem_iff.2 hpass)
    told := h.told
    apart := hheld.nodup_iff.1 h.apart
    leased := fun id hid => h.leased id (hheld.mem_iff.2 hid)
    leases := fun id hhas => (h.leases id hhas).imp_left hheld.mem_iff.1
    once := h.once
    tried := fun id hid => h.tried id (htried.mem_iff.2 hid)
    later := h.later
    got := fun id hid => (h.got id hid).imp_left htried.mem_iff.1
    sent := h.sent
    early := h.early }

/-- What neither stamps nor records anything brings no event to another place. -/
theorem Orderly.quiet (h : Orderly early b passes received left) (ha : a.Texts)
    (hstamp : a.stamp? = none) (hrecorded : b.recorded a = [])
    (hfits : (b.act a).store.counter.Fits) : Orderly early (b.act a) passes received left := by
  have hkept : ∀ id F, Has b.store id F → Has (b.act a).store id F :=
    fun _ _ => h.linked.quiet_kept ha hstamp hrecorded
  constructor
  case linked => exact h.linked.act ha hfits
  case successes => exact h.successes
  case notices => exact fun pass hpass e he => Books.exists_tells_act (h.notices pass hpass e he) a
  case told => exact fun e he => Books.exists_tells_act (h.told e he) a
  case apart => exact h.apart
  case leased => exact fun id hid => hkept id _ (h.leased id hid)
  case leases =>
    refine fun id hhas => h.leases id (h.linked.quiet_found ha hstamp hrecorded hfits ?_ hhas)
    intro e _ hnone hsome
    rw [hnone] at hsome
    cases hsome
  case once => exact h.once
  case tried => exact h.tried
  case later => exact h.later
  case got => exact fun id hid => (h.got id hid).imp_right (hkept id _)
  case sent =>
    refine fun id hhas => h.sent id (h.linked.quiet_found ha hstamp hrecorded hfits ?_ hhas)
    intro e hnone _ hsome
    rw [hnone] at hsome
    cases hsome
  case early => exact fun id hid => hkept id _ (h.early id hid)

/-- A stamp takes events that nobody holds, as long as no lease has run out that is held. -/
theorem Orderly.claimed (h : Orderly early b passes received left) (hlinked : b'.Linked)
    (hposted : ∀ p ∈ b.posted, p ∈ b'.posted) (hgives : Gives now leaseEnd b.store b'.store granted)
    (htells : ∀ e ∈ granted, ∃ p ∈ b'.posted, Tells e p)
    (hheld : ∀ id ∈ held passes, Has b.store id fun e => ¬ e.isClaimable now = true)
    (worker : Worker) (backoff : Backoff) :
    Orderly early b' (passes ++ [⟨worker, granted, .start backoff⟩]) received left := by
  have htried : Relay.tried (passes ++ [⟨worker, granted, .start backoff⟩]) =
      Relay.tried passes := by
    simp [Relay.tried, Pass.tried, Progress.start]
  have hmore : held (passes ++ [⟨worker, granted, .start backoff⟩]) =
      held passes ++ granted.map (·.id) := by
    simp [held, htried, waiting, Pass.waiting]
  have hleased : ∀ id ∈ granted.map (·.id), Has b'.store id (·.leaseEnd.isSome) := by
    intro id hid
    obtain ⟨e, hfind, hend⟩ := hgives.leased id hid
    exact ⟨e, hfind, Option.isSome_iff_exists.2 ⟨leaseEnd, hend⟩⟩
  have hunheld : ∀ id ∈ held passes, id ∉ granted.map (·.id) := by
    intro id hmem hid
    obtain ⟨e, -, hbusy, hfree⟩ := (hheld id hmem).and (hgives.free id hid)
    exact hbusy hfree
  have hsent : ∀ id, Has b.store id (·.sentAt.isSome) → Has b'.store id (·.sentAt.isSome) := by
    intro id hhas
    refine hhas.of_eq (hgives.others id fun hid => ?_)
    obtain ⟨e, -, hsent, hfree⟩ := hhas.and (hgives.free id hid)
    exact Event.not_claimable_of_sent hsent hfree
  have hsent' : ∀ id, Has b'.store id (·.sentAt.isSome) → Has b.store id (·.sentAt.isSome) := by
    intro id hhas
    refine hhas.of_eq (hgives.others id fun hid => ?_).symm
    exact hlinked.notices.sound.not_sent_of_leased (hleased id hid) hhas
  constructor
  case linked => exact hlinked
  case successes =>
    exact List.forall_mem_append.2 ⟨h.successes, List.forall_mem_singleton.2 nofun⟩
  case notices =>
    refine List.forall_mem_append.2 ⟨fun pass hpass e he => ?_, List.forall_mem_singleton.2 htells⟩
    exact (h.notices pass hpass e he).imp fun p hp => hp.imp_left (hposted p)
  case told => exact fun e he => (h.told e he).imp fun p hp => hp.imp_left (hposted p)
  case apart =>
    rw [hmore]
    exact List.nodup_append'.2 ⟨h.apart, hgives.distinct, hunheld⟩
  case leased =>
    rw [hmore]
    refine List.forall_mem_append.2 ⟨fun id hid => ?_, hleased⟩
    exact (h.leased id hid).of_eq (hgives.others id (hunheld id hid))
  case leases =>
    intro id hhas
    rw [hmore]
    by_cases hid : id ∈ granted.map (·.id)
    · exact .inl (List.mem_append_right _ hid)
    · exact (h.leases id (hhas.of_eq (hgives.others id hid).symm)).imp_left
        (List.mem_append_left _)
  case once => exact h.once
  case tried => exact htried ▸ h.tried
  case later => exact h.later
  case got => exact fun id hid => htried ▸ (h.got id hid).imp_right (hsent id)
  case sent => exact fun id hhas => h.sent id (hsent' id hhas)
  case early => exact fun id hid => hsent id (h.early id hid)

/-- An event that is tried was not received before, since it was neither tried nor sent. -/
theorem Orderly.published {e : Event} {rest : List Event} {progress : Progress}
    (h : Orderly early b (⟨worker, e :: rest, progress⟩ :: passes) received left) :
    Orderly early b (⟨worker, rest, progress.note e.id (.ok ())⟩ :: passes) (received ++ [e])
      left := by
  have htried : (Relay.tried (⟨worker, rest, progress.note e.id (.ok ())⟩ :: passes)).Perm
      (e.id :: Relay.tried (⟨worker, e :: rest, progress⟩ :: passes)) := by
    simp [Relay.tried, Pass.tried, Progress.note, List.perm_middle]
  have hheld : (held (⟨worker, rest, progress.note e.id (.ok ())⟩ :: passes)).Perm
      (held (⟨worker, e :: rest, progress⟩ :: passes)) :=
    (htried.append_right _).trans List.perm_middle.symm
  have hwaiting : e.id ∈ waiting (⟨worker, e :: rest, progress⟩ :: passes) :=
    List.mem_append_left _ List.mem_cons_self
  have hleased := h.leased e.id (List.mem_append_right _ hwaiting)
  have hunsent := h.linked.notices.sound.not_sent_of_leased hleased
  have hnew : e.id ∉ received.map (·.id) := by
    intro hmem
    rcases h.got e.id hmem with htried | hsent
    · exact (List.nodup_append'.1 h.apart).2.2 htried hwaiting
    · exact hunsent hsent
  have hids : (received ++ [e]).map (·.id) = received.map (·.id) ++ [e.id] := List.map_append
  constructor
  case linked => exact h.linked
  case successes =>
    obtain ⟨hfirst, hothers⟩ := List.forall_mem_cons.1 h.successes
    refine List.forall_mem_cons.2 ⟨fun o ho => ?_, hothers⟩
    rcases List.mem_append.1 ho with ho | ho
    · exact hfirst o ho
    · rw [List.mem_singleton.1 ho]
  case notices =>
    obtain ⟨hfirst, hothers⟩ := List.forall_mem_cons.1 h.notices
    exact List.forall_mem_cons.2 ⟨(List.forall_mem_cons.1 hfirst).2, hothers⟩
  case told =>
    refine List.forall_mem_append.2 ⟨h.told, List.forall_mem_singleton.2 ?_⟩
    exact h.notices _ List.mem_cons_self e List.mem_cons_self
  case apart => exact hheld.nodup_iff.2 h.apart
  case leased => exact fun id hid => h.leased id (hheld.mem_iff.1 hid)
  case leases => exact fun id hhas => (h.leases id hhas).imp_left hheld.mem_iff.2
  case once =>
    rw [hids]
    exact List.nodup_append'.2 ⟨h.once, List.nodup_singleton _, by simpa using hnew⟩
  case tried =>
    intro id hid
    rw [hids]
    rcases List.mem_cons.1 (htried.mem_iff.1 hid) with rfl | hid
    · exact List.mem_append_right _ (List.mem_singleton_self _)
    · exact List.mem_append_left _ (h.tried id hid)
  case later =>
    rw [hids]
    refine List.forall_mem_append.2 ⟨h.later, List.forall_mem_singleton.2 fun hearly => ?_⟩
    exact hunsent (h.early e.id hearly)
  case got =>
    rw [hids]
    refine List.forall_mem_append.2 ⟨fun id hid => ?_, List.forall_mem_singleton.2 ?_⟩
    · exact (h.got id hid).imp_left fun hid => htried.mem_iff.2 (List.mem_cons_of_mem _ hid)
    · exact .inl (htried.mem_iff.2 List.mem_cons_self)
  case sent =>
    intro id hhas
    rw [hids]
    exact (h.sent id hhas).imp_right (List.mem_append_left _)
  case early => exact h.early

/-- A record marks what was tried as sent, and gives up the rest of the batch. -/
theorem Orderly.recorded {pass : Pass} (h : Orderly early b (pass :: passes) received left)
    (hlinked : b'.Linked) (hposted : ∀ p ∈ b.posted, p ∈ b'.posted)
    (hcloses : Closes b.store b'.store pass.tried) :
    Orderly early b' passes received (left ++ pass.waiting) := by
  have htried : Relay.tried (pass :: passes) = pass.tried ++ Relay.tried passes :=
    List.flatMap_cons
  have hwaiting : waiting (pass :: passes) = pass.waiting ++ waiting passes := List.flatMap_cons
  have hrest : (held passes).Sublist (held (pass :: passes)) := by
    rw [held, held, htried, hwaiting]
    exact (List.sublist_append_right _ _).append (List.sublist_append_right _ _)
  have hapart : ∀ id ∈ held passes, id ∉ pass.tried := by
    have hall := h.apart
    rw [held, htried, hwaiting] at hall
    obtain ⟨hinner, -, hcross⟩ := List.nodup_append'.1 hall
    intro id hid hmem
    rcases List.mem_append.1 hid with hid | hid
    · exact (List.nodup_append'.1 hinner).2.2 hmem hid
    · exact hcross (List.mem_append_left _ hmem) (List.mem_append_right _ hid)
  have hdone : ∀ id ∈ pass.tried, Has b'.store id (·.sentAt.isSome) := by
    intro id hid
    have hmem : id ∈ held (pass :: passes) :=
      List.mem_append_left _ (htried ▸ List.mem_append_left _ hid)
    exact hcloses.sent id hid ((h.leased id hmem).imp fun e he => he.imp_right fun _ => trivial)
  have hsent : ∀ id, Has b.store id (·.sentAt.isSome) → Has b'.store id (·.sentAt.isSome) := by
    intro id hhas
    by_cases hid : id ∈ pass.tried
    · exact hdone id hid
    · exact hhas.of_eq (hcloses.others id hid)
  constructor
  case linked => exact hlinked
  case successes => exact (List.forall_mem_cons.1 h.successes).2
  case notices =>
    exact fun other hother e he => ((List.forall_mem_cons.1 h.notices).2 other hother e he).imp
      fun p hp => hp.imp_left (hposted p)
  case told => exact fun e he => (h.told e he).imp fun p hp => hp.imp_left (hposted p)
  case apart => exact h.apart.sublist hrest
  case leased =>
    exact fun id hid => (h.leased id (hrest.subset hid)).of_eq (hcloses.others id (hapart id hid))
  case leases =>
    intro id hhas
    have hnot : id ∉ pass.tried :=
      fun hid => hcloses.sound.not_sent_of_leased hhas (hdone id hid)
    rcases h.leases id (hhas.of_eq (hcloses.others id hnot).symm) with hid | hid
    · rw [held, htried, hwaiting] at hid
      rcases List.mem_append.1 hid with hid | hid
      · exact .inl (List.mem_append_left _ ((List.mem_append.1 hid).resolve_left hnot))
      · exact (List.mem_append.1 hid).symm.imp (List.mem_append_right _) (List.mem_append_right _)
    · exact .inr (List.mem_append_left _ hid)
  case once => exact h.once
  case tried => exact fun id hid => h.tried id (htried ▸ List.mem_append_right _ hid)
  case later => exact h.later
  case got =>
    intro id hid
    rcases h.got id hid with hid | hhas
    · rw [htried] at hid
      exact (List.mem_append.1 hid).symm.imp_right (hdone id)
    · exact .inr (hsent id hhas)
  case sent =>
    intro id hhas
    by_cases hid : id ∈ pass.tried
    · exact .inr (h.tried id (htried ▸ List.mem_append_left _ hid))
    · exact h.sent id (hhas.of_eq (hcloses.others id hid).symm)
  case early => exact fun id hid => hsent id (h.early id hid)

end

/-! ## Turns -/

namespace Office

/-- The event that a turn hands to the broker. -/
def handed (o : Office) : Turn → List Event
  | .publish place _ => (o.passes[place]?.bind (·.batch.head?)).toList
  | .consider _ _ _ | .commit _ _ | .reopen | .claim _ _ _ _ | .record _ _ | .stop _ => []

/-- The events that some turns hand to the broker, in order. -/
def handedIn (o : Office) : List Turn → List Event
  | [] => []
  | t :: turns => o.handed t ++ (o.turn t).handedIn turns

/-- The events that a turn gives up. A worker whose own clock says that the lease is over tries no
more of its batch and records what it has. -/
def givenUp (o : Office) : Turn → List UInt64
  | .record place _ => (o.passes[place]?.map Pass.waiting).getD []
  | .consider _ _ _ | .commit _ _ | .reopen | .claim _ _ _ _ | .publish _ _ | .stop _ => []

/-- The events that some turns give up. -/
def givenUpIn (o : Office) : List Turn → List UInt64
  | [] => []
  | t :: turns => o.givenUp t ++ (o.turn t).givenUpIn turns

/-- When the leases run out that workers hold. -/
def leaseEnds (o : Office) : List Instant :=
  (held o.passes).filterMap fun id => (event? id o.books.store).toOption.join.bind (·.leaseEnd)

/-- A turn of a smooth day: no lease has run out that is held when events are stamped, the broker
takes every message in time, the clock can be stored, and no worker stops for good. -/
def Smooth (o : Office) : Turn → Prop
  | .claim worker _ now _ =>
    now < now.after worker.settings.lease ∧ ∀ leaseEnd ∈ o.leaseEnds, (now : Instant) < leaseEnd
  | .publish place reply =>
    ∀ pass ∈ o.passes[place]?, reply.heard pass.worker.settings.publishTimeout = .ok ()
  | .record _ now => now.Storable
  | .stop _ => False
  | .consider _ _ _ | .commit _ _ | .reopen => True

/-- Turns of a smooth day, one after the other. -/
def SmoothIn (o : Office) : List Turn → Prop
  | [] => True
  | t :: turns => o.Smooth t ∧ (o.turn t).SmoothIn turns

instance (o : Office) (t : Turn) : Decidable (o.Smooth t) :=
  match t with
  | .claim _ _ _ _ => inferInstanceAs (Decidable (_ ∧ _))
  | .publish place reply =>
    inferInstanceAs (Decidable (∀ pass ∈ o.passes[place]?, reply.heard _ = .ok ()))
  | .record _ now => inferInstanceAs (Decidable now.Storable)
  | .stop _ => inferInstanceAs (Decidable False)
  | .consider _ _ _ | .commit _ _ | .reopen => inferInstanceAs (Decidable True)

instance decidableSmoothIn (o : Office) : (turns : List Turn) → Decidable (o.SmoothIn turns)
  | [] => inferInstanceAs (Decidable True)
  | t :: turns =>
    have := decidableSmoothIn (o.turn t) turns
    inferInstanceAs (Decidable (_ ∧ _))

/-- What the broker receives are the messages of the events that are handed to it. -/
theorem trials_turn (o : Office) (t : Turn) :
    (o.turn t).trials.map (·.message) =
      o.trials.map (·.message) ++ (o.handed t).map messageOf := by
  cases t with
  | publish place reply =>
    rw [turn, handed]
    rcases hplace : o.passes[place]? with _ | ⟨worker, _ | ⟨e, rest⟩, progress⟩
    · exact (List.append_nil _).symm
    · exact (List.append_nil _).symm
    · exact List.map_append
  | record place now =>
    rw [turn]
    split
    · exact (List.append_nil _).symm
    · exact (List.append_nil _).symm
  | consider | commit | reopen | claim | stop => exact (List.append_nil _).symm

theorem trials_run (o : Office) (turns : List Turn) :
    (o.run turns).trials.map (·.message) =
      o.trials.map (·.message) ++ (o.handedIn turns).map messageOf := by
  induction turns generalizing o with
  | nil => exact (List.append_nil _).symm
  | cons t turns ih =>
    rw [handedIn, List.map_append, ← List.append_assoc, ← trials_turn]
    exact ih (o.turn t)

end Office

theorem perm_cons_eraseIdx {α : Type} {xs : List α} {i : Nat} {a : α} (h : xs[i]? = some a) :
    xs.Perm (a :: xs.eraseIdx i) := by
  obtain ⟨hlt, rfl⟩ := List.getElem?_eq_some_iff.1 h
  exact (List.getElem_cons_eraseIdx_perm hlt).symm

section

variable {early : UInt64 → Prop} {o : Office} {received : List Event} {left : List UInt64}

/-- While no lease has run out that is held, nothing that is held is free. -/
theorem Orderly.busy (h : Orderly early o.books o.passes received left) {now : Date}
    (hlive : ∀ leaseEnd ∈ o.leaseEnds, (now : Instant) < leaseEnd) :
    ∀ id ∈ held o.passes, Has o.books.store id fun e => ¬ e.isClaimable now = true := by
  intro id hid
  obtain ⟨e, hfind, hsome⟩ := h.leased id hid
  obtain ⟨leaseEnd, hend⟩ := Option.isSome_iff_exists.1 hsome
  refine ⟨e, hfind, Event.not_claimable_of_leased hend (hlive leaseEnd ?_)⟩
  exact List.mem_filterMap.2 ⟨id, hid, by rw [hfind]; exact hend⟩

/-- Every turn of a smooth day keeps every event in one place. -/
theorem Orderly.turn (h : Orderly early o.books o.passes received left) {t : Turn} (ht : t.Texts)
    (hsmooth : o.Smooth t) (hfits : (o.turn t).books.store.counter.Fits) :
    Orderly early (o.turn t).books (o.turn t).passes (received ++ o.handed t)
      (left ++ o.givenUp t) := by
  cases t with
  | consider c id now =>
    rw [Office.handed, Office.givenUp, List.append_nil, List.append_nil]
    show Orderly early (o.books.act (.consider c id now)) o.passes received left
    exact h.quiet (a := .consider c id now) trivial rfl rfl hfits
  | commit place now =>
    rw [Office.handed, Office.givenUp, List.append_nil, List.append_nil]
    exact h.quiet (a := .commit place now) trivial rfl rfl hfits
  | reopen =>
    rw [Office.handed, Office.givenUp, List.append_nil, List.append_nil]
    exact h.quiet (a := .reopen) trivial rfl rfl hfits
  | claim worker backoff now ids =>
    rw [Office.handed, Office.givenUp, List.append_nil, List.append_nil]
    have ha : Action.Texts (.stamp now worker.id worker.settings.lease ids) := ht
    refine h.claimed (h.linked.act ha hfits) (fun p hp => Books.mem_posted_act hp _)
      (Outbox.stamp_gives h.linked.notices.sound ht hsmooth.1 ids) (fun e he => ?_)
      (h.busy hsmooth.2) worker backoff
    exact Books.exists_tells_act (h.linked.granted_tells ha he) _
  | publish place reply =>
    rw [Office.turn, Office.handed, Office.givenUp, List.append_nil]
    rcases hplace : o.passes[place]? with _ | ⟨worker, _ | ⟨e, rest⟩, progress⟩
    · exact (List.append_nil received).symm ▸ h
    · exact (List.append_nil received).symm ▸ h
    · have hheard : reply.heard worker.settings.publishTimeout = .ok () := hsmooth _ hplace
      have hlt := (List.getElem?_eq_some_iff.1 hplace).1
      have hnext := (h.of_perm (perm_cons_eraseIdx hplace)).published.of_perm
        (List.set_perm_cons_eraseIdx hlt _).symm
      dsimp only
      rw [hheard]
      exact hnext
  | record place now =>
    rw [Office.handed, Office.givenUp, List.append_nil]
    rw [Office.turn] at hfits ⊢
    cases hplace : o.passes[place]? with
    | none => exact (List.append_nil left).symm ▸ h
    | some pass =>
      rw [hplace] at hfits
      have hsent := h.successes pass (List.mem_of_getElem? hplace)
      have ha : Action.Texts (.complete now pass.worker.id pass.progress.outcomes) := by
        intro outcome houtcome reason hreason
        rw [hsent outcome houtcome] at hreason
        cases hreason
      exact (h.of_perm (perm_cons_eraseIdx hplace)).recorded (h.linked.act ha hfits)
        (fun p hp => Books.mem_posted_act hp _)
        (Outbox.complete_sent h.linked.notices.sound hsmooth pass.worker.id hsent)
  | stop place => exact hsmooth.elim

theorem Orderly.run (h : Orderly early o.books o.passes received left) {turns : List Turn}
    (htexts : ∀ t ∈ turns, t.Texts) (hsmooth : o.SmoothIn turns)
    (hfits : (o.run turns).books.store.counter.Fits) :
    Orderly early (o.run turns).books (o.run turns).passes (received ++ o.handedIn turns)
      (left ++ o.givenUpIn turns) := by
  induction turns generalizing o received left with
  | nil =>
    rw [Office.handedIn, Office.givenUpIn, List.append_nil, List.append_nil]
    exact h
  | cons t turns ih =>
    obtain ⟨ht, htexts⟩ := List.forall_mem_cons.1 htexts
    rw [Office.handedIn, Office.givenUpIn, ← List.append_assoc, ← List.append_assoc]
    exact ih (h.turn ht hsmooth.1 (Office.fits_of_run h.linked.ordered hfits)) htexts hsmooth.2
      hfits

end

/-! ## The guarantee -/

/-- A day begins with some books, and with no pass under way. -/
def Office.onto (b : Books) : Office := ⟨b, [], []⟩

/-- What is promised of workers side by side. Of a day that began with some books we know what has
become of the office, which events were handed to the broker, and which were given up. -/
structure SideBySide (b : Books) (o : Office) (handed : List Event) (givenUp : List UInt64) :
    Prop where
  /-- What the broker has received are the messages of notices of committed moves. -/
  received : o.trials.map (·.message) = handed.map messageOf
  notices : ∀ e ∈ handed, ∃ p ∈ o.books.posted, Tells e p
  /-- It has received none of them twice, and none that was sent before. -/
  once : (handed.map (·.id)).Nodup
  later : ∀ id ∈ handed.map (·.id), ¬ Has b.store id (·.sentAt.isSome)
  /-- A notice is marked as sent only if it was received exactly once, or was sent before. -/
  sent : ∀ id e, event? id o.books.store = .ok (some e) → e.sentAt.isSome →
    Has b.store id (·.sentAt.isSome) ∨ (handed.map (·.id)).count id = 1
  /-- Nothing is under a lease but what a pass holds, or what a worker gave up since its lease was
  over by its own clock. -/
  leased : ∀ id e, event? id o.books.store = .ok (some e) → e.leaseEnd.isSome →
    id ∈ held o.passes ∨ id ∈ givenUp
  /-- So when no pass holds anything and nothing was given up, every committed move has its notice,
  which is pending, without a lease and not received, or marked as sent and received exactly once,
  or sent before. -/
  settled : held o.passes = [] → givenUp = [] → ∀ p ∈ o.books.posted, ∃ e : Event,
    event? p.draft.event o.books.store = .ok (some e) ∧ Tells e p ∧
    (e.sentAt = none ∧ e.claimedBy = none ∧ e.leaseEnd = none ∧
      (o.books.store.pending.get? (Event.key e.id)).isSome ∧ e.id ∉ handed.map (·.id) ∨
    e.sentAt.isSome ∧
      (Has b.store e.id (·.sentAt.isSome) ∨ (handed.map (·.id)).count e.id = 1))

theorem orderly_onto {b : Books} (h : b.Linked)
    (hfree : ∀ id e, event? id b.store = .ok (some e) → e.leaseEnd = none) :
    Orderly (Has b.store · (·.sentAt.isSome)) b [] [] [] := by
  constructor
  case linked => exact h
  case leases =>
    rintro id ⟨e, hfind, hsome⟩
    rw [hfree id e hfind] at hsome
    cases hsome
  case sent => exact fun _ => .inl
  case early => exact fun _ hhas => hhas
  case apart | once => exact .nil
  case successes | notices | told | leased | tried | later | got => exact nofun

theorem Orderly.sideBySide {b : Books} {handed : List Event} {givenUp : List UInt64}
    (h : Orderly (Has b.store · (·.sentAt.isSome)) o.books o.passes handed givenUp)
    (htrials : o.trials.map (·.message) = handed.map messageOf) :
    SideBySide b o handed givenUp := by
  have hsent : ∀ id, Has o.books.store id (·.sentAt.isSome) →
      Has b.store id (·.sentAt.isSome) ∨ (handed.map (·.id)).count id = 1 :=
    fun id hhas => (h.sent id hhas).imp_right (List.count_eq_one_of_mem h.once)
  constructor
  case received => exact htrials
  case notices => exact h.told
  case once => exact h.once
  case later => exact h.later
  case sent => exact fun id e hfind hsome => hsent id ⟨e, hfind, hsome⟩
  case leased => exact fun id e hfind hsome => h.leases id ⟨e, hfind, hsome⟩
  case settled =>
    intro hidle hleft p hp
    obtain ⟨e, hfind, htells⟩ := h.linked.notices.kept p hp
    obtain ⟨hkey, -, hcoherent⟩ := h.linked.notices.sound.found hfind
    rw [← htells.id] at hfind
    refine ⟨e, htells.id ▸ hfind, htells, ?_⟩
    by_cases hsome : e.sentAt.isSome
    · exact .inr ⟨hsome, hsent e.id ⟨e, hfind, hsome⟩⟩
    have hnone := Option.not_isSome_iff_eq_none.1 hsome
    have hunleased : ¬ e.leaseEnd.isSome := by
      intro hleased
      rcases h.leases e.id ⟨e, hfind, hleased⟩ with hid | hid
      · rw [hidle] at hid
        cases hid
      · rw [hleft] at hid
        cases hid
    refine .inl ⟨hnone, ?_, Option.not_isSome_iff_eq_none.1 hunleased, ?_, fun hid => ?_⟩
    · exact Option.not_isSome_iff_eq_none.1 (mt hcoherent.lease.1 hunleased)
    · exact (h.linked.notices.sound.index _).2 ⟨e, hfind, Option.isNone_iff_eq_none.2 hnone⟩
    · rcases h.got e.id hid with hid | hhas
      · rw [(List.append_eq_nil_iff.1 hidle).1] at hid
        cases hid
      · exact hsome (hhas.found hfind)

/-- A smooth day that begins without leases keeps every event in one place. -/
theorem orderly_day {before : List Action} {turns : List Turn} (hbefore : ∀ a ∈ before, a.Texts)
    (hfree : ∀ id e, event? id (Books.opened.run before).store = .ok (some e) → e.leaseEnd = none)
    (htexts : ∀ t ∈ turns, t.Texts)
    (hsmooth : (Office.onto (Books.opened.run before)).SmoothIn turns)
    (hfits : ((Office.onto (Books.opened.run before)).run turns).books.store.counter.Fits) :
    Orderly (Has (Books.opened.run before).store · (·.sentAt.isSome))
      ((Office.onto (Books.opened.run before)).run turns).books
      ((Office.onto (Books.opened.run before)).run turns).passes
      ((Office.onto (Books.opened.run before)).handedIn turns)
      ((Office.onto (Books.opened.run before)).givenUpIn turns) := by
  obtain ⟨actions, hactions⟩ := Office.run_books (Office.onto (Books.opened.run before)) turns
  have hfirst : (Books.opened.run before).store.counter.Fits := by
    rw [hactions] at hfits
    exact Books.fits_of_run (Books.ordered_run before) hfits
  exact (orderly_onto (Books.linked_run hbefore hfirst) hfree).run
    (o := Office.onto (Books.opened.run before)) htexts hsmooth hfits

/-- However the steps of workers, of calls and of the host are interleaved, on a smooth day that
begins without leases no event is received twice and none is lost. -/
theorem side_by_side {before : List Action} {turns : List Turn}
    (hbefore : ∀ a ∈ before, a.Texts)
    (hfree : ∀ id e, event? id (Books.opened.run before).store = .ok (some e) → e.leaseEnd = none)
    (htexts : ∀ t ∈ turns, t.Texts)
    (hsmooth : (Office.onto (Books.opened.run before)).SmoothIn turns)
    (hfits : ((Office.onto (Books.opened.run before)).run turns).books.store.counter.Fits) :
    SideBySide (Books.opened.run before) ((Office.onto (Books.opened.run before)).run turns)
      ((Office.onto (Books.opened.run before)).handedIn turns)
      ((Office.onto (Books.opened.run before)).givenUpIn turns) :=
  (orderly_day hbefore hfree htexts hsmooth hfits).sideBySide (Office.trials_run _ turns)

/-! ### Two workers and two moves -/

theorem unleased_of_rows {s : Store} (h : ∀ row ∈ s.events.rows,
    ∀ e ∈ (Stored.decode row.2 : Option Event), e.leaseEnd = none) (id : UInt64) (e : Event)
    (hfind : event? id s = .ok (some e)) : e.leaseEnd = none := by
  obtain ⟨row, hget, hdecode⟩ := Store.find?_eq_ok_some.1 hfind
  exact h _ (Table.get?_eq_some_iff.1 hget) e hdecode

/-- A move is committed. -/
def firstMove : List Action :=
  [.consider (.plain "a" "5" 2 3) (.fresh 0 5) ⟨0⟩, .commit 0 ⟨1⟩]

theorem texts_firstMove : ∀ a ∈ firstMove, a.Texts := by
  simp only [firstMove, List.forall_mem_cons]
  exact ⟨trivial, trivial, List.forall_mem_nil _⟩

/-- A worker claims its event, and another move is committed. A second worker that saw both events
comes too late for the first one and is given the other. -/
def overlapping : List Turn :=
  [.claim ⟨"one", .standard⟩ (.start .zero .zero) ⟨2⟩ [0],
    .consider (.plain "b" "6" 2 3) (.fresh 0 6) ⟨3⟩, .commit 0 ⟨4⟩,
    .claim ⟨"two", .standard⟩ (.start .zero .zero) ⟨5⟩ [0, 2], .publish 1 (.atOnce (.ok ())),
    .publish 0 (.atOnce (.ok ())), .record 1 ⟨6⟩, .record 0 ⟨7⟩]

theorem side_by_side_overlapping :
    SideBySide (Books.opened.run firstMove)
      ((Office.onto (Books.opened.run firstMove)).run overlapping)
      ((Office.onto (Books.opened.run firstMove)).handedIn overlapping)
      ((Office.onto (Books.opened.run firstMove)).givenUpIn overlapping) ∧
    ((Office.onto (Books.opened.run firstMove)).handedIn overlapping).map (·.id) = [2, 0] := by
  have hsized : Sized "one" ∧ Sized "two" := by
    simp only [Sized]
    decide
  have htexts : ∀ t ∈ overlapping, t.Texts := by
    simp only [overlapping, List.forall_mem_cons]
    exact ⟨hsized.1, trivial, trivial, hsized.2, Reply.words_of_ok rfl, Reply.words_of_ok rfl,
      trivial, trivial, List.forall_mem_nil _⟩
  have hseen : (∀ row ∈ (Books.opened.run firstMove).store.events.rows,
        ∀ e ∈ (Stored.decode row.2 : Option Event), e.leaseEnd = none) ∧
      (Office.onto (Books.opened.run firstMove)).SmoothIn overlapping ∧
      ((Office.onto (Books.opened.run firstMove)).run overlapping).books.store.counter.last? =
        some 3 ∧
      ((Office.onto (Books.opened.run firstMove)).handedIn overlapping).map (·.id) = [2, 0] := by
    decide +kernel
  obtain ⟨hrows, hsmooth, hlast, hhanded⟩ := hseen
  exact ⟨side_by_side texts_firstMove (unleased_of_rows hrows) htexts hsmooth
    (.of_last hlast (by decide)), hhanded⟩

end Relay

end Stockroom
