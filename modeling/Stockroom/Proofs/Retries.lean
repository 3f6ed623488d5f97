import Stockroom.Proofs.Distinctions
import Stockroom.Proofs.IdentifierForms
import Stockroom.Proofs.Replays

/-!
# Retries that are recognised

A call that comes again is known by the digest of its request. Quantities enter the digest by their
value, but identifiers enter it as they are written, and each can be written in four forms. So two
requests for one move have one digest exactly when they write the three identifiers in the same
forms. A retry in the same forms is answered with the move. A retry in other forms asks for the
same move and is told of a conflict; that requests for one move have one digest is refuted here.

Results:
1. `MoveRequest.plainBytes_of_sameMove`: when requests for one move are one to the digest.
2. `not_all_recognised`: a retry for the same move that is told of a conflict.
3. `retries_recognised`: which retries are answered with the move.
-/
namespace Stockroom

/-! ## Identifiers in submitted texts -/

/-- Two texts write an identifier in one form, up to blanks and letter case. -/
def Identifier.SameForm (id : Identifier) (s s' : String) : Prop :=
  ∃ form : Form, (Text.lowerAscii (Text.trim s)).toList = form.chars id ∧
    (Text.lowerAscii (Text.trim s')).toList = form.chars id

/-- Texts that are read as one identifier are the same up to blanks and letter case if they write
it in one form. -/
theorem Identifier.sameForm_iff {field s s' : String} {id : Identifier}
    (h : scanIdentifier field s = .ok id) :
    id.SameForm s s' ↔ Text.lowerAscii (Text.trim s) = Text.lowerAscii (Text.trim s') := by
  constructor
  · rintro ⟨form, hs, hs'⟩
    rw [← String.toList_inj, hs, hs']
  · intro heq
    obtain ⟨form, hs⟩ :=
      exists_form (scanIdentifier_ok.1 h) fun c hc => toLower_of_mem_lowerAscii hc
    exact ⟨form, hs, heq ▸ hs⟩

/-! ## Requests for one move -/

namespace MoveRequest

/-- Two requests write the identifiers of a move in the same forms. -/
structure SameForms (valid : ValidMove) (r r' : MoveRequest) : Prop where
  item : valid.item.SameForm r.item r'.item
  origin : valid.origin.SameForm r.origin r'.origin
  destination : valid.destination.SameForm r.destination r'.destination

variable {r r' : MoveRequest} {valid valid' : ValidMove}

theorem sameToDigest_of_sameMove (h : r.validate = .ok valid) (h' : r'.validate = .ok valid')
    (hsame : valid.SameMove valid') : r.SameToDigest r' ↔ SameForms valid r r' := by
  obtain ⟨hitem, hquantity, horigin, hdestination, hreason⟩ := Ledger.validate_ok h
  obtain ⟨-, hquantity', -, -, hreason'⟩ := Ledger.validate_ok h'
  have hread := (scanQuantity_ok.1 hquantity).1
  have hread' := (scanQuantity_ok.1 hquantity').1
  constructor
  · intro heq
    exact ⟨(Identifier.sameForm_iff hitem).2 heq.item, (Identifier.sameForm_iff horigin).2 heq.origin,
      (Identifier.sameForm_iff hdestination).2 heq.destination⟩
  · intro hforms
    refine ⟨(Identifier.sameForm_iff hitem).1 hforms.item,
      (Identifier.sameForm_iff horigin).1 hforms.origin,
      (Identifier.sameForm_iff hdestination).1 hforms.destination, ?_,
      .value hread hread' hsame.quantity.symm⟩
    rw [← hreason, ← hreason', hsame.reason]

/-- Requests for one move are one to the digest if they write its identifiers in the same forms. -/
theorem plainBytes_of_sameMove (htexts : r.Texts) (htexts' : r'.Texts)
    (h : r.validate = .ok valid) (h' : r'.validate = .ok valid') (hsame : valid.SameMove valid') :
    r.plainBytes = r'.plainBytes ↔ SameForms valid r r' := by
  rw [← sameToDigest_of_sameMove h h' hsame]
  exact ⟨fun heq => plainTexts_eq_iff.1 (plainTexts_eq htexts htexts' heq), plainBytes_eq⟩

end MoveRequest

/-! ## Retries -/

namespace Ledger

/-- A call under the key and endpoint of a draft that asks for the same move. -/
structure Call.Retries (c : Call) (d : Draft) : Prop where
  pair : d.call.SamePair c
  same : ∃ valid, c.request.validate = .ok valid ∧ d.move.terms.SameMove valid

namespace Books

/-- Whatever step a call takes next, it is told this, and nothing else changes. -/
structure Answers (b : Books) (c : Call) (answer : Except Fault MoveAnswer) : Prop where
  admitted : ∀ id now, b.act (.consider c id now) = b.tell c answer
  committed : ∀ place now d, b.drafts[place]? = some d → d.call = c →
    b.act (.commit place now) = { b with drafts := b.drafts.eraseIdx place }.tell c answer

/-- A call under the key and endpoint of a committed move is answered from its receipt. -/
theorem Receipted.answers {b : Books} (h : b.Receipted) {p : Posting} (hp : p ∈ b.posted)
    (hgenuine : p.draft.Genuine) (htexts : p.draft.call.Texts) {c : Call}
    (hpair : p.draft.call.SamePair c) :
    b.Answers c (p.draft.receipt.answer c.request.digest) := by
  have hfind := h.finds hp hgenuine htexts
  rw [hpair.receiptKey] at hfind
  constructor
  case admitted =>
    intro id now
    refine consider_found id now ?_ hfind
    rw [← hpair.1]
    exact hgenuine.keyed
  case committed =>
    rintro place now d hplace rfl
    exact commit_found now hplace hfind

/-- What becomes of calls that ask again for a committed move. -/
structure Recognised (Q : Call → Prop) (b : Books) : Prop where
  /-- In the same forms, they are answered with the move. -/
  replayed : ∀ p ∈ b.posted, ∀ c, Q c → c.Retries p.draft →
    MoveRequest.SameForms p.draft.move.terms p.draft.call.request c.request →
    b.Answers c (.ok (.ok p.draft.move.id))
  /-- In other forms, they are told of a conflict, unless two requests share a digest. -/
  conflict : ∀ p ∈ b.posted, ∀ c, Q c → c.Retries p.draft →
    ¬ MoveRequest.SameForms p.draft.move.terms p.draft.call.request c.request →
    (p.draft.call.request.digest = c.request.digest →
      p.draft.call.request.plainBytes = c.request.plainBytes) →
    b.Answers c (.error (.conflict c.idempotencyKey c.endpoint))

end Books

/-- Requests for one move are one to the digest if they write its identifiers in the same forms.
Whatever the order of the steps, calls that ask again for a committed move in the same forms are
answered with it, and in other forms they are not. -/
theorem retries_recognised {Q : Call → Prop} (hQ : ∀ c, Q c → c.Texts ∧ c.request.Texts)
    {actions : List Action} (hcalls : ∀ a ∈ actions, ∀ c ∈ a.call?, Q c) :
    (∀ r r' : MoveRequest, ∀ valid valid', r.Texts → r'.Texts → r.validate = .ok valid →
      r'.validate = .ok valid' → valid.SameMove valid' →
      (r.plainBytes = r'.plainBytes ↔ MoveRequest.SameForms valid r r')) ∧
    (Books.opened.run actions).Recognised Q := by
  have hof := Books.ofCalls_run hcalls
  have hreceipted := Books.receipted_run actions
  generalize Books.opened.run actions = b at hof hreceipted ⊢
  -- the two requests are one to the digest exactly in the same forms
  have hforms : ∀ p ∈ b.posted, ∀ c, Q c → c.Retries p.draft →
      (p.draft.call.request.plainBytes = c.request.plainBytes ↔
        MoveRequest.SameForms p.draft.move.terms p.draft.call.request c.request) := by
    rintro p hp c hc ⟨-, valid', hvalid', hsame⟩
    obtain ⟨hgenuine, hp'⟩ := hof.posted p hp
    obtain ⟨valid, hvalid, hmove⟩ := hgenuine.read
    have hterms : p.draft.move.terms = valid := by rw [hmove]; rfl
    rw [hterms] at hsame ⊢
    exact MoveRequest.plainBytes_of_sameMove (hQ _ hp').2 (hQ c hc).2 hvalid hvalid' hsame
  have hanswers : ∀ p ∈ b.posted, ∀ c, c.Retries p.draft →
      b.Answers c (p.draft.receipt.answer c.request.digest) := by
    intro p hp c hretries
    obtain ⟨hgenuine, hp'⟩ := hof.posted p hp
    exact hreceipted.answers hp hgenuine (hQ _ hp').1 hretries.pair
  refine ⟨fun r r' valid valid' htexts htexts' h h' hsame =>
    MoveRequest.plainBytes_of_sameMove htexts htexts' h h' hsame, ?_⟩
  constructor
  case replayed =>
    intro p hp c hc hretries hsame
    have hbytes := (hforms p hp c hc hretries).2 hsame
    have hdigest : p.draft.call.request.digest = c.request.digest := by
      rw [MoveRequest.digest, hbytes, ← MoveRequest.digest]
    have hanswer := hanswers p hp c hretries
    rw [Draft.answer_receipt, if_pos hdigest] at hanswer
    exact hanswer
  case conflict =>
    intro p hp c hc hretries hother hdiscerned
    have hdigest : p.draft.call.request.digest ≠ c.request.digest := fun heq =>
      hother ((hforms p hp c hc hretries).1 (hdiscerned heq))
    have hanswer := hanswers p hp c hretries
    rw [Draft.answer_receipt, if_neg hdigest, hretries.pair.1, hretries.pair.2] at hanswer
    exact hanswer

/-! ### The same move in another form -/

/-- A request, the same move with its origin in capitals, and with its origin in digits alone. -/
def forms : List Call :=
  [.plain "a" "5.0" 10 3,
    { Call.plain "a" "5" 10 3 with
      request := ⟨(Identifier.fresh 0 1).text, "5", " 00000000-0000-7000-8000-00000000000A",
        (Identifier.fresh 0 3).text, ""⟩ },
    { Call.plain "a" "5" 10 3 with
      request := ⟨(Identifier.fresh 0 1).text, "5", "0000000000007000800000000000000a",
        (Identifier.fresh 0 3).text, ""⟩ }]

/-- The move is made. -/
def asked : List Action := [.consider forms[0] (.fresh 0 5) ⟨0⟩, .commit 0 ⟨1⟩]

/-- The move is made, and then it is asked for again in both other spellings. -/
def askedAgain : List Action :=
  asked ++ [.consider forms[1] (.fresh 0 6) ⟨2⟩, .consider forms[2] (.fresh 0 7) ⟨3⟩]

/-- The move of so much that all three ask for. -/
def terms (q : Quantity) : ValidMove := ⟨.fresh 0 1, q, .fresh 0 10, .fresh 0 3, ""⟩

theorem validate_forms : ∃ q q' : Quantity, forms[0].request.validate = .ok (terms q) ∧
    forms[1].request.validate = .ok (terms q') ∧ forms[2].request.validate = .ok (terms q') ∧
    (terms q).SameMove (terms q') := by
  refine ⟨⟨false, 50, 1, by decide, by decide⟩, ⟨false, 5, 0, by decide, by decide⟩,
    by decide +kernel, by decide +kernel, by decide +kernel, ?_⟩
  exact ⟨rfl, rfl, rfl, rfl, Quantity.canonical_eq_iff.1 (by decide)⟩

/-- Requests for one move may have two digests, and then the later one is told of a conflict. -/
theorem not_all_recognised :
    (¬ ∀ (r r' : MoveRequest) (valid valid' : ValidMove), r.validate = .ok valid →
      r'.validate = .ok valid' → valid.SameMove valid' → r.digest = r'.digest) ∧
    (Books.opened.run askedAgain).told.map (·.answer) =
      [.ok (.ok (.fresh 0 5)), .ok (.ok (.fresh 0 5)), .error (.conflict "a" "/moves")] := by
  constructor
  · intro h
    obtain ⟨q, q', hfirst, -, hlast, hsame⟩ := validate_forms
    have hdigest := h _ _ _ _ hfirst hlast hsame
    revert hdigest
    decide +kernel
  · decide +kernel

theorem texts_forms : ∀ c ∈ forms, c.Texts ∧ c.request.Texts := by
  have hsized : ∀ c ∈ forms, Sized c.idempotencyKey ∧ Sized c.endpoint ∧
      Sized c.request.item ∧ Sized c.request.quantity ∧ Sized c.request.origin ∧
      Sized c.request.destination ∧ Sized c.request.reason ∧ c.requestId = none := by
    simp only [Sized]
    decide +kernel
  intro c hc
  obtain ⟨hkey, hendpoint, hitem, hquantity, horigin, hdestination, hreason, hnone⟩ := hsized c hc
  refine ⟨⟨hkey, hendpoint, hreason, fun r hr => ?_⟩,
    ⟨hitem, hquantity, horigin, hdestination, hreason⟩⟩
  rw [hnone] at hr
  cases hr

theorem retries_recognised_asked :
    forms[0].request.plainBytes = forms[1].request.plainBytes ∧
    (Books.opened.run asked).Recognised (· ∈ forms) ∧
    (Books.opened.run asked).posted.map (·.draft.move.id) = [.fresh 0 5] := by
  have hcalls : ∀ a ∈ asked, ∀ c ∈ a.call?, c ∈ forms := by
    simp only [asked, List.forall_mem_cons]
    refine ⟨?_, nofun, List.forall_mem_nil _⟩
    rintro c ⟨⟩
    exact List.getElem_mem _
  obtain ⟨q, q', hfirst, hsecond, -, hsame⟩ := validate_forms
  have hwritten :
      (Identifier.fresh 0 1).SameForm forms[0].request.item forms[1].request.item ∧
      (Identifier.fresh 0 10).SameForm forms[0].request.origin forms[1].request.origin ∧
      (Identifier.fresh 0 3).SameForm forms[0].request.destination
        forms[1].request.destination := by
    refine ⟨⟨.hyphenated, ?_⟩, ⟨.hyphenated, ?_⟩, ⟨.hyphenated, ?_⟩⟩
    all_goals
      decide +kernel
  have hforms : MoveRequest.SameForms (terms q) forms[0].request forms[1].request :=
    ⟨hwritten.1, hwritten.2.1, hwritten.2.2⟩
  obtain ⟨hbytes, hrecognised⟩ := retries_recognised texts_forms hcalls
  refine ⟨(hbytes _ _ _ _ ?_ ?_ hfirst hsecond hsame).2 hforms, hrecognised, ?_⟩
  · exact (texts_forms _ (List.getElem_mem _)).2
  · exact (texts_forms _ (List.getElem_mem _)).2
  · decide +kernel

end Ledger

end Stockroom
