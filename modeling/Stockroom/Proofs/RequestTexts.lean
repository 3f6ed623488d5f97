import Stockroom.Ledger.Answer
import Stockroom.Ledger.Request
import Stockroom.Proofs.JsonObjects

/-!
# Requests in any spelling

A client may write a request as it likes: the fields in any order, with blanks and escapes, with a
second name for the quantity, without a reason, and with members nobody asked for. However it is
written, it is the same request, with the same digest.

Results:
1. `MoveRequest.Spelled.ofJson`: a request is read from each of its spellings.
2. `MoveRequest.spelled_toJson`: the text that is written is one of them.
3. `wire_texts_read_back`: the guarantee, for requests, answers and notices.
-/
namespace Stockroom

open Json (Entry SpellsObject SpellsEntry Phrase Number Digits SpellsUnit spellsText_plain)

namespace MoveRequest

/-! ## Requests -/

/-- The names that a field of a request may have. -/
def fieldNames : List String :=
  ["item_id", "quantity", "qty", "from_location_id", "to_location_id", "reason_code"]

/-- The members that make a request. -/
inductive Fields (r : MoveRequest) : List Entry → Prop
  | all {name : String} : name ∈ ["quantity", "qty"] →
      Fields r [⟨"item_id", r.item⟩, ⟨name, r.quantity⟩, ⟨"from_location_id", r.origin⟩,
        ⟨"to_location_id", r.destination⟩, ⟨"reason_code", r.reason⟩]
  | withoutReason {name : String} : r.reason = "" → name ∈ ["quantity", "qty"] →
      Fields r [⟨"item_id", r.item⟩, ⟨name, r.quantity⟩, ⟨"from_location_id", r.origin⟩,
        ⟨"to_location_id", r.destination⟩]

/-- The texts that hold an object with the fields of a request, each once and in any order, and
besides whatever members have other names. -/
inductive Spelled (r : MoveRequest) : String → Prop
  | object {fields others es : List Entry} {text : String} : r.Fields fields →
      (∀ e ∈ others, e.key ∉ fieldNames) → es.Perm (fields ++ others) → SpellsObject es text →
      Spelled r text

theorem find?_eq_none {key : String} (h : key ∉ fieldNames) : layout.find? key = none := by
  simp only [fieldNames, List.mem_cons, List.not_mem_nil, or_false, not_or] at h
  obtain ⟨h1, h2, h3, h4, h5, h6⟩ := h
  refine List.findIdx?_eq_none_iff.2 fun f hf => ?_
  simp only [layout, Json.Field.plain, List.mem_cons, List.not_mem_nil, or_false] at hf
  rcases hf with rfl | rfl | rfl | rfl | rfl <;> simp [*, Ne.symm]

theorem Fields.apart {r : MoveRequest} {fields : List Entry} (h : r.Fields fields) :
    fields.Pairwise fun e e' => layout.Apart e.key e'.key := by
  rw [← List.pairwise_map (f := Entry.key) (R := layout.Apart)]
  cases h with
  | all hname | withoutReason _ hname =>
    simp only [List.mem_cons, List.not_mem_nil, or_false] at hname
    rcases hname with rfl | rfl <;> simp only [List.map_cons, List.map_nil] <;> decide

theorem Fields.values {r : MoveRequest} {fields : List Entry} (h : r.Fields fields) :
    layout.complete (fields.foldl layout.fill (layout.fields.map fun _ => none)) =
      .ok [r.item, r.quantity, r.origin, r.destination, r.reason] := by
  have hnames : layout.find? "item_id" = some 0 ∧ layout.find? "from_location_id" = some 2 ∧
      layout.find? "to_location_id" = some 3 ∧ layout.find? "reason_code" = some 4 := by decide
  obtain ⟨hitem, horigin, hdestination, hreason⟩ := hnames
  have hquantity {name : String} (h : name ∈ ["quantity", "qty"]) : layout.find? name = some 1 := by
    simp only [List.mem_cons, List.not_mem_nil, or_false] at h
    rcases h with rfl | rfl <;> decide
  cases h with
  | all hname =>
    simp only [List.foldl_cons, List.foldl_nil, Json.Layout.fill, hitem, hquantity hname, horigin,
      hdestination, hreason]
    rfl
  | withoutReason hempty hname =>
    simp only [List.foldl_cons, List.foldl_nil, Json.Layout.fill, hitem, hquantity hname, horigin,
      hdestination, hempty]
    rfl

theorem Fields.texts {r : MoveRequest} {fields : List Entry} (h : r.Fields fields) :
    ∀ e ∈ fields, e.value ≠ none := by
  cases h with
  | all | withoutReason =>
    simp only [List.forall_mem_cons, List.not_mem_nil, false_imp_iff, implies_true, ne_eq,
      reduceCtorEq, not_false_eq_true, and_self]

/-- A request is read from each of its spellings. -/
theorem Spelled.ofJson {r : MoveRequest} {text : String} (h : r.Spelled text) :
    ofJson text = .ok r := by
  cases h with
  | @object fields others es _ hfields hothers hperm htext =>
  have hapart : (fields ++ others).Pairwise fun e e' => layout.Apart e.key e'.key := by
    refine List.pairwise_append.2 ⟨hfields.apart, ?_, fun e _ e' he' => ?_⟩
    · exact List.pairwise_of_forall_mem_list fun e he _ _ => .inl (find?_eq_none (hothers e he))
    · exact Json.Layout.Apart.symm (.inl (find?_eq_none (hothers e' he')))
  have htexts : ∀ e ∈ fields ++ others, layout.find? e.key ≠ none → e.value ≠ none := by
    intro e he hkey
    rcases List.mem_append.1 he with he | he
    · exact hfields.texts e he
    · exact absurd (find?_eq_none (hothers e he)) hkey
  have hread := Json.Layout.read_spelled htext hperm hapart htexts
  rw [List.foldl_append, Json.foldl_fill_unknown fun e he => find?_eq_none (hothers e he),
    hfields.values] at hread
  rw [MoveRequest.ofJson, hread]
  rfl

end MoveRequest

/-- The text that is written is one of the spellings of the request. -/
theorem MoveRequest.spelled_toJson (r : MoveRequest) : r.Spelled r.toJson := by
  have hlength : [r.item, r.quantity, r.origin, r.destination, r.reason].length =
      layout.fields.length := rfl
  have hwritten := Json.spellsEntries_write hlength (List.cons_ne_nil _ _)
  have hfields := Fields.all (r := r) (by decide : "quantity" ∈ ["quantity", "qty"])
  have hothers : ∀ e ∈ ([] : List Entry), e.key ∉ fieldNames := nofun
  exact .object hfields hothers (.refl _) (SpellsObject.braces .nil hwritten .nil)

/-! ## The guarantee -/

/-- Requests, answers and notices are read back from the texts that are written, whatever
characters they have. A request is read from any object that holds its fields, each once and in any
order, the quantity under either of its names and the reason unless it is empty, with any blanks,
any escapes and any members that have other names; so all these texts have one digest. -/
theorem wire_texts_read_back :
    (∀ r : MoveRequest, MoveRequest.ofJson r.toJson = .ok r) ∧
    (∀ a : MoveAnswer, MoveAnswer.ofJson a.toJson = .ok a) ∧
    (∀ n : MoveNotice, MoveNotice.ofJson n.toJson = .ok n) ∧
    ∀ (r : MoveRequest) (text : String), r.Spelled text →
      MoveRequest.ofJson text = .ok r ∧
      (MoveRequest.ofJson text).map MoveRequest.digest = .ok r.digest := by
  refine ⟨fun r => r.spelled_toJson.ofJson, MoveAnswer.ofJson_toJson, MoveNotice.ofJson_toJson, ?_⟩
  intro r text htext
  have hread := htext.ofJson
  exact ⟨hread, congrArg (Except.map MoveRequest.digest) hread⟩

/-- A request with escapes, a surrogate pair, the short name of the quantity and no reason, after a
member nobody asked for. -/
def escapedText : String :=
  "\x7b \"\\n\":[1.5e+2,\x7b\"\\ud800\":[ ]\x7d,-0],\"qty\" :\t\"1\"," ++
    "\"to_location_id\":\"b\",\"\\u0069tem_id\":\"\\/\",\"from_location_id\":" ++
    "\"\\uD834\\udd1e\"\x7d\n"

theorem escaped_text_read_back :
    MoveRequest.ofJson escapedText = .ok ⟨"/", "1", "𝄞", "b", ""⟩ := by
  have hnumber : Number "1.5e+2".toList :=
    .parts (.other (by decide) (by decide : Digits ['1'])) (.some (by decide : Digits ['5']))
      (.some (e := 'e') (by decide) (by decide : ['+'] ∈ _) (by decide : Digits ['2']))
  have hobject : Phrase .element "\x7b\"\\ud800\":[ ]\x7d".toList :=
    .element .nil (.object (.lastMember (.member .nil
      (.half (.digits (.small (n := 13) (by decide)) (.small (n := 8) (by decide))
        (.small (n := 0) (by decide)) (.small (n := 0) (by decide))) .nil) .nil
      (.element .nil (.emptyArray (b := [' ']) (by decide)) .nil)))) .nil
  have hvalue : Phrase .element "[1.5e+2,\x7b\"\\ud800\":[ ]\x7d,-0]".toList :=
    .element .nil (.array (.moreElements (.element .nil (.number hnumber) .nil)
      (.moreElements hobject (.lastElement
        (.element .nil (.negative (.parts .zero .none .none)) .nil))))) .nil
  have hunknown : SpellsEntry ⟨"\n", none⟩ _ :=
    .other (a := [' ']) (by decide)
      (.cons (.short (by decide : ('n', '\n') ∈ Json.shortEscapes)) .nil) .nil hvalue
  have hquantity : SpellsEntry ⟨"qty", some "1"⟩ _ :=
    .text .nil (spellsText_plain (by decide)) (b := [' ']) (by decide) (c := ['\t']) (by decide)
      (spellsText_plain (by decide)) .nil
  have hdestination : SpellsEntry ⟨"to_location_id", some "b"⟩ _ :=
    .text .nil (spellsText_plain (by decide)) .nil .nil (spellsText_plain (by decide)) .nil
  have hitem : SpellsEntry ⟨"item_id", some "/"⟩ _ :=
    .text .nil (.cons (.code (c := 'i') (.digits (.small (n := 0) (by decide))
        (.small (n := 0) (by decide)) (.small (n := 6) (by decide)) (.small (n := 9) (by decide))))
      (spellsText_plain (s := "tem_id".toList) (by decide))) .nil .nil
      (.cons (.short (by decide : ('/', '/') ∈ Json.shortEscapes)) .nil) .nil
  have hcode : '𝄞'.toNat = 0x1d11e := by decide
  have hhigh : SpellsUnit (0xd800 + ('𝄞'.toNat - 0x10000) / 0x400) "D834".toList := by
    rw [hcode]
    exact .digits (.large (n := 13) (by decide)) (.small (n := 8) (by decide))
      (.small (n := 3) (by decide)) (.small (n := 4) (by decide))
  have hlow : SpellsUnit (0xdc00 + ('𝄞'.toNat - 0x10000) % 0x400) "dd1e".toList := by
    rw [hcode]
    exact .digits (.small (n := 13) (by decide)) (.small (n := 13) (by decide))
      (.small (n := 1) (by decide)) (.small (n := 14) (by decide))
  have horigin : SpellsEntry ⟨"from_location_id", some "𝄞"⟩ _ :=
    .text .nil (spellsText_plain (by decide)) .nil .nil (.cons (.pair (by decide) hhigh hlow) .nil)
      .nil
  obtain ⟨text, hobject, htext⟩ : ∃ text, SpellsObject [⟨"\n", none⟩, ⟨"qty", some "1"⟩,
      ⟨"to_location_id", some "b"⟩, ⟨"item_id", some "/"⟩, ⟨"from_location_id", some "𝄞"⟩] text ∧
      text = escapedText :=
    ⟨_, .braces .nil (.more hunknown (.more hquantity (.more hdestination
      (.more hitem (.last horigin))))) (b := ['\n']) (by decide), by decide +kernel⟩
  have hothers : ∀ e ∈ [Entry.mk "\n" none], e.key ∉ MoveRequest.fieldNames := by decide
  rw [← htext]
  exact (wire_texts_read_back.2.2.2 ⟨"/", "1", "𝄞", "b", ""⟩ text
    (.object (.withoutReason rfl (by decide : "qty" ∈ _)) hothers (by decide) hobject)).1

end Stockroom
