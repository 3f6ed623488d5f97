import Stockroom.Proofs.JsonPhrases
import Mathlib.Data.List.Pairwise

/-!
# Records from JSON objects

An object may give the fields of a record in any order, with blanks and escapes, and with members
nobody asked for. The reader fills one slot for each field, so what it holds in the end depends
neither on the order nor on what else there is.

Results:
1. `readMembers_entries`: reading an object fills the slots, one member after the other.
2. `foldl_fill_perm`: the order of the members does not matter.
3. `Layout.read_spelled`: a record is read from any spelling of an object.
4. `spellsEntries_write`: the text that is written is such a spelling.
-/
namespace Stockroom.Json

/-! ## Spellings of objects -/

/-- A member of an object: its key, and its value where that is a text. -/
structure Entry where
  key : String
  value : Option String
  deriving DecidableEq

/-- The spellings of a member. -/
inductive SpellsEntry : Entry → List Char → Prop
  | text {key value : String} {a b c d k v : List Char} :
      Blanks a → SpellsText key.toList k → Blanks b →
      Blanks c → SpellsText value.toList v → Blanks d →
      SpellsEntry ⟨key, some value⟩
        (a ++ '"' :: (k ++ '"' :: (b ++ ':' :: (c ++ ('"' :: (v ++ ['"']) ++ d)))))
  /-- The value may be anything. -/
  | other {key : String} {a b k cs : List Char} :
      Blanks a → SpellsText key.toList k → Blanks b → Phrase .element cs →
      SpellsEntry ⟨key, none⟩ (a ++ '"' :: (k ++ '"' :: (b ++ ':' :: cs)))

/-- The spellings of the inside of an object with these members in this order. -/
inductive SpellsEntries : List Entry → List Char → Prop
  | last {e : Entry} {cs : List Char} : SpellsEntry e cs → SpellsEntries [e] cs
  | more {e : Entry} {es : List Entry} {cs ds : List Char} :
      SpellsEntry e cs → SpellsEntries es ds → SpellsEntries (e :: es) (cs ++ ',' :: ds)

/-- The texts that hold an object with these members in this order, and nothing else. -/
inductive SpellsObject : List Entry → String → Prop
  | braces {es : List Entry} {a b cs : List Char} : Blanks a → SpellsEntries es cs → Blanks b →
      SpellsObject es (String.ofList (a ++ '\x7b' :: (cs ++ '\x7d' :: b)))

/-- A text without quotes, escapes and control characters stands for itself. -/
theorem spellsText_plain {s : List Char}
    (h : s.all (fun c => c ≠ '"' ∧ c ≠ '\\' ∧ 0x20 ≤ c.toNat) = true) : SpellsText s s := by
  induction s with
  | nil => exact .nil
  | cons c s ih =>
    obtain ⟨hfirst, hrest⟩ := Bool.and_eq_true_iff.1 h
    obtain ⟨hquote, hescape, hcontrol⟩ := of_decide_eq_true hfirst
    exact .cons (.plain hquote hescape hcontrol) (ih hrest)

theorem SpellsText.loose {s cs : List Char} (h : SpellsText s cs) : LooseText cs := by
  induction h with
  | nil => exact .nil
  | cons hchar _ ih => exact .char hchar ih

/-- A text is a value like any other to a reader that has not asked for it. -/
theorem SpellsEntry.other_of {key : String} {value : Option String} {cs : List Char}
    (h : SpellsEntry ⟨key, value⟩ cs) : SpellsEntry ⟨key, none⟩ cs := by
  cases h with
  | text ha hk hb hc hv hd => exact .other ha hk hb (.element hc (.text hv.loose) hd)
  | other ha hk hb hvalue => exact .other ha hk hb hvalue

/-! ## Members fill slots -/

section Layout

variable {layout : Layout} {slots : Slots} {e : Entry} {es es' : List Entry} {cs rest : List Char}

/-- What reading a member makes of the slots. -/
def Layout.fill (layout : Layout) (slots : Slots) (e : Entry) : Slots :=
  match layout.find? e.key with
  | none => slots
  | some i => slots.set i e.value

theorem fill_unknown (h : layout.find? e.key = none) : layout.fill slots e = slots := by
  rw [Layout.fill, h]

theorem fill_known {i : Nat} (h : layout.find? e.key = some i) :
    layout.fill slots e = slots.set i e.value := by
  rw [Layout.fill, h]

/-- A field whose slot is empty is read from any spelling of its member. -/
theorem readMember_known {key value : String} {i : Nat} {b c v : List Char}
    (hi : layout.find? key = some i) (hslot : slots[i]? = some none) (hb : Blanks b)
    (hc : Blanks c) (hv : SpellsText value.toList v) (rest : List Char) :
    layout.readMember slots key (b ++ ':' :: (c ++ '"' :: (v ++ '"' :: rest))) =
      .ok (slots.set i (some value), rest) := by
  have hread : readText (c ++ '"' :: (v ++ '"' :: rest)) = .ok (value, rest) := by
    rw [readText, hc.dropBlank_cons (by decide)]
    show (readChars _).map _ = _
    rw [hv.readChars]
    show Except.ok (String.ofList value.toList, rest) = _
    rw [String.ofList_toList]
  rw [Layout.readMember, hi]
  dsimp only
  rw [hslot, if_neg (by decide), expectColon_append hb]
  show (readText _ >>= _) = _
  rw [hread]
  rfl

/-- A member nobody asked for leaves the slots alone. -/
theorem readMember_unknown (slots : List (Option String)) {key : String} {b : List Char}
    (hkey : layout.find? key = none) (hb : Blanks b) (h : Phrase .element cs) (hrest : Stops rest) :
    ∃ d, Blanks d ∧
      layout.readMember slots key (b ++ ':' :: (cs ++ rest)) = .ok (slots, d ++ rest) := by
  obtain ⟨d, hd, hskip⟩ := h.skip hrest
  refine ⟨d, hd, ?_⟩
  rw [Layout.readMember, hkey]
  dsimp only
  rw [expectColon_append hb]
  show (skip _ >>= _) = _
  rw [hskip]
  rfl

/-- A key, and what is made of its member. -/
theorem readMembers_of {key : String} {a k after : List Char} {slots' : Slots} (ha : Blanks a)
    (hk : SpellsText key.toList k)
    (hmember : layout.readMember slots key after = .ok (slots', rest)) (fuel : Nat) :
    layout.readMembers (fuel + 1) slots (a ++ '"' :: (k ++ '"' :: after)) =
      match dropBlank rest with
      | [] => .error .ended
      | ',' :: rest => layout.readMembers fuel slots' rest
      | '\x7d' :: rest => .ok (slots', rest)
      | _ => .error .malformed := by
  rw [Layout.readMembers, ha.dropBlank_cons (by decide)]
  show (readChars _ >>= _) = _
  rw [hk.readChars]
  show (layout.readMember _ (String.ofList key.toList) _ >>= _) = _
  rw [String.ofList_toList, hmember]
  rfl

/-- A member of a field has a text, and its slot is empty. -/
def Layout.Awaits (layout : Layout) (slots : Slots) (e : Entry) : Prop :=
  ∀ i, layout.find? e.key = some i → slots[i]? = some none ∧ e.value ≠ none

/-- One member, and how reading goes on after it. -/
theorem readMembers_entry (h : SpellsEntry e cs) (hawaits : layout.Awaits slots e)
    (hrest : Stops rest) (fuel : Nat) :
    layout.readMembers (fuel + 1) slots (cs ++ rest) =
      match dropBlank rest with
      | [] => .error .ended
      | ',' :: rest => layout.readMembers fuel (layout.fill slots e) rest
      | '\x7d' :: rest => .ok (layout.fill slots e, rest)
      | _ => .error .malformed := by
  obtain ⟨key, value⟩ := e
  cases hkey : layout.find? key with
  | none =>
    cases h.other_of with
    | other ha hk hb hvalue =>
      obtain ⟨d, hd, hmember⟩ := readMember_unknown slots hkey hb hvalue hrest
      have hread := readMembers_of ha hk hmember fuel
      rw [dropBlank_append hd] at hread
      rw [fill_unknown hkey]
      simpa only [List.append_assoc, List.cons_append] using hread
  | some i =>
    obtain ⟨hslot, hvalue⟩ := hawaits i hkey
    cases h with
    | other => exact absurd rfl hvalue
    | @text _ _ _ _ _ d _ _ ha hk hb hc hv hd =>
      have hread := readMembers_of ha hk (readMember_known hkey hslot hb hc hv (d ++ rest)) fuel
      rw [dropBlank_append hd] at hread
      rw [fill_known hkey]
      simpa only [List.append_assoc, List.cons_append, List.nil_append] using hread

/-- Two keys are not for one field. -/
def Layout.Apart (layout : Layout) (k l : String) : Prop :=
  layout.find? k = none ∨ layout.find? k ≠ layout.find? l

instance (layout : Layout) (k l : String) : Decidable (layout.Apart k l) :=
  inferInstanceAs (Decidable (_ ∨ _))

theorem Layout.Apart.symm {k l : String} (h : layout.Apart k l) : layout.Apart l k := by
  by_cases hl : layout.find? l = none
  · exact .inl hl
  · refine .inr fun hsame => ?_
    exact h.elim (fun hk => hl (hsame.trans hk)) fun hne => hne hsame.symm

theorem Layout.Apart.ne {k l : String} {i j : Nat} (h : layout.Apart k l)
    (hi : layout.find? k = some i) (hj : layout.find? l = some j) : i ≠ j := by
  rintro rfl
  rcases h with h | h
  · exact nomatch hi.symm.trans h
  · exact h (hi.trans hj.symm)

/-- Filling the slot of one field leaves those of the others empty. -/
theorem Layout.Awaits.fill {e' : Entry} (h : layout.Awaits slots e')
    (hapart : layout.Apart e.key e'.key) :
    layout.Awaits (layout.fill slots e) e' := by
  intro i hi
  obtain ⟨hslot, hvalue⟩ := h i hi
  refine ⟨?_, hvalue⟩
  cases hj : layout.find? e.key with
  | none => rw [fill_unknown hj, hslot]
  | some j =>
    rw [fill_known hj, List.getElem?_set_ne (hapart.ne hj hi), hslot]

/-- The members of an object fill the slots one after the other. -/
theorem readMembers_entries (h : SpellsEntries es cs)
    (hapart : es.Pairwise fun e e' => layout.Apart e.key e'.key)
    (hawaits : ∀ e ∈ es, layout.Awaits slots e) {fuel : Nat} (hfuel : es.length ≤ fuel)
    (rest : List Char) :
    layout.readMembers fuel slots (cs ++ '\x7d' :: rest) =
      .ok (es.foldl layout.fill slots, rest) := by
  induction h generalizing slots fuel with
  | @last e cs h =>
    obtain _ | fuel := fuel
    · cases hfuel
    have hend : Stops ('\x7d' :: rest) := stops_cons (by decide)
    have hread := readMembers_entry h (hawaits e List.mem_cons_self) hend fuel
    rw [dropBlank_cons (by decide)] at hread
    exact hread
  | @more e es cs ds h _ ih =>
    obtain _ | fuel := fuel
    · cases hfuel
    obtain ⟨hfirst, hothers⟩ := List.pairwise_cons.1 hapart
    have hcomma : Stops (',' :: (ds ++ '\x7d' :: rest)) := stops_cons (by decide)
    have hread := readMembers_entry h (hawaits e List.mem_cons_self) hcomma fuel
    rw [dropBlank_cons (by decide)] at hread
    rw [List.append_assoc, List.cons_append]
    refine hread.trans (ih hothers (fun e' he' => ?_) (Nat.le_of_succ_le_succ hfuel))
    exact (hawaits e' (List.mem_cons_of_mem _ he')).fill (hfirst e' he')

/-! ## The order does not matter -/

theorem fill_comm {e' : Entry} (h : layout.Apart e.key e'.key) (slots : Slots) :
    layout.fill (layout.fill slots e) e' = layout.fill (layout.fill slots e') e := by
  cases hi : layout.find? e.key with
  | none => rw [fill_unknown hi, fill_unknown hi]
  | some i =>
    cases hj : layout.find? e'.key with
    | none => rw [fill_unknown hj, fill_unknown hj]
    | some j =>
      rw [fill_known hi, fill_known hj, fill_known hj, fill_known hi,
        List.set_comm _ _ (h.ne hi hj)]

/-- Members for different fields may come in any order. -/
theorem foldl_fill_perm (hperm : es.Perm es')
    (hapart : es.Pairwise fun e e' => layout.Apart e.key e'.key) (slots : Slots) :
    es.foldl layout.fill slots = es'.foldl layout.fill slots := by
  refine hperm.foldl_eq' (fun e he e' he' => ?_) slots
  have hcomm : es.Pairwise fun e e' => ∀ slots,
      layout.fill (layout.fill slots e) e' = layout.fill (layout.fill slots e') e :=
    hapart.imp fill_comm
  exact hcomm.forall_of_forall_of_flip (fun _ _ _ => rfl)
    (hcomm.imp fun h slots => (h slots).symm) he he'

/-- Members nobody asked for make no difference. -/
theorem foldl_fill_unknown (h : ∀ e ∈ es, layout.find? e.key = none) (slots : Slots) :
    es.foldl layout.fill slots = slots := by
  induction es generalizing slots with
  | nil => rfl
  | cons e es ih =>
    obtain ⟨hfirst, hothers⟩ := List.forall_mem_cons.1 h
    rw [List.foldl_cons, fill_unknown hfirst]
    exact ih hothers slots

/-! ## Records from objects -/

theorem SpellsEntry.length_pos (h : SpellsEntry e cs) : 0 < cs.length := by
  cases h with
  | text | other =>
    rw [List.length_append, List.length_cons]
    omega

theorem SpellsEntries.length_le (h : SpellsEntries es cs) : es.length ≤ cs.length := by
  induction h with
  | last h => exact h.length_pos
  | more _ _ ih =>
    rw [List.length_append, List.length_cons, List.length_cons]
    omega

theorem SpellsEntries.opens (h : SpellsEntries es cs) : Opens cs := by
  have hentry {e : Entry} {cs : List Char} (h : SpellsEntry e cs) : Opens cs := by
    cases h with
    | text ha | other ha => exact .blanks ha (.cons (by decide))
  cases h with
  | last h => exact hentry h
  | more h => exact (hentry h).append _

theorem find?_lt {key : String} {i : Nat} (h : layout.find? key = some i) :
    i < layout.fields.length :=
  (List.findIdx?_eq_some_iff_findIdx_eq.1 h).1

theorem readObject_entries (h : SpellsEntries es cs)
    (hapart : es.Pairwise fun e e' => layout.Apart e.key e'.key)
    (htexts : ∀ e ∈ es, layout.find? e.key ≠ none → e.value ≠ none) (rest : List Char) :
    layout.readObject (cs ++ '\x7d' :: rest) =
      (layout.complete (es.foldl layout.fill (layout.fields.map fun _ => none))).map (·, rest) := by
  have hawaits : ∀ e ∈ es, layout.Awaits (layout.fields.map fun _ => none) e := by
    intro e he i hi
    refine ⟨?_, htexts e he (hi ▸ nofun)⟩
    rw [List.getElem?_map, List.getElem?_eq_getElem (find?_lt hi)]
    rfl
  have hfuel : es.length ≤ (cs ++ '\x7d' :: rest).length + 1 := by
    have := h.length_le
    rw [List.length_append]
    omega
  have hread := readMembers_entries h hapart hawaits hfuel rest
  obtain ⟨c, ds, hcs, -, hc⟩ := (h.opens.append ('\x7d' :: rest)).dropBlank
  rw [Layout.readObject, hcs]
  dsimp only
  split
  · next hclose => exact absurd (List.cons.inj hclose).1 hc
  · rw [hread]
    show (layout.complete _ >>= _) = _
    cases layout.complete (es.foldl layout.fill (layout.fields.map fun _ => none)) <;> rfl

/-- A record is read from any spelling of an object, whatever the order of its members. -/
theorem Layout.read_spelled {text : String} (h : SpellsObject es text) (hperm : es.Perm es')
    (hapart : es'.Pairwise fun e e' => layout.Apart e.key e'.key)
    (htexts : ∀ e ∈ es', layout.find? e.key ≠ none → e.value ≠ none) :
    layout.read text =
      layout.complete (es'.foldl layout.fill (layout.fields.map fun _ => none)) := by
  replace hapart : es.Pairwise fun e e' => layout.Apart e.key e'.key :=
    (hperm.pairwise_iff Layout.Apart.symm).2 hapart
  rw [← foldl_fill_perm hperm hapart]
  obtain ⟨ha, hes, hb⟩ := h
  rw [Layout.read, String.toList_ofList, ha.dropBlank_cons (by decide)]
  show (layout.readObject _ >>= _) = _
  rw [readObject_entries hes hapart fun e he => htexts e (hperm.mem_iff.1 he)]
  cases layout.complete (es.foldl layout.fill (layout.fields.map fun _ => none)) with
  | error fault => rfl
  | ok values =>
    show (atEnd _ >>= _) = _
    rw [atEnd, hb.dropBlank_eq_nil]
    rfl

end Layout

/-! ## The writer's spelling -/

theorem spellsEntry_writeMember (f : Field) (value : String) :
    SpellsEntry ⟨f.name, some value⟩ (writeMember f value) := by
  have h := SpellsEntry.text .nil (spellsText_escaped f.name.toList) .nil .nil
    (spellsText_escaped value.toList) .nil
  simpa only [writeMember, writeText, List.nil_append, List.append_nil, List.cons_append,
    List.append_assoc] using h

theorem spellsEntries_write {fields : List Field} {values : List String}
    (hlen : values.length = fields.length) (hsome : fields ≠ []) :
    SpellsEntries (List.zipWith (fun f value => ⟨f.name, some value⟩) fields values)
      ([','].intercalate (List.zipWith writeMember fields values)) := by
  induction fields generalizing values with
  | nil => exact absurd rfl hsome
  | cons f fields ih =>
    obtain _ | ⟨value, values⟩ := values
    · cases hlen
    rw [List.zipWith_cons_cons, List.zipWith_cons_cons]
    cases fields with
    | nil =>
      rw [List.zipWith_nil_left, List.zipWith_nil_left, List.intercalate_singleton]
      exact .last (spellsEntry_writeMember f value)
    | cons g fields =>
      obtain _ | ⟨next, values⟩ := values
      · cases hlen
      have hrest := ih (Nat.succ.inj hlen) (List.cons_ne_nil _ _)
      rw [List.zipWith_cons_cons, List.zipWith_cons_cons] at hrest ⊢
      rw [List.intercalate_cons_cons, List.append_assoc]
      exact .more (spellsEntry_writeMember f value) hrest

end Stockroom.Json
