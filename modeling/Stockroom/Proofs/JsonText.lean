import Stockroom.Ledger.Answer
import Stockroom.Proofs.IdentifierText
import Stockroom.Proofs.QuantityText

/-!
# JSON texts read back

A record that was written is read back: its members come in the order of the fields, so every key
is met once, and no blanks stand between them. The reader goes through the text once, and what it
holds after some members is one slot for each field met so far.

Results:
1. `readChars_writeText`: a string is read back whatever characters it has.
2. `Layout.read_write`: a record of texts is read back.
3. `MoveAnswer.ofJson_toJson` and `MoveNotice.ofJson_toJson`: so are answers and notices.
4. `Layout.length_write_le`: a written record is at most six times as long as its texts. Those of
   answers and notices can therefore be stored (`MoveAnswer.sized_ok`, `MoveNotice.sized_texts`).
-/
namespace Stockroom.Json

/-! ## Strings -/

/-- A character in front of what is read from the rest. -/
def inFront (c : Char) (read : Except Fault (List Char × List Char)) :
    Except Fault (List Char × List Char) :=
  read.map fun (s, rest) => (c :: s, rest)

theorem readChars_escape {escape rest : List Char} {c : Char}
    (h : readEscape escape = .ok (c, rest)) :
    readChars ('\\' :: escape) = inFront c (readChars rest) := by
  rw [readChars]
  split
  · next he =>
    rw [h] at he
    cases he
  · next he =>
    rw [h] at he
    cases he
    rfl

theorem readChars_plain {c : Char} {rest : List Char} (hquote : c ≠ '"') (hescape : c ≠ '\\')
    (hcontrol : ¬ c.toNat < 0x20) : readChars (c :: rest) = inFront c (readChars rest) := by
  rw [readChars]
  · rw [if_neg hcontrol]
    rfl
  · exact fun h => hquote h
  · exact fun h => hescape h

/-- The code of a control character names it. -/
theorem readCodePoint_control {c : Char} (h : c.toNat < 0x20) (rest : List Char) :
    readCodePoint ('0' :: '0' :: Bytes.hexDigit (c.toNat / 16) :: Bytes.hexDigit (c.toNat % 16) ::
      rest) = .ok (c, rest) := by
  have hhigh := Bytes.hexValue?_hexDigit (n := c.toNat / 16) (by omega)
  have hlow := Bytes.hexValue?_hexDigit (n := c.toNat % 16) (by omega)
  have hzero : Bytes.hexValue? '0' = some 0 := by decide
  have hvalue : (0 * 16 + 0) * 16 + c.toNat / 16 = c.toNat / 16 := by omega
  have hsum : c.toNat / 16 * 16 + c.toNat % 16 = c.toNat := by omega
  rw [readCodePoint, readUnit, hexValue4?]
  simp only [hzero, hhigh, hlow, Option.bind_eq_bind, Option.bind_some, hvalue, hsum, pure]
  rw [if_neg (by omega), if_neg (by omega), Char.ofNat_toNat]

theorem readChars_escaped (c : Char) (rest : List Char) :
    readChars (escaped c ++ rest) = inFront c (readChars rest) := by
  by_cases hshort : c ∈ ['"', '\\', '\x08', '\x0c', '\n', '\r', '\t']
  · simp only [List.mem_cons, List.not_mem_nil, or_false] at hshort
    rcases hshort with rfl | rfl | rfl | rfl | rfl | rfl | rfl <;> exact readChars_escape rfl
  · simp only [List.mem_cons, List.not_mem_nil, or_false, not_or] at hshort
    obtain ⟨h1, h2, h3, h4, h5, h6, h7⟩ := hshort
    rw [escaped, if_neg h1, if_neg h2, if_neg h3, if_neg h4, if_neg h5, if_neg h6, if_neg h7]
    split
    · next h => exact readChars_escape (readCodePoint_control h rest)
    · next h => exact readChars_plain h1 h2 h

/-- A string is read back up to its closing quote. -/
theorem readChars_writeText (s rest : List Char) :
    readChars (s.flatMap escaped ++ '"' :: rest) = .ok (s, rest) := by
  induction s with
  | nil =>
    rw [List.flatMap_nil, List.nil_append, readChars]
  | cons c s ih =>
    rw [List.flatMap_cons, List.append_assoc, readChars_escaped, ih]
    rfl

theorem readText_writeText (s rest : List Char) :
    readText (writeText s ++ rest) = .ok (String.ofList s, rest) := by
  rw [writeText, List.cons_append, List.cons_append, List.append_assoc, readText]
  show (readChars (s.flatMap escaped ++ '"' :: rest)).map _ = _
  rw [readChars_writeText]
  rfl

/-! ## Members -/

/-- Every field is found under its name at its own place. -/
def Layout.NamesFound (layout : Layout) : Prop :=
  ∀ i (h : i < layout.fields.length), layout.find? layout.fields[i].name = some i

instance (layout : Layout) : Decidable layout.NamesFound :=
  inferInstanceAs (Decidable (∀ i (_ : i < _), _))

/-- The slots once the first fields have been met. -/
def slotsAfter (met : List String) (left : Nat) : Slots :=
  met.map some ++ List.replicate left none

theorem readMember_writeText {layout : Layout} {met : List String} {key : String}
    (hkey : layout.find? key = some met.length) (left : Nat) (value : String) (rest : List Char) :
    layout.readMember (slotsAfter met (left + 1)) key (':' :: writeText value.toList ++ rest) =
      .ok (slotsAfter (met ++ [value]) left, rest) := by
  have hslot : (slotsAfter met (left + 1))[met.length]? = some none := by
    simp [slotsAfter]
  have hset : (slotsAfter met (left + 1)).set met.length (some value) =
      slotsAfter (met ++ [value]) left := by
    simp [slotsAfter, List.replicate_succ]
  have hread := readText_writeText value.toList rest
  rw [String.ofList_toList] at hread
  rw [Layout.readMember, hkey]
  simp only [hslot, Option.bind_some, id, Option.isSome_none, Bool.false_eq_true, if_false]
  show (readText (writeText value.toList ++ rest) >>= _) = _
  rw [hread]
  exact congrArg (fun slots => Except.ok (slots, rest)) hset

/-- One member, and how reading goes on after it. -/
theorem readMembers_writeMember {layout : Layout} {met : List String} {f : Field}
    (hkey : layout.find? f.name = some met.length) (left : Nat) (value : String) (fuel : Nat)
    (rest : List Char) :
    layout.readMembers (fuel + 1) (slotsAfter met (left + 1)) (writeMember f value ++ rest) =
      match dropBlank rest with
      | [] => .error .ended
      | ',' :: rest => layout.readMembers fuel (slotsAfter (met ++ [value]) left) rest
      | '\x7d' :: rest => .ok (slotsAfter (met ++ [value]) left, rest)
      | _ => .error .malformed := by
  have hmember := readMember_writeText hkey left value rest
  have hname := readChars_writeText f.name.toList (':' :: writeText value.toList ++ rest)
  have hwritten : writeMember f value ++ rest =
      '"' :: (f.name.toList.flatMap escaped ++ '"' :: (':' :: writeText value.toList ++ rest)) := by
    simp [writeMember, writeText]
  rw [hwritten, Layout.readMembers]
  show (readChars _ >>= _) = _
  rw [hname]
  show (layout.readMember _ (String.ofList f.name.toList) _ >>= _) = _
  rw [String.ofList_toList, hmember]
  rfl

/-- The members still to come fill the slots that are left. -/
theorem readMembers_write {layout : Layout} (hnames : layout.NamesFound) (rest : List Char)
    {fields : List Field} {values : List String} (hlen : values.length = fields.length)
    (hsome : fields ≠ []) (met : List String) (hfields : layout.fields.drop met.length = fields)
    (fuel : Nat) (hfuel : fields.length ≤ fuel) :
    layout.readMembers fuel (slotsAfter met fields.length)
        ([','].intercalate (List.zipWith writeMember fields values) ++ '\x7d' :: rest) =
      .ok (slotsAfter (met ++ values) 0, rest) := by
  induction fields generalizing values met fuel with
  | nil => exact absurd rfl hsome
  | cons f fields ih =>
    obtain _ | ⟨value, values⟩ := values
    · cases hlen
    obtain _ | fuel := fuel
    · cases hfuel
    have hlt : met.length < layout.fields.length := by
      have := congrArg List.length hfields
      rw [List.length_drop, List.length_cons] at this
      omega
    rw [List.drop_eq_getElem_cons hlt, List.cons.injEq] at hfields
    obtain ⟨hf, hfields⟩ := hfields
    have hkey : layout.find? f.name = some met.length := hf ▸ hnames _ hlt
    cases fields with
    | nil =>
      obtain _ | _ := values
      · rw [List.zipWith_cons_cons, List.zipWith_nil_left, List.intercalate_singleton]
        exact readMembers_writeMember hkey _ value fuel _
      · cases hlen
    | cons g fields =>
      obtain _ | ⟨next, values⟩ := values
      · cases hlen
      have hmet : (met ++ [value]).length = met.length + 1 := by simp
      have hrest := ih (Nat.succ.inj hlen) (List.cons_ne_nil _ _) (met ++ [value])
        (hmet ▸ hfields) fuel (Nat.le_of_succ_le_succ hfuel)
      rw [List.append_assoc] at hrest
      rw [List.zipWith_cons_cons, List.zipWith_cons_cons, List.intercalate_cons_cons,
        List.append_assoc, List.append_assoc]
      exact (readMembers_writeMember hkey _ value fuel _).trans hrest

/-! ## Lengths -/

theorem length_escaped_le (c : Char) : (escaped c).length ≤ 6 := by
  unfold escaped
  repeat' split
  all_goals exact Nat.le_of_ble_eq_true rfl

theorem length_writeText_le (s : List Char) : (writeText s).length ≤ 6 * s.length + 2 := by
  rw [writeText, List.cons_append, List.length_cons, List.length_append]
  induction s with
  | nil => decide
  | cons c s ih =>
    have := length_escaped_le c
    simp only [List.flatMap_cons, List.length_append, List.length_cons, List.length_nil] at ih ⊢
    omega

theorem length_writeMember_le (f : Field) (value : String) :
    (writeMember f value).length ≤ 6 * (f.name.length + value.length) + 5 := by
  have hname := length_writeText_le f.name.toList
  have hvalue := length_writeText_le value.toList
  rw [String.length_toList] at hname hvalue
  simp only [writeMember, List.length_append, List.length_cons]
  omega

theorem length_intercalate_comma (items : List (List Char)) :
    ([','].intercalate items).length = (items.map List.length).sum + (items.length - 1) := by
  induction items with
  | nil => rfl
  | cons item items ih =>
    cases items with
    | nil => simp
    | cons next items =>
      simp only [List.intercalate_cons_cons, List.length_append, ih, List.map_cons, List.sum_cons,
        List.length_cons, List.length_nil]
      omega

/-- Every member takes a character at least. -/
theorem length_le_members {fields : List Field} {values : List String}
    (hlen : values.length = fields.length) :
    fields.length ≤ ([','].intercalate (List.zipWith writeMember fields values)).length := by
  rw [length_intercalate_comma]
  refine Nat.le_trans ?_ (Nat.le_add_right _ _)
  induction fields generalizing values with
  | nil => exact Nat.zero_le _
  | cons f fields ih =>
    obtain _ | ⟨value, values⟩ := values
    · cases hlen
    have hrest := ih (Nat.succ.inj hlen)
    have hone : 0 < (writeMember f value).length := by simp [writeMember]
    rw [List.zipWith_cons_cons, List.map_cons, List.sum_cons, List.length_cons]
    omega

/-! ## Records -/

theorem complete_slotsAfter {layout : Layout} {values : List String}
    (hlen : values.length = layout.fields.length) :
    layout.complete (slotsAfter values 0) = .ok values := by
  rw [Layout.complete, slotsAfter, List.replicate_zero, List.append_nil]
  generalize layout.fields = fields at hlen
  induction values generalizing fields with
  | nil =>
    obtain _ | _ := fields
    · rfl
    · cases hlen
  | cons value values ih =>
    obtain _ | ⟨f, fields⟩ := fields
    · cases hlen
    rw [List.map_cons, List.zip_cons_cons, List.mapM_cons, ih _ (Nat.succ.inj hlen)]
    rfl

theorem readObject_write {layout : Layout} (hnames : layout.NamesFound)
    (hsome : layout.fields ≠ []) {values : List String}
    (hlen : values.length = layout.fields.length) (rest : List Char) :
    layout.readObject ([','].intercalate (List.zipWith writeMember layout.fields values) ++
      '\x7d' :: rest) = .ok (values, rest) := by
  have hfuel := length_le_members hlen
  obtain ⟨tail, htail⟩ : ∃ tail,
      [','].intercalate (List.zipWith writeMember layout.fields values) = '"' :: tail := by
    obtain ⟨f, fields, hfields⟩ := List.exists_cons_of_ne_nil hsome
    obtain _ | ⟨value, values⟩ := values
    · rw [hfields] at hlen
      cases hlen
    · exact ⟨_, by
        rw [hfields, List.zipWith_cons_cons, writeMember, writeText, List.cons_append,
          List.cons_append, List.intercalate_cons_cons_left]⟩
  have hread := readMembers_write hnames rest hlen hsome [] rfl
    (([','].intercalate (List.zipWith writeMember layout.fields values) ++
      '\x7d' :: rest).length + 1) (by rw [List.length_append]; omega)
  have hslots : (layout.fields.map fun _ => none) = slotsAfter [] layout.fields.length := by
    simp [slotsAfter, List.map_const']
  rw [htail] at hread ⊢
  rw [Layout.readObject, hslots]
  show (layout.readMembers _ _ _ >>= _) = _
  rw [hread]
  show (layout.complete _ >>= _) = _
  rw [List.nil_append, complete_slotsAfter hlen]
  rfl

/-- A record of texts is read back. -/
theorem Layout.read_write (layout : Layout) (hnames : layout.NamesFound)
    (hsome : layout.fields ≠ []) (values : List String)
    (hlen : values.length = layout.fields.length) :
    layout.read (String.ofList (layout.write values)) = .ok values := by
  have hread := readObject_write hnames hsome hlen []
  rw [Layout.read, String.toList_ofList, Layout.write, List.cons_append]
  show ((layout.readObject (_ ++ ['\x7d'])) >>= _) = _
  rw [hread]
  rfl

theorem Layout.length_write_le (layout : Layout) (values : List String) :
    (layout.write values).length ≤ 2 + (List.zipWith
      (fun f v => 6 * (f.name.length + v.length) + 6) layout.fields values).sum := by
  rw [Layout.write, List.cons_append, List.length_cons, List.length_append,
    length_intercalate_comma]
  generalize layout.fields = fields
  suffices h : ((List.zipWith writeMember fields values).map List.length).sum +
      (List.zipWith writeMember fields values).length ≤
      (List.zipWith (fun f v => 6 * (f.name.length + v.length) + 6) fields values).sum by
    have hone : ['\x7d'].length = 1 := rfl
    omega
  induction fields generalizing values with
  | nil => exact Nat.le_refl _
  | cons f fields ih =>
    obtain _ | ⟨value, values⟩ := values
    · exact Nat.le_refl _
    have hmember := length_writeMember_le f value
    have hrest := ih values
    simp only [List.zipWith_cons_cons, List.map_cons, List.sum_cons, List.length_cons]
    omega

end Stockroom.Json

namespace Stockroom

/-! ## Answers and notices -/

theorem Identifier.length_text (id : Identifier) : id.text.length = 36 := by
  rw [Identifier.text, String.length_ofList, Identifier.length_textChars]

theorem Quantity.length_text_le (q : Quantity) : q.text.length ≤ 59 := by
  rw [Quantity.text, String.length_ofList]
  exact q.length_textChars_le

theorem MoveAnswer.ofJson_toJson (a : MoveAnswer) : ofJson a.toJson = .ok a := by
  have hread := layout.read_write (by decide) (List.cons_ne_nil _ _) [a.move, a.status] rfl
  rw [ofJson, toJson, hread]
  rfl

theorem MoveAnswer.sized_ok (id : Identifier) : Sized (ok id).toJson := by
  have hlen := layout.length_write_le [id.text, "ok"]
  have hid := id.length_text
  refine Sized.ofList (Nat.lt_of_le_of_lt hlen ?_)
  simp only [layout, Json.Field.plain, List.zipWith_cons_cons, List.zipWith_nil_left,
    List.sum_cons, List.sum_nil, hid]
  decide

theorem MoveNotice.ofJson_toJson (n : MoveNotice) : ofJson n.toJson = .ok n := by
  have hread := layout.read_write (by decide) (List.cons_ne_nil _ _)
    [n.move, n.item, n.quantity] rfl
  rw [ofJson, toJson, hread]
  rfl

theorem MoveNotice.sized_texts (move item : Identifier) (quantity : Quantity) :
    Sized (MoveNotice.toJson ⟨move.text, item.text, quantity.text⟩) := by
  have hlen := layout.length_write_le [move.text, item.text, quantity.text]
  have hmove := move.length_text
  have hitem := item.length_text
  have hquantity := quantity.length_text_le
  refine Sized.ofList (Nat.lt_of_le_of_lt hlen ?_)
  have hnames : "move_id".length = 7 ∧ "item_id".length = 7 ∧ "qty".length = 3 := by decide
  simp only [layout, Json.Field.plain, List.zipWith_cons_cons, List.zipWith_nil_left,
    List.sum_cons, List.sum_nil, hmove, hitem, hnames.1, hnames.2]
  omega

end Stockroom
