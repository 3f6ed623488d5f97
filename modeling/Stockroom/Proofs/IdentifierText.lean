import Stockroom.Proofs.Texts

/-!
# Identifiers read back from their text

Results:
1. `digitsAt_layOut`: digits laid out over places are found again at these places.
2. `read_text`: an identifier is read back from the form it is written in.
-/
namespace Stockroom.Identifier

/-! ## Hexadecimal digits -/

theorem hexDigit_ascii : ∀ {n : Nat}, n < 16 → (Bytes.hexDigit n).utf8Size = 1 := by decide

/-- Every character of a hexadecimal text is the digit of a number below 16. -/
theorem exists_hexDigit {bytes : Bytes} {c : Char} (h : c ∈ Bytes.toHexChars bytes) :
    ∃ n, n < 16 ∧ c = Bytes.hexDigit n := by
  obtain ⟨b, _, hc⟩ := List.mem_flatMap.1 h
  have hb := b.toNat_lt
  simp only [List.mem_cons, List.not_mem_nil, or_false] at hc
  rcases hc with rfl | rfl
  · exact ⟨_, by omega, rfl⟩
  · exact ⟨_, by omega, rfl⟩

theorem length_toHexChars (bytes : Bytes) : (Bytes.toHexChars bytes).length = 2 * bytes.length := by
  induction bytes with
  | nil => rfl
  | cons b bytes ih =>
    rw [Bytes.toHexChars, List.flatMap_cons, List.length_append, List.length_cons]
    rw [Bytes.toHexChars] at ih
    simp only [List.length_cons, List.length_nil, ih]
    omega

/-! ## Places -/

/-- The number of digits that places have room for. -/
def room (places : List Place) : Nat := places.count .digit

/-- Digits laid out over places are found again at these places. -/
theorem digitsAt_layOut {places : List Place} {digits : List Char}
    (hlen : digits.length = room places)
    (hhex : ∀ c ∈ digits, (Bytes.hexValue? c).isSome = true) :
    digitsAt places (layOut places digits) = .ok digits := by
  induction places generalizing digits with
  | nil =>
    have : digits = [] := List.length_eq_zero_iff.1 hlen
    rw [this]
    rfl
  | cons place places ih =>
    cases place with
    | hyphen =>
      rw [layOut, digitsAt, if_pos rfl]
      exact ih (by simpa [room] using hlen) hhex
    | digit =>
      cases digits with
      | nil => simp [room] at hlen
      | cons c digits =>
        rw [layOut, digitsAt, if_pos (hhex c List.mem_cons_self)]
        rw [ih (by simpa [room] using hlen) fun d hd => hhex d (List.mem_cons_of_mem c hd)]
        rfl

theorem mem_layOut {places : List Place} {digits : List Char} {c : Char}
    (h : c ∈ layOut places digits) : c = '-' ∨ c ∈ digits := by
  induction places generalizing digits with
  | nil => simp [layOut] at h
  | cons place places ih =>
    cases place with
    | hyphen =>
      rw [layOut, List.mem_cons] at h
      exact h.elim .inl ih
    | digit =>
      cases digits with
      | nil => simp [layOut] at h
      | cons d digits =>
        rw [layOut, List.mem_cons] at h
        rcases h with rfl | h
        · exact .inr List.mem_cons_self
        · exact (ih h).imp_right (List.mem_cons_of_mem d)

theorem length_layOut {places : List Place} {digits : List Char}
    (hlen : digits.length = room places) : (layOut places digits).length = places.length := by
  induction places generalizing digits with
  | nil => rfl
  | cons place places ih =>
    cases place with
    | hyphen =>
      rw [layOut, List.length_cons, List.length_cons, ih (by simpa [room] using hlen)]
    | digit =>
      cases digits with
      | nil => simp [room] at hlen
      | cons d digits =>
        rw [layOut, List.length_cons, List.length_cons, ih (by simpa [room] using hlen)]

/-! ## Whole texts -/

theorem length_digits (id : Identifier) :
    (Bytes.toHexChars id.bytes).length = room hyphenatedPlaces := by
  rw [length_toHexChars, id.length_bytes]
  rfl

theorem length_textChars (id : Identifier) : id.textChars.length = 36 :=
  length_layOut (length_digits id)

theorem ascii_textChars {id : Identifier} {c : Char} (h : c ∈ id.textChars) : c.utf8Size = 1 := by
  rcases mem_layOut h with rfl | hc
  · decide
  · obtain ⟨n, hn, rfl⟩ := exists_hexDigit hc
    exact hexDigit_ascii hn

theorem utf8ByteSize_text (id : Identifier) : id.text.utf8ByteSize = 36 := by
  have hones : id.textChars.map Char.utf8Size = List.replicate 36 1 := by
    refine List.eq_replicate_iff.2 ⟨by rw [List.length_map, length_textChars], ?_⟩
    intro n hn
    obtain ⟨c, hc, rfl⟩ := List.mem_map.1 hn
    exact ascii_textChars hc
  rw [Bytes.utf8ByteSize_eq, text, String.toList_ofList, hones]
  rfl

/-- The digits of an identifier are read over any places that have room for them. -/
theorem readAt_layOut {places : List Place} (id : Identifier)
    (h : (Bytes.toHexChars id.bytes).length = room places) :
    readAt places (layOut places (Bytes.toHexChars id.bytes)) = .ok id := by
  have hdigits := digitsAt_layOut h fun c hc => by
    obtain ⟨n, hn, rfl⟩ := exists_hexDigit hc
    rw [Bytes.hexValue?_hexDigit hn]
    rfl
  rw [readAt, hdigits]
  simp only [bind, Except.bind, Bytes.ofHexChars?_toHexChars, Option.bind_some, ofBytes?_bytes]
  rfl

theorem readAt_textChars (id : Identifier) : readAt hyphenatedPlaces id.textChars = .ok id :=
  readAt_layOut id (length_digits id)

/-- An identifier is read back from the form it is written in. -/
theorem read_text (id : Identifier) : read id.text = .ok id := by
  rw [read, utf8ByteSize_text]
  simp only [text, String.toList_ofList]
  exact readAt_textChars id

theorem sized_text (id : Identifier) : Sized id.text :=
  .ofList (by rw [length_textChars]; decide)

end Stockroom.Identifier
