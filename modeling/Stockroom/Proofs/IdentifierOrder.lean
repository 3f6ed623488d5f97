import Stockroom.Proofs.IdentifierText

/-!
# The order of written identifiers

Identifiers compare as their bytes do. Their texts compare in the same way, whether by characters or
by the bytes of the characters: small hexadecimal digits ascend with their values, each byte is two
of them with the high one first, and the hyphens stand at the same places in every text.

Results:
1. `compare_flatMap`: a comparison that each element decides is one of the wholes.
2. `Bytes.compare_toHexChars` and `compare_layOut`: neither digits nor hyphens change the order.
3. `compare_text` and `compare_ofText_text`: texts compare as the bytes they are written for.
-/
namespace Stockroom

/-! ## Comparisons of lists -/

section Lists

variable {α β : Type} [Ord α] [Ord β]

theorem compare_cons_cons (x y : α) (xs ys : List α) :
    compare (x :: xs) (y :: ys) = (compare x y).then (compare xs ys) := by
  simp only [List.compare_eq_compareLex, List.compareLex_cons_cons]

/-- What stands for an element decides a comparison exactly where the element does. -/
def Decides (f : α → List β) (x y : α) : Prop :=
  ∀ rest rest', compare (f x ++ rest) (f y ++ rest') = (compare x y).then (compare rest rest')

/-- A comparison that each element decides is one of the wholes. -/
theorem compare_flatMap {f : α → List β} {xs ys : List α} (hne : ∀ x, f x ≠ [])
    (h : ∀ x ∈ xs, ∀ y ∈ ys, Decides f x y) :
    compare (xs.flatMap f) (ys.flatMap f) = compare xs ys := by
  induction xs generalizing ys with
  | nil =>
    cases ys with
    | nil => rfl
    | cons y ys =>
      obtain ⟨b, bs, hb⟩ := List.exists_cons_of_ne_nil (hne y)
      rw [List.flatMap_cons, hb]
      rfl
  | cons x xs ih =>
    cases ys with
    | nil =>
      obtain ⟨b, bs, hb⟩ := List.exists_cons_of_ne_nil (hne x)
      rw [List.flatMap_cons, hb]
      rfl
    | cons y ys =>
      have hrest : ∀ x ∈ xs, ∀ y ∈ ys, Decides f x y := fun x hx y hy =>
        h x (List.mem_cons_of_mem _ hx) y (List.mem_cons_of_mem _ hy)
      rw [List.flatMap_cons, List.flatMap_cons, h x List.mem_cons_self y List.mem_cons_self,
        ih hrest, compare_cons_cons]

end Lists

/-! ## Comparisons of texts -/

theorem compare_uint8 (x y : UInt8) : compare x y = compare x.toNat y.toNat := by
  show compareOfLessAndEq x y = compareOfLessAndEq x.toNat y.toNat
  simp only [compareOfLessAndEq, UInt8.lt_iff_toNat_lt, ← UInt8.toNat_inj]

theorem compare_char (c d : Char) : compare c d = compare c.toNat d.toNat := by
  have hlt : c < d ↔ c.toNat < d.toNat := UInt32.lt_iff_toNat_lt
  show compareOfLessAndEq c d = compareOfLessAndEq c.toNat d.toNat
  simp only [compareOfLessAndEq, hlt, ← Char.toNat_inj]

theorem compare_chars_lt_iff (cs ds : List Char) : compare cs ds = .lt ↔ cs < ds := by
  induction cs generalizing ds with
  | nil => cases ds <;> simp
  | cons c cs ih =>
    cases ds with
    | nil => simp
    | cons d ds =>
      have hlt : compare c d = .lt ↔ c < d := by
        rw [compare_char, Nat.compare_eq_lt]
        exact UInt32.lt_iff_toNat_lt.symm
      rw [compare_cons_cons, Ordering.then_eq_lt, List.cons_lt_cons_iff, ih, hlt,
        Std.compare_eq_iff_eq]

/-- Texts compare as their characters do. -/
theorem compare_toList (s t : String) : compare s t = compare s.toList t.toList := by
  have hlt : s < t ↔ compare s.toList t.toList = .lt := (compare_chars_lt_iff _ _).symm
  have heq : s = t ↔ compare s.toList t.toList = .eq := by
    rw [Std.compare_eq_iff_eq, String.toList_inj]
  show compareOfLessAndEq s t = _
  simp only [compareOfLessAndEq, hlt, heq]
  cases compare s.toList t.toList <;> rfl

theorem toNat_toUInt8 {c : Char} (h : c.utf8Size = 1) : c.val.toUInt8.toNat = c.toNat := by
  have hle : c.val.toNat ≤ 0x7f := UInt32.le_iff_toNat_le.1 (Char.utf8Size_eq_one_iff.1 h)
  rw [UInt32.toNat_toUInt8]
  exact Nat.mod_eq_of_lt (by omega)

theorem decides_ascii {c d : Char} (hc : c.utf8Size = 1) (hd : d.utf8Size = 1) :
    Decides String.utf8EncodeChar c d := by
  intro rest rest'
  rw [String.utf8EncodeChar_eq_singleton hc, String.utf8EncodeChar_eq_singleton hd,
    List.singleton_append, List.singleton_append, compare_cons_cons, compare_uint8,
    toNat_toUInt8 hc, toNat_toUInt8 hd, compare_char]

/-- The bytes of ASCII texts compare as the texts do. -/
theorem compare_ofText {s t : String} (hs : ∀ c ∈ s.toList, c.utf8Size = 1)
    (ht : ∀ c ∈ t.toList, c.utf8Size = 1) :
    compare (Bytes.ofText s) (Bytes.ofText t) = compare s t := by
  rw [compare_toList, Bytes.ofText_eq_flatMap, Bytes.ofText_eq_flatMap]
  exact compare_flatMap (fun c => String.utf8EncodeChar_ne_nil)
    fun c hc d hd => decides_ascii (hs c hc) (ht d hd)

/-! ## Digits and hyphens -/

theorem compare_hexDigit : ∀ {m : Nat}, m < 16 → ∀ {n : Nat}, n < 16 →
    compare (Bytes.hexDigit m) (Bytes.hexDigit n) = compare m n := by
  decide

/-- A byte compares as its two digits do, the high one first. -/
theorem compare_byte (x y : UInt8) : compare x y =
    (compare (x.toNat / 16) (y.toNat / 16)).then (compare (x.toNat % 16) (y.toNat % 16)) := by
  rw [compare_uint8]
  rcases Nat.lt_trichotomy x.toNat y.toNat with hlt | heq | hgt
  · rw [Nat.compare_eq_lt.2 hlt, eq_comm, Ordering.then_eq_lt]
    simp only [Nat.compare_eq_lt, Nat.compare_eq_eq]
    omega
  · rw [heq]
    simp only [Std.compare_self, Ordering.eq_then]
  · rw [Nat.compare_eq_gt.2 hgt, eq_comm, Ordering.then_eq_gt]
    simp only [Nat.compare_eq_gt, Nat.compare_eq_eq]
    omega

/-- Bytes compare as their digits do. -/
theorem Bytes.compare_toHexChars (a b : Bytes) :
    compare (toHexChars a) (toHexChars b) = compare a b := by
  refine compare_flatMap (fun _ => List.cons_ne_nil _ _) fun x _ y _ rest rest' => ?_
  have hx := x.toNat_lt
  have hy := y.toNat_lt
  simp only [List.cons_append, List.nil_append]
  rw [compare_cons_cons, compare_cons_cons, compare_hexDigit (by omega) (by omega),
    compare_hexDigit (by omega) (by omega), compare_byte, Ordering.then_assoc]

namespace Identifier

/-- Digits laid out over the same places compare as the digits do. -/
theorem compare_layOut {places : List Place} {digits digits' : List Char}
    (h : digits.length = room places) (h' : digits'.length = room places) :
    compare (layOut places digits) (layOut places digits') = compare digits digits' := by
  induction places generalizing digits digits' with
  | nil =>
    rw [List.length_eq_zero_iff.1 h, List.length_eq_zero_iff.1 h']
    rfl
  | cons place places ih =>
    cases place with
    | hyphen =>
      rw [layOut, layOut, compare_cons_cons, Std.compare_self, Ordering.eq_then]
      exact ih (by simpa [room] using h) (by simpa [room] using h')
    | digit =>
      cases digits with
      | nil => simp [room] at h
      | cons c digits =>
        cases digits' with
        | nil => simp [room] at h'
        | cons c' digits' =>
          rw [layOut, layOut, compare_cons_cons, compare_cons_cons,
            ih (by simpa [room] using h) (by simpa [room] using h')]

/-- Texts of identifiers compare as the identifiers do. -/
theorem compare_text (a b : Identifier) : compare a.text b.text = compare a b := by
  rw [compare_toList, text, text, String.toList_ofList, String.toList_ofList, textChars, textChars,
    compare_layOut (length_digits a) (length_digits b), Bytes.compare_toHexChars]
  rfl

/-- So do the bytes of these texts. -/
theorem compare_ofText_text (a b : Identifier) :
    compare (Bytes.ofText a.text) (Bytes.ofText b.text) = compare a b := by
  have hascii : ∀ id : Identifier, ∀ c ∈ id.text.toList, c.utf8Size = 1 := by
    intro id c hc
    rw [text, String.toList_ofList] at hc
    exact ascii_textChars hc
  rw [compare_ofText (hascii a) (hascii b), compare_text]

end Identifier

end Stockroom
