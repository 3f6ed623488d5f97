import Stockroom.Ledger.Request
import Mathlib.Algebra.Order.BigOperators.Group.List
import Mathlib.Algebra.Order.Ring.Nat

/-!
# Texts as bytes

What the bytes of a text say about its characters. A text enters stored keys and stored rows as
UTF-8, and a row says how many bytes it has in a number below `2 ^ 64`.

Results:
1. `ofText_eq_flatMap`: the bytes of a text are the bytes of its characters, one after the other.
2. `zero_mem_ofText`: the byte zero stands for the character zero and for nothing else.
3. `separator_injective`: two texts with a zero byte between them are told apart, as long as the
   second has no zero character.
4. `Sized.ofList`, `Sized.trim`: short texts and trimmed texts can be stored.
-/
namespace Stockroom

namespace Bytes

/-! ## Bytes of characters -/

theorem ofText_eq_flatMap (s : String) : ofText s = s.toList.flatMap String.utf8EncodeChar := by
  rw [ofText, ← String.utf8Encode_toList]
  simp [List.utf8Encode]

theorem length_ofText (s : String) : (ofText s).length = (s.toList.map Char.utf8Size).sum := by
  rw [ofText_eq_flatMap, List.length_flatMap]
  simp only [String.length_utf8EncodeChar]

theorem utf8ByteSize_eq (s : String) : s.utf8ByteSize = (s.toList.map Char.utf8Size).sum := by
  rw [← length_ofText, ofText, Array.length_toList]
  rfl

/-- Only the character zero has a zero byte. -/
theorem zero_mem_utf8EncodeChar {c : Char} : 0 ∈ String.utf8EncodeChar c ↔ c = '\x00' := by
  have zero : ∀ n : Nat, (0 : UInt8) = UInt8.ofNat n ↔ n % 256 = 0 := fun n => by
    rw [← UInt8.toNat_inj]
    simp [eq_comm]
  have hc : c = '\x00' ↔ c.val.toNat = 0 := by
    rw [Char.ext_iff, ← UInt32.toNat_inj]
    rfl
  rw [hc]
  unfold String.utf8EncodeChar
  dsimp only
  split
  · simp only [List.mem_singleton, zero]
    omega
  · split
    · simp only [List.mem_cons, List.not_mem_nil, or_false, zero]
      omega
    · split
      · simp only [List.mem_cons, List.not_mem_nil, or_false, zero]
        omega
      · simp only [List.mem_cons, List.not_mem_nil, or_false, zero]
        omega

/-- The byte zero stands for the character zero and for nothing else. -/
theorem zero_mem_ofText {s : String} : 0 ∈ ofText s ↔ '\x00' ∈ s.toList := by
  rw [ofText_eq_flatMap, List.mem_flatMap]
  constructor
  · rintro ⟨c, hc, h⟩
    exact zero_mem_utf8EncodeChar.1 h ▸ hc
  · intro h
    exact ⟨_, h, zero_mem_utf8EncodeChar.2 rfl⟩

/-! ## Pairs of texts -/

/-- Bytes after the last zero are told apart from the bytes before it. -/
theorem append_zero_injective {a b c d : Bytes} (hb : 0 ∉ b) (hd : 0 ∉ d)
    (h : a ++ 0 :: b = c ++ 0 :: d) : a = c ∧ b = d := by
  rcases List.append_eq_append_iff.1 h with ⟨m, hc, hm⟩ | ⟨m, ha, hm⟩
  · cases m with
    | nil => exact ⟨by simpa using hc.symm, by simpa using hm⟩
    | cons x m =>
      rw [List.cons_append, List.cons.injEq] at hm
      exact absurd (hm.2 ▸ List.mem_append_right m List.mem_cons_self) hb
  · cases m with
    | nil => exact ⟨by simpa using ha, by simpa using hm.symm⟩
    | cons x m =>
      rw [List.cons_append, List.cons.injEq] at hm
      exact absurd (hm.2 ▸ List.mem_append_right m List.mem_cons_self) hd

/-- Two texts with a zero byte between them are told apart, as long as the second has no zero
character. The first may have any. -/
theorem separator_injective {s t s' t' : String} (ht : '\x00' ∉ t.toList)
    (ht' : '\x00' ∉ t'.toList) (h : ofText s ++ 0 :: ofText t = ofText s' ++ 0 :: ofText t') :
    s = s' ∧ t = t' := by
  obtain ⟨hs, ht⟩ :=
    append_zero_injective (mt zero_mem_ofText.1 ht) (mt zero_mem_ofText.1 ht') h
  exact ⟨ofText_injective hs, ofText_injective ht⟩

end Bytes

/-! ## Texts that can be stored -/

/-- A text whose bytes can be counted in 64 bits. Every text that fits a memory is one. -/
def Sized (s : String) : Prop := (Bytes.ofText s).length < 2 ^ 64

theorem utf8Size_sum_le (cs : List Char) : (cs.map Char.utf8Size).sum ≤ 4 * cs.length := by
  induction cs with
  | nil => simp
  | cons c cs ih =>
    have := c.utf8Size_le_four
    simp only [List.map_cons, List.sum_cons, List.length_cons]
    omega

/-- A text of less than `2 ^ 62` characters can be stored. -/
theorem Sized.ofList {cs : List Char} (h : cs.length < 2 ^ 62) : Sized (String.ofList cs) := by
  have := utf8Size_sum_le cs
  rw [Sized, Bytes.length_ofText, String.toList_ofList]
  omega

theorem trimEnd_sublist (cs : List Char) : (Text.trimEnd cs).Sublist cs := by
  induction cs with
  | nil => exact List.Sublist.refl _
  | cons c cs ih =>
    rw [Text.trimEnd_cons]
    split
    · exact List.nil_sublist _
    · exact ih.cons_cons c

/-- Trimming takes characters away and adds none. -/
theorem Sized.trim {s : String} (h : Sized s) : Sized (Text.trim s) := by
  have hsub : (Text.trimChars s.toList).Sublist s.toList :=
    (trimEnd_sublist _).trans (List.dropWhile_sublist _)
  have hsum := (hsub.map Char.utf8Size).sum_le_sum fun _ _ => Nat.zero_le _
  rw [Sized, Bytes.length_ofText] at h ⊢
  rw [Text.trim, String.toList_ofList]
  omega

end Stockroom
