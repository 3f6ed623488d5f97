import Stockroom.Proofs.IdentifierText
import Stockroom.Proofs.SameRequest

/-!
# The four forms of an identifier

An identifier is read from four forms. In small letters each of them is one text, so a text that is
read is one of four, and two texts of one identifier differ exactly when their forms do.

Results:
1. `toHexChars_of_ofHexChars?`: small digits are those that the bytes are written in.
2. `layOut_of_readAt`: what is read over places is laid out over them.
3. `exists_form`: a small-lettered text that is read is written in one of the four forms.
-/
namespace Stockroom

/-! ## Letter case -/

theorem toLower_toLower (c : Char) : c.toLower.toLower = c.toLower := by
  by_cases h : c.val ≥ 'A'.val ∧ c.val ≤ 'Z'.val
  · have hcapitals : ∀ n ≤ 90, (Char.ofNat n).toLower.toLower = (Char.ofNat n).toLower := by decide
    rw [← Char.ofNat_toNat c]
    exact hcapitals c.toNat (UInt32.le_iff_toNat_le.1 h.2)
  · exact congrArg Char.toLower (dif_neg h)

theorem toLower_of_mem_lowerAscii {s : String} {c : Char} (h : c ∈ (Text.lowerAscii s).toList) :
    c.toLower = c := by
  rw [Text.lowerAscii, String.toList_ofList] at h
  obtain ⟨c', -, rfl⟩ := List.mem_map.1 h
  exact toLower_toLower c'

/-! ## Small digits -/

theorem Bytes.hexDigit_of_hexValue? {c : Char} {value : Nat} (h : hexValue? c = some value)
    (hsmall : c.toLower = c) : value < 16 ∧ c = hexDigit value := by
  -- digits are ASCII, so there are few characters to look at
  have hfew : ∀ n < 103, (Char.ofNat n).toLower = Char.ofNat n →
      ∀ v ∈ hexValue? (Char.ofNat n), v < 16 ∧ Char.ofNat n = hexDigit v := by
    decide +kernel
  have hascii : c.toNat < 103 := by
    unfold hexValue? at h
    split at h
    · next hdigit => exact Nat.lt_of_le_of_lt (UInt32.le_iff_toNat_le.1 hdigit.2) (by decide)
    · split at h
      · next hletter => exact Nat.lt_of_le_of_lt (UInt32.le_iff_toNat_le.1 hletter.2) (by decide)
      · split at h
        · next hcapital =>
          exact Nat.lt_of_le_of_lt (UInt32.le_iff_toNat_le.1 hcapital.2) (by decide)
        · cases h
  rw [← Char.ofNat_toNat c] at h hsmall ⊢
  exact hfew c.toNat hascii hsmall value h

/-- Small digits are those that the bytes are written in. -/
theorem Bytes.toHexChars_of_ofHexChars? {cs : List Char} {bytes : Bytes}
    (h : ofHexChars? cs = some bytes) (hsmall : ∀ c ∈ cs, c.toLower = c) :
    cs = toHexChars bytes := by
  induction cs using ofHexChars?.induct generalizing bytes with
  | case1 =>
    cases h
    rfl
  | case2 c => cases h
  | case3 high low rest ih =>
    obtain ⟨hhigh, hlow, hrest⟩ : high.toLower = high ∧ low.toLower = low ∧
        ∀ c ∈ rest, c.toLower = c := by
      simpa only [List.forall_mem_cons] using hsmall
    obtain ⟨x, hx, h⟩ := Option.bind_eq_some_iff.1 h
    obtain ⟨y, hy, h⟩ := Option.bind_eq_some_iff.1 h
    obtain ⟨bytes', hbytes, h⟩ := Option.bind_eq_some_iff.1 h
    cases h
    obtain ⟨hx16, rfl⟩ := hexDigit_of_hexValue? hx hhigh
    obtain ⟨hy16, rfl⟩ := hexDigit_of_hexValue? hy hlow
    have hbyte : (UInt8.ofNat (x * 16 + y)).toNat = x * 16 + y :=
      UInt8.toNat_ofNat_of_lt (Nat.lt_of_lt_of_le (by omega) (Nat.le_refl 256))
    rw [toHexChars, List.flatMap_cons, hbyte, ← toHexChars, ← ih hbytes hrest]
    have hquotient : (x * 16 + y) / 16 = x := by omega
    have hremainder : (x * 16 + y) % 16 = y := by omega
    rw [hquotient, hremainder]
    rfl

theorem length_le_utf8Size_sum (cs : List Char) : cs.length ≤ (cs.map Char.utf8Size).sum := by
  induction cs with
  | nil => exact Nat.le_refl 0
  | cons c cs ih =>
    have := c.utf8Size_pos
    simp only [List.map_cons, List.sum_cons, List.length_cons]
    omega

namespace Identifier

/-! ## Places -/

/-- The digits found at places, laid out over them, are what the text starts with. -/
theorem digitsAt_ok {places : List Place} {cs digits : List Char}
    (h : digitsAt places cs = .ok digits) :
    digits.Sublist cs ∧ digits.length = room places ∧ ∃ rest, cs = layOut places digits ++ rest := by
  induction places generalizing cs digits with
  | nil =>
    cases h
    exact ⟨List.nil_sublist _, rfl, cs, rfl⟩
  | cons place places ih =>
    cases cs with
    | nil => cases h
    | cons c cs =>
      cases place with
      | hyphen =>
        rw [digitsAt] at h
        split at h
        · next hc =>
          obtain ⟨hsub, hlength, rest, hrest⟩ := ih h
          refine ⟨hsub.cons c, by simpa [room] using hlength, rest, ?_⟩
          rw [hc, hrest, layOut]
          rfl
        · cases h
      | digit =>
        rw [digitsAt] at h
        split at h
        · cases hmore : digitsAt places cs with
          | error e =>
            rw [hmore] at h
            cases h
          | ok digits' =>
            rw [hmore] at h
            cases h
            obtain ⟨hsub, hlength, rest, hrest⟩ := ih hmore
            refine ⟨hsub.cons_cons c, by simpa [room] using hlength, rest, ?_⟩
            rw [layOut, List.cons_append, ← hrest]
        · cases h

/-- What is read over places, in small letters and with nothing behind it, is the identifier laid
out over them. -/
theorem layOut_of_readAt {places : List Place} {cs : List Char} {id : Identifier}
    (h : readAt places cs = .ok id) (hsmall : ∀ c ∈ cs, c.toLower = c)
    (hsize : (cs.map Char.utf8Size).sum = places.length) :
    cs = layOut places (Bytes.toHexChars id.bytes) := by
  cases hdigits : digitsAt places cs with
  | error e =>
    rw [readAt, hdigits] at h
    cases h
  | ok digits =>
    obtain ⟨hsub, hlength, rest, hrest⟩ := digitsAt_ok hdigits
    -- the places take up all the bytes there are
    have hnothing : rest = [] := by
      have hle := length_le_utf8Size_sum cs
      rw [hsize, hrest, List.length_append, length_layOut hlength] at hle
      exact List.length_eq_zero_iff.1 (by omega)
    rw [hnothing, List.append_nil] at hrest
    rw [readAt, hdigits] at h
    cases hbytes : (Bytes.ofHexChars? digits).bind ofBytes? with
    | none =>
      simp only [bind, Except.bind, hbytes] at h
      cases h
    | some id' =>
      simp only [bind, Except.bind, hbytes] at h
      cases h
      obtain ⟨bytes, hdecoded, hid⟩ := Option.bind_eq_some_iff.1 hbytes
      have hsame : bytes = id.bytes := by
        unfold ofBytes? at hid
        split at hid
        · cases hid
          rfl
        · cases hid
      rw [← hsame,
        ← Bytes.toHexChars_of_ofHexChars? hdecoded fun c hc => hsmall c (hsub.subset hc)]
      exact hrest

/-! ## Forms -/

/-- The ways to write an identifier. -/
inductive Form
  | digits
  | hyphenated
  | braced
  | urn
  deriving DecidableEq

/-- An identifier in a form, in small letters. -/
def Form.chars (id : Identifier) : Form → List Char
  | digits => layOut plainPlaces (Bytes.toHexChars id.bytes)
  | hyphenated => id.textChars
  | braced => '\x7b' :: (id.textChars ++ ['\x7d'])
  | urn => urnLead ++ id.textChars

theorem textChars_of_readAt {cs : List Char} {id : Identifier}
    (h : readAt hyphenatedPlaces cs = .ok id) (hsmall : ∀ c ∈ cs, c.toLower = c)
    (hsize : (cs.map Char.utf8Size).sum = 36) : cs = id.textChars :=
  layOut_of_readAt h hsmall hsize

theorem unwrapped?_ok {opening closing : Char} {cs inner : List Char}
    (h : unwrapped? opening closing cs = some inner) :
    cs = opening :: (inner ++ [closing]) := by
  cases cs with
  | nil => cases h
  | cons c cs =>
    rw [unwrapped?] at h
    split at h
    · next henclosed =>
      obtain ⟨rfl, hlast⟩ := henclosed
      cases h
      rw [List.dropLast_append_getLast? closing hlast]
    · cases h

/-- A small-lettered text that is read is written in one of the four forms. -/
theorem exists_form {s : String} {id : Identifier} (h : read s = .ok id)
    (hsmall : ∀ c ∈ s.toList, c.toLower = c) : ∃ form : Form, s.toList = form.chars id := by
  have hsize := Bytes.utf8ByteSize_eq s
  unfold read at h
  dsimp only at h
  generalize s.toList = cs at h hsmall hsize ⊢
  split at h
  case h_1 hform => exact ⟨.digits, layOut_of_readAt h hsmall (hsize.symm.trans hform)⟩
  case h_2 hform => exact ⟨.hyphenated, textChars_of_readAt h hsmall (hsize.symm.trans hform)⟩
  case h_3 hform =>
    split at h
    · next inner hinner =>
      obtain rfl := unwrapped?_ok hinner
      refine ⟨.braced, ?_⟩
      have hinnerSize : (inner.map Char.utf8Size).sum = 36 := by
        have hbraces : Char.utf8Size '\x7b' = 1 ∧ Char.utf8Size '\x7d' = 1 := by decide
        rw [hform] at hsize
        simp only [List.map_cons, List.map_append, List.map_nil, List.sum_cons, List.sum_append,
          List.sum_nil, hbraces] at hsize
        omega
      rw [Form.chars, ← textChars_of_readAt h (fun c hc => hsmall c ?_) hinnerSize]
      exact List.mem_cons_of_mem _ (List.mem_append_left _ hc)
    · cases h
  case h_4 hform =>
    split at h
    · next hlead =>
      have hsmallLead : (cs.take 9).map Char.toLower = cs.take 9 :=
        (List.map_congr_left fun c hc => hsmall c (List.mem_of_mem_take hc)).trans
          (List.map_id _)
      rw [hsmallLead] at hlead
      refine ⟨.urn, ?_⟩
      have hrestSize : ((cs.drop 9).map Char.utf8Size).sum = 36 := by
        have hleadSize : (urnLead.map Char.utf8Size).sum = 9 := by decide
        rw [hform, ← List.take_append_drop 9 cs, hlead, List.map_append, List.sum_append,
          hleadSize] at hsize
        omega
      rw [Form.chars,
        ← textChars_of_readAt h (fun c hc => hsmall c (List.mem_of_mem_drop hc)) hrestSize,
        ← hlead, List.take_append_drop]
    · cases h
  case h_5 => cases h

end Identifier

end Stockroom
