import Stockroom.Power

/-!
# Bytes

Stored keys and stored rows are lists of bytes, ordered by their first difference. Numbers enter
them big-endian, so fixed-width keys sort as the numbers do; texts enter them as UTF-8.

Main statements: numbers, hexadecimal texts and texts are read back from what is written
(`ofBigEndian_toBigEndian`, `ofHexChars?_toHexChars`, `toText?_ofText`), and digits of one width
sort as the numbers do (`toBigEndian_lt_iff`).
-/
namespace Stockroom

/-- A row or a key as it is stored. -/
abbrev Bytes := List UInt8

namespace Bytes

/-! ## Numbers -/

/-- The last `width` base-256 digits of a number, highest first. -/
def toBigEndian : (width : Nat) → Nat → Bytes
  | 0, _ => []
  | width + 1, n => UInt8.ofNat (n / 256 ^ width) :: toBigEndian width n

/-- The number that bytes denote, highest digit first. -/
def ofBigEndian (bytes : Bytes) : Nat :=
  bytes.foldl (fun n b => n * 256 + b.toNat) 0

@[simp] theorem length_toBigEndian (width n : Nat) : (toBigEndian width n).length = width := by
  induction width with
  | zero => rfl
  | succ width ih => simp [toBigEndian, ih]

theorem foldl_toBigEndian (width n start : Nat) :
    (toBigEndian width n).foldl (fun n b => n * 256 + b.toNat) start =
      start * 256 ^ width + n % 256 ^ width := by
  induction width generalizing start with
  | zero => simp [toBigEndian, Nat.mod_one]
  | succ width ih =>
    have hn : n % 256 ^ (width + 1) = _ := Nat.mod_pow_succ
    have hb : (UInt8.ofNat (n / 256 ^ width)).toNat = n / 256 ^ width % 256 := UInt8.toNat_ofNat'
    rw [toBigEndian, List.foldl_cons, ih, hn, hb, Nat.add_mul, Nat.pow_succ', Nat.mul_assoc,
      Nat.add_assoc, Nat.mul_comm (_ % 256), Nat.add_comm (n % 256 ^ width)]

/-- A number that fits is read back from its digits. -/
theorem ofBigEndian_toBigEndian {width n : Nat} (h : n < 256 ^ width) :
    ofBigEndian (toBigEndian width n) = n := by
  rw [ofBigEndian, foldl_toBigEndian, Nat.zero_mul, Nat.zero_add, Nat.mod_eq_of_lt h]

theorem toBigEndian_lt_iff_mod (width m n : Nat) :
    toBigEndian width m < toBigEndian width n ↔ m % 256 ^ width < n % 256 ^ width := by
  induction width with
  | zero => simp [toBigEndian, Nat.mod_one]
  | succ width ih =>
    have split (k : Nat) : k % 256 ^ (width + 1) = _ := Nat.mod_pow_succ
    have byte (k : Nat) : (UInt8.ofNat k).toNat = k % 256 := UInt8.toNat_ofNat'
    have hm := Nat.mod_lt m (Nat.pow_pos (n := width) (by decide : 0 < 256))
    have hn := Nat.mod_lt n (Nat.pow_pos (n := width) (by decide : 0 < 256))
    rw [toBigEndian, toBigEndian, List.cons_lt_cons_iff, ih, UInt8.lt_iff_toNat_lt,
      ← UInt8.toNat_inj, byte, byte, split, split]
    constructor
    · rintro (h | ⟨h, h'⟩)
      · have := Nat.mul_le_mul_left (256 ^ width) (Nat.succ_le_of_lt h)
        rw [Nat.mul_succ] at this
        omega
      · rw [h]
        omega
    · intro h
      rcases Nat.lt_trichotomy (m / 256 ^ width % 256) (n / 256 ^ width % 256) with hd | hd | hd
      · exact .inl hd
      · exact .inr ⟨hd, by rw [hd] at h; omega⟩
      · have := Nat.mul_le_mul_left (256 ^ width) (Nat.succ_le_of_lt hd)
        rw [Nat.mul_succ] at this
        omega

/-- Digits of one width sort as the numbers do. -/
theorem toBigEndian_lt_iff {width m n : Nat} (hm : m < 256 ^ width) (hn : n < 256 ^ width) :
    toBigEndian width m < toBigEndian width n ↔ m < n := by
  rw [toBigEndian_lt_iff_mod, Nat.mod_eq_of_lt hm, Nat.mod_eq_of_lt hn]

/-! ## Hexadecimal text -/

/-- The small hexadecimal digit of a number below 16. -/
def hexDigit (n : Nat) : Char := Nat.digitChar n

/-- The value of a hexadecimal digit of either case. -/
def hexValue? (c : Char) : Option Nat :=
  if '0' ≤ c ∧ c ≤ '9' then some (c.toNat - '0'.toNat)
  else if 'a' ≤ c ∧ c ≤ 'f' then some (c.toNat - 'a'.toNat + 10)
  else if 'A' ≤ c ∧ c ≤ 'F' then some (c.toNat - 'A'.toNat + 10)
  else none

/-- Two digits for each byte. -/
def toHexChars (bytes : Bytes) : List Char :=
  bytes.flatMap fun b => [hexDigit (b.toNat / 16), hexDigit (b.toNat % 16)]

/-- Two digits for each byte. -/
def toHex (bytes : Bytes) : String :=
  String.ofList (toHexChars bytes)

/-- Bytes from pairs of hexadecimal digits, if there is nothing else. -/
def ofHexChars? : List Char → Option Bytes
  | [] => some []
  | [_] => none
  | high :: low :: rest => do
    let h ← hexValue? high
    let l ← hexValue? low
    let bytes ← ofHexChars? rest
    return UInt8.ofNat (h * 16 + l) :: bytes

theorem hexValue?_hexDigit : ∀ {n : Nat}, n < 16 → hexValue? (hexDigit n) = some n := by
  decide

/-- Bytes are read back from their hexadecimal text. -/
@[simp] theorem ofHexChars?_toHexChars (bytes : Bytes) :
    ofHexChars? (toHexChars bytes) = some bytes := by
  induction bytes with
  | nil => rfl
  | cons b bytes ih =>
    have hb := b.toNat_lt
    have hhigh := hexValue?_hexDigit (n := b.toNat / 16) (by omega)
    have hlow := hexValue?_hexDigit (n := b.toNat % 16) (by omega)
    have hsum : b.toNat / 16 * 16 + b.toNat % 16 = b.toNat := by omega
    change ofHexChars? (hexDigit (b.toNat / 16) :: hexDigit (b.toNat % 16) :: toHexChars bytes) = _
    simp only [ofHexChars?, hhigh, hlow, ih, Option.bind_eq_bind, Option.bind_some, hsum,
      UInt8.ofNat_toNat]
    rfl

/-! ## Texts -/

/-- The bytes of a text. -/
def ofText (s : String) : Bytes :=
  s.toByteArray.data.toList

/-- The text with these bytes, if they are UTF-8. -/
def toText? (bytes : Bytes) : Option String :=
  String.fromUTF8? ⟨bytes.toArray⟩

@[simp] theorem toText?_ofText (s : String) : toText? (ofText s) = some s := by
  have h : (⟨(ofText s).toArray⟩ : ByteArray) = s.toByteArray := by simp [ofText]
  rw [toText?, h, String.fromUTF8?]
  simp [s.isValidUTF8, String.fromUTF8]

/-- Distinct texts have distinct bytes. -/
theorem ofText_injective {s t : String} (h : ofText s = ofText t) : s = t := by
  have := congrArg toText? h
  simpa using this

example : toBigEndian 4 0x01020304 = [1, 2, 3, 4] := by decide
example : ofBigEndian [1, 2, 3, 4] = 0x01020304 := by decide
example : toHexChars [0, 0x7f, 0xff] = ['0', '0', '7', 'f', 'f', 'f'] := by decide

end Bytes

end Stockroom
