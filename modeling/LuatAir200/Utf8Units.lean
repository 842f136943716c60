import LuatAir200.IconvResume

/-!
# UTF-8 of code units

The encoder writes the UTF-8 of every unit. The decoder reads it back, but for the units whose
second byte of two is 0xA0 or more: its mask for that byte takes one bit too many.
-/
namespace LuatAir200.Iconv
open Conversion

/-- The UTF-8 encoding of a unit. -/
def utf8 (u : UInt16) : List UInt8 :=
  if u.toNat < 0x80 then [u.toNat.toUInt8]
  else if u.toNat < 0x800 then [(0xC0 + u.toNat / 64).toUInt8, (0x80 + u.toNat % 64).toUInt8]
  else [(0xE0 + u.toNat / 4096).toUInt8, (0x80 + u.toNat / 64 % 64).toUInt8,
    (0x80 + u.toNat % 64).toUInt8]

/-- The units in a byte order. -/
def ucs2 (endian : Bool) (us : List UInt16) : List UInt8 := us.flatMap (ucs2Bytes endian)

/-- The unit has three bytes, one, or two of which the second is below 0xA0. -/
def Low (u : UInt16) : Prop := u.toNat < 0x80 ∨ 0x800 ≤ u.toNat ∨ u.toNat % 64 < 32

instance (u : UInt16) : Decidable (Low u) := inferInstanceAs (Decidable (_ ∨ _ ∨ _))

/-! ## The encoder -/

theorem lead_two : ∀ x : Fin 32, ((x.val ||| 0xE0) &&& 0xDF).toUInt8 = (0xC0 + x.val).toUInt8 := by
  decide

theorem lead_three : ∀ x : Fin 16,
    (((x.val &&& 0xFF) ||| 0xF0) &&& 0xEF).toUInt8 = (0xE0 + x.val).toUInt8 := by
  decide

theorem trail (v : ℕ) : (((v &&& 0xFF) ||| 0xC0) &&& 0xBF).toUInt8 = (0x80 + v % 64).toUInt8 := by
  have hbyte : ∀ x : Fin 256, ((x.val ||| 0xC0) &&& 0xBF).toUInt8 = (0x80 + x.val % 64).toUInt8 := by
    decide +kernel
  have hmod : v % 256 % 64 = v % 64 := by omega
  have h255 : (0xFF : ℕ) = 2 ^ 8 - 1 := rfl
  rw [h255, Nat.and_two_pow_sub_one_eq_mod, ← hmod]
  exact hbyte ⟨v % 256, Nat.mod_lt _ (by decide)⟩

theorem utf8Bytes_eq (u : UInt16) : utf8Bytes u.toNat = utf8 u := by
  have hu := u.toNat_lt
  unfold utf8Bytes utf8Size utf8
  rw [trail]
  by_cases h1 : u.toNat < 0x80
  · have hle : u.toNat ≤ 0x7F := by omega
    simp [h1, hle]
  · have hgt : ¬u.toNat ≤ 0x7F := by omega
    by_cases h2 : u.toNat < 0x800
    · have hle : u.toNat ≤ 0x07FF := by omega
      have hlead := lead_two ⟨u.toNat / 64, by omega⟩
      simp only [h1, hgt, h2, hle, if_true, if_false, Nat.shiftRight_eq_div_pow]
      rw [← hlead]
    · have hgt2 : ¬u.toNat ≤ 0x07FF := by omega
      have hlead := lead_three ⟨u.toNat / 4096, by omega⟩
      simp only [h1, hgt, h2, hgt2, if_false, Nat.shiftRight_eq_div_pow]
      rw [trail, ← hlead]

theorem utf8_length (u : UInt16) : (utf8 u).length = utf8Size u.toNat := by
  rw [← utf8Bytes_eq, utf8Bytes_length]

/-- The two bytes of a unit. -/
theorem unit_bytes (u : UInt16) : (u >>> 8).toUInt8.toNat * 256 + u.toUInt8.toNat = u.toNat := by
  have hu := u.toNat_lt
  have h8 : (8 : UInt16).toNat % 16 = 8 := rfl
  simp only [UInt16.toNat_toUInt8, UInt16.toNat_shiftRight, h8, Nat.shiftRight_eq_div_pow]
  omega

theorem unicodeVal_unit {src s : List UInt8} {endian : Bool} {iPos : ℕ} {u : UInt16}
    (h : src.drop iPos = ucs2Bytes endian u ++ s) : unicodeVal src endian iPos = u.toNat := by
  have h0 : byte src iPos = byte (ucs2Bytes endian u ++ s) 0 := by rw [← h, byte_drop, Nat.add_zero]
  have h1 : byte src (iPos + 1) = byte (ucs2Bytes endian u ++ s) 1 := by rw [← h, byte_drop]
  rw [unicodeVal, h0, h1]
  cases endian with
  | true => exact unit_bytes u
  | false => exact unit_bytes u

theorem ucs2_cons (endian : Bool) (u : UInt16) (us : List UInt16) :
    ucs2 endian (u :: us) = ucs2Bytes endian u ++ ucs2 endian us := List.flatMap_cons

/-- The loop writes the encoding of each unit that is left. -/
theorem unicodeLoop_units {src rest : List UInt8} {endian : Bool} {us : List UInt16}
    {maxOLen rounds iPos oPos : ℕ} (h : src.drop iPos = ucs2 endian us ++ rest)
    (hr : us.length ≤ rounds) (hroom : oPos + (us.flatMap utf8).length ≤ maxOLen) :
    unicodeLoop src endian (iPos + 2 * us.length) maxOLen rounds iPos oPos =
      (.ok, iPos + 2 * us.length, us.flatMap utf8) := by
  induction us generalizing rounds iPos oPos with
  | nil => cases rounds <;> simp [unicodeLoop]
  | cons u us ih =>
      obtain ⟨rounds, rfl⟩ : ∃ n, rounds = n + 1 := ⟨rounds - 1, by simp at hr; omega⟩
      rw [List.flatMap_cons, List.length_append] at hroom
      rw [ucs2_cons, List.append_assoc] at h
      have hval := unicodeVal_unit h
      have hnext : src.drop (iPos + 2) = ucs2 endian us ++ rest := by
        rw [← List.drop_drop, h, ← ucs2Bytes_length endian u, List.drop_left]
      have hmore : iPos + 1 < iPos + 2 * (u :: us).length := by simp; omega
      have hfit : ¬maxOLen < oPos + utf8Size u.toNat := by
        rw [← utf8_length]
        omega
      have hend : iPos + 2 * (u :: us).length = iPos + 2 + 2 * us.length := by
        rw [List.length_cons]
        omega
      have hrest := @ih rounds _ (oPos + (utf8 u).length) hnext (by simpa using hr) (by omega)
      rw [unicodeLoop, if_pos hmore, hval, if_neg hfit, utf8Bytes_eq, hend, hrest]
      rfl

theorem encode_units (endian : Bool) (us : List UInt16) (rest : List UInt8) {room : ℕ}
    (hroom : (us.flatMap utf8).length ≤ room) :
    (enc_unicode_to_utf8 endian (ucs2 endian us ++ rest) (2 * us.length) room).ret = .ok ∧
      (enc_unicode_to_utf8 endian (ucs2 endian us ++ rest) (2 * us.length) room).out =
        us.flatMap utf8 := by
  have hfit : 0 + (us.flatMap utf8).length ≤ room := by omega
  have hrounds : us.length ≤ 2 * us.length := by omega
  have hloop := unicodeLoop_units (List.drop_zero (l := ucs2 endian us ++ rest)) hrounds hfit
  rw [Nat.zero_add] at hloop
  simp [enc_unicode_to_utf8, hloop]

/-! ## The decoder -/

theorem toUInt8_add (m n : ℕ) : (m + n).toUInt8 = m.toUInt8 + n.toUInt8 := UInt8.ofNat_add m n

theorem lead_size : ∀ x : Fin 32, enc_get_utf8_size (0xC0 + x.val).toUInt8 = 2 := by decide

theorem lead_size_three : ∀ x : Fin 16, enc_get_utf8_size (0xE0 + x.val).toUInt8 = 3 := by decide

theorem lead_bits : ∀ x : Fin 32, ((0xC0 + x.val).toUInt8 >>> 2) &&& 0x07 = (x.val / 4).toUInt8 ∧
    (0xC0 + x.val).toUInt8 <<< 6 = (x.val % 4 * 64).toUInt8 := by decide

theorem lead_bits_three : ∀ x : Fin 16, (0xE0 + x.val).toUInt8 <<< 4 = (x.val * 16).toUInt8 := by
  decide

/-- The bits of a continuation byte, and what the two masks make of it. -/
theorem trail_bits : ∀ y : Fin 64,
    (0x80 + y.val).toUInt8 &&& 0x3F = y.val.toUInt8 ∧
    ((0x80 + y.val).toUInt8 >>> 2) &&& 0x0F = (y.val / 4).toUInt8 ∧
    (0x80 + y.val).toUInt8 <<< 6 = (y.val % 4 * 64).toUInt8 ∧
    (0x80 + y.val).toUInt8 &&& 0xC0 = 0x80 ∧
    ((0x80 + y.val).toUInt8 &&& 0xE0 = 0x80 ↔ y.val < 32) := by decide

theorem unit_high (u : UInt16) : (u >>> 8).toUInt8 = (u.toNat / 256).toUInt8 := by
  have hu := u.toNat_lt
  have h8 : (8 : UInt16).toNat % 16 = 8 := rfl
  apply UInt8.toNat_inj.mp
  simp only [UInt16.toNat_toUInt8, UInt16.toNat_shiftRight, h8, Nat.shiftRight_eq_div_pow,
    Nat.toUInt8, UInt8.toNat_ofNat']

theorem unit_low (u : UInt16) : u.toUInt8 = (u.toNat % 256).toUInt8 := by
  apply UInt8.toNat_inj.mp
  simp only [UInt16.toNat_toUInt8, Nat.toUInt8, UInt8.toNat_ofNat']
  omega

theorem utfbytes_eq {b : UInt8} {n : ℕ} (h : enc_get_utf8_size b = n) (hn : n ≠ 0) :
    utfbytes b = n := by
  rw [utfbytes, h, if_neg hn]

/-! Each branch of the decoder. -/

section

variable (endian : Bool) {mem : List UInt8}

theorem decode_one (h : enc_get_utf8_size (byte mem 0) = 1) :
    enc_utf8_to_unicode_one mem endian = some (pair endian 0 (byte mem 0)) := by
  simp only [enc_utf8_to_unicode_one, h]

theorem decode_two (h : enc_get_utf8_size (byte mem 0) = 2) :
    enc_utf8_to_unicode_one mem endian =
      if byte mem 1 &&& 0xE0 = 0x80 then
        some (pair endian ((byte mem 0 >>> 2) &&& 0x07) ((byte mem 0 <<< 6) + (byte mem 1 &&& 0x3F)))
      else none := by
  simp only [enc_utf8_to_unicode_one, h, ne_eq, ite_not]

theorem decode_three (h : enc_get_utf8_size (byte mem 0) = 3) :
    enc_utf8_to_unicode_one mem endian =
      if byte mem 1 &&& 0xC0 = 0x80 ∧ byte mem 2 &&& 0xC0 = 0x80 then
        some (pair endian ((byte mem 0 <<< 4) + ((byte mem 1 >>> 2) &&& 0x0F))
          ((byte mem 1 <<< 6) + (byte mem 2 &&& 0x3F)))
      else none := by
  simp only [enc_utf8_to_unicode_one, h, ne_eq, ← not_and_or, ite_not]

end

/-- The decoder on the encoding of a unit. -/
theorem decode_unit (endian : Bool) (u : UInt16) (rest : List UInt8) :
    enc_utf8_to_unicode_one (utf8 u ++ rest) endian =
        (if Low u then some (ucs2Bytes endian u) else none) ∧
      utfbytes (byte (utf8 u ++ rest) 0) = (utf8 u).length := by
  have hu := u.toNat_lt
  rw [ucs2Bytes, unit_high, unit_low]
  by_cases h1 : u.toNat < 0x80
  · have hutf8 : utf8 u = [u.toNat.toUInt8] := if_pos h1
    have hlow : Low u := .inl h1
    have hlead : u.toNat.toUInt8 &&& 0x80 = 0 := by
      have hall : ∀ x : Fin 128, x.val.toUInt8 &&& 0x80 = 0 := by decide
      exact hall ⟨u.toNat, h1⟩
    have hsize := ((lead u.toNat.toUInt8).1 hlead).1
    have hhigh : u.toNat / 256 = 0 := by omega
    have hmod : u.toNat % 256 = u.toNat := by omega
    have hfirst : byte (utf8 u ++ rest) 0 = u.toNat.toUInt8 := by rw [hutf8]; rfl
    rw [← hfirst] at hsize
    rw [decode_one endian hsize, if_pos hlow, hhigh, hmod, hfirst]
    exact ⟨rfl, by rw [← hfirst, utfbytes_eq hsize (by decide), hutf8]; rfl⟩
  · by_cases h2 : u.toNat < 0x800
    · have hutf8 : utf8 u = [(0xC0 + u.toNat / 64).toUInt8, (0x80 + u.toNat % 64).toUInt8] := by
        rw [utf8, if_neg h1, if_pos h2]
      have hlow : Low u ↔ u.toNat % 64 < 32 := by
        unfold Low
        omega
      have hsize := lead_size ⟨u.toNat / 64, by omega⟩
      obtain ⟨h07, h6⟩ := lead_bits ⟨u.toNat / 64, by omega⟩
      obtain ⟨h3F, -, -, -, hE0⟩ := trail_bits ⟨u.toNat % 64, by omega⟩
      have hhigh : u.toNat / 64 / 4 = u.toNat / 256 := by omega
      have hmod : u.toNat / 64 % 4 * 64 + u.toNat % 64 = u.toNat % 256 := by omega
      have hfirst : byte (utf8 u ++ rest) 0 = (0xC0 + u.toNat / 64).toUInt8 := by rw [hutf8]; rfl
      have hsecond : byte (utf8 u ++ rest) 1 = (0x80 + u.toNat % 64).toUInt8 := by rw [hutf8]; rfl
      rw [← hlow, ← hsecond] at hE0
      rw [← hfirst] at hsize h07 h6
      rw [← hsecond] at h3F
      rw [decode_two endian hsize, h07, h6, h3F, ← toUInt8_add, hhigh, hmod]
      simp only [hE0]
      exact ⟨trivial, by rw [utfbytes_eq hsize (by decide), hutf8]; rfl⟩
    · have hutf8 : utf8 u = [(0xE0 + u.toNat / 4096).toUInt8, (0x80 + u.toNat / 64 % 64).toUInt8,
          (0x80 + u.toNat % 64).toUInt8] := by
        rw [utf8, if_neg h1, if_neg h2]
      have hlow : Low u := .inr (.inl (by omega))
      have hsize := lead_size_three ⟨u.toNat / 4096, by omega⟩
      have h4 := lead_bits_three ⟨u.toNat / 4096, by omega⟩
      obtain ⟨-, h0F, h6, hC0, -⟩ := trail_bits ⟨u.toNat / 64 % 64, by omega⟩
      obtain ⟨h3F, -, -, hC0', -⟩ := trail_bits ⟨u.toNat % 64, by omega⟩
      have hhigh : u.toNat / 4096 * 16 + u.toNat / 64 % 64 / 4 = u.toNat / 256 := by omega
      have hmod : u.toNat / 64 % 64 % 4 * 64 + u.toNat % 64 = u.toNat % 256 := by omega
      have hfirst : byte (utf8 u ++ rest) 0 = (0xE0 + u.toNat / 4096).toUInt8 := by rw [hutf8]; rfl
      have hsecond : byte (utf8 u ++ rest) 1 = (0x80 + u.toNat / 64 % 64).toUInt8 := by
        rw [hutf8]
        rfl
      have hthird : byte (utf8 u ++ rest) 2 = (0x80 + u.toNat % 64).toUInt8 := by rw [hutf8]; rfl
      rw [← hfirst] at hsize h4
      rw [← hsecond] at h0F h6 hC0
      rw [← hthird] at h3F hC0'
      rw [decode_three endian hsize, if_pos ⟨hC0, hC0'⟩, h4, h0F, h6, h3F, ← toUInt8_add,
        ← toUInt8_add, hhigh, hmod, if_pos hlow]
      exact ⟨rfl, by rw [utfbytes_eq hsize (by decide), hutf8]; rfl⟩

/-- The loop reads units back up to the first that is not low. -/
theorem utf8Loop_units {src rest : List UInt8} {endian : Bool} {us : List UInt16}
    {iLen maxOLen rounds iPos oPos : ℕ} (h : src.drop iPos = us.flatMap utf8 ++ rest)
    (hlen : iLen = iPos + (us.flatMap utf8).length) (hr : us.length ≤ rounds)
    (hroom : oPos + 2 * us.length ≤ maxOLen) :
    ((utf8Loop src endian iLen maxOLen rounds iPos oPos).1 = .ok ∧
      (utf8Loop src endian iLen maxOLen rounds iPos oPos).2.2 = ucs2 endian us) ↔
      ∀ u ∈ us, Low u := by
  induction us generalizing rounds iPos oPos with
  | nil =>
      obtain rfl : iLen = iPos := by simpa using hlen
      cases rounds <;> simp [utf8Loop, ucs2]
  | cons u us ih =>
      obtain ⟨rounds, rfl⟩ : ∃ n, rounds = n + 1 := ⟨rounds - 1, by simp at hr; omega⟩
      rw [List.flatMap_cons, List.append_assoc] at h
      rw [List.flatMap_cons, List.length_append] at hlen
      rw [List.length_cons] at hroom hr
      obtain ⟨hone, hbytes⟩ := decode_unit endian u (us.flatMap utf8 ++ rest)
      rw [← h] at hone hbytes
      rw [byte_drop, Nat.add_zero] at hbytes
      have hpos : 1 ≤ (utf8 u).length := by
        rw [utf8_length]
        exact (utf8Size_pos _).1
      have hmore : iPos < iLen := by omega
      have hfit : ¬maxOLen < oPos + 2 := by omega
      rw [utf8Loop, if_pos hmore, if_neg hfit, hone, hbytes, List.forall_mem_cons]
      by_cases hl : Low u
      · have hnext : src.drop (iPos + (utf8 u).length) = us.flatMap utf8 ++ rest := by
          rw [← List.drop_drop, h, List.drop_left]
        have hrest := @ih rounds _ (oPos + (ucs2Bytes endian u).length) hnext (by omega) (by omega)
          (by rw [ucs2Bytes_length]; omega)
        simp only [hl, if_true, true_and, ucs2_cons, List.append_cancel_left_eq]
        exact hrest
      · simp [hl]

theorem length_le_utf8 (us : List UInt16) : us.length ≤ (us.flatMap utf8).length := by
  induction us with
  | nil => exact Nat.le_refl _
  | cons u us ih =>
      have hpos := (utf8Size_pos u.toNat).1
      rw [← utf8_length] at hpos
      rw [List.flatMap_cons, List.length_append, List.length_cons]
      omega

theorem decode_units (endian : Bool) (us : List UInt16) (rest : List UInt8) {room : ℕ}
    (hroom : 2 * us.length ≤ room) :
    ((enc_utf8_to_unicode endian (us.flatMap utf8 ++ rest) (us.flatMap utf8).length room).ret = .ok ∧
      (enc_utf8_to_unicode endian (us.flatMap utf8 ++ rest) (us.flatMap utf8).length room).out =
        ucs2 endian us) ↔ ∀ u ∈ us, Low u := by
  have hrounds := length_le_utf8 us
  have hfit : 0 + 2 * us.length ≤ room := by omega
  exact utf8Loop_units (List.drop_zero (l := us.flatMap utf8 ++ rest)) (Nat.zero_add _).symm hrounds
    hfit

end LuatAir200.Iconv
