import LuatAir200.IconvModel

/-!
# The double bytes of GB2312

The converter from GB2312 computes an index into its table from any two bytes. Beside it stands
a converter that takes the double bytes of the table only and stops in front of everything else;
they agree on the strings without anything else.
-/
namespace LuatAir200.Iconv
open Conversion

/-! ## The indexes that the converter uses -/

/-- `offset` of a double byte. -/
def gb2312Offset (high low : UInt8) : UInt16 :=
  let gb2312 := (high.toUInt16 <<< 8) + low.toUInt16
  ((gb2312 >>> 8) - 0xA0) * 94 + ((gb2312 &&& 0x00ff) - 0xA1)

theorem gb2312_ucs2_eq (T : Tables) (high low : UInt8) :
    gb2312_ucs2 T high low = T.gb2312_to_ucs2_table (gb2312Offset high low) := rfl

/-- The indexes into the table, in the rounds of the loop. -/
def gb2312Indexes (mem : List UInt8) (outlen : ℕ) : ℕ → ℕ → ℕ → ℕ → List UInt16
  | 0, _, _, _ => []
  | rounds + 1, gbbuf, inlen, ucs2len =>
      if 0 < inlen then
        if outlen < ucs2len + 2 then []
        else if byte mem gbbuf < 0x80 then
          gb2312Indexes mem outlen rounds (gbbuf + 1) (inlen - 1) (ucs2len + 2)
        else if 2 ≤ inlen then
          gb2312Offset (byte mem gbbuf) (byte mem (gbbuf + 1)) ::
            gb2312Indexes mem outlen rounds (gbbuf + 2) (inlen - 2) (ucs2len + 2)
        else []
      else []

/-! ## The table -/

/-- The number of entries of the table: the rows 0xA0 to 0xF7 of the columns 0xA1 to 0xFE. -/
def entries : ℕ := 88 * 94

/-- A double byte of GB2312. -/
def InRange (b1 b2 : UInt8) : Prop := 0xA1 ≤ b1 ∧ b1 ≤ 0xF7 ∧ 0xA1 ≤ b2 ∧ b2 ≤ 0xFE

instance (b1 b2 : UInt8) : Decidable (InRange b1 b2) :=
  inferInstanceAs (Decidable (_ ∧ _ ∧ _ ∧ _))

/-- Its entry. -/
def entry (b1 b2 : UInt8) : ℕ := (b1.toNat - 0xA0) * 94 + (b2.toNat - 0xA1)

theorem inRange_iff {b1 b2 : UInt8} : InRange b1 b2 ↔
    161 ≤ b1.toNat ∧ b1.toNat ≤ 247 ∧ 161 ≤ b2.toNat ∧ b2.toNat ≤ 254 := by
  simp only [InRange, UInt8.le_iff_toNat_le]
  rfl

theorem entry_lt {b1 b2 : UInt8} (h : InRange b1 b2) : entry b1 b2 < entries := by
  obtain ⟨h1, h2, h3, h4⟩ := inRange_iff.mp h
  have hentry : entry b1 b2 = (b1.toNat - 0xA0) * 94 + (b2.toNat - 0xA1) := rfl
  have hentries : entries = 8272 := rfl
  omega

/-- The two bytes of a 16-bit number. -/
theorem split_double (high low : UInt8) :
    (((high.toUInt16 <<< 8) + low.toUInt16) >>> 8).toNat = high.toNat ∧
    (((high.toUInt16 <<< 8) + low.toUInt16) &&& 0x00ff).toNat = low.toNat := by
  have hh := high.toNat_lt
  have hl := low.toNat_lt
  have h255 : (0x00ff : UInt16).toNat = 2 ^ 8 - 1 := rfl
  simp only [UInt16.toNat_shiftRight, UInt16.toNat_and, UInt16.toNat_add, UInt16.toNat_shiftLeft,
    UInt8.toNat_toUInt16, h255, Nat.and_two_pow_sub_one_eq_mod]
  have h8 : (8 : UInt16).toNat % 16 = 8 := rfl
  rw [h8, Nat.shiftLeft_eq, Nat.shiftRight_eq_div_pow]
  omega

/-- Without the wrap of the 16-bit arithmetic. -/
theorem gb2312Offset_eq {b1 b2 : UInt8} (h : InRange b1 b2) :
    gb2312Offset b1 b2 = (entry b1 b2).toUInt16 := by
  obtain ⟨h1, h2⟩ := split_double b1 b2
  obtain ⟨h3, h4, h5, h6⟩ := inRange_iff.mp h
  have ha0 : (0xA0 : UInt16).toNat = 160 := rfl
  have ha1 : (0xA1 : UInt16).toNat = 161 := rfl
  have h94 : (94 : UInt16).toNat = 94 := rfl
  have hentry : entry b1 b2 = (b1.toNat - 0xA0) * 94 + (b2.toNat - 0xA1) := rfl
  apply UInt16.toNat_inj.mp
  simp only [gb2312Offset, UInt16.toNat_add, UInt16.toNat_mul, UInt16.toNat_sub, h1, h2, ha0, ha1,
    h94, Nat.toUInt16, UInt16.toNat_ofNat']
  omega

/-! ## What the converter should do -/

section

variable (T : Tables) (endian : Bool)

/-- The status, the number of bytes that are converted, and the output for `room` bytes. -/
def strict : ℕ → List UInt8 → Status × ℕ × List UInt8
  | _, [] => (.ok, 0, [])
  | room, [b] =>
      if room < 2 then (.E2BIG, 0, [])
      else if b < 0x80 then (.ok, 1, ucs2Bytes endian b.toUInt16)
      else (.EINVAL, 0, [])
  | room, b :: b2 :: s =>
      if room < 2 then (.E2BIG, 0, [])
      else if b < 0x80 then
        let r := strict (room - 2) (b2 :: s)
        (r.1, r.2.1 + 1, ucs2Bytes endian b.toUInt16 ++ r.2.2)
      else if InRange b b2 then
        let r := strict (room - 2) s
        (r.1, r.2.1 + 2, ucs2Bytes endian (T.gb2312_to_ucs2_table (entry b b2).toUInt16) ++ r.2.2)
      else (.EINVAL, 0, [])

/-- What the converter does, on the bytes of its input. -/
structure Scan where
  ret : Status
  advance : ℕ
  left : ℕ
  out : List UInt8
  indexes : List UInt16

def scan : ℕ → List UInt8 → Scan
  | _, [] => ⟨.ok, 0, 0, [], []⟩
  | room, [b] =>
      if room < 2 then ⟨.E2BIG, 0, 1, [], []⟩
      else if b < 0x80 then ⟨.ok, 1, 0, ucs2Bytes endian b.toUInt16, []⟩
      else ⟨.EINVAL, 1, 1, [], []⟩
  | room, b :: b2 :: s =>
      if room < 2 then ⟨.E2BIG, 0, s.length + 2, [], []⟩
      else if b < 0x80 then
        let r := scan (room - 2) (b2 :: s)
        ⟨r.ret, r.advance + 1, r.left, ucs2Bytes endian b.toUInt16 ++ r.out, r.indexes⟩
      else
        let r := scan (room - 2) s
        ⟨r.ret, r.advance + 2, r.left, ucs2Bytes endian (gb2312_ucs2 T b b2) ++ r.out,
          gb2312Offset b b2 :: r.indexes⟩

end

/-- As far as there is room, a byte from 0x80 on is the first one of a double byte. -/
def Clean : ℕ → List UInt8 → Prop
  | _, [] => True
  | room, [b] => 2 ≤ room → b < 0x80
  | room, b :: b2 :: s =>
      2 ≤ room → if b < 0x80 then Clean (room - 2) (b2 :: s) else InRange b b2 ∧ Clean (room - 2) s

/-- The converter does as it should, within its table, and says how far it has come. -/
structure Strict (T : Tables) (endian : Bool) (mem : List UInt8) (inlen outlen : ℕ) : Prop where
  ret : (iconv_gb2312_to_ucs2_endian T endian mem inlen outlen).ret =
    (strict T endian outlen (mem.take inlen)).1
  out : (iconv_gb2312_to_ucs2_endian T endian mem inlen outlen).out =
    (strict T endian outlen (mem.take inlen)).2.2
  advance : (iconv_gb2312_to_ucs2_endian T endian mem inlen outlen).advance =
    (strict T endian outlen (mem.take inlen)).2.1
  left : (iconv_gb2312_to_ucs2_endian T endian mem inlen outlen).inbytesleft =
    inlen - (strict T endian outlen (mem.take inlen)).2.1
  indexes : ∀ i ∈ gb2312Indexes mem outlen inlen 0 inlen 0, i.toNat < entries

section

variable (T : Tables) (endian : Bool)

theorem double_length (high low : UInt8) : (pair endian high low).length = 2 := by
  cases endian
  · rfl
  · rfl

/-- A step of the loop, on the bytes that are left. -/
theorem take_drop_cons {mem : List UInt8} {i n : ℕ} (h : i + (n + 1) ≤ mem.length) :
    (mem.drop i).take (n + 1) = byte mem i :: (mem.drop (i + 1)).take n := by
  have hi : i < mem.length := by omega
  rw [List.drop_eq_getElem_cons hi, List.take_succ_cons, byte, List.getD_eq_getElem?_getD,
    List.getElem?_eq_getElem hi, Option.getD_some]

/-- The loop goes through its input as `scan` does. -/
theorem gb2312Loop_scan (mem : List UInt8) (outlen : ℕ) {rounds gbbuf inlen ucs2len : ℕ}
    (hr : inlen ≤ rounds) (hm : gbbuf + inlen ≤ mem.length) :
    let r := scan T endian (outlen - ucs2len) ((mem.drop gbbuf).take inlen)
    gb2312Loop T mem endian outlen rounds gbbuf inlen ucs2len =
        (r.ret, gbbuf + r.advance, r.left, r.out) ∧
      gb2312Indexes mem outlen rounds gbbuf inlen ucs2len = r.indexes := by
  induction rounds generalizing gbbuf inlen ucs2len with
  | zero =>
      obtain rfl : inlen = 0 := by omega
      simp [gb2312Loop, gb2312Indexes, scan]
  | succ rounds ih =>
      have hfull : outlen < ucs2len + 2 ↔ outlen - ucs2len < 2 := by omega
      have hroom : outlen - (ucs2len + 2) = outlen - ucs2len - 2 := by omega
      have hlen (u : UInt16) : (ucs2Bytes endian u).length = 2 := by
        rw [ucs2Bytes, double_length]
      match inlen, hr, hm with
      | 0, _, _ => simp [gb2312Loop, gb2312Indexes, scan]
      | 1, hr, hm =>
          have hend := @ih (gbbuf + 1) 0 (ucs2len + 2)
            (by omega) (by omega)
          rw [List.take_zero] at hend
          rw [take_drop_cons hm, List.take_zero]
          simp only [gb2312Loop, gb2312Indexes, scan, hfull, hlen]
          by_cases hfit : outlen - ucs2len < 2
          · simp [hfit]
          · by_cases hb : byte mem gbbuf < 0x80
            · simp [hfit, hb, hend, scan]
            · simp [hfit, hb]
      | n + 2, hr, hm =>
          have hone := @ih (gbbuf + 1) (n + 1) (ucs2len + 2)
            (by omega) (by omega)
          have htwo := @ih (gbbuf + 2) n (ucs2len + 2)
            (by omega) (by omega)
          rw [take_drop_cons (by omega), hroom] at hone
          rw [hroom] at htwo
          rw [take_drop_cons hm, take_drop_cons (by omega)]
          have hodd : n + 2 - 1 = n + 1 := rfl
          have heven : n + 2 - 2 = n := rfl
          simp only [gb2312Loop, gb2312Indexes, scan, hfull, hlen, hodd, heven]
          by_cases hfit : outlen - ucs2len < 2
          · have hshort : ((mem.drop (gbbuf + 1 + 1)).take n).length = n := by
              rw [List.length_take, List.length_drop]
              omega
            simp [hfit, hshort]
          · by_cases hb : byte mem gbbuf < 0x80
            · obtain ⟨hloop, hindexes⟩ := hone
              simp only [hfit, hb, hloop, hindexes, if_true, if_false, Nat.zero_lt_succ]
              simp only [Nat.add_assoc, Nat.add_comm 1, and_self]
            · obtain ⟨hloop, hindexes⟩ := htwo
              have htake : 2 ≤ n + 2 := by omega
              simp only [hfit, hb, hloop, hindexes, htake, if_true, if_false, Nat.zero_lt_succ]
              simp only [Nat.add_assoc, Nat.add_comm 2, and_self, Nat.reduceAdd]

theorem strict_le (room : ℕ) (s : List UInt8) :
    (strict T endian room s).2.1 ≤ s.length := by
  fun_induction strict T endian room s with
  | case6 room b b2 s hroom hb r ih => simpa [r] using ih
  | case7 room b b2 s hroom hb hin r ih => simpa [r] using ih
  | _ => simp

variable {T endian}

/-- The double bytes and nothing else make the converter do as it should. -/
theorem scan_iff (room : ℕ) (s : List UInt8) :
    ((scan T endian room s).ret = (strict T endian room s).1 ∧
      (scan T endian room s).out = (strict T endian room s).2.2 ∧
      (scan T endian room s).advance = (strict T endian room s).2.1 ∧
      (scan T endian room s).left + (strict T endian room s).2.1 = s.length ∧
      ∀ i ∈ (scan T endian room s).indexes, i.toNat < entries) ↔ Clean room s := by
  fun_induction strict T endian room s with
  | case1 room => simp [scan, Clean]
  | case2 room b hroom => simp [scan, Clean, hroom, Nat.not_le.mpr hroom]
  | case3 room b hroom hb => simp [scan, Clean, hroom, hb]
  | case4 room b hroom hb =>
      -- the converter has moved behind the byte
      simp [scan, Clean, hb, Nat.not_lt.mp hroom, hroom]
  | case5 room b b2 s hroom => simp [scan, Clean, hroom, Nat.not_le.mpr hroom]
  | case6 room b b2 s hroom hb r ih =>
      have hclean : Clean room (b :: b2 :: s) ↔ Clean (room - 2) (b2 :: s) := by
        simp [Clean, hb, Nat.not_lt.mp hroom]
      rw [hclean, ← ih, scan, if_neg hroom, if_pos hb]
      have hleft (k m n : ℕ) : k + (m + 1) = n + 1 ↔ k + m = n := by omega
      simp only [List.append_cancel_left_eq, List.length_cons, hleft, Nat.add_zero, r]
  | case7 room b b2 s hroom hb hin r ih =>
      have hclean : Clean room (b :: b2 :: s) ↔ Clean (room - 2) s := by
        simp [Clean, hb, hin, Nat.not_lt.mp hroom]
      have hindex : (entry b b2).toUInt16.toNat < entries := by
        have hlt := entry_lt hin
        have hentries : entries = 8272 := rfl
        rw [Nat.toUInt16, UInt16.toNat_ofNat']
        omega
      rw [hclean, ← ih, scan, if_neg hroom, if_neg hb, gb2312_ucs2_eq, gb2312Offset_eq hin]
      have hleft (k m n : ℕ) : k + (m + 2) = n + 1 + 1 ↔ k + m = n := by omega
      simp only [List.append_cancel_left_eq, List.length_cons, List.forall_mem_cons, hindex,
        true_and, hleft, Nat.add_zero, r]
  | case8 room b b2 s hroom hb hin =>
      -- it writes a character
      have hclean : ¬Clean room (b :: b2 :: s) := by
        simp [Clean, hb, hin, Nat.not_lt.mp hroom]
      apply iff_of_false _ hclean
      rintro ⟨-, hout, -⟩
      rw [scan, if_neg hroom, if_neg hb] at hout
      have hlen := congrArg List.length hout
      rw [List.length_append, ucs2Bytes, double_length, List.length_nil] at hlen
      omega

/-- For every input, whatever lies behind it. -/
theorem strict_iff (T : Tables) (endian : Bool) (s rest : List UInt8) (outlen : ℕ) :
    Strict T endian (s ++ rest) s.length outlen ↔ Clean outlen s := by
  have hscan := @gb2312Loop_scan T endian (s ++ rest) outlen s.length 0 s.length 0
    (le_refl s.length) (by simp)
  rw [List.drop_zero, List.take_left, Nat.sub_zero] at hscan
  obtain ⟨hloop, hindexes⟩ := hscan
  have htaken := strict_le T endian outlen s
  rw [← @scan_iff T endian]
  constructor
  · intro h
    have hret := h.ret
    have hout := h.out
    have hadvance := h.advance
    have hleft := h.left
    have hentries := h.indexes
    rw [hindexes] at hentries
    simp only [iconv_gb2312_to_ucs2_endian, hloop, List.take_left, Nat.zero_add]
      at hret hout hadvance hleft
    refine ⟨hret, hout, hadvance, ?_, hentries⟩
    omega
  · rintro ⟨hret, hout, hadvance, hleft, hentries⟩
    constructor
    all_goals simp only [iconv_gb2312_to_ucs2_endian, hloop, hindexes, List.take_left, Nat.zero_add]
    · exact hret
    · exact hout
    · exact hadvance
    · omega
    · exact hentries

end

/-- The row behind the last one of the table is read as well. -/
theorem not_strict : ¬∀ (T : Tables) (endian : Bool) (s rest : List UInt8) (outlen : ℕ),
    Strict T endian (s ++ rest) s.length outlen := by
  intro h
  have T : Tables := ⟨fun _ => 0, fun _ => 0, [], fun _ _ => 0, fun _ _ => 0⟩
  have hstrict := h T false [0xF8, 0xA1] [0] 256
  have hindex : gb2312Offset 0xF8 0xA1 ∈ gb2312Indexes [0xF8, 0xA1, 0] 256 2 0 2 0 := by decide
  have hentry := hstrict.indexes _ hindex
  have hpast : ¬(gb2312Offset 0xF8 0xA1).toNat < entries := by decide
  contradiction

end LuatAir200.Iconv
