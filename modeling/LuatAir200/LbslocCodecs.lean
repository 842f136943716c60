import LuatAir200.LuaNumber
import LuatAir200.SmsHex
import Mathlib.Data.Rat.Cast.Order
import Mathlib.Tactic.Linarith

/-!
# The codecs of the location protocol

Digits in half bytes, the low half first and the last byte filled up with ones, and degrees as
degrees and minutes. `none` is a Lua error. Of what `tonumber` reads only digits are covered.
-/
namespace LuatAir200.Lbsloc
open Lua Sms

/-- The loop of `bcd`; an odd digit at the end is filled up. -/
def bcdBytes : LuaString → Option LuaString
  | [] => some []
  | [c] => (hexnum [c]).map fun num => [(0xf0 + num).toUInt8]
  | c :: c' :: t =>
      (hexnum [c, c']).bind fun num =>
        (bcdBytes t).map ((num % 0x10 * 0x10 + num / 0x10).toUInt8 :: ·)

def bcd (d : LuaString) (n : ℕ) : Option LuaString :=
  (bcdBytes d).map fun s =>
    if s.length < n then s ++ List.replicate (n - s.length) 255
    else if n < s.length then ssub s 1 n
    else s

def unbcd : LuaString → LuaString
  | [] => []
  | byte :: d =>
      let v1 := byte &&& 0x0f
      let v2 := (byte >>> 4) &&& 0x0f
      if v1 = 0x0f then []
      else decimal v1.toNat ++ if v2 = 0x0f then [] else decimal v2.toNat ++ unbcd d

/-- Ten digits of a degree. -/
def ten (lat : LuaString) : LuaString :=
  if 10 < lat.length then ssub lat 1 10
  else if lat.length < 10 then lat ++ List.replicate (10 - lat.length) 48
  else lat

/-- `lam1` and `lam2`, with leading zeros. -/
def minutes (la : LuaString) : Option (LuaString × LuaString) :=
  let m := ssub la 4 (-1)
  if m ≠ [] ∧ m.all isDigit then
    let lam1 := number (numeral m * 6 / 1000000)
    let lam2 := number (numeral m * 6 % 1000000)
    some (if lam1.length < 2 then List.replicate (2 - lam1.length) 48 ++ lam1 else lam1,
      if lam2.length < 6 then List.replicate (6 - lam2.length) 48 ++ lam2 else lam2)
  else none

/-- The degrees of `la` in degrees only, and in degrees and minutes. -/
def degrees (la : LuaString) : LuaString := ssub la 1 3 ++ lua "." ++ ssub la 4 (-1)

def degreeMinutes (la : LuaString) : Option LuaString :=
  (minutes la).map fun m => ssub la 1 3 ++ m.1 ++ lua "." ++ m.2

def trans (lat lng : LuaString) : Option (LuaString × LuaString × LuaString × LuaString) :=
  let la := ten lat
  let ln := ten lng
  (degreeMinutes la).bind fun m =>
    (degreeMinutes ln).map fun n => (degrees la, degrees ln, m, n)

/-! ## Digits in half bytes -/

theorem unbcd_fill (k : ℕ) : unbcd (List.replicate k 255) = [] := by
  cases k with
  | zero => rfl
  | succ k => rfl

theorem isDigit_cases {c : UInt8} (h : isDigit c = true) : ∃ i : Fin 10, c = 48 + i.val.toUInt8 := by
  obtain ⟨hlow, hhigh⟩ := digit_lt h
  refine ⟨⟨c.toNat - 48, hhigh⟩, UInt8.toNat_inj.mp ?_⟩
  simp only [UInt8.toNat_add, Nat.toUInt8, UInt8.toNat_ofNat', UInt8.toNat_ofNat]
  omega

/-- The byte of two digits. -/
theorem pair_byte : ∀ i j : Fin 10,
    let b : UInt8 := (j.val * 16 + i.val).toUInt8
    (hexnum [48 + i.val.toUInt8, 48 + j.val.toUInt8]).map
        (fun num => (num % 0x10 * 0x10 + num / 0x10).toUInt8) = some b ∧
      b &&& 0x0f ≠ 0x0f ∧ (b >>> 4) &&& 0x0f ≠ 0x0f ∧
      decimal (b &&& 0x0f).toNat = [48 + i.val.toUInt8] ∧
      decimal ((b >>> 4) &&& 0x0f).toNat = [48 + j.val.toUInt8] := by
  decide

theorem digits_byte {c c' : UInt8} (h : isDigit c = true) (h' : isDigit c' = true) :
    ∃ b, (hexnum [c, c']).map (fun num => (num % 0x10 * 0x10 + num / 0x10).toUInt8) = some b ∧
      ∀ t, unbcd (b :: t) = c :: c' :: unbcd t := by
  obtain ⟨i, rfl⟩ := isDigit_cases h
  obtain ⟨j, rfl⟩ := isDigit_cases h'
  obtain ⟨hb, h1, h2, hi, hj⟩ := pair_byte i j
  refine ⟨_, hb, fun t => ?_⟩
  rw [unbcd, if_neg h1, if_neg h2, hi, hj]
  rfl

/-- The byte of the last one of an odd number of digits. -/
theorem single_byte : ∀ i : Fin 10,
    let b : UInt8 := (0xf0 + i.val).toUInt8
    (hexnum [48 + i.val.toUInt8]).map (fun num => (0xf0 + num).toUInt8) = some b ∧
      b &&& 0x0f ≠ 0x0f ∧ (b >>> 4) &&& 0x0f = 0x0f ∧
      decimal (b &&& 0x0f).toNat = [48 + i.val.toUInt8] := by
  decide

theorem digit_byte {c : UInt8} (h : isDigit c = true) :
    ∃ b, (hexnum [c]).map (fun num => (0xf0 + num).toUInt8) = some b ∧
      ∀ t, unbcd (b :: t) = [c] := by
  obtain ⟨i, rfl⟩ := isDigit_cases h
  obtain ⟨hb, h1, h2, hi⟩ := single_byte i
  refine ⟨_, hb, fun t => ?_⟩
  rw [unbcd, if_neg h1, if_pos h2, hi]
  rfl

theorem unbcd_bcdBytes {d : LuaString} (h : d.all isDigit) :
    ∃ s, bcdBytes d = some s ∧ s.length = (d.length + 1) / 2 ∧
      ∀ k, unbcd (s ++ List.replicate k 255) = d := by
  fun_induction bcdBytes d with
  | case1 => exact ⟨[], rfl, rfl, unbcd_fill⟩
  | case2 c =>
      rw [List.all_cons, List.all_nil, Bool.and_true] at h
      obtain ⟨b, hb, hun⟩ := digit_byte h
      obtain ⟨num, hnum, rfl⟩ := Option.map_eq_some_iff.mp hb
      refine ⟨[_], ?_, ?_, fun k => hun _⟩
      · rw [hnum]
        rfl
      · simp only [List.length_singleton]
  | case3 c c' t ih =>
      rw [List.all_cons, List.all_cons, Bool.and_eq_true, Bool.and_eq_true] at h
      obtain ⟨b, hb, hun⟩ := digits_byte h.1 h.2.1
      obtain ⟨num, hnum, rfl⟩ := Option.map_eq_some_iff.mp hb
      obtain ⟨s, hs, hlen, hrest⟩ := ih h.2.2
      refine ⟨(num % 0x10 * 0x10 + num / 0x10).toUInt8 :: s, ?_, ?_, fun k => ?_⟩
      · rw [hnum, Option.bind_some, hs]
        rfl
      · simp only [List.length_cons]
        omega
      · rw [List.cons_append, hun, hrest]

theorem unbcd_bcd {d : LuaString} {n : ℕ} (h : d.all isDigit) (hn : d.length ≤ 2 * n) :
    (bcd d n).map unbcd = some d := by
  obtain ⟨s, hs, hlen, hun⟩ := unbcd_bcdBytes h
  rw [bcd, hs, Option.map_some, Option.map_some]
  congr 1
  split
  · exact hun _
  · rw [if_neg (by omega)]
    have := hun 0
    rwa [List.replicate_zero, List.append_nil] at this

/-! ## Degrees and minutes -/

theorem ten_eq {lat : LuaString} (h : lat.length = 10) : ten lat = lat := by
  rw [ten, if_neg (by omega), if_neg (by omega)]

/-- The minutes of seven digits after the point: two digits and six ones, and no number on the
way is too large. -/
theorem minutes_eq {la : LuaString} (hlen : la.length = 10) (h : (la.drop 3).all isDigit) :
    minutes la = some (fixed 2 (tonumber (la.drop 3) * 6 / 1000000),
      fixed 6 (tonumber (la.drop 3) * 6 % 1000000)) := by
  have hm : ssub la 4 (-1) = la.drop 3 := ssub_rest la 3
  have hmlen : (la.drop 3).length = 7 := by rw [List.length_drop, hlen]
  have hlt : tonumber (la.drop 3) < 10 ^ 7 := by
    have := tonumber_lt h
    rwa [hmlen] at this
  have hne : la.drop 3 ≠ [] := by
    intro he
    rw [he] at hmlen
    cases hmlen
  have hx : IsNat (numeral (la.drop 3) * 6) (tonumber (la.drop 3) * 6) :=
    (isNat_numeral (by omega)).mul rfl (by omega)
  have hdiv : IsNat (numeral (la.drop 3) * 6 / 1000000) (tonumber (la.drop 3) * 6 / 1000000) :=
    hx.div rfl (by decide)
  have hmod : IsNat (numeral (la.drop 3) * 6 % 1000000) (tonumber (la.drop 3) * 6 % 1000000) :=
    hx.mod rfl
  have hpad (k m : ℕ) : (if (decimal m).length < k then
      List.replicate (k - (decimal m).length) 48 ++ decimal m else decimal m) = fixed k m := by
    rw [fixed]
    split
    · rfl
    · rw [Nat.sub_eq_zero_of_le (by omega)]
      rfl
  rw [minutes, hm]
  simp only [hne, h, ne_eq, not_false_eq_true, and_self, if_true, hdiv.number, hmod.number, hpad]

/-- `m` and `f` are `60` times the fraction `0.x`: two digits for the minutes and six ones behind
the point. -/
structure Minutes (x m f : LuaString) : Prop where
  minutes : m.length = 2 ∧ m.all isDigit
  fraction : f.length = 6 ∧ f.all isDigit
  exact : (tonumber m : ℚ) + tonumber f / 10 ^ 6 = 60 * (tonumber x / 10 ^ 7)

theorem minutes_exact {x : LuaString} (hlen : x.length = 7) (h : x.all isDigit) :
    Minutes x (fixed 2 (tonumber x * 6 / 1000000)) (fixed 6 (tonumber x * 6 % 1000000)) := by
  have hlt : tonumber x < 10 ^ 7 := by
    have := tonumber_lt h
    rwa [hlen] at this
  constructor
  · exact ⟨fixed_length (by omega), fixed_all_isDigit _ _⟩
  · exact ⟨fixed_length (by omega), fixed_all_isDigit _ _⟩
  · have hdiv := Nat.div_add_mod (tonumber x * 6) 1000000
    rw [tonumber_fixed, tonumber_fixed]
    have hcast : (1000000 : ℚ) * (tonumber x * 6 / 1000000 : ℕ) +
        (tonumber x * 6 % 1000000 : ℕ) = tonumber x * 6 := by exact_mod_cast hdiv
    linarith

/-- A degree of ten digits in both forms. -/
theorem degrees_exact {la : LuaString} (hlen : la.length = 10) (h : la.all isDigit) :
    degrees la = la.take 3 ++ lua "." ++ la.drop 3 ∧
    ∃ m f, degreeMinutes la = some (la.take 3 ++ m ++ lua "." ++ f) ∧ Minutes (la.drop 3) m f := by
  have hfront : ssub la 1 3 = la.take 3 := ssub_nat la 0 3
  have hrest : ssub la 4 (-1) = la.drop 3 := ssub_rest la 3
  have hdrop : (la.drop 3).all isDigit := by
    apply List.all_eq_true.mpr
    intro c hc
    exact List.all_eq_true.mp h c (List.mem_of_mem_drop hc)
  have hdlen : (la.drop 3).length = 7 := by rw [List.length_drop, hlen]
  constructor
  · rw [degrees, hfront, hrest]
  · refine ⟨_, _, ?_, minutes_exact hdlen hdrop⟩
    rw [degreeMinutes, minutes_eq hlen hdrop, hfront]
    rfl

theorem trans_eq {lat lng m n : LuaString} (hlat : lat.length = 10) (hlng : lng.length = 10)
    (hm : degreeMinutes lat = some m) (hn : degreeMinutes lng = some n) :
    trans lat lng = some (degrees lat, degrees lng, m, n) := by
  rw [trans, ten_eq hlat, ten_eq hlng]
  simp only [hm, hn, Option.bind_some, Option.map_some]

/-- Digits `d` in `n` bytes, the degrees `lat` and `lng`, and a number `s` with or without a sign. -/
theorem codecs_exact (d lat lng s : LuaString) (n : ℕ) :
    (d.all isDigit → d.length ≤ 2 * n → (bcd d n).map unbcd = some d) ∧
    (lat.length = 10 → lat.all isDigit → lng.length = 10 → lng.all isDigit →
      ∃ m f m' f', trans lat lng = some (lat.take 3 ++ lua "." ++ lat.drop 3,
          lng.take 3 ++ lua "." ++ lng.drop 3, lat.take 3 ++ m ++ lua "." ++ f,
          lng.take 3 ++ m' ++ lua "." ++ f') ∧
        Minutes (lat.drop 3) m f ∧ Minutes (lng.drop 3) m' f' ∧
        tonumber (lat.drop 3) * 6 < 2 ^ 31 ∧ tonumber (lng.drop 3) * 6 < 2 ^ 31) ∧
    ((unsigned s).all isDigit → bcdnumtonum (numtobcdnum s) = some s) := by
  refine ⟨unbcd_bcd, ?_, bcdnumtonum_numtobcdnum⟩
  intro hlat hdlat hlng hdlng
  obtain ⟨hdeg, m, f, hm, hmf⟩ := degrees_exact hlat hdlat
  obtain ⟨hdeg', m', f', hm', hmf'⟩ := degrees_exact hlng hdlng
  have htrans := trans_eq hlat hlng hm hm'
  rw [hdeg, hdeg'] at htrans
  have small {la : LuaString} (hlen : la.length = 10) (h : la.all isDigit) :
      tonumber (la.drop 3) * 6 < 2 ^ 31 := by
    have hlt := tonumber_lt (s := la.drop 3) (List.all_eq_true.mpr fun c hc =>
      List.all_eq_true.mp h c (List.mem_of_mem_drop hc))
    rw [List.length_drop, hlen] at hlt
    omega
  exact ⟨m, f, m', f', htrans, hmf, hmf', small hlat hdlat, small hlng hdlng⟩

theorem codecs_exact_some : (bcd (lua "460000123") 8).map unbcd = some (lua "460000123") ∧
    (∃ m f m' f', trans (lua "0319999999") (lua "1210000001") =
        some (lua "031" ++ lua "." ++ lua "9999999", lua "121" ++ lua "." ++ lua "0000001",
          lua "031" ++ m ++ lua "." ++ f, lua "121" ++ m' ++ lua "." ++ f') ∧
      Minutes (lua "9999999") m f ∧ Minutes (lua "0000001") m' f' ∧
      tonumber (lua "9999999") * 6 < 2 ^ 31 ∧ tonumber (lua "0000001") * 6 < 2 ^ 31) ∧
    bcdnumtonum (numtobcdnum (lua "+8618126324567")) = some (lua "+8618126324567") := by
  have h := codecs_exact (lua "460000123") (lua "0319999999") (lua "1210000001")
    (lua "+8618126324567") 8
  exact ⟨h.1 (by decide) (by decide), h.2.1 (by decide) (by decide) (by decide) (by decide),
    h.2.2 (by decide)⟩

end LuatAir200.Lbsloc
