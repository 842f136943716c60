import LuatAir200.SmsPdu
import Mathlib.Data.List.Basic

/-!
# Substrings and hexadecimal digits

`string.sub` between positions inside of a string, the digits of bytes, and the numbers with
their digits in pairs.
-/
namespace LuatAir200.Sms
open Lua

/-! ## Substrings -/

theorem ssub_nat (s : LuaString) (a b : ℕ) : ssub s (a + 1) b = (s.drop a).take (b - a) := by
  have hlow : max 1 (if (a : ℤ) + 1 < 0 then (a : ℤ) + 1 + s.length + 1 else a + 1) = a + 1 := by
    rw [if_neg (by omega)]
    omega
  have hstart : ((a : ℤ) + 1 - 1).toNat = a := by omega
  have hhigh : (if (b : ℤ) < 0 then (b : ℤ) + s.length + 1 else b) = b := if_neg (by omega)
  rw [ssub]
  rw [hlow, hhigh, hstart, List.take_eq_take_iff, List.length_drop]
  omega

/-- A single byte. -/
theorem ssub_single (s : LuaString) (i : ℕ) : ssub s (i + 1) (i + 1) = s[i]?.toList := by
  have hcast : (i : ℤ) + 1 = (i + 1 : ℕ) := by omega
  have h := ssub_nat s i (i + 1)
  rw [← hcast] at h
  rw [h, Nat.add_sub_cancel_left]
  cases hs : s.drop i with
  | nil => simp [List.getElem?_eq_none (List.drop_eq_nil_iff.mp hs)]
  | cons c t =>
      have hget : s[i]? = some c := by rw [← List.head?_drop, hs, List.head?_cons]
      simp [hget]

/-- The end of a string. -/
theorem ssub_rest (s : LuaString) (a : ℕ) : ssub s (a + 1) (-1) = s.drop a := by
  have hlow : max 1 (if (a : ℤ) + 1 < 0 then (a : ℤ) + 1 + s.length + 1 else a + 1) = a + 1 := by
    rw [if_neg (by omega)]
    omega
  have hhigh : (if (-1 : ℤ) < 0 then (-1 : ℤ) + s.length + 1 else -1) = s.length := by
    rw [if_pos (by decide)]
    omega
  rw [ssub]
  rw [hlow, hhigh, min_self]
  have hstart : ((a : ℤ) + 1 - 1).toNat = a := by omega
  rw [hstart]
  apply List.take_of_length_le
  rw [List.length_drop]
  omega

/-- A string without its last bytes. -/
theorem ssub_front (s : LuaString) (n : ℕ) : ssub s 1 (-(n + 1)) = s.take (s.length - n) := by
  have hhigh : (if (-(n + 1 : ℤ)) < 0 then (-(n + 1 : ℤ)) + s.length + 1 else -(n + 1)) =
      s.length - n := by
    rw [if_pos (by omega)]
    omega
  rw [ssub]
  rw [hhigh, if_neg (by decide), max_self, sub_self, Int.toNat_zero, List.drop_zero,
    List.take_eq_take_iff]
  omega

/-- The last byte. -/
theorem ssub_last (s : LuaString) : ssub s s.length s.length = s.getLast?.toList := by
  cases hs : s.length with
  | zero =>
      obtain rfl := List.eq_nil_of_length_eq_zero hs
      rfl
  | succ n =>
      have hcast : ((n + 1 : ℕ) : ℤ) = (n : ℤ) + 1 := by omega
      rw [hcast, ssub_single, List.getLast?_eq_getElem?, hs, Nat.add_sub_cancel]

/-- The middle of three pieces. -/
theorem ssub_mid {s a b c : LuaString} {i j : ℤ} (hs : s = a ++ b ++ c) (hi : i = a.length + 1)
    (hj : j = a.length + b.length) : ssub s i j = b := by
  have h := ssub_nat s a.length (a.length + b.length)
  have hcast : ((a.length + b.length : ℕ) : ℤ) = a.length + b.length := by omega
  rw [hcast, Nat.add_sub_cancel_left, hs, List.append_assoc, List.drop_left, List.take_left] at h
  rw [hs, List.append_assoc, hi, hj]
  exact h

/-- A substring up to an end behind that of the string. -/
theorem ssub_end {s a b : LuaString} {i : ℤ} {n : ℕ} (hs : s = a ++ b) (hi : i = a.length + 1)
    (hn : a.length + b.length ≤ n) : ssub s i n = b := by
  rw [hi, ssub_nat, hs, List.drop_left]
  apply List.take_of_length_le
  omega

/-! ## Hexadecimal digits -/

/-- The digit that `%X` writes. -/
def xchar (d : ℕ) : UInt8 := if d < 10 then (48 + d).toUInt8 else (55 + d).toUInt8

theorem hex_two {n : ℕ} (h : n < 256) : hex 2 n = [xchar (n / 16), xchar (n % 16)] := by
  revert n
  decide +kernel

theorem hex_two_length {n : ℕ} (h : n < 256) : (hex 2 n).length = 2 := by
  rw [hex_two h]
  rfl

theorem hexnum_hex {n : ℕ} (h : n < 256) : hexnum (hex 2 n) = some n := by
  revert n
  decide +kernel

/-! ## Digits in pairs -/

/-- The bytes of a string in pairs, each pair turned round. -/
def turned : LuaString → LuaString
  | a :: b :: t => b :: a :: turned t
  | t => t

theorem turned_length : ∀ s : LuaString, (turned s).length = s.length
  | [] => rfl
  | [_] => rfl
  | _ :: _ :: t => congrArg (· + 2) (turned_length t)

theorem turned_append : ∀ {s : LuaString} (t : LuaString), s.length % 2 = 0 →
    turned (s ++ t) = turned s ++ turned t
  | [], _, _ => rfl
  | [_], _, h => by simp at h
  | a :: b :: s, t, h => by
      have heven : s.length % 2 = 0 := by
        rw [List.length_cons, List.length_cons] at h
        omega
      simp [turned, turned_append t heven]

theorem turned_turned : ∀ s : LuaString, turned (turned s) = s
  | [] => rfl
  | [_] => rfl
  | a :: b :: t => congrArg (fun s => a :: b :: s) (turned_turned t)

theorem swapped_def (num : LuaString) (n : ℕ) : swapped num n =
    (List.range' 1 n).flatMap fun (i : ℕ) => ssub num ((i : ℤ) * 2) ((i : ℤ) * 2) ++
      ssub num ((i : ℤ) * 2 - 1) ((i : ℤ) * 2 - 1) := by
  rw [swapped, List.bind_eq_flatMap, List.flatMap_assoc]
  simp only [List.pure_def, List.flatMap_singleton]

theorem swapped_cons (a b : UInt8) (t : LuaString) (n : ℕ) :
    swapped (a :: b :: t) (n + 1) = b :: a :: swapped t n := by
  have hshift : List.range' 2 n = (List.range' 1 n).map (1 + ·) := by
    rw [List.map_add_range']
  have hfirst : ssub (a :: b :: t) (((1 : ℕ) : ℤ) * 2) (((1 : ℕ) : ℤ) * 2) ++
      ssub (a :: b :: t) (((1 : ℕ) : ℤ) * 2 - 1) (((1 : ℕ) : ℤ) * 2 - 1) = [b, a] := by
    rw [show ((1 : ℕ) : ℤ) * 2 = ((1 : ℕ) : ℤ) + 1 by omega, ssub_single,
      show ((1 : ℕ) : ℤ) + 1 - 1 = ((0 : ℕ) : ℤ) + 1 by omega, ssub_single]
    rfl
  have hrest (i : ℕ) (hi : i ∈ List.range' 1 n) :
      ssub (a :: b :: t) (((1 + i : ℕ) : ℤ) * 2) (((1 + i : ℕ) : ℤ) * 2) ++
        ssub (a :: b :: t) (((1 + i : ℕ) : ℤ) * 2 - 1) (((1 + i : ℕ) : ℤ) * 2 - 1) =
      ssub t ((i : ℤ) * 2) ((i : ℤ) * 2) ++ ssub t ((i : ℤ) * 2 - 1) ((i : ℤ) * 2 - 1) := by
    have h1 : 1 ≤ i := (List.mem_range'_1.mp hi).1
    rw [show ((1 + i : ℕ) : ℤ) * 2 = ((2 * i + 1 : ℕ) : ℤ) + 1 by omega,
      show ((2 * i + 1 : ℕ) : ℤ) + 1 - 1 = ((2 * i : ℕ) : ℤ) + 1 by omega,
      show (i : ℤ) * 2 = ((2 * i - 1 : ℕ) : ℤ) + 1 by omega,
      show ((2 * i - 1 : ℕ) : ℤ) + 1 - 1 = ((2 * i - 2 : ℕ) : ℤ) + 1 by omega]
    simp only [ssub_single]
    obtain ⟨i, rfl⟩ := Nat.exists_eq_add_of_le' h1
    rfl
  rw [swapped_def, swapped_def, List.range'_succ, List.flatMap_cons, hfirst, hshift, List.flatMap_map]
  simp only [List.cons_append, List.nil_append]
  congr 2
  apply List.flatMap_congr
  exact hrest

theorem swapped_eq {num : LuaString} {n : ℕ} (h : 2 * n ≤ num.length) :
    swapped num n = turned (num.take (2 * n)) := by
  induction n generalizing num with
  | zero => rfl
  | succ n ih =>
      match num, h with
      | a :: b :: t, h =>
          have hlen : 2 * n ≤ t.length := by
            rw [List.length_cons, List.length_cons] at h
            omega
          rw [swapped_cons, ih hlen]
          rfl
      | [a], h =>
          rw [List.length_singleton] at h
          omega
      | [], h =>
          rw [List.length_nil] at h
          omega

/-! ## Numbers -/

/-- Does a number start with the sign of an international one? -/
def international (num : LuaString) : Prop := num.head? = some 43

instance (num : LuaString) : Decidable (international num) := inferInstanceAs (Decidable (_ = _))

/-- A number without its sign. -/
def unsigned (num : LuaString) : LuaString := if international num then num.tail else num

/-- The digits of a number, filled up to whole bytes. -/
def padded (d : LuaString) : LuaString := if d.length % 2 = 0 then d else d ++ [70]

theorem padded_length (d : LuaString) : (padded d).length = (d.length + 1) / 2 * 2 := by
  rw [padded]
  split
  · omega
  · rw [List.length_append, List.length_singleton]
    omega

theorem plus_iff (num : LuaString) : ssub num 1 1 = lua "+" ↔ international num := by
  have hsingle := ssub_single num 0
  rw [Int.natCast_zero, Int.zero_add] at hsingle
  rw [hsingle, international, List.head?_eq_getElem?]
  cases num[0]? with
  | none => simp [lua]
  | some c => simp [show lua "+" = [43] from rfl]

theorem numtobcdnum_eq (num : LuaString) : numtobcdnum num =
    (if international num then lua "91" else lua "81") ++ turned (padded (unsigned num)) := by
  have hrest : (if ssub num 1 1 = lua "+" then ssub num 2 (-1) else num) = unsigned num := by
    have htail := ssub_rest num 1
    rw [Int.natCast_one, show (1 : ℤ) + 1 = 2 from rfl, List.drop_one] at htail
    rw [htail, unsigned]
    exact if_congr (plus_iff num) rfl rfl
  have hfix : (if ssub num 1 1 = lua "+" then lua "91" else lua "81") =
      if international num then lua "91" else lua "81" := if_congr (plus_iff num) rfl rfl
  rw [numtobcdnum]
  simp only [hrest, hfix]
  congr 1
  generalize unsigned num = d
  rw [padded, swapped_eq (by omega)]
  by_cases heven : d.length % 2 = 0
  · rw [if_neg (by omega), if_pos heven, List.take_of_length_le (by omega)]
  · rw [if_pos heven, if_neg heven]
    have hpos : d.length - 1 < d.length := by omega
    have hlast : ssub d d.length d.length = [d[d.length - 1]] := by
      rw [ssub_last, List.getLast?_eq_getElem?, List.getElem?_eq_getElem hpos]
      rfl
    have hsplit : d ++ [70] = d.take (d.length - 1) ++ [d[d.length - 1], 70] := by
      conv_lhs => rw [← List.take_append_drop (d.length - 1) d, List.drop_eq_getElem_cons hpos,
        List.drop_of_length_le (show d.length ≤ d.length - 1 + 1 by omega), List.append_assoc]
      rfl
    have htake : d.take (2 * (d.length / 2)) = d.take (d.length - 1) := by
      congr 1
      omega
    rw [hlast, hsplit, htake, turned_append _ (by rw [List.length_take]; omega),
      List.append_assoc]
    rfl

theorem numtobcdnum_length (num : LuaString) :
    (numtobcdnum num).length = 2 + ((unsigned num).length + 1) / 2 * 2 := by
  rw [numtobcdnum_eq, List.length_append, turned_length, padded_length]
  split <;> rfl

theorem isDigit_fill {c : UInt8} (h : isDigit c = true) : c ≠ 102 ∧ c ≠ 70 := by
  constructor
  · rintro rfl
    cases h
  · rintro rfl
    cases h

/-- A number is read back from its bytes. -/
theorem bcdnumtonum_numtobcdnum {num : LuaString} (h : (unsigned num).all isDigit) :
    bcdnumtonum (numtobcdnum num) = some num := by
  have hnum : (if international num then lua "+" else []) ++ unsigned num = num := by
    rw [unsigned]
    split
    · rename_i hplus
      obtain ⟨t, rfl⟩ := List.head?_eq_some_iff.mp hplus
      rfl
    · rfl
  have hlen := numtobcdnum_length num
  rw [numtobcdnum_eq] at hlen ⊢
  generalize hp : padded (unsigned num) = p at hlen ⊢
  have hplen : p.length = ((unsigned num).length + 1) / 2 * 2 := by rw [← hp, padded_length]
  obtain ⟨a, b, hfix⟩ : ∃ a b, (if international num then lua "91" else lua "81") = [a, b] := by
    split
    · exact ⟨57, 49, rfl⟩
    · exact ⟨56, 49, rfl⟩
  have hplus : [a, b] = lua "91" ↔ international num := by
    rw [← hfix]
    split
    · rename_i hi
      exact iff_of_true rfl hi
    · rename_i hi
      exact iff_of_false (by decide) hi
  rw [hfix] at hlen ⊢
  have hfirst : ssub ([a, b] ++ turned p) 1 2 = [a, b] := ssub_nat ([a, b] ++ turned p) 0 2
  have hbody : ssub ([a, b] ++ turned p) 3 (-1) = turned p := ssub_rest ([a, b] ++ turned p) 2
  have hconv : swapped (turned p) ((((([a, b] ++ turned p).length : ℕ) : ℤ) - 2) / 2).toNat = p := by
    rw [hlen, swapped_eq (by rw [turned_length]; omega), List.take_of_length_le
      (by rw [turned_length]; omega), turned_turned]
  have hfill : ssub p ((([a, b] ++ turned p).length : ℕ) - 2 : ℤ)
      ((([a, b] ++ turned p).length : ℕ) - 2 : ℤ) = p.getLast?.toList := by
    rw [show ((([a, b] ++ turned p).length : ℕ) - 2 : ℤ) = p.length by omega, ssub_last]
  have hdigits : (if p.getLast?.toList = lua "f" ∨ p.getLast?.toList = lua "F" then
      ssub p 1 (-2) else p) = unsigned num := by
    rw [← hp, padded]
    split
    · -- the last character is a digit
      apply if_neg
      cases hlast : (unsigned num).getLast? with
      | none => simp [lua]
      | some c =>
          have hdigit := List.all_eq_true.mp h c (List.mem_of_getLast? hlast)
          have hc := isDigit_fill hdigit
          simp [show lua "f" = [102] from rfl, show lua "F" = [70] from rfl, hc]
    · have hfront := ssub_front (unsigned num ++ [70]) 1
      rw [Int.natCast_one, show (-(1 + 1) : ℤ) = -2 from rfl] at hfront
      rw [List.getLast?_concat, if_pos (.inr rfl), hfront, List.length_append,
        List.length_singleton, Nat.add_sub_cancel, List.take_left]
  rw [bcdnumtonum, if_neg (by omega)]
  simp only [hfirst, hbody, hconv, hplus, hfill, hdigits, hnum]

end LuatAir200.Sms
