import LuatAir200.LuaText
import Mathlib.Tactic.Ring

/-!
# Decimal numbers

What `tonumber` and `%ld` do to digits: how many digits a number has, what leading zeros change,
and the numbers of a fixed width.
-/
namespace LuatAir200.Lua

/-! ## Reading -/

theorem tonumber_append (s t : LuaString) :
    tonumber (s ++ t) = tonumber s * 10 ^ t.length + tonumber t := by
  induction t using List.reverseRecOn with
  | nil => simp [tonumber]
  | append_singleton t c ih =>
      rw [← List.append_assoc, tonumber_snoc, ih, tonumber_snoc, List.length_append,
        List.length_singleton, Nat.pow_succ]
      ring

theorem digit_lt {c : UInt8} (h : isDigit c = true) : 48 ≤ c.toNat ∧ c.toNat - 48 < 10 := by
  rw [isDigit, Bool.and_eq_true, decide_eq_true_eq, decide_eq_true_eq, UInt8.le_iff_toNat_le,
    UInt8.le_iff_toNat_le] at h
  obtain ⟨hlow, hhigh⟩ := h
  have h48 : (48 : UInt8).toNat = 48 := rfl
  have h57 : (57 : UInt8).toNat = 57 := rfl
  omega

theorem tonumber_lt {s : LuaString} (h : s.all isDigit) : tonumber s < 10 ^ s.length := by
  induction s using List.reverseRecOn with
  | nil => simp [tonumber]
  | append_singleton s c ih =>
      rw [List.all_append, List.all_cons, List.all_nil, Bool.and_true, Bool.and_eq_true] at h
      have hlt := ih h.1
      have hc := (digit_lt h.2).2
      rw [tonumber_snoc, List.length_append, List.length_singleton, Nat.pow_succ]
      omega

theorem tonumber_zeros (k : ℕ) : tonumber (List.replicate k 48) = 0 := by
  induction k with
  | zero => rfl
  | succ k ih =>
      rw [List.replicate_succ', tonumber_snoc, ih]
      rfl

/-- Leading zeros do not count. -/
theorem tonumber_zeros_append (k : ℕ) (s : LuaString) :
    tonumber (List.replicate k 48 ++ s) = tonumber s := by
  rw [tonumber_append, tonumber_zeros]
  omega

/-- Digit strings of one length are told apart by their values. -/
theorem tonumber_inj {s t : LuaString} (hs : s.all isDigit) (ht : t.all isDigit)
    (hlen : s.length = t.length) (h : tonumber s = tonumber t) : s = t := by
  induction s using List.reverseRecOn generalizing t with
  | nil => exact (List.eq_nil_of_length_eq_zero hlen.symm).symm
  | append_singleton s c ih =>
      obtain ⟨t, d, rfl⟩ : ∃ u d, t = u ++ [d] := by
        refine ⟨t.dropLast, t.getLast ?_, (List.dropLast_append_getLast _).symm⟩
        intro he
        rw [he, List.length_append] at hlen
        simp at hlen
      rw [List.all_append, List.all_cons, List.all_nil, Bool.and_true, Bool.and_eq_true] at hs ht
      rw [List.length_append, List.length_append, List.length_singleton, List.length_singleton]
        at hlen
      rw [tonumber_snoc, tonumber_snoc] at h
      have hc := digit_lt hs.2
      have hd := digit_lt ht.2
      obtain rfl := ih hs.1 ht.1 (by omega) (by omega)
      obtain rfl : c = d := UInt8.toNat_inj.mp (by omega)
      rfl

/-! ## Writing -/

theorem decimal_all_isDigit (m : ℕ) : (decimal m).all isDigit :=
  List.all_eq_true.mpr fun _ hc => isDigit_decimal hc

/-- The steps of `decimal` are as many as they have to be. -/
theorem decimalFuel_mono {n m : ℕ} (h : m < n) : decimalFuel n m = decimal m := by
  induction n using Nat.strong_induction_on generalizing m with
  | _ n ih =>
      obtain ⟨n, rfl⟩ : ∃ k, n = k + 1 := ⟨n - 1, by omega⟩
      rw [decimal, decimalFuel, decimalFuel]
      by_cases hm : m < 10
      · rw [if_pos hm, if_pos hm]
      · rw [if_neg hm, if_neg hm, ih n (by omega) (by omega)]
        obtain hlt | rfl := Nat.lt_or_eq_of_le (Nat.le_of_lt_succ h)
        · rw [ih m (by omega) (by omega)]
        · rw [ih m (by omega) (by omega)]

theorem decimal_small {m : ℕ} (h : m < 10) : decimal m = [48 + m.toUInt8] := by
  rw [decimal, decimalFuel, if_pos h]

theorem decimal_large {m : ℕ} (h : 10 ≤ m) :
    decimal m = decimal (m / 10) ++ [48 + (m % 10).toUInt8] := by
  rw [decimal, decimalFuel, if_neg (by omega), decimalFuel_mono (by omega)]

/-- A number below `10 ^ (k + 1)` has at most `k + 1` digits. -/
theorem decimal_length_le {k m : ℕ} (h : m < 10 ^ (k + 1)) : (decimal m).length ≤ k + 1 := by
  induction k generalizing m with
  | zero =>
      rw [decimal_small (by simpa using h)]
      exact le_refl _
  | succ k ih =>
      by_cases hm : m < 10
      · rw [decimal_small hm, List.length_singleton]
        omega
      · have hdiv : m / 10 < 10 ^ (k + 1) := by
          rw [Nat.pow_succ] at h
          omega
        have := ih hdiv
        rw [decimal_large (by omega), List.length_append, List.length_singleton]
        omega

/-- A number from `10 ^ k` on has more than `k` digits. -/
theorem decimal_length_gt {k m : ℕ} (h : 10 ^ k ≤ m) : k < (decimal m).length := by
  induction k generalizing m with
  | zero => exact List.length_pos_of_ne_nil (decimal_ne_nil m)
  | succ k ih =>
      have hpos : 0 < 10 ^ k := Nat.pow_pos (by decide)
      rw [Nat.pow_succ] at h
      have := ih (m := m / 10) (by omega)
      rw [decimal_large (by omega), List.length_append, List.length_singleton]
      omega

theorem decimal_length {k m : ℕ} (h : 10 ^ k ≤ m) (h' : m < 10 ^ (k + 1)) :
    (decimal m).length = k + 1 :=
  le_antisymm (decimal_length_le h') (decimal_length_gt h)

/-- Digits that do not start with a zero are written as they are read. -/
theorem decimal_tonumber {c : UInt8} {s : LuaString} (h : (c :: s).all isDigit) (hc : c ≠ 48) :
    decimal (tonumber (c :: s)) = c :: s := by
  have hlt := tonumber_lt h
  have hdigit := digit_lt (List.all_eq_true.mp h c List.mem_cons_self)
  have hne : c.toNat ≠ 48 := fun he => hc (UInt8.toNat_inj.mp he)
  have hle : 10 ^ s.length ≤ tonumber (c :: s) := by
    have happend := tonumber_append [c] s
    have hone : tonumber [c] = c.toNat - 48 := by simp [tonumber]
    have hmul : 1 * 10 ^ s.length ≤ (c.toNat - 48) * 10 ^ s.length :=
      Nat.mul_le_mul_right _ (by omega)
    rw [hone] at happend
    rw [← List.singleton_append, happend]
    omega
  apply tonumber_inj (decimal_all_isDigit _) h _ (tonumber_decimal _)
  rw [decimal_length hle hlt, List.length_cons]

/-! ## A fixed width -/

/-- A number with leading zeros. -/
def fixed (k m : ℕ) : LuaString := List.replicate (k - (decimal m).length) 48 ++ decimal m

theorem fixed_all_isDigit (k m : ℕ) : (fixed k m).all isDigit := by
  rw [fixed, List.all_append, decimal_all_isDigit, Bool.and_true, List.all_replicate]
  exact ite_self _ ▸ rfl

theorem fixed_length {k m : ℕ} (h : m < 10 ^ (k + 1)) : (fixed (k + 1) m).length = k + 1 := by
  have := decimal_length_le h
  rw [fixed, List.length_append, List.length_replicate]
  omega

theorem tonumber_fixed (k m : ℕ) : tonumber (fixed k m) = m := by
  rw [fixed, tonumber_zeros_append, tonumber_decimal]

/-- Digits are their value with leading zeros. -/
theorem fixed_tonumber {k : ℕ} {s : LuaString} (h : s.all isDigit) (hlen : s.length = k + 1) :
    fixed (k + 1) (tonumber s) = s := by
  have hlt := tonumber_lt h
  rw [hlen] at hlt
  apply tonumber_inj (fixed_all_isDigit _ _) h _ (tonumber_fixed _ _)
  rw [fixed_length hlt, hlen]

end LuatAir200.Lua
