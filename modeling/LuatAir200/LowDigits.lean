import Mathlib.Data.Nat.Digits.Defs
import Mathlib.Data.List.Basic

/-!
# The low digits of a number

A number as a stream of digits, the lowest first, that is read in groups. The stream of one base
regroups into that of another as long as both read the same number.
-/
namespace LuatAir200.LowDigits

/-- The lowest `k` digits. -/
def low (b : ℕ) : ℕ → ℕ → List ℕ
  | 0, _ => []
  | k + 1, n => n % b :: low b k (n / b)

variable {b : ℕ}

@[simp] theorem low_length (k n : ℕ) : (low b k n).length = k := by
  induction k generalizing n with
  | zero => rfl
  | succ k ih => rw [low, List.length_cons, ih]

/-- The digits are read back from the number that they make. -/
theorem low_ofDigits {ds : List ℕ} (h : ∀ d ∈ ds, d < b) :
    low b ds.length (Nat.ofDigits b ds) = ds := by
  induction ds with
  | nil => rfl
  | cons d ds ih =>
      rw [List.forall_mem_cons] at h
      have hmod : (d + b * Nat.ofDigits b ds) % b = d := by
        rw [Nat.add_mul_mod_self_left, Nat.mod_eq_of_lt h.1]
      have hdiv : (d + b * Nat.ofDigits b ds) / b = Nat.ofDigits b ds := by
        rw [Nat.add_mul_div_left _ _ (Nat.zero_lt_of_lt h.1), Nat.div_eq_of_lt h.1, Nat.zero_add]
      rw [Nat.ofDigits_cons, List.length_cons, low, hmod, hdiv, ih h.2]

/-- One more digit is zero. -/
theorem low_succ_ofDigits {ds : List ℕ} (h : ∀ d ∈ ds, d < b) (hb : 0 < b) :
    low b (ds.length + 1) (Nat.ofDigits b ds) = ds ++ [0] := by
  have hzero : ∀ d ∈ ds ++ [0], d < b := by
    intro d hd
    obtain hd | hd := List.mem_append.mp hd
    · exact h d hd
    · rw [List.mem_singleton.mp hd]
      exact hb
  have hread := low_ofDigits hzero
  rw [Nat.ofDigits_append_zero, List.length_append, List.length_singleton] at hread
  exact hread

theorem low_lt {k n d : ℕ} (hb : 0 < b) (h : d ∈ low b k n) : d < b := by
  induction k generalizing n with
  | zero => cases h
  | succ k ih =>
      obtain rfl | h := List.mem_cons.mp h
      · exact Nat.mod_lt n hb
      · exact ih h

end LuatAir200.LowDigits
