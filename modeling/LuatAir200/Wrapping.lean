import Mathlib.Algebra.Order.Ring.Int
import Mathlib.Tactic.Ring
import Mathlib.Tactic.Linarith

/-!
# Overflow detected after the fact

Signed arithmetic that wraps around outside of the numbers from `-N` to `N - 1`. An overflow of a
sum shows in the signs, an overflow of a product in the quotient.
-/
namespace LuatAir200.Wrapping

variable {N a b x : ℤ}

def Fits (N x : ℤ) : Prop := -N ≤ x ∧ x < N

instance (N x : ℤ) : Decidable (Fits N x) := inferInstanceAs (Decidable (_ ∧ _))

def wrap (N x : ℤ) : ℤ := (x + N) % (2 * N) - N

theorem wrap_eq (h : Fits N x) : wrap N x = x := by
  have hx := h.1
  have hN := h.2
  rw [wrap, Int.emod_eq_of_lt (by omega) (by omega), Int.add_sub_cancel]

theorem wrap_fits (hN : 0 < N) (x : ℤ) : Fits N (wrap N x) := by
  have hpos := Int.emod_nonneg (x + N) (show 2 * N ≠ 0 by omega)
  have hlt := Int.emod_lt_of_pos (x + N) (show 0 < 2 * N by omega)
  rw [Fits, wrap]
  omega

/-- What is lost is a multiple of the whole range. -/
theorem wrap_add (k : ℤ) : wrap N (x + 2 * N * k) = wrap N x := by
  rw [wrap, wrap, Int.add_right_comm, Int.add_mul_emod_self_left]

theorem exists_wrap (N x : ℤ) : ∃ k, wrap N x = x + 2 * N * k := by
  refine ⟨-((x + N) / (2 * N)), ?_⟩
  have h := Int.emod_add_mul_ediv (x + N) (2 * N)
  rw [wrap, Int.mul_neg]
  omega

/-- The signs of two summands and of the sum as it is computed. -/
def SignsDiffer (sum a b : ℤ) : Prop := 0 ≤ a ∧ 0 ≤ b ∧ sum < 0 ∨ a < 0 ∧ b < 0 ∧ 0 ≤ sum

instance (sum a b : ℤ) : Decidable (SignsDiffer sum a b) :=
  inferInstanceAs (Decidable (_ ∨ _))

theorem signsDiffer_iff (ha : Fits N a) (hb : Fits N b) :
    SignsDiffer (wrap N (a + b)) a b ↔ ¬ Fits N (a + b) := by
  obtain ⟨ha₀, ha₁⟩ := ha
  obtain ⟨hb₀, hb₁⟩ := hb
  by_cases h : Fits N (a + b)
  · rw [wrap_eq h]
    refine iff_of_false ?_ (not_not_intro h)
    rw [SignsDiffer]
    omega
  · refine iff_of_true ?_ h
    by_cases hlow : a + b < -N
    · have hw : wrap N (a + b) = a + b + 2 * N := by
        have hfit : Fits N (a + b + 2 * N * 1) := ⟨by omega, by omega⟩
        rw [← wrap_add 1, wrap_eq hfit, Int.mul_one]
      exact .inr ⟨by omega, by omega, by omega⟩
    · have hhigh : N ≤ a + b := by
        by_contra hlt
        exact h ⟨by omega, by omega⟩
      have hw : wrap N (a + b) = a + b - 2 * N := by
        have hfit : Fits N (a + b + 2 * N * (-1)) := ⟨by omega, by omega⟩
        rw [← wrap_add (-1), wrap_eq hfit]
        ring
      exact .inl ⟨by omega, by omega, by omega⟩

/-- The division truncates. -/
theorem quotient_differs_iff (ha : Fits N a) (hne : a ≠ 0) :
    (wrap N (a * b)).tdiv a ≠ b ↔ ¬ Fits N (a * b) := by
  constructor
  · intro h hfit
    rw [wrap_eq hfit, Int.mul_tdiv_cancel_left b hne] at h
    exact h rfl
  · intro h heq
    obtain ⟨k, hk⟩ := exists_wrap N (a * b)
    have hmod := Int.mul_tdiv_add_tmod (wrap N (a * b)) a
    rw [heq] at hmod
    -- the remainder is a multiple of the range and smaller than it
    have hrest : (wrap N (a * b)).tmod a = 2 * N * k := by omega
    have hsmall : (2 * N * k).natAbs < a.natAbs := by
      rw [← hrest, Int.natAbs_tmod]
      exact Nat.mod_lt _ (Int.natAbs_pos.mpr hne)
    have hk₀ : k ≠ 0 := by
      rintro rfl
      have hN : 0 < N := by
        have := ha.1
        have := ha.2
        omega
      have hfit := wrap_fits hN (a * b)
      rw [hk, Int.mul_zero, Int.add_zero] at hfit
      exact h hfit
    have hlarge : (2 * N).natAbs ≤ (2 * N * k).natAbs := by
      rw [Int.natAbs_mul (2 * N) k]
      exact Nat.le_mul_of_pos_right _ (Int.natAbs_pos.mpr hk₀)
    obtain ⟨ha₀, ha₁⟩ := ha
    omega

end LuatAir200.Wrapping
