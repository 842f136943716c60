import LuatAir200.Decimals

/-!
# Numbers without overflow

Lua's numbers are 32-bit integers. As long as no result reaches `2 ^ 31`, what is computed from
natural numbers are natural numbers.
-/
namespace LuatAir200.Lua

/-- The number `i` is the natural number `m`. -/
def IsNat (i : Int32) (m : ℕ) : Prop := i.toInt = m

variable {i j : Int32} {m n : ℕ}

theorem isNat_ofNat (h : m < 2 ^ 31) : IsNat (Int32.ofInt m) m := by
  rw [IsNat, Int32.toInt_ofInt_of_le]
  · omega
  · omega

theorem IsNat.add (hi : IsNat i m) (hj : IsNat j n) (h : m + n < 2 ^ 31) : IsNat (i + j) (m + n) := by
  rw [IsNat] at *
  rw [Int32.toInt_add, hi, hj, Int.bmod_eq_of_le]
  · rfl
  · omega
  · omega

theorem IsNat.mul (hi : IsNat i m) (hj : IsNat j n) (h : m * n < 2 ^ 31) : IsNat (i * j) (m * n) := by
  have hcast : (m : ℤ) * n = (m * n : ℕ) := rfl
  rw [IsNat] at *
  rw [Int32.toInt_mul, hi, hj, hcast, Int.bmod_eq_of_le]
  · omega
  · omega

theorem IsNat.div (hi : IsNat i m) (hj : IsNat j n) (h : j ≠ -1) : IsNat (i / j) (m / n) := by
  rw [IsNat] at *
  rw [Int32.toInt_div_of_ne_right i j h, hi, hj]
  rfl

theorem IsNat.mod (hi : IsNat i m) (hj : IsNat j n) : IsNat (i % j) (m % n) := by
  rw [IsNat] at *
  rw [Int32.toInt_mod, hi, hj]
  rfl

/-- `tonumber` of digits. -/
theorem isNat_numeral {s : LuaString} (h : tonumber s < 2 ^ 31) : IsNat (numeral s) (tonumber s) := by
  rw [numeral, Int.min_eq_left (by omega)]
  exact isNat_ofNat h

/-- The digits of a number. -/
theorem IsNat.number (hi : IsNat i m) : number i = decimal m := by
  rw [IsNat] at hi
  rw [Lua.number, hi, if_neg (by omega), Int.natAbs_natCast]

end LuatAir200.Lua
