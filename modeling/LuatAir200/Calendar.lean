import Mathlib.Algebra.Ring.Int.Defs
import Mathlib.Tactic.Ring

/-!
# Dates

The proleptic Gregorian calendar. The number of a day counts the days up to it, so that it grows by
one from each day to the next.
-/
namespace LuatAir200.Calendar

def IsLeap (y : ℤ) : Prop := y % 4 = 0 ∧ (y % 100 ≠ 0 ∨ y % 400 = 0)

instance (y : ℤ) : Decidable (IsLeap y) := inferInstanceAs (Decidable (_ ∧ _))

def monthDays (y m : ℤ) : ℤ :=
  if m = 2 then (if IsLeap y then 29 else 28)
  else if m = 4 ∨ m = 6 ∨ m = 9 ∨ m = 11 then 30
  else 31

structure IsDate (y m d : ℤ) : Prop where
  month_pos : 1 ≤ m
  month_le : m ≤ 12
  day_pos : 1 ≤ d
  day_le : d ≤ monthDays y m

theorem monthDays_pos (y m : ℤ) : 1 ≤ monthDays y m := by
  rw [monthDays]
  split
  · split <;> decide
  · split <;> decide

theorem monthDays_le (y m : ℤ) : monthDays y m ≤ 31 := by
  rw [monthDays]
  split
  · split <;> decide
  · split <;> decide

/-- The first day of a month. -/
theorem isDate_first (y : ℤ) {m : ℤ} (h1 : 1 ≤ m) (h12 : m ≤ 12) : IsDate y m 1 :=
  ⟨h1, h12, le_refl 1, monthDays_pos y m⟩

/-- The last day of a month. -/
theorem isDate_last (y : ℤ) {m : ℤ} (h1 : 1 ≤ m) (h12 : m ≤ 12) : IsDate y m (monthDays y m) :=
  ⟨h1, h12, monthDays_pos y m, le_refl _⟩

/-- The days of the months 1 to `m`. -/
def monthSum (y : ℤ) : ℕ → ℤ
  | 0 => 0
  | m + 1 => monthSum y m + monthDays y (m + 1)

/-- The days of the years in front of `y`, from year 1 on. -/
def yearSum (y : ℤ) : ℤ := 365 * (y - 1) + (y - 1) / 4 - (y - 1) / 100 + (y - 1) / 400

def dayNumber (y m d : ℤ) : ℤ := yearSum y + monthSum y (m - 1).toNat + d

theorem dayNumber_add (y m d k : ℤ) : dayNumber y m (d + k) = dayNumber y m d + k := by
  rw [dayNumber, dayNumber]
  ring

/-- The first day of a year. -/
theorem dayNumber_first (y : ℤ) : dayNumber y 1 1 = yearSum y + 1 := by
  rw [dayNumber, Int.sub_self, Int.toNat_zero, monthSum, Int.add_zero]

/-- The first day of a month is the one behind the last day of the month before. -/
theorem dayNumber_month {y m : ℤ} (hm : 1 ≤ m) :
    dayNumber y (m + 1) 1 = dayNumber y m (monthDays y m) + 1 := by
  have hsucc : (m + 1 - 1).toNat = (m - 1).toNat + 1 := by omega
  have hcast : ((m - 1).toNat : ℤ) + 1 = m := by omega
  rw [dayNumber, dayNumber, hsucc, monthSum, hcast]
  ring

theorem yearSum_succ (y : ℤ) : yearSum (y + 1) = yearSum y + 365 + if IsLeap y then 1 else 0 := by
  rw [yearSum, yearSum]
  split <;> rename_i h <;> rw [IsLeap] at h <;> omega

theorem monthSum_year (y : ℤ) : monthSum y 11 + 31 = 365 + if IsLeap y then 1 else 0 := by
  by_cases h : IsLeap y <;> simp [monthSum, monthDays, h]

/-- The first day of a year is the one behind the last day of the year before. -/
theorem dayNumber_year (y : ℤ) : dayNumber (y + 1) 1 1 = dayNumber y 12 31 + 1 := by
  have h12 : (12 - 1 : ℤ).toNat = 11 := rfl
  have h1 : (1 - 1 : ℤ).toNat = 0 := rfl
  have hsum := monthSum_year y
  rw [dayNumber, dayNumber, yearSum_succ, h12, h1, monthSum]
  omega

/-! ## The order of the days -/

theorem yearSum_le {y z : ℤ} (h : y ≤ z) : yearSum y ≤ yearSum z := by
  induction z, h using Int.leInduction with
  | base => exact le_refl _
  | succ z _ ih =>
      have hsucc := yearSum_succ z
      split at hsucc
      · omega
      · omega

theorem monthSum_le (y : ℤ) {m n : ℕ} (h : m ≤ n) : monthSum y m ≤ monthSum y n := by
  induction n, h using Nat.le_induction with
  | base => exact le_refl _
  | succ n _ ih =>
      have hpos := monthDays_pos y (n + 1)
      rw [monthSum]
      omega

theorem monthDays_december (y : ℤ) : monthDays y 12 = 31 := by
  simp [monthDays]

theorem monthSum_twelve (y : ℤ) : monthSum y 12 = 365 + if IsLeap y then 1 else 0 := by
  have hyear := monthSum_year y
  rw [monthSum, ← hyear, ← monthDays_december y]
  rfl

/-- A date is within its year. -/
theorem IsDate.within_year {y m d : ℤ} (h : IsDate y m d) :
    yearSum y < dayNumber y m d ∧ dayNumber y m d ≤ yearSum (y + 1) := by
  obtain ⟨h1, h12, hd1, hd⟩ := h
  have hfirst : 0 ≤ monthSum y (m - 1).toNat := monthSum_le y (Nat.zero_le _)
  have hlast : monthSum y ((m - 1).toNat + 1) ≤ monthSum y 12 := monthSum_le y (by omega)
  have hcast : ((m - 1).toNat : ℤ) + 1 = m := by omega
  have hyear := monthSum_twelve y
  have hsucc := yearSum_succ y
  rw [monthSum, hcast] at hlast
  rw [dayNumber]
  constructor <;> omega

/-- Different dates have different numbers. -/
theorem dayNumber_inj {y m d z n e : ℤ} (h : IsDate y m d) (h' : IsDate z n e)
    (heq : dayNumber y m d = dayNumber z n e) : y = z ∧ m = n ∧ d = e := by
  have hyear : y = z := by
    obtain ⟨hlow, hhigh⟩ := h.within_year
    obtain ⟨hlow', hhigh'⟩ := h'.within_year
    by_contra hne
    obtain hlt | hgt := lt_or_gt_of_ne hne
    · have := yearSum_le (show y + 1 ≤ z by omega)
      omega
    · have := yearSum_le (show z + 1 ≤ y by omega)
      omega
  subst hyear
  have hcast : ((m - 1).toNat : ℤ) + 1 = m := by have := h.month_pos; omega
  have hcast' : ((n - 1).toNat : ℤ) + 1 = n := by have := h'.month_pos; omega
  have hsum : monthSum y ((m - 1).toNat + 1) = monthSum y (m - 1).toNat + monthDays y m := by
    rw [monthSum, hcast]
  have hsum' : monthSum y ((n - 1).toNat + 1) = monthSum y (n - 1).toNat + monthDays y n := by
    rw [monthSum, hcast']
  obtain ⟨h1, h12, hd1, hd⟩ := h
  obtain ⟨h1', h12', hd1', hd'⟩ := h'
  rw [dayNumber, dayNumber] at heq
  have hmonth : m = n := by
    by_contra hne
    obtain hlt | hgt := lt_or_gt_of_ne hne
    · have := monthSum_le y (show (m - 1).toNat + 1 ≤ (n - 1).toNat by omega)
      omega
    · have := monthSum_le y (show (n - 1).toNat + 1 ≤ (m - 1).toNat by omega)
      omega
  subst hmonth
  omega

end LuatAir200.Calendar
