import LuatAir200.ClockZone

/-!
# From one time zone to another and back

`transftimezone` on tables of numbers, for the dates of all years.
-/
namespace LuatAir200.Update
open Lua Calendar

/-- A valid date and time. -/
structure Moment where
  year : ℤ
  month : ℤ
  day : ℤ
  hour : ℤ
  min : ℤ
  sec : ℤ
  date : IsDate year month day
  hour_pos : 0 ≤ hour
  hour_lt : hour < 24
  min_pos : 0 ≤ min
  min_lt : min < 60
  sec_pos : 0 ≤ sec
  sec_lt : sec < 60

namespace Moment

/-- The fields that `transftimezone` takes and returns. -/
def table (t : Moment) : Clk :=
  ⟨.num t.year, .num t.month, .num t.day, .num t.hour, .num t.min, .num t.sec⟩

/-- The full hours up to a time. -/
def hours (t : Moment) : ℤ := 24 * dayNumber t.year t.month t.day + t.hour

/-- `u` is `k` hours later than `t`. -/
structure Later (t u : Moment) (k : ℤ) : Prop where
  hours : u.hours = t.hours + k
  min : u.min = t.min
  sec : u.sec = t.sec

theorem hours_inj {t u : Moment} (h : t.hours = u.hours) (hm : t.min = u.min)
    (hs : t.sec = u.sec) : t = u := by
  have ht := t.hour_pos
  have ht' := t.hour_lt
  have hu := u.hour_pos
  have hu' := u.hour_lt
  have hday : dayNumber t.year t.month t.day = dayNumber u.year u.month u.day := by
    rw [Moment.hours, Moment.hours] at h
    omega
  have hhour : t.hour = u.hour := by
    rw [Moment.hours, Moment.hours, hday] at h
    omega
  obtain ⟨hy, hmo, hd⟩ := dayNumber_inj t.date u.date hday
  cases t
  cases u
  simp_all

end Moment

/-- The fields of the next date are numbers, too. -/
theorem carry_nums {y m d : ℤ} (h : IsDate y m d) : ∃ y' m' d', IsDate y' m' d' ∧
    carry (.num y) (.num m) (d + 1) = (.num y', .num m', d') ∧
    dayNumber y' m' d' = dayNumber y m d + 1 := by
  have hshape : ∃ y' m' d', carry (.num y) (.num m) (d + 1) = (.num y', .num m', d') := by
    rw [carry_num (.num y) h.month_pos h.month_le]
    split
    · exact ⟨_, _, _, rfl⟩
    · split
      · exact ⟨_, _, _, rfl⟩
      · exact ⟨_, _, _, rfl⟩
  obtain ⟨y', m', d', hcarry⟩ := hshape
  have hdate := carry_date (y := .num y) h
  rw [hcarry] at hdate
  exact ⟨y', m', d', hdate.1, hcarry, hdate.2⟩

theorem borrow_nums {y m d : ℤ} (h : IsDate y m d) : ∃ y' m' d', IsDate y' m' d' ∧
    borrow (.num y) (.num m) (d - 1) = (.num y', .num m', d') ∧
    dayNumber y' m' d' + 1 = dayNumber y m d := by
  have hshape : ∃ y' m' d', borrow (.num y) (.num m) (d - 1) = (.num y', .num m', d') := by
    rw [borrow_num (.num y) h.month_pos h.month_le]
    split
    · exact ⟨_, _, _, rfl⟩
    · split
      · exact ⟨_, _, _, rfl⟩
      · exact ⟨_, _, _, rfl⟩
  obtain ⟨y', m', d', hborrow⟩ := hshape
  have hdate := borrow_date (y := .num y) h
  rw [hborrow] at hdate
  exact ⟨y', m', d', hdate.1, hborrow, hdate.2⟩

theorem timeAddzone_moment (t : Moment) {zone : ℤ} (h0 : 0 ≤ zone) (h24 : zone < 24) :
    ∃ u, timeAddzone t.table zone = u.table ∧ t.Later u zone := by
  have hpos := t.hour_pos
  have hlt := t.hour_lt
  by_cases hh : 24 ≤ t.hour + zone
  · obtain ⟨y, m, d, hdate, hcarry, hday⟩ := carry_nums t.date
    refine ⟨⟨y, m, d, t.hour + zone - 24, t.min, t.sec, hdate, by omega, by omega, t.min_pos,
      t.min_lt, t.sec_pos, t.sec_lt⟩, ?_, ?_, rfl, rfl⟩
    · simp [timeAddzone, Moment.table, hh, hcarry]
    · simp only [Moment.hours, hday]
      ring
  · refine ⟨⟨t.year, t.month, t.day, t.hour + zone, t.min, t.sec, t.date, by omega, by omega,
      t.min_pos, t.min_lt, t.sec_pos, t.sec_lt⟩, ?_, ?_, rfl, rfl⟩
    · simp [timeAddzone, Moment.table, hh]
    · simp only [Moment.hours]
      ring

theorem timeRmozone_moment (t : Moment) {zone : ℤ} (h0 : zone < 0) (h24 : -24 ≤ zone) :
    ∃ u, timeRmozone t.table zone = u.table ∧ t.Later u zone := by
  have hpos := t.hour_pos
  have hlt := t.hour_lt
  by_cases hh : t.hour + zone < 0
  · obtain ⟨y, m, d, hdate, hborrow, hday⟩ := borrow_nums t.date
    refine ⟨⟨y, m, d, t.hour + zone + 24, t.min, t.sec, hdate, by omega, by omega, t.min_pos,
      t.min_lt, t.sec_pos, t.sec_lt⟩, ?_, ?_, rfl, rfl⟩
    · simp [timeRmozone, Moment.table, hh, hborrow]
    · simp only [Moment.hours, ← hday]
      ring
  · refine ⟨⟨t.year, t.month, t.day, t.hour + zone, t.min, t.sec, t.date, by omega, by omega,
      t.min_pos, t.min_lt, t.sec_pos, t.sec_lt⟩, ?_, ?_, rfl, rfl⟩
    · simp [timeRmozone, Moment.table, hh]
    · simp only [Moment.hours]
      ring

/-- Within the range of `transftimezone` every time is converted. -/
theorem transftimezone_moment (t : Moment) {pre now : ℤ} (h : -24 ≤ now - pre)
    (h' : now - pre < 23) :
    ∃ u, transftimezone t.table pre now = some u.table ∧ t.Later u (now - pre) := by
  rw [transftimezone]
  by_cases h0 : 0 ≤ now - pre
  · obtain ⟨u, hu, hlater⟩ := timeAddzone_moment t h0 (by omega)
    refine ⟨u, ?_, hlater⟩
    rw [if_pos ⟨h0, h'⟩, hu]
  · obtain ⟨u, hu, hlater⟩ := timeRmozone_moment t (by omega) h
    refine ⟨u, ?_, hlater⟩
    rw [if_neg (by omega), if_pos (by omega), hu]

/-- Outside of it the result is the empty table. -/
theorem transftimezone_none (c : Clk) {pre now : ℤ} (h : 23 ≤ now - pre) :
    transftimezone c pre now = none := by
  rw [transftimezone, if_neg (by omega), if_neg (by omega)]

/-- The result is the time `now - pre` hours later, and the way back leads to the time. -/
def Exact (t : Moment) (pre now : ℤ) : Prop :=
  ∃ u : Moment, transftimezone t.table pre now = some u.table ∧ t.Later u (now - pre) ∧
    transftimezone u.table now pre = some t.table

/-- The zones have to be less than 23 hours apart. -/
theorem exact_iff (t : Moment) (pre now : ℤ) :
    Exact t pre now ↔ now - pre < 23 ∧ pre - now < 23 := by
  constructor
  · rintro ⟨u, hu, -, hback⟩
    constructor
    · by_contra hge
      rw [transftimezone_none t.table (not_lt.mp hge)] at hu
      cases hu
    · by_contra hge
      rw [transftimezone_none u.table (not_lt.mp hge)] at hback
      cases hback
  · rintro ⟨hlt, hlt'⟩
    obtain ⟨u, hu, hlater⟩ := transftimezone_moment t (by omega) hlt
    obtain ⟨v, hv, hback⟩ := transftimezone_moment u (by omega) hlt'
    have hhours := hback.hours
    rw [hlater.hours] at hhours
    have hvt : v = t := by
      apply Moment.hours_inj
      · omega
      · rw [hback.min, hlater.min]
      · rw [hback.sec, hlater.sec]
    rw [hvt] at hv
    exact ⟨u, hu, hlater, hv⟩

/-- Noon on a leap day. -/
def leapNoon : Moment :=
  ⟨2024, 2, 29, 12, 0, 0, ⟨by decide, by decide, by decide, by decide⟩, by decide, by decide,
    by decide, by decide, by decide, by decide⟩

/-- There is no conversion from -12 to 11. -/
theorem zone_too_far : ¬∀ (t : Moment) (pre now : ℤ), -12 ≤ pre ∧ pre ≤ 12 →
    -12 ≤ now ∧ now ≤ 12 → Exact t pre now := by
  intro h
  obtain ⟨u, hu, -⟩ := h leapNoon (-12) 11 (by decide) (by decide)
  rw [transftimezone_none leapNoon.table (by decide)] at hu
  cases hu

end LuatAir200.Update
