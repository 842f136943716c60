import LuatAir200.Calendar
import LuatAir200.Wrapping
import Mathlib.Tactic.IntervalCases

/-!
# `time.c`: the fields of an instant

`int`, `long` and `time_t` have 32 bits. A null pointer is `none`. In `gmtime` and in the carries of
`localtime` no number is larger than the argument or outside of its field by more than a day.
-/
namespace LuatAir200.Libc
open Calendar Wrapping

structure Tm where
  tm_sec : ℤ
  tm_min : ℤ
  tm_hour : ℤ
  tm_mday : ℤ
  tm_mon : ℤ
  tm_year : ℤ
  tm_wday : ℤ
  tm_yday : ℤ
  tm_isdst : ℤ
  deriving DecidableEq

def DAY_SEC : ℤ := 24 * 60 * 60

def YEAR_SEC : ℤ := 365 * DAY_SEC

def FOUR_YEAR_SEC : ℤ := 1461 * DAY_SEC

def BASE_DOW : ℤ := 4

def LONG_MAX : ℤ := 0x7fffffff

/-- A result of 32 bits. -/
def long (x : ℤ) : ℤ := wrap 2147483648 x

def lpdays : List ℤ := [-1, 30, 59, 90, 120, 151, 181, 212, 243, 273, 304, 334, 365]

def days : List ℤ := [-1, 30, 58, 89, 119, 150, 180, 211, 242, 272, 303, 333, 364]

def timezone : ℤ := -8 * 3600

def daylight : ℤ := 0

def dstbias : ℤ := -3600

/-- The year within a block of four, the seconds since it began, and whether it is a leap year. -/
def yearInBlock (tmptim caltim : ℤ) : ℤ × ℤ × Bool :=
  if YEAR_SEC ≤ caltim then
    let tmptim := tmptim + 1
    let caltim := caltim - YEAR_SEC
    if YEAR_SEC ≤ caltim then
      let tmptim := tmptim + 1
      let caltim := caltim - YEAR_SEC
      if YEAR_SEC + DAY_SEC ≤ caltim then (tmptim + 1, caltim - (YEAR_SEC + DAY_SEC), false)
      else (tmptim, caltim, true)
    else (tmptim, caltim, false)
  else (tmptim, caltim, false)

/-- The loop over the months from `tmptim` on, in at most `n` rounds. -/
def monthLoop (mdays : List ℤ) (yday : ℤ) : ℕ → ℕ → ℕ
  | 0, tmptim => tmptim
  | n + 1, tmptim =>
      if mdays.getD tmptim 0 < yday then monthLoop mdays yday n (tmptim + 1) else tmptim

def gmtime (timp : ℤ) : Option Tm :=
  if timp < 0 then none
  else
    let tmptim := timp.tdiv FOUR_YEAR_SEC
    let caltim := timp - tmptim * FOUR_YEAR_SEC
    let (year, caltim, islpyr) := yearInBlock (tmptim * 4 + 70) caltim
    let yday := caltim.tdiv DAY_SEC
    let caltim := caltim - yday * DAY_SEC
    let mdays := if islpyr then lpdays else days
    let mon := monthLoop mdays yday 12 1 - 1
    let hour := caltim.tdiv 3600
    let caltim := caltim - hour * 3600
    let min := caltim.tdiv 60
    some {
      tm_sec := caltim - min * 60
      tm_min := min
      tm_hour := hour
      tm_mday := yday - mdays.getD mon 0
      tm_mon := mon
      tm_year := year
      tm_wday := (timp.tdiv DAY_SEC + BASE_DOW).tmod 7
      tm_yday := yday
      tm_isdst := 0 }

/-- Daylight saving time is not supported. -/
def isindst (_timeptr : Tm) : ℤ := if daylight = 0 then 0 else 0

/-- The value of a field with `n` values, and what is left for the carry. -/
def field (n ltime : ℤ) : ℤ × ℤ :=
  let x := ltime.tmod n
  if x < 0 then (x + n, ltime - n) else (x, ltime)

/-- The time zone added field by field. -/
def carry (ptm : Tm) : Tm :=
  let ltime := if isindst ptm ≠ 0 then ptm.tm_sec - (timezone + dstbias) else ptm.tm_sec - timezone
  let (sec, ltime) := field 60 ltime
  let (min, ltime) := field 60 (ptm.tm_min + ltime.tdiv 60)
  let (hour, ltime) := field 24 (ptm.tm_hour + ltime.tdiv 60)
  let ltime := ltime.tdiv 24
  let ptm : Tm := { ptm with tm_sec := sec, tm_min := min, tm_hour := hour }
  if 0 < ltime then
    { ptm with
      tm_wday := (ptm.tm_wday + ltime).tmod 7
      tm_mday := ptm.tm_mday + ltime
      tm_yday := ptm.tm_yday + ltime }
  else if ltime < 0 then
    let ptm : Tm := { ptm with
      tm_wday := (ptm.tm_wday + 7 + ltime).tmod 7
      tm_mday := ptm.tm_mday + ltime }
    if ptm.tm_mday ≤ 0 then
      { ptm with
        tm_mday := ptm.tm_mday + 31
        tm_yday := 364
        tm_mon := 11
        tm_year := ptm.tm_year - 1 }
    else { ptm with tm_yday := ptm.tm_yday + ltime }
  else ptm

def localtime (ptime : ℤ) : Option Tm :=
  if ptime < 0 then none
  else if 3 * DAY_SEC < ptime ∧ ptime < LONG_MAX - 3 * DAY_SEC then
    let ltime := long (ptime - timezone)
    (gmtime ltime).bind fun ptm =>
      if daylight ≠ 0 ∧ isindst ptm ≠ 0 then
        (gmtime (long (ltime - dstbias))).map fun ptm => { ptm with tm_isdst := 1 }
      else some ptm
  else (gmtime ptime).map carry

/-! ## The fields of an instant -/

/-- The days since the beginning of 1970. -/
def dayOf (u : Tm) : ℤ :=
  dayNumber (1900 + u.tm_year) (u.tm_mon + 1) u.tm_mday - dayNumber 1970 1 1

/-- `u` shows the second `t`; the first day of 1970 was a Thursday. -/
structure Fields (t : ℤ) (u : Tm) : Prop where
  date : IsDate (1900 + u.tm_year) (u.tm_mon + 1) u.tm_mday
  hour_pos : 0 ≤ u.tm_hour
  hour_lt : u.tm_hour < 24
  min_pos : 0 ≤ u.tm_min
  min_lt : u.tm_min < 60
  sec_pos : 0 ≤ u.tm_sec
  sec_lt : u.tm_sec < 60
  instant : ((dayOf u * 24 + u.tm_hour) * 60 + u.tm_min) * 60 + u.tm_sec = t
  wday : u.tm_wday = (4 + dayOf u) % 7
  yday : u.tm_yday = dayNumber (1900 + u.tm_year) (u.tm_mon + 1) u.tm_mday -
    dayNumber (1900 + u.tm_year) 1 1
  isdst : u.tm_isdst = 0

theorem Fields.day {t : ℤ} {u : Tm} (h : Fields t u) : dayOf u = t / 86400 := by
  have := h.instant
  have := h.hour_pos
  have := h.hour_lt
  have := h.min_pos
  have := h.min_lt
  have := h.sec_pos
  have := h.sec_lt
  omega

/-- An instant has no other fields. -/
theorem Fields.unique {t : ℤ} {u v : Tm} (h : Fields t u) (k : Fields t v) : u = v := by
  have hday : dayOf u = dayOf v := h.day.trans k.day.symm
  have hnum : dayNumber (1900 + u.tm_year) (u.tm_mon + 1) u.tm_mday =
      dayNumber (1900 + v.tm_year) (v.tm_mon + 1) v.tm_mday := by
    rw [dayOf, dayOf] at hday
    omega
  obtain ⟨hyear, hmon, hmday⟩ := dayNumber_inj h.date k.date hnum
  have htime : u.tm_hour = v.tm_hour ∧ u.tm_min = v.tm_min ∧ u.tm_sec = v.tm_sec := by
    have := h.instant
    have := k.instant
    have := h.hour_pos
    have := k.hour_pos
    have := h.hour_lt
    have := k.hour_lt
    have := h.min_pos
    have := k.min_pos
    have := h.min_lt
    have := k.min_lt
    have := h.sec_pos
    have := k.sec_pos
    have := h.sec_lt
    have := k.sec_lt
    omega
  have hwday : u.tm_wday = v.tm_wday := by rw [h.wday, k.wday, hday]
  have hyday : u.tm_yday = v.tm_yday := by rw [h.yday, k.yday, hyear, hmon, hmday]
  have hdst : u.tm_isdst = v.tm_isdst := by rw [h.isdst, k.isdst]
  cases u
  cases v
  simp only [Tm.mk.injEq] at *
  omega

/-! ## The year and the month -/

/-- From 1901 to 2099 every fourth year is a leap year. -/
theorem isLeap_iff {y : ℤ} (h₀ : 1 ≤ y) (h₁ : y < 200) : IsLeap (1900 + y) ↔ y % 4 = 0 := by
  rw [IsLeap]
  omega

theorem yearSum_eq {y : ℤ} (h₀ : 1 ≤ y) (h₁ : y < 200) :
    yearSum (1900 + y) - yearSum 1970 = (y - 70) * 365 + (y - 1) / 4 - 17 := by
  rw [yearSum, yearSum]
  omega

/-- What is known of the year, `caltim` seconds of which have passed. -/
structure InYear (t year caltim : ℤ) (islpyr : Bool) : Prop where
  low : 70 ≤ year
  high : year < 200
  leap : IsLeap (1900 + year) ↔ islpyr = true
  pos : 0 ≤ caltim
  lt : caltim < 86400 * (365 + if islpyr then 1 else 0)
  instant : t = 86400 * (yearSum (1900 + year) - yearSum 1970) + caltim

theorem inYear_block {q c : ℤ} (hq₀ : 0 ≤ q) (hq : q < 30) (hc₀ : 0 ≤ c)
    (hc : c < 1461 * 86400) {r : ℤ × ℤ × Bool} (hr : yearInBlock (q * 4 + 70) c = r) :
    InYear (q * (1461 * 86400) + c) r.1 r.2.1 r.2.2 := by
  -- `i` years of the block have passed, the third of which is a leap year
  have hin : ∀ i year c' b, 0 ≤ i → i ≤ 3 → year = q * 4 + 70 + i → (i = 2 ↔ b = true) → 0 ≤ c' →
      c' < 86400 * (365 + if b then 1 else 0) → c = 86400 * (365 * i + (i + 1) / 4) + c' →
      InYear (q * (1461 * 86400) + c) year c' b := by
    intro i year c' b h₀ h₃ hy hb hpos hlt hc'
    have hsum := yearSum_eq (y := year) (by omega) (by omega)
    refine ⟨by omega, by omega, ?_, hpos, hlt, ?_⟩
    · rw [isLeap_iff (by omega) (by omega), ← hb]
      omega
    · rw [hsum]
      omega
  have hyear : YEAR_SEC = 31536000 := rfl
  have hday : DAY_SEC = 86400 := rfl
  simp only [yearInBlock, hyear, hday] at hr
  split at hr
  · split at hr
    · split at hr
      · subst hr
        exact hin 3 _ _ _ (by omega) (by omega) (by dsimp only; omega) (by simp)
          (by dsimp only; omega) (by simp; omega) (by dsimp only; omega)
      · subst hr
        exact hin 2 _ _ _ (by omega) (by omega) (by dsimp only; omega) (by simp)
          (by dsimp only; omega) (by simp; omega) (by dsimp only; omega)
    · subst hr
      exact hin 1 _ _ _ (by omega) (by omega) (by dsimp only) (by simp)
        (by dsimp only; omega) (by simp; omega) (by dsimp only; omega)
  · subst hr
    exact hin 0 _ _ _ (by omega) (by omega) (by dsimp only; omega) (by simp)
      (by dsimp only; omega) (by simp; omega) (by dsimp only; omega)

/-- The loop stops at the first entry that is not smaller. -/
theorem monthLoop_spec {mdays : List ℤ} {yday : ℤ} {m : ℕ} (hlast : yday ≤ mdays.getD m 0)
    (n k : ℕ) (hk : k ≤ m) (hn : m ≤ k + n) {r : ℕ} (hr : monthLoop mdays yday n k = r) :
    k ≤ r ∧ r ≤ m ∧ yday ≤ mdays.getD r 0 ∧ (r = k ∨ mdays.getD (r - 1) 0 < yday) := by
  induction n generalizing k with
  | zero =>
      obtain rfl : k = m := by omega
      obtain rfl : k = r := hr
      exact ⟨hk, hk, hlast, .inl rfl⟩
  | succ n ih =>
      rw [monthLoop] at hr
      split at hr
      · next hlt =>
          have hne : k ≠ m := by
            rintro rfl
            omega
          obtain ⟨h₁, h₂, h₃, h₄⟩ := ih (k + 1) (by omega) (by omega) hr
          refine ⟨by omega, h₂, h₃, .inr ?_⟩
          rcases h₄ with rfl | h₄
          · exact hlt
          · exact h₄
      · next hle =>
          obtain rfl : k = r := hr
          exact ⟨Nat.le_refl k, hk, Int.not_lt.mp hle, .inl rfl⟩

/-- The tables count the days up to the end of each month, less one. -/
theorem mdays_eq {y : ℤ} {islpyr : Bool} (h : IsLeap y ↔ islpyr = true) {m : ℕ} (hm : m ≤ 12) :
    (if islpyr then lpdays else days).getD m 0 = monthSum y m - 1 := by
  cases islpyr
  · have hno : ¬ IsLeap y := by simpa using h
    interval_cases m <;> simp [days, monthSum, monthDays, hno]
  · have hyes : IsLeap y := by simpa using h
    interval_cases m <;> simp [lpdays, monthSum, monthDays, hyes]

/-- A day of the year as a day of a month. -/
theorem isDate_of_monthSum {y d : ℤ} {m : ℕ} (h₁ : 1 ≤ m) (h₁₂ : m ≤ 12)
    (hlow : monthSum y (m - 1) < d) (hhigh : d ≤ monthSum y m) :
    IsDate y m (d - monthSum y (m - 1)) ∧
      dayNumber y m (d - monthSum y (m - 1)) = yearSum y + d := by
  obtain ⟨k, rfl⟩ : ∃ k, m = k + 1 := ⟨m - 1, by omega⟩
  have hk : ((k + 1 : ℕ) - 1 : ℤ).toNat = k := by omega
  rw [Nat.add_sub_cancel] at *
  rw [monthSum] at hhigh
  refine ⟨⟨by omega, by omega, by omega, ?_⟩, ?_⟩
  · push_cast
    omega
  · rw [dayNumber, hk]
    omega

/-- The month and the day of the month from the day of the year. -/
theorem month_date {y yday : ℤ} {islpyr : Bool} (hleap : IsLeap y ↔ islpyr = true)
    (h₀ : 0 ≤ yday) (h : yday < 365 + if islpyr then 1 else 0) {mon : ℕ}
    (hmon : monthLoop (if islpyr then lpdays else days) yday 12 1 - 1 = mon) :
    IsDate y (mon + 1) (yday - (if islpyr then lpdays else days).getD mon 0) ∧
      dayNumber y (mon + 1) (yday - (if islpyr then lpdays else days).getD mon 0) =
        yearSum y + yday + 1 := by
  have hyear := monthSum_twelve y
  have hlast : yday ≤ (if islpyr then lpdays else days).getD 12 0 := by
    rw [mdays_eq hleap (Nat.le_refl 12), hyear]
    cases islpyr <;> simp_all <;> omega
  obtain ⟨r, hr⟩ : ∃ r, monthLoop (if islpyr then lpdays else days) yday 12 1 = r := ⟨_, rfl⟩
  obtain ⟨h₁, h₁₂, hhigh, hlow⟩ := monthLoop_spec hlast 12 1 (by omega) (by omega) hr
  obtain rfl : r - 1 = mon := hr ▸ hmon
  rw [mdays_eq hleap h₁₂] at hhigh
  rw [mdays_eq hleap (by omega)] at hlow ⊢
  have hlow' : monthSum y (r - 1) < yday + 1 := by
    rcases hlow with rfl | hlow
    · exact Int.lt_add_one_of_le h₀
    · omega
  obtain ⟨hdate, hnum⟩ := isDate_of_monthSum h₁ h₁₂ hlow' (by omega)
  have hcast : ((r - 1 : ℕ) : ℤ) + 1 = r := by omega
  have hmday : yday - (monthSum y (r - 1) - 1) = yday + 1 - monthSum y (r - 1) := by omega
  rw [hcast, hmday]
  exact ⟨hdate, by omega⟩

theorem gmtime_fields {t : ℤ} (h₀ : 0 ≤ t) (h : t < 2147483648) :
    ∃ u, gmtime t = some u ∧ Fields t u := by
  have hdiv : ∀ {a : ℤ} (b), 0 ≤ a → a.tdiv b = a / b := fun _ ha =>
    Int.tdiv_eq_ediv_of_nonneg ha
  have hblock : FOUR_YEAR_SEC = 126230400 := rfl
  have hday : DAY_SEC = 86400 := rfl
  have hdow : BASE_DOW = 4 := rfl
  unfold gmtime
  rw [if_neg (Int.not_lt.mpr h₀)]
  simp only [hdiv _ h₀, hblock, hday, hdow]
  obtain ⟨⟨year, caltim, islpyr⟩, hr⟩ :
      ∃ r, yearInBlock (t / 126230400 * 4 + 70) (t - t / 126230400 * 126230400) = r := ⟨_, rfl⟩
  have hin := inYear_block (q := t / 126230400) (by omega) (by omega) (by omega) (by omega) hr
  dsimp only at hin
  have ht : t / 126230400 * (1461 * 86400) + (t - t / 126230400 * 126230400) = t := by omega
  rw [ht] at hin
  rw [hr]
  simp only [hdiv _ hin.pos]
  have hyday : caltim / 86400 < 365 + if islpyr then 1 else 0 := by
    have := hin.lt
    omega
  obtain ⟨mon, hmon⟩ : ∃ mon,
      monthLoop (if islpyr then lpdays else days) (caltim / 86400) 12 1 - 1 = mon := ⟨_, rfl⟩
  obtain ⟨hdate, hnum⟩ := month_date hin.leap (Int.ediv_nonneg hin.pos (by omega)) hyday hmon
  rw [hmon]
  have hpos := hin.pos
  have hinst := hin.instant
  have hsod : 0 ≤ caltim - caltim / 86400 * 86400 := by omega
  have hmin : 0 ≤ caltim - caltim / 86400 * 86400 -
      (caltim - caltim / 86400 * 86400) / 3600 * 3600 := by omega
  simp only [hdiv _ hsod, hdiv _ hmin]
  rw [Int.tmod_eq_emod_of_nonneg (by omega)]
  refine ⟨_, rfl, hdate, ?_, ?_, ?_, ?_, ?_, ?_, ?_, ?_, ?_, rfl⟩
  case refine_7 | refine_8 =>
    rw [dayOf, hnum, dayNumber_first]
    dsimp only
    omega
  case refine_9 =>
    rw [hnum, dayNumber_first]
    dsimp only
    omega
  all_goals
    dsimp only
    omega

/-! ## Local time -/

theorem isindst_eq (u : Tm) : isindst u = 0 := by
  rw [isindst, ite_self]

theorem field_eq {n ltime : ℤ} (h : 0 ≤ ltime) (hn : 0 < n) :
    field n ltime = (ltime % n, ltime) := by
  have hpos := Int.emod_nonneg ltime (Int.ne_of_gt hn)
  rw [field, Int.tmod_eq_emod_of_nonneg h, if_neg (Int.not_lt.mpr hpos)]

/-- Eight hours are a carry of one day at most. -/
theorem carry_eq {t : ℤ} {u : Tm} (h : Fields t u) : carry u =
    if u.tm_hour < 16 then { u with tm_hour := u.tm_hour + 8 }
    else { u with
      tm_hour := u.tm_hour - 16
      tm_wday := (u.tm_wday + 1).tmod 7
      tm_mday := u.tm_mday + 1
      tm_yday := u.tm_yday + 1 } := by
  have hs₀ := h.sec_pos
  have hs := h.sec_lt
  have hm₀ := h.min_pos
  have hm := h.min_lt
  have hh₀ := h.hour_pos
  have hh := h.hour_lt
  have hsec : field 60 (u.tm_sec - timezone) = (u.tm_sec, u.tm_sec + 28800) := by
    rw [field_eq (by rw [timezone]; omega) (by omega), Prod.mk.injEq]
    rw [timezone]
    omega
  have hdiv : (u.tm_sec + 28800).tdiv 60 = 480 := by
    rw [Int.tdiv_eq_ediv_of_nonneg (by omega)]
    omega
  have hmin : field 60 (u.tm_min + 480) = (u.tm_min, u.tm_min + 480) := by
    rw [field_eq (by omega) (by omega), Prod.mk.injEq]
    omega
  have hdiv' : (u.tm_min + 480).tdiv 60 = 8 := by
    rw [Int.tdiv_eq_ediv_of_nonneg (by omega)]
    omega
  have hhour : field 24 (u.tm_hour + 8) = ((u.tm_hour + 8) % 24, u.tm_hour + 8) :=
    field_eq (by omega) (by omega)
  have hdst : ¬ isindst u ≠ 0 := not_not_intro (isindst_eq u)
  simp only [carry, if_neg hdst, hsec, hdiv, hmin, hdiv', hhour]
  rw [Int.tdiv_eq_ediv_of_nonneg (by omega)]
  by_cases hlt : u.tm_hour < 16
  · have hq : (u.tm_hour + 8) / 24 = 0 := by omega
    have hr : (u.tm_hour + 8) % 24 = u.tm_hour + 8 := by omega
    simp [hlt, hq, hr]
  · have hq : (u.tm_hour + 8) / 24 = 1 := by omega
    have hr : (u.tm_hour + 8) % 24 = u.tm_hour - 16 := by omega
    simp [hlt, hq, hr]

theorem carry_fields {t : ℤ} {u : Tm} (h : Fields t u)
    (hnext : IsDate (1900 + u.tm_year) (u.tm_mon + 1) (u.tm_mday + 1)) :
    Fields (t + 28800) (carry u) := by
  have hinst := h.instant
  have hh₀ := h.hour_pos
  have hh := h.hour_lt
  have hwday := h.wday
  have hyday := h.yday
  rw [carry_eq h]
  split
  · refine ⟨h.date, ?_, ?_, h.min_pos, h.min_lt, h.sec_pos, h.sec_lt, ?_, h.wday, h.yday, h.isdst⟩
    · dsimp only
      omega
    · dsimp only
      omega
    · rw [dayOf] at hinst ⊢
      dsimp only
      omega
  · have hday := dayNumber_add (1900 + u.tm_year) (u.tm_mon + 1) u.tm_mday 1
    rw [dayOf] at hinst hwday
    refine ⟨hnext, ?_, ?_, h.min_pos, h.min_lt, h.sec_pos, h.sec_lt, ?_, ?_, ?_, h.isdst⟩
    · dsimp only
      omega
    · dsimp only
      omega
    · rw [dayOf]
      dsimp only
      omega
    · rw [dayOf]
      dsimp only
      rw [Int.tmod_eq_emod_of_nonneg (by omega)]
      omega
    · dsimp only
      omega

/-- A day of the first thirty of a January is followed by another one. -/
theorem next_of_january {t : ℤ} {u : Tm} (h : Fields t u) {y k : ℤ} (h₀ : 0 ≤ k) (hk : k < 30)
    (ht : t / 86400 = dayNumber y 1 1 - dayNumber 1970 1 1 + k) :
    IsDate (1900 + u.tm_year) (u.tm_mon + 1) (u.tm_mday + 1) := by
  have hlen : monthDays y 1 = 31 := by simp [monthDays]
  have hdate : IsDate y 1 (1 + k) := ⟨by omega, by omega, by omega, by omega⟩
  have hday := h.day
  have hadd := dayNumber_add y 1 1 k
  rw [dayOf] at hday
  obtain ⟨hy, hm, hd⟩ := dayNumber_inj h.date hdate (by omega)
  rw [hy, hm, hd]
  exact ⟨by omega, by omega, by omega, by omega⟩

theorem localtime_fields {t : ℤ} (h₀ : 0 ≤ t) (h : t < 2147483648) :
    ∃ u, localtime t = some u ∧ Fields (t + 28800) u := by
  have hday : DAY_SEC = 86400 := rfl
  have hmax : LONG_MAX = 2147483647 := rfl
  unfold localtime
  rw [if_neg (Int.not_lt.mpr h₀), hday, hmax]
  by_cases hmid : 3 * 86400 < t ∧ t < 2147483647 - 3 * 86400
  · have hlong : long (t - timezone) = t + 28800 := by
      rw [long, wrap_eq] <;> rw [timezone]
      · omega
      · exact ⟨by omega, by omega⟩
    obtain ⟨u, hu, hf⟩ := gmtime_fields (t := t + 28800) (by omega) (by omega)
    refine ⟨u, ?_, hf⟩
    have hdst : ¬ (daylight ≠ 0 ∧ isindst u ≠ 0) := fun hd => hd.2 (isindst_eq u)
    rw [if_pos hmid]
    simp only [hlong, hu, Option.bind_some, if_neg hdst]
  · obtain ⟨u, hu, hf⟩ := gmtime_fields h₀ h
    refine ⟨carry u, by rw [if_neg hmid, hu, Option.map_some], carry_fields hf ?_⟩
    by_cases hlow : t ≤ 3 * 86400
    · exact next_of_january hf (y := 1970) (k := t / 86400) (by omega) (by omega) (by omega)
    · have hyear : dayNumber 2038 1 1 - dayNumber 1970 1 1 = 24837 := by decide
      exact next_of_january hf (y := 2038) (k := t / 86400 - 24837) (by omega) (by omega)
        (by omega)

end LuatAir200.Libc
