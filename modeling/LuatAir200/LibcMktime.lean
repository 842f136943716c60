import LuatAir200.LibcTime

/-!
# `time.c`: the instant of given fields

`_make_time_t` takes any fields. They may be in the block that `localtime` writes to, as they
are after a call of `localtime`.
-/
namespace LuatAir200.Libc
open Calendar Wrapping

def BASE_YEAR : ℤ := 70

def MAX_YEAR : ℤ := 138

def LEAP_YEAR_ADJUST : ℤ := 17

/-- `none` when `ChkAdd` is true. -/
def checkedAdd (src1 src2 : ℤ) : Option ℤ :=
  let dest := long (src1 + src2)
  if SignsDiffer dest src1 src2 then none else some dest

/-- `none` when `ChkMul` is true. -/
def checkedMul (src1 src2 : ℤ) : Option ℤ :=
  let dest := long (src1 * src2)
  if src1 ≠ 0 ∧ dest.tdiv src1 ≠ src2 then none else some dest

/-- The month brought into its year, and that year when it is in range. -/
def adjustMonth (timeptr : Tm) : Tm × Option ℤ :=
  let tmptm1 := timeptr.tm_year
  if tmptm1 < BASE_YEAR - 1 ∨ tmptm1 > MAX_YEAR + 1 then (timeptr, none)
  else if timeptr.tm_mon < 0 ∨ timeptr.tm_mon > 11 then
    let tmptm1 := tmptm1 + timeptr.tm_mon.tdiv 12
    let mon := timeptr.tm_mon.tmod 12
    let (mon, tmptm1) := if mon < 0 then (mon + 12, tmptm1 - 1) else (mon, tmptm1)
    let timeptr := { timeptr with tm_mon := mon }
    if tmptm1 < BASE_YEAR - 1 ∨ tmptm1 > MAX_YEAR + 1 then (timeptr, none)
    else (timeptr, some tmptm1)
  else (timeptr, some tmptm1)

/-- The days since the beginning of 1970 up to the day before the month begins. -/
def daysToMonth (mon tmptm1 : ℤ) : ℤ :=
  let tmptm2 := days.getD mon.toNat 0
  let tmptm2 := if tmptm1 % 4 = 0 ∧ mon > 1 then tmptm2 + 1 else tmptm2
  (tmptm1 - BASE_YEAR) * 365 + (tmptm1 - 1) >>> (2 : ℕ) - LEAP_YEAR_ADJUST + tmptm2

/-- The seconds that have elapsed, counted from the days to the seconds. -/
def elapsed (timeptr : Tm) (tmptm1 : ℤ) : Option ℤ := do
  let tmptm1 ← checkedAdd (daysToMonth timeptr.tm_mon tmptm1) timeptr.tm_mday
  let tmptm2 ← checkedMul tmptm1 24
  let tmptm1 ← checkedAdd tmptm2 timeptr.tm_hour
  let tmptm2 ← checkedMul tmptm1 60
  let tmptm1 ← checkedAdd tmptm2 timeptr.tm_min
  let tmptm2 ← checkedMul tmptm1 60
  checkedAdd tmptm2 timeptr.tm_sec

/-- The result and the fields that are left. `none` is the copy through a null pointer; with
`shared` the fields are in the block of `localtime`. -/
def make_time_t (ultflag shared : Bool) (timeptr : Tm) : Option (ℤ × Tm) :=
  let (timeptr, year) := adjustMonth timeptr
  match year.bind (elapsed timeptr) with
  | none => some (-1, timeptr)
  | some tmptm1 =>
      if ultflag then
        let tmptm1 := long (tmptm1 + timezone)
        match localtime tmptm1 with
        | none => some (-1, timeptr)
        | some tbtemp =>
            let isdst := if shared then tbtemp.tm_isdst else timeptr.tm_isdst
            if isdst > 0 ∨ isdst < 0 ∧ tbtemp.tm_isdst > 0 then
              let tmptm1 := long (tmptm1 + dstbias)
              (localtime tmptm1).map fun tbtemp => (tmptm1, tbtemp)
            else some (tmptm1, tbtemp)
      else
        match gmtime tmptm1 with
        | none => some (-1, timeptr)
        | some tbtemp => some (tmptm1, tbtemp)

def mktime (shared : Bool) (timeptr : Tm) : Option (ℤ × Tm) := make_time_t true shared timeptr

/-! ## The exact count -/

/-- A number of 32 bits. -/
abbrev Word (x : ℤ) : Prop := Fits 2147483648 x

/-- The fields are `int`. -/
structure Tm.Words (u : Tm) : Prop where
  sec : Word u.tm_sec
  min : Word u.tm_min
  hour : Word u.tm_hour
  mday : Word u.tm_mday
  mon : Word u.tm_mon
  year : Word u.tm_year
  wday : Word u.tm_wday
  yday : Word u.tm_yday
  isdst : Word u.tm_isdst

/-- The year of the month that the fields name. -/
def yearOf (u : Tm) : ℤ := u.tm_year + u.tm_mon / 12

/-- The day of any fields, from the first day of 1970 on. -/
def daysOf (u : Tm) : ℤ :=
  dayNumber (1900 + yearOf u) (u.tm_mon % 12 + 1) 1 - dayNumber 1970 1 1 + (u.tm_mday - 1)

def hoursOf (u : Tm) : ℤ := daysOf u * 24 + u.tm_hour

def minutesOf (u : Tm) : ℤ := hoursOf u * 60 + u.tm_min

/-- The seconds of the local time. -/
def secondsOf (u : Tm) : ℤ := minutesOf u * 60 + u.tm_sec

/-- The instant; the local time is eight hours ahead, with daylight saving time nine. -/
def instantOf (u : Tm) : ℤ := secondsOf u - 28800 - if u.tm_isdst > 0 then 3600 else 0

/-- The years from 1969 to 2039, and all counts with 32 bits. -/
structure Counted (u : Tm) : Prop where
  year_low : 69 ≤ u.tm_year
  year_high : u.tm_year ≤ 139
  low : 69 ≤ yearOf u
  high : yearOf u ≤ 139
  days : Word (daysOf u)
  days_hours : Word (daysOf u * 24)
  hours : Word (hoursOf u)
  hours_minutes : Word (hoursOf u * 60)
  minutes : Word (minutesOf u)
  minutes_seconds : Word (minutesOf u * 60)
  seconds : Word (secondsOf u)

theorem checkedAdd_eq_some {a b c : ℤ} (ha : Word a) (hb : Word b) :
    checkedAdd a b = some c ↔ Word (a + b) ∧ a + b = c := by
  unfold checkedAdd long
  dsimp only
  by_cases h : Word (a + b)
  · rw [if_neg (mt (signsDiffer_iff ha hb).mp (not_not_intro h)), wrap_eq h, Option.some.injEq,
      and_iff_right h]
  · rw [if_pos ((signsDiffer_iff ha hb).mpr h)]
    exact iff_of_false nofun (fun hc => h hc.1)

theorem checkedMul_eq_some {a b c : ℤ} (ha : Word a) :
    checkedMul a b = some c ↔ Word (a * b) ∧ a * b = c := by
  unfold checkedMul long
  dsimp only
  by_cases h₀ : a = 0
  · subst h₀
    have hfit : Word (0 * b) := by
      rw [Int.zero_mul]
      decide
    rw [if_neg (fun h => h.1 rfl), wrap_eq hfit, Option.some.injEq, and_iff_right hfit]
  · by_cases h : Word (a * b)
    · rw [if_neg (fun hd => (quotient_differs_iff ha h₀).mp hd.2 h), wrap_eq h, Option.some.injEq,
        and_iff_right h]
    · rw [if_pos ⟨h₀, (quotient_differs_iff ha h₀).mpr h⟩]
      exact iff_of_false nofun (fun hc => h hc.1)

/-- The correction of a negative remainder. -/
theorem month_floor (y m : ℤ) : (if m.tmod 12 < 0 then (m.tmod 12 + 12, y + m.tdiv 12 - 1)
    else (m.tmod 12, y + m.tdiv 12)) = (m % 12, y + m / 12) := by
  have hsum := Int.mul_tdiv_add_tmod m 12
  have hlt := Int.tmod_lt_of_pos m (show (0 : ℤ) < 12 by decide)
  have hgt := Int.lt_tmod_of_pos m (show (0 : ℤ) < 12 by decide)
  split
  · rw [Prod.mk.injEq]
    omega
  · rw [Prod.mk.injEq]
    omega

/-- The year as it stands and the year of the month are both in range. -/
def InRange (u : Tm) : Prop :=
  69 ≤ u.tm_year ∧ u.tm_year ≤ 139 ∧ 69 ≤ yearOf u ∧ yearOf u ≤ 139

theorem adjustMonth_of_inRange {u : Tm} (h : InRange u) :
    adjustMonth u = ({ u with tm_mon := u.tm_mon % 12 }, some (yearOf u)) := by
  obtain ⟨h₁, h₂, h₃, h₄⟩ := h
  have hbase : BASE_YEAR = 70 := rfl
  have hmax : MAX_YEAR = 138 := rfl
  unfold adjustMonth
  simp only [hbase, hmax, month_floor]
  rw [if_neg (by omega)]
  rw [yearOf] at *
  split
  · rw [if_neg (by omega)]
  · have hm : u.tm_mon % 12 = u.tm_mon := by omega
    have hy : u.tm_year + u.tm_mon / 12 = u.tm_year := by omega
    rw [hm, hy]

theorem adjustMonth_of_not {u : Tm} (h : ¬ InRange u) : (adjustMonth u).2 = none := by
  have hbase : BASE_YEAR = 70 := rfl
  have hmax : MAX_YEAR = 138 := rfl
  unfold adjustMonth
  simp only [hbase, hmax, month_floor]
  rw [InRange, yearOf] at h
  split
  · rfl
  · split
    · rw [if_pos (by omega)]
    · exfalso
      omega

/-- The table of a year that is no leap year, with the leap day added from March on. -/
theorem monthSum_eq {y : ℤ} (hy : 1 ≤ y) (hy' : y < 200) {k : ℕ} (hk : k < 12) :
    (if y % 4 = 0 ∧ (k : ℤ) > 1 then days.getD k 0 + 1 else days.getD k 0) =
      monthSum (1900 + y) k - 1 := by
  have hleap := isLeap_iff hy hy'
  by_cases h : y % 4 = 0
  · have hyes : IsLeap (1900 + y) := hleap.mpr h
    interval_cases k <;> simp [days, monthSum, monthDays, h, hyes]
  · have hno : ¬ IsLeap (1900 + y) := mt hleap.mp h
    interval_cases k <;> simp [days, monthSum, monthDays, h, hno]

theorem daysToMonth_eq {y m : ℤ} (hy : 1 ≤ y) (hy' : y < 200) (hm : 0 ≤ m) (hm' : m < 12) :
    daysToMonth m y = dayNumber (1900 + y) (m + 1) 1 - dayNumber 1970 1 1 - 1 := by
  obtain ⟨k, rfl⟩ : ∃ k : ℕ, m = k := ⟨m.toNat, by omega⟩
  have hyear := yearSum_eq hy hy'
  have hmonth := monthSum_eq hy hy' (k := k) (by omega)
  have hk : ((k : ℤ) + 1 - 1).toNat = k := by omega
  have hshift : (y - 1) >>> (2 : ℕ) = (y - 1) / 4 := Int.shiftRight_eq_div_pow (y - 1) 2
  have hbase : BASE_YEAR = 70 := rfl
  have hadjust : LEAP_YEAR_ADJUST = 17 := rfl
  simp only [daysToMonth, Int.toNat_natCast]
  rw [hmonth, hshift, dayNumber_first, dayNumber, hk, hbase, hadjust]
  omega

theorem daysToMonth_word {u : Tm} (h : InRange u) :
    Word (daysToMonth (u.tm_mon % 12) (yearOf u)) := by
  obtain ⟨-, -, h₁, h₂⟩ := h
  have hm₀ := Int.emod_nonneg u.tm_mon (show (12 : ℤ) ≠ 0 by decide)
  have hm := Int.emod_lt_of_pos u.tm_mon (show (0 : ℤ) < 12 by decide)
  have hfirst := isDate_first (1900 + yearOf u) (m := u.tm_mon % 12 + 1) (by omega) (by omega)
  obtain ⟨hlow, hhigh⟩ := hfirst.within_year
  have hlow' := yearSum_le (show 1969 ≤ 1900 + yearOf u by omega)
  have hhigh' := yearSum_le (show 1900 + yearOf u + 1 ≤ 2040 by omega)
  have h1969 : yearSum 1969 = 718797 := by decide
  have h2040 : yearSum 2040 = 744729 := by decide
  have hepoch : dayNumber 1970 1 1 = 719163 := by decide
  rw [daysToMonth_eq (by omega) (by omega) hm₀ hm]
  exact ⟨by omega, by omega⟩

/-- The counts one by one. -/
theorem elapsed_eq_some {u : Tm} (hu : u.Words) (h : InRange u) {x : ℤ} :
    elapsed { u with tm_mon := u.tm_mon % 12 } (yearOf u) = some x ↔
      Counted u ∧ secondsOf u = x := by
  have hm₀ := Int.emod_nonneg u.tm_mon (show (12 : ℤ) ≠ 0 by decide)
  have hm := Int.emod_lt_of_pos u.tm_mon (show (0 : ℤ) < 12 by decide)
  have hdays : daysToMonth (u.tm_mon % 12) (yearOf u) + u.tm_mday = daysOf u := by
    rw [daysToMonth_eq (by have := h.2.2.1; omega) (by have := h.2.2.2; omega) hm₀ hm, daysOf]
    omega
  simp only [elapsed, Option.bind_eq_bind, Option.bind_eq_some_iff]
  constructor
  · rintro ⟨d, hd, d', hd', e, he, e', he', m, hmin, m', hmin', hs⟩
    obtain ⟨w₁, rfl⟩ := (checkedAdd_eq_some (daysToMonth_word h) hu.mday).mp hd
    rw [hdays] at w₁ hd'
    obtain ⟨w₂, rfl⟩ := (checkedMul_eq_some w₁).mp hd'
    obtain ⟨w₃, rfl⟩ := (checkedAdd_eq_some w₂ hu.hour).mp he
    obtain ⟨w₄, rfl⟩ := (checkedMul_eq_some w₃).mp he'
    obtain ⟨w₅, rfl⟩ := (checkedAdd_eq_some w₄ hu.min).mp hmin
    obtain ⟨w₆, rfl⟩ := (checkedMul_eq_some w₅).mp hmin'
    obtain ⟨w₇, rfl⟩ := (checkedAdd_eq_some w₆ hu.sec).mp hs
    exact ⟨⟨h.1, h.2.1, h.2.2.1, h.2.2.2, w₁, w₂, w₃, w₄, w₅, w₆, w₇⟩, rfl⟩
  · rintro ⟨hc, rfl⟩
    have w₁ : Word (daysToMonth (u.tm_mon % 12) (yearOf u) + u.tm_mday) := hdays.symm ▸ hc.days
    refine ⟨daysOf u, (checkedAdd_eq_some (daysToMonth_word h) hu.mday).mpr ⟨w₁, hdays⟩,
      daysOf u * 24, (checkedMul_eq_some hc.days).mpr ⟨hc.days_hours, rfl⟩,
      hoursOf u, (checkedAdd_eq_some hc.days_hours hu.hour).mpr ⟨hc.hours, rfl⟩,
      hoursOf u * 60, (checkedMul_eq_some hc.hours).mpr ⟨hc.hours_minutes, rfl⟩,
      minutesOf u, (checkedAdd_eq_some hc.hours_minutes hu.min).mpr ⟨hc.minutes, rfl⟩,
      minutesOf u * 60, (checkedMul_eq_some hc.minutes).mpr ⟨hc.minutes_seconds, rfl⟩,
      (checkedAdd_eq_some hc.minutes_seconds hu.sec).mpr ⟨hc.seconds, rfl⟩⟩

/-! ## The result -/

theorem mktime_of_not_counted {u : Tm} (hu : u.Words) (h : ¬ Counted u) (shared : Bool) :
    ∃ v, mktime shared u = some (-1, v) := by
  have hnone : (adjustMonth u).2.bind (elapsed (adjustMonth u).1) = none := by
    by_cases hr : InRange u
    · rw [adjustMonth_of_inRange hr, Option.bind_some, Option.eq_none_iff_forall_ne_some]
      intro x hx
      exact h ((elapsed_eq_some hu hr).mp hx).1
    · rw [adjustMonth_of_not hr, Option.bind_none]
  refine ⟨(adjustMonth u).1, ?_⟩
  simp only [mktime, make_time_t, hnone]

theorem localtime_of_neg {t : ℤ} (h : t < 0) : localtime t = none := by
  rw [localtime, if_pos h]

/-- Behind the counts, `t` is what the time zone makes of them. -/
theorem mktime_of_counted {u : Tm} (hu : u.Words) (hc : Counted u) (shared : Bool) {t : ℤ}
    (ht : long (secondsOf u + timezone) = t) :
    (t < 0 → ∃ v, mktime shared u = some (-1, v)) ∧
      (0 ≤ t → (shared = true ∨ u.tm_isdst ≤ 0) → ∃ v, mktime shared u = some (t, v)) ∧
      (0 ≤ t → shared = false → u.tm_isdst > 0 →
        mktime shared u = (localtime (t - 3600)).map fun v => (t - 3600, v)) := by
  have hr : InRange u := ⟨hc.year_low, hc.year_high, hc.low, hc.high⟩
  have hsec := (elapsed_eq_some hu hr).mpr ⟨hc, rfl⟩
  have hword : Word t := ht ▸ wrap_fits (by decide) _
  have hstep : mktime shared u = match localtime t with
      | none => some (-1, { u with tm_mon := u.tm_mon % 12 })
      | some tb =>
          if (if shared then tb.tm_isdst else u.tm_isdst) > 0 ∨
              (if shared then tb.tm_isdst else u.tm_isdst) < 0 ∧ tb.tm_isdst > 0 then
            (localtime (long (t + dstbias))).map fun v => (long (t + dstbias), v)
          else some (t, tb) := by
    simp only [mktime, make_time_t, adjustMonth_of_inRange hr, Option.bind_some, hsec, if_true, ht]
  refine ⟨fun hneg => ?_, fun hpos hdst => ?_, fun hpos hs hdst => ?_⟩
  · rw [hstep, localtime_of_neg hneg]
    exact ⟨_, rfl⟩
  · obtain ⟨tb, htb, hf⟩ := localtime_fields hpos hword.2
    have hno : ¬ ((if shared then tb.tm_isdst else u.tm_isdst) > 0 ∨
        (if shared then tb.tm_isdst else u.tm_isdst) < 0 ∧ tb.tm_isdst > 0) := by
      rw [hf.isdst]
      cases shared
      · simp at hdst ⊢
        omega
      · simp
    refine ⟨tb, ?_⟩
    rw [hstep, htb]
    exact if_neg hno
  · obtain ⟨tb, htb, hf⟩ := localtime_fields hpos hword.2
    have hlong : long (t + dstbias) = t - 3600 := by
      rw [long, wrap_eq] <;> rw [dstbias]
      · rfl
      · have := hword.2
        exact ⟨by omega, by omega⟩
    rw [hstep, htb, hlong, hs]
    exact if_pos (.inl hdst)

/-- The exact number of seconds or -1 is returned. -/
def MktimeRight (shared : Bool) (u : Tm) : Prop :=
  ∃ r v, mktime shared u = some (r, v) ∧ (r = instantOf u ∨ r = -1)

/-- The time zone takes the count below the smallest `long`, or daylight saving time is asked for
and the count is too small for it or the flag is overwritten in the block of `localtime`. -/
def Slips (shared : Bool) (u : Tm) : Prop :=
  Counted u ∧ (secondsOf u < -2147483648 + 28800 ∨
    u.tm_isdst > 0 ∧ 28800 ≤ secondsOf u ∧ (shared = true ∨ secondsOf u < 28800 + 3600))

theorem mktimeRight_of_some {shared : Bool} {u : Tm} {r : ℤ}
    (h : ∃ v, mktime shared u = some (r, v)) :
    MktimeRight shared u ↔ r = instantOf u ∨ r = -1 := by
  obtain ⟨v, hv⟩ := h
  constructor
  · rintro ⟨r', v', hv', hr⟩
    rw [hv, Option.some.injEq, Prod.mk.injEq] at hv'
    rw [hv'.1]
    exact hr
  · exact fun hr => ⟨r, v, hv, hr⟩

/-- The copy through a null pointer returns nothing. -/
theorem not_mktimeRight_of_none {shared : Bool} {u : Tm} (h : mktime shared u = none) :
    ¬ MktimeRight shared u := by
  rintro ⟨r, v, hv, -⟩
  rw [h] at hv
  cases hv

/-- The second conversion, an hour before `t`. -/
theorem mktimeRight_of_map {shared : Bool} {u : Tm} {t : ℤ} (ht : t < 2147483648)
    (h : mktime shared u = (localtime (t - 3600)).map fun v => (t - 3600, v)) :
    MktimeRight shared u ↔ 3600 ≤ t ∧ t - 3600 = instantOf u := by
  by_cases hlt : t < 3600
  · rw [localtime_of_neg (by omega), Option.map_none] at h
    exact iff_of_false (not_mktimeRight_of_none h) (by omega)
  · obtain ⟨v, hv, -⟩ := localtime_fields (t := t - 3600) (by omega) (by omega)
    rw [hv, Option.map_some] at h
    rw [mktimeRight_of_some ⟨v, h⟩]
    omega

theorem mktime_counted_iff {u : Tm} (hu : u.Words) (hc : Counted u) (shared : Bool) :
    MktimeRight shared u ↔ ¬ (secondsOf u < -2147483648 + 28800 ∨
      u.tm_isdst > 0 ∧ 28800 ≤ secondsOf u ∧ (shared = true ∨ secondsOf u < 28800 + 3600)) := by
  have hword := hc.seconds
  obtain ⟨hlow, hhigh⟩ := hword
  obtain ⟨t, ht⟩ : ∃ t, long (secondsOf u + timezone) = t := ⟨_, rfl⟩
  obtain ⟨hneg, hplain, hdst⟩ := mktime_of_counted hu hc shared ht
  have hword : Word t := ht ▸ wrap_fits (by decide) _
  -- the sum wraps around or it does not
  have hval : secondsOf u < -2147483648 + 28800 ∧ t = secondsOf u - 28800 + 4294967296 ∨
      -2147483648 + 28800 ≤ secondsOf u ∧ t = secondsOf u - 28800 := by
    rw [long, wrap, timezone] at ht
    omega
  have hinst : instantOf u = secondsOf u - 28800 - if u.tm_isdst > 0 then 3600 else 0 := rfl
  by_cases h₀ : t < 0
  · rw [mktimeRight_of_some (hneg h₀)]
    omega
  · by_cases hflag : shared = true ∨ u.tm_isdst ≤ 0
    · rw [mktimeRight_of_some (hplain (by omega) hflag)]
      split at hinst
      · have hs : shared = true := hflag.resolve_right (by omega)
        simp only [hs, true_or, and_true]
        omega
      · omega
    · have hs : shared = false := by
        rw [not_or] at hflag
        simpa using hflag.1
      have hd : u.tm_isdst > 0 := by
        rw [not_or] at hflag
        omega
      rw [mktimeRight_of_map hword.2 (hdst (by omega) hs hd), hinst, if_pos hd]
      simp only [hs, Bool.false_eq_true, false_or]
      omega

theorem mktimeRight_iff {u : Tm} (hu : u.Words) (shared : Bool) :
    MktimeRight shared u ↔ ¬ Slips shared u := by
  by_cases hc : Counted u
  · rw [mktime_counted_iff hu hc, Slips, and_iff_right hc]
  · rw [mktimeRight_of_some (mktime_of_not_counted hu hc shared)]
    exact iff_of_true (.inr rfl) (fun hs => hc hs.1)

/-! ## There and back -/

/-- Fields in their ranges count what they show. -/
theorem Fields.secondsOf_eq {t : ℤ} {u : Tm} (h : Fields t u) : secondsOf u = t := by
  have hdate := h.date
  have hlow := hdate.month_pos
  have hhigh := hdate.month_le
  have hyear : yearOf u = u.tm_year := by
    rw [yearOf]
    omega
  have hmon : u.tm_mon % 12 = u.tm_mon := by omega
  have hadd := dayNumber_add (1900 + u.tm_year) (u.tm_mon + 1) 1 (u.tm_mday - 1)
  have hmday : 1 + (u.tm_mday - 1) = u.tm_mday := by omega
  rw [hmday] at hadd
  have hinst := h.instant
  rw [dayOf] at hinst
  rw [secondsOf, minutesOf, hoursOf, daysOf, hyear, hmon]
  omega

theorem Fields.year_range {t : ℤ} {u : Tm} (h : Fields t u) (h₀ : 0 ≤ t)
    (ht : t < 2147483648 + 86400) : 69 ≤ u.tm_year ∧ u.tm_year ≤ 139 := by
  have hday := h.day
  obtain ⟨hlow, hhigh⟩ := h.date.within_year
  have hepoch : dayNumber 1970 1 1 = 719163 := by decide
  have h1969 : yearSum 1969 = 718797 := by decide
  have h2040 : yearSum 2040 = 744729 := by decide
  rw [dayOf, hepoch] at hday
  constructor
  · by_contra hlt
    have := yearSum_le (show 1900 + u.tm_year + 1 ≤ 1969 by omega)
    omega
  · by_contra hlt
    have := yearSum_le (show 2040 ≤ 1900 + u.tm_year by omega)
    omega

theorem Fields.words {t : ℤ} {u : Tm} (h : Fields t u) (h₀ : 0 ≤ t)
    (ht : t < 2147483648 + 86400) : u.Words := by
  obtain ⟨hy, hy'⟩ := h.year_range h₀ ht
  obtain ⟨hm, hm', hd, hd'⟩ := h.date
  have hlen := monthDays_le (1900 + u.tm_year) (u.tm_mon + 1)
  obtain ⟨hlow, hhigh⟩ := h.date.within_year
  have hfirst := dayNumber_first (1900 + u.tm_year)
  have hsucc := yearSum_succ (1900 + u.tm_year)
  have hleap : (if IsLeap (1900 + u.tm_year) then (1 : ℤ) else 0) ≤ 1 := by
    split <;> decide
  have := h.hour_pos
  have := h.hour_lt
  have := h.min_pos
  have := h.min_lt
  have := h.sec_pos
  have := h.sec_lt
  have := h.wday
  have := h.yday
  have := h.isdst
  refine ⟨?_, ?_, ?_, ?_, ?_, ?_, ?_, ?_, ?_⟩ <;> exact ⟨by omega, by omega⟩

/-- The seconds are the largest of the counts. -/
theorem Fields.counted_iff {t : ℤ} {u : Tm} (h : Fields t u) (h₀ : 0 ≤ t)
    (ht : t < 2147483648 + 86400) : Counted u ↔ t < 2147483648 := by
  have hsec := h.secondsOf_eq
  obtain ⟨hy, hy'⟩ := h.year_range h₀ ht
  have hm := h.date.month_pos
  have hm' := h.date.month_le
  have hh := h.hour_pos
  have hh' := h.hour_lt
  have hmin := h.min_pos
  have hmin' := h.min_lt
  have hs := h.sec_pos
  have hs' := h.sec_lt
  constructor
  · intro hc
    have := hc.seconds.2
    omega
  · intro hlt
    have hyear : yearOf u = u.tm_year := by
      rw [yearOf]
      omega
    have hseconds : secondsOf u = minutesOf u * 60 + u.tm_sec := rfl
    have hminutes : minutesOf u = hoursOf u * 60 + u.tm_min := rfl
    have hhours : hoursOf u = daysOf u * 24 + u.tm_hour := rfl
    refine ⟨hy, hy', hyear ▸ hy, hyear ▸ hy', ?_, ?_, ?_, ?_, ?_, ?_, ?_⟩ <;>
      exact ⟨by omega, by omega⟩

/-- `mktime` gives back what `localtime` was given. -/
def RoundTrip (t : ℤ) : Prop :=
  ∀ shared u, localtime t = some u → ∃ v, mktime shared u = some (t, v)

theorem roundTrip_iff {t : ℤ} (h₀ : 0 ≤ t) (h : t < 2147483648) :
    RoundTrip t ↔ t + 28800 < 2147483648 := by
  obtain ⟨u, hu, hf⟩ := localtime_fields h₀ h
  have hw := hf.words (by omega) (by omega)
  have hcount := hf.counted_iff (by omega) (by omega)
  constructor
  · intro hr
    by_contra hge
    obtain ⟨v, hv⟩ := hr false u hu
    obtain ⟨v', hv'⟩ := mktime_of_not_counted hw (mt hcount.mp hge) false
    rw [hv, Option.some.injEq, Prod.mk.injEq] at hv'
    omega
  · intro hlt shared u' hu'
    obtain rfl := Option.some.inj (hu.symm.trans hu')
    have hc := hcount.mpr hlt
    have hlong : long (secondsOf u + timezone) = t := by
      rw [hf.secondsOf_eq, long, wrap_eq] <;> rw [timezone]
      · omega
      · exact ⟨by omega, by omega⟩
    exact (mktime_of_counted hw hc shared hlong).2.1 h₀ (.inr (Int.le_of_eq hf.isdst))

/-- The fields of `t`, and no others, are returned. -/
def GmtimeRight (t : ℤ) : Prop := ∀ u, gmtime t = some u ↔ Fields t u

def LocaltimeRight (t : ℤ) : Prop := ∀ u, localtime t = some u ↔ Fields (t + 28800) u

theorem right_of_exists {f : Option Tm} {t : ℤ} (h : ∃ u, f = some u ∧ Fields t u) (u : Tm) :
    f = some u ↔ Fields t u := by
  obtain ⟨v, rfl, hv⟩ := h
  constructor
  · intro hu
    exact Option.some.inj hu ▸ hv
  · intro hu
    rw [hv.unique hu]

/-- `gmtime` and `localtime` are right for every instant; the round trip ends eight hours before
the last one, and `mktime` wraps around or fails only where it slips. -/
theorem calendar_right_iff (t : ℤ) (h₀ : 0 ≤ t) (h : t < 2147483648) (u : Tm) (hu : u.Words)
    (shared : Bool) :
    GmtimeRight t ∧ LocaltimeRight t ∧ (RoundTrip t ↔ t + 28800 < 2147483648) ∧
      (MktimeRight shared u ↔ ¬ Slips shared u) :=
  ⟨right_of_exists (gmtime_fields h₀ h), right_of_exists (localtime_fields h₀ h),
    roundTrip_iff h₀ h, mktimeRight_iff hu shared⟩

/-- The first second of 2000, and the fields of the first of March of that year as a month of
1998. -/
theorem calendar_right_millennium :
    GmtimeRight 946684800 ∧ LocaltimeRight 946684800 ∧
      (RoundTrip 946684800 ↔ (946684800 : ℤ) + 28800 < 2147483648) ∧
      (MktimeRight false ⟨0, 0, 0, 1, 26, 98, 0, 0, 0⟩ ↔
        ¬ Slips false ⟨0, 0, 0, 1, 26, 98, 0, 0, 0⟩) :=
  calendar_right_iff 946684800 (by decide) (by decide) ⟨0, 0, 0, 1, 26, 98, 0, 0, 0⟩
    ⟨by decide, by decide, by decide, by decide, by decide, by decide, by decide, by decide,
      by decide⟩ false

/-- The smallest number of seconds at the beginning of 1970 becomes an instant in 2038. -/
theorem not_calendar_right : ¬ ∀ t : ℤ, 0 ≤ t → t < 2147483648 → ∀ u : Tm, u.Words →
    ∀ shared, GmtimeRight t ∧ LocaltimeRight t ∧ RoundTrip t ∧ MktimeRight shared u := by
  intro h
  let u : Tm := ⟨-2147483648, 0, 0, 1, 0, 70, 0, 0, 0⟩
  have hu : u.Words := ⟨by decide, by decide, by decide, by decide, by decide, by decide,
    by decide, by decide, by decide⟩
  obtain ⟨r, v, hv, hr⟩ := (h 0 (by decide) (by decide) u hu false).2.2.2
  have hval : (mktime false u).map Prod.fst = some 2147454848 := by decide
  rw [hv] at hval
  have hval' : r = 2147454848 := Option.some.inj hval
  have hinst : instantOf u = -2147512448 := by decide
  rw [hinst, hval'] at hr
  omega

end LuatAir200.Libc
