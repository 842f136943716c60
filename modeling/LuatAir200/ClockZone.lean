import LuatAir200.Calendar
import LuatAir200.UpdateModel
import Mathlib.Tactic.IntervalCases

/-!
# The clock and the time zone

`recv` takes a date and a time from the reply of the server and hands them to `transftimezone` as the
strings that the pattern has found. Arithmetic makes numbers of them; a test for equality with a
number is never true.
-/
namespace LuatAir200.Update
open Lua Calendar

/-- A string of digits, or a number. -/
inductive Value
  | str (s : LuaString)
  | num (n : ℤ)
  deriving DecidableEq, Repr

/-- The operand of an arithmetic operation or of `%02d`. -/
def Value.number : Value → ℤ
  | .str s => tolong s
  | .num n => n

@[simp] theorem Value.number_num (n : ℤ) : (Value.num n).number = n := rfl

/-- Is it equal to one of these numbers? -/
def Value.isAny (ks : List ℤ) (v : Value) : Bool := ks.any fun k => v = .num k

structure Clk where
  year : Value
  month : Value
  day : Value
  hour : Value
  min : Value
  sec : Value
  deriving DecidableEq, Repr

/-- The test for a leap year. -/
def leap (y : Value) : Bool :=
  (y.number + 2000) % 400 = 0 ∨ (y.number + 2000) % 4 = 0 ∧ (y.number + 2000) % 100 ≠ 0

/-- The day `d` is one too many for some months. -/
def carry (y m : Value) (d : ℤ) : Value × Value × ℤ :=
  if m.isAny [4, 6, 9, 11] then
    if d > 30 then (y, .num (m.number + 1), 1) else (y, m, d)
  else if m.isAny [1, 3, 5, 7, 8, 10] then
    if d > 31 then (y, .num (m.number + 1), 1) else (y, m, d)
  else if m.isAny [12] then
    if d > 31 then (.num (y.number + 1), .num 1, 1) else (y, m, d)
  else if m.isAny [2] then
    if leap y then
      if d > 29 then (y, .num 3, 1) else (y, m, d)
    else
      if d > 28 then (y, .num 3, 1) else (y, m, d)
  else (y, m, d)

def timeAddzone (c : Clk) (zone : ℤ) : Clk :=
  let hh := c.hour.number + zone
  if 24 ≤ hh then
    let r := carry c.year c.month (c.day.number + 1)
    ⟨r.1, r.2.1, .num r.2.2, .num (hh - 24), c.min, c.sec⟩
  else { c with hour := .num hh }

/-- The day `d` may be zero. -/
def borrow (y m : Value) (d : ℤ) : Value × Value × ℤ :=
  if m.isAny [2, 4, 6, 8, 9, 11] then
    if d < 1 then (y, .num (m.number - 1), 31) else (y, m, d)
  else if m.isAny [5, 7, 10, 12] then
    if d < 1 then (y, .num (m.number - 1), 30) else (y, m, d)
  else if m.isAny [1] then
    if d < 1 then (.num (y.number - 1), .num 12, 31) else (y, m, d)
  else if m.isAny [3] then
    if leap y then
      if d < 1 then (y, .num 2, 29) else (y, m, d)
    else
      if d < 1 then (y, .num 2, 28) else (y, m, d)
  else (y, m, d)

def timeRmozone (c : Clk) (zone : ℤ) : Clk :=
  let hh := c.hour.number + zone
  if hh < 0 then
    let r := borrow c.year c.month (c.day.number - 1)
    ⟨r.1, r.2.1, .num r.2.2, .num (hh + 24), c.min, c.sec⟩
  else { c with hour := .num hh }

/-- `none` is the empty table. -/
def transftimezone (c : Clk) (pretimezone nowtimezone : ℤ) : Option Clk :=
  let zone := nowtimezone - pretimezone
  if 0 ≤ zone ∧ zone < 23 then some (timeAddzone c zone)
  else if zone < 0 ∧ -24 ≤ zone then some (timeRmozone c zone)
  else none

/-- The arguments that `recv` takes from the reply. -/
def clkOf : List LuaString → Option Clk
  | [y, m, d, hh, mm, ss] => some ⟨.str y, .str m, .str d, .str hh, .str mm, .str ss⟩
  | _ => none

/-! ## Times -/

/-- A valid date and time. -/
structure Stamp where
  year : ℕ
  month : ℕ
  day : ℕ
  hour : ℕ
  min : ℕ
  sec : ℕ
  year_lt : year < 10000
  date : IsDate year month day
  hour_lt : hour < 24
  min_lt : min < 60
  sec_lt : sec < 60

/-- The table is a valid date and hour, `zone` hours later than the time. -/
structure Converted (st : Stamp) (zone : ℤ) (c : Clk) : Prop where
  date : IsDate c.year.number c.month.number c.day.number
  hour_pos : 0 ≤ c.hour.number
  hour_lt : c.hour.number < 24
  instant : 24 * dayNumber c.year.number c.month.number c.day.number + c.hour.number =
    24 * dayNumber st.year st.month st.day + st.hour + zone
  min : c.min.number = st.min
  sec : c.sec.number = st.sec

/-- The values are those of the time. -/
structure Clk.Of (st : Stamp) (c : Clk) : Prop where
  year : c.year.number = st.year
  month : c.month.number = st.month
  day : c.day.number = st.day
  hour : c.hour.number = st.hour
  min : c.min.number = st.min
  sec : c.sec.number = st.sec

/-! ## Numbers -/

theorem leap_iff (y : Value) : leap y = true ↔ IsLeap y.number := by
  rw [leap, IsLeap, decide_eq_true_eq]
  omega

theorem isAny_num (ks : List ℤ) (n : ℤ) : (Value.num n).isAny ks = decide (n ∈ ks) := by
  simp [Value.isAny, List.any_eq]

theorem isAny_str (ks : List ℤ) (s : LuaString) : (Value.str s).isAny ks = false := by
  simp [Value.isAny]

/-- A month that is a number is carried as the calendar says. -/
theorem carry_num (y : Value) {m : ℤ} (h1 : 1 ≤ m) (h12 : m ≤ 12) (d : ℤ) :
    carry y (.num m) d = if d ≤ monthDays y.number m then (y, .num m, d)
      else if m = 12 then (.num (y.number + 1), .num 1, 1)
      else (y, .num (m + 1), 1) := by
  have hleap := leap_iff y
  by_cases hl : IsLeap y.number <;> by_cases hd : d ≤ monthDays y.number m <;>
    interval_cases m <;> simp_all [carry, isAny_num, monthDays, Value.number]

/-- And borrowed. -/
theorem borrow_num (y : Value) {m : ℤ} (h1 : 1 ≤ m) (h12 : m ≤ 12) (d : ℤ) :
    borrow y (.num m) d = if 1 ≤ d then (y, .num m, d)
      else if m = 1 then (.num (y.number - 1), .num 12, 31)
      else (y, .num (m - 1), monthDays y.number (m - 1)) := by
  have hleap := leap_iff y
  by_cases hl : IsLeap y.number <;> by_cases hd : 1 ≤ d <;>
    interval_cases m <;> simp_all [borrow, isAny_num, monthDays, Value.number]

/-- The next day of a date whose month is a number. -/
theorem carry_date {y : Value} {m d : ℤ} (h : IsDate y.number m d) :
    let r := carry y (.num m) (d + 1)
    IsDate r.1.number r.2.1.number r.2.2 ∧
      dayNumber r.1.number r.2.1.number r.2.2 = dayNumber y.number m d + 1 := by
  obtain ⟨h1, h12, hd1, hd⟩ := h
  dsimp only
  rw [carry_num y h1 h12]
  split
  · rename_i hle
    simp only [Value.number_num]
    exact ⟨⟨h1, h12, by omega, hle⟩, dayNumber_add _ _ _ _⟩
  · have hlast : d = monthDays y.number m := by omega
    split
    · rename_i hm
      subst hm
      simp only [Value.number_num]
      refine ⟨isDate_first _ (by decide) (by decide), ?_⟩
      rw [hlast]
      exact dayNumber_year y.number
    · simp only [Value.number_num]
      refine ⟨isDate_first _ (by omega) (by omega), ?_⟩
      rw [hlast]
      exact dayNumber_month h1

/-- The day before. -/
theorem borrow_date {y : Value} {m d : ℤ} (h : IsDate y.number m d) :
    let r := borrow y (.num m) (d - 1)
    IsDate r.1.number r.2.1.number r.2.2 ∧
      dayNumber r.1.number r.2.1.number r.2.2 + 1 = dayNumber y.number m d := by
  obtain ⟨h1, h12, hd1, hd⟩ := h
  dsimp only
  rw [borrow_num y h1 h12]
  split
  · rename_i hle
    simp only [Value.number_num]
    refine ⟨⟨h1, h12, hle, by omega⟩, ?_⟩
    rw [← dayNumber_add, sub_add_cancel]
  · have hfirst : d = 1 := by omega
    subst hfirst
    split
    · rename_i hm
      subst hm
      simp only [Value.number_num]
      refine ⟨isDate_last _ (by decide) (by decide), ?_⟩
      have hyear := dayNumber_year (y.number - 1)
      rw [sub_add_cancel] at hyear
      exact hyear.symm
    · simp only [Value.number_num]
      refine ⟨isDate_last _ (by omega) (by omega), ?_⟩
      have hmonth := @dayNumber_month y.number (m - 1) (by omega)
      rw [sub_add_cancel] at hmonth
      exact hmonth.symm

/-! ## Conversion -/

/-- On the same day. -/
theorem sameday_converted {st : Stamp} {c : Clk} {zone : ℤ} (hc : c.Of st) (h0 : 0 ≤ st.hour + zone)
    (h24 : st.hour + zone < 24) : Converted st zone { c with hour := .num (st.hour + zone) } := by
  constructor
  · simp only [hc.year, hc.month, hc.day]
    exact st.date
  · exact h0
  · exact h24
  · simp only [Value.number_num, hc.year, hc.month, hc.day]
    ring
  · exact hc.min
  · exact hc.sec

/-- `k` days later. -/
theorem otherday_converted {st : Stamp} {c : Clk} {zone k d : ℤ} {y m : Value} (hc : c.Of st)
    (hdate : IsDate y.number m.number d)
    (hday : dayNumber y.number m.number d = dayNumber st.year st.month st.day + k)
    (h0 : 24 * k ≤ st.hour + zone) (h24 : st.hour + zone < 24 * k + 24) :
    Converted st zone ⟨y, m, .num d, .num (st.hour + zone - 24 * k), c.min, c.sec⟩ := by
  constructor
  · exact hdate
  · simp only [Value.number_num]
    omega
  · simp only [Value.number_num]
    omega
  · simp only [Value.number_num]
    rw [hday]
    ring
  · exact hc.min
  · exact hc.sec

theorem addzone_converted {st : Stamp} {c : Clk} {zone : ℤ} (hc : c.Of st) (h0 : 0 ≤ zone)
    (h24 : zone < 24) (hr : 24 ≤ st.hour + zone →
      let r := carry c.year c.month (st.day + 1)
      IsDate r.1.number r.2.1.number r.2.2 ∧
        dayNumber r.1.number r.2.1.number r.2.2 = dayNumber st.year st.month st.day + 1) :
    Converted st zone (timeAddzone c zone) := by
  have hhour := st.hour_lt
  rw [timeAddzone, hc.hour, hc.day]
  dsimp only
  split
  · rename_i hge
    obtain ⟨hdate, hday⟩ := hr hge
    exact otherday_converted hc hdate hday hge (by omega)
  · exact sameday_converted hc (by omega) (by omega)

theorem rmozone_converted {st : Stamp} {c : Clk} {zone : ℤ} (hc : c.Of st) (h0 : zone < 0)
    (h24 : -24 ≤ zone) (hr : st.hour + zone < 0 →
      let r := borrow c.year c.month (st.day - 1)
      IsDate r.1.number r.2.1.number r.2.2 ∧
        dayNumber r.1.number r.2.1.number r.2.2 + 1 = dayNumber st.year st.month st.day) :
    Converted st zone (timeRmozone c zone) := by
  have hhour := st.hour_lt
  rw [timeRmozone, hc.hour, hc.day]
  dsimp only
  split
  · rename_i hlt
    obtain ⟨hdate, hday⟩ := hr hlt
    have hconv := @otherday_converted _ _ zone (-1) _ _ _ hc hdate (by omega) (by omega) (by omega)
    rwa [show (st.hour : ℤ) + zone - 24 * -1 = st.hour + zone + 24 by ring] at hconv
  · exact sameday_converted hc (by omega) (by omega)

/-- The table of the numbers. -/
def Stamp.numbers (st : Stamp) : Clk :=
  ⟨.num st.year, .num st.month, .num st.day, .num st.hour, .num st.min, .num st.sec⟩

/-- With numbers every time is converted. -/
theorem transftimezone_numbers (st : Stamp) {pre now : ℤ} (h : -24 ≤ now - pre) (h' : now - pre < 23) :
    ∃ c, transftimezone st.numbers pre now = some c ∧ Converted st (now - pre) c := by
  have hc : st.numbers.Of st := ⟨rfl, rfl, rfl, rfl, rfl, rfl⟩
  have hdate : IsDate (Value.num st.year).number st.month st.day := st.date
  rw [transftimezone]
  split
  · rename_i h0
    exact ⟨_, rfl, addzone_converted hc h0.1 (by omega) fun _ => carry_date hdate⟩
  · rw [if_pos (by omega)]
    exact ⟨_, rfl, rmozone_converted hc (by omega) h fun _ => borrow_date hdate⟩

/-! ## Strings -/

/-- No test for a month succeeds. -/
theorem carry_str (y : Value) (m : LuaString) (d : ℤ) : carry y (.str m) d = (y, .str m, d) := by
  simp [carry, isAny_str]

theorem borrow_str (y : Value) (m : LuaString) (d : ℤ) : borrow y (.str m) d = (y, .str m, d) := by
  simp [borrow, isAny_str]

/-- The converted time is in the same month. -/
structure SameMonth (st : Stamp) (zone : ℤ) : Prop where
  next : 24 ≤ st.hour + zone → st.day < monthDays st.year st.month
  back : st.hour + zone < 0 → 1 < st.day

/-- With a month that is a string, exactly the times are converted that stay in their month. -/
theorem transftimezone_str {st : Stamp} {c : Clk} {m : LuaString} (hc : c.Of st)
    (hm : c.month = .str m) (pre now : ℤ) :
    (∃ clk, transftimezone c pre now = some clk ∧ Converted st (now - pre) clk) ↔
      (-24 ≤ now - pre ∧ now - pre < 23) ∧ SameMonth st (now - pre) := by
  obtain ⟨h1, h12, hd1, hd⟩ := st.date
  have hmonth := hc.month
  rw [hm] at hmonth
  constructor
  · rintro ⟨clk, hclk, hconv⟩
    have hdate := hconv.date
    rw [transftimezone] at hclk
    split at hclk
    · rename_i h0
      cases hclk
      refine ⟨by omega, fun hge => ?_, fun hlt => by omega⟩
      rw [timeAddzone, hc.hour, hc.day] at hdate
      dsimp only at hdate
      rw [if_pos hge, hm, carry_str] at hdate
      have hle := hdate.day_le
      dsimp only [Value.number_num] at hle
      rw [hmonth, hc.year] at hle
      omega
    · split at hclk
      · rename_i h0
        cases hclk
        refine ⟨by omega, fun hge => by have := st.hour_lt; omega, fun hlt => ?_⟩
        rw [timeRmozone, hc.hour, hc.day] at hdate
        dsimp only at hdate
        rw [if_pos hlt, hm, borrow_str] at hdate
        have hpos := hdate.day_pos
        simp only [Value.number_num] at hpos
        omega
      · cases hclk
  · rintro ⟨⟨hlow, hhigh⟩, hnext, hback⟩
    rw [transftimezone]
    split
    · rename_i h0
      refine ⟨_, rfl, addzone_converted hc h0.1 (by omega) fun hge => ?_⟩
      rw [hm, carry_str]
      dsimp only
      rw [hmonth, hc.year]
      exact ⟨⟨h1, h12, by omega, by have := hnext hge; omega⟩, dayNumber_add _ _ _ _⟩
    · rw [if_pos (by omega)]
      refine ⟨_, rfl, rmozone_converted hc (by omega) hlow fun hlt => ?_⟩
      rw [hm, borrow_str]
      dsimp only
      rw [hmonth, hc.year, ← dayNumber_add, sub_add_cancel]
      exact ⟨⟨h1, h12, by have := hback hlt; omega, by omega⟩, rfl⟩

end LuatAir200.Update
