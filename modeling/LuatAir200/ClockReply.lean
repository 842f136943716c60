import LuatAir200.ClockZone
import LuatAir200.LuaPattern

/-!
# Times in replies

The pattern of `recv` finds the parts of the first date and time in a reply, as strings.
-/
namespace LuatAir200.Update
open Lua Calendar

/-! ## Digits -/

/-- The last `k` decimal digits. -/
def decimal : ℕ → ℕ → LuaString
  | 0, _ => []
  | k + 1, n => decimal k (n / 10) ++ [UInt8.ofNat (48 + n % 10)]

theorem byte_digit (n : ℕ) : (UInt8.ofNat (48 + n % 10)).toNat = 48 + n % 10 := by
  rw [UInt8.toNat_ofNat']
  omega

theorem decimal_digit {k n : ℕ} {c : UInt8} (h : c ∈ decimal k n) : isDigit c = true := by
  induction k generalizing n with
  | zero => cases h
  | succ k ih =>
      obtain h | h := List.mem_append.mp h
      · exact ih h
      · obtain rfl := List.mem_singleton.mp h
        have hall : ∀ d : Fin 10, isDigit (UInt8.ofNat (48 + d.val)) = true := by decide
        exact hall ⟨n % 10, Nat.mod_lt n (by decide)⟩

theorem length_decimal (k n : ℕ) : (decimal k n).length = k := by
  induction k generalizing n with
  | zero => rfl
  | succ k ih => rw [decimal, List.length_append, ih, List.length_singleton]

theorem tonumber_decimal {k n : ℕ} (h : n < 10 ^ k) : tonumber (decimal k n) = n := by
  induction k generalizing n with
  | zero =>
      have hz : n = 0 := by simpa using h
      rw [hz]
      rfl
  | succ k ih =>
      have hlt : n / 10 < 10 ^ k := by
        rw [Nat.div_lt_iff_lt_mul (by decide), ← Nat.pow_succ]
        exact h
      have hrec := ih hlt
      rw [tonumber] at hrec ⊢
      rw [decimal, List.foldl_append, hrec, List.foldl_cons, List.foldl_nil, byte_digit]
      omega

theorem number_decimal {k n : ℕ} (hk : k ≤ 4) (h : n < 10 ^ k) :
    (Value.str (decimal k n)).number = n := by
  have hpow : 10 ^ k ≤ 10 ^ 4 := Nat.pow_le_pow_right (by decide) hk
  have hmin : min n (2 ^ 31 - 1) = n := by
    apply Nat.min_eq_left
    omega
  rw [Value.number, tolong, tonumber_decimal h, hmin]

/-! ## Times -/

/-- `YYYY-MM-DD hh:mm:ss`. -/
def Stamp.bytes (st : Stamp) : LuaString :=
  decimal 4 st.year ++ 45 :: (decimal 2 st.month ++ 45 :: (decimal 2 st.day ++ 32 ::
    (decimal 2 st.hour ++ 58 :: (decimal 2 st.min ++ 58 :: decimal 2 st.sec))))

/-- Its parts. -/
def Stamp.fields (st : Stamp) : List LuaString :=
  [decimal 4 st.year, decimal 2 st.month, decimal 2 st.day, decimal 2 st.hour, decimal 2 st.min,
    decimal 2 st.sec]

/-- The table of the parts. -/
def Stamp.strings (st : Stamp) : Clk :=
  ⟨.str (decimal 4 st.year), .str (decimal 2 st.month), .str (decimal 2 st.day),
    .str (decimal 2 st.hour), .str (decimal 2 st.min), .str (decimal 2 st.sec)⟩

theorem Stamp.clkOf_fields (st : Stamp) : clkOf st.fields = some st.strings := rfl

theorem Stamp.strings_of (st : Stamp) : st.strings.Of st := by
  obtain ⟨h1, h12, hd1, hd⟩ := st.date
  have hyear := st.year_lt
  have hhour := st.hour_lt
  have hmin := st.min_lt
  have hsec := st.sec_lt
  have hdays := monthDays_le st.year st.month
  constructor
  · exact number_decimal (by decide) hyear
  · exact number_decimal (by decide) (by omega)
  · exact number_decimal (by decide) (by omega)
  · exact number_decimal (by decide) (by omega)
  · exact number_decimal (by decide) (by omega)
  · exact number_decimal (by decide) (by omega)

/-- The items of the pattern of `recv`. -/
def clockItems : List Item :=
  let d := Class.named 100
  [.openCap, .cls d .plus, .closeCap, .cls (.named 45) .one, .openCap, .cls d .plus, .closeCap,
    .cls (.named 45) .one, .openCap, .cls d .plus, .closeCap, .cls (.char 32) .star,
    .openCap, .cls d .one, .cls d .one, .closeCap, .cls (.char 58) .one,
    .openCap, .cls d .one, .cls d .one, .closeCap, .cls (.char 58) .one,
    .openCap, .cls d .one, .cls d .one, .closeCap]

theorem parse_clock : parse (lua "(%d+)%-(%d+)%-(%d+) *(%d%d):(%d%d):(%d%d)") =
    some ⟨false, clockItems⟩ := by
  decide

/-- The two bytes of a number. -/
theorem decimal_two (n : ℕ) : ∃ a b, decimal 2 n = [a, b] ∧ (Class.named 100).accepts a = true ∧
    (Class.named 100).accepts b = true := by
  refine ⟨_, _, rfl, ?_, ?_⟩
  · exact @decimal_digit 2 n _ (by simp [decimal])
  · exact @decimal_digit 2 n _ (by simp [decimal])

theorem decimal_run {k : ℕ} (hk : 0 < k) (n : ℕ) : decimal k n ≠ [] ∧
    ∀ c ∈ decimal k n, (Class.named 100).accepts c = true := by
  refine ⟨?_, fun c hc => decimal_digit hc⟩
  rwa [← List.length_pos_iff, length_decimal]

/-- The pattern finds the parts of a time. -/
theorem clockItems_bytes (st : Stamp) (rest o : LuaString) :
    matchItems clockItems (st.bytes ++ rest) o = some (rest, st.fields) := by
  obtain ⟨hyear, hyears⟩ := @decimal_run 4 (by decide) st.year
  obtain ⟨hmonth, hmonths⟩ := @decimal_run 2 (by decide) st.month
  obtain ⟨hday, hdays⟩ := @decimal_run 2 (by decide) st.day
  obtain ⟨h1, h2, hhour, hh1, hh2⟩ := decimal_two st.hour
  obtain ⟨m1, m2, hmin, hm1, hm2⟩ := decimal_two st.min
  obtain ⟨s1, s2, hsec, hs1, hs2⟩ := decimal_two st.sec
  rw [Stamp.bytes, Stamp.fields, hhour, hmin, hsec]
  simp only [List.append_assoc, List.cons_append, List.nil_append]
  have hspace : (Class.char 32).accepts h1 = false := by
    have hne : h1 ≠ 32 := by
      rintro rfl
      cases hh1
    simpa [Class.accepts] using hne
  apply matchItems_run hyear hyears rfl
  apply matchItems_one rfl
  apply matchItems_run hmonth hmonths rfl
  apply matchItems_one rfl
  apply matchItems_run hday hdays rfl
  apply matchItems_star rfl hspace
  apply matchItems_two hh1 hh2
  apply matchItems_one rfl
  apply matchItems_two hm1 hm2
  apply matchItems_one rfl
  apply matchItems_two hs1 hs2
  exact fun _ => rfl

/-- The first date and time in the reply. -/
def Dated (data : LuaString) (st : Stamp) : Prop :=
  ∃ before after, data = before ++ (st.bytes ++ after) ∧ ∀ q, q ≠ [] → q <:+ before →
    matchItems clockItems (q ++ (st.bytes ++ after)) (q ++ (st.bytes ++ after)) = none

theorem Dated.found {data : LuaString} {st : Stamp} (h : Dated data st) :
    smatch data (lua "(%d+)%-(%d+)%-(%d+) *(%d%d):(%d%d):(%d%d)") = some st.fields := by
  obtain ⟨before, after, rfl, hbefore⟩ := h
  rw [smatch, parse_clock, Option.bind_some]
  apply Pattern.exec_first hbefore (clockItems_bytes st after _)
  exact List.cons_ne_nil _ _

/-! ## Replies -/

theorem upend_timezone (c : Config) (succ : Bool) (s : State) :
    (upend c succ s).timezone = s.timezone := by
  rw [upend]
  split <;> split <;> split <;> rfl

theorem upbegin_timezone (c : Config) (data : LuaString) (s : State) :
    (upbegin c data s).timezone = s.timezone := by
  rw [upbegin]
  split
  · rfl
  · exact upend_timezone c false s

/-- In the state `CHECK` the clock is set last, to the parts of the time that was found. -/
theorem recv_clock (c : Config) {s : State} {zone : ℤ} {data : LuaString} {time : List LuaString}
    (hs : s.state = .CHECK) (hz : s.timezone = some zone)
    (hd : smatch data (lua "(%d+)%-(%d+)%-(%d+) *(%d%d):(%d%d):(%d%d)") = some time) :
    ∃ u, recv c data s = some (call (.setclock time BEIJING_TIME zone) u) := by
  rw [recv]
  simp only [hs]
  generalize hu : (if foundAtFront data (lua "LUAUPDATE") = true then _ else _) = u
  have hzone : u.timezone = some zone := by
    rw [← hz, ← hu]
    split
    · split
      · exact upbegin_timezone c data _
      · split
        · rfl
        · exact upend_timezone c false _
    · exact upend_timezone c false _
  exact ⟨u, by rw [setclock, hzone, hd]⟩

/-- The clock is set to the time of the reply in the time zone exactly if the time zone is one that
`transftimezone` knows, and the time there is in the same month. -/
theorem clock_converted (c : Config) {s : State} {zone : ℤ} {data : LuaString} {st : Stamp}
    (hs : s.state = .CHECK) (hz : s.timezone = some zone) (hd : Dated data st) :
    ∃ t time clk, recv c data s = some t ∧
      t.calls.getLast? = some (.setclock time BEIJING_TIME zone) ∧ clkOf time = some clk ∧
      ((∃ now, transftimezone clk BEIJING_TIME zone = some now ∧
          Converted st (zone - BEIJING_TIME) now) ↔
        (-24 ≤ zone - BEIJING_TIME ∧ zone - BEIJING_TIME < 23) ∧ SameMonth st (zone - BEIJING_TIME)) := by
  obtain ⟨u, hu⟩ := recv_clock c hs hz hd.found
  refine ⟨_, st.fields, st.strings, hu, ?_, st.clkOf_fields, ?_⟩
  · rw [call, List.getLast?_append]
    rfl
  · exact transftimezone_str st.strings_of rfl BEIJING_TIME zone

/-- A session that has asked for a new version, with the time zone of Greenwich. -/
def asked : State := { boot [] with state := .CHECK, lid := some 0, timezone := some 0 }

def project : Config := ⟨lua "key", lua "demo", lua "1.0.0", 0, lua "V1"⟩

/-- Seven o'clock on a day in March. -/
def morning (day : ℕ) (h : IsDate 2017 3 day) : Stamp :=
  ⟨2017, 3, day, 7, 0, 0, by decide, h, by decide, by decide, by decide⟩

/-- The tenth of March: it is an hour before midnight of the day before. -/
theorem clock_converted_tenth : ∃ t time clk,
    recv project (lua "TIME 2017-03-10 07:00:00") asked = some t ∧
    t.calls.getLast? = some (.setclock time BEIJING_TIME 0) ∧ clkOf time = some clk ∧
    ∃ now, transftimezone clk BEIJING_TIME 0 = some now ∧
      Converted (morning 10 ⟨by decide, by decide, by decide, by decide⟩) (-8) now := by
  have hd : Dated (lua "TIME 2017-03-10 07:00:00")
      (morning 10 ⟨by decide, by decide, by decide, by decide⟩) := by
    refine ⟨lua "TIME ", [], by decide, fun q hne hq => ?_⟩
    have hall : ∀ q ∈ (lua "TIME ").tails, q ≠ [] → matchItems clockItems
        (q ++ lua "2017-03-10 07:00:00") (q ++ lua "2017-03-10 07:00:00") = none := by
      decide
    exact hall q ((List.mem_tails q _).mpr hq) hne
  obtain ⟨t, time, clk, ht, hcall, hclk, hiff⟩ := @clock_converted project asked 0 _ _ rfl rfl hd
  have hmonth : SameMonth (morning 10 ⟨by decide, by decide, by decide, by decide⟩) (0 - BEIJING_TIME) := by
    refine ⟨fun h => ?_, fun _ => by decide⟩
    exact absurd h (by decide)
  exact ⟨t, time, clk, ht, hcall, hclk, hiff.mpr ⟨by decide, hmonth⟩⟩

/-- The first of March becomes a day 0 of March. -/
theorem clock_first_of_march :
    Dated (lua "2017-03-01 07:00:00") (morning 1 ⟨by decide, by decide, by decide, by decide⟩) ∧
    ∃ t time clk now, recv project (lua "2017-03-01 07:00:00") asked = some t ∧
      t.calls.getLast? = some (.setclock time BEIJING_TIME 0) ∧ clkOf time = some clk ∧
      transftimezone clk BEIJING_TIME 0 = some now ∧
      now = ⟨.str (lua "2017"), .str (lua "03"), .num 0, .num 23, .str (lua "00"), .str (lua "00")⟩ ∧
      ¬IsDate now.year.number now.month.number now.day.number := by
  refine ⟨⟨[], [], by decide, fun q hne hq => absurd (List.suffix_nil.mp hq) hne⟩, ?_⟩
  refine ⟨_, _, _, _, rfl, rfl, rfl, rfl, by decide, ?_⟩
  intro h
  exact absurd h.day_pos (by decide)

end LuatAir200.Update
