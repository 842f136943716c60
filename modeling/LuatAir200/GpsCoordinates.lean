import LuatAir200.GpsFix
import Mathlib.Tactic.Linarith

/-!
# Coordinates

A position of at least ten degrees goes through `filter` and `getmilli` digit by digit, and no
number on the way is too large. The number that `filter` makes of fewer degrees has lost its zeros,
so that `getvg` cuts it at the wrong places.
-/
namespace LuatAir200.Gps
open Lua Sms

/-! ## Positions -/

/-- A position in the fields of a sentence: degrees and minutes, and the fraction of the minutes. -/
structure Position where
  latti : LuaString
  lattir : LuaString
  longti : LuaString
  longtir : LuaString
  digits : (latti ++ lattir ++ longti ++ longtir).all isDigit
  latti_length : latti.length = 4
  longti_length : longti.length = 5
  latDegrees_lt : tonumber (latti.take 2) < 90
  latMinutes_lt : tonumber (latti.drop 2) < 60
  longDegrees_lt : tonumber (longti.take 3) < 180
  longMinutes_lt : tonumber (longti.drop 3) < 60

/-- The first four digits of a fraction. -/
def four (r : LuaString) : LuaString := (r ++ lua "0000").take 4

/-- Degrees and their fraction of seven digits, of ten-thousandths of a minute. -/
def degreesText (deg minutes : ℕ) : LuaString :=
  decimal deg ++ lua "." ++ fixed 7 (minutes * 1000 / 60)

/-- The formula of `getmilli`, for degrees and a fraction of seven digits. -/
def milli (deg frac : ℕ) : ℕ := (deg * 100000 + frac / 100) * 36 + frac % 100 * 36 / 100

def Position.latDegrees (p : Position) : ℕ := tonumber (p.latti.take 2)

def Position.latMinutes (p : Position) : ℕ := tonumber (p.latti.drop 2 ++ four p.lattir)

def Position.longDegrees (p : Position) : ℕ := tonumber (p.longti.take 3)

def Position.longMinutes (p : Position) : ℕ := tonumber (p.longti.drop 3 ++ four p.longtir)

/-- The values of the numbers in `getmilli`. -/
def milliValues (v vr : LuaString) : List ℕ :=
  let L : ℤ := v.length
  let m := tonumber (ssub v (L - 1) L ++ vr)
  let v1 := seven (decimal (m * 10 / 6))
  let a := tonumber (ssub v 1 (L - 2) ++ ssub v1 1 5)
  let b := tonumber (ssub v1 6 7)
  [m, m * 10, m * 10 / 6, a, a * 36, b, b * 36, b * 36 / 100, a * 36 + b * 36 / 100]

/-- The values of the numbers in `filter` and behind it. -/
def Position.values (p : Position) : List ℕ :=
  tonumber (joined p.latti p.lattir) :: tonumber (joined p.longti p.longtir) ::
    match filter p.latti p.lattir p.longti p.longtir with
    | some (LA, RA, LL, RL) => milliValues LA RA ++ milliValues LL RL
    | none => []

/-- The table has the coordinates of the position, and no number was too large. -/
structure Converted (p : Position) (g : Table) : Prop where
  lati : g.lati = some (degreesText p.latDegrees p.latMinutes)
  long : g.long = some (degreesText p.longDegrees p.longMinutes)
  latt_m : ∃ r, g.latt_m = some r ∧ IsNat r (milli p.latDegrees (p.latMinutes * 1000 / 60))
  longt_m : ∃ r, g.longt_m = some r ∧ IsNat r (milli p.longDegrees (p.longMinutes * 1000 / 60))
  values : ∀ m ∈ p.values, m < 2 ^ 31

/-! ## Digits -/

theorem four_pad (r : LuaString) : ssub (pad r) 1 4 = four r := by
  have hsub := ssub_nat (pad r) 0 4
  rw [List.drop_zero] at hsub
  refine hsub.trans ?_
  unfold pad four
  by_cases h : r.length < 4
  · rw [if_pos h, List.take_append, List.take_append, List.take_of_length_le (by omega : r.length ≤ 4)]
    congr 1
    have hzeros : lua "0000" = List.replicate 4 48 := rfl
    rw [hzeros, List.take_replicate, List.take_replicate]
    congr 1
    omega
  · rw [if_neg h, List.take_append_of_le_length (by omega)]

theorem four_length (r : LuaString) : (four r).length = 4 := by
  have h4 : (lua "0000").length = 4 := rfl
  rw [four, List.length_take, List.length_append, h4]
  omega

theorem four_digits {r : LuaString} (h : r.all isDigit) : (four r).all isDigit := by
  rw [List.all_eq_true] at h ⊢
  intro c hc
  obtain hc | hc := List.mem_append.mp (List.mem_of_mem_take hc)
  · exact h c hc
  · have hall : (lua "0000").all isDigit := rfl
    exact List.all_eq_true.mp hall c hc

theorem seven_decimal {n : ℕ} (h : n < 10 ^ 7) : seven (decimal n) = fixed 7 n := by
  have hlen := decimal_length_le h
  unfold seven fixed
  rw [if_neg (by omega)]
  by_cases h7 : (decimal n).length < 7
  · rw [if_pos h7]
  · have hzero : 7 - (decimal n).length = 0 := by omega
    rw [if_neg h7, hzero, List.replicate_zero, List.nil_append]

/-- The two parts of seven digits. -/
theorem fixed_parts {n : ℕ} (h : n < 10 ^ 7) :
    tonumber (ssub (fixed 7 n) 1 5) = n / 100 ∧ tonumber (ssub (fixed 7 n) 6 7) = n % 100 ∧
      (ssub (fixed 7 n) 1 5).length = 5 := by
  have hlen : (fixed 7 n).length = 7 := fixed_length h
  have hfront := ssub_nat (fixed 7 n) 0 5
  have hback := ssub_nat (fixed 7 n) 5 7
  have htake : (fixed 7 n).drop 5 = ((fixed 7 n).drop 5).take 2 := by
    rw [List.take_of_length_le]
    rw [List.length_drop, hlen]
  have hsplit := tonumber_append ((fixed 7 n).take 5) ((fixed 7 n).drop 5)
  have hlow : tonumber ((fixed 7 n).drop 5) < 10 ^ ((fixed 7 n).drop 5).length := by
    apply tonumber_lt
    rw [List.all_eq_true]
    intro c hc
    exact List.all_eq_true.mp (fixed_all_isDigit 7 n) c (List.mem_of_mem_drop hc)
  rw [List.take_append_drop, tonumber_fixed] at hsplit
  rw [List.length_drop, hlen] at hsplit hlow
  have hfront' : ssub (fixed 7 n) 1 5 = (fixed 7 n).take 5 := hfront
  have hback' : ssub (fixed 7 n) 6 7 = (fixed 7 n).drop 5 := hback.trans htake.symm
  rw [hfront', hback']
  refine ⟨by omega, by omega, ?_⟩
  rw [List.length_take, hlen]
  rfl

/-! ## The formula -/

section

variable {d m f : LuaString}

theorem getmilli_eq (hdig : (d ++ m ++ f).all isDigit) (hd : d.length = 2 ∨ d.length = 3)
    (hm : m.length = 2) (hf : f.length = 4) (hdeg : tonumber d < 180) (hmin : tonumber m < 60) :
    (∃ r, (getmilli (d ++ m) (f ++ lua "0")).map Prod.snd =
        some (d ++ lua "." ++ fixed 7 (tonumber (m ++ f) * 1000 / 60), r) ∧
      IsNat r (milli (tonumber d) (tonumber (m ++ f) * 1000 / 60))) ∧
      ∀ x ∈ milliValues (d ++ m) (f ++ lua "0"), x < 2 ^ 31 := by
  rw [List.all_append, List.all_append, Bool.and_eq_true, Bool.and_eq_true] at hdig
  obtain ⟨⟨hdd, hmd⟩, hfd⟩ := hdig
  have hlast : ssub (d ++ m) (((d ++ m).length : ℤ) - 1) (d ++ m).length = m := by
    apply ssub_mid (a := d) (c := [])
    · simp
    · rw [List.length_append, hm]
      omega
    · rw [List.length_append]
      omega
  have hfront : ssub (d ++ m) 1 (((d ++ m).length : ℤ) - 2) = d := by
    apply ssub_mid (a := []) (c := m)
    · simp
    · rfl
    · rw [List.length_append, hm, List.length_nil]
      omega
  have h0 : (lua "0").length = 1 := rfl
  have hten : tonumber (m ++ (f ++ lua "0")) = tonumber (m ++ f) * 10 := by
    rw [← List.append_assoc, tonumber_append _ (lua "0"), h0]
    rfl
  have hmf := tonumber_append m f
  have hflt := tonumber_lt hfd
  rw [hf] at hmf hflt
  generalize hM : tonumber (m ++ f) = M at hten hmf ⊢
  have hfrac : M * 10 * 10 / 6 = M * 1000 / 60 := by omega
  have hlt : M * 1000 / 60 < 10 ^ 7 := by omega
  obtain ⟨h15, h67, hlen5⟩ := fixed_parts hlt
  have ha := tonumber_append d (ssub (fixed 7 (M * 1000 / 60)) 1 5)
  rw [hlen5, h15] at ha
  have h10 : IsNat 10 10 := rfl
  have h6 : IsNat 6 6 := rfl
  have h36 : IsNat 36 36 := rfl
  have h100 : IsNat 100 100 := rfl
  have hten' : IsNat (numeral (m ++ (f ++ lua "0"))) (M * 10) := by
    rw [← hten]
    apply isNat_numeral
    omega
  have hfraction : IsNat (numeral (m ++ (f ++ lua "0")) * 10 / 6) (M * 1000 / 60) := by
    rw [← hfrac]
    exact (hten'.mul h10 (by omega)).div h6 (by decide)
  constructor
  · have hlengths : ¬(((((d ++ m).length : ℤ) ≠ 4 ∧ ((d ++ m).length : ℤ) ≠ 5)) ∨
        (f ++ lua "0").length ≠ 5) := by
      rw [List.length_append, List.length_append, hm, hf, h0]
      omega
    have hback : IsNat (numeral (ssub (fixed 7 (M * 1000 / 60)) 6 7)) (M * 1000 / 60 % 100) := by
      rw [← h67]
      apply isNat_numeral
      omega
    have hwhole : IsNat (numeral (d ++ ssub (fixed 7 (M * 1000 / 60)) 1 5))
        (tonumber d * 100000 + M * 1000 / 60 / 100) := by
      have hsum : tonumber (d ++ ssub (fixed 7 (M * 1000 / 60)) 1 5) =
          tonumber d * 100000 + M * 1000 / 60 / 100 := ha
      rw [← hsum]
      apply isNat_numeral
      omega
    have hmilli := (hwhole.mul h36 (by omega)).add ((hback.mul h36 (by omega)).div h100 (by decide))
      (by omega)
    refine ⟨_, ?_, hmilli⟩
    rw [getmilli, if_neg hlengths, hlast, hfront, hfraction.number, seven_decimal hlt]
    rfl
  · rw [milliValues, hlast, hfront, hten, hfrac, seven_decimal hlt, ha, h67]
    simp only [List.forall_mem_cons, List.not_mem_nil, false_implies, implies_true, and_true]
    omega

end

/-! ## The number of a position -/

/-- A number from 1 on is not written with a zero in front. -/
theorem decimal_head {n : ℕ} (h : 0 < n) : ∃ c s, decimal n = c :: s ∧ c ≠ 48 := by
  obtain ⟨c, s, he⟩ := List.exists_cons_of_ne_nil (decimal_ne_nil n)
  refine ⟨c, s, he, ?_⟩
  rintro rfl
  have hval : tonumber s = n := by
    rw [← tonumber_decimal n, he]
    exact (tonumber_zeros_append 1 s).symm
  have hdigits := decimal_all_isDigit n
  rw [he, List.all_cons, Bool.and_eq_true] at hdigits
  have hlt := tonumber_lt hdigits.2
  rw [hval] at hlt
  have hlen := congrArg List.length he
  rw [List.length_cons] at hlen
  cases hs : s.length with
  | zero =>
      rw [hs, pow_zero] at hlt
      omega
  | succ k =>
      rw [hs] at hlt
      have := decimal_length_le hlt
      omega

/-- The number of degrees and what follows them loses the zeros in front. -/
theorem number_joined {k : ℕ} {ds rest : LuaString} (hds : ds.all isDigit)
    (hlen : ds.length = k + 1) (hrest : rest.all isDigit) (hpos : 0 < tonumber ds)
    (hlt : tonumber (ds ++ rest) < 2 ^ 31) :
    number (numeral (ds ++ rest)) = decimal (tonumber ds) ++ rest := by
  have hfixed := fixed_tonumber hds hlen
  rw [fixed] at hfixed
  obtain ⟨c, s, hdec, hc⟩ := decimal_head hpos
  have hdigits : (c :: (s ++ rest)).all isDigit := by
    have hall := decimal_all_isDigit (tonumber ds)
    rw [hdec, List.all_cons, Bool.and_eq_true] at hall
    rw [List.all_cons, List.all_append, hall.1, hall.2, hrest]
    rfl
  have hread : tonumber (ds ++ rest) = tonumber (decimal (tonumber ds) ++ rest) := by
    conv_lhs => rw [← hfixed, List.append_assoc, tonumber_zeros_append]
  rw [(isNat_numeral hlt).number, hread, hdec, List.cons_append]
  exact decimal_tonumber hdigits hc

theorem Position.digits_split (p : Position) : p.latti.all isDigit ∧ p.lattir.all isDigit ∧
    p.longti.all isDigit ∧ p.longtir.all isDigit := by
  have h := p.digits
  rw [List.all_append, List.all_append, List.all_append, Bool.and_eq_true, Bool.and_eq_true,
    Bool.and_eq_true] at h
  exact ⟨h.1.1.1, h.1.1.2, h.1.2, h.2⟩

theorem all_take {s : LuaString} (h : s.all isDigit) (k : ℕ) : (s.take k).all isDigit ∧
    (s.drop k).all isDigit := by
  rw [List.all_eq_true] at h
  rw [List.all_eq_true, List.all_eq_true]
  exact ⟨fun c hc => h c (List.mem_of_mem_take hc), fun c hc => h c (List.mem_of_mem_drop hc)⟩

/-- A coordinate as the numbers of its digits. -/
theorem joined_value {ds r : LuaString} {k : ℕ} (hr : r.all isDigit) (hlen : ds.length = k + 2)
    (hmin : tonumber (ds.drop k) < 60) :
    joined ds r = ds.take k ++ (ds.drop k ++ four r) ∧
      tonumber (joined ds r) = tonumber (ds.take k) * 1000000 + tonumber (ds.drop k ++ four r) ∧
      tonumber (ds.drop k ++ four r) < 600000 := by
  have hjoined : joined ds r = ds.take k ++ (ds.drop k ++ four r) := by
    rw [joined, four_pad, ← List.append_assoc, List.take_append_drop]
  have hmf := tonumber_append (ds.drop k) (four r)
  have hf := tonumber_lt (four_digits hr)
  have hrest : (ds.drop k ++ four r).length = 6 := by
    rw [List.length_append, List.length_drop, hlen, four_length]
    omega
  rw [four_length] at hmf hf
  refine ⟨hjoined, ?_, by omega⟩
  rw [hjoined, tonumber_append, hrest]
  rfl

/-! ## Cutting the number -/

section

variable {a f : LuaString}

/-- The latitude is cut behind four digits. -/
theorem cut_lat (ha : a.length = 4) (hf : f.length = 4) :
    ssub (a ++ f) 1 4 = a ∧ ssub (a ++ f) 5 8 = f := by
  constructor
  · apply ssub_mid (a := []) (c := f)
    · rfl
    · rfl
    · rw [ha]
      rfl
  · apply ssub_mid (a := a) (c := [])
    · rw [List.append_nil]
    · rw [ha]
      rfl
    · rw [ha, hf]
      rfl

/-- The longitude is cut in front of the last four. -/
theorem cut_long (hf : f.length = 4) :
    ssub (a ++ f) 1 (((a ++ f).length : ℤ) - 4) = a ∧
      ssub (a ++ f) (((a ++ f).length : ℤ) - 3) (a ++ f).length = f := by
  constructor
  · apply ssub_mid (a := []) (c := f)
    · rfl
    · rfl
    · rw [List.length_append, hf, List.length_nil]
      omega
  · apply ssub_mid (a := a) (c := [])
    · rw [List.append_nil]
    · rw [List.length_append, hf]
      omega
    · rw [List.length_append]
      omega

theorem ssub_length_le (s : LuaString) (i j : ℤ) : (ssub s i j).length ≤ s.length := by
  rw [ssub]
  simp only [List.length_take, List.length_drop]
  omega

end

/-- Of seven digits there are not four behind the first four. -/
theorem getmilli_short_lat {A : Int32} (v : LuaString) (h : (number A).length ≤ 7) :
    getmilli v (ssub (number A) 5 8 ++ lua "0") = none := by
  have hcut := ssub_nat (number A) 4 8
  have hlen : (ssub (number A) 5 8).length ≤ 3 := by
    rw [show ssub (number A) 5 8 = _ from hcut, List.length_take, List.length_drop]
    omega
  have h0 : (lua "0").length = 1 := rfl
  rw [getmilli, if_pos]
  right
  rw [List.length_append, h0]
  omega

/-- And not four in front of the last four. -/
theorem getmilli_short_long {L : Int32} (vr : LuaString) (h : (number L).length ≤ 7) :
    getmilli (ssub (number L) 1 (((number L).length : ℤ) - 4)) vr = none := by
  have hlen : (ssub (number L) 1 (((number L).length : ℤ) - 4)).length ≤ 3 := by
    by_cases h4 : 4 ≤ (number L).length
    · have hcut := ssub_nat (number L) 0 ((number L).length - 4)
      have hcast : (((number L).length - 4 : ℕ) : ℤ) = (number L).length - 4 := by omega
      rw [hcast] at hcut
      rw [show ssub (number L) 1 _ = _ from hcut, List.length_take]
      omega
    · have := ssub_length_le (number L) 1 (((number L).length : ℤ) - 4)
      omega
  rw [getmilli, if_pos]
  left
  omega

/-! ## A coordinate -/

/-- The digits of a coordinate: `k` of the degrees, two of the minutes, and the fraction. -/
structure Digits (k : ℕ) (ds r : LuaString) : Prop where
  whole : ds.all isDigit
  fraction : r.all isDigit
  length : ds.length = k + 2
  few : k = 2 ∨ k = 3
  degrees : tonumber (ds.take k) < 180
  minutes : tonumber (ds.drop k) < 60

section

variable {k : ℕ} {ds r : LuaString}

/-- The number of a coordinate, as a text. -/
theorem Digits.number (h : Digits k ds r) (h10 : 10 ≤ tonumber (ds.take k)) :
    Lua.number (numeral (joined ds r)) = decimal (tonumber (ds.take k)) ++ ds.drop k ++ four r := by
  obtain ⟨hjoined, hvalue, hlt⟩ := joined_value h.fraction h.length h.minutes
  have hdegrees := h.degrees
  have hfew := h.few
  have hlen : (ds.take k).length = k - 1 + 1 := by
    rw [List.length_take, h.length]
    omega
  have hrest : (ds.drop k ++ four r).all isDigit := by
    rw [List.all_append, (all_take h.whole k).2, four_digits h.fraction]
    rfl
  rw [hjoined] at hvalue ⊢
  rw [number_joined (all_take h.whole k).1 hlen hrest (by omega) (by omega), List.append_assoc]

theorem Digits.number_length (h : Digits k ds r) (h10 : tonumber (ds.take k) < 10) :
    (Lua.number (numeral (joined ds r))).length ≤ 7 := by
  obtain ⟨-, hvalue, hlt⟩ := joined_value h.fraction h.length h.minutes
  have hsmall : tonumber (joined ds r) < 10 ^ (6 + 1) := by omega
  have hnat : tonumber (joined ds r) < 2 ^ 31 := by omega
  rw [(isNat_numeral hnat).number]
  exact decimal_length_le hsmall

theorem Digits.minutes_length (h : Digits k ds r) : (ds.drop k).length = 2 := by
  rw [List.length_drop, h.length]
  omega

theorem Digits.degrees_length (h : Digits k ds r) (h10 : 10 ≤ tonumber (ds.take k)) :
    (decimal (tonumber (ds.take k))).length = 2 ∨ (decimal (tonumber (ds.take k))).length = 3 := by
  have hdegrees := h.degrees
  by_cases h100 : tonumber (ds.take k) < 100
  · exact .inl (decimal_length (k := 1) h10 h100)
  · exact .inr (decimal_length (k := 2) (Nat.le_of_not_lt h100) (by omega))

/-- Degrees from ten on go through `getmilli`. -/
theorem Digits.getmilli (h : Digits k ds r) (h10 : 10 ≤ tonumber (ds.take k)) :
    (∃ q, (getmilli (decimal (tonumber (ds.take k)) ++ ds.drop k) (four r ++ lua "0")).map Prod.snd =
        some (degreesText (tonumber (ds.take k)) (tonumber (ds.drop k ++ four r)), q) ∧
      IsNat q (milli (tonumber (ds.take k)) (tonumber (ds.drop k ++ four r) * 1000 / 60))) ∧
      ∀ x ∈ milliValues (decimal (tonumber (ds.take k)) ++ ds.drop k) (four r ++ lua "0"),
        x < 2 ^ 31 := by
  have hdig : (decimal (tonumber (ds.take k)) ++ ds.drop k ++ four r).all isDigit := by
    rw [List.all_append, List.all_append, decimal_all_isDigit, (all_take h.whole k).2,
      four_digits h.fraction]
    rfl
  have hmilli := getmilli_eq hdig (h.degrees_length h10) h.minutes_length (four_length r)
    (by rw [tonumber_decimal]; exact h.degrees) h.minutes
  rw [tonumber_decimal] at hmilli
  exact hmilli

theorem Digits.value_lt (h : Digits k ds r) : tonumber (joined ds r) < 2 ^ 31 := by
  obtain ⟨-, hvalue, hlt⟩ := joined_value h.fraction h.length h.minutes
  have := h.degrees
  omega

end

theorem Position.latitude (p : Position) : Digits 2 p.latti p.lattir where
  whole := p.digits_split.1
  fraction := p.digits_split.2.1
  length := p.latti_length
  few := .inl rfl
  degrees := by
    have := p.latDegrees_lt
    omega
  minutes := p.latMinutes_lt

theorem Position.longitude (p : Position) : Digits 3 p.longti p.longtir where
  whole := p.digits_split.2.2.1
  fraction := p.digits_split.2.2.2
  length := p.longti_length
  few := .inr rfl
  degrees := p.longDegrees_lt
  minutes := p.longMinutes_lt

/-! ## A position -/

/-- The numbers of a position, in the pieces for `getmilli`. -/
def Position.pieces (p : Position) : LuaString × LuaString × LuaString × LuaString :=
  push (numeral (joined p.latti p.lattir)) (numeral (joined p.longti p.longtir))

theorem Position.filter_eq (p : Position) :
    filter p.latti p.lattir p.longti p.longtir = some p.pieces := by
  have hpass : ¬(p.latti.length ≠ 4 ∨ (p.longti.length ≠ 5 ∧ p.longti.length ≠ 4)) := by
    rw [p.latti_length, p.longti_length]
    decide
  rw [filter, if_neg hpass]
  rfl

theorem Position.latPieces (p : Position) (h10 : 10 ≤ p.latDegrees) :
    p.pieces.1 = decimal p.latDegrees ++ p.latti.drop 2 ∧
      p.pieces.2.1 = four p.lattir ++ lua "0" := by
  have hnumber := p.latitude.number h10
  have hlen : (decimal p.latDegrees ++ p.latti.drop 2).length = 4 := by
    have hlt := p.latDegrees_lt
    have hdeg : (decimal p.latDegrees).length = 2 := by
      apply decimal_length (k := 1) h10
      exact Nat.lt_trans hlt (by decide)
    rw [List.length_append, hdeg, p.latitude.minutes_length]
  obtain ⟨hfront, hback⟩ := cut_lat hlen (four_length p.lattir)
  simp only [Position.pieces, push, getvg]
  rw [hnumber]
  exact ⟨hfront, congrArg (· ++ lua "0") hback⟩

theorem Position.longPieces (p : Position) (h10 : 10 ≤ p.longDegrees) :
    p.pieces.2.2.1 = decimal p.longDegrees ++ p.longti.drop 3 ∧
      p.pieces.2.2.2 = four p.longtir ++ lua "0" := by
  have hnumber := p.longitude.number h10
  obtain ⟨hfront, hback⟩ := cut_long (a := decimal p.longDegrees ++ p.longti.drop 3)
    (four_length p.longtir)
  simp only [Position.pieces, push, getvg]
  rw [hnumber]
  exact ⟨hfront, congrArg (· ++ lua "0") hback⟩

end LuatAir200.Gps
