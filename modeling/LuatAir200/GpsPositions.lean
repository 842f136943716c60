import LuatAir200.GpsCoordinates

/-!
# Which positions are right

A sentence with a valid position that is not left out at the start ends in `filter`, whatever else
it tells. The table then has the position if and only if both coordinates have ten degrees.
-/
namespace LuatAir200.Gps
open Lua Sms

/-- A sentence with a valid position, as `proc` matches it. -/
inductive Fixes (s : LuaString) (p : Position) : Prop
  | gga {latyp longtyp gpsfind numoflocationsate hdp hh sep : LuaString}
      (h : (smatch s (lua "GGA")).isSome = true)
      (hm : smatch s GGA = some [p.latti, p.lattir, latyp, p.longti, p.longtir, longtyp, gpsfind,
        numoflocationsate, hdp, hh, sep])
      (hf : located gpsfind = true)
  | rmc {gpstime latyp longtyp spd1 cog1 gpsdate : LuaString}
      (h : (smatch s (lua "GGA")).isSome = false) (hr : (smatch s (lua "RMC")).isSome = true)
      (hm : smatch s RMC = some [gpstime, lua "A", p.latti, p.lattir, latyp, p.longti, p.longtir,
        longtyp, spd1, cog1, gpsdate])

/-- No positions are left out, or no more. -/
def Settled (g : Table) : Prop := ¬(g.filterbgn = none ∧ 0 < g.filtertime) ∧ waiting g = false

/-- The fields of a position. -/
def Sentence.At (x : Sentence) (p : Position) : Prop :=
  x.latti = p.latti ∧ x.lattir = p.lattir ∧ x.longti = p.longti ∧ x.longtir = p.longtir

section

variable {s : LuaString} {p : Position} {x : Sentence} {g : Table}

@[simp] theorem satellites_find (n : LuaString) (g : Table) : (satellites n g).find = g.find := by
  unfold satellites
  simp only
  split_ifs
  all_goals rfl

@[simp] theorem speed_find (t : LuaString) (g : Table) : (speed t g).find = g.find := by
  unfold speed
  split
  · rfl
  · rfl

@[simp] theorem course_find (t : LuaString) (g : Table) : (course t g).find = g.find := by
  unfold course
  split
  · simp only
    split_ifs
    all_goals rfl
  · rfl

/-- The other fields of a sentence are done with before its position. -/
theorem finish_place (h : g.find = lua "S") : ∃ g', finish x g = place x g' := by
  refine ⟨_, if_pos ?_⟩
  split_ifs
  all_goals simp [h]

/-- What is found in a sentence, before the first positions are left out. -/
theorem Fixes.found (h : Fixes s p) (g : Table) : ∃ x g', sentence s g = (some x, g') ∧ x.At p ∧
    g'.find = lua "S" ∧ g'.filterbgn = g.filterbgn ∧ g'.filtertime = g.filtertime ∧
      g'.clock = g.clock := by
  cases h with
  | gga h hm hf =>
      have hs : sentence s g = Gps.gga s g := if_pos h
      rw [hs]
      unfold Gps.gga
      simp only [hm, hf, if_true]
      exact ⟨_, _, rfl, ⟨rfl, rfl, rfl, rfl⟩, rfl, rfl, rfl, rfl⟩
  | rmc h hr hm =>
      have hs : sentence s g = Gps.rmc s g := by
        unfold sentence
        rw [if_neg (by rw [h]; decide), if_pos hr]
      rw [hs]
      unfold Gps.rmc
      simp only [hm, if_true]
      exact ⟨_, _, rfl, ⟨rfl, rfl, rfl, rfl⟩, rfl, rfl, rfl, rfl⟩

theorem Fixes.ne_nil (h : Fixes s p) : s ≠ [] := by
  rintro rfl
  cases h with
  | gga h hm hf =>
      have hnone : (smatch [] (lua "GGA")).isSome = false := by decide
      rw [hnone] at h
      cases h
  | rmc h hr hm =>
      have hnone : (smatch [] (lua "RMC")).isSome = false := by decide
      rw [hnone] at hr
      cases hr

/-- The position gets to `filter`. -/
theorem Fixes.place (h : Fixes s p) (hg : Settled g) : ∃ x g', proc s g = place x g' ∧ x.At p := by
  obtain ⟨x, g', hfound, hx, hfind, hbgn, htime, hclock⟩ := h.found { g with find := [] }
  have hwait : waiting g' = false := by
    rw [← hg.2, waiting, hbgn, htime, hclock]
    rfl
  have hstart : ¬(g'.find = lua "S" ∧ g'.filterbgn = none ∧ 0 < g'.filtertime) := by
    rintro ⟨-, hnone, hpos⟩
    rw [hbgn] at hnone
    rw [htime] at hpos
    exact hg.1 ⟨hnone, hpos⟩
  obtain ⟨g'', hplace⟩ := finish_place (x := x) hfind
  refine ⟨x, g'', ?_, hx⟩
  rw [proc, if_neg h.ne_nil]
  simp only [hfound, hwait]
  rw [if_neg hstart, if_neg (by simp)]
  exact hplace

/-- The coordinates in the table. -/
theorem place_eq (hx : x.At p) (g : Table) :
    (Gps.place x g).lati = (getmilli p.pieces.1 p.pieces.2.1).map (fun r => r.2.1) ∧
      (Gps.place x g).latt_m = (getmilli p.pieces.1 p.pieces.2.1).map (fun r => r.2.2) ∧
      (Gps.place x g).long = (getmilli p.pieces.2.2.1 p.pieces.2.2.2).map (fun r => r.2.1) ∧
      (Gps.place x g).longt_m = (getmilli p.pieces.2.2.1 p.pieces.2.2.2).map (fun r => r.2.2) := by
  obtain ⟨h1, h2, h3, h4⟩ := hx
  rw [Gps.place, h1, h2, h3, h4, p.filter_eq]
  obtain ⟨LA, RA, LL, RL⟩ := p.pieces
  exact ⟨rfl, rfl, rfl, rfl⟩

end

/-- The values of a position of at least ten degrees each way. -/
theorem Position.values_lt (p : Position) (hlat : 10 ≤ p.latDegrees) (hlong : 10 ≤ p.longDegrees) :
    ∀ m ∈ p.values, m < 2 ^ 31 := by
  obtain ⟨hlat1, hlat2⟩ := p.latPieces hlat
  obtain ⟨hlong1, hlong2⟩ := p.longPieces hlong
  rw [Position.values, p.filter_eq]
  simp only [List.forall_mem_cons, List.forall_mem_append]
  refine ⟨p.latitude.value_lt, p.longitude.value_lt, ?_, ?_⟩
  · rw [hlat1, hlat2]
    exact (p.latitude.getmilli hlat).2
  · rw [hlong1, hlong2]
    exact (p.longitude.getmilli hlong).2

/-- The table has the position exactly from ten degrees on. -/
theorem converted_iff {s : LuaString} {p : Position} {g : Table} (hs : Fixes s p) (hg : Settled g) :
    Converted p (proc s g) ↔ 10 ≤ p.latDegrees ∧ 10 ≤ p.longDegrees := by
  obtain ⟨x, g', hproc, hx⟩ := hs.place hg
  obtain ⟨hlati, hlatt, hlong, hlongt⟩ := place_eq hx g'
  rw [hproc]
  constructor
  · intro h
    constructor
    · by_contra hlt
      have hnone : getmilli p.pieces.1 p.pieces.2.1 = none :=
        getmilli_short_lat p.pieces.1 (p.latitude.number_length (Nat.lt_of_not_le hlt))
      have htext := h.lati
      rw [hlati, hnone] at htext
      cases htext
    · by_contra hlt
      have hnone : getmilli p.pieces.2.2.1 p.pieces.2.2.2 = none :=
        getmilli_short_long p.pieces.2.2.2 (p.longitude.number_length (Nat.lt_of_not_le hlt))
      have htext := h.long
      rw [hlong, hnone] at htext
      cases htext
  · rintro ⟨h1, h2⟩
    obtain ⟨hlat1, hlat2⟩ := p.latPieces h1
    obtain ⟨hlong1, hlong2⟩ := p.longPieces h2
    obtain ⟨⟨q, hq, hmilli⟩, -⟩ := p.latitude.getmilli h1
    obtain ⟨⟨r, hr, hmilli'⟩, -⟩ := p.longitude.getmilli h2
    rw [hlat1, hlat2] at hlati hlatt
    rw [hlong1, hlong2] at hlong hlongt
    have hq1 := congrArg (Option.map Prod.fst) hq
    have hq2 := congrArg (Option.map Prod.snd) hq
    have hr1 := congrArg (Option.map Prod.fst) hr
    have hr2 := congrArg (Option.map Prod.snd) hr
    rw [Option.map_map] at hq1 hq2 hr1 hr2
    constructor
    · exact hlati.trans hq1
    · exact hlong.trans hr1
    · exact ⟨q, hlatt.trans hq2, hmilli⟩
    · exact ⟨r, hlongt.trans hr2, hmilli'⟩
    · exact p.values_lt h1 h2

/-! ## Two sentences -/

/-- The table when the GPS has been on for long enough. -/
def settled : Table where
  find := []
  clock := 60
  cgen := 0
  filterbgn := some 10
  filtertime := 5
  latyp := none
  longtyp := none
  haiba := []
  sep := []
  ggalng := []
  ggalat := []
  hdop := []
  locationsatenum := 0
  kilometers := true
  spd := 0
  cog := 0
  lastcog := 0
  cogchange := false
  olati := none
  lati := none
  latt_m := none
  olong := none
  long := none
  longt_m := none

def east : Position where
  latti := lua "3110"
  lattir := lua "4"
  longti := lua "12129"
  longtir := lua "56789"
  digits := by decide
  latti_length := rfl
  longti_length := rfl
  latDegrees_lt := by decide
  latMinutes_lt := by decide
  longDegrees_lt := by decide
  longMinutes_lt := by decide

theorem converted_iff_east :
    Converted east (proc (lua "$GPRMC,023559.00,A,3110.4,N,12129.56789,E,0.5,77.5,091215,,,A*57")
        settled) ↔ 10 ≤ east.latDegrees ∧ 10 ≤ east.longDegrees := by
  have hs : Fixes (lua "$GPRMC,023559.00,A,3110.4,N,12129.56789,E,0.5,77.5,091215,,,A*57") east :=
    @Fixes.rmc _ _ (lua "023559") (lua "N") (lua "E") (lua "0.5") (lua "77.5") (lua "091215")
      (by decide +kernel) (by decide +kernel) (by decide +kernel)
  have hg : Settled settled := ⟨by simp [settled], by decide⟩
  exact converted_iff hs hg

def north : Position where
  latti := lua "4717"
  lattir := lua "1143"
  longti := lua "00833"
  longtir := lua "9152"
  digits := by decide
  latti_length := rfl
  longti_length := rfl
  latDegrees_lt := by decide
  latMinutes_lt := by decide
  longDegrees_lt := by decide
  longMinutes_lt := by decide

/-- Eight degrees of longitude are rejected. -/
theorem not_converted : ¬∀ (s : LuaString) (p : Position) (g : Table), Fixes s p → Settled g →
    Converted p (proc s g) := by
  intro h
  have hs : Fixes (lua "$GPRMC,083559.00,A,4717.1143,N,00833.9152,E,0.004,77.52,091202,,,A*57")
      north :=
    @Fixes.rmc _ _ (lua "083559") (lua "N") (lua "E") (lua "0.004") (lua "77.52") (lua "091202")
      (by decide +kernel) (by decide +kernel) (by decide +kernel)
  have hg : Settled settled := ⟨by simp [settled], by decide⟩
  have hlong := (h _ north settled hs hg).long
  revert hlong
  decide +kernel

end LuatAir200.Gps
