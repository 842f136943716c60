import LuatAir200.LuaNumber
import LuatAir200.SmsHex

/-!
# Positions of the GPS

What `proc` in `gps.lua` does with the position of a sentence. Sentences about satellites, which
leave it alone, the time of an RMC sentence and the messages are not covered. `numeral` stands for
`tonumber`: what is read here are digits.
-/
namespace LuatAir200.Gps
open Lua Sms

/-- The table `gps`, with `c.gps` as `clock`; a coordinate without a text is the number 0. -/
structure Table where
  find : LuaString
  clock : Int32
  cgen : Int32
  filterbgn : Option Int32
  filtertime : Int32
  latyp : Option LuaString
  longtyp : Option LuaString
  haiba : LuaString
  sep : LuaString
  ggalng : LuaString
  ggalat : LuaString
  hdop : LuaString
  locationsatenum : Int32
  kilometers : Bool
  spd : Int32
  cog : Int32
  lastcog : Int32
  cogchange : Bool
  olati : Option LuaString
  lati : Option LuaString
  latt_m : Option Int32
  olong : Option LuaString
  long : Option LuaString
  longt_m : Option Int32

/-! ## Coordinates -/

/-- Seven digits. -/
def seven (v1 : LuaString) : LuaString :=
  if 7 < v1.length then ssub v1 1 7
  else if v1.length < 7 then List.replicate (7 - v1.length) 48 ++ v1
  else v1

/-- Degrees and minutes in the two forms of degrees, and in milliseconds by 10. -/
def getmilli (v vr : LuaString) : Option (LuaString × LuaString × Int32) :=
  let L : ℤ := v.length
  if (L ≠ 4 ∧ L ≠ 5) ∨ vr.length ≠ 5 then none
  else
    let v2 := ssub v 1 (L - 2)
    let v1 := seven (number (numeral (ssub v (L - 1) L ++ vr) * 10 / 6))
    let ov1 := ssub v (L - 1) L ++ vr
    let ov1 :=
      if 7 < ov1.length then ssub ov1 1 7
      else if ov1.length < 7 then ov1 ++ List.replicate (7 - ov1.length) 48
      else ov1
    some (v2 ++ lua "." ++ ov1, v2 ++ lua "." ++ v1,
      numeral (v2 ++ ssub v1 1 5) * 36 + numeral (ssub v1 6 7) * 36 / 100)

def getvg (A L : Int32) : LuaString × LuaString × LuaString × LuaString :=
  let A := number A
  let L := number L
  let t1 : ℤ := L.length
  (ssub A 1 4, ssub A 5 8 ++ lua "0", ssub L 1 (t1 - 4), ssub L (t1 - 3) t1 ++ lua "0")

def push (A L : Int32) : LuaString × LuaString × LuaString × LuaString := getvg A L

/-- Four digits of a fraction at least. -/
def pad (R : LuaString) : LuaString := if R.length < 4 then R ++ List.replicate (4 - R.length) 48 else R

/-- The digits that `filter` makes a number of. -/
def joined (L R : LuaString) : LuaString := L ++ ssub (pad R) 1 4

def filter (LA RA LL RL : LuaString) : Option (LuaString × LuaString × LuaString × LuaString) :=
  if LA.length ≠ 4 ∨ (LL.length ≠ 5 ∧ LL.length ≠ 4) then none
  else some (push (numeral (joined LA RA)) (numeral (joined LL RL)))

/-! ## Sentences -/

/-- What a sentence tells. -/
structure Sentence where
  latti : LuaString
  lattir : LuaString
  longti : LuaString
  longtir : LuaString
  spd1 : LuaString
  cog1 : LuaString
  numoflocationsate : LuaString

def GGA : LuaString := lua ("GGA,%d+%.%d+,(%d+)%.(%d+),([NS]),(%d+)%.(%d+),([EW]),(%d),(%d+)," ++
  "([%d%.]*),(.*),M,(.*),M")

def RMC : LuaString := lua ("RMC,(%d%d%d%d%d%d)%.%d+,(%w),(%d+)%.(%d+),([NS]),(%d+)%.(%d+),([EW])," ++
  "(.-),(.-),(%d%d%d%d%d%d),")

/-- Whether the position of a GGA sentence is valid. -/
def located (gpsfind : LuaString) : Bool :=
  gpsfind = lua "1" || gpsfind = lua "2" || gpsfind = lua "4"

def gga (s : LuaString) (g : Table) : Option Sentence × Table :=
  match smatch s GGA with
  | some [latti, lattir, latyp, longti, longtir, longtyp, gpsfind, numoflocationsate, hdp, hh, sep] =>
      let g := { g with latyp := some latyp, longtyp := some longtyp }
      let g :=
        if located gpsfind then
          { g with
            find := lua "S"
            haiba := hh
            sep := sep
            ggalng := longti ++ lua "." ++ longtir
            ggalat := latti ++ lua "." ++ lattir }
        else g
      (some ⟨latti, lattir, longti, longtir, [], [], numoflocationsate⟩, { g with hdop := hdp })
  | _ => (none, { g with latyp := none, longtyp := none })

def rmc (s : LuaString) (g : Table) : Option Sentence × Table :=
  match smatch s RMC with
  | some [_, gpsfind, latti, lattir, latyp, longti, longtir, longtyp, spd1, cog1, _] =>
      let g := { g with latyp := some latyp, longtyp := some longtyp }
      (some ⟨latti, lattir, longti, longtir, spd1, cog1, lua "0"⟩,
        if gpsfind = lua "A" then { g with find := lua "S" } else g)
  | _ => (none, { g with latyp := none, longtyp := none })

def sentence (s : LuaString) (g : Table) : Option Sentence × Table :=
  if (smatch s (lua "GGA")).isSome then gga s g
  else if (smatch s (lua "RMC")).isSome then rmc s g
  else (none, g)

/-- The first digits of a number. -/
def whole (s : LuaString) : Option LuaString := (smatch2 s (lua "(%d+)%.*(%d*)")).map Prod.fst

def speed (spd1 : LuaString) (g : Table) : Table :=
  match whole spd1 with
  | some r1 => { g with spd := if g.kilometers then numeral r1 * 1852 / 1000 else numeral r1 }
  | none => g

def course (cog1 : LuaString) (g : Table) : Table :=
  match whole cog1 with
  | some r1 =>
      let cog := numeral r1
      let r3 := if g.lastcog < cog then cog - g.lastcog else g.lastcog - cog
      if 45 < r3 ∧ r3 < 135 then { g with cog := cog, lastcog := cog, cogchange := true }
      else { g with cog := cog, cogchange := false }
  | none => g

def satellites (numoflocationsate : LuaString) (g : Table) : Table :=
  let n := numeral numoflocationsate
  let n := if 9 < n then 9 else n
  if 0 < n then { g with locationsatenum := n } else g

/-- The position, when it is valid. -/
def place (x : Sentence) (g : Table) : Table :=
  match filter x.latti x.lattir x.longti x.longtir with
  | none => g
  | some (LA, RA, LL, RL) =>
      let lat := getmilli LA RA
      let long := getmilli LL RL
      { g with
        cgen := g.clock
        olati := lat.map fun r => r.1
        lati := lat.map fun r => r.2.1
        latt_m := lat.map fun r => r.2.2
        olong := long.map fun r => r.1
        long := long.map fun r => r.2.1
        longt_m := long.map fun r => r.2.2 }

/-- What follows the parsing of a sentence. -/
def finish (x : Sentence) (g : Table) : Table :=
  let g := satellites x.numoflocationsate g
  let g := if x.spd1 ≠ [] then speed x.spd1 g else g
  let g := if x.cog1 ≠ [] then course x.cog1 g else g
  if g.find = lua "S" then place x g else g

/-- The first positions after the GPS is opened are left out for a time. -/
def waiting (g : Table) : Bool :=
  match g.filterbgn with
  | some b => g.clock - b < g.filtertime
  | none => false

/-- `proc`, for the sentences with a position. -/
def proc (s : LuaString) (g : Table) : Table :=
  if s = [] then g
  else
    let g := { g with find := [] }
    let r := sentence s g
    let g := r.2
    if g.find = lua "S" ∧ g.filterbgn = none ∧ 0 < g.filtertime then
      { g with filterbgn := some g.clock, find := [] }
    else if g.find = lua "S" ∧ waiting g then
      { g with find := [] }
    else
      match r.1 with
      | some x => finish x g
      | none => g

end LuatAir200.Gps
