import LuatAir200.LuaString
import LuatAir200.Machine
import Mathlib.Algebra.Ring.Nat

/-!
# The download of ephemerides

`agps.lua`: it asks a server for the ephemerides of the GPS satellites, fetches them in
numbered packs with byte sums, and writes them to the GPS module piece by piece. `links`
knows which connection of this module each link belongs to; a link is there from
`link.open` until its event CLOSE. `calls` has the calls of the other modules in order.
-/
namespace LuatAir200.Agps
open Lua Machine

def WRITE_INTERVAL : ℕ := 50
def GET_TIMEOUT : ℕ := 10000
def ERROR_PACK_TIMEOUT : ℕ := 5000
def GET_RETRY_TIMES : ℕ := 3
def PACKET_LEN : ℕ := 1024
def RETRY_TIMES : ℕ := 3

inductive Phase
  | IDLE | CHECK | UPDATE
deriving DecidableEq

/-- The parameter of `GPS_STATE_IND`. -/
inductive GpsEvt
  | LOCATION_SUC | LOCATION_UNFILTER_SUC | LOCATION_FAIL | CLOSE | NO_CHIP | HAS_CHIP
deriving DecidableEq

inductive Msg
  | AGPS_UPDATE_SUC
  /-- `AGPS_EVT` with its first parameter. -/
  | BEGIN_IND
  | END_IND (succ : Bool)
deriving DecidableEq

inductive Call
  | open
  | connect (lid : Option ℕ)
  | send (lid : Option ℕ) (data : LuaString)
  | close (lid : Option ℕ)
  | dispatch (m : Msg)
  | opengps
  | closegps
  | writegpscmd (data : LuaString)
deriving DecidableEq

/-- An announcement with its sums, a pack that is accepted, each with the connection it came
over, all packs with a right sum, and the end of a session. -/
inductive Event
  | upbegin (conn : Option ℕ) (total last : ℕ) (sums : List ℕ)
  | accept (conn : Option ℕ) (data : LuaString)
  | complete (eph : LuaString)
  | upend (succ : Bool)
deriving DecidableEq

/-- What the end of a session does that may be done once for each connection. -/
inductive Effect
  | upend | close | endInd | retry
deriving DecidableEq

structure State where
  lid : Option ℕ
  isfix : Bool
  ispt : Bool
  itv : ℕ
  mode : ℕ
  gpssupport : Bool
  eph : LuaString
  state : Phase
  total : ℕ
  last : ℕ
  checksum : ℕ → Option ℕ
  packid : ℕ
  getretries : ℕ
  retries : ℕ
  reconnect : Bool
  /-- The running timers with their durations. -/
  connecttm : Option ℕ
  retrytm : Option ℕ
  errpacktm : Option ℕ
  writetm : Option ℕ
  /-- The number of connections so far, and the connection of each link. -/
  conns : ℕ
  links : ℕ → Option ℕ
  /-- The connections of the datagram that is handled and of the last announcement. -/
  sender : Option ℕ
  announcer : Option ℕ
  calls : List Call
  hist : List Event
  /-- The effects of the ends of sessions, with the connection that was the last one then. -/
  effects : List (ℕ × Effect)

/-- Before `load`. -/
def initial : State where
  lid := none
  isfix := false
  ispt := true
  itv := 2 * 3600
  mode := 0
  gpssupport := true
  eph := []
  state := .IDLE
  total := 0
  last := 0
  checksum _ := none
  packid := 0
  getretries := 0
  retries := 1
  reconnect := false
  connecttm := none
  retrytm := none
  errpacktm := none
  writetm := none
  conns := 0
  links _ := none
  sender := none
  announcer := none
  calls := []
  hist := []
  effects := []

def call (v : Call) (s : State) : State := { s with calls := s.calls ++ [v] }

def record (v : Event) (s : State) : State := { s with hist := s.hist ++ [v] }

def affect (v : Effect) (s : State) : State := { s with effects := s.effects ++ [(s.conns, v)] }

def startupdatetimer (s : State) : State :=
  if s.gpssupport ∧ s.ispt then { s with connecttm := some (s.itv * 1000) } else s

def gpsstateind (data : GpsEvt) (s : State) : State :=
  match data with
  | .LOCATION_SUC | .LOCATION_UNFILTER_SUC =>
      { startupdatetimer (call (.dispatch .AGPS_UPDATE_SUC) s) with isfix := true }
  | .LOCATION_FAIL | .CLOSE => { s with isfix := false }
  | .NO_CHIP => { s with gpssupport := false }
  | .HAS_CHIP => s

/-- `sfind(eph,"\181\98")`: the string from the first two sync bytes on. -/
def sync : LuaString → Option LuaString
  | [] => none
  | c :: t => if c = 181 ∧ t.head? = some 98 then some (c :: t) else sync t

/-- The first message of the ephemerides and what follows it; what comes before its sync bytes
is dropped. -/
def frame (eph : LuaString) : Option (LuaString × LuaString) := do
  let cmd ← sync eph
  let llow ← cmd[4]?
  let lhigh ← cmd[5]?
  let length := lhigh.toNat * 256 + llow.toNat
  if 8 + length ≤ cmd.length then some (cmd.take (8 + length), cmd.drop (8 + length)) else none

def writecmd (s : State) : State :=
  match if s.eph ≠ [] ∧ s.isfix = false then frame s.eph else none with
  | some (cmd, rest) =>
      { call (.writegpscmd cmd) s with eph := rest, writetm := some WRITE_INTERVAL }
  | none => call (.dispatch .AGPS_UPDATE_SUC) { call .closegps s with eph := [] }

def startwrite (s : State) : State :=
  if s.isfix ∨ s.gpssupport = false then { s with eph := [] }
  else if s.eph ≠ [] then { call .opengps s with writetm := some WRITE_INTERVAL }
  else s

/-- The sum of a string that fits into the memory does not overflow. -/
def calsum (str : LuaString) : ℕ := (str.map UInt8.toNat).sum

def reqget (idx : ℕ) (s : State) : State :=
  { call (.send s.lid (lua "Get" ++ lua (toString idx))) s with retrytm := some GET_TIMEOUT }

def reqcheck (s : State) : State :=
  { call (.send s.lid (lua "AGPS")) { s with state := .CHECK } with retrytm := some GET_TIMEOUT }

/-- `if mode==1 then dispatch("AGPS_EVT","END_IND",succ) end`. -/
def endind (succ : Bool) (s : State) : State :=
  if s.mode = 1 then affect .endInd (call (.dispatch (.END_IND succ)) s) else s

def upend (succ : Bool) (s : State) : State :=
  let s := affect .upend (record (.upend succ) { s with
    state := .IDLE, retrytm := none, errpacktm := none })
  let s := { affect .close (call (.close s.lid) s) with getretries := 0 }
  if succ then
    endind true (startupdatetimer (startwrite { s with reconnect := false, retries := 0 }))
  else if RETRY_TIMES ≤ s.retries then
    endind false (startupdatetimer { s with reconnect := false, retries := 0 })
  else affect .retry { s with reconnect := true, retries := s.retries + 1 }

def errpack (s : State) : State := upend false s

/-- The argument of `retry`. -/
inductive Param
  | STOP | ERROR_PACK

def retry (para : Option Param) (s : State) : State :=
  if s.state ≠ .UPDATE ∧ s.state ≠ .CHECK then s
  else match para with
    | some .STOP => { s with getretries := 0, errpacktm := none, retrytm := none }
    | some .ERROR_PACK => { s with errpacktm := some ERROR_PACK_TIMEOUT }
    | none =>
        let s := { s with getretries := s.getretries + 1 }
        if s.getretries < GET_RETRY_TIMES then
          if s.state = .UPDATE then reqget s.packid s else reqcheck s
        else upend false s

/-- `sbyte(data,1)*256 + sbyte(data,2)%256`. -/
def index (data : LuaString) : ℕ := (data.getD 0 0).toNat * 256 + (data.getD 1 0).toNat

/-- Is the length of the datagram not the expected one? -/
def lenMismatch (data : LuaString) (s : State) : Prop :=
  (s.packid < s.total ∧ data.length ≠ PACKET_LEN) ∨
    (s.total ≤ s.packid ∧ data.length ≠ s.last + 2)

instance (data : LuaString) (s : State) : Decidable (lenMismatch data s) :=
  inferInstanceAs (Decidable (_ ∨ _))

/-- The largest number that `tonumber` gives. -/
def LONG_MAX : ℕ := 2 ^ 31 - 1

/-- `checksum[total+1]`; the sum of the largest number and one is negative. -/
def lastsum (s : State) : Option ℕ :=
  if s.total < LONG_MAX then s.checksum (s.total + 1) else none

/-- The end of `getpack`, after the pack has been saved. -/
def nextpack (s : State) : State :=
  if s.packid = s.total then
    if lastsum s ≠ some (calsum s.eph) then upend false s
    else upend true (record (.complete s.eph) s)
  else
    let s := { s with packid := s.packid + 1 }
    reqget s.packid s

def getpack (data : LuaString) (s : State) : State :=
  if lenMismatch data s then retry (some .ERROR_PACK) s
  else if index data ≠ s.packid then retry (some .ERROR_PACK) s
  else if s.checksum (index data) ≠ some (calsum (data.drop 2)) then retry (some .ERROR_PACK) s
  else
    let s := record (.accept s.sender data) (retry (some .STOP) s)
    nextpack { s with eph := s.eph ++ data.drop 2 }

/-- `tonumber` of digits: `strtol` of a 32-bit `long` stops at its maximum. -/
def tolong (s : LuaString) : ℕ := min (tonumber s) LONG_MAX

/-- The first number in `s`, and what follows it. -/
def number (s : LuaString) : Option (LuaString × LuaString) :=
  (sfind s (lua "(%d+)")).bind fun r => match r with
    | ([d], rest) => some (d, rest)
    | _ => none

/-- `n` sums behind the numbers that have been read; one character is skipped before each of
them. The second part is the sums up to an error. -/
def sums : ℕ → LuaString → Bool × List ℕ
  | 0, _ => (true, [])
  | n + 1, rest =>
      if rest.length < 2 then (false, [])
      else match number rest.tail with
        | none => (false, [])
        | some (d, rest) => ((sums n rest).1, tolong d :: (sums n rest).2)

/-- The sums are stored from the index 1 on. -/
def store (xs : List ℕ) (f : ℕ → Option ℕ) (i : ℕ) : Option ℕ :=
  if 1 ≤ i ∧ i ≤ xs.length then xs[i - 1]? else f i

/-- The two numbers of an announcement and what follows them. -/
def announced (data : LuaString) : Option (ℕ × ℕ × LuaString) :=
  (sfind data (lua "AGPSUPDATE,(%d+),(%d+)")).bind fun r => match r with
    | ([p1, p2], rest) => some (tolong p1, tolong p2, rest)
    | _ => none

/-- How many sums `upbegin` reads; a loop to the sum of the largest number and one does
nothing. -/
def sumcount (total : ℕ) : ℕ := if total < LONG_MAX then total + 1 else 0

def upbegin (data : LuaString) (s : State) : State :=
  match announced data with
  | none => upend false s
  | some (p1, p2, rest) =>
      let r := sums (sumcount p1) rest
      let s := { s with total := p1, last := p2, checksum := store r.2 s.checksum }
      if r.1 then
        let s := record (.upbegin s.sender p1 p2 r.2) { s with
          getretries := 0, state := .UPDATE, packid := 1, eph := [], announcer := s.sender }
        reqget s.packid s
      else upend false s

def rcv (id : ℕ) (data : LuaString) (s : State) : State :=
  let s := { s with retrytm := none, sender := s.links id }
  if s.isfix ∨ s.gpssupport = false then upend true s
  else match s.state with
    | .CHECK => if foundAtFront data (lua "AGPSUPDATE") then upbegin data s else upend false s
    | .UPDATE => if data ≠ lua "ERR" then getpack data s else upend false s
    | .IDLE => upend false s

/-- `id` is the result of `link.open`. -/
def connectcb (id : Option ℕ) (s : State) : State :=
  call (.connect id) { call .open s with
    lid := id
    conns := s.conns + 1
    links := match id with
      | some i => Function.update s.links i (some (s.conns + 1))
      | none => s.links }

def connect (id : Option ℕ) (s : State) : State :=
  if s.ispt then
    if s.mode = 0 then connectcb id s else call (.dispatch .BEGIN_IND) s
  else s

/-- `next` is the result of `link.open` for the case of a reconnection. -/
def nofity (id : ℕ) (evt val : LuaString) (next : Option ℕ) (s : State) : State :=
  if some id ≠ s.lid then s
  else if s.isfix ∨ s.gpssupport = false then upend true s
  else if evt = lua "CONNECT" then
    if val = lua "CONNECT OK" then reqcheck s else upend false s
  else if evt = lua "CLOSE" ∧ s.reconnect then connect next s
  else if evt = lua "STATE" ∧ val = lua "CLOSED" then upend false s
  else s

def init (inv md : Option ℕ) (s : State) : State :=
  startupdatetimer { s with itv := inv.getD s.itv, mode := md.getD 0 }

def setspt (spt : Bool) (s : State) : State :=
  if s.ispt ≠ spt then
    let s := { s with ispt := spt }
    if spt then startupdatetimer s else s
  else s

/-- `poweron`: the module was switched on by a key or a charger and may update then. -/
def load (poweron : Bool) (id : Option ℕ) (s : State) : State :=
  if poweron then connect id s else startupdatetimer s

/-! ## Runs -/

inductive Act
  /-- An event of the link `id`; CLOSE is its last one. -/
  | nofity (id : ℕ) (evt val : LuaString) (next : Option ℕ)
  | rcv (id : ℕ) (data : LuaString)
  /-- The timers of `connect`, `retry`, `errpack` and `writecmd` expire. -/
  | connecttm (id : Option ℕ)
  | retrytm
  | errpacktm
  | writetm
  | gps (data : GpsEvt)
  /-- The user calls the function that BEGIN_IND carries. -/
  | connectcb (id : Option ℕ)
  | init (inv md : Option ℕ)
  | setspt (spt : Bool)

/-- `link.open` does not give an id that is in use. -/
def free (id : Option ℕ) (s : State) : Prop := ∀ i ∈ id, s.links i = none

instance (id : Option ℕ) (s : State) : Decidable (free id s) :=
  inferInstanceAs (Decidable (∀ i ∈ id, s.links i = none))

/-- Before it tells of CLOSE, `link.lua` has given up the link. -/
def leave (id : ℕ) (evt : LuaString) (s : State) : State :=
  if evt = lua "CLOSE" then { s with links := Function.update s.links id none } else s

def step (s : State) : Act → Option State
  | .nofity id evt val next =>
      let s' := leave id evt s
      if s.links id ≠ none ∧ free next s' then some (nofity id evt val next s') else none
  | .rcv id data => if s.links id ≠ none then some (rcv id data s) else none
  | .connecttm id =>
      if s.connecttm ≠ none ∧ free id s then some (connect id { s with connecttm := none })
      else none
  | .retrytm => if s.retrytm ≠ none then some (retry none { s with retrytm := none }) else none
  | .errpacktm => if s.errpacktm ≠ none then some (errpack { s with errpacktm := none }) else none
  | .writetm => if s.writetm ≠ none then some (writecmd { s with writetm := none }) else none
  | .gps data => some (gpsstateind data s)
  | .connectcb id =>
      if .dispatch .BEGIN_IND ∈ s.calls ∧ free id s then some (connectcb id s) else none
  | .init inv md => some (init inv md s)
  | .setspt spt => some (setspt spt s)

end LuatAir200.Agps
