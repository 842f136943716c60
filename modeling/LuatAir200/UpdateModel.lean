import LuatAir200.LuaString
import LuatAir200.Machine
import Mathlib.Algebra.Order.Ring.Nat

/-!
# The firmware download

`update.lua`: it asks a server for a new version and fetches it in numbered packs, which
it appends to the file `UPDATEPACK`. File operations succeed. `calls` has the calls of the
other modules in order and `hist` the download sessions. `sys.restart` is recorded and the
run goes on, so that runs end anywhere after it.
-/
namespace LuatAir200.Update
open Lua

def CMD_GET_TIMEOUT : ℕ := 10000
def ERROR_PACK_TIMEOUT : ℕ := 10000
def CMD_GET_RETRY_TIMES : ℕ := 5
def BEIJING_TIME : ℤ := 8

/-- What `main.lua` defines, and the version of the core. -/
structure Config where
  PRODUCT_KEY : LuaString
  PROJECT : LuaString
  VERSION : LuaString
  /-- `UPDMODE or 0`. -/
  updmode : ℕ
  corever : LuaString

inductive Phase
  | IDLE | CHECK | UPDATE
deriving DecidableEq

inductive Msg
  | UPDATE_BEGIN_IND
  | UPDATE_END_IND
  | NEW_VER_IND
  | UP_PROGRESS_IND (percent : ℕ)
  | UP_END_IND (succ : Bool)
deriving DecidableEq

inductive Call
  | open
  | connect (lid : Option ℕ) (prot server : LuaString) (port : ℕ)
  | send (lid : Option ℕ) (data : LuaString)
  | close (lid : Option ℕ)
  | dispatch (m : Msg)
  | restart
  /-- `misc.setclock` of the given time, taken from one time zone to another. -/
  | setclock (time : List LuaString) (pretimezone nowtimezone : ℤ)
deriving DecidableEq

/-- A session begins; a datagram is accepted; a session ends with the content of the file. -/
inductive Event
  | upbegin (projectid total last : ℕ)
  | accept (data : LuaString)
  | upend (succ : Bool) (file : LuaString)
deriving DecidableEq

structure State where
  state : Phase
  lid : Option ℕ
  updsuc : Bool
  projectid : ℕ
  total : ℕ
  last : ℕ
  packid : ℕ
  getretries : ℕ
  usersvr : Bool
  prot : LuaString
  server : LuaString
  port : ℕ
  period : ℕ
  timezone : Option ℤ
  chkrspdat : Option LuaString
  /-- The running timers with their durations. -/
  retrytm : Option ℕ
  periodtm : Option ℕ
  defaultbgntm : Option ℕ
  /-- What `misc` knows of the device. -/
  imei : LuaString
  sn : LuaString
  snvalid : Bool
  /-- The content of `UPDATEPACK`. -/
  file : LuaString
  calls : List Call
  hist : List Event
deriving DecidableEq

/-- The state after loading; the file is what an earlier run has left. -/
def boot (file : LuaString) : State where
  state := .IDLE
  lid := none
  updsuc := false
  projectid := 0
  total := 0
  last := 0
  packid := 1
  getretries := 1
  usersvr := false
  prot := lua "UDP"
  server := lua "firmware.openluat.com"
  port := 12410
  period := 0
  timezone := none
  chkrspdat := none
  retrytm := none
  periodtm := none
  defaultbgntm := some 10000
  imei := []
  sn := []
  snvalid := false
  file := file
  calls := []
  hist := []

def call (v : Call) (s : State) : State := { s with calls := s.calls ++ [v] }

def record (v : Event) (s : State) : State := { s with hist := s.hist ++ [v] }

/-- The file is made anew for the first pack. -/
def save (data : LuaString) (s : State) : State :=
  { s with file := if s.packid = 1 then data else s.file ++ data }

variable (c : Config)

/-- What precedes a request to the default server. -/
def ident (s : State) : LuaString :=
  lua "0," ++ c.PRODUCT_KEY ++ lua "," ++ s.imei ++ lua "," ++
    (if s.snvalid then s.sn else []) ++ lua "," ++ c.PROJECT ++ lua "_" ++ c.corever ++ lua "," ++
    c.VERSION

def reqget (index : ℕ) (s : State) : State :=
  { call (.send s.lid ((if s.usersvr then [] else ident c s ++ lua ",") ++ lua "Get" ++
      lua (toString index) ++ lua "," ++ lua (toString s.projectid))) s with
    retrytm := some CMD_GET_TIMEOUT }

def reqcheck (s : State) : State :=
  { call (.send s.lid (if s.usersvr then
        s.imei ++ lua "," ++ c.PROJECT ++ lua "_" ++ c.corever ++ lua "," ++ c.VERSION
      else ident c s)) s with
    state := .CHECK
    retrytm := some CMD_GET_TIMEOUT }

def upend (succ : Bool) (s : State) : State :=
  let tmpsta := s.state
  let s := call (.close s.lid) { record (.upend succ s.file) s with
    updsuc := succ, state := .IDLE, retrytm := none }
  let s := { s with lid := none }
  let s := if succ = true ∧ c.updmode = 0 then call .restart s else s
  let s := if c.updmode = 1 ∧ tmpsta ≠ .IDLE then call (.dispatch (.UP_END_IND succ)) s else s
  let s := call (.dispatch .UPDATE_END_IND) s
  if s.period ≠ 0 then { s with periodtm := some (s.period * 1000) } else s

/-- The argument of `retry`. -/
inductive Param
  | STOP | ERROR_PACK

def retry (param : Option Param) (s : State) : State :=
  if s.state ≠ .UPDATE ∧ s.state ≠ .CHECK then s
  else match param with
    | some .STOP => { s with getretries := 0, retrytm := none }
    | some .ERROR_PACK => { s with retrytm := some ERROR_PACK_TIMEOUT }
    | none =>
        let s := { s with getretries := s.getretries + 1 }
        if s.getretries < CMD_GET_RETRY_TIMES then
          if s.state = .UPDATE then reqget c s.packid s else reqcheck c s
        else upend c false s

/-- `string.byte(data,1)*256+string.byte(data,2)`. -/
def index (data : LuaString) : ℕ := (data.getD 0 0).toNat * 256 + (data.getD 1 0).toNat

/-- Is the length of the datagram not the expected one? -/
def lenMismatch (data : LuaString) (s : State) : Prop :=
  (s.packid < s.total ∧ data.length ≠ 1024) ∨
    (s.total ≤ s.packid ∧ (data.length : ℤ) - 2 ≠ s.last)

instance (data : LuaString) (s : State) : Decidable (lenMismatch data s) :=
  inferInstanceAs (Decidable (_ ∨ _))

/-- The end of `getpack`, after the pack has been saved. -/
def nextpack (s : State) : State :=
  if s.packid = s.total then upend c true s
  else
    let s := { s with packid := s.packid + 1 }
    reqget c s.packid s

/-- The percentage of a download in no packs is a division by zero, which ends the program. -/
def getpack (data : LuaString) (s : State) : Option State :=
  if lenMismatch data s then some (retry c (some .ERROR_PACK) s)
  else if index data ≠ s.packid then some (retry c (some .ERROR_PACK) s)
  else
    let s := save (data.drop 2) (record (.accept data) (retry c (some .STOP) s))
    if c.updmode = 1 then
      if s.total = 0 then none
      else some (nextpack c (call (.dispatch (.UP_PROGRESS_IND (s.packid * 100 / s.total))) s))
    else some (nextpack c s)

/-- `tonumber` of digits: `strtol` of a 32-bit `long` stops at its maximum. -/
def tolong (s : LuaString) : ℕ := min (tonumber s) (2 ^ 31 - 1)

def upbegin (data : LuaString) (s : State) : State :=
  match smatch data (lua "LUAUPDATE,(%d+),(%d+),(%d+)") with
  | some [p1, p2, p3] =>
      let s := record (.upbegin (tolong p1) (tolong p2) (tolong p3)) { s with
        projectid := tolong p1, total := tolong p2, last := tolong p3
        getretries := 0, state := .UPDATE, packid := 1 }
      reqget c s.packid s
  | _ => upend c false s

/-- `nofity`; the id of the link is not used. -/
def nofity (evt val : LuaString) (s : State) : State :=
  if evt = lua "CONNECT" then
    let s := call (.dispatch .UPDATE_BEGIN_IND) s
    if val = lua "CONNECT OK" then reqcheck c s else upend c false s
  else if evt = lua "STATE" ∧ val = lua "CLOSED" then upend c false s
  else s

/-- The callback that `NEW_VER_IND` carries. -/
def upselcb (sel : Bool) (chkrspdat : LuaString) (s : State) : State :=
  if sel then upbegin c chkrspdat s
  else call (.dispatch .UPDATE_END_IND) { call (.close s.lid) s with lid := none }

/-- The end of `recv` in the state `CHECK`. -/
def setclock (data : LuaString) (s : State) : State :=
  match s.timezone, smatch data (lua "(%d+)%-(%d+)%-(%d+) *(%d%d):(%d%d):(%d%d)") with
  | some timezone, some time => call (.setclock time BEIJING_TIME timezone) s
  | _, _ => s

def recv (data : LuaString) (s : State) : Option State :=
  let s := { s with retrytm := none }
  match s.state with
  | .CHECK =>
      some (setclock data
        (if foundAtFront data (lua "LUAUPDATE") then
          if c.updmode = 0 then upbegin c data s
          else if c.updmode = 1 then
            call (.dispatch .NEW_VER_IND) { s with chkrspdat := some data }
          else upend c false s
        else upend c false s))
  | .UPDATE => if data = lua "ERR" then some (upend c false s) else getpack c data s
  | .IDLE => some (upend c false s)

/-- `id` is the result of `link.open`. -/
def connect (id : Option ℕ) (s : State) : State :=
  if s.lid = none ∧ s.updsuc = false then
    call (.connect id s.prot s.server s.port) { call .open s with lid := id }
  else s

def defaultbgn (id : Option ℕ) (s : State) : Option State :=
  if s.usersvr then some s
  else if (smatch c.PROJECT (lua ",")).isSome then none
  else if (smatch c.VERSION (lua "%d%.%d%.%d")).isNone ∨ c.VERSION.length ≠ 5 then none
  else some (connect id s)

def setup (prot server : LuaString) (port : ℕ) (id : Option ℕ) (s : State) : State :=
  connect id { s with prot := prot, server := server, port := port, usersvr := true }

def setperiod (prd : ℕ) (s : State) : Option State :=
  if prd = 0 ∨ 60 ≤ prd then
    some { s with period := prd, periodtm := if prd = 0 then none else some (prd * 1000) }
  else none

/-! ## Runs -/

inductive Act
  | nofity (evt val : LuaString)
  | recv (data : LuaString)
  /-- The timers of `retry`, `connect` and `defaultbgn` expire. -/
  | retry
  | period (id : Option ℕ)
  | defaultbgn (id : Option ℕ)
  /-- The user answers `NEW_VER_IND`, maybe late and more than once. -/
  | upselcb (sel : Bool)
  | request (id : Option ℕ)
  | setup (prot server : LuaString) (port : ℕ) (id : Option ℕ)
  | setperiod (prd : ℕ)
  | settimezone (zone : Option ℤ)
  | device (imei sn : LuaString) (snvalid : Bool)

def step (s : State) : Act → Option State
  | .nofity evt val => some (nofity c evt val s)
  | .recv data => recv c data s
  | .retry => s.retrytm.map fun _ => retry c none { s with retrytm := none }
  | .period id => s.periodtm.map fun _ => connect id { s with periodtm := none }
  | .defaultbgn id => s.defaultbgntm.bind fun _ => defaultbgn c id { s with defaultbgntm := none }
  | .upselcb sel => s.chkrspdat.map fun data => upselcb c sel data s
  | .request id => some (connect id s)
  | .setup prot server port id => some (setup prot server port id s)
  | .setperiod prd => setperiod prd s
  | .settimezone zone => some { s with timezone := zone }
  | .device imei sn snvalid => some { s with imei := imei, sn := sn, snvalid := snvalid }

end LuatAir200.Update
