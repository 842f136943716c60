import LuatAir200.LinkClient

/-!
# `dbg.lua`: reports of errors

Texts are appended to a file of 900 bytes and sent to a server until it answers `OK`. A report is
sent over a link that `init` opens; three timers and the events of the link drive the rest. A
restart of the device leaves the files. Other modules use links of their own.
-/
namespace LuatAir200.Dbg
open Lua Machine

/-- Who opened a link. -/
inductive Client
  | dbg
  | other (k : ℕ)
  deriving DecidableEq, Repr

inductive Timer
  | snd | rcvtimeout | reconn
  /-- The timer that dispatches `DBG_END_IND`. -/
  | endind
  deriving DecidableEq, Repr

/-- `DBG_BEGIN_IND` and `DBG_END_IND` -/
inductive Ind
  | begins | ends
  deriving DecidableEq, Repr

/-- A report that was sent over link `id`, when `texts` texts had been recorded. -/
structure Report where
  id : ℕ
  data : LuaString
  texts : ℕ
  deriving DecidableEq, Repr

structure State where
  link : Links.State Client
  /-- `_G.PROJECT` and `_G.VERSION` -/
  project : Option LuaString
  version : Option LuaString
  corever : LuaString
  imei : LuaString
  extliberr : LuaString
  /-- `prot`, `addr` and `port` -/
  server : Option (LuaString × LuaString × LuaString)
  lid : Option ℕ
  linksta : Bool
  reconntimes : ℕ
  inf : LuaString
  luaerr : LuaString
  /-- `DBG_FILE` -/
  dbgfile : LuaString
  /-- `/luaerrinfo.txt` -/
  luaerrinfo : LuaString
  timers : Timer → Bool
  dispatched : List Ind
  /-- The calls of the link interface: the id, and whose link it was. -/
  calls : List (Option ℕ × Option Client)
  /-- The texts recorded so far, and how many of them have been acknowledged. -/
  texts : List LuaString
  acked : ℕ
  /-- The reports sent over the links that are open. -/
  reports : List Report

def boot (project version : Option LuaString) (corever : LuaString) : State where
  link := Links.boot
  project := project
  version := version
  corever := corever
  imei := []
  extliberr := []
  server := none
  lid := none
  linksta := false
  reconntimes := 0
  inf := []
  luaerr := []
  dbgfile := []
  luaerrinfo := []
  timers _ := false
  dispatched := []
  calls := []
  texts := []
  acked := 0
  reports := []

/-! ## The interfaces it uses -/

def timer_start (k : Timer) (s : State) : State :=
  { s with timers := Function.update s.timers k true }

def timer_stop (k : Timer) (s : State) : State :=
  { s with timers := Function.update s.timers k false }

def dispatch (m : Ind) (s : State) : State := { s with dispatched := s.dispatched ++ [m] }

/-- A call of the link interface for `lid`. -/
def called (s : State) : State :=
  { s with calls := s.calls ++ [(s.lid, s.lid.bind fun id => Links.owner id s.link)] }

def linkClose (s : State) : State :=
  match s.lid with
  | some id => { called s with link := (Links.close id s.link).1 }
  | none => called s

def linkSend (data : LuaString) (s : State) : State :=
  match s.lid with
  | some id =>
      { called s with
        link := (Links.send id data s.link).1
        reports := s.reports ++
          if (Links.send id data s.link).2 then [⟨id, data, s.texts.length⟩] else [] }
  | none => called s

/-- Without a server `string.format` fails, unless `link.connect` returns before. -/
def linkConnect (s : State) : Option State :=
  match s.lid, s.server with
  | some id, some (prot, addr, port) =>
      some { called s with link := (Links.connect id prot addr port s.link).1 }
  | some id, none =>
      if (Links.connect id [] [] [] s.link).2 ∧ !s.link.callexist then none
      else some { called s with link := (Links.connect id [] [] [] s.link).1 }
  | none, _ => some (called s)

/-- `link.open`; what was sent over an older link of this id is over. -/
def linkOpen (s : State) : State :=
  let r := Links.openlink .dbg true s.link
  { s with link := r.1, lid := r.2, reports := s.reports.filter fun r' => some r'.id ≠ r.2 }

/-! ## The module -/

@[irreducible] def last900 (str : LuaString) : LuaString := str.drop (str.length - 900)

def writerr (append : Bool) (v : Option LuaString) (s : State) : State :=
  match v with
  | some v => { s with dbgfile := last900 (if append then s.dbgfile ++ v else v) }
  | none => s

def initerr (s : State) : State := { s with inf := s.extliberr ++ s.dbgfile }

def getlasterr (s : State) : State := { s with luaerr := s.luaerrinfo }

def valid (s : State) : Bool := (0 < s.luaerr.length ∨ 0 < s.inf.length) ∧ s.project.isSome

def endntfy (s : State) : State := timer_stop .endind (dispatch .ends s)

def rcvtimeout (s : State) : State := linkClose (endntfy s)

/-- The text of a report. -/
def payload (s : State) (data : LuaString) : LuaString :=
  s.project.getD [] ++ lua "_" ++ s.corever ++ lua "," ++
    ((s.version.map fun v => v ++ lua ",").getD []) ++ s.imei ++ lua "," ++ data

def snd (s : State) : State :=
  let data := s.luaerr ++ s.inf
  if 0 < data.length then
    timer_start .rcvtimeout (timer_start .snd (linkSend (payload s data) s))
  else s

def reconn (s : State) : Option State :=
  if s.reconntimes < 3 then linkConnect { s with reconntimes := s.reconntimes + 1 }
  else some (endntfy s)

def notify (id : ℕ) (evt : Links.Evt) (val : LuaString) (s : State) : State :=
  if some id ≠ s.lid then s
  else
    match evt with
    | .connect =>
        if val = lua "CONNECT OK" then
          snd { timer_stop .reconn { s with linksta := true } with reconntimes := 0 }
        else timer_start .reconn s
    | .disconnect | .close => { s with linksta := false }
    | .state => if val = lua "CLOSED" then linkClose s else s
    | .send => s

/-- `string.upper` -/
def upper (str : LuaString) : LuaString := str.map fun b => if 97 ≤ b ∧ b ≤ 122 then b - 32 else b

/-- `recv`, for `OK`. -/
def recvOk (s : State) : State :=
  let s := linkClose (timer_stop .snd s)
  let s := { writerr false (some []) { s with inf := [] } with luaerr := [], luaerrinfo := [] }
  timer_stop .rcvtimeout (endntfy s)

def init (s : State) : Option State :=
  let s := getlasterr (initerr s)
  if valid s then
    (if s.linksta then some (snd s) else linkConnect (linkOpen s)).map fun s =>
      timer_start .endind (dispatch .begins s)
  else some s

/-- `rtos.restart`: all but the files is lost. -/
def reboot (s : State) : State :=
  { boot s.project s.version s.corever with
    dbgfile := s.dbgfile
    luaerrinfo := s.luaerrinfo
    calls := s.calls
    texts := s.texts
    acked := s.acked }

def recorded (v : Option LuaString) (s : State) : State := { s with texts := s.texts ++ v.toList }

def restart (r : LuaString) (s : State) : State :=
  let v := lua "RST:" ++ r ++ lua ";"
  reboot (recorded (some v) (writerr true (some v) s))

def saverr (v : Option LuaString) (s : State) : Option State :=
  init (recorded v (writerr true v s))

def setup (prot addr port : LuaString) (s : State) : Option State :=
  init { s with server := some (prot, addr, port) }

/-! ## Acknowledgements -/

/-- The texts that have been recorded and not acknowledged. -/
def unacked (s : State) : LuaString := (s.texts.drop s.acked).flatten

/-- Those of them that had been recorded when a report was sent. -/
def covered (r : Report) (s : State) : LuaString := ((s.texts.take r.texts).drop s.acked).flatten

/-- An answer to report `r` acknowledges the texts recorded before, if the report has them. -/
def acknowledge (r : Report) (s : State) : State :=
  if last900 (covered r s) <:+: r.data then { s with acked := max s.acked r.texts } else s

/-! ## Runs -/

inductive Act
  | setup (prot addr port : LuaString)
  | saverr (v : Option LuaString)
  | restart (r : LuaString)
  /-- The device restarts for another reason, a Lua error for example. -/
  | reboot (luaerrinfo : LuaString)
  /-- `sys.lua` has read its own file of errors. -/
  | liberr (text : LuaString)
  | imei (v : LuaString)
  /-- An event of `link.lua`, or a call that another module makes. -/
  | link (a : Links.Act Client)
  /-- Data come over link `id`; `OK` is the answer to the `k`-th report. -/
  | recv (id : ℕ) (data : LuaString) (k : ℕ)
  | expire (k : Timer)

/-- After a step of `link.lua`. -/
def deliver (a : Links.Act Client) (l : Links.State Client) (s : State) : State :=
  match Links.notified .dbg s.link a l with
  | some n => notify n.id n.evt n.val { s with link := l }
  | none => { s with link := l }

/-- A timer has expired; `none` is the end of the program by a Lua error. -/
def fire (k : Timer) (s : State) : Option State :=
  match k with
  | .snd => some (snd s)
  | .rcvtimeout => some (rcvtimeout s)
  | .reconn => reconn s
  | .endind => some (dispatch .ends s)

def step (s : State) : Act → Option State
  | .setup prot addr port => setup prot addr port s
  | .saverr v => saverr v s
  | .restart r => some (restart r s)
  | .reboot luaerrinfo => some (reboot { s with luaerrinfo := luaerrinfo })
  | .liberr text => some { s with extliberr := text }
  | .imei v => some { s with imei := v }
  | .link a =>
      if Links.foreign .dbg s.link a then (Links.step s.link a).map fun l => deliver a l s else none
  | .recv id data k =>
      if s.link.frame.isNone ∧ Links.owner id s.link = some .dbg then
        if upper data = lua "OK" then
          match s.reports[k]? with
          | some r => if r.id = id then some (recvOk (acknowledge r s)) else none
          | none => none
        else some s
      else none
  | .expire k =>
      if s.link.frame.isNone ∧ s.timers k then fire k (timer_stop k s) else none

/-- After the files have been read. -/
theorem init_eq (s : State) : init s =
    if valid (getlasterr (initerr s)) then
      (if s.linksta then some (snd (getlasterr (initerr s)))
        else linkConnect (linkOpen (getlasterr (initerr s)))).map fun s =>
          timer_start .endind (dispatch .begins s)
    else some (getlasterr (initerr s)) := rfl

end LuatAir200.Dbg
