import LuatAir200.CallbackSlots
import LuatAir200.LuaString
import LuatAir200.Machine

/-!
# `misc.lua`: serial number, IMEI and clock

The module keeps a copy of the serial number and of the IMEI, which only the reading commands
fill, and one callback of each kind. The values that the device stores are changed by the
writing commands.
-/
namespace LuatAir200.Misc
open Lua Machine CallbackSlots

structure Clock where
  year : ℕ
  month : ℕ
  day : ℕ
  hour : ℕ
  min : ℕ
  sec : ℕ
  deriving DecidableEq

inductive Cmd
  | atwmft
  | wisnread
  | cgsn
  | amfac (restart : Bool)
  | wisn (s : LuaString)
  | wimei (s : LuaString)
  | cclk (t : Clock)
  deriving DecidableEq

/-- A callback has a number, and the value that its call wants to store. -/
structure Callback where
  no : ℕ
  wanted : LuaString
  deriving DecidableEq

/-- What a callback is called with. -/
inductive Args
  | done (success : Bool)
  | clock (cmd : Cmd) (success : Bool) (response : LuaString) (intermediate : Option LuaString)
  deriving DecidableEq

structure Req where
  cmd : Cmd
  own : Option Callback
  deriving DecidableEq

/-- What the device stores. -/
structure Store where
  sn : LuaString
  imei : LuaString
  deriving DecidableEq

structure State where
  sn : Option LuaString
  snrdy : Bool
  imei : Option LuaString
  imeirdy : Bool
  calib : Option Bool
  setclkcb : Option Callback
  wimeicb : Option Callback
  wsncb : Option Callback
  ril : List Req
  store : Store
  passed : ℕ
  /-- For each command answered the callback of its call and what its answer says. -/
  answered : List (Option Callback × Args)
  called : List (Callback × Args)
  /-- The reports that a value is stored: the value, and what is stored at that moment. -/
  reports : List (LuaString × LuaString)
  deriving DecidableEq

/-- After the module has been loaded: calibration, serial number and IMEI are asked for. -/
def init (store : Store) : State where
  sn := none
  snrdy := false
  imei := none
  imeirdy := false
  calib := none
  setclkcb := none
  wimeicb := none
  wsncb := none
  ril := [⟨.atwmft, none⟩, ⟨.wisnread, none⟩, ⟨.cgsn, none⟩]
  store := store
  passed := 0
  answered := []
  called := []
  reports := []

/-! ## The interface -/

def req (cmd : Cmd) (own : Option Callback) (s : State) : State :=
  { s with ril := s.ril ++ [⟨cmd, own⟩] }

def newcb (cb : Bool) (wanted : LuaString) (s : State) : Option Callback :=
  if cb then some ⟨s.passed, wanted⟩ else none

def pass (cb : Bool) (s : State) : State := if cb then { s with passed := s.passed + 1 } else s

/-- `cb(true)`, for a value that is stored as it seems. -/
def report (cb : Bool) (wanted stored : LuaString) (s : State) : State :=
  if cb then { s with reports := s.reports ++ [(wanted, stored)] } else s

def setsn (v : LuaString) (cb : Bool) (s : State) : State :=
  if s.sn = some v then pass cb (report cb v s.store.sn s)
  else
    let own := newcb cb v s
    pass cb { req (.wisn v) own (req (.amfac !cb) none s) with wsncb := own }

def setimei (v : LuaString) (cb : Bool) (s : State) : State :=
  if s.imei = some v then pass cb (report cb v s.store.imei s)
  else
    let own := newcb cb v s
    pass cb { req (.wimei v) own (req (.amfac !cb) none s) with wimeicb := own }

def setclock (t : Clock) (cb : Bool) (s : State) : State :=
  if t.year > 2038 then s
  else
    let own := newcb cb [] s
    pass cb (req (.cclk t) own { s with setclkcb := own })

/-! ## The answers -/

/-- What the answer to a command says to the callback of its call. -/
def args (cmd : Cmd) (success : Bool) (response : LuaString) (intermediate : Option LuaString) : Args :=
  match cmd with
  | .cclk _ => .clock cmd success response intermediate
  | _ => .done success

def call (cb : Option Callback) (a : Args) (s : State) : State :=
  match cb with
  | some c => { s with called := s.called ++ [(c, a)] }
  | none => s

/-- A callback that is called with true reports that its value is stored. -/
def told (cb : Option Callback) (success : Bool) (stored : LuaString) (s : State) : State :=
  match cb with
  | some c => call cb (.done success) (report success c.wanted stored s)
  | none => s

def rsp (cmd : Cmd) (success : Bool) (response : LuaString) (intermediate : Option LuaString)
    (s : State) : State :=
  match cmd with
  | .atwmft => { s with calib := some (intermediate = some (lua "SUCC")) }
  | .wisnread => { s with sn := intermediate, snrdy := true }
  | .cgsn => { s with imei := intermediate, imeirdy := true }
  | .amfac _ => s
  | .wimei _ => told s.wimeicb success s.store.imei s
  | .wisn _ => told s.wsncb success s.store.sn s
  | .cclk _ => call s.setclkcb (.clock cmd success response intermediate) s

/-- The device carries the command out. -/
def Store.write (cmd : Cmd) (success : Bool) (store : Store) : Store :=
  match cmd with
  | .wisn v => if success then { store with sn := v } else store
  | .wimei v => if success then { store with imei := v } else store
  | _ => store

/-- A reading command is answered with what is stored. -/
def Store.read (cmd : Cmd) (success : Bool) (intermediate : Option LuaString) (store : Store) :
    Option LuaString :=
  match cmd with
  | .wisnread => if success then some store.sn else none
  | .cgsn => if success then some store.imei else none
  | _ => intermediate

structure Answer where
  success : Bool
  response : LuaString
  intermediate : Option LuaString
  deriving DecidableEq

/-- The answer to the first outstanding command. -/
def answer (a : Answer) (s : State) : State :=
  match s.ril with
  | [] => s
  | r :: ril =>
      let i := s.store.read r.cmd a.success a.intermediate
      rsp r.cmd a.success a.response i
        { s with
          ril := ril
          store := s.store.write r.cmd a.success
          answered := s.answered ++ [(r.own, args r.cmd a.success a.response i)] }

/-- The software restarts; what the device stores stays. -/
def restart (s : State) : State :=
  { init s.store with
    passed := s.passed, answered := s.answered, called := s.called, reports := s.reports }

/-! ## Runs -/

/-- Calls in a callback come after the call or the answer that has called it. -/
inductive Act
  | setsn (v : LuaString) (cb : Bool)
  | setimei (v : LuaString) (cb : Bool)
  | setclock (t : Clock) (cb : Bool)
  | answer (a : Answer)
  | restart
  deriving DecidableEq

def step (s : State) : Act → Option State
  | .setsn v cb => some (setsn v cb s)
  | .setimei v cb => some (setimei v cb s)
  | .setclock t cb => some (setclock t cb s)
  | .answer a => if s.ril = [] then none else some (answer a s)
  | .restart => some (restart s)

/-- The callbacks of calls that made a command were called for the answers to these, once for
each, and with what they say. -/
def Right (s : State) : Prop :=
  s.called = s.answered.filterMap fun p => p.1.map fun c => (c, p.2)

/-- Whenever a value was reported to be stored, it was. -/
def Honest (s : State) : Prop := ∀ r ∈ s.reports, r.1 = r.2

/-- And so it will be when the outstanding commands are answered. -/
def Good (s : State) : Prop :=
  ∀ as : List Answer, Right (as.foldl (fun s a => answer a s) s) ∧
    Honest (as.foldl (fun s a => answer a s) s)

end LuatAir200.Misc
