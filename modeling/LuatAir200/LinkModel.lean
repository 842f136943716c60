import Mathlib.Logic.Function.Basic
import LuatAir200.Fifo
import LuatAir200.LuaString
import LuatAir200.Machine

/-!
# The link table

`link.lua` over the command queue of `ril.lua`. One action is a call of the
module's interface, an event that reaches it, or the return of the callback that
is being run; a callback may make any calls before it returns. The AT commands
are numbered in the order of the requests. `ν` stands for the notify functions.
-/
namespace LuatAir200.Links
open Lua Machine

variable {ν : Type}

inductive LinkState
  | initial | connecting | connected | disconnecting | closing | closed
  /-- Whatever `sendcnf` stores after a failed send. -/
  | result (r : LuaString)
  deriving DecidableEq, Repr

def LinkState.text : LinkState → LuaString
  | .initial => lua "INITIAL"
  | .connecting => lua "CONNECTING"
  | .connected => lua "CONNECTED"
  | .disconnecting => lua "DISCONNECTING"
  | .closing => lua "CLOSING"
  | .closed => lua "CLOSED"
  | .result r => r

/-- The actions that `validaction` is asked about. -/
inductive Action
  | connect | disconnect | close
  deriving DecidableEq, Repr

def Action.text : Action → LuaString
  | .connect => lua "CONNECT"
  | .disconnect => lua "DISCONNECT"
  | .close => lua "CLOSE"

/-- The arguments of `AT+CIPSTART=<id>,"<prot>","<addr>",<port>`. -/
structure Connect where
  id : ℕ
  prot : LuaString
  addr : LuaString
  port : LuaString
  deriving DecidableEq, Repr

structure Link (ν : Type) where
  notify : ν
  tag : Bool
  state : LinkState
  pending : Option Connect

inductive AtCmd
  | cipstart (c : Connect)
  | cipsend (id : ℕ) (data : LuaString)
  | cipclose (id : ℕ)
  | cipshut
  | cstt (apn username password : LuaString)
  | ciicr
  | cipstatus
  | cifsr
  | cgatt
  | other (cmd : LuaString)
  deriving DecidableEq, Repr

/-- The link id in an AT command. -/
def AtCmd.id? : AtCmd → Option ℕ
  | .cipstart c => some c.id
  | .cipsend id _ => some id
  | .cipclose id => some id
  | .cipshut | .cstt _ _ _ | .ciicr | .cipstatus | .cifsr | .cgatt | .other _ => none

/-- `getcmd` drops `AT+CIPSEND` with an empty argument. -/
def AtCmd.wellFormed : AtCmd → Bool
  | .cipsend _ data => !data.isEmpty
  | _ => true

/-- A request with its number. -/
structure Cmd where
  no : ℕ
  cmd : AtCmd
  deriving DecidableEq, Repr

/-- The events that a notify function is told. -/
inductive Evt
  | connect | send | disconnect | close | state
  deriving DecidableEq, Repr

structure Notice (ν : Type) where
  notify : ν
  id : ℕ
  evt : Evt
  val : LuaString

/-- What is left of the event after the notify function has returned. -/
inductive Rest
  | done
  | stopconnectingtimer (id : ℕ)
  | disconnected (id : ℕ)
  | shut (id : ℕ) (ids : List ℕ)
  deriving DecidableEq, Repr

/-- The internal messages that `link.lua` dispatches. -/
inductive Msg
  | statusind (id : ℕ) (state : LuaString)
  | closecnf (id : ℕ)
  | userSocketConnect (active : Bool)
  | ipStatusInd (usable : Bool)
  | ipShutingInd (shuting : Bool)
  | netGprsReady (ready : Bool)
  deriving DecidableEq, Repr

/-- The link id in a message. -/
def Msg.id? : Msg → Option ℕ
  | .statusind id _ => some id
  | .closecnf id => some id
  | .userSocketConnect _ | .ipStatusInd _ | .ipShutingInd _ | .netGprsReady _ => none

inductive Timer
  | setupIP | cipstatus | querycgatt | checkciicr
  | connecting (id : ℕ)
  deriving DecidableEq, Repr

structure State (ν : Type) where
  linklist : ℕ → Option (Link ν)
  /-- The ids whose URC `link.lua` has registered. -/
  urcs : ℕ → Bool
  ipstatus : LuaString
  shuting : Bool
  cgatt : LuaString
  apnname : LuaString
  username : LuaString
  password : LuaString
  apnflag : Bool
  connectnoretrestart : Bool
  connectnoretinterval : ℕ
  checkciicrtm : Option ℕ
  flymode : Bool
  updating : Bool
  dbging : Bool
  ntping : Bool
  shutpending : Bool
  ipstatusind : Bool
  inited : Bool
  /-- `sim.getstatus()` and `cc.anycallexist()`. -/
  simready : Bool
  callexist : Bool
  /-- The command queue of `ril.lua`, and all requests made so far. -/
  ril : Fifo Cmd
  requests : List AtCmd
  qmsg : List Msg
  timers : Timer → Option ℕ
  /-- The callback that is being run, with the rest of its event. -/
  frame : Option (Notice ν × Rest)
  log : List (Notice ν)

def MAXLINKS : ℕ := 7

/-- The ids that a loop from 0 to `MAXLINKS` visits. -/
def ids : List ℕ := List.range (MAXLINKS + 1)

/-- After the module has been loaded; the last line of `link.lua` sets `checkciicrtm`. -/
def boot : State ν where
  linklist _ := none
  urcs _ := false
  ipstatus := lua "IP INITIAL"
  shuting := false
  cgatt := []
  apnname := lua "CMNET"
  username := []
  password := []
  apnflag := true
  connectnoretrestart := false
  connectnoretinterval := 0
  checkciicrtm := some 120000
  flymode := false
  updating := false
  dbging := false
  ntping := false
  shutpending := false
  ipstatusind := false
  inited := false
  simready := false
  callexist := false
  ril := Fifo.empty
  requests := []
  qmsg := []
  timers _ := none
  frame := none
  log := []

/-! ## Primitive updates -/

/-- `ril.request`. -/
def req (c : AtCmd) (s : State ν) : State ν :=
  { s with ril := s.ril.push ⟨s.requests.length, c⟩, requests := s.requests ++ [c] }

/-- `sys.dispatch`. -/
def dispatch (m : Msg) (s : State ν) : State ν := { s with qmsg := s.qmsg ++ [m] }

def timer_start (k : Timer) (ms : ℕ) (s : State ν) : State ν :=
  { s with timers := Function.update s.timers k (some ms) }

def timer_stop (k : Timer) (s : State ν) : State ν :=
  { s with timers := Function.update s.timers k none }

def setLink (id : ℕ) (l : Option (Link ν)) (s : State ν) : State ν :=
  { s with linklist := Function.update s.linklist id l }

/-- Run the notify function of `l`; `rest` follows when it returns. -/
def notify (l : Link ν) (id : ℕ) (evt : Evt) (val : LuaString) (rest : Rest) (s : State ν) :
    State ν :=
  { s with frame := some (⟨l.notify, id, evt, val⟩, rest), log := s.log ++ [⟨l.notify, id, evt, val⟩] }

/-! ## The interface -/

def setapn (a b c : LuaString) (s : State ν) : State ν :=
  { s with apnname := a, username := b, password := c, apnflag := false }

def stopconnectingtimer (id : ℕ) (s : State ν) : State ν := timer_stop (.connecting id) s

def startconnectingtimer (id : ℕ) (s : State ν) : State ν :=
  if s.connectnoretrestart ∧ 0 < s.connectnoretinterval then
    timer_start (.connecting id) s.connectnoretinterval s
  else s

def setupIP (s : State ν) : State ν :=
  if s.ipstatus ≠ lua "IP INITIAL" ∨ s.flymode then s
  else if s.cgatt ≠ lua "1" then s
  else
    { req .cipstatus (req .ciicr (req (.cstt s.apnname s.username s.password) s)) with
      ipstatus := lua "IP START" }

def emptylink (s : State ν) : Option ℕ := ids.find? fun i => (s.linklist i).isNone

def validaction (s : State ν) (id : ℕ) (action : Action) : Bool :=
  match s.linklist id with
  | none => false
  | some l =>
      if action.text ++ lua "ING" = l.state.text then false
      else if lua "ING" <:+ l.state.text ∧ action = .connect then false
      else true

/-- The IP context is ready for connections. -/
def ipready (s : State ν) : Bool :=
  s.ipstatus = lua "IP STATUS" ∨ s.ipstatus = lua "IP PROCESSING"

def openid (id : ℕ) (n : ν) (tag : Bool) (s : State ν) : State ν × Bool :=
  if MAXLINKS < id ∨ s.linklist id ≠ none then (s, false)
  else
    let s := { setLink id (some ⟨n, tag, .initial, none⟩) s with
      urcs := Function.update s.urcs id true }
    (if ipready s then s else setupIP s, true)

/-- `open`. -/
def openlink (n : ν) (tag : Bool) (s : State ν) : State ν × Option ℕ :=
  match emptylink s with
  | none => (s, none)
  | some id => ((openid id n tag s).1, some id)

def close (id : ℕ) (s : State ν) : State ν × Bool :=
  match validaction s id .close, s.linklist id with
  | true, some l => (req (.cipclose id) (setLink id (some { l with state := .closing }) s), true)
  | _, _ => (s, false)

def connect (id : ℕ) (prot addr port : LuaString) (s : State ν) : State ν × Bool :=
  match validaction s id .connect, s.linklist id with
  | true, some l =>
      if l.state = .connected then (s, false)
      else
        let l := { l with state := .connecting }
        let s := setLink id (some l) s
        if s.callexist then (dispatch (.statusind id (lua "CONNECT FAIL")) s, true)
        else
          let connstr := ⟨id, prot, addr, port⟩
          if !ipready s ∨ s.shuting then
            (setLink id (some { l with pending := some connstr }) s, true)
          else (startconnectingtimer id (req (.cipstart connstr) s), true)
  | _, _ => (s, false)

/-- `none` is Lua's `nil`, which `disconnect` returns for a connection that never began. -/
def disconnect (id : ℕ) (s : State ν) : State ν × Option Bool :=
  match validaction s id .disconnect, s.linklist id with
  | true, some l =>
      if l.pending ≠ none ∧ !ipready s ∧ l.state = .connecting then
        (dispatch (.closecnf id)
          (setLink id (some { l with pending := none, state := .disconnecting }) s), none)
      else
        (req (.cipclose id)
          (setLink id (some { l with pending := none, state := .disconnecting }) s), some true)
  | _, _ => (s, some false)

def send (id : ℕ) (data : LuaString) (s : State ν) : State ν × Bool :=
  match s.linklist id with
  | none => (s, false)
  | some l =>
      if l.state ≠ .connected then (s, false)
      else if s.callexist then (s, false)
      else (req (.cipsend id data) s, true)

def getstate (id : ℕ) (s : State ν) : LuaString :=
  ((s.linklist id).map fun l => l.state.text).getD (lua "NIL LINK")

def shut (s : State ν) : State ν :=
  if s.updating ∨ s.dbging ∨ s.ntping then { s with shutpending := true }
  else
    let s := { req .cipshut s with shuting := true, shutpending := false }
    if s.ipstatusind then dispatch (.ipShutingInd true) s else s

def querycgatt (s : State ν) : State ν := if s.flymode then s else req .cgatt s

/-! ## Events -/

def usersckisactive (s : State ν) : Bool :=
  ids.any fun i => match s.linklist i with
    | some l => !l.tag && l.state == .connected
    | none => false

def usersckntfy (l : Link ν) (s : State ν) : State ν :=
  if l.tag then s else dispatch (.userSocketConnect (usersckisactive s)) s

/-- The pattern matches a single byte, so none of the three results is ever found. -/
def sendcnf (id : ℕ) (result : LuaString) (s : State ν) : Option (State ν) :=
  let str := smatch1 result (lua "([%u ])")
  (s.linklist id).map fun l =>
    let l := if str = some (lua "TCP ERROR") ∨ str = some (lua "UDP ERROR") ∨
        str = some (lua "ERROR") then { l with state := .result result } else l
    notify l id .send result .done (setLink id (some l) s)

def closecnf (id : ℕ) (s : State ν) : State ν :=
  match s.linklist id with
  | none => s
  | some l =>
      if l.state = .disconnecting then
        notify l id .disconnect (lua "OK") (.disconnected id)
          (setLink id (some { l with state := .closed }) s)
      else if l.state = .closing then
        let s := usersckntfy l s
        let s := { setLink id none s with urcs := Function.update s.urcs id false }
        notify l id .close (lua "OK") (.stopconnectingtimer id) s
      else s

def statusind (id : ℕ) (state : LuaString) (s : State ν) : State ν :=
  match s.linklist id with
  | none => s
  | some l =>
      if state = lua "SEND FAIL" then
        if l.state = .connected then notify l id .send state .done s else s
      else
        let evt := if l.state = .connecting ∨ state = lua "CONNECT OK" then .connect else .state
        let l := { l with state := if state = lua "CONNECT OK" then .connected else .closed }
        notify l id evt state (.stopconnectingtimer id) (usersckntfy l (setLink id (some l) s))

/-- The loop of `connpend` over the ids. -/
def connpend : List ℕ → State ν → State ν
  | [], s => s
  | i :: is, s =>
      match s.linklist i with
      | none => connpend is s
      | some l =>
          match l.pending with
          | none => connpend is s
          | some c =>
              connpend is (setLink i (some { l with pending := none })
                (startconnectingtimer c.id (req (.cipstart c) s)))

/-- The statuses that `setIPStatus` handles even when nothing has changed. -/
def repeated (status : LuaString) : Bool :=
  status = lua "IP START" ∨ status = lua "IP CONFIG" ∨ status = lua "IP GPRSACT" ∨
    status = lua "PDP DEACT"

/-- What `setIPStatus` does once the new status is stored. -/
def ipstatusChanged (s : State ν) : State ν :=
  if s.ipstatus = lua "IP PROCESSING" then s
  else if s.ipstatus = lua "IP STATUS" then connpend ids s
  else if s.ipstatus = lua "IP INITIAL" then timer_start .setupIP 5000 s
  else if s.ipstatus = lua "IP CONFIG" ∨ s.ipstatus = lua "IP START" then
    timer_start .cipstatus 2000 s
  else if s.ipstatus = lua "IP GPRSACT" then req .cipstatus (req .cifsr s)
  else timer_stop .cipstatus (shut s)

def setIPStatus (status : LuaString) (s : State ν) : State ν :=
  let changed := s.ipstatus ≠ status
  let s := if s.ipstatusind ∧ changed then
      dispatch (.ipStatusInd (status = lua "IP GPRSACT" ∨ status = lua "IP PROCESSING" ∨
        status = lua "IP STATUS")) s
    else s
  if changed ∨ repeated status then
    let s := if status = lua "IP GPRSACT" ∧ s.checkciicrtm.isSome then timer_stop .checkciicr s
      else s
    ipstatusChanged { s with ipstatus := status }
  else s

def stopcheckciicr (s : State ν) : State ν :=
  if s.checkciicrtm.isSome then timer_stop .checkciicr s else s

/-- The loop of `shutcnf` over the ids; each notify function it calls suspends it. -/
def shutLoop : List ℕ → State ν → State ν
  | [], s => stopcheckciicr s
  | i :: is, s =>
      match s.linklist i with
      | none => shutLoop is s
      | some l =>
          if l.state = .connecting ∧ l.pending ≠ none ∨ l.state = .initial then
            shutLoop is (stopconnectingtimer i s)
          else
            notify l i .state (lua "SHUTED") (.shut i is)
              (setLink i (some { l with state := .closed }) s)

def shutcnf (result : LuaString) (s : State ν) : State ν :=
  let s := { s with shuting := false }
  let s := if s.ipstatusind then dispatch (.ipShutingInd false) s else s
  if result = lua "SHUT OK" ∨ !s.simready then shutLoop ids (setIPStatus (lua "IP INITIAL") s)
  else stopcheckciicr (timer_start .cipstatus 10000 s)

def getresult (str : LuaString) : Option LuaString :=
  if str = lua "ERROR" then some str else smatch1 str (lua "%d, *([%u :%d]+)")

def cgattrsp (intermediate : Option LuaString) (s : State ν) : State ν :=
  if intermediate = some (lua "+CGATT: 1") then
    let s := dispatch (.netGprsReady true) { s with cgatt := lua "1" }
    if ids.any fun i => (s.linklist i).isSome then
      if s.ipstatus = lua "IP INITIAL" then setupIP s else req .cipstatus s
    else s
  else if intermediate = some (lua "+CGATT: 0") then
    let s := if s.cgatt ≠ lua "0" then dispatch (.netGprsReady false) { s with cgatt := lua "0" }
      else s
    timer_start .querycgatt 2000 s
  else s

/-- The response handlers; `none` is the end of the program by a Lua error. -/
def rsp (cmd : AtCmd) (success : Bool) (response : LuaString) (intermediate : Option LuaString)
    (s : State ν) : Option (State ν) :=
  match cmd with
  | .cipsend id _ =>
      let deact := response = lua "+PDP: DEACT"
      let s := if deact then req .cipstatus s else s
      let response := if deact then lua "ERROR" else response
      if (smatch response (lua "DATA ACCEPT")).isSome then sendcnf id (lua "SEND OK") s
      else (getresult response).bind fun r => sendcnf id r s
  | .cipclose id => some (closecnf id s)
  | .cipshut => some (shutcnf response s)
  | .cipstart c => some (if response = lua "ERROR" then statusind c.id (lua "ERROR") s else s)
  | .ciicr =>
      some (if success then
          match s.checkciicrtm with
          | some tm => if (s.timers .checkciicr).isNone then timer_start .checkciicr tm s else s
          | none => s
        else timer_stop .cipstatus (shut s))
  | .cgatt => some (cgattrsp intermediate s)
  | _ => some s

/-- The handler of the URCs that start with `pfx`. A received block is not followed here. -/
def urc (data pfx : LuaString) (s : State ν) : State ν :=
  if pfx = lua "STATE" then setIPStatus (data.drop 7) s
  else if pfx = lua "C" then s
  else if pfx = lua "+PDP" then timer_stop .cipstatus (shut s)
  else if pfx = lua "+RECEIVE" then s
  else
    match smatch2 data (lua "(%d), *([%u :%d]+)") with
    | some (lid, lstate) => statusind (tonumber lid) lstate s
    | none => s

/-- Has `link.lua` registered its handler for URCs that start with `pfx`? -/
def registered (s : State ν) (pfx : LuaString) : Bool :=
  pfx = lua "STATE" ∨ pfx = lua "C" ∨ pfx = lua "+PDP" ∨ pfx = lua "+RECEIVE" ∨
    ids.any fun i => pfx = lua (toString i) && s.urcs i

/-- `asyncLocalEvent` for the two functions that are passed to it. -/
def msg (m : Msg) (s : State ν) : State ν :=
  match m with
  | .statusind id state => statusind id state s
  | .closecnf id => closecnf id s
  | _ => s

/-- A timer has expired; `none` is a restart of the software. -/
def expire (k : Timer) (s : State ν) : Option (State ν) :=
  match k with
  | .setupIP => some (setupIP s)
  | .cipstatus => some (req .cipstatus s)
  | .querycgatt => some (querycgatt s)
  | .checkciicr => none
  | .connecting _ => if s.connectnoretrestart then none else some s

/-- The rest of an event after the callback. -/
def resume (r : Rest) (s : State ν) : State ν :=
  match r with
  | .done => s
  | .stopconnectingtimer id => stopconnectingtimer id s
  | .disconnected id =>
      match s.linklist id with
      | some l => stopconnectingtimer id (usersckntfy l s)
      | none => s
  | .shut i is =>
      match s.linklist i with
      | some l => shutLoop is (stopconnectingtimer i (usersckntfy l s))
      | none => s

/-! ## Messages of other modules -/

def apntable (code : LuaString) : Option LuaString :=
  if code = lua "46000" ∨ code = lua "46002" ∨ code = lua "46004" ∨ code = lua "46007" then
    some (lua "CMNET")
  else if code = lua "46001" ∨ code = lua "46006" then some (lua "UNINET")
  else none

inductive Proc
  | imsiReady (code : LuaString)
  | flymode (on : Bool)
  | update (on : Bool)
  | dbg (on : Bool)
  | ntp (on : Bool)
  | registered
  deriving DecidableEq, Repr

def endOf (s : State ν) : State ν := if s.shutpending then shut s else s

def initial (s : State ν) : State ν :=
  if s.inited then s
  else
    req (.other (lua "AT+CIPQSEND=0")) (req (.other (lua "AT+CIPHEAD=1"))
      (req (.other (lua "AT+CIPMUX=1")) (req (.other (lua "AT+CIICRMODE=2"))
        { s with inited := true })))

/-- `proc` and `netmsg`. -/
def proc (p : Proc) (s : State ν) : State ν :=
  match p with
  | .imsiReady code =>
      if s.apnflag then setapn ((apntable code).getD (lua "CMNET")) [] [] s else s
  | .flymode on =>
      let s := { s with flymode := on }
      if on then timer_stop .cipstatus s else req .cgatt s
  | .update on => let s := { s with updating := on }; if on then s else endOf s
  | .dbg on => let s := { s with dbging := on }; if on then s else endOf s
  | .ntp on => let s := { s with ntping := on }; if on then s else endOf s
  | .registered => timer_start .querycgatt 2000 (initial s)

/-! ## Runs -/

inductive Act (ν : Type)
  | openid (id : ℕ) (n : ν) (tag : Bool)
  | openlink (n : ν) (tag : Bool)
  | close (id : ℕ)
  | connect (id : ℕ) (prot addr port : LuaString)
  | disconnect (id : ℕ)
  | send (id : ℕ) (data : LuaString)
  | shut
  | setapn (a b c : LuaString)
  | setconnectnoretrestart (flag : Bool) (interval : ℕ)
  | regipstatusind
  | checkciicr (tm : Option ℕ)
  | querycgatt
  /-- Another module makes a request. -/
  | request (cmd : LuaString)
  /-- `sim` and `cc` change their mind. -/
  | simstatus (ready : Bool)
  | calls (exist : Bool)
  /-- `ril` takes the next command from its queue. -/
  | sendat
  | respond (success : Bool) (response : LuaString) (intermediate : Option LuaString)
  | urc (data : LuaString)
  | msg
  | proc (p : Proc)
  | expire (k : Timer)
  | ret

/-- One action. Events wait until the callback of the event before has returned. -/
def step (s : State ν) : Act ν → Option (State ν)
  | .openid id n tag => some (openid id n tag s).1
  | .openlink n tag => some (openlink n tag s).1
  | .close id => some (close id s).1
  | .connect id prot addr port => some (connect id prot addr port s).1
  | .disconnect id => some (disconnect id s).1
  | .send id data => some (send id data s).1
  | .shut => some (shut s)
  | .setapn a b c => some (setapn a b c s)
  | .setconnectnoretrestart flag interval =>
      some { s with connectnoretrestart := flag, connectnoretinterval := interval }
  | .regipstatusind => some { s with ipstatusind := true }
  | .checkciicr tm => some { s with checkciicrtm := tm }
  | .querycgatt => some (querycgatt s)
  | .request cmd => some (req (.other cmd) s)
  | .simstatus ready => some { s with simready := ready }
  | .calls exist => some { s with callexist := exist }
  | .sendat => (s.ril.start fun c => c.cmd.wellFormed).map fun q => { s with ril := q }
  | .respond success response intermediate =>
      match s.frame, s.ril.current with
      | none, some c => rsp c.cmd success response intermediate { s with ril := s.ril.finish }
      | _, _ => none
  | .urc data =>
      if s.frame.isNone then
        some (match smatch1 data (lua "(%+*[%u%d& ]+)") with
          | some pfx => if registered s pfx then urc data pfx s else s
          | none => s)
      else none
  | .msg =>
      match s.frame, s.qmsg with
      | none, m :: ms => some (msg m { s with qmsg := ms })
      | _, _ => none
  | .proc p => if s.frame.isNone then some (proc p s) else none
  | .expire k =>
      if s.frame.isNone ∧ s.timers k ≠ none then expire k (timer_stop k s) else none
  | .ret => s.frame.map fun f => resume f.2 { s with frame := none }

end LuatAir200.Links
