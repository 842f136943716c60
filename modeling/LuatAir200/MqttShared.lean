import LuatAir200.MqttDupRuns
import LuatAir200.SocketModel
import LuatAir200.SysModel

/-!
# Plain and SSL clients side by side

`mqtt.lua` and `mqttssl.lua` differ in the sockets that they use and in the way they connect
again. Both keep their packets in the list of `mqttdup.lua` and register handlers for its two
messages. An entry and a message carry their module here, which nothing in the code reads. What
the clients do to the list is free but for what the code of `mqtt.lua` checks, and so are the
results of the sockets. The history has what happens to the packets.
-/
namespace LuatAir200.MqttShared
open Lua Keyed
open MqttDup (Entry Msg selects DUP_TIME DUP_CNT)

/-- The two modules. -/
inductive Mod
  | mqtt | mqttssl
deriving DecidableEq

def Mod.other : Mod → Mod
  | .mqtt => .mqttssl
  | .mqttssl => .mqtt

/-- A client is known by its module and the index of its socket. -/
abbrev Client := Mod × ℕ

/-- An entry of the list and a message with the modules they come from. -/
abbrev Held (β : Type) := Mod × Entry β
abbrev Sent (β : Type) := Mod × Msg β

/-- Why an entry leaves the list. -/
inductive Cause
  | connack
  /-- `SUBACK` or `PUBACK`. -/
  | ack
  /-- Its announcements are used up. -/
  | limit
  /-- The connection is lost, or the client is destroyed. -/
  | lost
  /-- `CONNECT` is sent. -/
  | conn
deriving DecidableEq

/-- What a client does to an entry: `c` is the client and `x` the entry. -/
inductive Event (β : Type)
  /-- `MQTT_DUP_IND` for a packet of `o`: the packet is sent again by the socket of `c`. -/
  | ind (c o : Client) (dat : LuaString)
  /-- `MQTT_DUP_FAIL` for a packet of `o`. -/
  | fail (c o : Client) (typ : LuaString)
  | rsm (c : Client) (x : Held β)
  | rmv (c : Client) (why : Cause) (x : Held β)
  /-- The callback that came with a packet of `o` is called. -/
  | ackcb (c o : Client) (cb : β) (cbtag : Option LuaString) (suc : Bool)
deriving DecidableEq

structure State (β : Type) where
  /-- The indexes of the sockets of the clients, in `tclients`. -/
  tclients : Mod → List ℕ
  tlist : List (Held β)
  /-- `sys.timer_is_active(timerfnc)`. -/
  active : Bool
  qmsg : List (Sent β)
  hist : List (Event β)

variable {β : Type}

def boot : State β := ⟨fun _ => [], [], false, [], []⟩

def client (x : Held β) : Client := (x.1, x.2.sckidx)

def record (v : Event β) (s : State β) : State β := { s with hist := s.hist ++ [v] }

/-! ## `mqttdup.lua` -/

def timerfnc (s : State β) : State β := { s with
  tlist := s.tlist.map fun x => (x.1, x.2.dec)
  qmsg := s.qmsg ++ (s.tlist.filter (·.2.tm = 1)).map fun x => (x.1, .dupInd x.2.sckidx x.2.dat) }

def timer (start : Bool) (s : State β) : State β :=
  if start then { s with active := true }
  else if s.tlist = [] then { s with active := false }
  else s

def ins (c : Client) (typ dat : LuaString) (seq : Option LuaString) (cb : Option β)
    (cbtag : Option LuaString) (s : State β) : State β :=
  timer true { s with
    tlist := s.tlist ++ [(c.1, ⟨c.2, typ, dat, seq, cb, cbtag, DUP_CNT, DUP_TIME⟩)] }

/-- The arguments select an entry by its socket index, whatever its module is. -/
def picks (c : Client) (typ dat seq : Option LuaString) (x : Held β) : Bool :=
  selects c.2 typ dat seq x.2

def rmv (c : Client) (why : Cause) (typ dat seq : Option LuaString) (s : State β) : State β :=
  let p := picks c typ dat seq
  timer false
    (match s.tlist.find? p with
      | some x => record (.rmv c why x) { s with tlist := s.tlist.eraseP p }
      | none => s)

/-- The list is emptied before the loop looks for the entries of the socket. -/
def rmvall (c : Client) (s : State β) : State β :=
  timer false { s with tlist := [], hist := s.hist ++ s.tlist.map (.rmv c .lost) }

def matching (c : Client) (dat : LuaString) (x : Held β) : Bool := c.2 = x.2.sckidx ∧ x.2.dat = dat

def recount (f : Entry β → Entry β) (x : Held β) : Held β := (x.1, f x.2)

/-- `rsm` up to the call of `rmv`, for an entry whose announcements are used up. -/
def giveup (c : Client) (dat : LuaString) (x : Held β) (s : State β) : State β :=
  let m : Msg β := .dupFail x.2.sckidx x.2.typ x.2.seq x.2.cb x.2.cbtag
  { record (.rsm c x) s with
    tlist := modify (matching c dat) (recount fun e => { e with cnt := e.cnt - 1 }) s.tlist
    qmsg := s.qmsg ++ [(x.1, m)] }

def rsm (c : Client) (dat : LuaString) (s : State β) : State β :=
  match s.tlist.find? (matching c dat) with
  | none => s
  | some x =>
      if x.2.cnt - 1 = 0 then rmv c .limit none (some dat) none (giveup c dat x s)
      else { record (.rsm c x) s with
        tlist := modify (matching c dat)
          (recount fun e => { e with cnt := e.cnt - 1, tm := DUP_TIME }) s.tlist }

def getyp (c : Client) (seq : LuaString) (s : State β) : Option (Held β) :=
  s.tlist.find? fun x => decide (some seq = x.2.seq ∧ c.2 = x.2.sckidx)

/-! ## The modules -/

/-- The call of a callback, when it is there. -/
def told (c o : Client) (cb : Option β) (cbtag : Option LuaString) (suc : Bool) (s : State β) :
    State β :=
  match cb with
  | some f => record (.ackcb c o f cbtag suc) s
  | none => s

/-- `suback` and `puback`. -/
def ack (c : Client) (seq : LuaString) (s : State β) : State β :=
  let typ := getyp c seq s
  let s := rmv c .ack none none (some seq) s
  match typ with
  | some x => told c (client x) x.2.cb x.2.cbtag true s
  | none => s

inductive Handler
  | mqttdupind | mqttdupfail
deriving DecidableEq

def MQTT_DUP_IND : Sys.Value Unit := .str (lua "MQTT_DUP_IND")
def MQTT_DUP_FAIL : Sys.Value Unit := .str (lua "MQTT_DUP_FAIL")

/-- The table that a module registers. -/
def procer (m : Mod) : Sys.App (Mod × Handler) Unit where
  ref := if m = .mqtt then 0 else 1
  procer := none
  items := []
  fields v :=
    if v = MQTT_DUP_IND then some (m, .mqttdupind)
    else if v = MQTT_DUP_FAIL then some (m, .mqttdupfail)
    else none

def msgid : Msg β → Sys.Value Unit
  | .dupInd _ _ => MQTT_DUP_IND
  | .dupFail _ _ _ _ _ => MQTT_DUP_FAIL

/-- The module that handles a message, when `loaded` have registered in this order. No handler
returns true, so it is the only one. -/
def handler (loaded : List Mod) (m : Msg β) : Option Mod :=
  match Sys.apploop (loaded.map procer) [some (msgid m)] loaded.length with
  | some (.call f _ _) => some f.1
  | _ => none

/-- `mqttdupind` and `mqttdupfail` of the module `h`; `ok` is the result of `snd`. -/
def handle (h : Mod) (ok : Bool) (x : Sent β) (s : State β) : State β :=
  match x.2 with
  | .dupInd sckidx dat =>
      let s := record (.ind (h, sckidx) (x.1, sckidx) dat) s
      if ok then s else rsm (h, sckidx) dat s
  | .dupFail sckidx typ _ cb cbtag =>
      told (h, sckidx) (x.1, sckidx) cb cbtag false (record (.fail (h, sckidx) (x.1, sckidx) typ) s)

/-! ## Runs -/

inductive Act (β : Type)
  | create (m : Mod)
  /-- `mqttconncb`, `mqttsubcb` and `mqttpubcb`. -/
  | put (c : Client) (typ dat : LuaString) (seq : Option LuaString) (cb : Option β)
      (cbtag : Option LuaString)
  /-- `mqttsnd` of `MQTTCONN`. -/
  | conn (c : Client)
  | connack (c : Client)
  | ack (c : Client) (seq : LuaString)
  /-- `STATE` and `DISCONNECT`. -/
  | lost (c : Client)
  /-- `CLOSE`. -/
  | closed (c : Client)
  /-- `mqttdupcb`. -/
  | resent (c : Client) (dat : LuaString)
  /-- The timer has expired. -/
  | tick
  /-- The next message is handled. -/
  | msg (ok : Bool)
deriving DecidableEq

def CONN : Option LuaString := some (lua "CONN")

/-- The clients that `tclients` has to have are those whose fields the code uses. -/
def step (loaded : List Mod) (s : State β) : Act β → Option (State β)
  | .create m =>
      if 2 ≤ (s.tclients m).length then none
      else
        let sckidx := Sockets.SCK_MAX_CNT - (s.tclients m).length
        some { s with tclients := Function.update s.tclients m (s.tclients m ++ [sckidx]) }
  | .put c typ dat seq cb cbtag => some (ins c typ dat seq cb cbtag s)
  | .conn c => if c.2 ∈ s.tclients c.1 then some (rmv c .conn CONN none none s) else none
  | .connack c => if c.2 ∈ s.tclients c.1 then some (rmv c .connack CONN none none s) else none
  | .ack c seq => if c.2 ∈ s.tclients c.1 then some (ack c seq s) else none
  | .lost c => if c.2 ∈ s.tclients c.1 then some (rmvall c s) else none
  | .closed c =>
      if c.2 ∈ s.tclients c.1 then some (rmvall c { s with
        tclients := Function.update s.tclients c.1 ((s.tclients c.1).erase c.2) })
      else none
  | .resent c dat => some (rsm c dat s)
  | .tick => if s.active then some (timerfnc s) else none
  | .msg ok =>
      match s.qmsg with
      | [] => none
      | x :: qmsg =>
          match handler loaded x.2 with
          | some h => some (handle h ok x { s with qmsg := qmsg })
          | none => some { s with qmsg := qmsg }

end LuatAir200.MqttShared
