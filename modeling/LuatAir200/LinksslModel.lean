import LuatAir200.LinkModel

/-!
# SSL links

`linkssl.lua`, a link table of its own over the IP context of `link.lua`. It learns
of that context only by messages: `ipstatus` and `shuting` are its copies. Its AT
commands wait in the same queue of `ril.lua`, as text, and their responses are told
apart by that text. A received block is not followed here.
-/
namespace LuatAir200.Linkssl
open Lua Machine
open Links (LinkState Action Evt Notice Msg ids MAXLINKS)

variable {ν : Type}

structure Link (ν : Type) where
  notify : ν
  tag : Bool
  /-- `sendcnf` stores `ERROR` here, which is no other state. -/
  state : LinkState
  pending : Option LuaString

/-- What is left of the event after the notify function has returned. -/
inductive Rest
  | done
  | disconnected (id : ℕ)
  | shut (id : ℕ) (ids : List ℕ)
  deriving DecidableEq, Repr

/-- The argument `crtconfig` of `connect`. -/
structure Crtconfig where
  verifysvrcerts : Option (List LuaString)
  clientcert : Option LuaString
  clientcertpswd : Option LuaString
  clientkey : Option LuaString
  deriving DecidableEq, Repr

structure State (ν : Type) where
  link : Links.State ν
  /-- `nil` and `false` are the same to every test of these two. -/
  ipstatus : Bool
  shuting : Bool
  linklist : ℕ → Option (Link ν)
  /-- The ids for which the URC `SSL&<id>` is registered. -/
  urcs : ℕ → Bool
  inited : Bool
  crtpending : List (LuaString × LuaString)
  /-- The requests with an argument, which `ril` writes out when the port asks for it. -/
  args : List (LuaString × LuaString)
  /-- The callback that is being run, with the rest of its event. -/
  frame : Option (Notice ν × Rest)
  log : List (Notice ν)

/-- After the module has been loaded; its last line calls `link.regipstatusind`. -/
def boot : State ν where
  link := { Links.boot with ipstatusind := true }
  ipstatus := false
  shuting := false
  linklist _ := none
  urcs _ := false
  inited := false
  crtpending := []
  args := []
  frame := none
  log := []

/-! ## Primitive updates -/

/-- `ril.request`. -/
def req (cmd : LuaString) (s : State ν) : State ν := { s with link := Links.req (.other cmd) s.link }

/-- `ril.request` with an argument. -/
def reqarg (item : LuaString × LuaString) (s : State ν) : State ν :=
  { req item.1 s with args := s.args ++ [item] }

def reqs : List LuaString → State ν → State ν
  | [], s => s
  | cmd :: cmds, s => reqs cmds (req cmd s)

theorem reqs_frame (cmds : List LuaString) (s : State ν) :
    (reqs cmds s).linklist = s.linklist ∧ (reqs cmds s).frame = s.frame ∧
      (reqs cmds s).log = s.log := by
  induction cmds generalizing s with
  | nil => exact ⟨rfl, rfl, rfl⟩
  | cons cmd cmds ih => exact ih (req cmd s)

/-- `sys.dispatch`. -/
def dispatch (m : Msg) (s : State ν) : State ν := { s with link := Links.dispatch m s.link }

def setupIP (s : State ν) : State ν := { s with link := Links.setupIP s.link }

def setLink (id : ℕ) (l : Option (Link ν)) (s : State ν) : State ν :=
  { s with linklist := Function.update s.linklist id l }

/-- Run the notify function of `l`; `rest` follows when it returns. -/
def notify (l : Link ν) (id : ℕ) (evt : Evt) (val : LuaString) (rest : Rest) (s : State ν) :
    State ν :=
  { s with frame := some (⟨l.notify, id, evt, val⟩, rest), log := s.log ++ [⟨l.notify, id, evt, val⟩] }

/-! ## AT commands -/

def createstr (id : ℕ) (address port : LuaString) (chksvrcrt : Bool) : LuaString :=
  lua "AT+SSLCREATE=" ++ lua (toString id) ++ lua ",\"" ++ (address ++ lua ":" ++ port) ++
    lua "\"," ++ lua (if chksvrcrt then "0" else "1")

/-- `AT+SSLCERT=1` for one file of a connection. -/
def certstr (id : ℕ) (kind file : LuaString) : LuaString :=
  lua "AT+SSLCERT=1," ++ lua (toString id) ++ lua ",\"" ++ kind ++ lua "\",\"" ++ file ++ lua "\""

def configcrtstr (id : ℕ) (chksvrcrt : Bool) (crtconfig : Option Crtconfig) : List LuaString :=
  match crtconfig with
  | none => []
  | some c =>
      (if chksvrcrt then (c.verifysvrcerts.getD []).map (certstr id (lua "cacrt")) else []) ++
        (c.clientcert.map fun file => certstr id (lua "localcrt") file ++ lua ",\"" ++
          c.clientcertpswd.getD [] ++ lua "\"").toList ++
        (c.clientkey.map (certstr id (lua "localprivatekey"))).toList

def connstr (id : ℕ) : LuaString := lua "AT+SSLCONNECT=" ++ lua (toString id)

/-- The commands of a connection request, in their order. -/
def connectcmds (id : ℕ) (address port : LuaString) (chksvrcrt : Bool)
    (crtconfig : Option Crtconfig) : List LuaString :=
  createstr id address port chksvrcrt :: (configcrtstr id chksvrcrt crtconfig ++ [connstr id])

/-- The commands in the form in which they are parked. -/
def joined (cmds : List LuaString) : LuaString := (cmds.map (· ++ lua "\r\n")).flatten

def destroystr (id : ℕ) : LuaString := lua "AT+SSLDESTROY=" ++ lua (toString id)

def sendstr (id : ℕ) (data : LuaString) : LuaString :=
  lua "AT+SSLSEND=" ++ lua (toString id) ++ lua "," ++ lua (toString data.length)

/-- The captures of the matches that `string.gmatch(s,p)` goes through; each match
takes at least one byte. -/
def gmatch (p : LuaString) : ℕ → LuaString → List LuaString
  | 0, _ => []
  | fuel + 1, s =>
      match sfind s p with
      | some (c :: _, rest) => c :: gmatch p fuel rest
      | _ => []

/-! ## The interface -/

/-- Certificates wait until the module is initialised. -/
def inputcrt (t f d : LuaString) (s : State ν) : State ν :=
  { s with crtpending := s.crtpending ++
      [(lua "AT+SSLCERT=0,\"" ++ t ++ lua "\",\"" ++ f ++ lua "\",1," ++ lua (toString d.length), d)] }

def init (s : State ν) : State ν :=
  if s.inited then s
  else
    { s.crtpending.foldl (fun s item => reqarg item s)
        (req (lua "AT+SSLINIT") { s with inited := true }) with crtpending := [] }

theorem init_frame (s : State ν) :
    (init s).linklist = s.linklist ∧ (init s).frame = s.frame ∧ (init s).log = s.log := by
  have hf (items : List (LuaString × LuaString)) (u : State ν) :
      (items.foldl (fun s item => reqarg item s) u).linklist = u.linklist ∧
        (items.foldl (fun s item => reqarg item s) u).frame = u.frame ∧
        (items.foldl (fun s item => reqarg item s) u).log = u.log := by
    induction items generalizing u with
    | nil => exact ⟨rfl, rfl, rfl⟩
    | cons item items ih => exact ih (reqarg item u)
  unfold init
  split
  · exact ⟨rfl, rfl, rfl⟩
  · exact hf s.crtpending _

def emptylink (s : State ν) : Option ℕ := ids.find? fun i => (s.linklist i).isNone

def validaction (s : State ν) (id : ℕ) (action : Action) : Bool :=
  match s.linklist id with
  | none => false
  | some l =>
      if action.text ++ lua "ING" = l.state.text then false
      else if lua "ING" <:+ l.state.text ∧ action = .connect then false
      else true

def openid (id : ℕ) (n : ν) (tag : Bool) (s : State ν) : State ν × Bool :=
  if MAXLINKS < id ∨ (s.linklist id).isSome then (s, false)
  else
    let s := { setLink id (some ⟨n, tag, .initial, none⟩) s with
      urcs := Function.update s.urcs id true }
    (if s.ipstatus then s else setupIP s, true)

/-- `open`. -/
def openlink (n : ν) (tag : Bool) (s : State ν) : State ν × Option ℕ :=
  match emptylink s with
  | none => (s, none)
  | some id => ((openid id n tag s).1, some id)

def close (id : ℕ) (s : State ν) : State ν × Bool :=
  match validaction s id .close, s.linklist id with
  | true, some l => (req (destroystr id) (setLink id (some { l with state := .closing }) s), true)
  | _, _ => (s, false)

def connect (id : ℕ) (address port : LuaString) (chksvrcrt : Bool) (crtconfig : Option Crtconfig)
    (s : State ν) : State ν × Bool :=
  match validaction s id .connect, s.linklist id with
  | true, some l =>
      if l.state = .connected then (s, false)
      else
        let l := { l with state := .connecting }
        let s := setLink id (some l) s
        let cmds := connectcmds id address port chksvrcrt crtconfig
        if !s.ipstatus ∨ s.shuting then
          (setLink id (some { l with pending := some (joined cmds) }) s, true)
        else (reqs cmds (init s), true)
  | _, _ => (s, false)

theorem connect_cases (id : ℕ) (address port : LuaString) (chksvrcrt : Bool)
    (crtconfig : Option Crtconfig) (s : State ν) :
    connect id address port chksvrcrt crtconfig s = (s, false) ∨
      ∃ l, validaction s id .connect = true ∧ s.linklist id = some l ∧ l.state ≠ .connected ∧
        (((s.ipstatus = false ∨ s.shuting = true) ∧
            connect id address port chksvrcrt crtconfig s =
              (setLink id (some { l with
                state := .connecting
                pending := some (joined (connectcmds id address port chksvrcrt crtconfig)) }) s,
              true)) ∨
          ((s.ipstatus = true ∧ s.shuting = false) ∧
            connect id address port chksvrcrt crtconfig s =
              (reqs (connectcmds id address port chksvrcrt crtconfig)
                (init (setLink id (some { l with state := .connecting }) s)), true))) := by
  unfold connect
  split
  · rename_i l hv hl
    split
    · exact .inl rfl
    rename_i hc
    refine .inr ⟨l, hv, hl, hc, ?_⟩
    by_cases hw : !s.ipstatus ∨ s.shuting
    · refine .inl ⟨by simpa using hw, ?_⟩
      refine (if_pos hw).trans ?_
      simp only [setLink, Function.update_idem]
    · have hw' : s.ipstatus = true ∧ s.shuting = false := by
        rw [not_or] at hw
        simpa using hw
      exact .inr ⟨hw', if_neg hw⟩
  · exact .inl rfl

/-- `none` is Lua's `nil`, which `disconnect` returns for a connection that never began. -/
def disconnect (id : ℕ) (s : State ν) : State ν × Option Bool :=
  match validaction s id .disconnect, s.linklist id with
  | true, some l =>
      if l.pending ≠ none ∧ !s.ipstatus ∧ l.state = .connecting then
        (setLink id (some { l with pending := none, state := .disconnecting }) s, none)
      else
        (req (destroystr id)
          (setLink id (some { l with pending := none, state := .disconnecting }) s), some true)
  | _, _ => (s, some false)

def send (id : ℕ) (data : LuaString) (s : State ν) : State ν × Bool :=
  match s.linklist id with
  | none => (s, false)
  | some l =>
      if l.state ≠ .connected then (s, false) else (reqarg (sendstr id data, data) s, true)

def getstate (id : ℕ) (s : State ν) : LuaString :=
  ((s.linklist id).map fun l => l.state.text).getD (lua "NIL LINK")

/-! ## Events -/

def usersckisactive (s : State ν) : Bool :=
  ids.any fun i => match s.linklist i with
    | some l => !l.tag && l.state == .connected
    | none => false

def usersckntfy (l : Link ν) (s : State ν) : State ν :=
  if l.tag then s else dispatch (.userSocketConnect (usersckisactive s)) s

theorem usersckntfy_frame (l : Link ν) (s : State ν) :
    (usersckntfy l s).linklist = s.linklist ∧ (usersckntfy l s).frame = s.frame ∧
      (usersckntfy l s).log = s.log := by
  unfold usersckntfy
  split <;> exact ⟨rfl, rfl, rfl⟩

/-- `none` is the end of the program by a Lua error, here the index of a link that is gone. -/
def sendcnf (id : ℕ) (result : LuaString) (s : State ν) : Option (State ν) :=
  (s.linklist id).map fun l =>
    let l := if (smatch result (lua "ERROR")).isSome then { l with state := .result (lua "ERROR") }
      else l
    notify l id .send result .done (setLink id (some l) s)

def closecnf (id : ℕ) (s : State ν) : State ν :=
  match s.linklist id with
  | none => s
  | some l =>
      if l.state = .disconnecting then
        notify l id .disconnect (lua "OK") (.disconnected id)
          (setLink id (some { l with state := .closed }) s)
      else if l.state = .closing then
        let s := usersckntfy l s
        let s := { setLink id none s with urcs := Function.update s.urcs id false }
        notify l id .close (lua "OK") .done s
      else s

def statusind (id : ℕ) (state : LuaString) (s : State ν) : State ν :=
  match s.linklist id with
  | none => s
  | some l =>
      let evt := if l.state = .connecting ∨ state = lua "CONNECT OK" then .connect else .state
      let l := { l with state := if state = lua "CONNECT OK" then .connected else .closed }
      notify l id evt state .done (usersckntfy l (setLink id (some l) s))

/-- The loop of `connpend` over the ids. -/
def connpend : List ℕ → State ν → State ν
  | [], s => s
  | i :: is, s =>
      match s.linklist i with
      | none => connpend is s
      | some l =>
          match l.pending with
          | none => connpend is s
          | some p =>
              connpend is (setLink i (some { l with pending := none })
                (reqs (gmatch (lua "(.-)\r\n") p.length p) (init s)))

def ipstatusind (b : Bool) (s : State ν) : State ν :=
  if s.ipstatus = b then s
  else if b then connpend ids { s with ipstatus := b }
  else { s with ipstatus := b }

/-- The loop of `shutcnf` over the ids; each notify function it calls suspends it. -/
def shutLoop : List ℕ → State ν → State ν
  | [], s => s
  | i :: is, s =>
      match s.linklist i with
      | none => shutLoop is s
      | some l =>
          if l.state = .connecting ∧ l.pending ≠ none ∨ l.state = .initial then shutLoop is s
          else
            notify l i .state (lua "SHUTED") (.shut i is)
              (setLink i (some { l with state := .closed }) s)

def shutcnf (result : LuaString) (s : State ν) : State ν :=
  let s := { s with shuting := false }
  if result = lua "SHUT OK" then shutLoop ids (ipstatusind false s) else s

def ipshutingind (b : Bool) (s : State ν) : State ν :=
  if b then { s with shuting := true } else shutcnf (lua "SHUT OK") s

/-- The handler of `NET_GPRS_READY`. -/
def gprsind (b : Bool) (s : State ν) : State ν :=
  if b ∧ (ids.any fun i => (s.linklist i).isSome) ∧ !s.ipstatus then setupIP s else s

def procer (m : Msg) (s : State ν) : State ν :=
  match m with
  | .ipStatusInd b => ipstatusind b s
  | .ipShutingInd b => ipshutingind b s
  | .netGprsReady b => gprsind b s
  | _ => s

def getresult (str : LuaString) : Option LuaString :=
  if str = lua "ERROR" then some str else smatch1 str (lua "%d, *([%u :%d]+)")

/-- The response handlers. A response without a result ends the program when it is one to
`AT+SSLSEND`. -/
def rsp (cmd response : LuaString) (s : State ν) : Option (State ν) :=
  let pfx := smatch1 cmd (lua "AT(%+%u+)")
  let id := (smatch1 cmd (lua "AT%+%u+=(%d)")).map tonumber
  if pfx = some (lua "+SSLCONNECT") then
    match id with
    | some id => some (if response = lua "ERROR" then statusind id (lua "ERROR") s else s)
    | none => some s
  else if pfx = some (lua "+SSLSEND") then
    match id, getresult response with
    | some id, some result => sendcnf id result s
    | _, _ => none
  else if pfx = some (lua "+SSLDESTROY") then
    match id with
    | some id => some (closecnf id s)
    | none => some s
  else some s

/-- Has `linkssl.lua` registered `rsp` for the head that `ril` reads off the command? -/
def regrsp (cmd : LuaString) : Bool :=
  let cmdhead := smatch1 cmd (lua "AT([%+%*]*%u+)")
  cmdhead = some (lua "+SSLCONNECT") ∨ cmdhead = some (lua "+SSLSEND") ∨
    cmdhead = some (lua "+SSLDESTROY")

def urc (data pfx : LuaString) (s : State ν) : State ν :=
  if pfx = lua "+SSL RECEIVE" then s
  else
    match smatch2 data (lua "(%d), *([%u :%d]+)") with
    | some (lid, lstate) => statusind (tonumber lid) lstate s
    | none => s

/-- Has `linkssl.lua` registered its handler for URCs that start with `pfx`? -/
def regurc (s : State ν) (pfx : LuaString) : Bool :=
  pfx = lua "+SSL RECEIVE" ∨ ids.any fun i => pfx = lua "SSL&" ++ lua (toString i) && s.urcs i

/-- The rest of an event after the callback. -/
def resume (r : Rest) (s : State ν) : State ν :=
  match r with
  | .done => s
  | .disconnected id =>
      match s.linklist id with
      | some l => usersckntfy l s
      | none => s
  | .shut i is =>
      match s.linklist i with
      | some l => shutLoop is (usersckntfy l s)
      | none => s

/-! ## Runs -/

inductive Act (ν : Type)
  /-- An action of `link.lua`, or an event that both modules may handle. -/
  | link (a : Links.Act ν)
  | openid (id : ℕ) (n : ν) (tag : Bool)
  | openlink (n : ν) (tag : Bool)
  | close (id : ℕ)
  | connect (id : ℕ) (address port : LuaString) (chksvrcrt : Bool) (crtconfig : Option Crtconfig)
  | disconnect (id : ℕ)
  | send (id : ℕ) (data : LuaString)
  | inputcrt (t f d : LuaString)
  | ret

/-- The actions that wait for a callback to return. -/
def isEvent : Links.Act ν → Bool
  | .respond _ _ _ | .urc _ | .msg | .proc _ | .expire _ => true
  | _ => false

/-- What `linkssl.lua` does in the event `a`, which came in the state `l` of `link.lua`. -/
def heard (l : Links.State ν) (a : Links.Act ν) (s : State ν) : Option (State ν) :=
  match a with
  | .respond _ response _ =>
      match l.ril.current with
      | some ⟨_, .other cmd⟩ => if regrsp cmd then rsp cmd response s else some s
      | _ => some s
  | .urc data =>
      some (match smatch1 data (lua "(%+*[%u%d& ]+)") with
        | some pfx => if regurc s pfx then urc data pfx s else s
        | none => s)
  | .msg =>
      some (match l.qmsg with
        | m :: _ => procer m s
        | [] => s)
  | _ => some s

def step (s : State ν) : Act ν → Option (State ν)
  | .link a =>
      if isEvent a ∧ s.frame.isSome then none
      else (Links.step s.link a).bind fun l => heard s.link a { s with link := l }
  | .openid id n tag => some (openid id n tag s).1
  | .openlink n tag => some (openlink n tag s).1
  | .close id => some (close id s).1
  | .connect id address port chksvrcrt crtconfig =>
      some (connect id address port chksvrcrt crtconfig s).1
  | .disconnect id => some (disconnect id s).1
  | .send id data => some (send id data s).1
  | .inputcrt t f d => some (inputcrt t f d s)
  | .ret => s.frame.map fun f => resume f.2 { s with frame := none }

end LuatAir200.Linkssl
