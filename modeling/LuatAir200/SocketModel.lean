import LuatAir200.LinkModel

/-!
# Sockets

`socket.lua` over the link table. The notices that `link.lua` gives to `sckrsp` are
handled within the event that raises them, up to the first call of a socket's
`rsp`; the call returns by an action of its own, and any calls may come before
that. The accepted items of a socket are numbered. Other modules use links of their
own.
-/
namespace LuatAir200.Sockets
open Lua Machine

/-- Who opened a link. -/
inductive Client
  | sckrsp
  | other (k : ℕ)
  deriving DecidableEq, Repr

abbrev LinkState := Links.State Client

def SCK_MAX_CNT : ℕ := 5
def SVR_CHANGE : ℕ := 1

/-- An item of data with its number among the accepted ones of its socket. -/
structure Item where
  no : ℕ
  data : LuaString
  para : ℕ
  nonempty : data ≠ []
  deriving DecidableEq, Repr

structure Sock where
  id : Option ℕ
  addr : LuaString
  port : LuaString
  prot : LuaString
  conretry : ℕ
  sndretry : ℕ
  sndpending : List Item
  /-- The item being sent, when there is one. -/
  sndingitem : Option Item
  /-- The data of the item whose reply is awaited. -/
  waitingrspitem : Option LuaString
  concause : Option ℕ
  discause : Option ℕ

/-- A call of a socket's `rsp`. -/
inductive Call
  | send (idx : ℕ) (suc : Bool) (item : Option Item)
  | connect (idx : ℕ) (suc : Bool) (cause : Option ℕ)
  | disconnect (idx : ℕ) (cause : Option ℕ)
  | close (idx : ℕ)
  | state (idx : ℕ) (val : LuaString)
  deriving DecidableEq, Repr

/-- What is left of `sckrsp` when the `rsp` that it has called returns. -/
inductive Frame
  /-- The loop of `conack` over the waiting items, after a failure to connect. -/
  | conack (id idx : ℕ) (cause : Option ℕ)
  | connected (id idx : ℕ) (suc : Bool)
  | sndack (id idx : ℕ) (suc : Bool)
  /-- The loop of `sndack` over the waiting items. -/
  | flush (idx : ℕ)
  | closed (idx : ℕ)
  /-- The loop over the waiting items when the server has closed the connection. -/
  | lost (idx : ℕ) (val : LuaString)
  | done
  deriving DecidableEq, Repr

structure State where
  scks : ℕ → Option Sock
  link : LinkState
  frame : Option Frame
  calls : List Call
  /-- For each socket, the items for which `send` has returned true, and those that
  `link.send` has taken. -/
  accepted : ℕ → List Item
  handed : ℕ → List Item

def boot : State := ⟨fun _ => none, Links.boot, none, [], fun _ => [], fun _ => []⟩

/-! ## The link interface -/

/-- `link.getstate`, for an id that may be `nil`. -/
def lstate (id : Option ℕ) (s : State) : LuaString :=
  match id with
  | some id => Links.getstate id s.link
  | none => lua "NIL LINK"

def linkConnect (id : Option ℕ) (prot addr port : LuaString) (s : State) : State × Bool :=
  match id with
  | some id =>
      let r := Links.connect id prot addr port s.link
      ({ s with link := r.1 }, r.2)
  | none => (s, false)

def linkDisconnect (id : Option ℕ) (s : State) : State × Option Bool :=
  match id with
  | some id =>
      let r := Links.disconnect id s.link
      ({ s with link := r.1 }, r.2)
  | none => (s, some false)

def linkClose (id : Option ℕ) (s : State) : State × Bool :=
  match id with
  | some id =>
      let r := Links.close id s.link
      ({ s with link := r.1 }, r.2)
  | none => (s, false)

def linkSend (id : Option ℕ) (data : LuaString) (s : State) : State × Bool :=
  match id with
  | some id =>
      let r := Links.send id data s.link
      ({ s with link := r.1 }, r.2)
  | none => (s, false)

/-! ## Sending -/

/-- Change the entry of socket `idx`. -/
def upd (idx : ℕ) (f : Sock → Sock) (s : State) : State :=
  { s with scks := Function.update s.scks idx ((s.scks idx).map f) }

def call (c : Call) (f : Frame) (s : State) : State :=
  { s with calls := s.calls ++ [c], frame := some f }

/-- Hand `item` to `link.send`; when it is taken, it is the item being sent. -/
def hand (id : Option ℕ) (idx : ℕ) (item : Item) (s : State) : State × Bool :=
  match linkSend id item.data s with
  | (t, true) =>
      ({ upd idx (fun k => { k with sndingitem := some item }) t with
        handed := Function.update t.handed idx (t.handed idx ++ [item]) }, true)
  | (t, false) => (t, false)

/-- Take the first waiting item and hand it over; it waits on when it is refused. -/
def sndnxt (id : Option ℕ) (idx : ℕ) (s : State) : State :=
  match (s.scks idx).map Sock.sndpending with
  | some (item :: rest) =>
      match hand id idx item (upd idx (fun k => { k with sndpending := rest }) s) with
      | (t, true) => t
      | (t, false) => upd idx (fun k => { k with sndpending := item :: k.sndpending }) t
  | _ => s

def rsumscksnd (idx : ℕ) (s : State) : State :=
  match s.scks idx with
  | none => s
  | some k =>
      if lstate k.id s ≠ lua "CONNECTED" then (linkConnect k.id k.prot k.addr k.port s).1
      else if k.sndpending ≠ [] ∧ k.sndingitem = none ∧ k.waitingrspitem = none then
        sndnxt k.id idx s
      else s

/-! ## The handler of link events -/

def getidxbyid (id : ℕ) (s : State) : Option ℕ :=
  (List.range' 1 SCK_MAX_CNT).find? fun i => (s.scks i).map Sock.id = some (some id)

def conrstpara (idx : ℕ) (suc : Bool) (s : State) : State :=
  upd idx (fun k =>
    let k := { k with conretry := 0, concause := none, waitingrspitem := none }
    if suc then k else { k with sndpending := [], sndingitem := none }) s

def sndrstpara (idx : ℕ) (s : State) : State :=
  upd idx (fun k => { k with sndretry := 0, sndingitem := none }) s

def discrstpara (idx : ℕ) (s : State) : State := upd idx (fun k => { k with discause := none }) s

/-- Report the first waiting item as failed, or do `rest` when none is waiting. -/
def failFirst (idx : ℕ) (f : Frame) (rest : State → State) (s : State) : State :=
  match (s.scks idx).map Sock.sndpending with
  | some (item :: items) =>
      call (.send idx false (some item)) f (upd idx (fun k => { k with sndpending := items }) s)
  | _ => rest s

/-- `conack` from its loop on, after a failure. -/
def conackLoop (id idx : ℕ) (cause : Option ℕ) (s : State) : State :=
  failFirst idx (.conack id idx cause)
    (call (.connect idx false cause) (.connected id idx false)) s

def conack (id idx : ℕ) (cause : Option ℕ) (suc : Bool) (s : State) : State :=
  if suc then call (.connect idx true cause) (.connected id idx true) s
  else conackLoop id idx cause s

def sndack (id idx : ℕ) (suc : Bool) (item : Option Item) (s : State) : State :=
  call (.send idx suc item) (.sndack id idx suc) (sndrstpara idx s)

/-- The branch of `sckrsp` for `STATE`, `CLOSED`. -/
def lostLoop (idx : ℕ) (val : LuaString) (s : State) : State :=
  failFirst idx (.lost idx val) (call (.state idx val) .done) s

/-- `sckrsp`, up to the first call of `rsp`. -/
def sckrsp (id : ℕ) (evt : Links.Evt) (val : LuaString) (s : State) : State :=
  match getidxbyid id s with
  | none => s
  | some idx =>
      match s.scks idx with
      | none => s
      | some k =>
          match evt with
          | .connect =>
              if val ≠ lua "CONNECT OK" then
                let s := upd idx (fun k => { k with conretry := k.conretry + 1 }) s
                if 1 ≤ k.conretry + 1 then conack id idx k.concause false s
                else
                  match linkConnect (some id) k.prot k.addr k.port s with
                  | (t, true) => t
                  | (t, false) => conack id idx k.concause false t
              else conack id idx k.concause true s
          | .send =>
              if val ≠ lua "SEND OK" then
                let s := upd idx (fun k => { k with sndretry := k.sndretry + 1 }) s
                if 1 ≤ k.sndretry + 1 then sndack id idx false k.sndingitem s
                else
                  match linkSend (some id) ((k.sndingitem.map Item.data).getD []) s with
                  | (t, true) => t
                  | (t, false) => sndack id idx false k.sndingitem t
              else sndack id idx true k.sndingitem s
          | .disconnect =>
              let cause := k.discause
              let s := discrstpara idx s
              let s := if cause = some SVR_CHANGE ∨ k.sndpending ≠ [] then
                  upd idx (fun k => { k with concause := cause }) s
                else s
              call (.disconnect idx cause) .done s
          | .close => call (.close idx) (.closed idx) s
          | .state =>
              if val = lua "CLOSED" then lostLoop idx val s
              else call (.state idx val) .done s

/-- A callback has returned: what `sckrsp` does up to its next call of `rsp`, or to its end. -/
def resume (f : Frame) (s : State) : State :=
  match f with
  | .conack id idx cause => conackLoop id idx cause s
  | .connected id idx suc =>
      let s := conrstpara idx suc s
      match suc, s.scks idx with
      | true, some k => if k.sndpending ≠ [] ∧ k.sndingitem = none then sndnxt (some id) idx s else s
      | _, _ => s
  | .sndack id idx suc =>
      if suc then
        match s.scks idx with
        | some k =>
            if k.sndpending ≠ [] ∧ k.sndingitem = none ∧ k.waitingrspitem = none then
              sndnxt (some id) idx s
            else s
        | none => s
      else failFirst idx (.flush idx) (fun s => s) s
  | .flush idx => failFirst idx (.flush idx) (fun s => s) s
  | .closed idx => { s with scks := Function.update s.scks idx none }
  | .lost idx val => lostLoop idx val s
  | .done => s

/-- When an event has come to a notify function, `sckrsp` runs if it is the one. -/
def deliver (s : State) : State :=
  match s.link.frame with
  | some (n, _) => if n.notify = .sckrsp then sckrsp n.id n.evt n.val s else s
  | none => s

/-! ## The interface -/

def init (idx : ℕ) (id : Option ℕ) (cause : Option ℕ) (prot addr port : LuaString)
    (discause : Option ℕ) (s : State) : State :=
  { s with scks := Function.update s.scks idx (some {
      id := id, addr := addr, port := port, prot := prot
      conretry := 0, sndretry := 0
      sndpending := [], sndingitem := none, waitingrspitem := none
      concause := cause, discause := discause }) }

/-- `link.open(sckrsp,sckrcv)`. -/
def linkOpen (s : State) : State × Option ℕ :=
  let r := Links.openlink .sckrsp false s.link
  ({ s with link := r.1 }, r.2)

/-- `checkidx(0,idx)` and `checkidx(1,idx)`. -/
def checkidx1 (idx : ℕ) (s : State) : Bool := idx ≤ SCK_MAX_CNT ∧ (s.scks idx).isSome

def create (idx : ℕ) (prot addr port : LuaString) (cause : Option ℕ) (s : State) : State × Bool :=
  if ¬idx ≤ SCK_MAX_CNT ∨ (s.scks idx).isSome then (s, false)
  else
    let r := linkOpen s
    (init idx r.2 cause prot addr port none r.1, true)

def connect (idx : ℕ) (prot addr port : LuaString) (cause : Option ℕ) (s : State) : State × Bool :=
  if ¬idx ≤ SCK_MAX_CNT then (s, false)
  else
    match s.scks idx with
    | some k =>
        if lstate k.id s = lua "CONNECTED" then
          if k.addr = addr ∧ k.port = port ∧ k.prot = prot then (s, true)
          else
            let r := linkDisconnect k.id s
            let discause := if r.2 = some true then cause else none
            (init idx k.id cause prot addr port discause r.1, true)
        else
          match linkConnect k.id prot addr port s with
          | (t, true) => (init idx k.id cause prot addr port none t, true)
          | (t, false) => (t, false)
    | none =>
        let r := linkOpen s
        match linkConnect r.2 prot addr port r.1 with
        | (t, true) => (init idx r.2 cause prot addr port none t, true)
        | (t, false) => (t, false)

/-- `table.insert(sndpending,pos or tail,item)`; positions count from one. -/
def enqueue (idx : ℕ) (item : Item) (pos : Option ℕ) (s : State) : State :=
  { upd idx (fun k => { k with
      sndpending := k.sndpending.insertIdx ((pos.map (· - 1)).getD k.sndpending.length) item }) s with
    accepted := Function.update s.accepted idx (s.accepted idx ++ [item]) }

def send (idx : ℕ) (data : LuaString) (para : ℕ) (pos : Option ℕ) (ins : Bool) (s : State) :
    State × Bool :=
  match checkidx1 idx s, s.scks idx with
  | true, some k =>
      if hd : data = [] then (s, false)
      else
        let item : Item := ⟨(s.accepted idx).length, data, para, hd⟩
        if lstate k.id s ≠ lua "CONNECTED" then
          let r := linkConnect k.id k.prot k.addr k.port s
          if r.2 ∨ ins then (enqueue idx item pos r.1, true) else (r.1, false)
        else if k.sndingitem ≠ none ∨ k.waitingrspitem ≠ none then (enqueue idx item pos s, true)
        else
          let r := hand k.id idx item s
          ({ r.1 with
              accepted := Function.update r.1.accepted idx (r.1.accepted idx ++ [item]) }, true)
  | _, _ => (s, false)

def disconnect (idx : ℕ) (cause : Option ℕ) (s : State) : State × Option Bool :=
  match checkidx1 idx s, s.scks idx with
  | true, some k => linkDisconnect k.id (upd idx (fun k => { k with discause := cause }) s)
  | _, _ => (s, none)

def close (idx : ℕ) (s : State) : State × Bool :=
  match checkidx1 idx s, s.scks idx with
  | true, some k => linkClose k.id s
  | _, _ => (s, false)

def setwaitingrspitem (idx : ℕ) (item : Option LuaString) (s : State) : State :=
  match s.scks idx with
  | none => s
  | some _ =>
      let s := upd idx (fun k => { k with waitingrspitem := item }) s
      if item = none then rsumscksnd idx s else s

/-! ## Runs -/

inductive Act
  | create (idx : ℕ) (prot addr port : LuaString) (cause : Option ℕ)
  | connect (idx : ℕ) (prot addr port : LuaString) (cause : Option ℕ)
  | send (idx : ℕ) (data : LuaString) (para : ℕ) (pos : Option ℕ) (ins : Bool)
  | disconnect (idx : ℕ) (cause : Option ℕ)
  | close (idx : ℕ)
  | setwaitingrspitem (idx : ℕ) (item : Option LuaString)
  /-- An event of the link layer, or a call that another module makes. -/
  | link (a : Links.Act Client)
  | ret

/-- Other modules do not open links with `sckrsp`, and use their own links only. -/
def foreign (s : State) : Links.Act Client → Bool
  | .openid _ n _ => n ≠ .sckrsp
  | .openlink n _ => n ≠ .sckrsp
  | .close id => (s.link.linklist id).map Links.Link.notify ≠ some .sckrsp
  | .connect id _ _ _ => (s.link.linklist id).map Links.Link.notify ≠ some .sckrsp
  | .disconnect id => (s.link.linklist id).map Links.Link.notify ≠ some .sckrsp
  | .send id _ => (s.link.linklist id).map Links.Link.notify ≠ some .sckrsp
  | .ret => false
  | _ => true

/-- A position lies within the queue. -/
def posOk (s : State) (idx : ℕ) (pos : Option ℕ) : Bool :=
  match pos, s.scks idx with
  | some p, some k => 1 ≤ p ∧ p ≤ k.sndpending.length + 1
  | _, _ => true

def step (s : State) : Act → Option State
  | .create idx prot addr port cause => some (create idx prot addr port cause s).1
  | .connect idx prot addr port cause => some (connect idx prot addr port cause s).1
  | .send idx data para pos ins =>
      if posOk s idx pos then some (send idx data para pos ins s).1 else none
  | .disconnect idx cause => some (disconnect idx cause s).1
  | .close idx => some (close idx s).1
  | .setwaitingrspitem idx item => some (setwaitingrspitem idx item s)
  | .link a =>
      if foreign s a then
        (Links.step s.link a).map fun l =>
          if s.link.frame.isNone then deliver { s with link := l } else { s with link := l }
      else none
  | .ret =>
      let s' := match s.frame with
        | some f => resume f { s with frame := none }
        | none => s
      if s'.frame.isSome then some s'
      else (Links.step s'.link .ret).map fun l => deliver { s' with link := l }

end LuatAir200.Sockets
