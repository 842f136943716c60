import LuatAir200.Fifo
import LuatAir200.Machine
import LuatAir200.SmsPdu
import LuatAir200.SparseTable

/-!
# Sending short messages

The side of `sms.lua` that sends: the queue `tsmsnd` of messages, the queue `tsend` of
transmissions, and the commands of other modules between them in `ril`. Messages are
numbered in the order in which `send` takes them. A callback may make any calls before it
returns. Each action carries the length operator that is in force while it runs.
-/
namespace LuatAir200.SmsSend
open Lua Sms Sparse Machine

def SMS_SEND_BUF_MAX_CNT : ℕ := 10
def SMS_SEND_INTERVAL : ℕ := 3000

/-- An item of `tsmsnd` with its number; `cb` tells whether it has a callback. -/
structure Item where
  num : LuaString
  data : LuaString
  cb : Bool
  no : ℕ
deriving DecidableEq

/-- An item of `tsend`. -/
structure Sending where
  sval : ℕ
  rval : ℕ
  flg : Bool
deriving DecidableEq

/-- A message that `_send` has transmitted, with the serial number of its parts. -/
structure Sent where
  item : Item
  isn : ℕ
deriving DecidableEq

inductive Cmd
  /-- `AT+CMGS=<len>` with its argument, for the message `no`. -/
  | cmgs (no len : ℕ) (pdu : LuaString)
  | other (cmd : LuaString)
deriving DecidableEq

inductive Msg
  | SMS_SEND_CNF (result : Bool)
  | SMS_READY
deriving DecidableEq

structure State where
  ready : Bool
  isn : ℕ
  tsend : List Sending
  tsmsnd : Table Item
  ril : Fifo Cmd
  requests : List Cmd
  qmsg : List Msg
  /-- The timer of `sndnxt`. -/
  sndtm : Option ℕ
  /-- Is a callback of `sendcnf` running? -/
  incb : Bool
  /-- The messages taken by `send` and by `_send`, the segments that have been answered, the
  messages that are finished, and the calls of callbacks. -/
  accepted : List Item
  sent : List Sent
  results : List (ℕ × Bool)
  finished : List (Item × Bool)
  cbs : List (ℕ × Bool)

def boot : State where
  ready := false
  isn := 255
  tsend := []
  tsmsnd := .empty
  ril := .empty
  requests := []
  qmsg := []
  sndtm := none
  incb := false
  accepted := []
  sent := []
  results := []
  finished := []
  cbs := []

def req (c : Cmd) (s : State) : State :=
  { s with ril := s.ril.push c, requests := s.requests ++ [c] }

def reqs (cs : List Cmd) (s : State) : State := cs.foldl (fun s c => req c s) s

def dispatch (m : Msg) (s : State) : State := { s with qmsg := s.qmsg ++ [m] }

/-- The number of parts of `data`. -/
def pducnt (data : LuaString) : ℕ :=
  if data.length / 2 > 140 then (data.length / 2 + 133) / 134 else 1

def numlen (num : LuaString) : LuaString :=
  if ssub num 1 1 = lua "+" then hex 2 (num.length - 1) else hex 2 num.length

/-- The part `i` of a message. -/
def pdu (x : Sent) (i : ℕ) : LuaString :=
  let num := x.item.num
  let data := x.item.data
  let datalen := data.length / 2
  let n := pducnt data
  if 1 < n then
    let len_mul := if i = n then hex 2 (datalen - (n - 1) * 134 + 6) else lua "8C"
    let udhi := lua "050003" ++ hex 2 x.isn ++ hex 2 n ++ hex 2 i
    lua "005110" ++ numlen num ++ numtobcdnum num ++ lua "000800" ++ len_mul ++ udhi ++
      ssub data ((i - 1) * 134 * 2 + 1) (i * 134 * 2)
  else
    lua "001110" ++ numlen num ++ numtobcdnum num ++ lua "000800" ++ hex 2 datalen ++ data

/-- The commands that transmit a message. -/
def segments (x : Sent) : List Cmd :=
  (List.range' 1 (pducnt x.item.data)).map fun i =>
    .cmgs x.item.no ((pdu x i).length / 2 - 1) (pdu x i)

/-- `_send`. -/
def transmit (x : Item) (s : State) : State :=
  if s.ready then
    let isn := if x.data.length / 2 > 140 then if s.isn = 255 then 0 else s.isn + 1 else s.isn
    reqs (segments ⟨x, isn⟩) { s with
      isn := isn
      tsend := s.tsend ++ [⟨pducnt x.data, 0, true⟩]
      sent := s.sent ++ [⟨x, isn⟩] }
  else s

def sndnxt (b : Border Item) (s : State) : Option State :=
  if 0 < b.getn s.tsmsnd then (s.tsmsnd.get 1).map fun x => transmit x s else some s

/-- The end of `sendcnf`, after the callback. -/
def spacing (b : Border Item) (s : State) : State :=
  if 0 < b.getn s.tsmsnd then { s with sndtm := some SMS_SEND_INTERVAL } else s

def sendcnf (b : Border Item) (result : Bool) (s : State) : Option State :=
  (s.tsmsnd.get 1).map fun x =>
    let s := { s with
      tsmsnd := removeFirst b s.tsmsnd, finished := s.finished ++ [(x, result)] }
    if x.cb then { s with incb := true, cbs := s.cbs ++ [(x.no, result)] } else spacing b s

/-- `encode` is `common.gb2312toucs2be`. -/
def send (encode : LuaString → LuaString) (b : Border Item) (num data : LuaString) (cb : Bool)
    (idx : Option ℕ) (s : State) : State :=
  if num = [] ∨ data = [] then s
  else if SMS_SEND_BUF_MAX_CNT ≤ b.getn s.tsmsnd then s
  else
    let x : Item := ⟨num, binstohexs (encode data), cb, s.accepted.length⟩
    let s := { s with
      tsmsnd := insert b (idx.getD (b.getn s.tsmsnd + 1)) x s.tsmsnd
      accepted := s.accepted ++ [x] }
    if b.getn s.tsmsnd = 1 then transmit x s else s

/-- `rsp` for the answer to a segment. -/
def rsp (no : ℕ) (success : Bool) (s : State) : Option State :=
  let s := { s with results := s.results ++ [(no, success)] }
  match s.tsend with
  | [] => none
  | e :: es =>
      if e.sval = 1 then some (dispatch (.SMS_SEND_CNF success) { s with tsend := es })
      else
        let e := { e with rval := e.rval + 1, flg := if success then e.flg else false }
        if e.sval = e.rval then some (dispatch (.SMS_SEND_CNF e.flg) { s with tsend := es })
        else some { s with tsend := e :: es }

def urc (data : LuaString) (s : State) : State :=
  if data = lua "SMS READY" then
    dispatch .SMS_READY (req (.other (lua "AT+CSCS=\"UCS2\"")) (req (.other (lua "AT+CMGF=0"))
      { s with ready := true }))
  else s

inductive Act
  | send (b : Border Item) (num data : LuaString) (cb : Bool) (idx : Option ℕ)
  | urc (data : LuaString)
  /-- Another module, or the other side of this one, makes a request. -/
  | request (cmd : LuaString)
  | sendat
  | respond (success : Bool)
  | msg (b : Border Item)
  | timer (b : Border Item)
  /-- The callback returns. -/
  | ret (b : Border Item)

variable (encode : LuaString → LuaString)

/-- One action. Events wait until the callback of the event before has returned. -/
def step (s : State) : Act → Option State
  | .send b num data cb idx => some (send encode b num data cb idx s)
  | .urc data => if s.incb then none else some (urc data s)
  | .request cmd => some (req (.other cmd) s)
  | .sendat => (s.ril.start fun _ => true).map fun q => { s with ril := q }
  | .respond success =>
      match s.incb, s.ril.current with
      | false, some (.cmgs no _ _) => rsp no success { s with ril := s.ril.finish }
      | false, some (.other _) => some { s with ril := s.ril.finish }
      | _, _ => none
  | .msg b =>
      match s.incb, s.qmsg with
      | false, .SMS_SEND_CNF result :: ms => sendcnf b result { s with qmsg := ms }
      | false, .SMS_READY :: ms => sndnxt b { s with qmsg := ms }
      | _, _ => none
  | .timer b =>
      if s.incb = false ∧ s.sndtm ≠ none then sndnxt b { s with sndtm := none } else none
  | .ret b => if s.incb then some (spacing b { s with incb := false }) else none

end LuatAir200.SmsSend
