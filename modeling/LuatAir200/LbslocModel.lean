import LuatAir200.LuaString
import LuatAir200.Machine
import Mathlib.Data.List.Range
import Mathlib.Logic.Function.Basic

/-!
# Requests for the location of a cell

`lbsloc.lua` sends the cells around to a server that answers with a location. The requests of
the user are numbered; `calls` has the calls of their callbacks. A callback may ask for the
next location, so the source calls it in the middle of its own functions: `Code` is what the
user's code does there. What is sent to the server is left out.
-/
namespace LuatAir200.Lbsloc
open Lua Machine

def CMD_GET_TIMEOUT : ℕ := 2000
def CMD_GET_RETRY_TIMES : ℕ := 3

/-- The parameters of a callback; a location is what the server has sent. -/
inductive Result
  | location (s : LuaString)
  | pending
  | timeout
  | unknown
  | failed
deriving DecidableEq

/-- The first parameter. -/
def Result.code : Result → ℕ
  | .location _ => 0
  | .pending => 1
  | .timeout => 2
  | .unknown => 3
  | .failed => 4

inductive Call
  | open
  | connect (lid : Option ℕ)
  | send (lid : Option ℕ) (locstr : Bool)
  | close (lid : Option ℕ)
  | getmulticell
deriving DecidableEq

structure State where
  lid : Option ℕ
  linksta : Bool
  /-- The number of the request that waits. -/
  usercb : Option ℕ
  userlocstr : Bool
  getretries : ℕ
  /-- The running timers with their durations. -/
  retrytm : Option ℕ
  tmouttm : Option ℕ
  /-- Does `net.lua` have `getcellcb`? -/
  multicell : Bool
  /-- The number of links that have been opened, and which one has which id. -/
  conns : ℕ
  links : ℕ → Option ℕ
  issued : ℕ
  calls : List (ℕ × Result)
  outs : List Call

def initial : State where
  lid := none
  linksta := false
  usercb := none
  userlocstr := false
  getretries := 0
  retrytm := none
  tmouttm := none
  multicell := false
  conns := 0
  links _ := none
  issued := 0
  calls := []
  outs := []

/-- Requests, each of them with the id that `link.open` has for it and with what its callback
does when it is called with 1. -/
inductive Code
  | done
  | request (locstr : Bool) (tmout id : Option ℕ) (busy next : Code)

def emit (v : Call) (s : State) : State := { s with outs := s.outs ++ [v] }

def callback (n : ℕ) (r : Result) (s : State) : State := { s with calls := s.calls ++ [(n, r)] }

/-- `link.open` and `link.connect`. An id that is in use is not given again. -/
def openlink (id : Option ℕ) (s : State) : State :=
  let id := id.filter fun i => (s.links i).isNone
  emit (.connect id) { emit .open s with
    lid := id
    linksta := true
    conns := s.conns + 1
    links := match id with
      | some i => Function.update s.links i (some (s.conns + 1))
      | none => s.links }

/-- `busy` is what `cb(1)` does. -/
def request (locstr : Bool) (tmout id : Option ℕ) (busy : State → State) (s : State) : State :=
  let n := s.issued
  let s := { s with issued := n + 1 }
  let s := if s.usercb ≠ none then busy (callback n .pending s) else s
  let s := if s.linksta then s else openlink id s
  { s with tmouttm := some (tmout.getD 20 * 1000), usercb := some n, userlocstr := locstr }

def Code.run : Code → State → State
  | .done, s => s
  | .request locstr tmout id busy next, s => next.run (Lbsloc.request locstr tmout id busy.run s)

/-- `usercb` is taken, the timer is stopped and then the callback is called. -/
def finish (r : Result) (code : Code) (s : State) : State :=
  match s.usercb with
  | some n => code.run (callback n r { s with usercb := none, tmouttm := none })
  | none => { s with tmouttm := none }

def reqget (s : State) : State := { emit .getmulticell s with multicell := true }

def getcellcb (s : State) : State :=
  { emit (.send s.lid s.userlocstr) s with retrytm := some CMD_GET_TIMEOUT }

def reqend (suc : Bool) (code : Code) (s : State) : State :=
  let s := { emit (.close s.lid) { s with retrytm := none } with linksta := false }
  if suc then s else finish .failed code s

def retry (code : Code) (s : State) : State :=
  let s := { s with getretries := s.getretries + 1 }
  if s.getretries < CMD_GET_RETRY_TIMES then reqget s else reqend false code s

def nofity (evt val : LuaString) (code : Code) (s : State) : State :=
  if evt = lua "CONNECT" then
    if val = lua "CONNECT OK" then reqget { s with getretries := 0 } else reqend false code s
  else if evt = lua "STATE" ∧ (val = lua "CLOSED" ∨ val = lua "SHUTED") then reqend false code s
  else s

def rcv (data : LuaString) (code : Code) (s : State) : State :=
  if data.length < 11 then s
  else finish (if data.head? = some 0 then .location data else .unknown) code (reqend true code s)

def tmoutfnc (code : Code) (s : State) : State := finish .timeout code s

/-! ## Runs -/

/-- With each action, what the callback does that the action calls, if any. -/
inductive Act
  /-- Requests from outside the callbacks. -/
  | user (code : Code)
  /-- An event of the link `id`; CLOSE is its last one. -/
  | nofity (id : ℕ) (evt val : LuaString) (code : Code)
  | rcv (id : ℕ) (data : LuaString) (code : Code)
  | getcellcb
  | retrytm (code : Code)
  | tmouttm (code : Code)

/-- Before it tells of CLOSE, `link.lua` has given up the link. -/
def leave (id : ℕ) (evt : LuaString) (s : State) : State :=
  if evt = lua "CLOSE" then { s with links := Function.update s.links id none } else s

def step (s : State) : Act → Option State
  | .user code => some (code.run s)
  | .nofity id evt val code =>
      if s.links id ≠ none then some (nofity evt val code (leave id evt s)) else none
  | .rcv id data code => if s.links id ≠ none then some (rcv data code s) else none
  | .getcellcb => if s.multicell then some (getcellcb { s with multicell := false }) else none
  | .retrytm code => if s.retrytm ≠ none then some (retry code { s with retrytm := none }) else none
  | .tmouttm code =>
      if s.tmouttm ≠ none then some (tmoutfnc code { s with tmouttm := none }) else none

end LuatAir200.Lbsloc
