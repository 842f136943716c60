import LuatAir200.LuaString
import LuatAir200.LuaTable
import LuatAir200.Machine

/-!
# Internal messages

The part of `sys.lua` that registers apps and delivers the messages of the queue `qmsg` to
them. `φ` stands for functions and `α` for the values that are no strings. A handler may do
anything, so `callapp` stops where it calls one, the actions of the handler follow, and
`ret` resumes the delivery. The content of a registered app does not change.
-/
namespace LuatAir200.Sys
open Lua

inductive Value (α : Type)
  | str (s : LuaString)
  | other (v : α)
deriving DecidableEq

/-- A registered app is a table: `ref` is its identity, `items` its array part and
`fields` its functions by key. The function form of `regapp` sets `procer`. -/
structure App (φ α : Type) where
  ref : ℕ
  procer : Option φ
  items : Args (Value α)
  fields : Value α → Option φ

/-- The argument of `deregapp`. -/
inductive Sel (φ : Type)
  | fnc (f : φ)
  | tbl (ref : ℕ)
  | nil
deriving DecidableEq

/-- A message of the queue; an arbitrary one is the table of its arguments. -/
inductive Msg (φ α : Type)
  | SYS_ADD_APP (app : App φ α)
  | SYS_REMOVE_APP (id : Sel φ)
  | other (msg : Args (Value α))

/-- Where the delivery of a message stands: `app`, the entry `i` (from 1), is being served,
and the loop over its items has `rest` left. -/
structure Cursor (φ α : Type) where
  msg : Args (Value α)
  i : ℕ
  app : App φ α
  rest : Args (Value α)

inductive Control (φ α : Type)
  /-- Outside `runqmsg`. -/
  | out
  /-- In its loop. -/
  | loop
  /-- In a handler. -/
  | handler (c : Cursor φ α)

/-- History of the queue and of the handlers. -/
inductive Event (φ α : Type)
  | dispatch (m : Msg φ α)
  /-- A message is taken from the queue. -/
  | getmsg (m : Msg φ α)
  /-- The refresh message is taken. -/
  | refreshmsg
  | call (f : φ) (arg : Args (Value α))
  /-- A handler has returned; is its result `true`? -/
  | ret (result : Bool)

structure State (φ α : Type) where
  apps : List (App φ α)
  qmsg : List (Msg φ α)
  refreshflag : Bool
  control : Control φ α
  hist : List (Event φ α)

variable {φ α : Type}

def boot : State φ α := ⟨[], [], false, .out, []⟩

def record (v : Event φ α) (s : State φ α) : State φ α := { s with hist := s.hist ++ [v] }

def dispatch (m : Msg φ α) (s : State φ α) : State φ α :=
  record (.dispatch m) { s with qmsg := s.qmsg ++ [m] }

def regapp (app : App φ α) (s : State φ α) : State φ α := dispatch (.SYS_ADD_APP app) s

def deregapp (id : Sel φ) (s : State φ α) : State φ α := dispatch (.SYS_REMOVE_APP id) s

def addapp (app : App φ α) (apps : List (App φ α)) : List (App φ α) := apps ++ [app]

/-- `{"MMI_REFRESH_IND"}`. -/
def refreshmsg : Args (Value α) := [some (.str (lua "MMI_REFRESH_IND"))]

section
variable [DecidableEq φ] [DecidableEq α]

def Sel.selects (id : Sel φ) (app : App φ α) : Bool :=
  match id with
  | .fnc f => app.procer = some f
  | .tbl ref => app.ref = ref
  | .nil => false

def removeapp (id : Sel φ) (apps : List (App φ α)) : List (App φ α) := apps.eraseP id.selects

/-- `msg[1]`. -/
def msgid (msg : Args (Value α)) : Option (Value α) := msg.head?.join

/-- The loop over the items of an app, which `ipairs` ends at a `nil`: what is left of it
behind the next item that is the id of the message. -/
def itemloop (id : Option (Value α)) : Args (Value α) → Option (Args (Value α))
  | [] => none
  | none :: _ => none
  | some v :: vs => if some v = id then some vs else itemloop id vs

/-- How the delivery goes on: it is finished, or a handler is called. -/
inductive Next (φ α : Type)
  | done
  | call (f : φ) (arg : Args (Value α)) (c : Cursor φ α)

/-- The loop over the apps from `i` down. An entry outside the table would be indexed as
`nil`, which is an error. -/
def apploop (apps : List (App φ α)) (msg : Args (Value α)) : ℕ → Option (Next φ α)
  | 0 => some .done
  | i + 1 =>
      match apps[i]? with
      | none => none
      | some app =>
          match app.procer with
          | some procer =>
              match itemloop (msgid msg) app.items with
              | some rest => some (.call procer (unpack msg) ⟨msg, i + 1, app, rest⟩)
              | none => apploop apps msg i
          | none =>
              match (msgid msg).bind app.fields with
              | some f => some (.call f (unpack msg).tail ⟨msg, i + 1, app, []⟩)
              | none => apploop apps msg i

/-- The delivery after a handler has returned. -/
def resume (apps : List (App φ α)) (c : Cursor φ α) (result : Bool) : Option (Next φ α) :=
  if result then
    match c.app.procer with
    | some procer =>
        match itemloop (msgid c.msg) c.rest with
        | some rest => some (.call procer (unpack c.msg) { c with rest := rest })
        | none => apploop apps c.msg (c.i - 1)
    | none => apploop apps c.msg (c.i - 1)
  else some .done

/-- Go on in `runqmsg`, or call a handler. -/
def proceed (n : Next φ α) (s : State φ α) : State φ α :=
  match n with
  | .done => { s with control := .loop }
  | .call f arg c => record (.call f arg) { s with control := .handler c }

/-- `callapp`. -/
def callapp (m : Msg φ α) (s : State φ α) : Option (State φ α) :=
  match m with
  | .SYS_ADD_APP app => some { s with apps := addapp app s.apps }
  | .SYS_REMOVE_APP id => some { s with apps := removeapp id s.apps }
  | .other msg => (apploop s.apps msg s.apps.length).map fun n => proceed n s

/-- One round of the loop of `runqmsg`. -/
def round (s : State φ α) : Option (State φ α) :=
  match s.qmsg with
  | m :: qmsg => callapp m (record (.getmsg m) { s with qmsg := qmsg })
  | [] =>
      if s.refreshflag then
        callapp (.other refreshmsg) (record .refreshmsg { s with refreshflag := false })
      else some { s with control := .out }

inductive Act (φ α : Type)
  /-- `run` calls `runqmsg`. -/
  | runqmsg
  | round
  /-- The handler returns. -/
  | ret (result : Bool)
  /-- Calls of the program: in a handler, or outside `runqmsg`. -/
  | dispatch (msg : Args (Value α))
  | regapp (app : App φ α)
  | deregapp (id : Sel φ)
  | refresh

/-- Does the program run? -/
def Control.program : Control φ α → Bool
  | .out | .handler _ => true
  | .loop => false

/-- Messages with the two ids of registration are sent by `regapp` and `deregapp`. -/
def reserved (msg : Args (Value α)) : Bool :=
  msgid msg = some (.str (lua "SYS_ADD_APP")) ∨ msgid msg = some (.str (lua "SYS_REMOVE_APP"))

def step (s : State φ α) : Act φ α → Option (State φ α)
  | .runqmsg => match s.control with
      | .out => some { s with control := .loop }
      | _ => none
  | .round => match s.control with
      | .loop => round s
      | _ => none
  | .ret result => match s.control with
      | .handler c => (resume s.apps c result).map fun n => proceed n (record (.ret result) s)
      | _ => none
  | .dispatch msg =>
      if s.control.program ∧ ¬reserved msg then some (dispatch (.other msg) s) else none
  | .regapp app => if s.control.program then some (regapp app s) else none
  | .deregapp id => if s.control.program then some (deregapp id s) else none
  | .refresh => if s.control.program then some { s with refreshflag := true } else none

end

end LuatAir200.Sys
