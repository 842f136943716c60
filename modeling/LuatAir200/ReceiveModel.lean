import LuatAir200.RilModel

/-!
# Received blocks

The part of `link.lua` that takes the data of a socket from the AT channel: the
handler of `+RECEIVE`, the data filter and `recv`. The rest of the program is a
parameter, and has no access to `rcvd`.
-/
namespace LuatAir200.Receive
open Lua Ril

/-- `urc` of `link.lua`, or a handler of another module. -/
inductive Handler (υ : Type)
  | link
  | other (h : υ)
  deriving DecidableEq, Repr

inductive Filter (φ : Type)
  | rcvdfilter
  | other (f : φ)
  deriving DecidableEq, Repr

/-- The rest of the program; `link` does what `urc` of `link.lua` does for other URCs. -/
structure Others where
  Rest : Type
  Rsp : Type
  Urc : Type
  Filter : Type
  Task : Type
  rsp : Rsp → LuaString → Bool → Option LuaString → Option LuaString → Rest →
    Option (Ran Rest Rsp (Handler Urc))
  urc : Urc → LuaString → LuaString → Rest → Option (Ran Rest Rsp (Handler Urc) × Option Filter)
  filter : Filter → LuaString → Rest →
    Option (Ran Rest Rsp (Handler Urc) × LuaString × Option Filter)
  task : Task → Rest → Option (Ran Rest Rsp (Handler Urc))
  link : LuaString → LuaString → Rest → Option (Ran Rest Rsp (Handler Urc))
  /-- The `recv` of a link, when the link is open and has one. -/
  recv : Rest → ℕ → Option (LuaString → Ran Rest Rsp (Handler Urc))

/-- `rcvd`; `tonumber` gives `nil` for what is not a number. -/
structure Rcvd where
  id : Option ℕ
  len : Option ℕ
  data : LuaString
  deriving DecidableEq, Repr

/-- The state outside `ril.lua`, with the calls of the links' `recv`. -/
structure Side (R : Type) where
  rcvd : Rcvd
  recvs : List (ℕ × LuaString)
  rest : R

variable {O : Others}

/-- What another module does leaves `rcvd` alone. -/
def lift (o : Side O.Rest) (r : Ran O.Rest O.Rsp (Handler O.Urc)) :
    Ran (Side O.Rest) O.Rsp (Handler O.Urc) := ⟨{ o with rest := r.out }, r.calls⟩

/-- `recv`. -/
def recv (id : Option ℕ) (data : LuaString) (o : Side O.Rest) :
    Ran (Side O.Rest) O.Rsp (Handler O.Urc) :=
  match id.bind fun id => (O.recv o.rest id).map fun f => (id, f) with
  | some (id, f) =>
      let r := f data
      ⟨{ o with recvs := o.recvs ++ [(id, data)], rest := r.out }, r.calls⟩
  | none => ⟨o, []⟩

/-- `rcvdfilter`; to compare with a missing length is a Lua error. -/
def rcvdfilter (data : LuaString) (o : Side O.Rest) :
    Option (Ran (Side O.Rest) O.Rsp (Handler O.Urc) × LuaString × Option (Filter O.Filter)) :=
  o.rcvd.len.map fun len =>
    if len = 0 then (⟨o, []⟩, data, none)
    else
      let restlen := len - o.rcvd.data.length
      let got := o.rcvd.data ++ data.take restlen
      let data := data.drop restlen
      if len = got.length then
        let r := recv o.rcvd.id got o
        (⟨{ r.out with rcvd := ⟨some 0, some 0, []⟩ }, r.calls⟩, data, none)
      else (⟨{ o with rcvd := { o.rcvd with data := got } }, []⟩, data, some .rcvdfilter)

/-- `urc` of `link.lua`. -/
def linkurc (data head : LuaString) (o : Side O.Rest) :
    Option (Ran (Side O.Rest) O.Rsp (Handler O.Urc) × Option (Filter O.Filter)) :=
  if head = lua "+RECEIVE" then
    let m := smatch2 (data.drop 8) (lua ",(%d),(%d+)")
    some (⟨{ o with rcvd := { o.rcvd with
      id := m.map fun r => tonumber r.1
      len := m.map fun r => tonumber r.2 } }, []⟩, some .rcvdfilter)
  else (O.link data head o.rest).map fun r => (lift o r, none)

/-- `ril.lua` with the receiving part of `link.lua`. -/
abbrev system (O : Others) : Modules where
  Outside := Side O.Rest
  Rsp := O.Rsp
  Urc := Handler O.Urc
  Filter := Filter O.Filter
  Task := O.Task
  rsp f cmd success response intermediate o :=
    (O.rsp f cmd success response intermediate o.rest).map (lift o)
  urc h data head o :=
    match h with
    | .link => linkurc data head o
    | .other h => (O.urc h data head o.rest).map fun r => (lift o r.1, r.2.map .other)
  filter f data o :=
    match f with
    | .rcvdfilter => rcvdfilter data o
    | .other f => (O.filter f data o.rest).map fun r => (lift o r.1, r.2.1, r.2.2.map .other)
  task t o := (O.task t o.rest).map (lift o)

abbrev State (O : Others) := Ril.State (system O)

/-- `link.lua` has registered its handler, and nothing has been received. -/
def boot (O : Others) (rest : O.Rest) : State O :=
  { Ril.boot (system O) ⟨⟨some 0, some 0, []⟩, [], rest⟩ with
    urctable := fun head => if head = lua "+RECEIVE" then some .link else none }

/-- A line `+RECEIVE,<id>,<len>`, with or without the colon that may follow. -/
def announcement (i : UInt8) (ds tl : LuaString) : LuaString :=
  lua "+RECEIVE," ++ i :: lua "," ++ ds ++ tl

end LuatAir200.Receive
