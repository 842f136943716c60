import LuatAir200.LuaString
import LuatAir200.Keyed
import Mathlib.Logic.Function.Basic

/-!
# `gps.lua`: applications of the GPS

The table `tlist` of the applications and the one-second timer. Parameter tables are known by
a number: `remain` and `delay` are fields of the caller's table and stay there. A callback
runs until `ret`; meanwhile `pass` says where `timerfunc` goes on, and `opens` which calls of
`open` do. The log is what an application can observe.
-/
namespace LuatAir200.Gps
open Lua

inductive Mode
  | DEFAULT
  | TIMERORSUC
  | TIMER
  deriving DecidableEq

/-- A parameter table; `cb` says whether there is a callback. -/
structure Para where
  cause : LuaString
  val : Option ℤ
  cb : Bool
  remain : Option ℤ
  delay : Option ℤ
  deriving DecidableEq

structure Item where
  flag : Bool
  mode : Mode
  para : ℕ
  deriving DecidableEq

/-- An application is a mode and a cause. -/
abbrev App := Mode × LuaString

inductive Event
  | opened (app : App) (val : Option ℤ)
  | closed (app : App)
  | called (app : App)
  | tick
  deriving DecidableEq

/-- `timerfunc` in the callback of slot `i`, with `k` slots to go. -/
structure Pass where
  i : ℕ
  k : ℕ
  md : Mode
  fixed : Bool
  deriving DecidableEq

structure State where
  paras : ℕ → Para
  tlist : List Item
  /-- `isfix()` -/
  fix : Bool
  /-- Another user keeps the GPS open. -/
  others : Bool
  timer : Bool
  pass : Option Pass
  /-- Calls of `open` in their callback. -/
  opens : List (Mode × ℕ)
  /-- The latest event comes first. -/
  log : List Event

def State.app (st : State) (it : Item) : App := (it.mode, (st.paras it.para).cause)

def State.setPara (st : State) (p : ℕ) (f : Para → Para) : State :=
  { st with paras := Function.update st.paras p (f (st.paras p)) }

def State.record (st : State) (e : Event) : State := { st with log := e :: st.log }

/-! ## The table -/

def delitem (app : App) (st : State) : State :=
  { st with
    tlist := Keyed.modify (fun it => it.flag && st.app it = app) (fun it => { it with flag := false })
      st.tlist }

/-- The first invalid entry. -/
def freeSlot (l : List Item) : Option ℕ := l.findIdx? fun it => !it.flag

def additem (mode : Mode) (p : ℕ) (st : State) : State :=
  let st := delitem (mode, (st.paras p).cause) st
  let st :=
    if mode = .TIMERORSUC ∨ mode = .TIMER then st.setPara p fun q => { q with remain := q.val }
    else st
  let item : Item := ⟨true, mode, p⟩
  { st with
    tlist :=
      match freeSlot st.tlist with
      | some i => st.tlist.set i item
      | none => st.tlist ++ [item] }

def isexisttimeritem (st : State) : Bool :=
  st.tlist.any fun it => it.flag &&
    (it.mode = .TIMERORSUC || it.mode = .TIMER || (st.paras it.para).delay.isSome)

/-! ## Opening and closing -/

def closegps (st : State) : State := if st.others then st else { st with fix := false }

def close (app : App) (st : State) : State :=
  let st := delitem app st
  if st.tlist.any Item.flag then st else closegps st

/-- `open` after the callback for a position that is already there. -/
def finishOpen (mode : Mode) (p : ℕ) (st : State) : State :=
  let st := (additem mode p st).record (.opened (mode, (st.paras p).cause) (st.paras p).val)
  if isexisttimeritem st then { st with timer := true } else st

/-- `open`; with a callback, it goes on when the callback returns. -/
def openApp (mode : Mode) (p : ℕ) (st : State) : State :=
  if st.fix && mode ≠ .TIMER then
    if (st.paras p).cb then
      { st.record (.called (mode, (st.paras p).cause)) with opens := (mode, p) :: st.opens }
    else if mode = .TIMERORSUC then st
    else finishOpen mode p st
  else finishOpen mode p st

/-! ## The timer -/

def dec (x : Option ℤ) : Option ℤ := x.map fun n => if n > 0 then n - 1 else n

/-- What `timerfunc` does to the counters of an entry. -/
def count (fix : Bool) (md : Mode) (q : Para) : Para :=
  let q := { q with remain := dec q.remain, delay := dec q.delay }
  if fix && md = .TIMER && q.remain = some 0 && q.delay.isNone then { q with delay := some 1 } else q

/-- Whether an entry is due, after its counters have changed. -/
def due (fix : Bool) (q : Para) : Bool := if fix then q.delay = some 0 else q.remain = some 0

/-- What follows the callback of slot `i`. -/
def afterCallback (i : ℕ) (md : Mode) (fixed : Bool) (st : State) : State :=
  match st.tlist[i]? with
  | none => st
  | some it =>
      if fixed && md = .DEFAULT then st.setPara it.para fun q => { q with delay := none }
      else close (md, (st.paras it.para).cause) st

/-- The loop of `timerfunc` over `k` slots from `i` on, up to the next callback or to its end. -/
def scan : ℕ → ℕ → State → State
  | 0, _, st => { st with pass := none, timer := st.timer || isexisttimeritem st }
  | k + 1, i, st =>
      match st.tlist[i]? with
      | none => scan k (i + 1) st
      | some it =>
          if it.flag then
            let fixed := st.fix
            let st := st.setPara it.para (count fixed it.mode)
            if due fixed (st.paras it.para) then
              if (st.paras it.para).cb then
                { st.record (.called (st.app it)) with pass := some ⟨i, k, it.mode, fixed⟩ }
              else scan k (i + 1) (afterCallback i it.mode fixed st)
            else scan k (i + 1) st
          else scan k (i + 1) st

def timerfunc (st : State) : State :=
  scan st.tlist.length 0 ({ st with timer := false }.record .tick)

/-- A location: the entries that do not wait for the time only get a delay of one second. -/
def gpsstatind (st : State) : State :=
  let st' := st.tlist.foldl (fun st it =>
    if it.flag && it.mode ≠ .TIMER then st.setPara it.para fun q => { q with delay := some 1 }
    else st) st
  { st' with timer := st.timer || st.tlist.any fun it => it.flag && it.mode = .DEFAULT }

/-! ## Runs -/

inductive Act
  | openApp (mode : Mode) (p : ℕ)
  | close (mode : Mode) (p : ℕ)
  /-- The running callback returns. -/
  | ret
  | tick
  | located
  /-- The receiver finds or loses its position. -/
  | fix (b : Bool)
  | others (b : Bool)
  | setVal (p : ℕ) (val : Option ℤ)
  /-- A table that is not in use gets other contents; the counters stay in it. -/
  | fill (p : ℕ) (cause : LuaString) (val : Option ℤ) (cb : Bool)
  deriving DecidableEq

def State.idle (st : State) : Bool := st.pass.isNone && st.opens.isEmpty

/-- The table belongs to an application, or to one whose callback is running. -/
def State.uses (st : State) (p : ℕ) : Bool :=
  (st.tlist.any fun it => it.flag && it.para = p) || (st.opens.any fun o => o.2 = p) ||
    (st.pass.any fun ps => st.tlist[ps.i]?.any fun it => it.para = p)

def step (st : State) : Act → Option State
  | .openApp mode p => some (openApp mode p st)
  | .close mode p =>
      let app := (mode, (st.paras p).cause)
      some ((Gps.close app st).record (.closed app))
  | .ret =>
      match st.opens with
      | (mode, p) :: opens =>
          let st := { st with opens := opens }
          some (if mode = .TIMERORSUC then st else finishOpen mode p st)
      | [] =>
          st.pass.map fun ps => scan ps.k (ps.i + 1) (afterCallback ps.i ps.md ps.fixed st)
  | .tick => if st.idle && st.timer then some (timerfunc st) else none
  | .located => if st.idle then some (gpsstatind st) else none
  | .fix b => if st.idle then some { st with fix := b } else none
  | .others b => if st.idle then some { st with others := b } else none
  | .setVal p val => some (st.setPara p fun q => { q with val := val })
  | .fill p cause val cb =>
      if st.uses p then none
      else some (st.setPara p fun q => { q with cause := cause, val := val, cb := cb })

/-- No application, no table in use. -/
def init (paras : ℕ → Para) : State :=
  { paras := paras, tlist := [], fix := false, others := false, timer := false, pass := none,
    opens := [], log := [] }

end LuatAir200.Gps
