import LuatAir200.LuaString
import LuatAir200.Keyed
import LuatAir200.Machine

/-!
# Packets that wait for their acknowledgement

`mqttdup.lua`: the list of the packets that are sent again when they are not
acknowledged, and its one-second timer. `β` stands for callback functions. The history
has what happens to the entries in order; an entry is known by its socket and its data.
-/
namespace LuatAir200.MqttDup
open Lua Keyed

def DUP_TIME : ℕ := 10
def DUP_CNT : ℕ := 3

structure Entry (β : Type) where
  sckidx : ℕ
  typ : LuaString
  dat : LuaString
  seq : Option LuaString
  cb : Option β
  cbtag : Option LuaString
  cnt : ℤ
  tm : ℕ
deriving DecidableEq

abbrev Key := ℕ × LuaString

def Entry.key {β : Type} (e : Entry β) : Key := (e.sckidx, e.dat)

/-- The messages that are dispatched. -/
inductive Msg (β : Type)
  | dupInd (sckidx : ℕ) (dat : LuaString)
  | dupFail (sckidx : ℕ) (typ : LuaString) (seq : Option LuaString) (cb : Option β)
      (cbtag : Option LuaString)
deriving DecidableEq

/-- What happens to the entry with a key, and the ticks of the timer. -/
inductive Event (β : Type)
  | ins (e : Entry β)
  | tick
  | ind (k : Key)
  | fail (k : Key) (m : Msg β)
  | rmv (k : Key)
  | rsm (k : Key)
deriving DecidableEq

structure State (β : Type) where
  tlist : List (Entry β)
  /-- `sys.timer_is_active(timerfnc)`. -/
  active : Bool
  /-- The messages that have not been processed. -/
  qmsg : List (Msg β)
  hist : List (Event β)
deriving DecidableEq

variable {β : Type}

def boot : State β := ⟨[], false, [], []⟩

def dispatch (m : Msg β) (s : State β) : State β := { s with qmsg := s.qmsg ++ [m] }

def record (v : Event β) (s : State β) : State β := { s with hist := s.hist ++ [v] }

/-- The message that announces an entry. -/
def announce (e : Entry β) (s : State β) : State β :=
  dispatch (.dupInd e.sckidx e.dat) (record (.ind e.key) s)

/-- The loop of `timerfnc` over the list, which it rebuilds. -/
def timerloop : List (Entry β) → State β → State β
  | [], s => s
  | e :: es, s =>
      if 0 < e.tm then
        let e := { e with tm := e.tm - 1 }
        let s := { s with tlist := s.tlist ++ [e] }
        timerloop es (if e.tm = 0 then announce e s else s)
      else timerloop es { s with tlist := s.tlist ++ [e] }

def timerfnc (s : State β) : State β := timerloop s.tlist (record .tick { s with tlist := [] })

/-- `timer`. -/
def timer (start : Bool) (s : State β) : State β :=
  if start then { s with active := true }
  else if s.tlist = [] then { s with active := false }
  else s

@[simp] theorem timer_tlist (b : Bool) (s : State β) : (timer b s).tlist = s.tlist := by
  unfold timer
  split
  · rfl
  · split <;> rfl

@[simp] theorem timer_qmsg (b : Bool) (s : State β) : (timer b s).qmsg = s.qmsg := by
  unfold timer
  split
  · rfl
  · split <;> rfl

@[simp] theorem timer_hist (b : Bool) (s : State β) : (timer b s).hist = s.hist := by
  unfold timer
  split
  · rfl
  · split <;> rfl

def ins (sckidx : ℕ) (typ dat : LuaString) (seq : Option LuaString) (cb : Option β)
    (cbtag : Option LuaString) (s : State β) : State β :=
  let e : Entry β := ⟨sckidx, typ, dat, seq, cb, cbtag, DUP_CNT, DUP_TIME⟩
  timer true (record (.ins e) { s with tlist := s.tlist ++ [e] })

/-- The arguments of `rmv` that are not `nil` select the entry. -/
def selects (sckidx : ℕ) (typ dat seq : Option LuaString) (e : Entry β) : Bool :=
  sckidx = e.sckidx ∧ (typ = none ∨ typ = some e.typ) ∧ (dat = none ∨ dat = some e.dat) ∧
    (seq = none ∨ seq = e.seq)

/-- The first entry that is selected leaves the list. -/
def remove (p : Entry β → Bool) (s : State β) : State β := { s with tlist := s.tlist.eraseP p }

def rmv (sckidx : ℕ) (typ dat seq : Option LuaString) (s : State β) : State β :=
  let p := selects sckidx typ dat seq
  timer false (remove p
    (match s.tlist.find? p with
      | some e => record (.rmv e.key) s
      | none => s))

/-- The list is emptied before the loop looks for the entries of the socket. -/
def rmvall (sckidx : ℕ) (s : State β) : State β :=
  let tlist : List (Entry β) := []
  timer false { s with
    tlist := tlist.filter fun e => e.sckidx ≠ sckidx
    hist := s.hist ++ s.tlist.map fun e => .rmv e.key }

/-- `rsm`; an entry whose announcements are used up is given up. -/
def rsm (sckidx : ℕ) (dat : LuaString) (s : State β) : State β :=
  let s := record (.rsm (sckidx, dat)) s
  let p := fun e : Entry β => decide (sckidx = e.sckidx ∧ e.dat = dat)
  match s.tlist.find? p with
  | none => s
  | some e =>
      if e.cnt - 1 = 0 then
        let m : Msg β := .dupFail e.sckidx e.typ e.seq e.cb e.cbtag
        let s := { s with tlist := modify p (fun e => { e with cnt := e.cnt - 1 }) s.tlist }
        timer false (remove (selects e.sckidx none (some dat) none)
          (dispatch m (record (.fail e.key m) s)))
      else { s with tlist := modify p (fun e => { e with cnt := e.cnt - 1, tm := DUP_TIME }) s.tlist }

/-- `getyp`: the type, the callback and its tag. -/
def getyp (sckidx : ℕ) (seq : LuaString) (s : State β) :
    Option (LuaString × Option β × Option LuaString) :=
  (s.tlist.find? fun e => decide (some seq = e.seq ∧ sckidx = e.sckidx)).map fun e =>
    (e.typ, e.cb, e.cbtag)

/-! ## Runs -/

inductive Act (β : Type)
  | ins (sckidx : ℕ) (typ dat : LuaString) (seq : Option LuaString) (cb : Option β)
      (cbtag : Option LuaString)
  | rmv (sckidx : ℕ) (typ dat seq : Option LuaString)
  | rmvall (sckidx : ℕ)
  | rsm (sckidx : ℕ) (dat : LuaString)
  /-- The timer has expired. -/
  | tick
  /-- The next message is taken from the queue. -/
  | msg

def step (s : State β) : Act β → Option (State β)
  | .ins sckidx typ dat seq cb cbtag => some (ins sckidx typ dat seq cb cbtag s)
  | .rmv sckidx typ dat seq => some (rmv sckidx typ dat seq s)
  | .rmvall sckidx => some (rmvall sckidx s)
  | .rsm sckidx dat => some (rsm sckidx dat s)
  | .tick => if s.active then some (timerfnc s) else none
  | .msg => if s.qmsg = [] then none else some { s with qmsg := s.qmsg.tail }

end LuatAir200.MqttDup
