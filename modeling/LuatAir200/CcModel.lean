import LuatAir200.LuaString
import LuatAir200.Machine
import Mathlib.Data.List.Nodup

/-!
# Voice calls

`cc.lua` with the modem. AT commands are answered in order, an `AT+CLCC` by the lines of a
listing; `listings` numbers the ones that have begun. The calls in progress are known by their
ids. Audio that is
stopped first and what a user callback does come as further actions. The history has what the
listings cause, and the dispatched events.
-/
namespace LuatAir200.Cc
open Lua

/-- An entry of `clcc`. -/
structure Call where
  id : LuaString
  dir : LuaString
  sta : LuaString
deriving DecidableEq

inductive Tag
  | READY | INCOMING | CONNECTED | DISCONNECTED | DTMF | ALERTING
deriving DecidableEq

/-- The AT commands, without those of the audio channel. -/
inductive Cmd
  | ATD (number : LuaString)
  | ATA | CHUP
  | CHLD (id : LuaString)
  | CLCC | CCWA
deriving DecidableEq

inductive Event
  | CALL_READY
  | CALL_INCOMING (number : Option LuaString)
  | CALL_CONNECTED
  | CALL_DISCONNECTED (reason : LuaString)
  | CALL_DTMF (dtmf : LuaString)
  /-- Dispatched for an entry after a line of listing `n`. -/
  | CALL_ALERTING (n : ℕ) (v : Call)
  /-- `AT+CHLD` is requested for an entry after a line of listing `n`. -/
  | chld (n : ℕ) (v : Call)
  /-- Listing `n` has been answered with `lines`; what `clcc` is then. -/
  | listed (n : ℕ) (lines clcc : List Call)
deriving DecidableEq

structure State where
  ccready : Bool
  callexist : Bool
  incoming_num : Option LuaString
  oldclcc : List Call
  clcc : List Call
  usercbs : Tag → Bool
  /-- The timers of `qrylist` with `"MO"` and of `clearincomingflag`. -/
  mo : Bool
  clearing : Bool
  /-- The commands that have not been answered, and those that wait for their delay. -/
  cmds : List Cmd
  late : List Cmd
  /-- The lines of the listing that is being answered: reported and not reported yet. -/
  answering : Option (List Call × List Call)
  listings : ℕ
  /-- The calls in progress. -/
  calls : List LuaString
  hist : List Event

def boot : State where
  ccready := false
  callexist := false
  incoming_num := none
  oldclcc := []
  clcc := []
  usercbs _ := false
  mo := false
  clearing := false
  cmds := []
  late := []
  answering := none
  listings := 0
  calls := []
  hist := []

/-! ## `cc.lua` -/

def emergency_num : List LuaString :=
  [lua "112", lua "911", lua "000", lua "08", lua "110", lua "119", lua "118", lua "999"]

def isemergencynum (num : LuaString) : Bool := emergency_num.contains num

def record (v : Event) (s : State) : State := { s with hist := s.hist ++ [v] }

def dispatch (tag : Tag) (v : Event) (s : State) : State := if s.usercbs tag then record v s else s

def req (c : Cmd) (s : State) : State := { s with cmds := s.cmds ++ [c] }

def discevt (reason : LuaString) (s : State) : State :=
  let s := { s with callexist := false, clearing := s.clearing || s.incoming_num.isSome }
  { dispatch .DISCONNECTED (.CALL_DISCONNECTED reason) s with mo := false }

def anycallexist (s : State) : Bool := s.callexist

def qrylist (s : State) : State := req .CLCC { s with oldclcc := s.clcc, clcc := [] }

def isactive (clcc : List Call) : Bool := clcc.any fun v => v.sta = lua "0"

/-- The entries that are hung up: all that are not active, beside an active one. -/
def others (clcc : List Call) : List Call :=
  if isactive clcc ∧ 1 < clcc.length then clcc.filter fun v => v.sta ≠ lua "0" else []

/-- The entries that alert now and did not in the list before. -/
def alerting (oldclcc clcc : List Call) : List Call := clcc.filter fun v => v.sta = lua "3" ∧
  oldclcc.any fun n => v.id = n.id ∧ v.dir = n.dir ∧ n.sta ≠ lua "3"

def proclist (s : State) : State :=
  let s := { s with
    cmds := s.cmds ++ (others s.clcc).map fun v : Call => Cmd.CHLD v.id
    hist := s.hist ++ (others s.clcc).map (Event.chld s.listings) }
  if s.usercbs .ALERTING then
    { s with hist := s.hist ++ (alerting s.oldclcc s.clcc).map (Event.CALL_ALERTING s.listings) }
  else s

/-- `dial`; a command with a delay is not in the queue at once. -/
def dial (number : LuaString) (delay : Bool) (s : State) : State :=
  if number = [] then s
  else if s.ccready = false ∧ ¬isemergencynum number then s
  else
    let s := { s with callexist := true }
    if delay then { s with late := s.late ++ [.ATD number] } else req (.ATD number) s

def dtmfnum (n : ℕ) : Option LuaString :=
  if n = 71 then some (lua "Hz1000") else if n = 69 then some (lua "Hz1400")
  else if n = 70 then some (lua "Hz2300") else none

/-- Without a number in `data` the comparison is an error. -/
def parsedtmfnum (data : LuaString) (s : State) : Option State :=
  (smatch1 data (lua "(%d+)")).map fun digits =>
    let n := tonumber digits
    let dtmf := if 48 ≤ n ∧ n ≤ 57 ∨ 65 ≤ n ∧ n ≤ 68 ∨ n = 42 ∨ n = 35 then
      some [UInt8.ofNat n] else dtmfnum n
    match dtmf with
    | some dtmf => dispatch .DTMF (.CALL_DTMF dtmf) s
    | none => s

/-- The entry in a line of a listing. -/
def parseclcc (data : LuaString) : Option Call :=
  match smatch data (lua "%+CLCC:%s*(%d+),(%d),(%d)") with
  | some [id, dir, sta] => some ⟨id, dir, sta⟩
  | _ => none

def ccurc (data name : LuaString) (s : State) : Option State :=
  if data = lua "CALL READY" then
    some (req .CCWA (dispatch .READY .CALL_READY { s with ccready := true }))
  else if data = lua "CONNECT" then
    some { dispatch .CONNECTED .CALL_CONNECTED (qrylist s) with mo := false }
  else if data = lua "NO CARRIER" ∨ data = lua "BUSY" ∨ data = lua "NO ANSWER" then
    some (discevt data (qrylist s))
  else if name = lua "+CLIP" then
    let s := qrylist s
    let number := smatch1 (data.drop name.length) (lua "\"(%+*%d*)\"")
    let s := { s with callexist := true }
    some (if s.incoming_num ≠ number then
      dispatch .INCOMING (.CALL_INCOMING number) { s with incoming_num := number } else s)
  else if name = lua "+CCWA" then some (qrylist s)
  else if name = lua "+CLCC" then
    some (match parseclcc data with
      | some v => proclist { s with clcc := s.clcc ++ [v] }
      | none => s)
  else if name = lua "+DTMFDET" then parsedtmfnum data s
  else some s

/-- `ccrsp`, which is not registered for all commands. -/
def ccrsp (cmd : Cmd) (success : Bool) (s : State) : State :=
  match cmd with
  | .ATD _ =>
      qrylist (if success then (if s.usercbs .ALERTING then { s with mo := true } else s)
        else discevt (lua "CALL_FAILED") s)
  | .CHUP => qrylist (discevt (lua "LOCAL_HANG_UP") s)
  | .ATA =>
      qrylist { dispatch .CONNECTED .CALL_CONNECTED { s with incoming_num := none } with mo := false }
  | .CHLD _ => qrylist s
  | .CLCC | .CCWA => s

/-! ## The modem -/

/-- Numbers of a line of a listing. -/
structure Call.WellFormed (v : Call) : Prop where
  nonempty : v.id ≠ []
  id : v.id.all isDigit
  dir : v.dir.length = 1 ∧ v.dir.all isDigit
  sta : v.sta.length = 1 ∧ v.sta.all isDigit

instance (v : Call) : Decidable v.WellFormed :=
  decidable_of_iff (v.id ≠ [] ∧ v.id.all isDigit ∧ (v.dir.length = 1 ∧ v.dir.all isDigit) ∧
      v.sta.length = 1 ∧ v.sta.all isDigit)
    ⟨fun h => ⟨h.1, h.2.1, h.2.2.1, h.2.2.2⟩, fun h => ⟨h.nonempty, h.id, h.dir, h.sta⟩⟩

/-- The line that reports a call; `rest` has what follows the status. -/
def Call.line (v : Call) (rest : LuaString) : LuaString :=
  lua "+CLCC: " ++ v.id ++ lua "," ++ v.dir ++ lua "," ++ v.sta ++ rest

/-- A listing. -/
def Listing (l : List Call) : Prop := (∀ v ∈ l, v.WellFormed) ∧ (l.map Call.id).Nodup

instance (l : List Call) : Decidable (Listing l) := inferInstanceAs (Decidable (_ ∧ _))

/-- The calls in progress when a command is answered; `id` is that of the call that `ATD` makes. -/
def carryout (cmd : Cmd) (success : Bool) (id : LuaString) (calls : List LuaString) :
    List LuaString :=
  match cmd, success with
  | .ATD _, true => calls ++ [id]
  | .CHUP, true => []
  | .CHLD id, true => calls.erase id
  | _, _ => calls

inductive Act
  | regcb (tag : Tag) (cb : Bool)
  | dial (number : LuaString) (delay : Bool)
  | hangup | accept
  /-- The delay of a command is over. -/
  | delayed
  /-- The timers expire. -/
  | mo | clearincomingflag
  | CALL_READY
  /-- `+CLIP`, for a new call or again for the one that rings. -/
  | CLIP (id : Option LuaString) (data : LuaString)
  /-- `+CCWA`: a call comes in while there is another one. -/
  | CCWA (id data : LuaString)
  | CONNECT
  /-- A call ends. -/
  | ended (id reason : LuaString)
  | DTMFDET (data : LuaString)
  /-- The first command is answered, which is no `AT+CLCC`. -/
  | rsp (success : Bool) (id : LuaString)
  /-- The first command is `AT+CLCC`: its listing begins, has a line, and is complete. -/
  | start (lines : List Call)
  | line (rest : LuaString)
  | complete

/-- A notification whose line begins with its name. -/
def notify (name data : LuaString) (s : State) : Option State :=
  if name <+: data then ccurc data name s else none

def step (s : State) : Act → Option State
  | .regcb tag cb => some { s with usercbs := fun t => if t = tag then cb else s.usercbs t }
  | .dial number delay => some (dial number delay s)
  | .hangup => some (req .CHUP s)
  | .accept => some (req .ATA s)
  | .delayed =>
      match s.late with
      | c :: late => some (req c { s with late := late })
      | [] => none
  | .mo => if s.mo then some (qrylist s) else none
  | .clearincomingflag =>
      if s.clearing then some { s with clearing := false, incoming_num := none } else none
  | .CALL_READY => ccurc (lua "CALL READY") (lua "CALL READY") s
  | .CLIP (some id) data =>
      if s.calls = [] then notify (lua "+CLIP") data { s with calls := [id] } else none
  | .CLIP none data => if s.calls = [] then none else notify (lua "+CLIP") data s
  | .CCWA id data =>
      if s.calls = [] ∨ s.calls.contains id then none
      else notify (lua "+CCWA") data { s with calls := s.calls ++ [id] }
  | .CONNECT => ccurc (lua "CONNECT") (lua "CONNECT") s
  | .ended id reason =>
      if s.calls.contains id ∧
          (reason = lua "NO CARRIER" ∨ reason = lua "BUSY" ∨ reason = lua "NO ANSWER") then
        ccurc reason reason { s with calls := s.calls.erase id }
      else none
  | .DTMFDET data => notify (lua "+DTMFDET") data s
  | .rsp success id =>
      match s.cmds with
      | cmd :: cmds =>
          if cmd = .CLCC ∨ s.calls.contains id then none
          else some (ccrsp cmd success
            { s with cmds := cmds, calls := carryout cmd success id s.calls })
      | [] => none
  | .start lines =>
      if s.cmds.head? = some .CLCC ∧ s.answering = none ∧ Listing lines then
        some { s with answering := some ([], lines), listings := s.listings + 1 }
      else none
  | .line rest =>
      match s.answering with
      | some (reported, v :: lines) =>
          notify (lua "+CLCC") (v.line rest) { s with answering := some (reported ++ [v], lines) }
      | _ => none
  | .complete =>
      match s.answering with
      | some (reported, []) =>
          some (record (.listed s.listings reported s.clcc)
            { s with answering := none, cmds := s.cmds.tail })
      | _ => none

end LuatAir200.Cc
