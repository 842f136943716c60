import LuatAir200.LuaString
import LuatAir200.Machine

/-!
# The AT channel

`ril.lua` in its normal mode. The program around it is a parameter: its state, the
functions it registers and the tasks it runs between two events. Each of these may
make any calls of the interface. The requests are numbered; the two commands in the
queue at the start count as the first ones. A command that is not answered in time
restarts the program, so the timer of `atimeout` is left out.
-/
namespace LuatAir200.Ril
open Lua Machine

/-- The types of responses. -/
inductive RespType
  | NORESULT | NUMBERIC | SLINE | MLINE | STRING | SPECIAL
  deriving DecidableEq, Repr

def RILCMD (head : LuaString) : Option RespType :=
  if head = lua "+CSQ" then some .SLINE
  else if head = lua "+CGSN" then some .NUMBERIC
  else if head = lua "+WISN" then some .STRING
  else if head = lua "+CIMI" then some .NUMBERIC
  else if head = lua "+CCID" then some .NUMBERIC
  else if head = lua "+CGATT" then some .SLINE
  else if head = lua "+CCLK" then some .SLINE
  else if head = lua "+ATWMFT" then some .STRING
  else if head = lua "+CMGR" then some .MLINE
  else if head = lua "+CMGS" then some .SLINE
  else if head = lua "+CPBF" then some .MLINE
  else if head = lua "+CPBR" then some .MLINE
  else if head = lua "+CIPSEND" then some .SPECIAL
  else if head = lua "+CIPCLOSE" then some .SPECIAL
  else if head = lua "+SSLINIT" then some .SPECIAL
  else if head = lua "+SSLCERT" then some .SPECIAL
  else if head = lua "+SSLCREATE" then some .SPECIAL
  else if head = lua "+SSLCONNECT" then some .SPECIAL
  else if head = lua "+SSLSEND" then some .SPECIAL
  else if head = lua "+SSLDESTROY" then some .SPECIAL
  else if head = lua "+SSLTERM" then some .SPECIAL
  else if head = lua "+CIFSR" then some .SPECIAL
  else none

/-- The arguments of `request`; `ρ` stands for response functions. -/
structure Req (ρ : Type) where
  cmd : LuaString
  arg : Option LuaString
  rsp : Option ρ
  delay : Option ℕ

/-- A request with its number. -/
structure Entry (ρ : Type) where
  no : ℕ
  req : Req ρ

/-- Calls of the interface; `υ` stands for URC handlers. -/
inductive Call (ρ υ : Type)
  | request (r : Req ρ)
  | regrsp (head : LuaString) (fnc : ρ) (typ : Option RespType) (formt : Option LuaString)
  | regurc (head : LuaString) (handler : υ)
  | deregurc (head : LuaString)

/-- What a function of another module has done. -/
structure Ran (σ ρ υ : Type) where
  out : σ
  calls : List (Call ρ υ)

/-- The rest of the program. `none` is a Lua error, which ends the program. -/
structure Modules where
  Outside : Type
  Rsp : Type
  Urc : Type
  Filter : Type
  Task : Type
  /-- `fnc(cmd,success,response,intermediate)`. -/
  rsp : Rsp → LuaString → Bool → Option LuaString → Option LuaString → Outside →
    Option (Ran Outside Rsp Urc)
  /-- `handler(data,prefix)`, which may return a data filter. -/
  urc : Urc → LuaString → LuaString → Outside → Option (Ran Outside Rsp Urc × Option Filter)
  /-- A filter returns what is left of the data, and the next filter. -/
  filter : Filter → LuaString → Outside →
    Option (Ran Outside Rsp Urc × LuaString × Option Filter)
  task : Task → Outside → Option (Ran Outside Rsp Urc)

/-- The function that `rsp` calls: the command's own one, one from `rsptable`, or `defrsp`. -/
inductive Callback (ρ : Type)
  | currsp (f : ρ)
  | table (f : ρ)
  | defrsp

inductive Event (ρ : Type)
  /-- A command is written to the port. -/
  | write (e : Entry ρ)
  /-- The data that a command asks for is written. -/
  | data (d : LuaString)
  | answer (e : Entry ρ) (f : Callback ρ)

/-- `currcmd`, `currarg` and `currsp` are those of the request. -/
structure Curr (ρ : Type) where
  entry : Entry ρ
  cmdhead : LuaString
  cmdtype : RespType
  rspformt : Option LuaString

structure State (M : Modules) where
  radioready : Bool
  delaying : Bool
  readat : Bool
  cmdqueue : List (Entry M.Rsp)
  curr : Option (Curr M.Rsp)
  interdata : Option LuaString
  urcfilter : Option M.Filter
  rilcmd : LuaString → Option RespType
  rsptable : LuaString → Option M.Rsp
  formtab : LuaString → Option LuaString
  urctable : LuaString → Option M.Urc
  out : M.Outside
  /-- All requests so far, and what has gone over the port and to callbacks. -/
  requests : List (Entry M.Rsp)
  trace : List (Event M.Rsp)

variable {M : Modules}

/-- The commands that are queued at the start. -/
def initial (ρ : Type) : List (Entry ρ) :=
  [⟨0, lua "ATE0", none, none, none⟩, ⟨1, lua "AT+CMEE=0", none, none, none⟩]

def boot (M : Modules) (out : M.Outside) : State M where
  radioready := false
  delaying := false
  readat := false
  cmdqueue := initial M.Rsp
  curr := none
  interdata := none
  urcfilter := none
  rilcmd := RILCMD
  rsptable _ := none
  formtab _ := none
  urctable _ := none
  out := out
  requests := initial M.Rsp
  trace := []

/-! ## Requests -/

def cmdhead (cmd : LuaString) : Option LuaString := smatch1 cmd (lua "AT([%+%*]*%u+)")

/-- `+CMGS` and `+CIPSEND` must have an argument. -/
def hasArg (head : LuaString) (arg : Option LuaString) : Bool :=
  !((head = lua "+CMGS" ∨ head = lua "+CIPSEND") ∧ (arg = none ∨ arg = some []))

/-- `getcmd`; `none` is a request that is dropped. -/
def getcmd (e : Entry M.Rsp) (s : State M) : Option (Curr M.Rsp) :=
  match cmdhead e.req.cmd with
  | none => none
  | some head =>
      if hasArg head e.req.arg then
        some ⟨e, head, (s.rilcmd head).getD .NORESULT, s.formtab head⟩
      else none

/-- The loop of `sendat` over the queue. -/
def sendloop : List (Entry M.Rsp) → State M → State M
  | [], s => { s with cmdqueue := [] }
  | e :: es, s =>
      match getcmd e s with
      | none => sendloop es s
      | some c =>
          if e.req.delay.isSome then
            { s with
              delaying := true
              cmdqueue := { e with req := { e.req with delay := none } } :: es }
          else { s with curr := some c, cmdqueue := es, trace := s.trace ++ [.write e] }

def sendat (s : State M) : State M :=
  if !s.radioready ∨ s.readat ∨ s.curr.isSome ∨ s.delaying then s else sendloop s.cmdqueue s

def request (r : Req M.Rsp) (s : State M) : State M :=
  sendat { s with
    cmdqueue := s.cmdqueue ++ [⟨s.requests.length, r⟩]
    requests := s.requests ++ [⟨s.requests.length, r⟩] }

def regrsp (head : LuaString) (fnc : M.Rsp) (typ : Option RespType) (formt : Option LuaString)
    (s : State M) : State M :=
  let rsptable := Function.update s.rsptable head (some fnc)
  match typ with
  | none => { s with rsptable := rsptable }
  | some t =>
      if s.rilcmd head ≠ none ∧ s.rilcmd head ≠ some t then s
      else { s with
        rilcmd := Function.update s.rilcmd head (some t)
        rsptable := rsptable
        formtab := Function.update s.formtab head formt }

def perform : Call M.Rsp M.Urc → State M → State M
  | .request r, s => request r s
  | .regrsp head fnc typ formt, s => regrsp head fnc typ formt s
  | .regurc head handler, s =>
      { s with urctable := Function.update s.urctable head (some handler) }
  | .deregurc head, s => { s with urctable := Function.update s.urctable head none }

/-- Another module has run. -/
def ran (r : Ran M.Outside M.Rsp M.Urc) (s : State M) : State M :=
  r.calls.foldl (fun s c => perform c s) { s with out := r.out }

/-! ## Received data -/

def callback (c : Curr M.Rsp) (s : State M) : Callback M.Rsp :=
  match c.entry.req.rsp with
  | some f => .currsp f
  | none =>
      match s.rsptable c.cmdhead with
      | some f => .table f
      | none => .defrsp

/-- What the callback does. -/
def runCallback (f : Callback M.Rsp) (cmd : LuaString) (success : Bool)
    (respdata interdata : Option LuaString) (s : State M) : Option (State M) :=
  match f with
  | .currsp f | .table f => (M.rsp f cmd success respdata interdata s.out).map fun r => ran r s
  | .defrsp => some s

/-- `rsp`: the callback runs while its command is still the current one. -/
def rsp (c : Curr M.Rsp) (success : Bool) (respdata interdata : Option LuaString) (s : State M) :
    Option (State M) :=
  let f := callback c s
  let s := { s with trace := s.trace ++ [Event.answer c.entry f] }
  (runCallback f c.entry.req.cmd success respdata interdata s).map fun s =>
    { s with curr := none, interdata := none }

def urc (data : LuaString) (s : State M) : Option (State M) :=
  if data = lua "RDY" then some { s with radioready := true }
  else
    match (smatch1 data (lua "(%+*[%u%d& ]+)")).map fun head => (head, s.urctable head) with
    | some (head, some h) =>
        (M.urc h data head s.out).map fun r => { ran r.1 s with urcfilter := r.2 }
    | _ => some { s with urcfilter := none }

/-- What `procatc` makes of a line that is not a final result. -/
inductive Verdict
  | urc
  | intermediate (d : LuaString)
  | result (success : Bool) (respdata : LuaString)
  /-- `+CIFSR`: the line is the intermediate data, and there is no response. -/
  | address (d : LuaString)
  deriving DecidableEq, Repr

/-- `+CIPSEND` and `+CIPCLOSE`. -/
def linkVerdict (c : Curr M.Rsp) (data : LuaString) : Verdict :=
  let keystr := if c.cmdhead = lua "+CIPSEND" then lua "SEND" else lua "CLOSE"
  match smatch2 data (lua "(%d), *([%u%d :]+)") with
  | some (lid, res) =>
      if (foundAtFront res keystr ∨ foundAtFront res (lua "TCP ERROR") ∨
          foundAtFront res (lua "UDP ERROR") ∨ (smatch data (lua "DATA ACCEPT")).isSome) ∧
          some lid = smatch1 c.entry.req.cmd (lua "=(%d)") then
        .result true data
      else .urc
  | none => if data = lua "+PDP: DEACT" then .result true data else .urc

def isSsl (head : LuaString) : Bool :=
  head = lua "+SSLINIT" ∨ head = lua "+SSLCERT" ∨ head = lua "+SSLCREATE" ∨
    head = lua "+SSLCONNECT" ∨ head = lua "+SSLSEND" ∨ head = lua "+SSLDESTROY" ∨
    head = lua "+SSLTERM"

/-- The heads of type `SPECIAL`. -/
def specialVerdict (c : Curr M.Rsp) (data : LuaString) : Verdict :=
  if c.cmdhead = lua "+CIFSR" then
    match smatch1 data (lua "%d+%.%d+%.%d+%.%d+") with
    | some a => .address a
    | none => .urc
  else if c.cmdhead = lua "+CIPSEND" ∨ c.cmdhead = lua "+CIPCLOSE" then linkVerdict c data
  else if isSsl c.cmdhead then
    if (smatch data (lua "^SSL&%d,")).isSome then
      .result (smatch data (lua "ERROR")).isNone data
    else .urc
  else .urc

def verdict (c : Curr M.Rsp) (interdata : Option LuaString) (data : LuaString) : Verdict :=
  match c.cmdtype with
  | .NORESULT => .urc
  | .NUMBERIC => if smatch1 data (lua "(%x+)") = some data then .intermediate data else .urc
  | .STRING =>
      if (smatch data (c.rspformt.getD (lua "^%w+$"))).isSome then .intermediate data else .urc
  | .SLINE | .MLINE =>
      if interdata = none ∧ foundAtFront data c.cmdhead then .intermediate data else .urc
  | .SPECIAL => specialVerdict c data

/-- The errors that are handled as `ERROR`. -/
def isError (c : Curr M.Rsp) (data : LuaString) : Bool :=
  (smatch data (lua "^%+CMS ERROR:")).isSome ∨ (smatch data (lua "^%+CME ERROR:")).isSome ∨
    data = lua "CONNECT FAIL" ∧ (smatch c.entry.req.cmd (lua "CIPSTART")).isSome

def write (d : LuaString) (s : State M) : State M := { s with trace := s.trace ++ [.data d] }

/-- The answer to `"> "`; to write a missing argument is a Lua error. -/
def prompt (c : Curr M.Rsp) (s : State M) : Option (State M) :=
  if c.cmdhead = lua "+CMGS" then c.entry.req.arg.map fun d => write (d ++ [26]) s
  else if c.cmdhead = lua "+CIPSEND" ∨ c.cmdhead = lua "+SSLSEND" ∨ c.cmdhead = lua "+SSLCERT" then
    c.entry.req.arg.map fun d => write d s
  else some s

/-- `procatc` for a line while command `c` is outstanding. -/
def response (c : Curr M.Rsp) (data : LuaString) (s : State M) : Option (State M) :=
  let data := if isError c data then lua "ERROR" else data
  if data = lua "OK" ∨ data = lua "SHUT OK" then rsp c true (some data) s.interdata s
  else if data = lua "ERROR" ∨ data = lua "NO ANSWER" ∨ data = lua "NO DIALTONE" then
    rsp c false (some data) s.interdata s
  else if data = lua "> " then prompt c s
  else
    match verdict c s.interdata data with
    | .urc => urc data s
    | .intermediate d => some { s with interdata := some d }
    | .result success d => rsp c success (some d) s.interdata s
    | .address d => rsp c true none (some d) s

/-- `procatc` after the data filter: the data is AT text. -/
def text (data : LuaString) (s : State M) : Option (State M) :=
  let data := chomp data
  if data = [] then some s
  else
    match s.curr with
    | none => urc data s
    | some c => response c data s

/-- The lines of a multi-line response that have been received, while it goes on. -/
def collecting (s : State M) : Option LuaString :=
  match s.curr, s.interdata with
  | some c, some d => if c.cmdtype = .MLINE then some d else none
  | _, _ => none

/-- `procatc` from the data filter on. -/
def filtered (data : LuaString) (s : State M) : Option (State M) :=
  match s.urcfilter with
  | some f =>
      (M.filter f data s.out).bind fun r => text r.2.1 { ran r.1 s with urcfilter := r.2.2 }
  | none => text data s

def procatc (data : LuaString) (s : State M) : Option (State M) :=
  match collecting s with
  | some d =>
      if data ≠ lua "OK\r\n" then
        some { s with interdata := some (d ++ lua "\r\n" ++ chomp data) }
      else filtered data s
  | none => filtered data s

/-! ## Runs -/

inductive Act (M : Modules)
  /-- Another module runs between two events. -/
  | task (t : M.Task)
  /-- `atcreader` starts to read, gets a piece of data, and finds nothing more to read. -/
  | read
  | line (data : LuaString)
  | finish
  | delayfunc

def step (s : State M) : Act M → Option (State M)
  | .task t => if s.readat then none else (M.task t s.out).map fun r => ran r s
  | .read => if s.readat then none else some { s with readat := true }
  | .line data => if s.readat ∧ data ≠ [] then procatc data s else none
  | .finish => if s.readat then some (sendat { s with readat := false }) else none
  | .delayfunc => if s.delaying ∧ !s.readat then some (sendat { s with delaying := false }) else none

end LuatAir200.Ril
