import LuatAir200.LinkOwner
import LuatAir200.LinkConnecting
import Mathlib.Algebra.Ring.Int.Defs

/-!
# `ntp.lua`: setting the clock once

It asks the servers of its list one after the other, over a link of its own each. `misc.lua`
keeps one callback for all `AT+CCLK` that are outstanding, and answers them in order. The handler
of link events and the handler of datagrams ignore the link that they are told. Other modules use
links of their own and may set the clock too. A datagram may come as long as its link is there.
-/
namespace LuatAir200.Ntp
open Lua Machine

def tserver : List LuaString :=
  [lua "ntp1.aliyun.com", lua "ntp2.aliyun.com", lua "ntp3.aliyun.com", lua "ntp4.aliyun.com",
    lua "ntp5.aliyun.com", lua "ntp7.aliyun.com", lua "ntp6.aliyun.com", lua "s2c.time.edu.cn",
    lua "194.109.22.18", lua "210.72.145.44"]

def REQUEST_RETRY_TIMES : ℕ := 3

/-- Who opened a link, or set the clock. -/
inductive Client
  | ntp
  | other (k : ℕ)
  deriving DecidableEq, Repr

inductive Event
  /-- `connect`, with the index of the server. -/
  | contact (idx : ℕ)
  /-- `NTP_BEGIN_IND` -/
  | beginInd
  /-- `upend`, with the number of the last connection. -/
  | upend (conn : ℕ)
  /-- `NTP_END_IND` -/
  | endInd (suc : Bool)
  deriving DecidableEq, Repr

structure State where
  link : Links.State Client
  loaded : Bool
  tserveridx : ℕ
  lid : Option ℕ
  retries : ℕ
  /-- The timer that calls `retry`. -/
  retrytm : Bool
  /-- The callback that `misc.lua` holds. -/
  setclkcb : Option Client
  /-- Who issued the `AT+CCLK` that are outstanding. -/
  clks : List Client
  conns : ℕ
  /-- An `AT+CCLK` of this module has succeeded. -/
  clockset : Bool
  log : List Event

def boot : State where
  link := Links.boot
  loaded := false
  tserveridx := 1
  lid := none
  retries := 0
  retrytm := false
  setclkcb := none
  clks := []
  conns := 0
  clockset := false
  log := []

def record (e : Event) (s : State) : State := { s with log := s.log ++ [e] }

/-! ## The link interface, for an id that may be `nil` -/

def linkConnect (id : Option ℕ) (prot addr port : LuaString) (s : State) : State :=
  match id with
  | some id => { s with link := (Links.connect id prot addr port s.link).1 }
  | none => s

def linkClose (id : Option ℕ) (s : State) : State :=
  match id with
  | some id => { s with link := (Links.close id s.link).1 }
  | none => s

def linkSend (id : Option ℕ) (data : LuaString) (s : State) : State :=
  match id with
  | some id => { s with link := (Links.send id data s.link).1 }
  | none => s

/-! ## The module -/

def connect (s : State) : State :=
  let r := Links.openlink .ntp true s.link
  let s := { s with link := r.1, lid := r.2, conns := s.conns + 1 }
  linkConnect s.lid (lua "UDP") (tserver.getD (s.tserveridx - 1) []) (lua "123")
    (record (.contact s.tserveridx) s)

def upend (suc : Bool) (s : State) : State :=
  let s := linkClose s.lid { record (.upend s.conns) s with retrytm := false, retries := 0 }
  if suc ∨ tserver.length ≤ s.tserveridx then record (.endInd suc) s
  else connect { s with tserveridx := s.tserveridx + 1 }

/-- The request of 48 bytes. -/
def requestdata : LuaString :=
  [0xE3, 0x00, 0x06, 0xEC] ++ List.replicate 8 0 ++ [0x31, 0x4E, 0x31, 0x34] ++ List.replicate 32 0

def request (s : State) : State := { linkSend s.lid requestdata s with retrytm := true }

def retry (s : State) : State :=
  let s := { s with retrytm := false, retries := s.retries + 1 }
  if s.retries < REQUEST_RETRY_TIMES then request s else upend false s

def nofity (evt : Links.Evt) (val : LuaString) (s : State) : State :=
  match evt with
  | .connect =>
      let s := record .beginInd s
      if val = lua "CONNECT OK" then request s else upend false s
  | .state => if val = lua "CLOSED" then upend false s else s
  | _ => s

/-- `misc.setclock`, for a date in this year, by a caller with a callback or without. -/
def setclock (year : ℤ) (who : Client) (cb : Bool) (s : State) : State :=
  if year - 2000 > 38 then s
  else { s with setclkcb := if cb then some who else none, clks := s.clks ++ [who] }

/-- `misc.rsp` for `AT+CCLK`; a callback of this module is `setclkcb`. -/
def rsp (who : Client) (success : Bool) (s : State) : State :=
  let s := { s with clockset := s.clockset || (who = .ntp && success) }
  if s.setclkcb = some .ntp then upend success s else s

def byte (data : LuaString) (i : ℕ) : ℤ := (data.getD (i - 1) 0).toNat

/-- The seconds since 1970. -/
def seconds (data : LuaString) : ℤ :=
  (byte data 41 - 0x83) * 2 ^ 24 + (byte data 42 - 0xAA) * 2 ^ 16 + (byte data 43 - 0x7E) * 2 ^ 8 +
    (byte data 44 - 0x80) + 1

/-- The last second of the 32-bit count is in 2038, and no date before it is later. -/
def isYear (seconds year : ℤ) : Bool := seconds < 2 ^ 31 → year ≤ 2038

def recv (data : LuaString) (year : ℤ) (s : State) : State :=
  let s := { s with retrytm := false }
  if data.length ≠ 48 then upend false s else setclock year .ntp true s

/-! ## Runs -/

inductive Act
  | load
  /-- An event of `link.lua`, or a call that another module makes. -/
  | link (a : Links.Act Client)
  /-- A datagram comes over link `id`; `os.date` gives this year. -/
  | recv (id : ℕ) (data : LuaString) (year : ℤ)
  | expire
  /-- The answer to the oldest `AT+CCLK`. -/
  | respond (success : Bool)
  /-- Another module calls `misc.setclock`. -/
  | setclock (k : ℕ) (year : ℤ) (cb : Bool)

/-- Other modules do not open links with `nofity`, and use their own links only. -/
def foreign (s : State) : Links.Act Client → Bool
  | .openid _ n _ => n ≠ .ntp
  | .openlink n _ => n ≠ .ntp
  | .close id => Links.owner id s.link ≠ some .ntp
  | .connect id _ _ _ => Links.owner id s.link ≠ some .ntp
  | .disconnect id => Links.owner id s.link ≠ some .ntp
  | .send id _ => Links.owner id s.link ≠ some .ntp
  | _ => true

def isRet : Links.Act Client → Bool
  | .ret => true
  | _ => false

/-- What `nofity` is told when `link.lua` goes from `l` to `l'`. -/
def told (l : Links.State Client) (a : Links.Act Client) (l' : Links.State Client) :
    Option (Links.Notice Client) :=
  if l.frame.isNone ∨ isRet a then
    match l'.frame with
    | some (n, _) => if n.notify = .ntp then some n else none
    | none => none
  else none

/-- After a step of `link.lua`. -/
def deliver (a : Links.Act Client) (l' : Links.State Client) (s : State) : State :=
  match told s.link a l' with
  | some n => nofity n.evt n.val { s with link := l' }
  | none => { s with link := l' }

def step (s : State) : Act → Option State
  | .load => if s.loaded then none else some (connect { s with loaded := true })
  | .link a =>
      if foreign s a then
        (Links.step s.link a).map fun l => if s.loaded then deliver a l s else { s with link := l }
      else none
  | .recv id data year =>
      if s.loaded ∧ s.link.frame.isNone ∧ Links.owner id s.link = some .ntp ∧
          isYear (seconds data) year then
        some (recv data year s)
      else none
  | .expire => if s.retrytm then some (retry { s with retrytm := false }) else none
  | .respond success =>
      match s.clks with
      | [] => none
      | who :: clks => some (rsp who success { s with clks := clks })
  | .setclock k year cb => some (setclock year (.other k) cb s)

/-- The four bytes count to a date before 2037. -/
theorem seconds_lt (data : LuaString) : seconds data < 2 ^ 31 := by
  have hb (i : ℕ) : byte data i ≤ 255 := by
    have := (data.getD (i - 1) 0).toNat_lt
    unfold byte
    omega
  have h1 := hb 41
  have h2 := hb 42
  have h3 := hb 43
  have h4 := hb 44
  unfold seconds
  omega

end LuatAir200.Ntp
