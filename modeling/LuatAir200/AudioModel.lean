import LuatAir200.LuaString
import LuatAir200.Machine
import Mathlib.Data.List.Perm.Basic
import Mathlib.Data.Int.Order.Basic

/-!
# Playing of sounds

`audio.lua` plays one sound at a time: a file, a text or a record. A sound of higher priority
takes the place of the one that plays; when that one has to be stopped with an AT command first,
the new one is parked. The requests to play are numbered, and the reports of the core are
given the number of the sound they are about, which the code does not see. `Code` is what the
user's callback does when it is called in the middle of a function.
-/
namespace LuatAir200.Audio
open Lua Machine

/-- `typ` and `path`; the path of a record is its id and its duration, any other path ends the
program. -/
inductive Typ
  | FILE (path : LuaString)
  | TTS (text : LuaString)
  | TTSCC (text : LuaString)
  | RECORD (id duration : ℕ)
  | other
deriving DecidableEq

structure Playback where
  priority : ℤ
  typ : Typ
  vol : Option ℕ
  dup : Bool
  duprd : Option ℕ
  num : ℕ
  /-- Is there a callback? -/
  cb : Bool
deriving DecidableEq

/-- The parameter of a callback. -/
inductive Result
  | ended | failed | preempted
deriving DecidableEq

structure State where
  /-- The variables `spriority`, `styp`, `spath`, `svol`, `scb`, `sdup` and `sduprd`. -/
  cur : Option Playback
  spending : Bool
  playname : Option LuaString
  speakervol : ℕ
  /-- Does a message AUDIO_STOP_REQ wait? -/
  stopreqcb : Bool
  /-- The sounds that are played again when a timer expires. -/
  timers : List Playback
  /-- How many commands AT+QTTS=3 and AT+AUDREC with the action 3 have no response. -/
  ttsstops : ℕ
  recordstops : ℕ
  issued : ℕ
  /-- The sounds with a callback that were started or parked. -/
  accepted : List ℕ
  calls : List (ℕ × Result)
  /-- Those that `stop` was called for. -/
  cancelled : List ℕ
  /-- The sounds whose end or error has been reported. -/
  ends : List ℕ
  errors : List ℕ

def initial : State where
  cur := none
  spending := false
  playname := none
  speakervol := 4
  stopreqcb := false
  timers := []
  ttsstops := 0
  recordstops := 0
  issued := 0
  accepted := []
  calls := []
  cancelled := []
  ends := []
  errors := []

def accept (p : Playback) (s : State) : State :=
  if p.cb then { s with accepted := s.accepted.insert p.num } else s

/-- The call of `scb`, if there is one; `code` is what it does. -/
def answer (r : Result) (code : State → State) (s : State) : State :=
  match s.cur with
  | some c => if c.cb then code { s with calls := s.calls ++ [(c.num, r)] } else s
  | none => s

def setspeakervol (vol : ℕ) (s : State) : State := { s with speakervol := vol }

/-- Is the sound started? `ok` is the result of `audiocore.play`. -/
def begins (typ : Typ) (ok : Bool) : Bool :=
  match typ with
  | .FILE _ => ok
  | .other => false
  | _ => true

/-- A file that is played in a loop is started again by `audiomsg`. -/
def loopname (p : Playback) (playname : Option LuaString) : Option LuaString :=
  match p.typ with
  | .FILE path => if p.dup ∧ p.duprd.getD 0 = 0 then some path else playname
  | _ => playname

def playbegin (ok : Bool) (p : Playback) (s : State) : State :=
  let s := { s with cur := some p, spending := false }
  let s := match p.vol with
    | some vol => setspeakervol vol s
    | none => s
  let s := { s with playname := loopname p s.playname }
  if begins p.typ ok then accept p s else { s with cur := none, spending := false }

/-- `stoptts` or `stoprecord`, for a sound that is stopped with an AT command. -/
def stoptyp (typ : Typ) (s : State) : State :=
  match typ with
  | .TTS _ | .TTSCC _ => { s with ttsstops := s.ttsstops + 1 }
  | .RECORD _ _ => { s with recordstops := s.recordstops + 1 }
  | _ => s

/-- Does `stop` return true? -/
def sync : Typ → Bool
  | .FILE _ | .other => true
  | _ => false

/-- The variables of the sound are cleared. -/
def clear (s : State) : State := { s with cur := none, spending := false }

def stop (s : State) : State :=
  match s.cur with
  | some c => stoptyp c.typ (clear { s with timers := [], playname := none })
  | none => s

def stops (s : State) : Bool :=
  match s.cur with
  | some c => sync c.typ
  | none => true

def play (ok : Bool) (p : Playback) (code : State → State) (s : State) : State :=
  match s.cur with
  | some c =>
      if c.priority < p.priority then
        let s := answer .preempted code s
        if stops s then playbegin ok p (stop s)
        else accept p { stop s with cur := some p, spending := true }
      else if p.priority < c.priority then s
      else if c.dup then playbegin ok p s
      else s
  | none => playbegin ok p s

/-- What the user calls `play` with, and the result of `audiocore.play`. -/
structure Request where
  priority : ℤ
  typ : Typ
  vol : Option ℕ
  cb : Bool
  dup : Bool
  duprd : Option ℕ
  ok : Bool
deriving DecidableEq

def Request.playback (r : Request) (num : ℕ) : Playback :=
  { priority := r.priority, typ := r.typ, vol := r.vol, dup := r.dup, duprd := r.duprd,
    num := num, cb := r.cb }

def ask (r : Request) (code : State → State) (s : State) : State :=
  play r.ok (r.playback s.issued) code { s with issued := s.issued + 1 }

/-- Requests to play, each of them with what the callback does that it calls. -/
inductive Code
  | done
  | play (r : Request) (inside next : Code)

def Code.run : Code → State → State
  | .done, s => s
  | .play r inside next, s => next.run (ask r inside.run s)

/-- `ok` is the result of `audiocore.play` if the sound is played again. -/
def playend (ok : Bool) (code : State → State) (s : State) : State :=
  match s.cur with
  | some c =>
      if c.dup then
        match c.duprd with
        | some _ => { s with timers := s.timers.insert c }
        | none => if sync c.typ then s else play ok c code s
      else clear (answer .ended code (stoptyp c.typ s))
  | none => clear s

def playerr (code : State → State) (s : State) : State :=
  match s.cur with
  | some c => clear (answer .failed code (stoptyp c.typ s))
  | none => clear s

/-- The two reports of MSG_AUDIO. -/
def audiomsgend (ok : Bool) (code : State → State) (s : State) : State :=
  if s.playname ≠ none then s else playend ok code s

def audiomsgerr (code : State → State) (s : State) : State :=
  playerr code { s with playname := none }

def audstopreq (cb : Bool) (s : State) : State :=
  if stops s ∧ cb then stop s else { stop s with stopreqcb := cb }

/-- `ttstopind` and `recordstopind`. -/
def stopind (ok : Bool) (s : State) : State :=
  if s.stopreqcb then { s with stopreqcb := false }
  else match s.cur with
    | some c => if s.spending then playbegin ok c s else s
    | none => s

/-! ## Runs -/

/-- `stop` is called by the program. -/
def cancel (s : State) : State :=
  match s.cur with
  | some c => if c.cb then { s with cancelled := s.cancelled ++ [c.num] } else s
  | none => s

/-- With each action, what the callback does that the action calls, if any. -/
inductive Act
  | play (r : Request) (code : Code)
  | stop
  | stopreq (cb : Bool)
  /-- A file has ended or could not be played. -/
  | fileend (num : ℕ) (ok : Bool) (code : Code)
  | fileerr (num : ℕ) (code : Code)
  /-- The notifications +QTTS and +AUDREC, and the responses to AT+QTTS. -/
  | urcend (num : ℕ) (ok : Bool) (code : Code)
  | urcerr (num : ℕ) (code : Code)
  | ttstopind (ok : Bool)
  | recordstopind (ok : Bool)
  | timer (p : Playback) (ok : Bool) (code : Code)

def step (s : State) : Act → Option State
  | .play r code => some (ask r code.run s)
  | .stop => some (stop (cancel s))
  | .stopreq cb => some (audstopreq cb (cancel s))
  | .fileend num ok code =>
      if num < s.issued then some (audiomsgend ok code.run { s with ends := s.ends ++ [num] })
      else none
  | .fileerr num code =>
      if num < s.issued then some (audiomsgerr code.run { s with errors := s.errors ++ [num] })
      else none
  | .urcend num ok code =>
      if num < s.issued then some (playend ok code.run { s with ends := s.ends ++ [num] }) else none
  | .urcerr num code =>
      if num < s.issued then some (playerr code.run { s with errors := s.errors ++ [num] }) else none
  | .ttstopind ok =>
      if 0 < s.ttsstops then some (stopind ok { s with ttsstops := s.ttsstops - 1 }) else none
  | .recordstopind ok =>
      if 0 < s.recordstops then some (stopind ok { s with recordstops := s.recordstops - 1 })
      else none
  | .timer p ok code =>
      if p ∈ s.timers then some (play ok p code.run { s with timers := s.timers.erase p }) else none

end LuatAir200.Audio
