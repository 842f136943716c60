import LuatAir200.LuaTable
import LuatAir200.Machine
import Mathlib.Data.List.Perm.Basic
import Mathlib.Logic.Function.Basic

/-!
# The timer tables of sys.lua over the RTOS timers

sys.lua keeps three tables indexed by timer id: the callback in `tpool`, its
arguments in `para` and the period of a loop timer in `loop`. The RTOS runs at
most 30 timers and sends an expiry message for each one that fires. A callback is
an arbitrary sequence of API calls, so it is not a function here: `timerfnc`
stops where it calls the callback, further actions follow, and `ret` resumes it.
The id counter is a natural number; the firmware's 32-bit counter agrees with it
up to 2^31 starts.
-/
namespace LuatAir200.Timer
open Lua

/-- The longest single step, in milliseconds. -/
def MAXMS : ℕ := 0x7fffffff / 17

/-- The RTOS timer slots of platform_rtos.c. -/
def MAX_LUA_TIMERS : ℕ := 30

/-- `luaTimerParam`: the ids with a running RTOS timer, and their durations. -/
structure Slots where
  used : List (ℕ × ℕ)
  nodup : (used.map Prod.fst).Nodup
  bounded : used.length ≤ MAX_LUA_TIMERS

namespace Slots

def ids (s : Slots) : List ℕ := s.used.map Prod.fst

def empty : Slots := ⟨[], List.nodup_nil, Nat.zero_le _⟩

/-- `platform_rtos_stop_timer`; also what an expiry does to the slot. -/
def stop (tid : ℕ) (s : Slots) : Slots where
  used := s.used.filter fun p => p.1 ≠ tid
  nodup := s.nodup.sublist (List.filter_sublist.map _)
  bounded := Nat.le_trans (List.length_filter_le _ _) s.bounded

@[simp] theorem mem_ids_stop {tid k : ℕ} {s : Slots} :
    k ∈ (s.stop tid).ids ↔ k ∈ s.ids ∧ k ≠ tid := by
  simp only [ids, stop, List.mem_map, List.mem_filter]
  constructor
  · rintro ⟨p, ⟨hp, hne⟩, rfl⟩
    exact ⟨⟨p, hp, rfl⟩, by simpa using hne⟩
  · rintro ⟨⟨p, hp, rfl⟩, hne⟩
    exact ⟨p, ⟨hp, by simpa using hne⟩, rfl⟩

/-- `platform_rtos_start_timer`: a running timer of the same id is stopped first;
without a free slot the start fails. -/
def start (tid ms : ℕ) (s : Slots) : Option Slots :=
  if h : (s.stop tid).used.length < MAX_LUA_TIMERS then
    some {
      used := (tid, ms) :: (s.stop tid).used
      nodup := by
        rw [List.map_cons, List.nodup_cons]
        exact ⟨fun hm => (mem_ids_stop.mp hm).2 rfl, (s.stop tid).nodup⟩
      bounded := h }
  else none

theorem mem_ids_start {tid ms k : ℕ} {s t : Slots} (h : s.start tid ms = some t) :
    k ∈ t.ids ↔ k = tid ∨ k ∈ s.ids := by
  unfold start at h
  split at h
  · cases h
    change k ∈ tid :: (s.stop tid).ids ↔ _
    rw [List.mem_cons, mem_ids_stop]
    by_cases hk : k = tid <;> simp [hk]
  · cases h

end Slots

/-- An entry of `tpool`: the callback, or the record of a timer longer than `MAXMS`. -/
inductive Entry (φ : Type)
  | fn (cb : φ)
  | split (cb : φ) (step total times : ℕ)

def Entry.cb {φ : Type} : Entry φ → φ
  | .fn cb => cb
  | .split cb _ _ _ => cb

structure State (φ α : Type) where
  uniquetid : ℕ
  tpool : ℕ → Option (Entry φ)
  para : ℕ → Option (Args α)
  loop : ℕ → Option ℕ
  slots : Slots
  /-- Expiry messages that wait to be processed. -/
  msgs : List ℕ
  /-- The timer whose callback `timerfnc` is executing. -/
  running : Option ℕ
  /-- History: the callbacks run so far. -/
  ran : List (ℕ × φ × Args α)
  /-- History: what each timer was started with. -/
  started : ℕ → Option (φ × Args α)
  /-- History: the timers that a stop has removed. -/
  stopped : ℕ → Bool
  /-- History: has a call of `rtos.timer_start` failed? -/
  failed : Bool

variable {φ α : Type}

def initial : State φ α where
  uniquetid := 0
  tpool := fun _ => none
  para := fun _ => none
  loop := fun _ => none
  slots := Slots.empty
  msgs := []
  running := none
  ran := []
  started := fun _ => none
  stopped := fun _ => false
  failed := false

/-- The keys of `tpool`; `pairs` visits them in some order. -/
def pairs (s : State φ α) : List ℕ :=
  (List.range (s.uniquetid + 1)).filter fun k => (s.tpool k).isSome

def rtosStart (tid ms : ℕ) (s : State φ α) : State φ α :=
  match s.slots.start tid ms with
  | some slots => { s with slots := slots }
  | none => { s with failed := true }

def rtosStop (tid : ℕ) (s : State φ α) : State φ α := { s with slots := s.slots.stop tid }

/-- `tpool[k],para[k],loop[k] = nil`, in a stop. -/
def forget (k : ℕ) (s : State φ α) : State φ α :=
  { s with
    tpool := Function.update s.tpool k none
    para := Function.update s.para k none
    loop := Function.update s.loop k none
    stopped := Function.update s.stopped k true }

section
variable [DecidableEq φ] [DecidableEq α]

/-- Are two argument tables the same up to their lengths? -/
def comp_table (t1 : Args α) (t2 : Option (Args α)) : Bool :=
  match t2 with
  | none => len t1 == 0
  | some t2 =>
      len t1 == len t2 && (List.range (len t1)).all fun i => t1[i]?.join == t2[i]?.join

/-- Is `k` a timer with callback `val` and arguments `arg`? -/
def isTimer (val : φ) (arg : Args α) (s : State φ α) (k : ℕ) : Bool :=
  match s.tpool k with
  | some e => e.cb = val && comp_table arg (s.para k)
  | none => false

/-- `timer_stop` with a timer id. -/
def timer_stop_id (tid : ℕ) (s : State φ α) : State φ α := forget tid s

/-- `timer_stop` with a callback and its arguments; `keys` is the order of `pairs`. -/
def timer_stop (val : φ) (arg : Args α) (keys : List ℕ) (s : State φ α) : State φ α :=
  match keys.find? (isTimer val arg s) with
  | some k => forget k (rtosStop k s)
  | none => s

def timer_stop_all (fnc : φ) : List ℕ → State φ α → State φ α
  | [], s => s
  | k :: keys, s =>
      match s.tpool k with
      | some e =>
          if e.cb = fnc then timer_stop_all fnc keys (forget k (rtosStop k s))
          else timer_stop_all fnc keys s
      | none => timer_stop_all fnc keys s

def timer_is_active_id (tid : ℕ) (s : State φ α) : Bool := (s.tpool tid).isSome

/-- The search for an unused id behind the counter. -/
def freeTid (tpool : ℕ → Option (Entry φ)) : ℕ → ℕ → ℕ
  | 0, tid => tid + 1
  | fuel + 1, tid => if (tpool (tid + 1)).isNone then tid + 1 else freeTid tpool fuel (tid + 1)

/-- What `timer_start` puts into `tpool`, and the duration of the first step. -/
def plan (fnc : φ) (ms : ℕ) : Entry φ × ℕ :=
  if MAXMS < ms then
    let count := ms / MAXMS + (if ms % MAXMS = 0 then 0 else 1)
    let step := ms / count
    (.split fnc step count 0, step)
  else (.fn fnc, ms)

/-- The new timer takes an unused id and its place in `tpool`. -/
def enter (fnc : φ) (ms : ℕ) (arg : Args α) (s : State φ α) : State φ α :=
  let tid := freeTid s.tpool (pairs s).length s.uniquetid
  { s with
    uniquetid := tid
    tpool := Function.update s.tpool tid (some (plan fnc ms).1)
    started := Function.update s.started tid (some (fnc, arg))
    stopped := Function.update s.stopped tid false }

/-- `timer_start`, with the id it returns. When `rtos.timer_start` fails it returns
`nil` and leaves its entry in `tpool`. -/
def timer_start (fnc : φ) (ms : ℕ) (arg : Args α) (keys : List ℕ) (s : State φ α) :
    State φ α × Option ℕ :=
  let s := if arg.length = 0 then timer_stop fnc [] keys s
    else timer_stop fnc (unpack arg) keys s
  let s := enter fnc ms arg s
  let tid := s.uniquetid
  match s.slots.start tid (plan fnc ms).2 with
  | none => ({ s with failed := true }, none)
  | some slots =>
      let s := { s with slots := slots }
      if arg.length ≠ 0 then ({ s with para := Function.update s.para tid (some arg) }, some tid)
      else (s, some tid)

def timer_loop_start (fnc : φ) (ms : ℕ) (arg : Args α) (keys : List ℕ) (s : State φ α) :
    State φ α × Option ℕ :=
  match timer_start fnc ms (unpack arg) keys s with
  | (s, some tid) => ({ s with loop := Function.update s.loop tid (some ms) }, some tid)
  | (s, none) => (s, none)

end

/-- The end of `timerfnc` up to the call of the callback: a one-shot timer leaves
the tables before its callback runs. -/
def fire (tid : ℕ) (cb : φ) (s : State φ α) : State φ α :=
  let pval := s.para tid
  let s := if (s.loop tid).isNone then
      { s with
        tpool := Function.update s.tpool tid none
        para := Function.update s.para tid none }
    else s
  { s with running := some tid, ran := s.ran ++ [(tid, cb, (pval.map unpack).getD [])] }

/-- `timerfnc` for an expiry message of `tid`. -/
def timerfnc (tid : ℕ) (s : State φ α) : State φ α :=
  match s.tpool tid with
  | none => s
  | some (.fn cb) => fire tid cb s
  | some (.split cb step total times) =>
      let s := { s with
        tpool := Function.update s.tpool tid (some (.split cb step total (times + 1))) }
      if times + 1 < total then rtosStart tid step s else fire tid cb s

/-- The rest of `timerfnc` after the callback: a loop timer is started again. -/
def resume (tid : ℕ) (s : State φ α) : State φ α :=
  let s := { s with running := none }
  match s.loop tid with
  | some ms => rtosStart tid ms s
  | none => s

inductive Act (φ α : Type)
  | start (fnc : φ) (ms : ℕ) (arg : Args α) (keys : List ℕ)
  | loopStart (fnc : φ) (ms : ℕ) (arg : Args α) (keys : List ℕ)
  | stopId (tid : ℕ)
  | stop (fnc : φ) (arg : Args α) (keys : List ℕ)
  | stopAll (fnc : φ) (keys : List ℕ)
  /-- The RTOS timer fires: its slot is freed and its message is sent. -/
  | expire (tid : ℕ)
  /-- An expiry message is processed, in any order. -/
  | deliver (tid : ℕ)
  /-- The callback returns. -/
  | ret

/-- One action. API calls are made at top level and inside callbacks alike; the
next message is processed only after the callback has returned. A duration of 0
fails the assertion of `timer_start`. -/
def step [DecidableEq φ] [DecidableEq α] (s : State φ α) : Act φ α → Option (State φ α)
  | .start fnc ms arg keys =>
      if 0 < ms ∧ keys.Perm (pairs s) then some (timer_start fnc ms arg keys s).1 else none
  | .loopStart fnc ms arg keys =>
      if 0 < ms ∧ keys.Perm (pairs s) then some (timer_loop_start fnc ms arg keys s).1 else none
  | .stopId tid => some (timer_stop_id tid s)
  | .stop fnc arg keys => if keys.Perm (pairs s) then some (timer_stop fnc arg keys s) else none
  | .stopAll fnc keys => if keys.Perm (pairs s) then some (timer_stop_all fnc keys s) else none
  | .expire tid =>
      if tid ∈ s.slots.ids then
        some { s with slots := s.slots.stop tid, msgs := s.msgs ++ [tid] }
      else none
  | .deliver tid =>
      if tid ∈ s.msgs ∧ s.running = none then
        some (timerfnc tid { s with msgs := s.msgs.erase tid })
      else none
  | .ret => s.running.map fun tid => resume tid s

end LuatAir200.Timer
