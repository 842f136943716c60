import LuatAir200.Machine
import Mathlib.Data.List.FinRange
import Mathlib.Logic.Function.Basic
import Mathlib.Tactic.SplitIfs

/-!
# Timers of the operating system

`platform_rtos.c`: the Lua task keeps its timers in slots. The callback of an expired timer
posts a message and then, under a semaphore, looks for the slot with its handle. Between the
two steps the Lua task may free the slot and start another timer, and `create_timer` may give
it the handle that has just become free. The numbers of the timers, which the code does not
have, tell them apart.
-/
namespace LuatAir200.Rtos
open Machine

def MAX_LUA_TIMERS : ℕ := 30
def OPENAT_INVALID_HANDLE : ℕ := 0

structure LuaTimerParam where
  hOsTimer : ℕ
  luaTimerId : ℤ

/-- A timer that is allocated in the operating system; `no` counts the timers created. -/
structure OsTimer where
  pParameter : ℤ
  high : Bool
  running : Bool
  no : ℕ

/-- A callback that has posted its message and has not released the slot yet. -/
structure Callback where
  hTimer : ℕ
  timer_id : ℤ
  no : ℕ
  deriving DecidableEq

/-- Where the Lua task is: in `platform_rtos_start_timer` before the nested
`platform_rtos_stop_timer`, before its locked part, or after a failed `start_timer`. -/
inductive Task
  | idle
  | restart (id : ℤ) (high : Bool)
  | start (id : ℤ) (high : Bool)
  | discard (hTimer : ℕ)

/-- `posted` has the messages with their priority, `freed` has for each slot freed by a
callback the number of the callback's timer and that of the timer deleted. -/
structure State where
  luaTimerParam : Fin MAX_LUA_TIMERS → LuaTimerParam
  os : ℕ → Option OsTimer
  created : ℕ
  task : Task
  callbacks : List Callback
  posted : List (Bool × ℤ)
  freed : List (ℕ × ℕ)

def init : State :=
  ⟨fun _ => ⟨OPENAT_INVALID_HANDLE, 0⟩, fun _ => none, 0, .idle, [], [], []⟩

/-- The slot is used for the timer `id`. -/
def LuaTimerParam.IsFor (p : LuaTimerParam) (id : ℤ) : Prop :=
  p.hOsTimer ≠ OPENAT_INVALID_HANDLE ∧ p.luaTimerId = id

instance (p : LuaTimerParam) (id : ℤ) : Decidable (p.IsFor id) :=
  inferInstanceAs (Decidable (_ ∧ _))

/-- The first slot that meets a condition. -/
def first (s : State) (p : LuaTimerParam → Bool) : Option (Fin MAX_LUA_TIMERS) :=
  (List.finRange MAX_LUA_TIMERS).find? fun index => p (s.luaTimerParam index)

def delete_timer (hTimer : ℕ) (s : State) : State :=
  { s with os := Function.update s.os hTimer none }

/-- Delete the OS timer of a slot and mark the slot as free. -/
def free (index : Fin MAX_LUA_TIMERS) (s : State) : State :=
  let p := s.luaTimerParam index
  { delete_timer p.hOsTimer s with
    luaTimerParam := Function.update s.luaTimerParam index
      { p with hOsTimer := OPENAT_INVALID_HANDLE } }

/-- The locked part of `platform_rtos_stop_timer`. -/
def stop_timer (id : ℤ) (s : State) : State :=
  match first s fun p => p.IsFor id with
  | some index => free index s
  | none => s

/-- `platform_rtos_start_timer` up to the semaphore. -/
def start_timer (id : ℤ) (high : Bool) (s : State) : State :=
  match first s fun p => p.IsFor id with
  | some _ => { s with task := .restart id high }
  | none => { s with task := .start id high }

/-- The locked part of `platform_rtos_start_timer`: `hTimer` is what `create_timer` returns
and `started` what `start_timer` does. -/
def create_timer (id : ℤ) (high : Bool) (hTimer : ℕ) (started : Bool) (s : State) : State :=
  match first s fun p => p.hOsTimer = OPENAT_INVALID_HANDLE with
  | none => { s with task := .idle }
  | some index =>
      if hTimer = OPENAT_INVALID_HANDLE then { s with task := .idle }
      else
        let s := { s with
          os := Function.update s.os hTimer (some ⟨id, high, started, s.created⟩)
          created := s.created + 1 }
        if started then
          { s with
            luaTimerParam := Function.update s.luaTimerParam index ⟨hTimer, id⟩
            task := .idle }
        else { s with task := .discard hTimer }

/-- The first step of a callback. -/
def post (hTimer : ℕ) (t : OsTimer) (s : State) : State :=
  { s with
    os := Function.update s.os hTimer (some { t with running := false })
    callbacks := s.callbacks ++ [⟨hTimer, t.pParameter, t.no⟩]
    posted := s.posted ++ [(t.high, t.pParameter)] }

/-- The second step of a callback, which holds the semaphore. -/
def release (c : Callback) (s : State) : State :=
  let s := { s with callbacks := s.callbacks.erase c }
  match first s fun p => p.hOsTimer = c.hTimer with
  | some index =>
      { free index s with
        freed := s.freed ++ ((s.os c.hTimer).map fun t => (c.no, t.no)).toList }
  | none => s

inductive Act
  /-- Calls of the Lua task. -/
  | start (id : ℤ) (high : Bool)
  | stop (id : ℤ)
  /-- The Lua task goes on in `platform_rtos_start_timer`. -/
  | stopOld
  | create (hTimer : ℕ) (started : Bool)
  | discard
  | expire (hTimer : ℕ)
  | release (c : Callback)

/-- `create_timer` may return any handle that is not allocated, or the invalid one. -/
def step (s : State) : Act → Option State
  | .start id high =>
      match s.task with
      | .idle => some (start_timer id high s)
      | _ => none
  | .stop id =>
      match s.task with
      | .idle => some (stop_timer id s)
      | _ => none
  | .stopOld =>
      match s.task with
      | .restart id high => some { stop_timer id s with task := .start id high }
      | _ => none
  | .create hTimer started =>
      match s.task with
      | .start id high =>
          if (s.os hTimer).isNone then some (create_timer id high hTimer started s) else none
      | _ => none
  | .discard =>
      match s.task with
      | .discard hTimer => some { delete_timer hTimer s with task := .idle }
      | _ => none
  | .expire hTimer =>
      match s.os hTimer with
      | some t => if t.running then some (post hTimer t s) else none
      | none => none
  | .release c => if c ∈ s.callbacks then some (release c s) else none

section Step

variable {s t : State}

attribute [local simp] step

theorem step_start {id : ℤ} {high : Bool} (h : step s (.start id high) = some t) :
    s.task = .idle ∧ t = start_timer id high s := by
  simp only [step] at h
  split at h
  case h_1 ht => exact ⟨ht, (Option.some.inj h).symm⟩
  case h_2 => cases h

theorem step_stop {id : ℤ} (h : step s (.stop id) = some t) : t = stop_timer id s := by
  simp only [step] at h
  split at h
  case h_1 => exact (Option.some.inj h).symm
  case h_2 => cases h

theorem step_stopOld (h : step s .stopOld = some t) :
    ∃ id high, s.task = .restart id high ∧
      t = { stop_timer id s with task := .start id high } := by
  simp only [step] at h
  split at h
  case h_1 id high ht => exact ⟨id, high, ht, (Option.some.inj h).symm⟩
  case h_2 => cases h

theorem step_create {hTimer : ℕ} {started : Bool} (h : step s (.create hTimer started) = some t) :
    ∃ id high, s.task = .start id high ∧ s.os hTimer = none ∧
      t = create_timer id high hTimer started s := by
  simp only [step] at h
  split at h
  case h_1 id high ht =>
    simp only [Option.ite_none_right_eq_some, Option.isNone_iff_eq_none, Option.some.injEq] at h
    exact ⟨id, high, ht, h.1, h.2.symm⟩
  case h_2 => cases h

theorem step_discard (h : step s .discard = some t) :
    ∃ hTimer, s.task = .discard hTimer ∧ t = { delete_timer hTimer s with task := .idle } := by
  simp only [step] at h
  split at h
  case h_1 hTimer ht => exact ⟨hTimer, ht, (Option.some.inj h).symm⟩
  case h_2 => cases h

theorem step_expire {hTimer : ℕ} (h : step s (.expire hTimer) = some t) :
    ∃ o, s.os hTimer = some o ∧ t = post hTimer o s := by
  simp only [step] at h
  split at h
  case h_1 o ho =>
    simp only [Option.ite_none_right_eq_some, Option.some.injEq] at h
    exact ⟨o, ho, h.2.symm⟩
  case h_2 => cases h

theorem step_release {c : Callback} (h : step s (.release c) = some t) :
    c ∈ s.callbacks ∧ t = release c s := by
  simp only [step, Option.ite_none_right_eq_some, Option.some.injEq] at h
  exact ⟨h.1, h.2.symm⟩

end Step

/-! ## Invariants -/

def LuaTimerParam.Used (p : LuaTimerParam) : Prop := p.hOsTimer ≠ OPENAT_INVALID_HANDLE

/-- Each id and each handle has at most one slot, the used slots are those of the allocated
timers, and each of these runs or has its callback under way. -/
structure Slots (s : State) : Prop where
  ids : ∀ i j, (s.luaTimerParam i).Used → (s.luaTimerParam j).Used →
    (s.luaTimerParam i).luaTimerId = (s.luaTimerParam j).luaTimerId → i = j
  handles : ∀ i j, (s.luaTimerParam i).Used →
    (s.luaTimerParam i).hOsTimer = (s.luaTimerParam j).hOsTimer → i = j
  allocated : ∀ i, (s.luaTimerParam i).Used → s.os (s.luaTimerParam i).hOsTimer ≠ none
  slot : ∀ h t, s.os h = some t →
    (∃ i, (s.luaTimerParam i).hOsTimer = h ∧ (s.luaTimerParam i).luaTimerId = t.pParameter ∧
      (t.running = true ∨ ∃ c ∈ s.callbacks, c.hTimer = h ∧ c.no = t.no)) ∨
      s.task = .discard h

/-- No callback has deleted a timer that was started after its own. -/
def Rightful (s : State) : Prop := ∀ p ∈ s.freed, p.2 ≤ p.1

/-- What the Lua task knows between its steps, and that handles and numbers are not used
before they are given out. -/
structure Inv (s : State) : Prop extends Slots s where
  invalid : s.os OPENAT_INVALID_HANDLE = none
  fresh : ∀ id high, s.task = .start id high → ∀ i, ¬(s.luaTimerParam i).IsFor id
  discarding : ∀ h, s.task = .discard h →
    h ≠ OPENAT_INVALID_HANDLE ∧ ∀ i, (s.luaTimerParam i).hOsTimer ≠ h
  valid : ∀ c ∈ s.callbacks, c.hTimer ≠ OPENAT_INVALID_HANDLE
  older : (∀ h t, s.os h = some t → t.no < s.created) ∧ ∀ c ∈ s.callbacks, c.no < s.created

/-- Each callback is that of the timer which has its handle now. -/
def Current (s : State) : Prop :=
  ∀ c ∈ s.callbacks, ∀ t, s.os c.hTimer = some t → t.no = c.no

theorem first_eq_some {s : State} {p : LuaTimerParam → Bool} {index : Fin MAX_LUA_TIMERS}
    (h : first s p = some index) : p (s.luaTimerParam index) = true := by
  have := List.find?_some h
  simpa using this

theorem first_eq_none {s : State} {p : LuaTimerParam → Bool} :
    first s p = none ↔ ∀ index, ¬p (s.luaTimerParam index) = true := by
  simp [first, List.find?_eq_none]

theorem inv_init : Inv init where
  ids := fun _ _ h => absurd rfl h
  handles := fun _ _ h => absurd rfl h
  allocated := fun _ h => absurd rfl h
  slot := nofun
  invalid := rfl
  fresh := nofun
  discarding := nofun
  valid := nofun
  older := ⟨nofun, nofun⟩

section Free

variable {s : State} {i : Fin MAX_LUA_TIMERS}

theorem free_self : ((free i s).luaTimerParam i).hOsTimer = OPENAT_INVALID_HANDLE := by
  simp [free]

theorem free_other {j : Fin MAX_LUA_TIMERS} (h : j ≠ i) :
    (free i s).luaTimerParam j = s.luaTimerParam j := by
  simp [free, Function.update_of_ne h]

/-- A slot that is still used after one has been freed is another one. -/
theorem used_free {j : Fin MAX_LUA_TIMERS} (h : ((free i s).luaTimerParam j).Used) :
    j ≠ i ∧ (s.luaTimerParam j).Used := by
  have hj : j ≠ i := by
    rintro rfl
    exact h free_self
  rw [free_other hj] at h
  exact ⟨hj, h⟩

theorem os_free {h : ℕ} {t : OsTimer} :
    (free i s).os h = some t ↔ h ≠ (s.luaTimerParam i).hOsTimer ∧ s.os h = some t := by
  simp only [free, delete_timer, Function.update_apply]
  split_ifs with he
  · simp [he]
  · simp [he]

theorem Inv.free (h : Inv s) (hu : (s.luaTimerParam i).Used) : Inv (Rtos.free i s) where
  ids := by
    intro j k hj hk he
    obtain ⟨hji, hj⟩ := used_free hj
    obtain ⟨hki, hk⟩ := used_free hk
    rw [free_other hji, free_other hki] at he
    exact h.ids j k hj hk he
  handles := by
    intro j k hj he
    obtain ⟨hji, hj'⟩ := used_free hj
    have hki : k ≠ i := by
      rintro rfl
      rw [free_self] at he
      exact hj he
    rw [free_other hji, free_other hki] at he
    exact h.handles j k hj' he
  allocated := by
    intro j hj
    obtain ⟨hji, hj⟩ := used_free hj
    rw [free_other hji]
    obtain ⟨t, ht⟩ := Option.ne_none_iff_exists'.mp (h.allocated j hj)
    have : (Rtos.free i s).os (s.luaTimerParam j).hOsTimer = some t := by
      rw [os_free]
      exact ⟨fun he => hji (h.handles j i hj he), ht⟩
    rw [this]
    exact Option.some_ne_none t
  slot := by
    intro h' t ht
    obtain ⟨hne, ht⟩ := os_free.mp ht
    obtain ⟨k, hk, hkt⟩ | hd := h.slot h' t ht
    · have hki : k ≠ i := by
        rintro rfl
        exact hne hk.symm
      left
      refine ⟨k, ?_⟩
      rw [free_other hki]
      exact ⟨hk, hkt⟩
    · exact .inr hd
  invalid := by
    by_contra hn
    obtain ⟨t, ht⟩ := Option.ne_none_iff_exists'.mp hn
    have := (os_free.mp ht).2
    rw [h.invalid] at this
    cases this
  fresh := by
    rintro id high ht j ⟨hj, hid⟩
    obtain ⟨hji, hj⟩ := used_free hj
    rw [free_other hji] at hid
    exact h.fresh id high ht j ⟨hj, hid⟩
  discarding := by
    intro h' hd
    obtain ⟨h0, hall⟩ := h.discarding h' hd
    refine ⟨h0, fun j => ?_⟩
    by_cases hji : j = i
    · rw [hji, free_self]
      exact h0.symm
    · rw [free_other hji]
      exact hall j
  valid := h.valid
  older := by
    refine ⟨fun h' t ht => ?_, h.older.2⟩
    exact h.older.1 h' t (os_free.mp ht).2

theorem Current.free (h : Current s) : Current (Rtos.free i s) :=
  fun c hc t ht => h c hc t (os_free.mp ht).2

end Free

theorem Inv.stop_timer {s : State} (h : Inv s) (id : ℤ) : Inv (Rtos.stop_timer id s) := by
  unfold Rtos.stop_timer
  split
  case h_1 index hf =>
    have := first_eq_some hf
    exact h.free (of_decide_eq_true this).1
  case h_2 => exact h

/-- After `platform_rtos_stop_timer` no slot is used for the timer. -/
theorem Inv.stopped {s : State} (h : Inv s) (id : ℤ) (i : Fin MAX_LUA_TIMERS) :
    ¬((Rtos.stop_timer id s).luaTimerParam i).IsFor id := by
  unfold Rtos.stop_timer
  split
  case h_1 index hf =>
    have hx : (s.luaTimerParam index).IsFor id := of_decide_eq_true (first_eq_some hf)
    rintro ⟨hi, hid⟩
    obtain ⟨hne, hi⟩ := used_free hi
    rw [free_other hne] at hid
    exact hne (h.ids i index hi hx.1 (hid.trans hx.2.symm))
  case h_2 hf =>
    intro hi
    exact first_eq_none.mp hf i (decide_eq_true hi)

theorem Current.stop_timer {s : State} (h : Current s) (id : ℤ) :
    Current (Rtos.stop_timer id s) := by
  unfold Rtos.stop_timer
  split
  · exact h.free
  · exact h

/-- The task goes on without a timer in its hands. -/
theorem Inv.goto {s : State} (h : Inv s) {task : Task}
    (hd : ∀ h', s.task = .discard h' → s.os h' = none)
    (hs : ∀ id high, task = .start id high → ∀ i, ¬(s.luaTimerParam i).IsFor id)
    (hn : ∀ h', task ≠ .discard h') : Inv { s with task := task } where
  ids := h.ids
  handles := h.handles
  allocated := h.allocated
  slot := by
    intro h' t ht
    obtain hi | hdis := h.slot h' t ht
    · exact .inl hi
    · have := hd h' hdis
      rw [ht] at this
      cases this
  invalid := h.invalid
  fresh := hs
  discarding := fun h' he => absurd he (hn h')
  valid := h.valid
  older := h.older

/-- A handle that is not allocated is in no slot. -/
theorem Inv.unslotted {s : State} (h : Inv s) {hTimer : ℕ} (h0 : hTimer ≠ OPENAT_INVALID_HANDLE)
    (hos : s.os hTimer = none) (i : Fin MAX_LUA_TIMERS) :
    (s.luaTimerParam i).hOsTimer ≠ hTimer := by
  intro hi
  have hu : (s.luaTimerParam i).Used := by
    rw [LuaTimerParam.Used, hi]
    exact h0
  apply h.allocated i hu
  rw [hi, hos]

/-- What `create_timer` adds to the allocated timers. -/
theorem os_create {os : ℕ → Option OsTimer} {hTimer h : ℕ} {t' t : OsTimer}
    (ht : Function.update os hTimer (some t') h = some t) :
    h = hTimer ∧ t = t' ∨ h ≠ hTimer ∧ os h = some t := by
  by_cases he : h = hTimer
  · rw [he, Function.update_self, Option.some.injEq] at ht
    exact .inl ⟨he, ht.symm⟩
  · rw [Function.update_of_ne he] at ht
    exact .inr ⟨he, ht⟩

theorem Inv.older_create {s : State} (h : Inv s) {hTimer : ℕ} {t' : OsTimer}
    (ht' : t'.no = s.created) :
    (∀ h' t, Function.update s.os hTimer (some t') h' = some t → t.no < s.created + 1) ∧
      ∀ c ∈ s.callbacks, c.no < s.created + 1 := by
  constructor
  · intro h' t ht
    obtain ⟨-, rfl⟩ | ⟨-, ht⟩ := os_create ht
    · omega
    · have := h.older.1 h' t ht
      omega
  · intro c hc
    have := h.older.2 c hc
    omega

/-- The new timer of a call whose `start_timer` fails. -/
theorem Inv.failed {s : State} (h : Inv s) {id : ℤ} {high : Bool} {hTimer : ℕ}
    (ht : s.task = .start id high) (hos : s.os hTimer = none)
    (h0 : hTimer ≠ OPENAT_INVALID_HANDLE) :
    Inv { s with
      os := Function.update s.os hTimer (some ⟨id, high, false, s.created⟩)
      created := s.created + 1
      task := .discard hTimer } where
  ids := h.ids
  handles := h.handles
  allocated := by
    intro i hi
    simp only [Function.update_of_ne (h.unslotted h0 hos i)]
    exact h.allocated i hi
  slot := by
    intro h' t ht'
    obtain ⟨rfl, -⟩ | ⟨-, hold⟩ := os_create ht'
    · exact .inr rfl
    · obtain hi | hd := h.slot h' t hold
      · exact .inl hi
      · rw [ht] at hd
        cases hd
  invalid := by
    simp only [Function.update_of_ne h0.symm]
    exact h.invalid
  fresh := nofun
  discarding := by
    rintro h' ⟨⟩
    exact ⟨h0, h.unslotted h0 hos⟩
  valid := h.valid
  older := h.older_create rfl

/-- The new timer of a call that succeeds. -/
theorem Inv.started {s : State} (h : Inv s) {id : ℤ} {high : Bool} {hTimer : ℕ}
    {index : Fin MAX_LUA_TIMERS} (ht : s.task = .start id high) (hos : s.os hTimer = none)
    (h0 : hTimer ≠ OPENAT_INVALID_HANDLE)
    (hf : (s.luaTimerParam index).hOsTimer = OPENAT_INVALID_HANDLE) :
    Inv { s with
      os := Function.update s.os hTimer (some ⟨id, high, true, s.created⟩)
      created := s.created + 1
      luaTimerParam := Function.update s.luaTimerParam index ⟨hTimer, id⟩
      task := .idle } where
  ids := by
    intro i j hi hj he
    simp only [Function.update_apply] at hi hj he
    split_ifs at hi hj he with hii hji hji
    · rw [hii, hji]
    · exact absurd ⟨hj, he.symm⟩ (h.fresh id high ht j)
    · exact absurd ⟨hi, he⟩ (h.fresh id high ht i)
    · exact h.ids i j hi hj he
  handles := by
    intro i j hi he
    simp only [Function.update_apply] at hi he
    split_ifs at hi he with hii hji hji
    · rw [hii, hji]
    · exact absurd he.symm (h.unslotted h0 hos j)
    · exact absurd he (h.unslotted h0 hos i)
    · exact h.handles i j hi he
  allocated := by
    intro i hi
    simp only [Function.update_apply] at hi ⊢
    split_ifs at hi ⊢ with hii hhi hhi
    · simp
    · exact absurd rfl hhi
    · simp
    · exact h.allocated i hi
  slot := by
    intro h' t ht'
    left
    obtain ⟨rfl, rfl⟩ | ⟨-, hold⟩ := os_create ht'
    · exact ⟨index, by simp, by simp, .inl rfl⟩
    · obtain ⟨k, hk, hkt⟩ | hd := h.slot h' t hold
      · have hki : k ≠ index := by
          rintro rfl
          rw [hf] at hk
          rw [← hk, h.invalid] at hold
          cases hold
        refine ⟨k, ?_⟩
        simp only [Function.update_of_ne hki]
        exact ⟨hk, hkt⟩
      · rw [ht] at hd
        cases hd
  invalid := by
    simp only [Function.update_of_ne h0.symm]
    exact h.invalid
  fresh := nofun
  discarding := nofun
  valid := h.valid
  older := h.older_create rfl

theorem Inv.create_timer {s : State} (h : Inv s) {id : ℤ} {high : Bool} {hTimer : ℕ}
    {started : Bool} (ht : s.task = .start id high) (hos : s.os hTimer = none) :
    Inv (Rtos.create_timer id high hTimer started s) := by
  have hidle : Inv { s with task := .idle } := by
    apply h.goto
    · intro h' hd
      rw [ht] at hd
      cases hd
    · nofun
    · nofun
  unfold Rtos.create_timer
  split
  case h_1 => exact hidle
  case h_2 index hf =>
    split
    case isTrue => exact hidle
    case isFalse h0 =>
      cases started with
      | true => exact h.started ht hos h0 (of_decide_eq_true (first_eq_some hf))
      | false => exact h.failed ht hos h0

theorem Current.create_timer {s : State} (h : Current s) {id : ℤ} {high : Bool} {hTimer : ℕ}
    {started : Bool} (hc : ∀ c ∈ s.callbacks, c.hTimer ≠ hTimer) :
    Current (Rtos.create_timer id high hTimer started s) := by
  have hnew : ∀ c ∈ s.callbacks, ∀ t,
      Function.update s.os hTimer (some ⟨id, high, started, s.created⟩) c.hTimer = some t →
      t.no = c.no := by
    intro c hm t ht
    rw [Function.update_of_ne (hc c hm)] at ht
    exact h c hm t ht
  unfold Rtos.create_timer
  split
  · exact h
  · split
    · exact h
    · cases started with
      | true => exact hnew
      | false => exact hnew

/-- The timer of a failed call is deleted. -/
theorem Inv.discard {s : State} (h : Inv s) {hTimer : ℕ} (ht : s.task = .discard hTimer)
    (h0 : hTimer ≠ OPENAT_INVALID_HANDLE) (hall : ∀ i, (s.luaTimerParam i).hOsTimer ≠ hTimer) :
    Inv { delete_timer hTimer s with task := .idle } where
  ids := h.ids
  handles := h.handles
  allocated := by
    intro i hi
    simp only [delete_timer, Function.update_of_ne (hall i)]
    exact h.allocated i hi
  slot := by
    intro h' t ht'
    simp only [delete_timer, Function.update_apply] at ht'
    split_ifs at ht' with he
    obtain hi | hd := h.slot h' t ht'
    · exact .inl hi
    · rw [ht] at hd
      cases hd
      exact absurd rfl he
  invalid := by
    simp only [delete_timer, Function.update_of_ne h0.symm]
    exact h.invalid
  fresh := nofun
  discarding := nofun
  valid := h.valid
  older := by
    refine ⟨fun h' t ht' => ?_, h.older.2⟩
    simp only [delete_timer, Function.update_apply] at ht'
    split_ifs at ht'
    exact h.older.1 h' t ht'

/-! ## Callbacks -/

theorem Inv.post {s : State} (h : Inv s) {hTimer : ℕ} {t : OsTimer} (ht : s.os hTimer = some t) :
    Inv (Rtos.post hTimer t s) where
  ids := h.ids
  handles := h.handles
  allocated := by
    intro i hi
    simp only [Rtos.post, Function.update_apply]
    split_ifs
    · simp
    · exact h.allocated i hi
  slot := by
    intro h' t' ht'
    simp only [Rtos.post, Function.update_apply] at ht' ⊢
    split_ifs at ht' with he
    · obtain rfl : { t with running := false } = t' := Option.some.inj ht'
      subst he
      obtain ⟨i, hi, hid, -⟩ | hd := h.slot h' t ht
      · left
        refine ⟨i, hi, hid, .inr ⟨⟨h', t.pParameter, t.no⟩, ?_, rfl, rfl⟩⟩
        simp
      · exact .inr hd
    · obtain ⟨i, hi, hid, hr | ⟨c, hc, hct⟩⟩ | hd := h.slot h' t' ht'
      · exact .inl ⟨i, hi, hid, .inl hr⟩
      · exact .inl ⟨i, hi, hid, .inr ⟨c, List.mem_append_left _ hc, hct⟩⟩
      · exact .inr hd
  invalid := by
    have : OPENAT_INVALID_HANDLE ≠ hTimer := by
      rintro rfl
      rw [h.invalid] at ht
      cases ht
    simp only [Rtos.post, Function.update_of_ne this]
    exact h.invalid
  fresh := h.fresh
  discarding := h.discarding
  valid := by
    intro c hc
    obtain hc | hc := List.mem_append.mp hc
    · exact h.valid c hc
    · rw [List.mem_singleton.mp hc]
      intro h0
      obtain rfl : hTimer = OPENAT_INVALID_HANDLE := h0
      rw [h.invalid] at ht
      cases ht
  older := by
    constructor
    · intro h' t' ht'
      simp only [Rtos.post, Function.update_apply] at ht'
      split_ifs at ht' with he
      · rw [← Option.some.inj ht']
        exact h.older.1 hTimer t ht
      · exact h.older.1 h' t' ht'
    · intro c hc
      obtain hc | hc := List.mem_append.mp hc
      · exact h.older.2 c hc
      · rw [List.mem_singleton.mp hc]
        exact h.older.1 hTimer t ht

theorem Current.post {s : State} (h : Current s) {hTimer : ℕ} {t : OsTimer}
    (ht : s.os hTimer = some t) : Current (Rtos.post hTimer t s) := by
  intro c hc t' ht'
  simp only [Rtos.post, Function.update_apply] at ht'
  obtain hc | hc := List.mem_append.mp hc
  · split_ifs at ht' with he
    · rw [← Option.some.inj ht']
      exact h c hc t (by rw [he, ht])
    · exact h c hc t' ht'
  · rw [List.mem_singleton.mp hc] at ht' ⊢
    rw [if_pos rfl] at ht'
    rw [← Option.some.inj ht']

/-- A callback whose timer has no slot any more, or the release of its slot. -/
theorem release_cases (c : Callback) (s : State) :
    (∀ i, (s.luaTimerParam i).hOsTimer ≠ c.hTimer) ∧
        release c s = { s with callbacks := s.callbacks.erase c } ∨
      ∃ i, (s.luaTimerParam i).hOsTimer = c.hTimer ∧
        release c s = { free i { s with callbacks := s.callbacks.erase c } with
          freed := s.freed ++ ((s.os c.hTimer).map fun t => (c.no, t.no)).toList } := by
  unfold release
  simp only
  split
  case h_1 index hf => exact .inr ⟨index, of_decide_eq_true (first_eq_some hf), rfl⟩
  case h_2 hf =>
    refine .inl ⟨fun i hi => ?_, rfl⟩
    exact first_eq_none.mp hf i (decide_eq_true hi)

/-- A callback that is over, of a timer that is not allocated any more. -/
theorem Inv.erase {s : State} (h : Inv s) {c : Callback}
    (hc : ∀ h' t, s.os h' = some t → h' = c.hTimer → s.task = .discard h') :
    Inv { s with callbacks := s.callbacks.erase c } where
  ids := h.ids
  handles := h.handles
  allocated := h.allocated
  slot := by
    intro h' t ht
    by_cases he : h' = c.hTimer
    · exact .inr (hc h' t ht he)
    · obtain ⟨i, hi, hid, hr | ⟨c', hm, hct⟩⟩ | hd := h.slot h' t ht
      · exact .inl ⟨i, hi, hid, .inl hr⟩
      · have hne : c' ≠ c := by
          rintro rfl
          exact he hct.1.symm
        exact .inl ⟨i, hi, hid, .inr ⟨c', (List.mem_erase_of_ne hne).mpr hm, hct⟩⟩
      · exact .inr hd
  invalid := h.invalid
  fresh := h.fresh
  discarding := h.discarding
  valid := fun c' hm => h.valid c' (List.mem_of_mem_erase hm)
  older := ⟨h.older.1, fun c' hm => h.older.2 c' (List.mem_of_mem_erase hm)⟩

theorem Current.erase {s : State} (h : Current s) (c : Callback) :
    Current { s with callbacks := s.callbacks.erase c } :=
  fun c' hm t ht => h c' (List.mem_of_mem_erase hm) t ht

theorem Inv.release {s : State} (h : Inv s) {c : Callback} (hc : c ∈ s.callbacks) : Inv (Rtos.release c s) := by
  obtain ⟨hno, he⟩ | ⟨i, hi, he⟩ := release_cases c s
  · rw [he]
    apply h.erase
    intro h' t ht hh
    obtain ⟨i, hi, -⟩ | hd := h.slot h' t ht
    · exact absurd (hi.trans hh) (hno i)
    · exact hd
  · rw [he]
    have hu : (s.luaTimerParam i).Used := by
      rw [LuaTimerParam.Used, hi]
      exact h.valid c hc
    have hf : Inv { Rtos.free i s with callbacks := (Rtos.free i s).callbacks.erase c } := by
      apply (h.free hu).erase
      intro h' t ht hh
      have := (os_free.mp ht).1
      rw [hi] at this
      exact absurd hh this
    exact ⟨⟨hf.ids, hf.handles, hf.allocated, hf.slot⟩, hf.invalid, hf.fresh, hf.discarding,
      hf.valid, hf.older⟩

theorem Current.release {s : State} (h : Current s) (c : Callback) :
    Current (Rtos.release c s) := by
  obtain ⟨-, he⟩ | ⟨i, -, he⟩ := release_cases c s
  · rw [he]
    exact h.erase c
  · rw [he]
    exact (h.erase c).free

/-- A callback of the timer that has its handle deletes no later timer. -/
theorem Rightful.release {s : State} (h : Rightful s) (hcur : Current s) {c : Callback}
    (hc : c ∈ s.callbacks) : Rightful (Rtos.release c s) := by
  obtain ⟨-, he⟩ | ⟨i, -, he⟩ := release_cases c s
  · rw [he]
    exact h
  · rw [he]
    intro p hp
    obtain hp | hp := List.mem_append.mp hp
    · exact h p hp
    · simp only [Option.mem_toList, Option.map_eq_some_iff] at hp
      obtain ⟨t, ht, rfl⟩ := hp
      exact (hcur c hc t ht).le

/-! ## Steps -/

theorem stop_timer_task (id : ℤ) (s : State) : (stop_timer id s).task = s.task := by
  unfold stop_timer
  split
  · rfl
  · rfl

theorem Inv.start_timer {s : State} (h : Inv s) (ht : s.task = .idle) (id : ℤ) (high : Bool) :
    Inv (Rtos.start_timer id high s) := by
  have hno : ∀ h', s.task = .discard h' → s.os h' = none := by
    intro h' hd
    rw [ht] at hd
    cases hd
  unfold Rtos.start_timer
  split
  case h_1 => exact h.goto hno nofun nofun
  case h_2 hf =>
    refine h.goto hno ?_ nofun
    rintro id' high' ⟨⟩ i hi
    exact first_eq_none.mp hf i (decide_eq_true hi)

theorem Inv.step {s t : State} {a : Act} (h : Inv s) (hs : Rtos.step s a = some t) : Inv t := by
  cases a with
  | start id high =>
      obtain ⟨ht, rfl⟩ := step_start hs
      exact h.start_timer ht id high
  | stop id =>
      obtain rfl := step_stop hs
      exact h.stop_timer id
  | stopOld =>
      obtain ⟨id, high, ht, rfl⟩ := step_stopOld hs
      refine (h.stop_timer id).goto ?_ ?_ nofun
      · intro h' hd
        rw [stop_timer_task, ht] at hd
        cases hd
      · rintro id' high' ⟨⟩
        exact h.stopped id
  | create hTimer started =>
      obtain ⟨id, high, ht, hos, rfl⟩ := step_create hs
      exact h.create_timer ht hos
  | discard =>
      obtain ⟨hTimer, ht, rfl⟩ := step_discard hs
      obtain ⟨h0, hall⟩ := h.discarding hTimer ht
      exact h.discard ht h0 hall
  | expire hTimer =>
      obtain ⟨o, ho, rfl⟩ := step_expire hs
      exact h.post ho
  | release c =>
      obtain ⟨hc, rfl⟩ := step_release hs
      exact h.release hc

/-- `create_timer` does not return the handle of a callback that has posted its message and
has not released its slot yet. -/
def Unpending (s : State) : Act → Prop
  | .create hTimer _ => ∀ c ∈ s.callbacks, c.hTimer ≠ hTimer
  | _ => True

instance (s : State) : (a : Act) → Decidable (Unpending s a)
  | .create hTimer _ => inferInstanceAs (Decidable (∀ c ∈ s.callbacks, c.hTimer ≠ hTimer))
  | .start _ _ => .isTrue trivial
  | .stop _ => .isTrue trivial
  | .stopOld => .isTrue trivial
  | .discard => .isTrue trivial
  | .expire _ => .isTrue trivial
  | .release _ => .isTrue trivial

theorem Current.step {s t : State} {a : Act} (h : Current s) (hg : Unpending s a)
    (hs : Rtos.step s a = some t) : Current t := by
  cases a with
  | start id high =>
      obtain ⟨-, rfl⟩ := step_start hs
      unfold Rtos.start_timer
      split
      · exact h
      · exact h
  | stop id =>
      obtain rfl := step_stop hs
      exact h.stop_timer id
  | stopOld =>
      obtain ⟨id, high, -, rfl⟩ := step_stopOld hs
      exact h.stop_timer id
  | create hTimer started =>
      obtain ⟨id, high, -, -, rfl⟩ := step_create hs
      exact h.create_timer hg
  | discard =>
      obtain ⟨hTimer, -, rfl⟩ := step_discard hs
      intro c hc o ho
      apply h c hc o
      simp only [delete_timer, Function.update_apply] at ho
      split_ifs at ho
      exact ho
  | expire hTimer =>
      obtain ⟨o, ho, rfl⟩ := step_expire hs
      exact h.post ho
  | release c =>
      obtain ⟨-, rfl⟩ := step_release hs
      exact h.release c

theorem Rightful.step {s t : State} {a : Act} (h : Rightful s) (hcur : Current s)
    (hs : Rtos.step s a = some t) : Rightful t := by
  have hstop : ∀ id, (stop_timer id s).freed = s.freed := by
    intro id
    unfold stop_timer
    split
    · rfl
    · rfl
  cases a with
  | start id high =>
      obtain ⟨-, rfl⟩ := step_start hs
      unfold Rtos.start_timer
      split
      · exact h
      · exact h
  | stop id =>
      obtain rfl := step_stop hs
      rw [Rightful, hstop]
      exact h
  | stopOld =>
      obtain ⟨id, high, -, rfl⟩ := step_stopOld hs
      rw [Rightful, hstop]
      exact h
  | create hTimer started =>
      obtain ⟨id, high, -, -, rfl⟩ := step_create hs
      unfold Rtos.create_timer
      split
      · exact h
      · split
        · exact h
        · cases started with
          | true => exact h
          | false => exact h
  | discard =>
      obtain ⟨hTimer, -, rfl⟩ := step_discard hs
      exact h
  | expire hTimer =>
      obtain ⟨o, -, rfl⟩ := step_expire hs
      exact h
  | release c =>
      obtain ⟨hc, rfl⟩ := step_release hs
      exact h.release hcur hc

/-! ## Runs -/

/-- The slots agree with the timers of the operating system, and no callback has deleted a
timer that was started after its own. -/
structure Safe (s : State) : Prop extends Slots s where
  rightful : Rightful s

/-- A handle that comes back while its callback is under way: the callback deletes the new
timer. -/
theorem release_new {s : State} (h : Inv s) {id : ℤ} {high : Bool} {c : Callback}
    (ht : s.task = .start id high) (hos : s.os c.hTimer = none) (hc : c ∈ s.callbacks)
    (hfree : (first s fun p => p.hOsTimer = OPENAT_INVALID_HANDLE).isSome) :
    ∃ t u, step s (.create c.hTimer true) = some t ∧ step t (.release c) = some u ∧
      ¬Rightful u := by
  obtain ⟨index, hindex⟩ := Option.isSome_iff_exists.mp hfree
  have h0 : c.hTimer ≠ OPENAT_INVALID_HANDLE := h.valid c hc
  have hcreate : step s (.create c.hTimer true) = some (create_timer id high c.hTimer true s) := by
    simp [step, ht, hos]
  refine ⟨_, _, hcreate, if_pos ?_, fun hr => ?_⟩
  · simpa [create_timer, hindex, h0] using hc
  · obtain ⟨hno, -⟩ | ⟨i, -, he⟩ := release_cases c (create_timer id high c.hTimer true s)
    · apply hno index
      simp [create_timer, hindex, h0]
    · rw [he] at hr
      have hlt := h.older.2 c hc
      have hle : s.created ≤ c.no := by
        apply hr (c.no, s.created)
        simp [create_timer, hindex, h0]
      omega

/-- While `create_timer` returns no handle whose callback is still under way, every timer runs
until it is stopped, restarted or expires; at the first such handle the callback can delete
the timer started after its own. -/
theorem timers_kept {as : List Act} (hm : Meets step Unpending init as) :
    Along step Safe init as ∧
      ∀ s, run step init as = some s → ∀ id high c, s.task = .start id high →
        s.os c.hTimer = none → c ∈ s.callbacks →
        (first s fun p => p.hOsTimer = OPENAT_INVALID_HANDLE).isSome →
        ∃ t u, step s (.create c.hTimer true) = some t ∧ step t (.release c) = some u ∧
          ¬Safe u := by
  constructor
  · have hall : Along step (fun s => Inv s ∧ Current s ∧ Rightful s) init as := by
      apply along_of_meets (I := fun _ => True) _ _ trivial ⟨inv_init, nofun, nofun⟩ hm
      · exact fun _ _ _ _ _ => trivial
      · rintro s a t - ⟨hi, hc, hr⟩ hg ht
        exact ⟨hi.step ht, hc.step hg ht, hr.step hc ht⟩
    apply hall.imp
    rintro s ⟨hi, -, hr⟩
    exact ⟨hi.toSlots, hr⟩
  · intro s hr id high c ht hos hc hfree
    have hi : Inv s := invariant_run (fun _ _ _ h hs => h.step hs) inv_init hr
    obtain ⟨t, u, h1, h2, hn⟩ := release_new hi ht hos hc hfree
    exact ⟨t, u, h1, h2, fun hsafe => hn hsafe.rightful⟩

theorem timers_kept_restart :
    Along step Safe init [.start 1 false, .create 5 true, .expire 5, .start 1 false, .stopOld,
      .create 6 true, .release ⟨5, 1, 0⟩] :=
  (timers_kept (by decide +kernel)).1

/-- A loop timer is started again from its message, before the callback that posted the message
has released its slot, and gets the handle that has just become free. -/
theorem restart_lost :
    ¬Along step Safe init [.start 1 false, .create 5 true, .expire 5, .start 1 false, .stopOld,
      .create 5 true, .release ⟨5, 1, 0⟩] := by
  intro h
  have hr := (((((((h.2 _ rfl).2 _ rfl).2 _ rfl).2 _ rfl).2 _ rfl).2 _ rfl).2 _ rfl).rightful
  have hle : 1 ≤ 0 := hr (0, 1) (by decide +kernel)
  omega

end LuatAir200.Rtos
