import LuatAir200.NetQueries

/-!
# `net.lua`: the indicator light

The light shows the first condition that holds. Two timers turn it on and off; a time is in
milliseconds, `0` and `0xFFFF` together stand for a light that stays off or on. History: the
pin and the times that the calls with the light on have configured, and what the pins
were driven with.
-/
namespace LuatAir200.Net.Led
open Lua Machine

/-- The switch of `setled`, which may be any value. -/
inductive Flag
  | nil
  | bool (b : Bool)
  | other (n : ℕ)
  deriving DecidableEq

/-- Any value but `nil` and `false` counts as true. -/
def Flag.truth : Flag → Bool
  | .nil | .bool false => false
  | .bool true | .other _ => true

/-- The conditions, in the order in which they are tested. -/
inductive Cond
  | FLYMODE | SIMERR | SCK | CGATT | CREG | IDLE
  deriving DecidableEq

/-- How long the light is on and off under each condition. -/
structure Times where
  ledflymodeon : ℤ
  ledflymodeoff : ℤ
  ledsimerron : ℤ
  ledsimerroff : ℤ
  ledidleon : ℤ
  ledidleoff : ℤ
  ledcregon : ℤ
  ledcregoff : ℤ
  ledcgatton : ℤ
  ledcgattoff : ℤ
  ledsckon : ℤ
  ledsckoff : ℤ
  deriving DecidableEq

def Times.of (l : Times) : Cond → ℤ × ℤ
  | .FLYMODE => (l.ledflymodeon, l.ledflymodeoff)
  | .SIMERR => (l.ledsimerron, l.ledsimerroff)
  | .SCK => (l.ledsckon, l.ledsckoff)
  | .CGATT => (l.ledcgatton, l.ledcgattoff)
  | .CREG => (l.ledcregon, l.ledcregoff)
  | .IDLE => (l.ledidleon, l.ledidleoff)

/-- The arguments of `setled`. -/
structure Args where
  v : Flag
  pin : Option ℤ
  valid : Option ℤ
  flymodeon : Option ℤ
  flymodeoff : Option ℤ
  simerron : Option ℤ
  simerroff : Option ℤ
  idleon : Option ℤ
  idleoff : Option ℤ
  cregon : Option ℤ
  cregoff : Option ℤ
  cgatton : Option ℤ
  cgattoff : Option ℤ
  sckon : Option ℤ
  sckoff : Option ℤ
  deriving DecidableEq

/-- What is not given stays as it is. -/
def Times.configure (a : Args) (l : Times) : Times where
  ledflymodeon := a.flymodeon.getD l.ledflymodeon
  ledflymodeoff := a.flymodeoff.getD l.ledflymodeoff
  ledsimerron := a.simerron.getD l.ledsimerron
  ledsimerroff := a.simerroff.getD l.ledsimerroff
  ledidleon := a.idleon.getD l.ledidleon
  ledidleoff := a.idleoff.getD l.ledidleoff
  ledcregon := a.cregon.getD l.ledcregon
  ledcregoff := a.cregoff.getD l.ledcregoff
  ledcgatton := a.cgatton.getD l.ledcgatton
  ledcgattoff := a.cgattoff.getD l.ledcgattoff
  ledsckon := a.sckon.getD l.ledsckon
  ledsckoff := a.sckoff.getD l.ledsckoff

/-- A write to a pin, and whether it was the configured one and its direction was set. -/
structure Write where
  pin : ℤ
  level : Bool
  ready : Bool
  deriving DecidableEq

structure State where
  ledflg : Flag
  ledpin : ℤ
  ledvalid : ℤ
  times : Times
  /-- `none` is `INIT`. -/
  ledstate : Option Cond
  ledontime : ℤ
  ledofftime : ℤ
  flymode : Option Bool
  simerrsta : Option Bool
  usersckconnect : Option Bool
  cgatt : Option Bool
  state : Reg
  /-- The timers of `ledblinkon` and `ledblinkoff`. -/
  ontimer : Option ℤ
  offtimer : Option ℤ
  /-- The pins whose direction has been set and which are not closed. -/
  outputs : List ℤ
  pinset : ℤ
  timesset : Times
  writes : List Write
  deriving DecidableEq

def Times.default : Times where
  ledflymodeon := 0
  ledflymodeoff := 0xFFFF
  ledsimerron := 300
  ledsimerroff := 5700
  ledidleon := 300
  ledidleoff := 3700
  ledcregon := 300
  ledcregoff := 1700
  ledcgatton := 300
  ledcgattoff := 700
  ledsckon := 100
  ledsckoff := 100

/-- Before the module calls `setled(true)`; `P0_15` is the 15th pin. -/
def loaded : State where
  ledflg := .bool false
  ledpin := 15
  ledvalid := 1
  times := .default
  ledstate := none
  ledontime := 0
  ledofftime := 0
  flymode := none
  simerrsta := none
  usersckconnect := none
  cgatt := none
  state := .INIT
  ontimer := none
  offtimer := none
  outputs := []
  pinset := 15
  timesset := .default
  writes := []

/-! ## Blinking -/

def setval (level : Bool) (s : State) : State :=
  { s with writes := s.writes ++
      [⟨s.ledpin, level, s.ledpin = s.pinset ∧ s.outputs.contains s.ledpin⟩] }

def stop (s : State) : State := { s with ontimer := none, offtimer := none }

/-- The light stays off, or stays on. -/
def darkens (p : ℤ × ℤ) : Bool := p.1 = 0 ∧ p.2 = 0xFFFF

def shines (p : ℤ × ℤ) : Bool := p.1 = 0xFFFF ∧ p.2 = 0

def constant (p : ℤ × ℤ) : Bool := darkens p || shines p

/-- For a light that stays off it goes on with `ledblinkoff`. -/
def ledblinkon (s : State) : Option State :=
  let s := setval (s.ledvalid = 1) s
  if darkens (s.ledontime, s.ledofftime) then some (stop (setval (s.ledvalid ≠ 1) s))
  else if shines (s.ledontime, s.ledofftime) then some (stop s)
  else if 0 < s.ledontime then some { s with offtimer := some s.ledontime } else none

/-- For a light that stays on it goes on with `ledblinkon`. -/
def ledblinkoff (s : State) : Option State :=
  let s := setval (s.ledvalid ≠ 1) s
  if darkens (s.ledontime, s.ledofftime) then some (stop s)
  else if shines (s.ledontime, s.ledofftime) then some (stop (setval (s.ledvalid = 1) s))
  else if 0 < s.ledofftime then some { s with ontimer := some s.ledofftime } else none

/-- The first condition that holds. -/
def State.cond (s : State) : Cond :=
  if s.flymode = some true then .FLYMODE
  else if s.simerrsta = some true then .SIMERR
  else if s.usersckconnect = some true then .SCK
  else if s.cgatt = some true then .CGATT
  else if s.state = .REGISTERED then .CREG
  else .IDLE

def procled (s : State) : Option State :=
  if s.ledflg.truth then
    if some s.cond ≠ s.ledstate then
      ledblinkoff { s with
        ledstate := some s.cond
        ledontime := (s.times.of s.cond).1
        ledofftime := (s.times.of s.cond).2 }
    else some s
  else some s

/-! ## Events -/

def usersckind (v : Bool) (s : State) : Option State :=
  if s.usersckconnect ≠ some v then procled { s with usersckconnect := some v } else some s

def cgattind (v : Bool) (s : State) : Option State :=
  if s.cgatt ≠ some v then procled { s with cgatt := some v } else some s

def creg (data : LuaString) (s : State) : Option State :=
  match registration data with
  | none => some s
  | some r => if r ≠ s.state then procled { s with state := r } else some s

def simind (para : LuaString) (s : State) : Option State :=
  let err : Bool := para ≠ lua "RDY"
  (if s.simerrsta ≠ some err then procled { s with simerrsta := some err } else some s).map fun s =>
    if err then { s with state := .UNREGISTER } else s

def flyind (para : Bool) (s : State) : Option State :=
  (if s.flymode ≠ some para then procled { s with flymode := some para } else some s).bind fun s =>
    if para then some s else creg (lua "2") s

/-- Does a call change anything? The times for flight mode and SIM errors are compared with
themselves. -/
def changed (a : Args) (s : State) : Bool :=
  let l := s.times
  let c1 := s.ledflg ≠ a.v ∨ s.ledpin ≠ a.pin.getD s.ledpin ∨ s.ledvalid ≠ a.valid.getD s.ledvalid
  let c2 := l.ledidleon ≠ a.idleon.getD l.ledidleon ∨ l.ledidleoff ≠ a.idleoff.getD l.ledidleoff ∨
    a.flymodeon ≠ some (a.flymodeon.getD l.ledflymodeon) ∨
    a.flymodeoff ≠ some (a.flymodeoff.getD l.ledflymodeoff)
  let c3 := l.ledcregon ≠ a.cregon.getD l.ledcregon ∨ l.ledcregoff ≠ a.cregoff.getD l.ledcregoff ∨
    l.ledcgatton ≠ a.cgatton.getD l.ledcgatton ∨ a.simerron ≠ some (a.simerron.getD l.ledsimerron)
  let c4 := l.ledcgattoff ≠ a.cgattoff.getD l.ledcgattoff ∨ l.ledsckon ≠ a.sckon.getD l.ledsckon ∨
    l.ledsckoff ≠ a.sckoff.getD l.ledsckoff ∨ a.simerroff ≠ some (a.simerroff.getD l.ledsimerroff)
  c1 ∨ c2 ∨ c3 ∨ c4

/-- What a call with the light on configures. -/
def configured (a : Args) (s : State) : State :=
  if a.v.truth then
    { s with pinset := a.pin.getD s.pinset, timesset := s.timesset.configure a }
  else s

def setled (a : Args) (s : State) : Option State :=
  let c := changed a s
  let s := configured a s
  if c then
    let oldledflg := s.ledflg
    let s := { s with ledflg := a.v }
    if a.v.truth then
      let s := { s with
        ledpin := a.pin.getD s.ledpin
        ledvalid := a.valid.getD s.ledvalid
        times := s.times.configure a }
      procled (if oldledflg.truth then s else { s with outputs := s.outputs ++ [s.ledpin] })
    else
      let s := stop s
      let s := if oldledflg.truth then
          let s := setval (s.ledvalid ≠ 1) s
          { s with outputs := s.outputs.filter (· ≠ s.ledpin) }
        else s
      some { s with ledstate := none }
  else some s

inductive Act
  | setled (a : Args)
  | SIM_IND (para : LuaString)
  | FLYMODE_IND (para : Bool)
  | CREG (data : LuaString)
  | NET_GPRS_READY (v : Bool)
  | USER_SOCKET_CONNECT (v : Bool)
  /-- A timer expires. -/
  | ledblinkon
  | ledblinkoff
  deriving DecidableEq

def step (s : State) : Act → Option State
  | .setled a => setled a s
  | .SIM_IND para => simind para s
  | .FLYMODE_IND para => flyind para s
  | .CREG data => creg data s
  | .NET_GPRS_READY v => cgattind v s
  | .USER_SOCKET_CONNECT v => usersckind v s
  | .ledblinkon => if s.ontimer = none then none else ledblinkon { s with ontimer := none }
  | .ledblinkoff => if s.offtimer = none then none else ledblinkoff { s with offtimer := none }

/-! ## A right light -/

/-- One timer is active for a light that blinks, and none for one that does not. -/
def Blinks (s : State) : Prop :=
  if constant (s.ledontime, s.ledofftime) then s.ontimer = none ∧ s.offtimer = none
  else s.ontimer.isSome ≠ s.offtimer.isSome

instance (s : State) : Decidable (Blinks s) := by
  unfold Blinks
  infer_instance

/-- The light is on or off for the times that were configured last for the first condition that
holds, with the timers it needs, only the configured pin is driven, and only after its
direction was set; when the light is disabled, no timer is active and no pin is open. -/
structure Right (s : State) : Prop where
  times : s.ledflg.truth → (s.ledontime, s.ledofftime) = s.timesset.of s.cond
  blinks : s.ledflg.truth → Blinks s
  output : s.ledflg.truth → s.outputs = [s.pinset]
  closed : s.ledflg.truth = false → s.ontimer = none ∧ s.offtimer = none ∧ s.outputs = []
  ready : ∀ w ∈ s.writes, w.ready = true

/-- May the light go over to a condition? Its times must not have been given in a call that
went unnoticed, and a light that is to blink must not be in its time on. -/
def passes (c : Cond) (s : State) : Bool :=
  !s.ledflg.truth ∨ c = s.cond ∨
    s.times.of c = s.timesset.of c ∧ (constant (s.times.of c) ∨ s.offtimer = none)

/-- The condition on actions. -/
def keeps (s : State) : Act → Bool
  -- the pin stays the same, and the times of the present condition are not changed
  | .setled a => !a.v.truth ∨
      if s.ledflg.truth then
        a.pin.getD s.pinset = s.pinset ∧ (s.timesset.configure a).of s.cond = s.timesset.of s.cond
      else (s.times.configure a).of s.cond = (s.timesset.configure a).of s.cond
  | .SIM_IND para => passes (State.cond { s with simerrsta := some (para ≠ lua "RDY" : Bool) }) s
  | .FLYMODE_IND true => passes (State.cond { s with flymode := some true }) s
  -- the registration is reset after the end of flight mode, which may pass a constant light
  | .FLYMODE_IND false =>
      let c1 := State.cond { s with flymode := some false }
      let c2 := State.cond { s with flymode := some false, state := .UNREGISTER }
      passes c2 s ∨ s.times.of c2 = s.timesset.of c2 ∧ c1 ≠ s.cond ∧ constant (s.times.of c1)
  | .CREG data => (registration data).all fun r => passes (State.cond { s with state := r }) s
  | .NET_GPRS_READY v => passes (State.cond { s with cgatt := some v }) s
  | .USER_SOCKET_CONNECT v => passes (State.cond { s with usersckconnect := some v }) s
  | .ledblinkon | .ledblinkoff => true

/-! ## What the functions do -/

/-- What does not depend on the conditions. -/
structure Base (s : State) : Prop where
  pin : s.ledpin = s.pinset
  output : s.ledflg.truth → s.outputs = [s.ledpin]
  closed : s.ledflg.truth = false →
    s.ontimer = none ∧ s.offtimer = none ∧ s.outputs = [] ∧ s.ledstate = none
  ready : ∀ w ∈ s.writes, w.ready = true

/-- The state of the light is named after the first condition that holds. -/
def Named (s : State) : Prop := s.ledflg.truth → s.ledstate = some s.cond

structure Going (s : State) : Prop where
  base : Base s
  named : Named s
  right : Right s

theorem Base.right_iff {s : State} (h : Base s) : Right s ↔
    (s.ledflg.truth → (s.ledontime, s.ledofftime) = s.timesset.of s.cond ∧ Blinks s) := by
  constructor
  · exact fun hr ht => ⟨hr.times ht, hr.blinks ht⟩
  · intro ht
    refine ⟨fun hl => (ht hl).1, fun hl => (ht hl).2, fun hl => ?_, fun hl => ?_, h.ready⟩
    · rw [h.output hl, h.pin]
    · exact ⟨(h.closed hl).1, (h.closed hl).2.1, (h.closed hl).2.2.1⟩

theorem constant_of_darkens {p : ℤ × ℤ} (h : darkens p = true) : constant p = true := by
  rw [constant, h, Bool.true_or]

theorem constant_of_shines {p : ℤ × ℤ} (h : shines p = true) : constant p = true := by
  rw [constant, h, Bool.or_true]

theorem not_constant {p : ℤ × ℤ} (hd : ¬darkens p = true) (hs : ¬shines p = true) :
    ¬constant p = true := by
  rw [constant, Bool.or_eq_true, not_or]
  exact ⟨hd, hs⟩

/-- A write to the configured pin. -/
theorem setval_ready {s : State} (level : Bool) (hp : s.ledpin = s.pinset)
    (ho : s.outputs = [s.ledpin]) (hw : ∀ w ∈ s.writes, w.ready = true) :
    ∀ w ∈ (setval level s).writes, w.ready = true := by
  intro w hm
  obtain hm | hm := List.mem_append.mp hm
  · exact hw w hm
  · rw [List.mem_singleton.mp hm]
    simp [ho, ← hp]

/-- `ledblinkoff` starts the timer of `ledblinkon`, or stops both. -/
theorem ledblinkoff_spec {s t : State} (hp : s.ledpin = s.pinset) (ho : s.outputs = [s.ledpin])
    (hw : ∀ w ∈ s.writes, w.ready = true) (h : ledblinkoff s = some t) :
    ∃ ws on off, t = { s with writes := ws, ontimer := on, offtimer := off } ∧
      (∀ w ∈ ws, w.ready = true) ∧
      if constant (s.ledontime, s.ledofftime) then on = none ∧ off = none
      else on.isSome ∧ off = s.offtimer := by
  have hoff := setval_ready (decide (s.ledvalid ≠ 1)) hp ho hw
  unfold ledblinkoff at h
  dsimp only at h
  split at h
  · rename_i hd
    cases h
    refine ⟨_, none, none, rfl, hoff, ?_⟩
    have hc : constant (s.ledontime, s.ledofftime) = true := constant_of_darkens hd
    rw [if_pos hc]
    exact ⟨rfl, rfl⟩
  split at h
  · rename_i hd hs
    cases h
    refine ⟨_, none, none, rfl, setval_ready (decide (s.ledvalid = 1)) hp ho hoff, ?_⟩
    have hc : constant (s.ledontime, s.ledofftime) = true := constant_of_shines hs
    rw [if_pos hc]
    exact ⟨rfl, rfl⟩
  split at h
  · rename_i hd hs _
    cases h
    refine ⟨_, _, s.offtimer, rfl, hoff, ?_⟩
    have hc : ¬constant (s.ledontime, s.ledofftime) = true := not_constant hd hs
    rw [if_neg hc]
    exact ⟨rfl, rfl⟩
  · cases h

/-- `ledblinkon` starts the timer of `ledblinkoff`, or stops both. -/
theorem ledblinkon_spec {s t : State} (hp : s.ledpin = s.pinset) (ho : s.outputs = [s.ledpin])
    (hw : ∀ w ∈ s.writes, w.ready = true) (h : ledblinkon s = some t) :
    ∃ ws on off, t = { s with writes := ws, ontimer := on, offtimer := off } ∧
      (∀ w ∈ ws, w.ready = true) ∧
      if constant (s.ledontime, s.ledofftime) then on = none ∧ off = none
      else off.isSome ∧ on = s.ontimer := by
  have hon := setval_ready (decide (s.ledvalid = 1)) hp ho hw
  unfold ledblinkon at h
  dsimp only at h
  split at h
  · rename_i hd
    cases h
    refine ⟨_, none, none, rfl, setval_ready (decide (s.ledvalid ≠ 1)) hp ho hon, ?_⟩
    have hc : constant (s.ledontime, s.ledofftime) = true := constant_of_darkens hd
    rw [if_pos hc]
    exact ⟨rfl, rfl⟩
  split at h
  · rename_i hd hs
    cases h
    refine ⟨_, none, none, rfl, hon, ?_⟩
    have hc : constant (s.ledontime, s.ledofftime) = true := constant_of_shines hs
    rw [if_pos hc]
    exact ⟨rfl, rfl⟩
  split at h
  · rename_i hd hs _
    cases h
    refine ⟨_, s.ontimer, _, rfl, hon, ?_⟩
    have hc : ¬constant (s.ledontime, s.ledofftime) = true := not_constant hd hs
    rw [if_neg hc]
    exact ⟨rfl, rfl⟩
  · cases h

/-- The light shows a condition. -/
def State.shows (c : Cond) (ws : List Write) (on off : Option ℤ) (s : State) : State :=
  { s with
    ledstate := some c
    ledontime := (s.times.of c).1
    ledofftime := (s.times.of c).2
    writes := ws
    ontimer := on
    offtimer := off }

/-- `procled` shows a new condition, with the timers that `ledblinkoff` leaves. -/
theorem procled_spec {s t : State} (hb : Base s) (h : procled s = some t) :
    ((s.ledflg.truth = true → s.ledstate = some s.cond) ∧ t = s) ∨
      (s.ledflg.truth = true ∧ s.ledstate ≠ some s.cond ∧ ∃ ws on off,
        t = s.shows s.cond ws on off ∧ (∀ w ∈ ws, w.ready = true) ∧
        if constant (s.times.of s.cond) then on = none ∧ off = none
        else on.isSome ∧ off = s.offtimer) := by
  unfold procled at h
  split at h
  · rename_i hl
    split at h
    · rename_i hn
      have hspec := ledblinkoff_spec (s := { s with
        ledstate := some s.cond
        ledontime := (s.times.of s.cond).1
        ledofftime := (s.times.of s.cond).2 }) hb.pin (hb.output hl) hb.ready h
      obtain ⟨ws, on, off, rfl, hw, htimers⟩ := hspec
      exact .inr ⟨hl, Ne.symm hn, ws, on, off, rfl, hw, htimers⟩
    · rename_i hn
      cases h
      exact .inl ⟨fun _ => (not_not.mp hn).symm, rfl⟩
  · rename_i hl
    cases h
    exact .inl ⟨fun ht => absurd ht hl, rfl⟩

theorem Named.procled {s : State} (h : Named s) : Led.procled s = some s := by
  unfold Led.procled
  split
  · rename_i hl
    rw [if_neg (not_not.mpr (h hl).symm)]
  · rfl

/-- After `procled` the light is named. -/
theorem procled_named {s t : State} (hb : Base s) (h : procled s = some t) :
    Base t ∧ Named t ∧ t.ledflg = s.ledflg ∧ t.cond = s.cond := by
  obtain ⟨hn, rfl⟩ | ⟨hl, -, ws, on, off, rfl, hw, -⟩ := procled_spec hb h
  · exact ⟨hb, hn, rfl, rfl⟩
  · refine ⟨⟨hb.pin, hb.output, fun hd => ?_, hw⟩, fun _ => rfl, rfl, rfl⟩
    exact absurd (hd.symm.trans hl) Bool.false_ne_true

/-! ## The conditions change -/

/-- Without a new condition an event does nothing to the light. -/
theorem usersckind_eq {s : State} (h : Named s) (v : Bool) :
    usersckind v s = procled { s with usersckconnect := some v } := by
  unfold usersckind
  split
  · rfl
  · rename_i hv
    have hs : { s with usersckconnect := some v } = s := by
      rw [← not_not.mp hv]
    rw [hs, h.procled]

theorem cgattind_eq {s : State} (h : Named s) (v : Bool) :
    cgattind v s = procled { s with cgatt := some v } := by
  unfold cgattind
  split
  · rfl
  · rename_i hv
    have hs : { s with cgatt := some v } = s := by
      rw [← not_not.mp hv]
    rw [hs, h.procled]

theorem creg_eq {s : State} (h : Named s) (data : LuaString) :
    creg data s = match registration data with
      | none => some s
      | some r => procled { s with state := r } := by
  unfold creg
  split
  · rfl
  · rename_i r hr
    split
    · rfl
    · rename_i hv
      have hs : { s with state := r } = s := by
        rw [not_not.mp hv]
      rw [hs, h.procled]

theorem simind_eq {s t : State} (hb : Base s) (h : Named s) {para : LuaString}
    (ht : simind para s = some t) :
    ∃ u, procled { s with simerrsta := some (decide (para ≠ lua "RDY")) } = some u ∧
      ∃ r, t = { u with state := r } ∧ (u.simerrsta = some true ∨ r = u.state) := by
  unfold simind at ht
  dsimp only at ht
  obtain ⟨u, hu, rfl⟩ := Option.map_eq_some_iff.mp ht
  have hp : procled { s with simerrsta := some (decide (para ≠ lua "RDY")) } = some u := by
    split at hu
    · exact hu
    · rename_i hv
      cases hu
      have hs : { s with simerrsta := some (decide (para ≠ lua "RDY")) } = s := by
        rw [← not_not.mp hv]
      rw [hs, h.procled]
  refine ⟨u, hp, ?_⟩
  split
  · rename_i he
    refine ⟨_, rfl, .inl ?_⟩
    have hb' : Base { s with simerrsta := some (decide (para ≠ lua "RDY")) } :=
      ⟨hb.pin, hb.output, hb.closed, hb.ready⟩
    obtain ⟨-, rfl⟩ | ⟨-, -, ws, on, off, rfl, -⟩ := procled_spec hb' hp
    · exact congrArg some he
    · exact congrArg some he
  · exact ⟨u.state, rfl, .inr rfl⟩

theorem flymode_eq {s : State} (h : Named s) (para : Bool) :
    (if s.flymode ≠ some para then procled { s with flymode := some para } else some s) =
      procled { s with flymode := some para } := by
  split
  · rfl
  · rename_i hv
    have hs : { s with flymode := some para } = s := by
      rw [← not_not.mp hv]
    rw [hs, h.procled]

theorem flyind_true {s t : State} (h : Named s) (ht : flyind true s = some t) :
    procled { s with flymode := some true } = some t := by
  unfold flyind at ht
  rw [flymode_eq h] at ht
  obtain ⟨u, hu, ht⟩ := Option.bind_eq_some_iff.mp ht
  cases ht
  exact hu

theorem registration_two : registration (lua "2") = some .UNREGISTER := by decide

/-- At the end of flight mode the registration is reset. -/
theorem flyind_false {s t : State} (hb : Base s) (h : Named s) (ht : flyind false s = some t) :
    ∃ u, procled { s with flymode := some false } = some u ∧
      procled { u with state := .UNREGISTER } = some t := by
  unfold flyind at ht
  rw [flymode_eq h] at ht
  obtain ⟨u, hu, ht⟩ := Option.bind_eq_some_iff.mp ht
  have hb' : Base { s with flymode := some false } := ⟨hb.pin, hb.output, hb.closed, hb.ready⟩
  have hnu : Named u := (procled_named hb' hu).2.1
  rw [if_neg Bool.false_ne_true, creg_eq hnu, registration_two] at ht
  exact ⟨u, hu, ht⟩

theorem passes_iff (c : Cond) (s : State) : passes c s = true ↔ s.ledflg.truth = false ∨
    c = s.cond ∨ s.times.of c = s.timesset.of c ∧
      (constant (s.times.of c) = true ∨ s.offtimer = none) := by
  simp [passes]

/-- A light that is turned off blinks if the timer of `ledblinkoff` was not active. -/
theorem blinks_shows {s : State} {c : Cond} {on off old : Option ℤ} (ws : List Write)
    (h : if constant (s.times.of c) then on = none ∧ off = none else on.isSome ∧ off = old) :
    Blinks (s.shows c ws on off) ↔ constant (s.times.of c) = true ∨ old = none := by
  unfold Blinks State.shows
  dsimp only
  by_cases hc : constant (s.times.of c) = true
  · rw [if_pos hc] at h ⊢
    simp [hc, h]
  · rw [if_neg hc] at h ⊢
    obtain ⟨hon, rfl⟩ := h
    cases off <;> simp [hc, hon]

/-- The conditions have changed: the light that `procled` shows is right exactly if it passes. -/
theorem procled_right {s t : State} {c : Cond} (hb : Base s)
    (hn : s.ledflg.truth → s.ledstate = some c)
    (htimes : s.ledflg.truth → (s.ledontime, s.ledofftime) = s.timesset.of c)
    (hblinks : s.ledflg.truth → Blinks s) (ht : procled s = some t) :
    Right t ↔ s.ledflg.truth = false ∨ s.cond = c ∨
      s.times.of s.cond = s.timesset.of s.cond ∧
        (constant (s.times.of s.cond) = true ∨ s.offtimer = none) := by
  obtain ⟨hbt, -, -, -⟩ := procled_named hb ht
  rw [hbt.right_iff]
  obtain ⟨hsame, hts⟩ | ⟨hl, hne, ws, on, off, rfl, -, htimers⟩ := procled_spec hb ht
  · rw [hts]
    cases hl : s.ledflg.truth with
    | false => simp
    | true =>
        have hc : s.cond = c := Option.some.inj ((hsame hl).symm.trans (hn hl))
        have hr := htimes hl
        rw [← hc] at hr
        simp [hc, hblinks hl, hr]
  · have hc : s.cond ≠ c := by
      rintro rfl
      exact hne (hn hl)
    have hblink := blinks_shows ws htimers
    constructor
    · exact fun hr => .inr (.inr ⟨(hr hl).1, hblink.mp (hr hl).2⟩)
    · rintro (hd | hd | ⟨ht, hd⟩) -
      · rw [hl] at hd
        cases hd
      · exact absurd hd hc
      · exact ⟨ht, hblink.mpr hd⟩

/-- After a change of the conditions that the light passes it is right again. -/
theorem Going.event {s t : State} (h : Going s) {f m k g : Option Bool} {r : Reg}
    (ht : procled { s with
      flymode := f, simerrsta := m, usersckconnect := k, cgatt := g, state := r } = some t) :
    Base t ∧ Named t ∧ (Right t ↔ passes (State.cond { s with
      flymode := f, simerrsta := m, usersckconnect := k, cgatt := g, state := r }) s = true) := by
  have hb : Base { s with
      flymode := f, simerrsta := m, usersckconnect := k, cgatt := g, state := r } :=
    ⟨h.base.pin, h.base.output, h.base.closed, h.base.ready⟩
  have hr := procled_right (c := s.cond) hb h.named h.right.times h.right.blinks ht
  rw [passes_iff]
  exact ⟨(procled_named hb ht).1, (procled_named hb ht).2.1, hr⟩

/-- During a SIM error the registration does not count. -/
theorem cond_simerr {s : State} (h : s.simerrsta = some true) (r : Reg) :
    State.cond { s with state := r } = s.cond := by
  simp [State.cond, h]

theorem restate {s : State} {r : Reg} (hc : State.cond { s with state := r } = s.cond)
    (hb : Base s) (hn : Named s) : Base { s with state := r } ∧ Named { s with state := r } ∧
      (Right { s with state := r } ↔ Right s) := by
  have hb' : Base { s with state := r } := ⟨hb.pin, hb.output, hb.closed, hb.ready⟩
  refine ⟨hb', ?_, ?_⟩
  · intro hl
    rw [hc]
    exact hn hl
  · rw [hb'.right_iff, hb.right_iff, hc]
    rfl

theorem simind_right {s t : State} (h : Going s) {para : LuaString} (ht : simind para s = some t) :
    Base t ∧ Named t ∧ (Right t ↔ keeps s (.SIM_IND para) = true) := by
  obtain ⟨u, hu, r, rfl, hr⟩ := simind_eq h.base h.named ht
  obtain ⟨hb, hn, hright⟩ := h.event hu
  have hc : State.cond { u with state := r } = u.cond := by
    obtain hs | rfl := hr
    · exact cond_simerr hs r
    · rfl
  obtain ⟨hb', hn', hiff⟩ := restate hc hb hn
  exact ⟨hb', hn', hiff.trans hright⟩

theorem cond_ne_flymode {s : State} (h : s.flymode = some false) : s.cond ≠ .FLYMODE := by
  unfold State.cond
  rw [if_neg (by rw [h]; decide)]
  split
  · nofun
  split
  · nofun
  split
  · nofun
  split <;> nofun

theorem cond_flymode {s : State} (h : State.cond { s with flymode := some false } ≠ s.cond) :
    s.cond = .FLYMODE := by
  by_cases hf : s.flymode = some true
  · rw [State.cond, if_pos hf]
  · refine absurd ?_ h
    unfold State.cond
    rw [if_neg hf]
    rfl

/-- Flight mode ends: the light passes what it shows before the registration is reset. -/
theorem flyind_right {s t : State} (h : Going s) (ht : flyind false s = some t) :
    Base t ∧ Named t ∧ (Right t ↔ keeps s (.FLYMODE_IND false) = true) := by
  obtain ⟨u, hu, hv⟩ := flyind_false h.base h.named ht
  have hb : Base { s with flymode := some false } :=
    ⟨h.base.pin, h.base.output, h.base.closed, h.base.ready⟩
  have hbu := (procled_named hb hu).1
  have hbu' : Base { u with state := .UNREGISTER } := ⟨hbu.pin, hbu.output, hbu.closed, hbu.ready⟩
  obtain ⟨hbt, hnt, -, -⟩ := procled_named hbu' hv
  refine ⟨hbt, hnt, ?_⟩
  simp only [keeps, Bool.decide_or, Bool.or_eq_true, decide_eq_true_eq]
  obtain ⟨hsame, hus⟩ | ⟨hl, hne, ws, on, off, rfl, -, htimers⟩ := procled_spec hb hu
  · -- the end of flight mode alone changes nothing
    subst hus
    rw [(h.event hv).2.2]
    refine ⟨Or.inl, fun hk => hk.elim id ?_⟩
    rintro ⟨-, hc, -⟩
    rw [passes_iff]
    cases hl : s.ledflg.truth with
    | false => exact .inl rfl
    | true => exact absurd (Option.some.inj ((hsame hl).symm.trans (h.named hl))) hc
  · have hc1 : State.cond { s with flymode := some false } ≠ s.cond := by
      intro hc
      exact hne (by rw [hc]; exact h.named hl)
    have hfly := cond_flymode hc1
    have hc2 : State.cond { s with flymode := some false, state := .UNREGISTER } ≠ s.cond := by
      rw [hfly]
      exact cond_ne_flymode rfl
    have hoff : off = none ↔
        constant (s.times.of (State.cond { s with flymode := some false })) = true ∨
          s.offtimer = none := by
      by_cases hconst : constant (s.times.of (State.cond { s with flymode := some false })) = true
      · rw [if_pos hconst] at htimers
        simp [hconst, htimers.2]
      · rw [if_neg hconst] at htimers
        simp [hconst, htimers.2]
    have hshown : Right t ↔
        s.times.of (State.cond { s with flymode := some false, state := .UNREGISTER }) =
          s.timesset.of (State.cond { s with flymode := some false, state := .UNREGISTER }) ∧
        (constant (s.times.of (State.cond
          { s with flymode := some false, state := .UNREGISTER })) = true ∨ off = none) := by
      rw [hbt.right_iff]
      obtain ⟨hsame, rfl⟩ | ⟨-, -, ws', on', off', rfl, -, htimers'⟩ := procled_spec hbu' hv
      · have hc : State.cond { s with flymode := some false } =
            State.cond { s with flymode := some false, state := .UNREGISTER } :=
          Option.some.inj (hsame hl)
        have hblinks := blinks_shows ws htimers
        rw [hoff, ← hc, or_self_left]
        exact ⟨fun hr => ⟨(hr hl).1.trans (by rw [hc]; rfl), hblinks.mp (hr hl).2⟩, fun hr _ =>
          ⟨hr.1.trans (by rw [hc]; rfl), hblinks.mpr hr.2⟩⟩
      · have hblinks := blinks_shows ws' htimers'
        exact ⟨fun hr => ⟨(hr hl).1, hblinks.mp (hr hl).2⟩, fun hr _ => ⟨hr.1, hblinks.mpr hr.2⟩⟩
    rw [hshown, hoff, passes_iff]
    simp only [hl, hc1, hc2, ne_eq, not_false_eq_true, true_and, false_or, Bool.true_eq_false]
    tauto

/-! ## Calls -/

theorem unchanged {a : Args} {s : State} (h : changed a s = false) :
    s.ledflg = a.v ∧ s.ledpin = a.pin.getD s.ledpin := by
  simp only [changed, decide_eq_false_iff_not, not_or, not_not] at h
  exact ⟨h.1.1, h.1.2.1⟩

/-- What is off has no condition to show. -/
theorem Base.dark {s : State} (h : Base s) (hl : s.ledflg.truth = false) : Going s := by
  have hoff {P : Prop} (ht : s.ledflg.truth = true) : P :=
    absurd (hl.symm.trans ht) Bool.false_ne_true
  exact ⟨h, fun ht => hoff ht, h.right_iff.mpr fun ht => hoff ht⟩

/-- The light is disabled: both timers are stopped, and the pin is closed. -/
theorem setled_off {s t : State} {a : Args} (h : Going s) (hv : a.v.truth = false)
    (ht : setled a s = some t) : Going t := by
  have hconf : configured a s = s := by
    rw [configured, if_neg (by rw [hv]; exact Bool.false_ne_true)]
  have hno {P : Prop} (ht : a.v.truth = true) : P := absurd (hv.symm.trans ht) Bool.false_ne_true
  unfold setled at ht
  dsimp only at ht
  rw [hconf] at ht
  split at ht
  · rw [if_neg (by rw [hv]; exact Bool.false_ne_true)] at ht
    split at ht
    · rename_i hl
      cases ht
      have hout : s.outputs = [s.ledpin] := h.base.output hl
      refine Base.dark ⟨h.base.pin, fun hl => hno hl, fun _ => ⟨rfl, rfl, ?_, rfl⟩, ?_⟩ hv
      · have hfilter : (s.outputs.filter (· ≠ s.ledpin)) = [] := by simp [hout]
        exact hfilter
      · exact setval_ready (s := stop { s with ledflg := a.v }) _ h.base.pin hout h.base.ready
    · rename_i hl
      rw [Bool.not_eq_true] at hl
      cases ht
      exact Base.dark ⟨h.base.pin, fun hl => hno hl,
        fun _ => ⟨rfl, rfl, (h.base.closed hl).2.2.1, rfl⟩, h.base.ready⟩ hv
  · cases ht
    exact h

theorem keeps_setled {s : State} {a : Args} (hv : a.v.truth = true) :
    keeps s (.setled a) = true ↔
      if s.ledflg.truth then
        a.pin.getD s.pinset = s.pinset ∧ (s.timesset.configure a).of s.cond = s.timesset.of s.cond
      else (s.times.configure a).of s.cond = (s.timesset.configure a).of s.cond := by
  rw [keeps, hv]
  simp

/-- A call while the light is on shows nothing new. -/
theorem setled_again {s t : State} {a : Args} (h : Going s) (hl : s.ledflg.truth = true)
    (hv : a.v.truth = true) (ht : setled a s = some t) :
    ∃ f valid l, f.truth = true ∧ t = { s with
      ledflg := f
      ledpin := a.pin.getD s.ledpin
      ledvalid := valid
      times := l
      pinset := a.pin.getD s.pinset
      timesset := s.timesset.configure a } := by
  have hconf : configured a s =
      { s with pinset := a.pin.getD s.pinset, timesset := s.timesset.configure a } := by
    rw [configured, if_pos hv]
  unfold setled at ht
  dsimp only at ht
  cases hc : changed a s with
  | true =>
      rw [if_pos hc, hconf, if_pos hv] at ht
      dsimp only at ht
      rw [if_pos hl] at ht
      have hn : Named { s with
          ledflg := a.v
          ledpin := a.pin.getD s.ledpin
          ledvalid := a.valid.getD s.ledvalid
          times := s.times.configure a
          pinset := a.pin.getD s.pinset
          timesset := s.timesset.configure a } := fun _ => h.named hl
      rw [hn.procled] at ht
      cases ht
      exact ⟨a.v, _, _, hv, rfl⟩
  | false =>
      rw [if_neg (by rw [hc]; exact Bool.false_ne_true), hconf] at ht
      cases ht
      refine ⟨s.ledflg, s.ledvalid, s.times, hl, ?_⟩
      rw [← (unchanged hc).2]

theorem setled_on {s t : State} {a : Args} (h : Going s) (hl : s.ledflg.truth = true)
    (hv : a.v.truth = true) (ht : setled a s = some t) :
    (Right t → keeps s (.setled a) = true) ∧ (keeps s (.setled a) = true → Going t) := by
  obtain ⟨f, valid, l, hf, rfl⟩ := setled_again h hl hv ht
  have hout : s.outputs = [s.pinset] := h.right.output hl
  have htimes := h.right.times hl
  rw [keeps_setled hv, if_pos hl]
  constructor
  · intro hr
    have hout' := hr.output hf
    have htimes' := hr.times hf
    dsimp only at hout' htimes'
    rw [hout] at hout'
    exact ⟨(List.singleton_injective hout').symm, htimes'.symm.trans htimes⟩
  · rintro ⟨hp, hset⟩
    have hpin : a.pin.getD s.ledpin = s.pinset := by rw [h.base.pin, hp]
    have hb : Base { s with
        ledflg := f
        ledpin := a.pin.getD s.ledpin
        ledvalid := valid
        times := l
        pinset := a.pin.getD s.pinset
        timesset := s.timesset.configure a } := by
      refine ⟨hpin.trans hp.symm, fun _ => ?_, fun hd => ?_, h.base.ready⟩
      · rw [hpin]
        exact hout
      · exact absurd (hd.symm.trans hf) Bool.false_ne_true
    refine ⟨hb, fun _ => h.named hl, hb.right_iff.mpr fun _ => ⟨?_, h.right.blinks hl⟩⟩
    exact htimes.trans hset.symm

/-- The light is enabled: the direction of the pin is set, and the light is turned off. -/
theorem setled_enable {s t : State} {a : Args} (h : Going s) (hl : s.ledflg.truth = false)
    (hv : a.v.truth = true) (ht : setled a s = some t) :
    Base t ∧ Named t ∧ (Right t ↔ keeps s (.setled a) = true) := by
  have hconf : configured a s =
      { s with pinset := a.pin.getD s.pinset, timesset := s.timesset.configure a } := by
    rw [configured, if_pos hv]
  have hl' : ¬s.ledflg.truth = true := by
    rw [hl]
    exact Bool.false_ne_true
  have hc : changed a s = true := by
    by_contra hc
    rw [Bool.not_eq_true] at hc
    rw [(unchanged hc).1] at hl'
    exact hl' hv
  obtain ⟨-, hoff, hout, hstate⟩ := h.base.closed hl
  unfold setled at ht
  dsimp only at ht
  rw [if_pos hc, hconf, if_pos hv] at ht
  dsimp only at ht
  rw [if_neg hl'] at ht
  have hb : Base { s with
      ledflg := a.v
      ledpin := a.pin.getD s.ledpin
      ledvalid := a.valid.getD s.ledvalid
      times := s.times.configure a
      outputs := s.outputs ++ [a.pin.getD s.ledpin]
      pinset := a.pin.getD s.pinset
      timesset := s.timesset.configure a } := by
    refine ⟨?_, fun _ => ?_, fun hd => ?_, h.base.ready⟩
    · rw [h.base.pin]
    · rw [hout, List.nil_append]
    · exact absurd (hd.symm.trans hv) Bool.false_ne_true
  obtain ⟨hbt, hnt, -, -⟩ := procled_named hb ht
  refine ⟨hbt, hnt, ?_⟩
  rw [hbt.right_iff, keeps_setled hv, if_neg hl']
  obtain ⟨hsame, -⟩ | ⟨-, -, ws, on, off, rfl, -, htimers⟩ := procled_spec hb ht
  · have hs := hsame hv
    rw [hstate] at hs
    cases hs
  · have hblinks := (blinks_shows ws htimers).mpr (.inr hoff)
    exact ⟨fun hr => (hr hv).1, fun hr _ => ⟨hr, hblinks⟩⟩

/-! ## Steps -/

/-- A timer is only active while the light blinks. -/
theorem Going.active {s : State} (h : Going s) (ht : s.ontimer ≠ none ∨ s.offtimer ≠ none) :
    s.ledflg.truth = true ∧ constant (s.ledontime, s.ledofftime) = false ∧
      s.ontimer.isSome ≠ s.offtimer.isSome := by
  have hl : s.ledflg.truth = true := by
    by_contra hl
    rw [Bool.not_eq_true] at hl
    obtain ⟨hon, hoff, -⟩ := h.base.closed hl
    exact ht.elim (absurd hon) (absurd hoff)
  have hb := h.right.blinks hl
  unfold Blinks at hb
  split at hb
  · obtain ht | ht := ht
    · exact absurd hb.1 ht
    · exact absurd hb.2 ht
  · rename_i hc
    exact ⟨hl, Bool.not_eq_true _ ▸ hc, hb⟩

/-- After a blink the light goes on with the other timer. -/
theorem Going.blinked {s : State} (h : Going s) {ws : List Write} {on off : Option ℤ}
    (hl : s.ledflg.truth = true) (hc : constant (s.ledontime, s.ledofftime) = false)
    (hw : ∀ w ∈ ws, w.ready = true) (ht : on.isSome ≠ off.isSome) :
    Going { s with writes := ws, ontimer := on, offtimer := off } := by
  have hb : Base { s with writes := ws, ontimer := on, offtimer := off } := by
    refine ⟨h.base.pin, h.base.output, fun hd => ?_, hw⟩
    exact absurd (hd.symm.trans hl) Bool.false_ne_true
  have hblinks : Blinks { s with writes := ws, ontimer := on, offtimer := off } := by
    unfold Blinks
    dsimp only
    rw [hc]
    exact ht
  exact ⟨hb, h.named, hb.right_iff.mpr fun _ => ⟨h.right.times hl, hblinks⟩⟩

theorem step_ledblinkon {s t : State} (h : Going s) (ht : step s .ledblinkon = some t) :
    Going t := by
  obtain ⟨hne, ht⟩ := Option.ite_none_left_eq_some.mp ht
  obtain ⟨hl, hc, hone⟩ := h.active (.inl hne)
  obtain ⟨ws, on, off, rfl, hw, htimers⟩ := ledblinkon_spec (s := { s with ontimer := none })
    h.base.pin (h.base.output hl) h.base.ready ht
  have hcn : ¬constant (s.ledontime, s.ledofftime) = true := by
    rw [hc]
    exact Bool.false_ne_true
  rw [if_neg hcn] at htimers
  obtain ⟨hoff, rfl⟩ := htimers
  exact h.blinked hl hc hw (by simp [hoff])

theorem step_ledblinkoff {s t : State} (h : Going s) (ht : step s .ledblinkoff = some t) :
    Going t := by
  obtain ⟨hne, ht⟩ := Option.ite_none_left_eq_some.mp ht
  obtain ⟨hl, hc, hone⟩ := h.active (.inr hne)
  obtain ⟨ws, on, off, rfl, hw, htimers⟩ := ledblinkoff_spec (s := { s with offtimer := none })
    h.base.pin (h.base.output hl) h.base.ready ht
  have hcn : ¬constant (s.ledontime, s.ledofftime) = true := by
    rw [hc]
    exact Bool.false_ne_true
  rw [if_neg hcn] at htimers
  obtain ⟨hon, rfl⟩ := htimers
  exact h.blinked hl hc hw (by simp [hon])

/-- A step keeps the light right exactly if it meets the condition. -/
theorem step_right {s t : State} {a : Act} (h : Going s) (ht : step s a = some t) :
    (Right t → keeps s a = true) ∧ (keeps s a = true → Going t) := by
  have hiff {k : Bool} (he : Base t ∧ Named t ∧ (Right t ↔ k = true)) :
      (Right t → k = true) ∧ (k = true → Going t) :=
    ⟨he.2.2.mp, fun hk => ⟨he.1, he.2.1, he.2.2.mpr hk⟩⟩
  cases a with
  | setled a =>
      cases hv : a.v.truth with
      | false =>
          have hk : keeps s (.setled a) = true := by simp [keeps, hv]
          exact ⟨fun _ => hk, fun _ => setled_off h hv ht⟩
      | true =>
          cases hl : s.ledflg.truth with
          | false => exact hiff (setled_enable h hl hv ht)
          | true => exact setled_on h hl hv ht
  | SIM_IND para => exact hiff (simind_right h ht)
  | FLYMODE_IND para =>
      cases para with
      | false => exact hiff (flyind_right h ht)
      | true => exact hiff (h.event (flyind_true h.named ht))
  | CREG data =>
      rw [step, creg_eq h.named] at ht
      cases hr : registration data with
      | none =>
          have hk : keeps s (.CREG data) = true := by simp [keeps, hr]
          rw [hr] at ht
          cases ht
          exact ⟨fun _ => hk, fun _ => h⟩
      | some r =>
          have hk : keeps s (.CREG data) = passes (State.cond { s with state := r }) s := by
            simp [keeps, hr]
          rw [hr] at ht
          rw [hk]
          exact hiff (h.event ht)
  | NET_GPRS_READY v =>
      rw [step, cgattind_eq h.named] at ht
      exact hiff (h.event ht)
  | USER_SOCKET_CONNECT v =>
      rw [step, usersckind_eq h.named] at ht
      exact hiff (h.event ht)
  | ledblinkon => exact ⟨fun _ => rfl, fun _ => step_ledblinkon h ht⟩
  | ledblinkoff => exact ⟨fun _ => rfl, fun _ => step_ledblinkoff h ht⟩

theorem loaded_going : Going loaded := by
  refine Base.dark ⟨rfl, nofun, fun _ => ⟨rfl, rfl, rfl, rfl⟩, ?_⟩ rfl
  intro w hw
  cases hw

/-- The light is right exactly in the runs in which, while it is on, neither its pin nor the times
it shows are changed, no condition is shown with times given in a call that went unnoticed,
and the light is not in its time on when another blinking begins. -/
theorem led_right_iff (acts : List Act) :
    Along step Right loaded acts ↔ Meets step (fun s a => keeps s a = true) loaded acts := by
  refine along_iff_meets_under (Q := Going) (H := fun _ _ => True) (fun s h => h.right) ?_ ?_
    loaded_going (meets_true loaded acts)
  · exact fun s a t _ h hk ht => (step_right h ht).2 hk
  · exact fun s a t _ h hr ht => (step_right h ht).1 hr

/-- The arguments of `setled(true)`. -/
def plain : Args :=
  ⟨.bool true, none, none, none, none, none, none, none, none, none, none, none, none, none, none⟩

/-- After registration in the time on of the light both timers are active. -/
theorem both_timers : ¬Along step Right loaded
    [.setled plain, .ledblinkon, .CREG (lua "+CREG: 1")] := by
  intro h
  have hrun : (run step loaded [.setled plain, .ledblinkon, .CREG (lua "+CREG: 1")]).map
      (fun s => decide (s.ledflg.truth = true ∧ ¬Blinks s)) = some true := by
    decide
  obtain ⟨t, ht, he⟩ := Option.map_eq_some_iff.mp hrun
  obtain ⟨hl, hn⟩ := of_decide_eq_true he
  exact hn ((h.last ht).blinks hl)

/-- New times for the condition that is shown are not applied. -/
example : (run step loaded [.setled plain, .setled { plain with idleon := some 500 }]).map
    (fun s => (s.cond, s.ledontime, s.times.ledidleon)) = some (.IDLE, 300, 500) := by
  decide

/-- A new pin is driven without its direction. -/
example : (run step loaded [.setled plain, .setled { plain with pin := some 8 }, .ledblinkon]).map
    (fun s => (s.outputs, s.writes.getLast?)) = some ([15], some ⟨8, true, false⟩) := by
  decide

/-- New times for flight mode alone go unnoticed when all the times for it and for SIM errors are
given. -/
example : (run step loaded [.setled plain, .setled { plain with
    flymodeon := some 100, flymodeoff := some 100, simerron := some 300, simerroff := some 5700 },
    .FLYMODE_IND true]).map (fun s => (s.ledontime, s.timesset.ledflymodeon)) = some (0, 100) := by
  decide

end LuatAir200.Net.Led
