import LuatAir200.LuaString
import LuatAir200.Machine

/-!
# `net.lua`: the periodic queries

The indicator light is left out. The signal and the cells are queried again and again by two
timers, each of which starts itself. A period is in milliseconds. The message of `setworkmode`
is delivered later.
-/
namespace LuatAir200.Net
open Lua Machine

/-- The state of the registration. -/
inductive Reg
  | INIT | REGISTERED | UNREGISTER
  deriving DecidableEq

/-- What a line with `+CREG` says. -/
def registration (data : LuaString) : Option Reg :=
  ((smatch1 data (lua "%d,(%d)")).orElse fun _ => smatch1 data (lua "(%d)")).map fun p1 =>
    if p1 = lua "1" ∨ p1 = lua "5" then .REGISTERED else .UNREGISTER

inductive WorkMode
  | SIMPLE_MODE | FULL_MODE
  deriving DecidableEq

/-- History: the last periods set, and the one set last at each query by `startcengtimer`. -/
structure Queries where
  state : Reg
  csqqrypriod : ℤ
  cengqrypriod : Option ℤ
  flymode : Bool
  csqswitch : Bool
  cengswitch : Bool
  workmode : WorkMode
  /-- The work mode indications that are not yet delivered. -/
  inds : ℕ
  /-- The timers of `startcsqtimer` and `startcengtimer`, with their periods. -/
  csqtimer : Option ℤ
  cengtimer : Option ℤ
  req : List LuaString
  csqset : Option ℤ
  cengset : Option ℤ
  chained : List (Option ℤ)
  deriving DecidableEq

def Queries.init : Queries where
  state := .INIT
  csqqrypriod := 60 * 1000
  cengqrypriod := none
  flymode := false
  csqswitch := false
  cengswitch := false
  workmode := .FULL_MODE
  inds := 0
  csqtimer := some (8 * 1000)
  cengtimer := none
  req := [lua "AT+CREG=2", lua "AT+CREG?", lua "AT+CENG=1,1"]
  csqset := none
  cengset := none
  chained := []

/-! ## Queries -/

def request (cmd : LuaString) (s : Queries) : Queries := { s with req := s.req ++ [cmd] }

def csqquery (s : Queries) : Queries := if s.flymode then s else request (lua "AT+CSQ") s

def cengquery (s : Queries) : Queries := if s.flymode then s else request (lua "AT+CENG?") s

/-- `sys.timer_start` asserts that the period is positive. -/
def startcsqtimer (s : Queries) : Option Queries :=
  if !s.flymode ∧ (s.csqswitch ∨ s.workmode = .FULL_MODE) then
    let s := csqquery s
    if 0 < s.csqqrypriod then some { s with csqtimer := some s.csqqrypriod } else none
  else some s

def startcengtimer (s : Queries) : Option Queries :=
  match s.cengqrypriod with
  | none => some s
  | some p =>
      if !s.flymode ∧ (s.cengswitch ∨ s.workmode = .FULL_MODE) then
        let s := { cengquery s with chained := s.chained ++ [s.cengset] }
        if 0 < p then some { s with cengtimer := some p } else none
      else some s

def setcsqqueryperiod (period : ℤ) (s : Queries) : Option Queries :=
  startcsqtimer { s with csqqrypriod := period, csqset := some period }

def setcengqueryperiod (period : ℤ) (s : Queries) : Option Queries :=
  let s := { s with cengset := some period }
  if some period = s.cengqrypriod then some s
  else if period ≤ 0 then some { s with cengtimer := none }
  else startcengtimer { s with cengqrypriod := some period }

def setcsqswitch (v : Bool) (s : Queries) : Option Queries :=
  let s := { s with csqswitch := v }
  if v ∧ !s.flymode then startcsqtimer s else some s

def setcengswitch (v : Bool) (s : Queries) : Option Queries :=
  let s := { s with cengswitch := v }
  if v ∧ !s.flymode then startcengtimer s else some s

/-! ## Events -/

def creg (data : LuaString) (s : Queries) : Option Queries :=
  match registration data with
  | none => some s
  | some r =>
      if r = s.state then some s
      else
        (if s.cengqrypriod = none ∧ r = .REGISTERED then setcengqueryperiod 60000 s
          else some (cengquery s)).map fun s => { s with state := r }

/-- `neturc` for `+CREG`. -/
def neturc (data : LuaString) (s : Queries) : Option Queries := creg data (csqquery s)

def simind (para : LuaString) (s : Queries) : Queries :=
  if para = lua "RDY" then s else { s with state := .UNREGISTER }

def flyind (para : Bool) (s : Queries) : Option Queries :=
  let s := { s with flymode := para }
  if para then some s
  else (startcsqtimer s).bind fun s => (startcengtimer s).bind (neturc (lua "2"))

def workmodeind (s : Queries) : Option Queries :=
  (startcengtimer s).bind startcsqtimer

/-- `sys.setworkmode` -/
def setworkmode (v : WorkMode) (s : Queries) : Queries :=
  if s.workmode = v then s else { s with workmode := v, inds := s.inds + 1 }

inductive Act
  | setcsqqueryperiod (period : ℤ)
  | setcengqueryperiod (period : ℤ)
  | setcsqswitch (v : Bool)
  | setcengswitch (v : Bool)
  | setworkmode (v : WorkMode)
  | CREG (data : LuaString)
  | SIM_IND (para : LuaString)
  | FLYMODE_IND (para : Bool)
  | SYS_WORKMODE_IND
  /-- A timer expires. -/
  | startcsqtimer
  | startcengtimer
  deriving DecidableEq

def step (s : Queries) : Act → Option Queries
  | .setcsqqueryperiod period => setcsqqueryperiod period s
  | .setcengqueryperiod period => setcengqueryperiod period s
  | .setcsqswitch v => setcsqswitch v s
  | .setcengswitch v => setcengswitch v s
  | .setworkmode v => some (setworkmode v s)
  | .CREG data => neturc data s
  | .SIM_IND para => some (simind para s)
  | .FLYMODE_IND para => flyind para s
  | .SYS_WORKMODE_IND => if s.inds = 0 then none else workmodeind { s with inds := s.inds - 1 }
  | .startcsqtimer => if s.csqtimer = none then none else startcsqtimer { s with csqtimer := none }
  | .startcengtimer =>
      if s.cengtimer = none then none else startcengtimer { s with cengtimer := none }

/-! ## The queries run -/

/-- The work mode is full, and this has been indicated. -/
def Queries.full (s : Queries) : Prop := s.workmode = .FULL_MODE ∧ s.inds = 0

def Queries.csqon (s : Queries) : Prop := s.flymode = false ∧ (s.csqswitch = true ∨ s.full)

def Queries.cengon (s : Queries) : Prop := s.flymode = false ∧ (s.cengswitch = true ∨ s.full)

instance (s : Queries) : Decidable s.full := by
  unfold Queries.full
  infer_instance

instance (s : Queries) : Decidable s.csqon := by
  unfold Queries.csqon
  infer_instance

instance (s : Queries) : Decidable s.cengon := by
  unfold Queries.cengon
  infer_instance

/-- Both timers are active with the periods set last, as long as these are positive and the
queries are on. Before a period of the signal is set, any will do. The cells were only queried
by their timer while the last period was positive. -/
structure Periodic (s : Queries) : Prop where
  csq : s.csqon → match s.csqset with
    | none => s.csqtimer.isSome
    | some p => 0 < p → s.csqtimer = some p
  ceng : ∀ p, s.cengset = some p → 0 < p → s.cengon → s.cengtimer = some p
  quiet : ∀ o ∈ s.chained, ∃ p, o = some p ∧ 0 < p

/-- The queries of the cells are stopped, and the former period is kept. -/
def Stopped (s : Queries) : Prop :=
  (s.cengset.any fun p => p ≤ 0) = true ∧ s.cengqrypriod.isSome = true

instance (s : Queries) : Decidable (Stopped s) := by
  unfold Stopped
  infer_instance

/-- The condition on actions: while the queries of the cells are stopped, nothing starts their
timer, and the former period is not set again. -/
def leaves (s : Queries) : Act → Bool
  | .setcengqueryperiod period => ¬(Stopped s ∧ s.cengqrypriod = some period ∧ s.cengon)
  | .setcengswitch v => ¬(Stopped s ∧ v ∧ !s.flymode)
  | .FLYMODE_IND para => ¬(Stopped s ∧ !para ∧ (s.cengswitch ∨ s.workmode = .FULL_MODE))
  | .SYS_WORKMODE_IND =>
      ¬(Stopped s ∧ !s.flymode ∧ (s.cengswitch ∨ s.workmode = .FULL_MODE))
  | .setcsqqueryperiod _ | .setcsqswitch _ | .setworkmode _ | .CREG _ | .SIM_IND _ | .startcsqtimer
  | .startcengtimer => true

/-! ## What the functions do -/

/-- The queries of the signal go on at the next expiry. -/
def csqenabled (s : Queries) : Prop :=
  s.flymode = false ∧ (s.csqswitch = true ∨ s.workmode = .FULL_MODE)

def cengenabled (s : Queries) : Prop :=
  s.flymode = false ∧ (s.cengswitch = true ∨ s.workmode = .FULL_MODE)

theorem Queries.csqon.enabled {s : Queries} (h : s.csqon) : csqenabled s :=
  ⟨h.1, h.2.imp_right And.left⟩

theorem Queries.cengon.enabled {s : Queries} (h : s.cengon) : cengenabled s :=
  ⟨h.1, h.2.imp_right And.left⟩

/-- A timer function starts its timer if the queries go on, and else does nothing. -/
theorem startcsqtimer_cases {s t : Queries} (h : startcsqtimer s = some t) :
    (csqenabled s ∧ ∃ r, t = { s with req := r, csqtimer := some s.csqqrypriod }) ∨
      (¬csqenabled s ∧ t = s) := by
  have hiff : (!s.flymode ∧ (s.csqswitch ∨ s.workmode = .FULL_MODE)) ↔ csqenabled s := by
    simp [csqenabled]
  unfold startcsqtimer at h
  split at h
  · rename_i he
    dsimp only at h
    split at h
    · cases h
      refine .inl ⟨hiff.mp he, ?_⟩
      unfold csqquery
      split
      · exact ⟨s.req, rfl⟩
      · exact ⟨_, rfl⟩
    · cases h
  · rename_i he
    cases h
    exact .inr ⟨mt hiff.mpr he, rfl⟩

theorem startcengtimer_cases {s t : Queries} (h : startcengtimer s = some t) :
    (∃ p r, cengenabled s ∧ s.cengqrypriod = some p ∧
        t = { s with req := r, cengtimer := some p, chained := s.chained ++ [s.cengset] }) ∨
      ((¬cengenabled s ∨ s.cengqrypriod = none) ∧ t = s) := by
  have hiff : (!s.flymode ∧ (s.cengswitch ∨ s.workmode = .FULL_MODE)) ↔ cengenabled s := by
    simp [cengenabled]
  unfold startcengtimer at h
  split at h
  · rename_i hp
    cases h
    exact .inr ⟨.inr hp, rfl⟩
  · rename_i p hp
    split at h
    · rename_i he
      dsimp only at h
      split at h
      · cases h
        refine .inl ⟨p, ?_⟩
        unfold cengquery
        split
        · exact ⟨s.req, hiff.mp he, hp, rfl⟩
        · exact ⟨_, hiff.mp he, hp, rfl⟩
      · cases h
    · rename_i he
      cases h
      exact .inr ⟨.inl (mt hiff.mpr he), rfl⟩

theorem csqquery_cases (s : Queries) : ∃ r, csqquery s = { s with req := r } := by
  unfold csqquery
  split
  · exact ⟨s.req, rfl⟩
  · exact ⟨_, rfl⟩

theorem cengquery_cases (s : Queries) : ∃ r, cengquery s = { s with req := r } := by
  unfold cengquery
  split
  · exact ⟨s.req, rfl⟩
  · exact ⟨_, rfl⟩

theorem startcsqtimer_stopped {s t : Queries} (h : startcsqtimer s = some t) :
    Stopped t ↔ Stopped s := by
  obtain ⟨-, r, rfl⟩ | ⟨-, rfl⟩ := startcsqtimer_cases h <;> rfl

theorem startcsqtimer_cengenabled {s t : Queries} (h : startcsqtimer s = some t) :
    cengenabled t ↔ cengenabled s := by
  obtain ⟨-, r, rfl⟩ | ⟨-, rfl⟩ := startcsqtimer_cases h <;> rfl

theorem setcengqueryperiod_cases {s t : Queries} {p : ℤ} (h : setcengqueryperiod p s = some t) :
    (s.cengqrypriod = some p ∧ t = { s with cengset := some p }) ∨
      (p ≤ 0 ∧ t = { s with cengset := some p, cengtimer := none }) ∨
      (0 < p ∧ startcengtimer { s with cengset := some p, cengqrypriod := some p } = some t) := by
  unfold setcengqueryperiod at h
  dsimp only at h
  split at h
  · rename_i hp
    cases h
    exact .inl ⟨hp.symm, rfl⟩
  split at h
  · rename_i hp
    cases h
    exact .inr (.inl ⟨hp, rfl⟩)
  · rename_i hp
    exact .inr (.inr ⟨Int.not_le.mp hp, h⟩)

/-- A change of the registration sets the first period of the cells. -/
theorem neturc_cases {s t : Queries} {data : LuaString} (h : neturc data s = some t) :
    ∃ u r, t = { u with state := r } ∧ ((∃ q, u = { s with req := q }) ∨
      s.cengqrypriod = none ∧ ∃ q, setcengqueryperiod 60000 { s with req := q } = some u) := by
  obtain ⟨q, hq⟩ := csqquery_cases s
  rw [neturc, hq] at h
  unfold creg at h
  split at h
  · cases h
    exact ⟨_, s.state, rfl, .inl ⟨q, rfl⟩⟩
  · rename_i r hr
    split at h
    · cases h
      exact ⟨_, s.state, rfl, .inl ⟨q, rfl⟩⟩
    · obtain ⟨u, hu, rfl⟩ := Option.map_eq_some_iff.mp h
      refine ⟨u, r, rfl, ?_⟩
      split at hu
      · rename_i hn
        exact .inr ⟨hn.1, q, hu⟩
      · cases hu
        obtain ⟨q', hq'⟩ := cengquery_cases { s with req := q }
        exact .inl ⟨q', hq'⟩

/-! ## The signal -/

/-- The timer of the signal is active while it has to be, with the period that is kept. -/
structure Csq (s : Queries) : Prop where
  period : ∀ p, s.csqset = some p → s.csqqrypriod = p
  timer : s.csqon → s.csqtimer.isSome ∧ (s.csqset.isSome → s.csqtimer = some s.csqqrypriod)

theorem Csq.started {s t : Queries} (h : ∀ p, s.csqset = some p → s.csqqrypriod = p)
    (ht : startcsqtimer s = some t) : Csq t := by
  obtain ⟨-, r, rfl⟩ | ⟨hn, rfl⟩ := startcsqtimer_cases ht
  · exact ⟨h, fun _ => ⟨rfl, fun _ => rfl⟩⟩
  · exact ⟨h, fun hon => absurd hon.enabled hn⟩

/-- The timer goes on when the queries are on no more often than before. -/
theorem Csq.congr {s t : Queries} (h : Csq s) (hset : t.csqset = s.csqset)
    (hperiod : t.csqqrypriod = s.csqqrypriod) (htimer : t.csqtimer = s.csqtimer)
    (hon : t.csqon → s.csqon) : Csq t := by
  refine ⟨?_, fun ht => ?_⟩
  · rw [hset, hperiod]
    exact h.period
  · rw [hset, hperiod, htimer]
    exact h.timer (hon ht)

theorem Csq.right {s : Queries} (h : Csq s) (hon : s.csqon) : match s.csqset with
    | none => s.csqtimer.isSome
    | some p => 0 < p → s.csqtimer = some p := by
  obtain ⟨hsome, htimer⟩ := h.timer hon
  cases hset : s.csqset with
  | none => exact hsome
  | some p =>
      intro _
      rw [htimer (by rw [hset]; rfl), h.period p hset]

theorem Csq.startceng {s t : Queries} (h : Csq s) (ht : startcengtimer s = some t) : Csq t := by
  obtain ⟨p, r, -, -, rfl⟩ | ⟨-, rfl⟩ := startcengtimer_cases ht
  · exact ⟨h.period, h.timer⟩
  · exact h

theorem Csq.setceng {s t : Queries} {p : ℤ} (h : Csq s) (ht : setcengqueryperiod p s = some t) :
    Csq t := by
  obtain ⟨-, rfl⟩ | ⟨-, rfl⟩ | ⟨-, hs⟩ := setcengqueryperiod_cases ht
  · exact ⟨h.period, h.timer⟩
  · exact ⟨h.period, h.timer⟩
  · exact Csq.startceng (s := { s with cengset := some p, cengqrypriod := some p })
      ⟨h.period, h.timer⟩ hs

theorem Csq.neturc {s t : Queries} {data : LuaString} (h : Csq s)
    (ht : Net.neturc data s = some t) : Csq t := by
  obtain ⟨u, r, rfl, ⟨q, rfl⟩ | ⟨-, q, hu⟩⟩ := neturc_cases ht
  · exact ⟨h.period, h.timer⟩
  · have hs : Csq { s with req := q } := ⟨h.period, h.timer⟩
    have hu := hs.setceng hu
    exact ⟨hu.period, hu.timer⟩

/-! ## The cells -/

/-- What the period that is kept says about the one set last. -/
structure Kept (s : Queries) : Prop where
  stored : ∀ p, s.cengqrypriod = some p → 0 < p ∧ s.cengset.isSome
  last : ∀ p, s.cengset = some p → 0 < p → s.cengqrypriod = some p
  stopped : ∀ p, s.cengset = some p → p ≤ 0 → s.cengtimer = none
  unset : s.cengset = none → s.cengtimer = none
  quiet : ∀ o ∈ s.chained, ∃ p, o = some p ∧ 0 < p

/-- The timer of the cells is active while it has to be. -/
def Runs (s : Queries) : Prop :=
  ∀ p, s.cengset = some p → 0 < p → s.cengon → s.cengtimer = some p

theorem Kept.congr {s t : Queries} (h : Kept s) (hset : t.cengset = s.cengset)
    (hperiod : t.cengqrypriod = s.cengqrypriod) (htimer : t.cengtimer = s.cengtimer)
    (hchained : t.chained = s.chained) : Kept t := by
  refine ⟨?_, ?_, ?_, ?_, ?_⟩
  · rw [hperiod, hset]
    exact h.stored
  · rw [hperiod, hset]
    exact h.last
  · rw [hset, htimer]
    exact h.stopped
  · rw [hset, htimer]
    exact h.unset
  · rw [hchained]
    exact h.quiet

theorem stopped_iff (s : Queries) :
    Stopped s ↔ (∃ p, s.cengset = some p ∧ p ≤ 0) ∧ s.cengqrypriod.isSome := by
  simp [Stopped, Option.any_eq_true]

theorem Kept.started {s t : Queries} (h : Kept s) (hn : cengenabled s → ¬Stopped s)
    (ht : startcengtimer s = some t) : Kept t ∧ Runs t := by
  obtain ⟨p, r, he, hp, rfl⟩ | ⟨hoff, rfl⟩ := startcengtimer_cases ht
  · obtain ⟨hpos, hset⟩ := h.stored p hp
    obtain ⟨q, hq⟩ := Option.isSome_iff_exists.mp hset
    have hqpos : 0 < q := by
      by_contra hle
      exact hn he ((stopped_iff s).mpr ⟨⟨q, hq, Int.not_lt.mp hle⟩, by rw [hp]; rfl⟩)
    have hpq : q = p := by
      have hlast := h.last q hq hqpos
      rw [hp] at hlast
      exact (Option.some.inj hlast).symm
    subst hpq
    refine ⟨⟨h.stored, h.last, ?_, ?_, ?_⟩, ?_⟩
    · intro x hx hle
      dsimp only at hx
      rw [hq] at hx
      cases hx
      omega
    · intro hnone
      dsimp only at hnone
      rw [hq] at hnone
      cases hnone
    · intro o ho
      obtain ho | ho := List.mem_append.mp ho
      · exact h.quiet o ho
      · rw [List.mem_singleton] at ho
        exact ⟨q, ho.trans hq, hqpos⟩
    · intro x hx _ _
      dsimp only at hx ⊢
      rw [← hx, hq]
  · refine ⟨h, fun p hset hpos hon => ?_⟩
    obtain hn | hnone := hoff
    · exact absurd hon.enabled hn
    · rw [h.last p hset hpos] at hnone
      cases hnone

/-- A query by the timer function while the queries are stopped. -/
def Stray (s : Queries) : Prop := ∃ o ∈ s.chained, ¬∃ p, o = some p ∧ 0 < p

theorem Stopped.stray {s t : Queries} (h : Stopped s) (he : cengenabled s)
    (ht : startcengtimer s = some t) : Stray t := by
  obtain ⟨⟨q, hq, hle⟩, hsome⟩ := (stopped_iff s).mp h
  obtain ⟨p, r, -, -, rfl⟩ | ⟨hn | hnone, rfl⟩ := startcengtimer_cases ht
  · refine ⟨s.cengset, by simp, ?_⟩
    rintro ⟨x, hx, hpos⟩
    rw [hq] at hx
    cases hx
    omega
  · exact absurd he hn
  · rw [hnone] at hsome
    cases hsome

theorem Stray.startcsq {s t : Queries} (h : Stray s) (ht : startcsqtimer s = some t) : Stray t := by
  obtain ⟨-, r, rfl⟩ | ⟨-, rfl⟩ := startcsqtimer_cases ht <;> exact h

theorem Stray.startceng {s t : Queries} (h : Stray s) (ht : startcengtimer s = some t) :
    Stray t := by
  obtain ⟨p, r, -, -, rfl⟩ | ⟨-, rfl⟩ := startcengtimer_cases ht
  · obtain ⟨o, ho, hn⟩ := h
    exact ⟨o, List.mem_append_left _ ho, hn⟩
  · exact h

theorem Stray.setceng {s t : Queries} {p : ℤ} (h : Stray s)
    (ht : setcengqueryperiod p s = some t) : Stray t := by
  obtain ⟨-, rfl⟩ | ⟨-, rfl⟩ | ⟨-, hs⟩ := setcengqueryperiod_cases ht
  · exact h
  · exact h
  · have hset : Stray { s with cengset := some p, cengqrypriod := some p } := h
    exact hset.startceng hs

theorem Stray.neturc {s t : Queries} {data : LuaString} (h : Stray s)
    (ht : Net.neturc data s = some t) : Stray t := by
  obtain ⟨u, r, rfl, ⟨q, rfl⟩ | ⟨-, q, hu⟩⟩ := neturc_cases ht
  · exact h
  · have hs : Stray { s with req := q } := h
    have hu := hs.setceng hu
    exact hu

/-! ## Steps -/

/-- All that the runs keep. -/
structure Going (s : Queries) : Prop where
  csq : Csq s
  kept : Kept s
  runs : Runs s

theorem Going.periodic {s : Queries} (h : Going s) : Periodic s :=
  ⟨h.csq.right, h.runs, h.kept.quiet⟩

theorem Periodic.not_stray {s : Queries} (h : Periodic s) : ¬Stray s := by
  rintro ⟨o, ho, hn⟩
  exact hn (h.quiet o ho)

theorem Kept.startcsq {s t : Queries} (h : Kept s) (ht : startcsqtimer s = some t) : Kept t := by
  obtain ⟨-, r, rfl⟩ | ⟨-, rfl⟩ := startcsqtimer_cases ht
  · exact h.congr rfl rfl rfl rfl
  · exact h

theorem Runs.startcsq {s t : Queries} (h : Runs s) (ht : startcsqtimer s = some t) : Runs t := by
  obtain ⟨-, r, rfl⟩ | ⟨-, rfl⟩ := startcsqtimer_cases ht
  · exact h
  · exact h

/-- A new period is kept, unless it only stops the timer. -/
theorem Kept.setceng {s t : Queries} {p : ℤ} (h : Kept s) (hr : Runs s)
    (hg : ¬(Stopped s ∧ s.cengqrypriod = some p ∧ s.cengon))
    (ht : setcengqueryperiod p s = some t) : Kept t ∧ Runs t := by
  obtain ⟨hp, rfl⟩ | ⟨hle, rfl⟩ | ⟨hpos, hs⟩ := setcengqueryperiod_cases ht
  · obtain ⟨hpos, hset⟩ := h.stored p hp
    refine ⟨⟨fun x hx => ⟨(h.stored x hx).1, rfl⟩, ?_, ?_, nofun, h.quiet⟩, ?_⟩
    · rintro x ⟨⟩ -
      exact hp
    · rintro x ⟨⟩ hle
      omega
    · rintro x ⟨⟩ - hon
      obtain ⟨q, hq⟩ := Option.isSome_iff_exists.mp hset
      by_cases hqpos : 0 < q
      · have hlast := h.last q hq hqpos
        rw [hp] at hlast
        rw [Option.some.inj hlast]
        exact hr q hq hqpos hon
      · have hstop : Stopped s :=
          (stopped_iff s).mpr ⟨⟨q, hq, Int.not_lt.mp hqpos⟩, by rw [hp]; rfl⟩
        exact absurd ⟨hstop, hp, hon⟩ hg
  · refine ⟨⟨fun x hx => ⟨(h.stored x hx).1, rfl⟩, ?_, fun _ _ _ => rfl, fun _ => rfl,
      h.quiet⟩, ?_⟩
    · rintro x ⟨⟩ hpos
      omega
    · rintro x ⟨⟩ hpos
      omega
  · have hset : Kept { s with cengset := some p, cengqrypriod := some p } := by
      refine ⟨?_, fun _ hx _ => hx, ?_, nofun, h.quiet⟩
      · rintro x ⟨⟩
        exact ⟨hpos, rfl⟩
      · rintro x ⟨⟩ hle
        omega
    refine hset.started (fun _ hstop => ?_) hs
    obtain ⟨⟨q, ⟨⟩, hle⟩, -⟩ := (stopped_iff _).mp hstop
    omega

theorem Going.neturc {s t : Queries} {data : LuaString} (h : Going s)
    (ht : Net.neturc data s = some t) : Going t := by
  have hcsq : Csq t := h.csq.neturc ht
  obtain ⟨u, r, rfl, ⟨q, rfl⟩ | ⟨hnone, q, hu⟩⟩ := neturc_cases ht
  · exact ⟨hcsq, h.kept.congr rfl rfl rfl rfl, h.runs⟩
  · have hs : Kept { s with req := q } :=
      h.kept.congr rfl rfl rfl rfl
    have hg : ¬(Stopped { s with req := q } ∧ s.cengqrypriod = some 60000 ∧ s.cengon) := by
      rintro ⟨-, hp, -⟩
      rw [hnone] at hp
      cases hp
    obtain ⟨hk, hr⟩ := hs.setceng h.runs hg hu
    exact ⟨hcsq, hk.congr rfl rfl rfl rfl, hr⟩

theorem flyind_cases {s t : Queries} {para : Bool} (h : flyind para s = some t) :
    (para = true ∧ t = { s with flymode := true }) ∨
      ∃ u v, para = false ∧ startcsqtimer { s with flymode := false } = some u ∧
        startcengtimer u = some v ∧ neturc (lua "2") v = some t := by
  unfold flyind at h
  dsimp only at h
  split at h
  · rename_i hp
    cases h
    exact .inl ⟨hp, by rw [hp]⟩
  · rename_i hp
    rw [Bool.not_eq_true] at hp
    subst hp
    obtain ⟨u, hu, h⟩ := Option.bind_eq_some_iff.mp h
    obtain ⟨v, hv, h⟩ := Option.bind_eq_some_iff.mp h
    exact .inr ⟨u, v, rfl, hu, hv, h⟩

theorem setcengswitch_cases {s t : Queries} {v : Bool} (h : setcengswitch v s = some t) :
    (v = true ∧ s.flymode = false ∧ startcengtimer { s with cengswitch := true } = some t) ∨
      (¬(v = true ∧ s.flymode = false) ∧ t = { s with cengswitch := v }) := by
  unfold setcengswitch at h
  dsimp only at h
  split at h
  · rename_i hv
    obtain ⟨rfl, hf⟩ := hv
    exact .inl ⟨rfl, by simpa using hf, h⟩
  · rename_i hv
    cases h
    exact .inr ⟨by simpa using hv, rfl⟩

theorem setcsqswitch_cases {s t : Queries} {v : Bool} (h : setcsqswitch v s = some t) :
    (v = true ∧ s.flymode = false ∧ startcsqtimer { s with csqswitch := true } = some t) ∨
      (¬(v = true ∧ s.flymode = false) ∧ t = { s with csqswitch := v }) := by
  unfold setcsqswitch at h
  dsimp only at h
  split at h
  · rename_i hv
    obtain ⟨rfl, hf⟩ := hv
    exact .inl ⟨rfl, by simpa using hf, h⟩
  · rename_i hv
    cases h
    exact .inr ⟨by simpa using hv, rfl⟩

/-- Steps under the condition keep the queries going. -/
theorem step_going {s t : Queries} {a : Act} (h : Going s) (hg : leaves s a = true)
    (ht : step s a = some t) : Going t := by
  cases a with
  | setcsqqueryperiod period =>
      have hk : Kept { s with csqqrypriod := period, csqset := some period } :=
        h.kept.congr rfl rfl rfl rfl
      have hr : Runs { s with csqqrypriod := period, csqset := some period } := h.runs
      refine ⟨Csq.started ?_ ht, hk.startcsq ht, hr.startcsq ht⟩
      rintro x ⟨⟩
      rfl
  | setcengqueryperiod period =>
      rw [leaves, decide_eq_true_eq] at hg
      obtain ⟨hk, hr⟩ := h.kept.setceng h.runs hg ht
      exact ⟨h.csq.setceng ht, hk, hr⟩
  | setcsqswitch v =>
      obtain ⟨-, -, hs⟩ | ⟨hv, rfl⟩ := setcsqswitch_cases ht
      · have hk : Kept { s with csqswitch := true } :=
          h.kept.congr rfl rfl rfl rfl
        have hr : Runs { s with csqswitch := true } := h.runs
        exact ⟨Csq.started (s := { s with csqswitch := true }) h.csq.period hs, hk.startcsq hs,
          hr.startcsq hs⟩
      · refine ⟨⟨h.csq.period, ?_⟩,
          h.kept.congr rfl rfl rfl rfl, h.runs⟩
        rintro ⟨hf, hon⟩
        refine h.csq.timer ⟨hf, .inr ?_⟩
        exact hon.resolve_left fun hv' => hv ⟨hv', hf⟩
  | setcengswitch v =>
      rw [leaves, decide_eq_true_eq] at hg
      obtain ⟨rfl, hf, hs⟩ | ⟨hv, rfl⟩ := setcengswitch_cases ht
      · have hk : Kept { s with cengswitch := true } :=
          h.kept.congr rfl rfl rfl rfl
        have hc : Csq { s with cengswitch := true } := ⟨h.csq.period, h.csq.timer⟩
        have hn : ¬Stopped { s with cengswitch := true } := fun hstop =>
          hg ⟨hstop, rfl, by rw [hf]; rfl⟩
        obtain ⟨hk, hr⟩ := hk.started (fun _ => hn) hs
        exact ⟨hc.startceng hs, hk, hr⟩
      · refine ⟨⟨h.csq.period, h.csq.timer⟩,
          h.kept.congr rfl rfl rfl rfl, ?_⟩
        rintro p hset hpos ⟨hf, hon⟩
        refine h.runs p hset hpos ⟨hf, .inr ?_⟩
        exact hon.resolve_left fun hv' => hv ⟨hv', hf⟩
  | setworkmode v =>
      cases ht
      unfold setworkmode
      split
      · exact h
      · refine ⟨⟨h.csq.period, ?_⟩, h.kept.congr rfl rfl rfl rfl, ?_⟩
        · rintro ⟨hf, hon | hfull⟩
          · exact h.csq.timer ⟨hf, .inl hon⟩
          · cases hfull.2
        · rintro p hset hpos ⟨hf, hon | hfull⟩
          · exact h.runs p hset hpos ⟨hf, .inl hon⟩
          · cases hfull.2
  | CREG data => exact h.neturc ht
  | SIM_IND para =>
      cases ht
      unfold simind
      split
      · exact h
      · exact ⟨⟨h.csq.period, h.csq.timer⟩, h.kept.congr rfl rfl rfl rfl, h.runs⟩
  | FLYMODE_IND para =>
      rw [leaves, decide_eq_true_eq] at hg
      obtain ⟨rfl, rfl⟩ | ⟨u, v, rfl, hu, hv, hn⟩ := flyind_cases ht
      · refine ⟨⟨h.csq.period, ?_⟩, h.kept.congr rfl rfl rfl rfl, ?_⟩
        · rintro ⟨⟨⟩, -⟩
        · rintro p - - ⟨⟨⟩, -⟩
      · have hk : Kept { s with flymode := false } := h.kept.congr rfl rfl rfl rfl
        have hc : Csq u := Csq.started (s := { s with flymode := false }) h.csq.period hu
        have hstop : cengenabled u → ¬Stopped u := by
          rw [startcsqtimer_stopped hu, startcsqtimer_cengenabled hu]
          exact fun he hs => hg ⟨hs, rfl, he.2⟩
        obtain ⟨hkv, hrv⟩ := (hk.startcsq hu).started hstop hv
        exact Going.neturc ⟨hc.startceng hv, hkv, hrv⟩ hn
  | SYS_WORKMODE_IND =>
      rw [leaves, decide_eq_true_eq] at hg
      obtain ⟨-, ht⟩ := Option.ite_none_left_eq_some.mp ht
      obtain ⟨u, hu, hs⟩ := Option.bind_eq_some_iff.mp ht
      have hk : Kept { s with inds := s.inds - 1 } := h.kept.congr rfl rfl rfl rfl
      have hstop (he : cengenabled { s with inds := s.inds - 1 }) :
          ¬Stopped { s with inds := s.inds - 1 } := fun hs =>
        hg ⟨hs, by simpa using he.1, he.2⟩
      obtain ⟨hku, hru⟩ := hk.started hstop hu
      have hp : ∀ p, u.csqset = some p → u.csqqrypriod = p := by
        obtain ⟨p, r, -, -, rfl⟩ | ⟨-, rfl⟩ := startcengtimer_cases hu
        · exact h.csq.period
        · exact h.csq.period
      exact ⟨Csq.started hp hs, hku.startcsq hs, hru.startcsq hs⟩
  | startcsqtimer =>
      obtain ⟨-, ht⟩ := Option.ite_none_left_eq_some.mp ht
      have hk : Kept { s with csqtimer := none } := h.kept.congr rfl rfl rfl rfl
      have hr : Runs { s with csqtimer := none } := h.runs
      exact ⟨Csq.started (s := { s with csqtimer := none }) h.csq.period ht, hk.startcsq ht,
        hr.startcsq ht⟩
  | startcengtimer =>
      obtain ⟨hne, ht⟩ := Option.ite_none_left_eq_some.mp ht
      have hc : Csq { s with cengtimer := none } := ⟨h.csq.period, h.csq.timer⟩
      have hk : Kept { s with cengtimer := none } :=
        ⟨h.kept.stored, h.kept.last, fun _ _ _ => rfl, fun _ => rfl, h.kept.quiet⟩
      have hstop : ¬Stopped { s with cengtimer := none } := by
        intro hs
        obtain ⟨⟨p, hp, hle⟩, -⟩ := (stopped_iff _).mp hs
        exact hne (h.kept.stopped p hp hle)
      obtain ⟨hkt, hrt⟩ := hk.started (fun _ => hstop) ht
      exact ⟨hc.startceng ht, hkt, hrt⟩

/-- A step against the condition shows. -/
theorem leaves_of_periodic {s t : Queries} {a : Act} (h : Going s) (hp : Periodic t)
    (ht : step s a = some t) : leaves s a = true := by
  cases a with
  | setcengqueryperiod period =>
      rw [leaves, decide_eq_true_eq]
      rintro ⟨hs, hq, hon⟩
      obtain ⟨⟨q, hq', hle⟩, -⟩ := (stopped_iff s).mp hs
      have hpos : 0 < period := (h.kept.stored period hq).1
      have hset : setcengqueryperiod period s = some { s with cengset := some period } := by
        rw [setcengqueryperiod]
        exact if_pos hq.symm
      rw [step, hset] at ht
      cases ht
      have hnone : s.cengtimer = none := h.kept.stopped q hq' hle
      have htimer := hp.ceng period rfl hpos hon
      dsimp only at htimer
      rw [hnone] at htimer
      cases htimer
  | setcengswitch v =>
      rw [leaves, decide_eq_true_eq]
      rintro ⟨hs, hv, hf⟩
      have hf : s.flymode = false := by simpa using hf
      obtain ⟨-, -, ht⟩ | ⟨hn, -⟩ := setcengswitch_cases ht
      · have hs : Stopped { s with cengswitch := true } := hs
        exact hp.not_stray (hs.stray ⟨hf, .inl rfl⟩ ht)
      · exact hn ⟨hv, hf⟩
  | FLYMODE_IND para =>
      rw [leaves, decide_eq_true_eq]
      rintro ⟨hs, hpara, hon⟩
      obtain ⟨rfl, -⟩ | ⟨u, v, rfl, hu, hv, hn⟩ := flyind_cases ht
      · cases hpara
      · have hsu : Stopped u := by
          rw [startcsqtimer_stopped hu]
          exact hs
        have heu : cengenabled u := by
          rw [startcsqtimer_cengenabled hu]
          exact ⟨rfl, hon⟩
        exact hp.not_stray ((hsu.stray heu hv).neturc hn)
  | SYS_WORKMODE_IND =>
      rw [leaves, decide_eq_true_eq]
      rintro ⟨hs, hf, hon⟩
      obtain ⟨-, ht⟩ := Option.ite_none_left_eq_some.mp ht
      obtain ⟨u, hu, ht⟩ := Option.bind_eq_some_iff.mp ht
      have hs : Stopped { s with inds := s.inds - 1 } := hs
      exact hp.not_stray ((hs.stray ⟨by simpa using hf, hon⟩ hu).startcsq ht)
  | setcsqqueryperiod period => rfl
  | setcsqswitch v => rfl
  | setworkmode v => rfl
  | CREG data => rfl
  | SIM_IND para => rfl
  | startcsqtimer => rfl
  | startcengtimer => rfl

theorem init_going : Going .init := by
  refine ⟨⟨nofun, fun _ => ⟨rfl, nofun⟩⟩, ⟨nofun, nofun, nofun, fun _ => rfl, ?_⟩, nofun⟩
  intro o ho
  cases ho

/-- The queries go on as they have to exactly in the runs in which nothing starts the timer of the
cells while they are stopped, and the former period is not set again then. -/
theorem periodic_iff (acts : List Act) :
    Along step Periodic Queries.init acts ↔
      Meets step (fun s a => leaves s a = true) Queries.init acts := by
  refine along_iff_meets_under (Q := Going) (H := fun _ _ => True) (fun s h => h.periodic) ?_ ?_
    init_going (meets_true Queries.init acts)
  · exact fun s a t _ h hg ht => step_going h hg ht
  · exact fun s a t _ h hp ht => leaves_of_periodic h hp ht

/-- The cells are queried although they have been stopped, when the switch is turned on. -/
theorem stopped_queries : ¬Along step Periodic Queries.init
    [.setcengqueryperiod 30000, .setcengqueryperiod 0, .setcengswitch true] := by
  intro h
  have hrun : (run step Queries.init
      [.setcengqueryperiod 30000, .setcengqueryperiod 0, .setcengswitch true]).map Queries.chained =
        some [some 30000, some 0] := by
    decide
  obtain ⟨t, ht, hc⟩ := Option.map_eq_some_iff.mp hrun
  obtain ⟨p, hp, hpos⟩ := (h.last ht).quiet (some 0) (by simp [hc])
  cases hp
  exact absurd hpos (by decide)

/-- The former period does not start the queries again. -/
example : (run step Queries.init
    [.setcengqueryperiod 30000, .setcengqueryperiod 0, .setcengqueryperiod 30000]).map
      (fun s => (s.cengset, s.cengtimer)) = some (some 30000, none) := by
  decide

end LuatAir200.Net
