import LuatAir200.DueTimers
import LuatAir200.Machine

/-!
# `wdt.lua`: feeding the hardware watchdog

A feed holds the pin low for two seconds, then the pin is read every 100 ms, at most 20 times.
The levels that are read come from outside; the direction of the pin is left out. A test makes
feeds of its own. Both kinds share the counter and the flag, and each timer function is
started with the kind as its argument. History: the levels that the normal polls read since
the last normal feed, those at each reset, and how many feeds the test under way has made.
-/
namespace LuatAir200.Wdt
open Due

inductive Tag
  | normal | test
  deriving DecidableEq

/-- The timers: the function with its argument. -/
inductive Timer
  | feed (tag : Tag)
  | feedend (tag : Tag)
  | getscm (tag : Tag)
  /-- `pio.pin.setval(1,RST_SCMWD_PIN)` -/
  | setval
  deriving DecidableEq

def timers : List Timer :=
  [.feed .normal, .feed .test, .feedend .normal, .feedend .test, .getscm .normal, .getscm .test,
    .setval]

/-- The feeds of a test, and whether the pin has still to be read after the last one. -/
structure Round where
  feeds : ℕ
  fresh : Bool
  deriving DecidableEq

structure State where
  clock : Clock Timer
  scm_active : Bool
  get_scm_cnt : ℕ
  testcnt : ℕ
  testing : Bool
  /-- The level of `RST_SCMWD_PIN`. -/
  rst : Bool
  /-- `open` or `test` was called after the last `close`. -/
  opened : Bool
  levels : List Bool
  resets : List (List Bool)
  /-- The last test, while each first poll after a feed of it has read a high level. -/
  round : Option Round

/-- Before `open`. -/
def loaded : State where
  clock := ⟨0, fun _ => none⟩
  scm_active := true
  get_scm_cnt := 20
  testcnt := 0
  testing := false
  rst := true
  opened := false
  levels := []
  resets := []
  round := none

def start (t : Timer) (ms : ℕ) (s : State) : State := { s with clock := s.clock.start t ms }

def stop (t : Timer) (s : State) : State := { s with clock := s.clock.stop t }

/-- The last lines of `getscm`. -/
def check (low : Bool) (s : State) : State :=
  if low ∧ !s.scm_active then { s with scm_active := true } else s

/-- The poll of a test has read the pin. -/
def Round.poll (high : Bool) (r : Round) : Option Round :=
  if r.fresh then if high then some { r with fresh := false } else none else some r

/-- `getscm` reads the pin up to twice: for the test, and at the end. -/
def getscm (tag : Tag) (first last : Bool) (s : State) : State :=
  if tag = .normal ∧ s.testing then s
  else
    let s := { s with get_scm_cnt := s.get_scm_cnt - 1 }
    let s := match tag with
      | .normal => { s with levels := s.levels ++ [last] }
      | .test => { stop (.getscm .normal) s with
          round := s.round.bind (Round.poll (if s.get_scm_cnt > 0 then first else last)) }
    if s.get_scm_cnt > 0 then
      if tag = .test ∧ first then
        let s := { s with testcnt := s.testcnt + 1 }
        if s.testcnt < 3 then { start (.feed .test) 100 s with get_scm_cnt := 20 }
        else check (!last) (start (.getscm tag) 100 { s with testing := false })
      else check (!last) (start (.getscm tag) 100 s)
    else
      let s := { s with get_scm_cnt := 20 }
      match tag with
      | .test => check (!last) { s with testing := false }
      | .normal =>
          if s.scm_active then check (!last) s
          else
            check (!last) { start .setval 100 { s with rst := false } with
              scm_active := true, resets := s.resets ++ [s.levels] }

def feedend (tag : Tag) (s : State) : State :=
  if tag = .normal ∧ s.testing then s
  else
    let s := if tag = .test then stop (.getscm .normal) s else s
    start (.getscm tag) 100 s

def feed (tag : Tag) (s : State) : State :=
  if tag = .normal ∧ s.testing then s
  else
    let s := if s.scm_active ∨ tag = .test then { s with scm_active := false } else s
    let s := start (.feed .normal) 120000 s
    let s := match tag with
      | .normal => { s with levels := [] }
      | .test => { stop (.feedend .normal) s with
          round := s.round.map fun r => ⟨r.feeds + 1, true⟩ }
    start (.feedend tag) 2000 s

def open_ (s : State) : State := { feed .normal s with opened := true }

/-- `timer_stop_all` stops the timers of a function with any arguments. -/
def close (s : State) : State :=
  { s with
    clock := timers.foldl (fun c t => c.stop t) s.clock
    scm_active := true, get_scm_cnt := 20, testcnt := 0, testing := false
    opened := false, round := none }

def test (s : State) : State :=
  if s.testing then s
  else
    feed .test { s with testcnt := 0, testing := true, opened := true, round := some ⟨0, false⟩ }

def init : State := open_ loaded

inductive Act
  | open | close | test
  /-- Time goes by. -/
  | pass (ms : ℕ)
  /-- A timer expires, with the levels that `getscm` reads then. -/
  | expire (t : Timer) (first last : Bool)
  deriving DecidableEq

def fire (t : Timer) (first last : Bool) (s : State) : State :=
  match t with
  | .feed tag => feed tag s
  | .feedend tag => feedend tag s
  | .getscm tag => getscm tag first last s
  | .setval => { s with rst := true }

def step (s : State) : Act → Option State
  | .open => some (open_ s)
  | .close => some (close s)
  | .test => some (test s)
  | .pass ms => (s.clock.pass timers ms).map fun c => { s with clock := c }
  | .expire t first last =>
      (s.clock.expire t).map fun c => fire t first last { s with clock := c }

theorem mem_timers (t : Timer) : t ∈ timers := by
  cases t with
  | feed tag => cases tag <;> simp [timers]
  | feedend tag => cases tag <;> simp [timers]
  | getscm tag => cases tag <;> simp [timers]
  | setval => simp [timers]

/-! ## What the handlers do -/

section Cases

variable {s : State}

theorem getscm_refused (h : s.testing = true) (first last : Bool) :
    getscm .normal first last s = s := by
  simp [getscm, h]

theorem getscm_normal_on (h : s.testing = false) (hc : 1 < s.get_scm_cnt) (first last : Bool) :
    getscm .normal first last s =
      { start (.getscm .normal) 100 s with
        get_scm_cnt := s.get_scm_cnt - 1, levels := s.levels ++ [last]
        scm_active := s.scm_active || !last } := by
  have hc' : 0 < s.get_scm_cnt - 1 := Nat.sub_pos_of_lt hc
  cases ha : s.scm_active <;> cases last <;> simp [getscm, check, start, h, hc', ha]

theorem getscm_normal_end (h : s.testing = false) (hc : s.get_scm_cnt ≤ 1) (ha : s.scm_active = true)
    (first last : Bool) :
    getscm .normal first last s = { s with get_scm_cnt := 20, levels := s.levels ++ [last] } := by
  have hc' : s.get_scm_cnt - 1 = 0 := Nat.sub_eq_zero_of_le hc
  simp [getscm, check, h, hc', ha]

theorem getscm_normal_reset (h : s.testing = false) (hc : s.get_scm_cnt ≤ 1)
    (ha : s.scm_active = false) (first last : Bool) :
    getscm .normal first last s =
      { start .setval 100 s with
        get_scm_cnt := 20, levels := s.levels ++ [last], rst := false, scm_active := true
        resets := s.resets ++ [s.levels ++ [last]] } := by
  have hc' : s.get_scm_cnt - 1 = 0 := Nat.sub_eq_zero_of_le hc
  simp [getscm, check, start, h, hc', ha]

theorem getscm_test_again (hc : 1 < s.get_scm_cnt) (ht : s.testcnt < 2) (last : Bool) :
    getscm .test true last s =
      { start (.feed .test) 100 (stop (.getscm .normal) s) with
        get_scm_cnt := 20, testcnt := s.testcnt + 1, round := s.round.bind (Round.poll true) } := by
  have hc' : 0 < s.get_scm_cnt - 1 := Nat.sub_pos_of_lt hc
  have ht' : s.testcnt + 1 < 3 := by omega
  simp [getscm, start, stop, hc', ht']

theorem getscm_test_done (hc : 1 < s.get_scm_cnt) (ht : 2 ≤ s.testcnt) (last : Bool) :
    getscm .test true last s =
      { start (.getscm .test) 100 (stop (.getscm .normal) s) with
        get_scm_cnt := s.get_scm_cnt - 1, testcnt := s.testcnt + 1, testing := false
        scm_active := s.scm_active || !last, round := s.round.bind (Round.poll true) } := by
  have hc' : 0 < s.get_scm_cnt - 1 := Nat.sub_pos_of_lt hc
  have ht' : ¬s.testcnt + 1 < 3 := by omega
  cases ha : s.scm_active <;> cases last <;>
    simp [getscm, check, start, stop, hc', ht', ha]

theorem getscm_test_low (hc : 1 < s.get_scm_cnt) (last : Bool) :
    getscm .test false last s =
      { start (.getscm .test) 100 (stop (.getscm .normal) s) with
        get_scm_cnt := s.get_scm_cnt - 1
        scm_active := s.scm_active || !last, round := s.round.bind (Round.poll false) } := by
  have hc' : 0 < s.get_scm_cnt - 1 := Nat.sub_pos_of_lt hc
  cases ha : s.scm_active <;> cases last <;> simp [getscm, check, start, stop, hc', ha]

theorem getscm_test_end (hc : s.get_scm_cnt ≤ 1) (first last : Bool) :
    getscm .test first last s =
      { stop (.getscm .normal) s with
        get_scm_cnt := 20, testing := false
        scm_active := s.scm_active || !last, round := s.round.bind (Round.poll last) } := by
  have hc' : s.get_scm_cnt - 1 = 0 := Nat.sub_eq_zero_of_le hc
  cases ha : s.scm_active <;> cases last <;> simp [getscm, check, stop, hc', ha]

theorem feedend_refused (h : s.testing = true) : feedend .normal s = s := by
  simp [feedend, h]

theorem feedend_normal (h : s.testing = false) :
    feedend .normal s = start (.getscm .normal) 100 s := by
  simp [feedend, h]

theorem feedend_test : feedend .test s = start (.getscm .test) 100 (stop (.getscm .normal) s) := by
  simp [feedend]

theorem feed_refused (h : s.testing = true) : feed .normal s = s := by
  simp [feed, h]

theorem feed_normal (h : s.testing = false) :
    feed .normal s =
      { start (.feedend .normal) 2000 (start (.feed .normal) 120000 s) with
        scm_active := false, levels := [] } := by
  cases ha : s.scm_active <;> simp [feed, start, h, ha]

theorem feed_test :
    feed .test s =
      { start (.feedend .test) 2000 (stop (.feedend .normal) (start (.feed .normal) 120000 s)) with
        scm_active := false, round := s.round.map fun r => ⟨r.feeds + 1, true⟩ } := by
  simp [feed, start, stop]

theorem test_refused (h : s.testing = true) : test s = s := by
  simp [test, h]

theorem test_starts (h : s.testing = false) : test s =
    feed .test
      { s with testcnt := 0, testing := true, opened := true, round := some ⟨0, false⟩ } := by
  simp [test, h]

theorem close_due (t : Timer) : (close s).clock.due t = none := by
  cases t with
  | feed tag => cases tag <;> simp [close, timers]
  | feedend tag => cases tag <;> simp [close, timers]
  | getscm tag => cases tag <;> simp [close, timers]
  | setval => simp [close, timers]

end Cases

end LuatAir200.Wdt
