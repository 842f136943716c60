import Mathlib.Data.Int.Notation
import LuatAir200.Machine

/-!
# `record.lua` over `audio.lua`: recording sessions

A session begins with an accepted `start`, and is over when the device refuses to record or
reports the end. Confirmation and report come as messages. The reports that the device makes on
its own belong to no session. `reading` is never set and left out.
-/
namespace LuatAir200.Record
open Machine

/-- What a callback is called with. -/
inductive Outcome
  | none
  | ended (result : Bool) (size : ℕ)
  deriving DecidableEq

/-- A call of `start`, and whether it has a callback. -/
structure Session where
  no : ℕ
  cb : Bool
  deriving DecidableEq

/-- A message and the session that it belongs to. -/
inductive Msg
  | cnf (of : Session) (suc : Bool)
  | ind (of : Option Session) (duration : ℕ)
  deriving DecidableEq

structure State where
  rcding : Bool
  rcdcb : Option ℕ
  duration : Option ℕ
  /-- The size of the file, 0 when there is none. -/
  file : ℕ
  /-- The sessions whose `AT+AUDREC` is outstanding. -/
  ril : List Session
  /-- Those that the device is recording. -/
  device : List Session
  msgs : List Msg
  /-- `rcdind` is running its callback. -/
  ending : Bool
  starts : ℕ
  /-- The session that was requested and has neither failed to start nor ended. -/
  current : Option Session
  /-- The calls of `start` that were refused or whose session is over. -/
  finished : List (Session × Outcome)
  called : List (ℕ × Outcome)
  deriving DecidableEq

def init : State := ⟨false, none, none, 0, [], [], [], false, 0, none, [], []⟩

/-- The callback of a call of `start`. -/
def Session.callback (x : Session) : Option ℕ := if x.cb then some x.no else none

def call (cb : Option ℕ) (o : Outcome) (s : State) : State :=
  match cb with
  | some n => { s with called := s.called ++ [(n, o)] }
  | none => s

/-- A session is over. -/
def finish (x : Session) (o : Outcome) (s : State) : State :=
  if s.current = some x then { s with current := none, finished := s.finished ++ [(x, o)] } else s

def start (seconds : ℤ) (cb : Bool) (s : State) : State :=
  let x : Session := ⟨s.starts, cb⟩
  let s := { s with starts := s.starts + 1 }
  if seconds ≤ 0 ∨ seconds > 50 ∨ s.rcding then
    call x.callback .none { s with finished := s.finished ++ [(x, .none)] }
  else
    { s with
      rcding := true, rcdcb := x.callback, file := 0
      ril := s.ril ++ [x], current := some x }

def rcdcnf (x : Session) (suc : Bool) (s : State) : State :=
  if suc then { s with rcding := true }
  else call s.rcdcb .none (finish x .none s)

/-- `rcdind` up to the callback; without one, to the end. -/
def rcdind (of : Option Session) (duration : ℕ) (s : State) : State :=
  let suc := decide (0 < duration)
  let s := { s with
    file := if !suc || !s.rcding then 0 else s.file
    duration := some duration }
  let o := Outcome.ended (suc && s.rcding) s.file
  let s := match of with
    | some x => finish x o s
    | none => s
  match s.rcdcb with
  | some n => { call (some n) o s with ending := true }
  | none => { s with rcding := false }

inductive Act
  | start (seconds : ℤ) (cb : Bool)
  /-- The answer to `AT+AUDREC`. -/
  | respond (success : Bool)
  /-- The device ends a recording, or reports an end of none. -/
  | urc (of : Option Session) (duration : ℕ)
  /-- The device writes the file. -/
  | write (size : ℕ)
  | msg
  /-- The callback of `rcdind` returns. -/
  | ret
  deriving DecidableEq

def step (s : State) : Act → Option State
  | .start seconds cb => some (start seconds cb s)
  | .respond success =>
      match s.ril with
      | [] => none
      | x :: ril => some { s with
          ril := ril
          device := if success then s.device ++ [x] else s.device
          msgs := s.msgs ++ [.cnf x success] }
  | .urc of duration =>
      match of with
      | none => some { s with msgs := s.msgs ++ [.ind none duration] }
      | some x =>
          if x ∈ s.device then
            some { s with device := s.device.erase x, msgs := s.msgs ++ [.ind (some x) duration] }
          else none
  | .write size => some { s with file := size }
  | .msg =>
      if s.ending then none
      else
        match s.msgs with
        | [] => none
        | .cnf x suc :: msgs => some (rcdcnf x suc { s with msgs := msgs })
        | .ind of duration :: msgs => some (rcdind of duration { s with msgs := msgs })
  | .ret => if s.ending then some { s with rcding := false, ending := false } else none

/-! ## What is claimed, and when it holds -/

/-- The callbacks were called for refused calls and for sessions that are over, each once. -/
def Called (s : State) : Prop :=
  s.called = s.finished.filterMap fun p => p.1.callback.map fun n => (n, p.2)

/-- And `rcding` says whether there is a session. -/
def Kept (s : State) : Prop := Called s ∧ (s.rcding = true ↔ s.current ≠ none)

/-- The same, but `rcding` does not count while `rcdind` is running its callback. -/
def KeptButEnding (s : State) : Prop :=
  Called s ∧ (s.ending = false → (s.rcding = true ↔ s.current ≠ none))

/-- The next message is no refusal, and an end that belongs to no session comes when there is
none and no callback is left. -/
def expected (s : State) : Act → Bool
  | .msg =>
      match s.msgs with
      | .cnf _ suc :: _ => suc
      | .ind none _ :: _ => s.current = none ∧ s.rcdcb = none
      | _ => true
  | _ => true

/-- A session that ends has no callback. -/
def silent (s : State) : Act → Bool
  | .msg =>
      match s.msgs with
      | .ind (some _) _ :: _ => s.rcdcb = none
      | _ => true
  | _ => true

/-! ## The invariant -/

/-- What may be under way for the session `x`: its command, its confirmation, its recording, its
end. -/
inductive Phase (x : Session) : List Session → List Msg → List Session → Prop
  | asked : Phase x [x] [] []
  | refused : Phase x [] [.cnf x false] []
  | confirmed : Phase x [] [.cnf x true] [x]
  | both (d : ℕ) : Phase x [] [.cnf x true, .ind (some x) d] []
  | recording : Phase x [] [] [x]
  | ended (d : ℕ) : Phase x [] [.ind (some x) d] []

def Msg.stray : Msg → Bool
  | .ind none _ => true
  | _ => false

/-- The messages that belong to a session. -/
def State.own (s : State) : List Msg := s.msgs.filter fun m => !m.stray

structure Inv (s : State) : Prop where
  called : Called s
  rcding : s.ending = false → (s.rcding = true ↔ s.current ≠ none)
  ending : s.ending = true → s.rcding = true ∧ s.current = none
  none : s.current = none → s.ril = [] ∧ s.own = [] ∧ s.device = []
  some : ∀ x, s.current = some x → s.rcdcb = x.callback ∧ Phase x s.ril s.own s.device

theorem inv_init : Inv init := by
  refine ⟨rfl, fun _ => ?_, ?_, fun _ => ⟨rfl, rfl, rfl⟩, ?_⟩
  · simp [init]
  · intro h
    cases h
  · intro x hx
    cases hx

theorem called_call (cb : Option ℕ) (o : Outcome) (s : State) :
    (call cb o s).called = s.called ++ (cb.map fun n => (n, o)).toList := by
  cases cb with
  | none => simp [call]
  | some n => rfl

theorem own_append (s : State) (m : Msg) :
    State.own { s with msgs := s.msgs ++ [m] } = s.own ++ if m.stray then [] else [m] := by
  cases h : m.stray <;> simp [State.own, h]

theorem own_cons {s : State} {m : Msg} {msgs : List Msg} (h : s.msgs = m :: msgs) :
    s.own = (if m.stray then [] else [m]) ++ State.own { s with msgs := msgs } := by
  cases hm : m.stray <;> simp [State.own, h, hm]

/-- A session that is over is called when its callback is the one at hand. -/
theorem called_finish {s : State} {x : Session} {o : Outcome} (hc : Called s)
    (hx : s.current = some x) (hcb : s.rcdcb = x.callback) :
    Called (call s.rcdcb o (finish x o s)) := by
  have hcs : s.called = s.finished.filterMap fun p => p.1.callback.map fun n => (n, p.2) := hc
  have hov : ∀ cb u, (call cb o u).finished = u.finished := by
    intro cb u
    cases cb <;> rfl
  have hf : finish x o s = { s with current := none, finished := s.finished ++ [(x, o)] } :=
    if_pos hx
  rw [Called, called_call, hov, hf, hcb]
  show s.called ++ _ = (s.finished ++ [(x, o)]).filterMap _
  rw [List.filterMap_append, ← hcs]
  cases hx' : x.callback <;> simp [hx']

theorem start_inv {s : State} (h : Inv s) (seconds : ℤ) (cb : Bool) :
    Inv (start seconds cb s) := by
  have hcs : s.called = s.finished.filterMap fun p => p.1.callback.map fun n => (n, p.2) := h.called
  by_cases hr : seconds ≤ 0 ∨ seconds > 50 ∨ s.rcding = true
  · -- a refused call is over at once
    have he : start seconds cb s =
        { s with
          starts := s.starts + 1
          finished := s.finished ++ [(⟨s.starts, cb⟩, .none)]
          called := s.called ++
            ((Session.callback ⟨s.starts, cb⟩).map fun n => (n, Outcome.none)).toList } := by
      cases cb <;> simp [start, hr, call, Session.callback]
    rw [he]
    refine ⟨?_, h.rcding, h.ending, h.none, h.some⟩
    simp only [Called, List.filterMap_append, hcs]
    cases cb <;> rfl
  · have he : start seconds cb s =
        { s with
          starts := s.starts + 1, rcding := true, file := 0
          rcdcb := Session.callback ⟨s.starts, cb⟩
          ril := s.ril ++ [⟨s.starts, cb⟩], current := some ⟨s.starts, cb⟩ } := by
      simp only [start, if_neg hr]
    have hend : s.ending = false := by
      by_contra hne
      have hrc := (h.ending (by simpa using hne)).1
      exact hr (.inr (.inr hrc))
    have hcur : s.current = none := by
      by_contra hne
      exact hr (.inr (.inr ((h.rcding hend).mpr hne)))
    obtain ⟨hril, hown, hdev⟩ := h.none hcur
    rw [he]
    refine ⟨h.called, fun _ => by simp, ?_, ?_, ?_⟩
    · intro hne
      rw [hend] at hne
      cases hne
    · intro hne
      cases hne
    · rintro x ⟨⟩
      refine ⟨rfl, ?_⟩
      show Phase _ (s.ril ++ _) s.own s.device
      rw [hril, hown, hdev]
      exact Phase.asked

theorem respond_inv {s : State} (h : Inv s) {x : Session} {ril : List Session}
    (hr : s.ril = x :: ril) (success : Bool) :
    Inv { s with
      ril := ril
      device := if success then s.device ++ [x] else s.device
      msgs := s.msgs ++ [.cnf x success] } := by
  have hcur : s.current ≠ none := by
    intro hn
    rw [(h.none hn).1] at hr
    cases hr
  refine ⟨h.called, h.rcding, h.ending, fun hn => absurd hn hcur, ?_⟩
  intro y hy
  obtain ⟨hcb, hph⟩ := h.some y hy
  refine ⟨hcb, ?_⟩
  show Phase y ril (State.own { s with msgs := s.msgs ++ [_] }) _
  rw [own_append]
  rw [hr] at hph
  generalize hown : s.own = own at hph
  generalize hdev : s.device = device at hph
  cases hph with
  | asked =>
      cases success with
      | true => exact Phase.confirmed
      | false => exact Phase.refused

theorem urc_inv {s : State} (h : Inv s) {x : Session} (hx : x ∈ s.device) (d : ℕ) :
    Inv { s with device := s.device.erase x, msgs := s.msgs ++ [.ind (some x) d] } := by
  have hcur : s.current ≠ none := by
    intro hn
    rw [(h.none hn).2.2] at hx
    cases hx
  refine ⟨h.called, h.rcding, h.ending, fun hn => absurd hn hcur, ?_⟩
  intro y hy
  obtain ⟨hcb, hph⟩ := h.some y hy
  refine ⟨hcb, ?_⟩
  show Phase y s.ril (State.own { s with msgs := s.msgs ++ [_] }) (s.device.erase x)
  rw [own_append]
  generalize hril : s.ril = ril at hph
  generalize hown : s.own = own at hph
  generalize hdev : s.device = device at hph hx
  cases hph with
  | asked => cases hx
  | refused => cases hx
  | both d' => cases hx
  | ended d' => cases hx
  | confirmed =>
      obtain rfl := List.mem_singleton.mp hx
      rw [List.erase_cons_head]
      exact Phase.both d
  | recording =>
      obtain rfl := List.mem_singleton.mp hx
      rw [List.erase_cons_head]
      exact Phase.ended d

/-! ## Messages -/

section Messages

variable {s : State} {x : Session} {msgs : List Msg}

/-- What is under way when a confirmation comes. -/
theorem cnf_comes (h : Inv s) {suc : Bool} (hm : s.msgs = .cnf x suc :: msgs) :
    s.current = some x ∧ s.rcdcb = x.callback ∧
      (suc = true → Phase x s.ril (State.own { s with msgs := msgs }) s.device) := by
  have hown : s.own = [.cnf x suc] ++ State.own { s with msgs := msgs } := own_cons hm
  have hcur : s.current ≠ none := by
    intro hn
    rw [(h.none hn).2.1] at hown
    cases hown
  obtain ⟨y, hy⟩ := Option.ne_none_iff_exists'.mp hcur
  obtain ⟨hcb, hph⟩ := h.some y hy
  rw [hown] at hph
  generalize State.own { s with msgs := msgs } = rest at hph ⊢
  generalize s.ril = ril at hph ⊢
  generalize s.device = device at hph ⊢
  cases hph with
  | refused =>
      refine ⟨hy, hcb, ?_⟩
      intro hf
      cases hf
  | confirmed => exact ⟨hy, hcb, fun _ => Phase.recording⟩
  | both d => exact ⟨hy, hcb, fun _ => Phase.ended d⟩

/-- And when an end comes. -/
theorem ind_comes (h : Inv s) {d : ℕ} (hm : s.msgs = .ind (some x) d :: msgs) :
    s.current = some x ∧ s.rcdcb = x.callback ∧
      s.ril = [] ∧ State.own { s with msgs := msgs } = [] ∧ s.device = [] := by
  have hown : s.own = [.ind (some x) d] ++ State.own { s with msgs := msgs } := own_cons hm
  have hcur : s.current ≠ none := by
    intro hn
    rw [(h.none hn).2.1] at hown
    cases hown
  obtain ⟨y, hy⟩ := Option.ne_none_iff_exists'.mp hcur
  obtain ⟨hcb, hph⟩ := h.some y hy
  rw [hown] at hph
  generalize State.own { s with msgs := msgs } = rest at hph ⊢
  generalize s.ril = ril at hph ⊢
  generalize s.device = device at hph ⊢
  cases hph with
  | ended d => exact ⟨hy, hcb, rfl, rfl, rfl⟩

theorem confirmed_inv (h : Inv s) (he : s.ending = false) (hm : s.msgs = .cnf x true :: msgs) :
    Inv (rcdcnf x true { s with msgs := msgs }) := by
  obtain ⟨hcur, hcb, hph⟩ := cnf_comes h hm
  refine ⟨h.called, ?_, ?_, ?_, ?_⟩
  · intro _
    simp [rcdcnf, hcur]
  · intro hne
    exact absurd (he.symm.trans hne) Bool.false_ne_true
  · intro hn
    exact absurd (hcur.symm.trans hn) (Option.some_ne_none x)
  · intro y hy
    obtain rfl : x = y := Option.some.inj (hcur.symm.trans hy)
    exact ⟨hcb, hph rfl⟩

/-- After a refusal no further recording can be started. -/
theorem refused_blocked (h : Inv s) (he : s.ending = false) (hm : s.msgs = .cnf x false :: msgs) :
    ¬KeptButEnding (rcdcnf x false { s with msgs := msgs }) := by
  obtain ⟨hcur, hcb, -⟩ := cnf_comes h hm
  have hrc : s.rcding = true := (h.rcding he).mpr (by simp [hcur])
  rintro ⟨-, hk⟩
  cases hcb' : s.rcdcb <;>
    simp [rcdcnf, finish, call, hcur, hcb', he, hrc] at hk

/-- With a callback `rcding` stays set while it runs. -/
theorem rcdind_own {t : State} (hcur : t.current = some x) (hrc : t.rcding = true)
    (he : t.ending = false) (d : ℕ) :
    ∃ file o, rcdind (some x) d t =
      { call t.rcdcb o
          { t with
            file := file, duration := some d
            current := none, finished := t.finished ++ [(x, o)] } with
        rcding := t.rcdcb.isSome, ending := t.rcdcb.isSome } := by
  refine ⟨if !decide (0 < d) || !t.rcding then 0 else t.file, .ended (decide (0 < d) && t.rcding)
    (if !decide (0 < d) || !t.rcding then 0 else t.file), ?_⟩
  cases hn : t.rcdcb <;> simp [rcdind, finish, call, hcur, hn, hrc, he]

theorem ended_inv (h : Inv s) (he : s.ending = false) {d : ℕ}
    (hm : s.msgs = .ind (some x) d :: msgs) :
    Inv (rcdind (some x) d { s with msgs := msgs }) ∧
      (rcdind (some x) d { s with msgs := msgs }).ending = s.rcdcb.isSome := by
  obtain ⟨hcur, hcb, hril, hown, hdev⟩ := ind_comes h hm
  have hrc : s.rcding = true := (h.rcding he).mpr (by simp [hcur])
  obtain ⟨file, o, hr⟩ := @rcdind_own x { s with msgs := msgs } hcur hrc he d
  have hc := @called_finish { s with msgs := msgs, file := file, duration := some d } x o
    h.called hcur hcb
  have hf : finish x o { s with msgs := msgs, file := file, duration := some d } =
      { s with
        msgs := msgs, file := file, duration := some d
        current := none, finished := s.finished ++ [(x, o)] } := if_pos hcur
  rw [hf] at hc
  rw [hr]
  refine ⟨?_, rfl⟩
  cases hn : s.rcdcb with
  | none =>
      rw [hn] at hc
      refine ⟨hc, fun _ => by simp [call], ?_, fun _ => ⟨hril, hown, hdev⟩, ?_⟩
      · intro hne
        cases hne
      · intro y hy
        cases hy
  | some n =>
      rw [hn] at hc
      refine ⟨hc, ?_, fun _ => ⟨rfl, rfl⟩, fun _ => ⟨hril, hown, hdev⟩, ?_⟩
      · intro hne
        cases hne
      · intro y hy
        cases hy

/-- An end that belongs to no session is harmless if there is none and no callback is left. -/
theorem stray_inv (h : Inv s) (he : s.ending = false) {d : ℕ} (hm : s.msgs = .ind none d :: msgs)
    (hcur : s.current = none) (hcb : s.rcdcb = none) :
    Inv (rcdind none d { s with msgs := msgs }) ∧
      (rcdind none d { s with msgs := msgs }).ending = false := by
  obtain ⟨hril, hown, hdev⟩ := h.none hcur
  have hown' : State.own { s with msgs := msgs } = [] := by
    rw [own_cons hm] at hown
    exact hown
  have hr : ∃ file, rcdind none d { s with msgs := msgs } =
      { s with msgs := msgs, file := file, duration := some d, rcding := false } := by
    refine ⟨if !decide (0 < d) || !s.rcding then 0 else s.file, ?_⟩
    simp [rcdind, hcb]
  obtain ⟨file, hr⟩ := hr
  rw [hr]
  refine ⟨⟨h.called, ?_, ?_, fun _ => ⟨hril, hown', hdev⟩, ?_⟩, he⟩
  · intro _
    simp [hcur]
  · intro hne
    exact absurd (he.symm.trans hne) Bool.false_ne_true
  · intro y hy
    exact absurd (hcur.symm.trans hy) (Option.some_ne_none y).symm

/-- Otherwise an old callback is called again, or the recording under way is forgotten. -/
theorem stray_harms (h : Inv s) (he : s.ending = false) {d : ℕ}
    (hk : KeptButEnding (rcdind none d { s with msgs := msgs })) :
    s.current = none ∧ s.rcdcb = none := by
  have hcs : s.called = s.finished.filterMap fun p => p.1.callback.map fun n => (n, p.2) := h.called
  obtain ⟨hc, hrc⟩ := hk
  cases hn : s.rcdcb with
  | some n =>
      exfalso
      have hl := congrArg List.length hc
      simp [rcdind, call, hn, hcs] at hl
  | none =>
      refine ⟨?_, rfl⟩
      simpa [rcdind, hn, he] using hrc

end Messages

/-! ## Runs -/

/-- Inside the callback of `rcdind` no message is handled. -/
theorem step_msg {s t : State} (hst : step s .msg = some t) : s.ending = false ∧
    ∃ m msgs, s.msgs = m :: msgs ∧ t = match m with
      | .cnf x suc => rcdcnf x suc { s with msgs := msgs }
      | .ind of d => rcdind of d { s with msgs := msgs } := by
  cases he : s.ending with
  | true => simp [step, he] at hst
  | false =>
      refine ⟨rfl, ?_⟩
      cases hm : s.msgs with
      | nil => simp [step, he, hm] at hst
      | cons m msgs =>
          refine ⟨m, msgs, rfl, ?_⟩
          cases m <;> simpa [step, he, hm] using hst.symm

/-- One step: expected messages keep the invariant, and a callback under way is a session that
ended with one. -/
theorem step_inv {s t : State} (h : Inv s) {a : Act} (hg : expected s a = true)
    (hst : step s a = some t) :
    Inv t ∧ (s.ending = false → (t.ending = false ↔ silent s a = true)) := by
  cases a with
  | start seconds cb =>
      obtain rfl := Option.some.inj hst
      refine ⟨start_inv h seconds cb, fun he => ?_⟩
      have hend : (start seconds cb s).ending = s.ending := by
        by_cases hr : seconds ≤ 0 ∨ seconds > 50 ∨ s.rcding = true <;> cases cb <;>
          simp [start, hr, call, Session.callback]
      simp [hend, he, silent]
  | respond success =>
      cases hr : s.ril with
      | nil => simp [step, hr] at hst
      | cons x ril =>
          simp only [step, hr, Option.some.injEq] at hst
          subst hst
          exact ⟨respond_inv h hr success, fun he => by simp [he, silent]⟩
  | urc of d =>
      cases of with
      | none =>
          obtain rfl := Option.some.inj hst
          have hown : State.own { s with msgs := s.msgs ++ [.ind none d] } = s.own := by
            rw [own_append]
            exact List.append_nil _
          refine ⟨⟨h.called, h.rcding, h.ending, ?_, ?_⟩, fun he => by simp [he, silent]⟩
          · intro hn
            exact hown.symm ▸ h.none hn
          · intro x hx
            exact hown.symm ▸ h.some x hx
      | some x =>
          by_cases hx : x ∈ s.device
          · simp only [step, if_pos hx, Option.some.injEq] at hst
            subst hst
            exact ⟨urc_inv h hx d, fun he => by simp [he, silent]⟩
          · simp [step, hx] at hst
  | write size =>
      obtain rfl := Option.some.inj hst
      exact ⟨⟨h.called, h.rcding, h.ending, h.none, h.some⟩, fun he => by simp [he, silent]⟩
  | msg =>
      obtain ⟨he, m, msgs, hm, rfl⟩ := step_msg hst
      rcases m with ⟨x, suc⟩ | ⟨_ | x, d⟩
      · obtain rfl : suc = true := by simpa [expected, hm] using hg
        exact ⟨confirmed_inv h he hm, fun _ => by simp [rcdcnf, silent, hm, he]⟩
      · obtain ⟨hcur, hcb⟩ : s.current = none ∧ s.rcdcb = none := by
          simpa [expected, hm] using hg
        obtain ⟨hi, hend⟩ := stray_inv h he hm hcur hcb
        exact ⟨hi, fun _ => by simp [hend, silent, hm]⟩
      · obtain ⟨hi, hend⟩ := ended_inv h he hm
        refine ⟨hi, fun _ => ?_⟩
        simp only [hend, silent, hm]
        cases s.rcdcb <;> simp
  | ret =>
      cases he : s.ending with
      | false => simp [step, he] at hst
      | true =>
          simp only [step, he, if_true, Option.some.injEq] at hst
          subst hst
          refine ⟨⟨h.called, ?_, ?_, h.none, h.some⟩, fun hne => by cases hne⟩
          · intro _
            simp [(h.ending he).2]
          · intro hne
            cases hne

theorem step_expected {s t : State} (h : Inv s) {a : Act} (hk : KeptButEnding t)
    (hst : step s a = some t) : expected s a = true := by
  cases a with
  | msg =>
      obtain ⟨he, m, msgs, hm, rfl⟩ := step_msg hst
      rcases m with ⟨x, _ | _⟩ | ⟨_ | x, d⟩
      · exact absurd hk (refused_blocked h he hm)
      · simp [expected, hm]
      · simpa [expected, hm] using stray_harms h he hk
      · simp [expected, hm]
  | start | respond | urc | write | ret => rfl

theorem Inv.keptButEnding {s : State} (h : Inv s) : KeptButEnding s := ⟨h.called, h.rcding⟩

theorem Inv.kept_iff {s : State} (h : Inv s) : Kept s ↔ s.ending = false := by
  constructor
  · rintro ⟨-, hk⟩
    cases he : s.ending with
    | false => rfl
    | true =>
        obtain ⟨hrc, hcur⟩ := h.ending he
        exact absurd hcur (hk.mp hrc)
  · exact fun he => ⟨h.called, h.rcding he⟩

/-- Callbacks are called once each, and `rcding` says whether there is a session, as long as no
recording is refused, ends without a session come before any with a callback, and sessions that
end have none. Inside the callback of an end `rcding` is still set. -/
theorem sessions_kept (acts : List Act) :
    (Along step Kept init acts ↔
      Meets step (fun s a => expected s a = true ∧ silent s a = true) init acts) ∧
    (Along step KeptButEnding init acts ↔
      Meets step (fun s a => expected s a = true) init acts) := by
  constructor
  · refine along_iff_meets_via (A := fun _ => True) (Q := fun s => Inv s ∧ s.ending = false)
      ?_ ?_ ?_ ⟨inv_init, rfl⟩ fun _ _ => trivial
    · exact fun s hs => hs.1.kept_iff.mpr hs.2
    · intro s a t _ hs hg hst
      obtain ⟨hi, hend⟩ := step_inv hs.1 hg.1 hst
      exact ⟨hi, (hend hs.2).mpr hg.2⟩
    · intro s a t _ hs hk hst
      have hg := step_expected hs.1 ⟨hk.1, fun _ => hk.2⟩ hst
      obtain ⟨hi, hend⟩ := step_inv hs.1 hg hst
      exact ⟨hg, (hend hs.2).mp (hi.kept_iff.mp hk)⟩
  · refine along_iff_meets_via (A := fun _ => True) (Q := Inv) ?_ ?_ ?_ inv_init
      fun _ _ => trivial
    · exact fun s hs => hs.keptButEnding
    · exact fun s a t _ hs hg hst => (step_inv hs hg hst).1
    · exact fun s a t _ hs hk hst => step_expected hs hk hst

/-- A refused recording: `rcding` stays set, and the next `start` is refused. -/
theorem refused_once_for_all :
    (run step init [.start 5 true, .respond false, .msg, .start 5 true]).map
      (fun s => (s.rcding, s.current, s.ril, s.called)) =
        some (true, none, [], [(0, .none), (1, .none)]) ∧
    ¬Along step KeptButEnding init [.start 5 true, .respond false, .msg] := by
  refine ⟨rfl, ?_⟩
  intro h
  obtain ⟨-, hk⟩ := ((h.2 _ rfl).2 _ rfl).2 _ rfl
  exact (hk rfl).mp rfl rfl

end LuatAir200.Record
