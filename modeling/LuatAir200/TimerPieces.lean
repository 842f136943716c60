import LuatAir200.TimerRuns
import Mathlib.Algebra.Order.Ring.Nat

/-!
# The pieces of long timers

A timer of more than `MAXMS` milliseconds runs as several RTOS timers. Here the calls of
`rtos.timer_start` and of the callbacks are written down, each with the durations that
have expired since the timer was started or its callback was last called.
-/
namespace LuatAir200.Timer
open Lua Machine

variable {φ α : Type}

/-- The number of pieces of a timer, as `timer_start` computes it. -/
def pieces (ms : ℕ) : ℕ :=
  if MAXMS < ms then ms / MAXMS + (if ms % MAXMS = 0 then 0 else 1) else 1

/-- A call for timer `tid`, which was started with `period` and of which the durations
`expired` have passed. -/
inductive Call
  | timer_start (tid ms : ℕ) (expired : List ℕ) (period : ℕ)
  | callback (tid : ℕ) (expired : List ℕ) (period : ℕ)
deriving DecidableEq

/-- A call of `rtos.timer_start` has a duration that is supported, and the timer is not
at its end; the callback is called at its end, which is less than the number of pieces
before the period. -/
def Call.Right : Call → Prop
  | .timer_start _ ms expired period =>
      0 < ms ∧ ms ≤ MAXMS ∧ expired.length < pieces period
  | .callback _ expired period =>
      expired.length = pieces period ∧ period < expired.sum + pieces period ∧
        expired.sum ≤ period

/-- The timer tables with their calls. -/
structure Traced (φ α : Type) where
  state : State φ α
  period : ℕ → ℕ
  expired : ℕ → List ℕ
  calls : List Call

def Traced.initial : Traced φ α := ⟨Timer.initial, fun _ => 0, fun _ => [], []⟩

namespace Traced

/-- A timer has been started. -/
def begun (t : State φ α) (tid ms first : ℕ) (w : Traced φ α) : Traced φ α where
  state := t
  period := Function.update w.period tid ms
  expired := Function.update w.expired tid []
  calls := w.calls ++ [.timer_start tid first [] ms]

/-- `rtos.timer_start` is called for a timer. -/
def again (t : State φ α) (tid ms : ℕ) (w : Traced φ α) : Traced φ α :=
  { w with
    state := t
    calls := w.calls ++ [.timer_start tid ms (w.expired tid) (w.period tid)] }

/-- The callback of a timer is called. -/
def called (t : State φ α) (tid : ℕ) (w : Traced φ α) : Traced φ α :=
  { w with
    state := t
    expired := Function.update w.expired tid []
    calls := w.calls ++ [.callback tid (w.expired tid) (w.period tid)] }

/-- `t` is the state after the action `a`. -/
def observe (t : State φ α) (w : Traced φ α) : Act φ α → Traced φ α
  | .start fnc ms _ _ | .loopStart fnc ms _ _ => begun t t.uniquetid ms (plan fnc ms).2 w
  | .expire tid =>
      { w with
        state := t
        expired := Function.update w.expired tid
          (w.expired tid ++ [(w.state.slots.used.lookup tid).getD 0]) }
  | .deliver tid =>
      match w.state.tpool tid with
      | none => { w with state := t }
      | some (.fn _) => called t tid w
      | some (.split _ step total times) =>
          if times + 1 < total then again t tid step w else called t tid w
  | .ret =>
      match w.state.running with
      | none => { w with state := t }
      | some tid =>
          match w.state.loop tid with
          | none => { w with state := t }
          | some ms => again t tid ms w
  | .stopId _ | .stop .. | .stopAll .. => { w with state := t }

def step [DecidableEq φ] [DecidableEq α] (w : Traced φ α) (a : Act φ α) : Option (Traced φ α) :=
  (Timer.step w.state a).map fun t => observe t w a

/-- Every call is right. -/
def AllRight (w : Traced φ α) : Prop := ∀ v ∈ w.calls, v.Right

/-- The callback of a loop timer of more than `MAXMS` returns and the timer is still there. -/
def LongLoop (w : Traced φ α) (a : Act φ α) : Prop :=
  a = .ret ∧ ∃ tid ms, w.state.running = some tid ∧ w.state.loop tid = some ms ∧ MAXMS < ms

end Traced

/-! ## The lengths of the pieces -/

theorem pieces_pos (ms : ℕ) : 0 < pieces ms := by
  unfold pieces
  split
  · rename_i h
    have h1 : 1 ≤ ms / MAXMS := Nat.div_pos (Nat.le_of_lt h) (by decide)
    omega
  · exact Nat.one_pos

/-- As many pieces of `MAXMS` are enough, and one less is not. -/
theorem pieces_ceil {ms : ℕ} (h : 0 < ms) :
    ms ≤ pieces ms * MAXMS ∧ (pieces ms - 1) * MAXMS < ms := by
  unfold pieces
  split
  · have hdiv := Nat.div_add_mod ms MAXMS
    have hmod : ms % MAXMS < MAXMS := Nat.mod_lt ms (by decide)
    have hM : 0 < MAXMS := by decide
    rw [Nat.mul_comm] at hdiv
    split
    · rw [Nat.add_zero, Nat.sub_mul, Nat.one_mul]
      omega
    · rw [Nat.add_sub_cancel, Nat.succ_mul]
      omega
  · rw [Nat.one_mul, Nat.sub_self, Nat.zero_mul]
    omega

/-- The first piece, which is as long as the others. -/
theorem plan_piece (fnc : φ) (ms : ℕ) : (plan fnc ms).2 = ms / pieces ms := by
  unfold plan pieces
  split
  · rfl
  · rw [Nat.div_one]

theorem piece_le {ms : ℕ} (h : 0 < ms) : ms / pieces ms ≤ MAXMS :=
  Nat.div_le_of_le_mul (pieces_ceil h).1

theorem piece_pos {ms : ℕ} (h : 0 < ms) : 0 < ms / pieces ms := by
  refine Nat.div_pos ?_ (pieces_pos ms)
  have hlt := (pieces_ceil h).2
  have hM : pieces ms - 1 ≤ (pieces ms - 1) * MAXMS := Nat.le_mul_of_pos_right _ (by decide)
  omega

/-- All pieces together. -/
theorem pieces_sum (ms : ℕ) :
    ms < pieces ms * (ms / pieces ms) + pieces ms ∧ pieces ms * (ms / pieces ms) ≤ ms := by
  have hdiv := Nat.div_add_mod ms (pieces ms)
  have hmod := Nat.mod_lt ms (pieces_pos ms)
  omega

theorem pieces_short {ms : ℕ} (h : ms ≤ MAXMS) : pieces ms = 1 := if_neg (by omega)

/-! ## The invariant -/

/-- The pieces of a timer that have expired before the current one. -/
def Entry.done : Entry φ → ℕ
  | .fn _ => 0
  | .split _ _ _ times => times

/-- An entry of `tpool` that belongs to a timer of `ms` milliseconds. -/
def Entry.For (ms : ℕ) : Entry φ → Prop
  | .fn _ => ms ≤ MAXMS
  | .split _ step total _ => MAXMS < ms ∧ step = ms / pieces ms ∧ total = pieces ms

theorem plan_for (fnc : φ) (ms : ℕ) : (plan fnc ms).1.For ms ∧ (plan fnc ms).1.done = 0 := by
  unfold plan
  split
  · rename_i h
    exact ⟨⟨h, by rw [pieces, if_pos h], by rw [pieces, if_pos h]⟩, rfl⟩
  · rename_i h
    exact ⟨Nat.le_of_not_lt h, rfl⟩

/-- What has expired of a timer, by the place where it is. -/
structure Timed (w : Traced φ α) (k : ℕ) (e : Entry φ) : Prop where
  pos : 0 < w.period k
  entry : e.For (w.period k)
  loop : ∀ m, w.state.loop k = some m → m = w.period k
  slot : ∀ d, (k, d) ∈ w.state.slots.used → d = w.period k / pieces (w.period k) ∧
    w.expired k = List.replicate e.done d ∧ e.done < pieces (w.period k)
  msg : k ∈ w.state.msgs → e.done < pieces (w.period k) ∧
    w.expired k = List.replicate (e.done + 1) (w.period k / pieces (w.period k))
  running : w.state.running = some k → w.expired k = []

structure Traced.Inv (w : Traced φ α) : Prop where
  tables : Timer.Inv w.state
  timed : w.AllRight → ∀ k e, w.state.tpool k = some e → Timed w k e

/-- A timer that the step leaves where it is, or whose place it only takes away. -/
theorem Timed.keep {w v : Traced φ α} {k : ℕ} {e : Entry φ} (h : Timed w k e)
    (hp : v.period k = w.period k) (hx : v.expired k = w.expired k)
    (hl : v.state.loop k = w.state.loop k)
    (hs : ∀ d, (k, d) ∈ v.state.slots.used → (k, d) ∈ w.state.slots.used)
    (hm : k ∈ v.state.msgs → k ∈ w.state.msgs)
    (hr : v.state.running = some k → w.state.running = some k) : Timed v k e where
  pos := hp ▸ h.pos
  entry := hp ▸ h.entry
  loop m hm := hp ▸ h.loop m (hl ▸ hm)
  slot d hd := by
    rw [hp, hx]
    exact h.slot d (hs d hd)
  msg hk := by
    rw [hp, hx]
    exact h.msg (hm hk)
  running hk := by
    rw [hx]
    exact h.running (hr hk)

/-! ## The slots of the RTOS -/

theorem Slots.mem_stop {tid : ℕ} {s : Slots} {p : ℕ × ℕ} :
    p ∈ (s.stop tid).used ↔ p ∈ s.used ∧ p.1 ≠ tid := by
  simp [Slots.stop]

theorem Slots.mem_start {tid ms : ℕ} {s t : Slots} (h : s.start tid ms = some t) {p : ℕ × ℕ}
    (hp : p ∈ t.used) : p = (tid, ms) ∨ p ∈ s.used := by
  unfold Slots.start at h
  split at h
  · cases h
    rcases List.mem_cons.mp hp with hp | hp
    · exact .inl hp
    · exact .inr (Slots.mem_stop.mp hp).1
  · cases h

theorem mem_rtosStart {tid ms : ℕ} {s : State φ α} {p : ℕ × ℕ}
    (hp : p ∈ (rtosStart tid ms s).slots.used) : p = (tid, ms) ∨ p ∈ s.slots.used := by
  unfold rtosStart at hp
  cases hs : s.slots.start tid ms with
  | none =>
      rw [hs] at hp
      exact .inr hp
  | some slots =>
      rw [hs] at hp
      exact Slots.mem_start hs hp

theorem mem_timer_stop_all [DecidableEq φ] {fnc : φ} {keys : List ℕ} {s : State φ α} {p : ℕ × ℕ}
    (hp : p ∈ (timer_stop_all fnc keys s).slots.used) : p ∈ s.slots.used := by
  induction keys generalizing s with
  | nil => exact hp
  | cons k keys ih =>
      rw [timer_stop_all] at hp
      split at hp
      · split at hp
        · exact (Slots.mem_stop.mp (ih hp)).1
        · exact ih hp
      · exact ih hp

section
variable [DecidableEq φ] [DecidableEq α]

theorem mem_timer_stop {val : φ} {arg : Args α} {keys : List ℕ} {s : State φ α} {p : ℕ × ℕ}
    (hp : p ∈ (timer_stop val arg keys s).slots.used) : p ∈ s.slots.used := by
  obtain ⟨he, -⟩ | ⟨k, -, he⟩ := timer_stop_cases val arg keys s
  · exact he ▸ hp
  · rw [he] at hp
    exact (Slots.mem_stop.mp hp).1

/-- What a start leaves in the tables for the new timer. -/
structure Begins (s t : State φ α) (fnc : φ) (ms : ℕ) : Prop where
  uniquetid : t.uniquetid = s.uniquetid + 1
  entry : t.tpool (s.uniquetid + 1) = some (plan fnc ms).1
  loop : ∀ m, t.loop (s.uniquetid + 1) = some m → m = ms
  slots : ∀ p ∈ t.slots.used, p = (s.uniquetid + 1, (plan fnc ms).2) ∨ p ∈ s.slots.used

theorem timer_start_begins {s : State φ α} (hi : Inv s) (fnc : φ) (ms : ℕ) (arg : Args α)
    (keys : List ℕ) :
    Begins (timer_stop fnc (unpack arg) keys s) (timer_start fnc ms arg keys s).1 fnc ms := by
  have hi' := (timer_stop_shrinks fnc (unpack arg) keys s).inv hi
  simp only [timer_start, stop_before_start, enter]
  generalize timer_stop fnc (unpack arg) keys s = s₀ at hi' ⊢
  rw [freeTid_eq hi']
  have hloop (m : ℕ) (h : s₀.loop (s₀.uniquetid + 1) = some m) : m = ms := by
    rw [hi'.loop_dead _ (hi'.fresh _ (Nat.lt_succ_self _))] at h
    cases h
  cases hs : s₀.slots.start (s₀.uniquetid + 1) (plan fnc ms).2 with
  | none => exact ⟨rfl, Function.update_self .., hloop, fun p hp => .inr hp⟩
  | some slots =>
      dsimp only
      split <;>
        exact ⟨rfl, Function.update_self .., hloop, fun p hp => Slots.mem_start hs hp⟩

theorem timer_loop_start_begins {s : State φ α} (hi : Inv s) (fnc : φ) (ms : ℕ) (arg : Args α)
    (keys : List ℕ) :
    Begins (timer_stop fnc (unpack arg) keys s) (timer_loop_start fnc ms arg keys s).1 fnc ms := by
  have hb := timer_start_begins hi fnc ms (unpack arg) keys
  rw [unpack_unpack] at hb
  have hid (tid : ℕ) (h : (timer_start fnc ms (unpack arg) keys s).2 = some tid) :
      tid = s.uniquetid + 1 := timer_start_id hi h
  unfold timer_loop_start
  rcases hr : timer_start fnc ms (unpack arg) keys s with ⟨t, r⟩
  rw [hr] at hb hid
  cases r with
  | none => exact hb
  | some tid =>
      refine { hb with loop := fun m hm => ?_ }
      have htid : tid = (timer_stop fnc (unpack arg) keys s).uniquetid + 1 := by
        rw [(timer_stop_shrinks fnc (unpack arg) keys s).uniquetid]
        exact hid tid rfl
      have hm' : Function.update t.loop tid (some ms) tid = some m := htid ▸ hm
      rw [Function.update_self] at hm'
      exact (Option.some.inj hm').symm

end

/-! ## The steps -/

/-- A stop. -/
theorem Traced.Inv.stop {w : Traced φ α} {t : State φ α} (hi : w.Inv) (hsh : Shrinks w.state t)
    (hu : ∀ p ∈ t.slots.used, p ∈ w.state.slots.used) : Traced.Inv { w with state := t } where
  tables := hsh.inv hi.tables
  timed hr k e he := by
    have hl : t.loop k = w.state.loop k := by
      obtain ⟨-, -, c, -⟩ | ⟨a, -⟩ := hsh.entry k
      · exact c
      · rw [a] at he
        cases he
    exact (hi.timed hr k e (hsh.live he).1).keep rfl rfl hl (fun d => hu (k, d))
      (fun hm => hsh.msgs ▸ hm) (fun hk => hsh.running ▸ hk)

/-- The first call for a new timer is right. -/
theorem plan_right (fnc : φ) (tid : ℕ) {ms : ℕ} (h : 0 < ms) :
    (Call.timer_start tid (plan fnc ms).2 [] ms).Right := by
  rw [plan_piece]
  exact ⟨piece_pos h, piece_le h, pieces_pos ms⟩

/-- A start. -/
theorem Traced.Inv.start {w : Traced φ α} {s₀ t : State φ α} {fnc : φ} {ms : ℕ} {arg : Args α}
    (hi : w.Inv) (hsh : Shrinks w.state s₀) (hu : ∀ p ∈ s₀.slots.used, p ∈ w.state.slots.used)
    (hst : Starts s₀ t fnc arg) (hb : Begins s₀ t fnc ms) (hms : 0 < ms) (ht : Timer.Inv t) :
    (begun t t.uniquetid ms (plan fnc ms).2 w).Inv where
  tables := ht
  timed hr k e he := by
    have hw : w.AllRight := fun v hv => hr v (List.mem_append_left _ hv)
    have hs₀ := (hi.stop hsh hu).timed hw
    have hlow := hsh.inv hi.tables
    have he : t.tpool k = some e := he
    by_cases hk : k = s₀.uniquetid + 1
    · subst hk
      rw [hb.entry] at he
      cases he
      have hp : (begun t t.uniquetid ms (plan fnc ms).2 w).period (s₀.uniquetid + 1) = ms := by
        simp [begun, hb.uniquetid]
      have hx : (begun t t.uniquetid ms (plan fnc ms).2 w).expired (s₀.uniquetid + 1) = [] := by
        simp [begun, hb.uniquetid]
      obtain ⟨hfor, hdone⟩ := plan_for fnc ms
      constructor
      case pos => rwa [hp]
      case entry => rwa [hp]
      case loop =>
        intro m hm
        rw [hp]
        exact hb.loop m hm
      case slot =>
        intro d hd
        rw [hp, hx, hdone]
        rcases hb.slots _ hd with heq | hold
        · rw [← plan_piece fnc]
          exact ⟨(Prod.mk.inj heq).2, rfl, pieces_pos ms⟩
        · have hid := hlow.slot_low _ (List.mem_map_of_mem (f := Prod.fst) hold)
          have : s₀.uniquetid + 1 ≤ s₀.uniquetid := hid
          omega
      case msg =>
        intro hm
        have hid := hlow.msg_low _ (hst.msgs ▸ hm)
        omega
      case running =>
        intro _
        exact hx
    · obtain ⟨htp, -, hlp, -⟩ := hst.other k hk
      rw [htp] at he
      have hne : k ≠ t.uniquetid := by rw [hb.uniquetid]; exact hk
      refine (hs₀ k e he).keep ?_ ?_ hlp (fun d hd => ?_) (fun hm => hst.msgs ▸ hm)
        (fun hk => hst.running ▸ hk)
      · exact Function.update_of_ne hne ..
      · exact Function.update_of_ne hne ..
      · rcases hb.slots _ hd with heq | hold
        · exact absurd (Prod.mk.inj heq).1 hk
        · exact hold

/-- `u` is the state in which the timer `tid` has no place and its entry is `e`. -/
structure Taken (w : Traced φ α) (u : State φ α) (tid : ℕ) (e : Entry φ) : Prop where
  entry : u.tpool tid = some e
  other : ∀ k, k ≠ tid → u.tpool k = w.state.tpool k
  loop : u.loop = w.state.loop
  slots : u.slots = w.state.slots
  msgs : ∀ k ∈ u.msgs, k ∈ w.state.msgs
  running : u.running = none
  no_slot : tid ∉ u.slots.ids
  no_msg : tid ∉ u.msgs
  pos : 0 < w.period tid
  right : e.For (w.period tid)
  kept : ∀ m, u.loop tid = some m → m = w.period tid

/-- The timer gets its next piece. -/
theorem Taken.again {w : Traced φ α} {u : State φ α} {tid : ℕ} {e : Entry φ} {ms : ℕ}
    (h : Taken w u tid e) (hw : ∀ k e, w.state.tpool k = some e → Timed w k e)
    (hms : ms = w.period tid / pieces (w.period tid)) (hdone : e.done < pieces (w.period tid))
    (hx : w.expired tid = List.replicate e.done ms) {k : ℕ} {d : Entry φ}
    (hd : (rtosStart tid ms u).tpool k = some d) :
    Timed (Traced.again (rtosStart tid ms u) tid ms w) k d := by
  obtain ⟨-, htp, hlp, -, -⟩ := rtosStart_frame tid ms u
  have hmsgs : (rtosStart tid ms u).msgs = u.msgs := by
    obtain ⟨slots, heq, -⟩ | heq := rtosStart_cases tid ms u <;> rw [heq]
  have hrun : (rtosStart tid ms u).running = none := by
    obtain ⟨slots, heq, -⟩ | heq := rtosStart_cases tid ms u <;> rw [heq] <;> exact h.running
  have hidle (k : ℕ) : (Traced.again (rtosStart tid ms u) tid ms w).state.running ≠ some k := by
    show (rtosStart tid ms u).running ≠ some k
    rw [hrun]
    simp
  rw [htp] at hd
  by_cases hk : k = tid
  · subst hk
    rw [h.entry] at hd
    cases hd
    constructor
    case pos => exact h.pos
    case entry => exact h.right
    case loop =>
      intro m hm
      exact h.kept m (hlp ▸ hm)
    case slot =>
      intro d hd
      rcases mem_rtosStart hd with heq | hin
      · cases heq
        exact ⟨hms, hx, hdone⟩
      · exact absurd (List.mem_map_of_mem (f := Prod.fst) hin) h.no_slot
    case msg =>
      intro hm
      exact absurd (hmsgs ▸ hm) h.no_msg
    case running =>
      intro hr
      exact absurd hr (hidle k)
  · rw [h.other k hk] at hd
    refine (hw k d hd).keep rfl rfl ?_ (fun d hd => ?_) (fun hm => h.msgs k (hmsgs ▸ hm))
      fun hr => absurd hr (hidle k)
    · show (rtosStart tid ms u).loop k = _
      rw [hlp, h.loop]
    · rcases mem_rtosStart hd with heq | hin
      · exact absurd (Prod.mk.inj heq).1 hk
      · exact h.slots ▸ hin

theorem fire_running (s : State φ α) (k : ℕ) (cb : φ) :
    (fire k cb s).running = some k ∧ (fire k cb s).msgs = s.msgs := by
  unfold fire
  dsimp only
  split <;> exact ⟨rfl, rfl⟩

/-- The callback of the timer is called. -/
theorem Taken.called {w : Traced φ α} {u : State φ α} {tid : ℕ} {e : Entry φ} {cb : φ}
    (h : Taken w u tid e) (hw : ∀ k e, w.state.tpool k = some e → Timed w k e) {k : ℕ}
    {d : Entry φ} (hd : (fire tid cb u).tpool k = some d) :
    Timed (Traced.called (fire tid cb u) tid w) k d := by
  obtain ⟨-, hlp, hsl⟩ := fire_frame u tid cb
  obtain ⟨hrun, hmsgs⟩ := fire_running u tid cb
  by_cases hk : k = tid
  · subst hk
    have hx : (Traced.called (fire k cb u) k w).expired k = [] := Function.update_self ..
    have hkept : d = e := by
      by_cases hl : u.loop k = none
      · rw [fire_gone u cb hl] at hd
        cases hd
      · have hsame : (fire k cb u).tpool k = u.tpool k := by simp [fire, hl]
        rw [hsame, h.entry] at hd
        exact (Option.some.inj hd).symm
    subst hkept
    constructor
    case pos => exact h.pos
    case entry => exact h.right
    case loop =>
      intro m hm
      exact h.kept m (hlp ▸ hm)
    case slot =>
      intro d' hd'
      have hin : (k, d') ∈ u.slots.used := hsl ▸ hd'
      exact absurd (List.mem_map_of_mem (f := Prod.fst) hin) h.no_slot
    case msg =>
      intro hm
      exact absurd (hmsgs ▸ hm) h.no_msg
    case running =>
      intro _
      exact hx
  · rw [fire_other u cb hk, h.other k hk] at hd
    refine (hw k d hd).keep rfl (Function.update_of_ne hk ..) ?_ (fun d hd => ?_)
      (fun hm => h.msgs k (hmsgs ▸ hm)) fun hr => ?_
    · show (fire tid cb u).loop k = _
      rw [hlp, h.loop]
    · have hin : (k, d) ∈ u.slots.used := hsl ▸ hd
      exact h.slots ▸ hin
    · have hr : (fire tid cb u).running = some k := hr
      rw [hrun] at hr
      exact absurd (Option.some.inj hr).symm hk

/-- The pieces of a timer that has expired are at an end or its next one is due. -/
theorem Timed.right {w : Traced φ α} {k : ℕ} {e : Entry φ} (h : Timed w k e)
    (hm : k ∈ w.state.msgs) :
    if e.done + 1 < pieces (w.period k) then
      (Call.timer_start k (w.period k / pieces (w.period k)) (w.expired k) (w.period k)).Right
    else (Call.callback k (w.expired k) (w.period k)).Right := by
  obtain ⟨hlt, hx⟩ := h.msg hm
  split
  · rename_i hnext
    refine ⟨piece_pos h.pos, piece_le h.pos, ?_⟩
    rw [hx, List.length_replicate]
    exact hnext
  · rename_i hend
    have heq : e.done + 1 = pieces (w.period k) := by omega
    obtain ⟨h₁, h₂⟩ := pieces_sum (w.period k)
    rw [Call.Right, hx, List.length_replicate, List.sum_replicate_nat, heq]
    exact ⟨rfl, h₁, h₂⟩

/-- The message of the timer is taken from the queue; `e` is its entry then. -/
theorem Timed.taken {w : Traced φ α} {k : ℕ} {d e : Entry φ} (h : Timed w k d)
    (hi : Timer.Inv w.state) (hm : k ∈ w.state.msgs) (hr : w.state.running = none)
    (he : e.For (w.period k)) :
    Taken w { w.state with
      msgs := w.state.msgs.erase k
      tpool := Function.update w.state.tpool k (some e) } k e where
  entry := Function.update_self ..
  other _ hj := Function.update_of_ne hj ..
  loop := rfl
  slots := rfl
  msgs _ hj := List.mem_of_mem_erase hj
  running := hr
  no_slot hs := hi.slot_msg k hs hm
  no_msg := hi.msgs_nodup.not_mem_erase
  pos := h.pos
  right := he
  kept := h.loop

/-- All calls are right when the earlier ones and the new ones are. -/
theorem allRight_append {w v : Traced φ α} {c : Call} (h : v.calls = w.calls ++ [c]) :
    v.AllRight ↔ w.AllRight ∧ c.Right := by
  rw [Traced.AllRight, Traced.AllRight, h]
  simp [or_imp, forall_and]

/-- Processing a message: the calls stay right, and so does the invariant. -/
theorem Traced.Inv.deliver {w : Traced φ α} (hi : w.Inv) {k : ℕ} (hm : k ∈ w.state.msgs)
    (hr : w.state.running = none) :
    ((observe (timerfnc k { w.state with msgs := w.state.msgs.erase k }) w (.deliver k)).AllRight ↔
      w.AllRight) ∧
    (w.AllRight → ∀ j d,
      (timerfnc k { w.state with msgs := w.state.msgs.erase k }).tpool j = some d →
      Timed (observe (timerfnc k { w.state with msgs := w.state.msgs.erase k }) w (.deliver k))
        j d) := by
  cases hd : w.state.tpool k with
  | none =>
      have heq : timerfnc k { w.state with msgs := w.state.msgs.erase k } =
          { w.state with msgs := w.state.msgs.erase k } := by
        simp only [timerfnc, hd]
      simp only [heq, observe, hd]
      refine ⟨Iff.rfl, fun hw j d hj => ?_⟩
      exact (hi.timed hw j d hj).keep rfl rfl rfl (fun _ h => h) (fun h => List.mem_of_mem_erase h)
        fun h => h
  | some d =>
      cases d with
      | fn cb =>
          have heq : timerfnc k { w.state with msgs := w.state.msgs.erase k } =
              fire k cb { w.state with
                msgs := w.state.msgs.erase k
                tpool := Function.update w.state.tpool k (some (.fn cb)) } := by
            rw [← hd, Function.update_eq_self]
            simp only [timerfnc, hd]
          simp only [observe, hd]
          refine ⟨(allRight_append rfl).trans ⟨fun h => h.1, fun hw => ⟨hw, ?_⟩⟩, fun hw j d hj => ?_⟩
          · have ht := hi.timed hw k _ hd
            have hright := ht.right hm
            rwa [pieces_short ht.entry, if_neg (by simp [Entry.done])] at hright
          · have ht := hi.timed hw k _ hd
            rw [heq] at hj ⊢
            exact (ht.taken hi.tables hm hr ht.entry).called (hi.timed hw) hj
      | split cb step total times =>
          have heq : timerfnc k { w.state with msgs := w.state.msgs.erase k } =
              if times + 1 < total then rtosStart k step { w.state with
                msgs := w.state.msgs.erase k
                tpool := Function.update w.state.tpool k
                  (some (.split cb step total (times + 1))) }
              else fire k cb { w.state with
                msgs := w.state.msgs.erase k
                tpool := Function.update w.state.tpool k
                  (some (.split cb step total (times + 1))) } := by
            simp only [timerfnc, hd]
          have hfor (hw : w.AllRight) :
              (Entry.split cb step total (times + 1)).For (w.period k) :=
            (hi.timed hw k _ hd).entry
          simp only [observe, hd]
          by_cases hnext : times + 1 < total
          · rw [if_pos hnext] at heq ⊢
            refine ⟨(allRight_append rfl).trans ⟨fun h => h.1, fun hw => ⟨hw, ?_⟩⟩,
              fun hw j d hj => ?_⟩
            · have ht := hi.timed hw k _ hd
              obtain ⟨-, hstep, htotal⟩ := ht.entry
              have hright := ht.right hm
              rw [Entry.done, ← htotal, if_pos hnext, htotal, ← hstep] at hright
              exact hright
            · have ht := hi.timed hw k _ hd
              obtain ⟨-, hstep, htotal⟩ := ht.entry
              rw [heq] at hj ⊢
              refine (ht.taken hi.tables hm hr (hfor hw)).again (hi.timed hw) hstep ?_ ?_ hj
              · exact htotal ▸ hnext
              · rw [hstep]
                exact (ht.msg hm).2
          · rw [if_neg hnext] at heq ⊢
            refine ⟨(allRight_append rfl).trans ⟨fun h => h.1, fun hw => ⟨hw, ?_⟩⟩,
              fun hw j d hj => ?_⟩
            · have ht := hi.timed hw k _ hd
              obtain ⟨-, -, htotal⟩ := ht.entry
              have hright := ht.right hm
              rwa [Entry.done, ← htotal, if_neg hnext] at hright
            · have ht := hi.timed hw k _ hd
              rw [heq] at hj ⊢
              exact (ht.taken hi.tables hm hr (hfor hw)).called (hi.timed hw) hj

/-- The callback of a loop timer returns: the call is right when the period is supported. -/
theorem Traced.Inv.ret {w : Traced φ α} (hi : w.Inv) {k ms : ℕ} (hr : w.state.running = some k)
    (hl : w.state.loop k = some ms) (hw : w.AllRight) :
    ((Traced.again (rtosStart k ms { w.state with running := none }) k ms w).AllRight ↔
      ms ≤ MAXMS) ∧
    (ms ≤ MAXMS → ∀ j d, (rtosStart k ms { w.state with running := none }).tpool j = some d →
      Timed (Traced.again (rtosStart k ms { w.state with running := none }) k ms w) j d) := by
  obtain ⟨e, he⟩ : ∃ e, w.state.tpool k = some e := by
    cases he : w.state.tpool k with
    | some e => exact ⟨e, rfl⟩
    | none =>
        rw [hi.tables.loop_dead k he] at hl
        cases hl
  have ht := hi.timed hw k e he
  have hms : ms = w.period k := ht.loop ms hl
  have hx : w.expired k = [] := ht.running hr
  constructor
  · rw [allRight_append rfl, Call.Right, hx, ← hms]
    constructor
    · exact fun h => h.2.2.1
    · exact fun h => ⟨hw, hms ▸ ht.pos, h, pieces_pos ms⟩
  · intro hle j d hd
    have hone : pieces (w.period k) = 1 := pieces_short (hms ▸ hle)
    have hdone : e.done = 0 := by
      have hfor := ht.entry
      cases e with
      | fn cb => rfl
      | split cb step total times =>
          have hlong : MAXMS < w.period k := hfor.1
          omega
    have htaken : Taken w { w.state with running := none } k e :=
      { entry := he
        other := fun _ _ => rfl
        loop := rfl
        slots := rfl
        msgs := fun _ h => h
        running := rfl
        no_slot := hi.tables.run_slot k hr
        no_msg := hi.tables.run_msg k hr
        pos := ht.pos
        right := ht.entry
        kept := ht.loop }
    refine htaken.again (hi.timed hw) ?_ ?_ ?_ hd
    · rw [hone, Nat.div_one]
      exact hms
    · rw [hdone]
      exact pieces_pos _
    · rw [hdone, hx]
      rfl

/-- The entry of a key in a list without duplicate keys. -/
theorem lookup_of_mem {l : List (ℕ × ℕ)} (hn : (l.map Prod.fst).Nodup) {k d : ℕ}
    (h : (k, d) ∈ l) : l.lookup k = some d := by
  induction l with
  | nil => cases h
  | cons p l ih =>
      rw [List.map_cons, List.nodup_cons] at hn
      rcases List.mem_cons.mp h with rfl | h
      · simp
      · have hne : (k == p.1) = false := by
          rw [beq_eq_false_iff_ne]
          rintro rfl
          exact hn.1 (List.mem_map.mpr ⟨_, h, rfl⟩)
        rw [List.lookup_cons, hne]
        exact ih hn.2 h

/-- An RTOS timer fires. -/
theorem Traced.Inv.expire {w : Traced φ α} (hi : w.Inv) {k : ℕ} (hs : k ∈ w.state.slots.ids)
    (hw : w.AllRight) {j : ℕ} {e : Entry φ} (he : w.state.tpool j = some e) :
    Timed (observe { w.state with slots := w.state.slots.stop k, msgs := w.state.msgs ++ [k] } w
      (.expire k)) j e := by
  have ht := hi.timed hw j e he
  by_cases hj : j = k
  · subst hj
    obtain ⟨⟨j, d⟩, hd, rfl⟩ := List.mem_map.mp hs
    obtain ⟨hpiece, hx, hlt⟩ := ht.slot d hd
    constructor
    case pos => exact ht.pos
    case entry => exact ht.entry
    case loop => exact ht.loop
    case slot =>
      intro d' hd'
      exact absurd rfl (Slots.mem_stop.mp hd').2
    case msg =>
      intro _
      refine ⟨hlt, ?_⟩
      have hnew : (observe { w.state with
          slots := w.state.slots.stop j, msgs := w.state.msgs ++ [j] } w (.expire j)).expired j =
          w.expired j ++ [d] := by
        simp [observe, lookup_of_mem w.state.slots.nodup hd]
      rw [hnew, hx, List.replicate_succ']
      exact congrArg (fun x => List.replicate e.done x ++ [x]) hpiece
    case running =>
      intro hr
      exact absurd hs (hi.tables.run_slot j hr)
  · refine ht.keep rfl (Function.update_of_ne hj ..) rfl (fun d hd => (Slots.mem_stop.mp hd).1)
      (fun hm => ?_) fun hr => hr
    rcases List.mem_append.mp hm with hm | hm
    · exact hm
    · exact absurd (List.mem_singleton.mp hm) hj

/-- What a step does to the calls and to the timers in the table. -/
structure StepRight (w v : Traced φ α) (a : Act φ α) : Prop where
  prior : v.AllRight → w.AllRight
  calls : w.AllRight → (v.AllRight ↔ ¬Traced.LongLoop w a)
  timed : w.AllRight → ¬Traced.LongLoop w a → ∀ k e, v.state.tpool k = some e → Timed v k e

/-- A step that calls nothing. -/
theorem stepRight_quiet {w v : Traced φ α} {a : Act φ α} (hc : v.calls = w.calls)
    (ha : ¬Traced.LongLoop w a)
    (ht : w.AllRight → ∀ k e, v.state.tpool k = some e → Timed v k e) : StepRight w v a := by
  have hiff : v.AllRight ↔ w.AllRight := by rw [Traced.AllRight, hc]; rfl
  exact ⟨hiff.mp, fun hw => ⟨fun _ => ha, fun _ => hiff.mpr hw⟩, fun hw _ => ht hw⟩

/-- A step with one call, which is right. -/
theorem stepRight_call {w v : Traced φ α} {a : Act φ α} {c : Call}
    (hc : v.calls = w.calls ++ [c]) (hr : c.Right) (ha : ¬Traced.LongLoop w a)
    (ht : v.AllRight → ∀ k e, v.state.tpool k = some e → Timed v k e) : StepRight w v a := by
  have hiff := allRight_append hc
  exact ⟨fun hv => (hiff.mp hv).1, fun hw => ⟨fun _ => ha, fun _ => hiff.mpr ⟨hw, hr⟩⟩,
    fun hw _ => ht (hiff.mpr ⟨hw, hr⟩)⟩

theorem not_longLoop {w : Traced φ α} {a : Act φ α} (h : a ≠ .ret) : ¬Traced.LongLoop w a :=
  fun hl => h hl.1

theorem Traced.Inv.initial : (Traced.initial : Traced φ α).Inv :=
  ⟨initial_inv, fun _ k e he => by cases he⟩

/-- The callbacks that a call list has, in order. -/
def Call.callee : Call → Option ℕ
  | .callback tid _ _ => some tid
  | .timer_start .. => none

/-- The calls `new` are those of a step from `s` to `t`. -/
def Observed (s t : State φ α) (new : List Call) : Prop :=
  t.ran.map Prod.fst = s.ran.map Prod.fst ++ new.filterMap Call.callee ∧
    ∀ p ∈ t.slots.used, p ∈ s.slots.used ∨
      ∃ expired period, .timer_start p.1 p.2 expired period ∈ new

theorem observed_shrink {s t : State φ α} (h : Shrinks s t)
    (hu : ∀ p ∈ t.slots.used, p ∈ s.slots.used) : Observed s t [] :=
  ⟨by rw [h.ran]; simp, fun p hp => .inl (hu p hp)⟩

theorem observed_start {s s₀ t : State φ α} {fnc : φ} {ms : ℕ} {arg : Args α}
    (h : Shrinks s s₀) (hu : ∀ p ∈ s₀.slots.used, p ∈ s.slots.used) (hst : Starts s₀ t fnc arg)
    (hb : Begins s₀ t fnc ms) : Observed s t [.timer_start t.uniquetid (plan fnc ms).2 [] ms] := by
  refine ⟨by rw [hst.ran, h.ran]; simp [Call.callee], fun p hp => ?_⟩
  rcases hb.slots p hp with rfl | hp
  · exact .inr ⟨[], ms, by rw [hb.uniquetid]; simp⟩
  · exact .inl (hu p hp)

theorem observed_fire (s : State φ α) (k : ℕ) (cb : φ) (expired : List ℕ) (period : ℕ) :
    Observed s (fire k cb s) [.callback k expired period] := by
  obtain ⟨-, -, hs⟩ := fire_frame s k cb
  refine ⟨?_, fun p hp => .inl (hs ▸ hp)⟩
  unfold fire
  dsimp only
  split <;> simp [Call.callee]

theorem observed_again (s : State φ α) (k ms : ℕ) (expired : List ℕ) (period : ℕ) :
    Observed s (rtosStart k ms s) [.timer_start k ms expired period] := by
  obtain ⟨-, -, -, hr, -⟩ := rtosStart_frame k ms s
  refine ⟨by rw [hr]; simp [Call.callee], fun p hp => ?_⟩
  rcases mem_rtosStart hp with rfl | hp
  · exact .inr ⟨expired, period, List.mem_singleton_self _⟩
  · exact .inl hp

@[simp] theorem observe_state (t : State φ α) (w : Traced φ α) (a : Act φ α) :
    (Traced.observe t w a).state = t := by
  unfold Traced.observe
  split <;> (try split) <;> (try split) <;> rfl

section
variable [DecidableEq φ] [DecidableEq α]

/-- One step: its calls are right exactly when no long loop timer goes on. -/
theorem Traced.Inv.step {w v : Traced φ α} {a : Act φ α} (hi : w.Inv)
    (h : Traced.step w a = some v) : StepRight w v a := by
  obtain ⟨t, ht, rfl⟩ := Option.map_eq_some_iff.mp h
  have hinv := step_inv _ _ _ hi.tables ht
  cases a with
  | start fnc ms arg keys =>
      obtain ⟨⟨hms, hk⟩, ⟨⟩⟩ := Option.ite_none_right_eq_some.mp ht
      have hst := timer_start_starts hi.tables fnc ms arg keys
      exact stepRight_call rfl (plan_right fnc _ hms) (not_longLoop (by simp))
        (hi.start (timer_stop_shrinks fnc (unpack arg) keys w.state) (fun p hp => mem_timer_stop hp)
          hst (timer_start_begins hi.tables fnc ms arg keys) hms hinv).timed
  | loopStart fnc ms arg keys =>
      obtain ⟨⟨hms, hk⟩, ⟨⟩⟩ := Option.ite_none_right_eq_some.mp ht
      have hst := timer_loop_start_starts hi.tables fnc ms arg keys
      exact stepRight_call rfl (plan_right fnc _ hms) (not_longLoop (by simp))
        (hi.start (timer_stop_shrinks fnc (unpack arg) keys w.state) (fun p hp => mem_timer_stop hp)
          hst (timer_loop_start_begins hi.tables fnc ms arg keys) hms hinv).timed
  | stopId k =>
      cases ht
      exact stepRight_quiet rfl (not_longLoop (by simp))
        (hi.stop (forget_shrinks k w.state) fun p hp => hp).timed
  | stop fnc arg keys =>
      obtain ⟨-, ⟨⟩⟩ := Option.ite_none_right_eq_some.mp ht
      exact stepRight_quiet rfl (not_longLoop (by simp))
        (hi.stop (timer_stop_shrinks fnc arg keys w.state) fun p hp => mem_timer_stop hp).timed
  | stopAll fnc keys =>
      obtain ⟨-, ⟨⟩⟩ := Option.ite_none_right_eq_some.mp ht
      exact stepRight_quiet rfl (not_longLoop (by simp))
        (hi.stop (timer_stop_all_shrinks fnc keys w.state) fun p hp => mem_timer_stop_all hp).timed
  | expire k =>
      obtain ⟨hs, ⟨⟩⟩ := Option.ite_none_right_eq_some.mp ht
      exact stepRight_quiet rfl (not_longLoop (by simp)) fun hw _ _ he => hi.expire hs hw he
  | deliver k =>
      obtain ⟨⟨hm, hr⟩, ⟨⟩⟩ := Option.ite_none_right_eq_some.mp ht
      obtain ⟨hiff, htimed⟩ := hi.deliver hm hr
      have hno : ¬Traced.LongLoop w (.deliver k) := not_longLoop (by simp)
      exact ⟨hiff.mp, fun hw => ⟨fun _ => hno, fun _ => hiff.mpr hw⟩, fun hw _ j d hd =>
        htimed hw j d (by rwa [observe_state] at hd)⟩
  | ret =>
      obtain ⟨k, hr, rfl⟩ := Option.map_eq_some_iff.mp ht
      cases hl : w.state.loop k with
      | none =>
          have hres : resume k w.state = { w.state with running := none } := by
            simp only [resume, hl]
          rw [hres] at hinv ⊢
          have hobs : observe { w.state with running := none } w (.ret : Act φ α) =
              { w with state := { w.state with running := none } } := by
            simp only [observe, hr, hl]
          rw [hobs]
          refine stepRight_quiet rfl ?_ fun hw j d hd => ?_
          · rintro ⟨-, tid, ms, hr', hl', -⟩
            rw [hr] at hr'
            cases hr'
            rw [hl] at hl'
            cases hl'
          · exact (hi.timed hw j d hd).keep rfl rfl rfl (fun _ h => h) (fun h => h) (by simp)
      | some ms =>
          have hres : resume k w.state = rtosStart k ms { w.state with running := none } := by
            simp only [resume, hl]
          have hobs : observe (rtosStart k ms { w.state with running := none }) w (.ret : Act φ α) =
              Traced.again (rtosStart k ms { w.state with running := none }) k ms w := by
            simp only [observe, hr, hl]
          have hlong : ¬Traced.LongLoop w (.ret : Act φ α) ↔ ms ≤ MAXMS := by
            constructor
            · intro h
              by_contra hgt
              exact h ⟨rfl, k, ms, hr, hl, Nat.lt_of_not_le hgt⟩
            · rintro h ⟨-, tid, ms', hr', hl', hgt⟩
              rw [hr] at hr'
              cases hr'
              rw [hl] at hl'
              cases hl'
              omega
          rw [hres, hobs]
          refine ⟨fun hv => ((allRight_append rfl).mp hv).1, fun hw => ?_, fun hw hno => ?_⟩
          · rw [hlong]
            exact (hi.ret hr hl hw).1
          · exact (hi.ret hr hl hw).2 (hlong.mp hno)

theorem Traced.Inv.next {w v : Traced φ α} {a : Act φ α} (hi : w.Inv)
    (h : Traced.step w a = some v) : v.Inv := by
  have hst := hi.step h
  obtain ⟨t, ht, rfl⟩ := Option.map_eq_some_iff.mp h
  refine ⟨?_, fun hv => ?_⟩
  · rw [observe_state]
    exact step_inv _ _ _ hi.tables ht
  · have hw := hst.prior hv
    exact hst.timed hw ((hst.calls hw).mp hv)

/-- In a run, all calls of `rtos.timer_start` and of the callbacks are right exactly when
no callback of a loop timer of more than `MAXMS` returns while its timer goes on. -/
theorem pieces_right_iff (acts : List (Act φ α)) :
    Along Traced.step Traced.AllRight Traced.initial acts ↔
      Meets Traced.step (fun w a => ¬Traced.LongLoop w a) Traced.initial acts := by
  refine along_iff_meets (I := Traced.Inv) ?_ ?_ Traced.Inv.initial (fun v hv => by cases hv) acts
  · intro w a v hi h
    exact hi.next h
  · intro w a v hi hw h
    exact (hi.step h).calls hw

/-- The callback of a loop timer of 200000000 ms returns: its next piece is too long. -/
theorem long_loop_restarts : ∃ w : Traced Unit Unit,
    run Traced.step Traced.initial [.loopStart () 200000000 [] [], .expire 1, .deliver 1, .expire 1,
      .deliver 1, .ret] = some w ∧
    w.calls = [.timer_start 1 100000000 [] 200000000,
      .timer_start 1 100000000 [100000000] 200000000,
      .callback 1 [100000000, 100000000] 200000000,
      .timer_start 1 200000000 [] 200000000] ∧ MAXMS < 200000000 ∧ ¬w.AllRight := by
  have hcalls : (run Traced.step (Traced.initial : Traced Unit Unit) [.loopStart () 200000000 [] [],
      .expire 1, .deliver 1, .expire 1, .deliver 1, .ret]).map Traced.calls =
      some [.timer_start 1 100000000 [] 200000000,
        .timer_start 1 100000000 [100000000] 200000000,
        .callback 1 [100000000, 100000000] 200000000,
        .timer_start 1 200000000 [] 200000000] := by decide +kernel
  obtain ⟨w, hw, heq⟩ := Option.map_eq_some_iff.mp hcalls
  refine ⟨w, hw, heq, by decide, fun h => ?_⟩
  have hlast := h (.timer_start 1 200000000 [] 200000000) (by simp [heq])
  exact absurd hlast.2.1 (by decide)

/-- The calls that a step adds are those that the tables show. -/
theorem step_observed {w v : Traced φ α} {a : Act φ α} (hi : w.Inv)
    (h : Traced.step w a = some v) :
    ∃ new, v.calls = w.calls ++ new ∧ Observed w.state v.state new := by
  obtain ⟨t, ht, rfl⟩ := Option.map_eq_some_iff.mp h
  cases a with
  | start fnc ms arg keys =>
      obtain ⟨-, ⟨⟩⟩ := Option.ite_none_right_eq_some.mp ht
      exact ⟨_, rfl, observed_start (timer_stop_shrinks fnc (unpack arg) keys w.state)
        (fun p hp => mem_timer_stop hp) (timer_start_starts hi.tables fnc ms arg keys)
        (timer_start_begins hi.tables fnc ms arg keys)⟩
  | loopStart fnc ms arg keys =>
      obtain ⟨-, ⟨⟩⟩ := Option.ite_none_right_eq_some.mp ht
      exact ⟨_, rfl, observed_start (timer_stop_shrinks fnc (unpack arg) keys w.state)
        (fun p hp => mem_timer_stop hp) (timer_loop_start_starts hi.tables fnc ms arg keys)
        (timer_loop_start_begins hi.tables fnc ms arg keys)⟩
  | stopId k =>
      cases ht
      exact ⟨[], (List.append_nil _).symm, observed_shrink (forget_shrinks k w.state) fun _ hp => hp⟩
  | stop fnc arg keys =>
      obtain ⟨-, ⟨⟩⟩ := Option.ite_none_right_eq_some.mp ht
      exact ⟨[], (List.append_nil _).symm,
        observed_shrink (timer_stop_shrinks fnc arg keys w.state) fun _ hp => mem_timer_stop hp⟩
  | stopAll fnc keys =>
      obtain ⟨-, ⟨⟩⟩ := Option.ite_none_right_eq_some.mp ht
      exact ⟨[], (List.append_nil _).symm,
        observed_shrink (timer_stop_all_shrinks fnc keys w.state) fun _ hp => mem_timer_stop_all hp⟩
  | expire k =>
      obtain ⟨-, ⟨⟩⟩ := Option.ite_none_right_eq_some.mp ht
      exact ⟨[], (List.append_nil _).symm, (List.append_nil _).symm, fun p hp => .inl (Slots.mem_stop.mp hp).1⟩
  | deliver k =>
      obtain ⟨-, ⟨⟩⟩ := Option.ite_none_right_eq_some.mp ht
      cases hd : w.state.tpool k with
      | none =>
          simp only [Traced.observe, timerfnc, hd]
          exact ⟨[], (List.append_nil _).symm, (List.append_nil _).symm, fun p hp => .inl hp⟩
      | some d =>
          cases d with
          | fn cb =>
              simp only [Traced.observe, timerfnc, hd]
              exact ⟨_, rfl, observed_fire _ k cb _ _⟩
          | split cb step total times =>
              simp only [Traced.observe, timerfnc, hd]
              split
              · exact ⟨_, rfl, observed_again _ k step _ _⟩
              · exact ⟨_, rfl, observed_fire _ k cb _ _⟩
  | ret =>
      obtain ⟨k, hr, rfl⟩ := Option.map_eq_some_iff.mp ht
      cases hl : w.state.loop k with
      | none =>
          simp only [Traced.observe, resume, hr, hl]
          exact ⟨[], (List.append_nil _).symm, (List.append_nil _).symm, fun p hp => .inl hp⟩
      | some ms =>
          simp only [Traced.observe, resume, hr, hl]
          exact ⟨_, rfl, observed_again { w.state with running := none } k ms _ _⟩

/-- The calls are those of the tables: the callbacks are the ones that have run, and each
running RTOS timer was started by a call with its duration. -/
theorem calls_observed {acts : List (Act φ α)} {w : Traced φ α}
    (h : run Traced.step Traced.initial acts = some w) :
    w.calls.filterMap Call.callee = w.state.ran.map Prod.fst ∧
      ∀ p ∈ w.state.slots.used, ∃ expired period,
        .timer_start p.1 p.2 expired period ∈ w.calls := by
  have hinv : w.Inv ∧ w.calls.filterMap Call.callee = w.state.ran.map Prod.fst ∧
      ∀ p ∈ w.state.slots.used, ∃ expired period,
        .timer_start p.1 p.2 expired period ∈ w.calls := by
    refine invariant_run (P := fun w => w.Inv ∧
      w.calls.filterMap Call.callee = w.state.ran.map Prod.fst ∧
      ∀ p ∈ w.state.slots.used, ∃ expired period, .timer_start p.1 p.2 expired period ∈ w.calls) ?_
      ⟨Traced.Inv.initial, rfl, fun p hp => by cases hp⟩ h
    rintro u a v ⟨hi, hran, hs⟩ ht
    obtain ⟨new, hc, hran', hs'⟩ := step_observed hi ht
    refine ⟨hi.next ht, ?_, fun p hp => ?_⟩
    · rw [hc, List.filterMap_append, hran, hran']
    · rw [hc]
      rcases hs' p hp with hp | ⟨x, per, hp⟩
      · obtain ⟨x, per, hm⟩ := hs p hp
        exact ⟨x, per, List.mem_append_left _ hm⟩
      · exact ⟨x, per, List.mem_append_right _ hp⟩
  exact hinv.2

end

end LuatAir200.Timer
