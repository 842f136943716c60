import LuatAir200.TimerInvariant

/-!
# Timers over whole runs

A timer that has left `tpool` never comes back: its id is not given out again,
so its expiry message, if one is still queued, finds nothing. From this follow
the soundness of the callbacks and the agreement of the Lua tables with the
RTOS timers.
-/
namespace LuatAir200.Timer
open Lua Machine

variable {φ α : Type}

/-- How often the callback of timer `tid` has run. -/
def runs (s : State φ α) (tid : ℕ) : ℕ := s.ran.countP fun r => r.1 = tid

/-- The id has been given out and its timer is gone. -/
def Gone (tid : ℕ) (s : State φ α) : Prop := tid ≤ s.uniquetid ∧ s.tpool tid = none

theorem Shrinks.gone {s t : State φ α} (h : Shrinks s t) {tid : ℕ} (hg : Gone tid s) :
    Gone tid t := by
  refine ⟨h.uniquetid ▸ hg.1, ?_⟩
  obtain ⟨a, -⟩ | ⟨a, -⟩ := h.entry tid
  · exact a.trans hg.2
  · exact a

theorem Shrinks.runs {s t : State φ α} (h : Shrinks s t) (tid : ℕ) : runs t tid = runs s tid := by
  rw [Timer.runs, Timer.runs, h.ran]

theorem Starts.gone {s t : State φ α} {fnc : φ} {arg : Args α} (h : Starts s t fnc arg) {tid : ℕ}
    (hg : Gone tid s) : Gone tid t ∧ runs t tid = runs s tid ∧
      (tid ∉ s.slots.ids → tid ∉ t.slots.ids) := by
  have hlow := hg.1
  have hne : tid ≠ s.uniquetid + 1 := by omega
  refine ⟨⟨by rw [h.uniquetid]; omega, (h.other tid hne).1.trans hg.2⟩, ?_, fun hs ht => ?_⟩
  · rw [runs, runs, h.ran]
  · exact (h.slot ht).elim hne hs

/-- `rtosStart` touches nothing but the slots and the flag of failures. -/
theorem rtosStart_frame (k ms : ℕ) (s : State φ α) :
    (rtosStart k ms s).uniquetid = s.uniquetid ∧ (rtosStart k ms s).tpool = s.tpool ∧
      (rtosStart k ms s).loop = s.loop ∧ (rtosStart k ms s).ran = s.ran ∧
      ∀ j ∈ (rtosStart k ms s).slots.ids, j = k ∨ j ∈ s.slots.ids := by
  obtain ⟨slots, he, hs⟩ | he := rtosStart_cases k ms s
  · rw [he]; exact ⟨rfl, rfl, rfl, rfl, fun j hj => (hs j).mp hj⟩
  · rw [he]; exact ⟨rfl, rfl, rfl, rfl, fun j hj => .inr hj⟩

theorem runs_fire (s : State φ α) (k : ℕ) (cb : φ) (tid : ℕ) :
    runs (fire k cb s) tid = runs s tid + if k = tid then 1 else 0 := by
  have hran : (fire k cb s).ran = s.ran ++ [(k, cb, ((s.para k).map unpack).getD [])] := by
    unfold fire
    dsimp only
    split <;> rfl
  rw [runs, runs, hran, List.countP_append, List.countP_singleton]
  simp

theorem fire_other (s : State φ α) {k tid : ℕ} (cb : φ) (h : tid ≠ k) :
    (fire k cb s).tpool tid = s.tpool tid := by
  unfold fire
  dsimp only
  split
  · simp [h]
  · rfl

theorem fire_frame (s : State φ α) (k : ℕ) (cb : φ) :
    (fire k cb s).uniquetid = s.uniquetid ∧ (fire k cb s).loop = s.loop ∧
      (fire k cb s).slots = s.slots := by
  unfold fire
  dsimp only
  split <;> exact ⟨rfl, rfl, rfl⟩

/-- The callback of a one-shot timer runs when its entry is gone. -/
theorem fire_gone (s : State φ α) {k : ℕ} (cb : φ) (h : s.loop k = none) :
    (fire k cb s).tpool k = none := by
  simp [fire, h]

theorem timerfnc_gone {s : State φ α} (k : ℕ) {tid : ℕ} (hg : Gone tid s) :
    Gone tid (timerfnc k s) ∧ runs (timerfnc k s) tid = runs s tid ∧
      (tid ∉ s.slots.ids → tid ∉ (timerfnc k s).slots.ids) := by
  obtain ⟨-, he⟩ | ⟨d, e, hd, -, h⟩ := timerfnc_cases k s
  · rw [he]; exact ⟨hg, rfl, id⟩
  have hne : tid ≠ k := by rintro rfl; rw [hg.2] at hd; cases hd
  obtain ⟨ms, he⟩ | he := h
  · obtain ⟨hu, ht, -, hr, hs⟩ := rtosStart_frame k ms
      { s with tpool := Function.update s.tpool k (some e) }
    rw [he]
    exact ⟨⟨by rw [hu]; exact hg.1, by rw [ht]; simp [hne, hg.2]⟩, by rw [runs, runs, hr],
      fun hn hj => (hs tid hj).elim hne hn⟩
  · obtain ⟨hu, -, hs⟩ := fire_frame { s with tpool := Function.update s.tpool k (some e) } k d.cb
    rw [he]
    refine ⟨⟨by rw [hu]; exact hg.1, by rw [fire_other _ _ hne]; simp [hne, hg.2]⟩, ?_,
      by rw [hs]; exact id⟩
    rw [runs_fire, if_neg (Ne.symm hne)]
    rfl

theorem resume_gone {s : State φ α} (hi : Inv s) (k : ℕ) {tid : ℕ} (hg : Gone tid s) :
    Gone tid (resume k s) ∧ runs (resume k s) tid = runs s tid ∧
      (tid ∉ s.slots.ids → tid ∉ (resume k s).slots.ids) := by
  obtain ⟨-, he⟩ | ⟨ms, hl, he⟩ := resume_cases k s
  · rw [he]; exact ⟨hg, rfl, id⟩
  · have hne : tid ≠ k := by
      rintro rfl
      rw [hi.loop_dead tid hg.2] at hl
      cases hl
    obtain ⟨hu, ht, -, hr, hs⟩ := rtosStart_frame k ms { s with running := none }
    rw [he]
    exact ⟨⟨by rw [hu]; exact hg.1, by rw [ht]; exact hg.2⟩, by rw [runs, runs, hr],
      fun hn hj => (hs tid hj).elim hne hn⟩

/-! ## One-shot timers -/

/-- A timer that is no loop timer, and whose callback has run at most once. -/
structure OneShot (tid : ℕ) (s : State φ α) : Prop where
  low : tid ≤ s.uniquetid
  loop : s.loop tid = none
  waiting : s.tpool tid ≠ none → runs s tid = 0
  once : runs s tid ≤ 1

theorem Shrinks.oneShot {s t : State φ α} (h : Shrinks s t) {tid : ℕ} (ho : OneShot tid s) :
    OneShot tid t where
  low := h.uniquetid ▸ ho.low
  loop := by
    obtain ⟨-, -, c, -⟩ | ⟨-, -, c, -⟩ := h.entry tid
    · exact c.trans ho.loop
    · exact c
  waiting hl := by
    rw [h.runs]
    obtain ⟨a, -⟩ | ⟨a, -⟩ := h.entry tid
    · exact ho.waiting (a ▸ hl)
    · exact absurd a hl
  once := by rw [h.runs]; exact ho.once

theorem Starts.oneShot {s t : State φ α} {fnc : φ} {arg : Args α} (h : Starts s t fnc arg)
    {tid : ℕ} (ho : OneShot tid s) : OneShot tid t := by
  have hlow := ho.low
  obtain ⟨a, -, c, -⟩ := h.other tid (by omega)
  have hr : runs t tid = runs s tid := by rw [runs, runs, h.ran]
  exact ⟨by rw [h.uniquetid]; omega, c.trans ho.loop,
    fun hl => by rw [hr]; exact ho.waiting (a ▸ hl), by rw [hr]; exact ho.once⟩

theorem Starts.runs_new {s t : State φ α} {fnc : φ} {arg : Args α} (h : Starts s t fnc arg)
    (hi : Inv s) : Timer.runs t (s.uniquetid + 1) = 0 := by
  rw [Timer.runs, h.ran, List.countP_eq_zero]
  intro r hr
  have hlow := hi.ran_low r hr
  simp only [decide_eq_true_eq]
  omega

theorem timerfnc_oneShot {s : State φ α} (k : ℕ) {tid : ℕ} (ho : OneShot tid s) :
    OneShot tid (timerfnc k s) := by
  obtain ⟨-, he⟩ | ⟨d, e, hd, -, ⟨ms, he⟩ | he⟩ := timerfnc_cases k s
  · rw [he]; exact ho
  · obtain ⟨hu, ht, hl, hr, -⟩ := rtosStart_frame k ms
      { s with tpool := Function.update s.tpool k (some e) }
    rw [he]
    refine ⟨by rw [hu]; exact ho.low, by rw [hl]; exact ho.loop, fun hw => ?_,
      by rw [runs, hr]; exact ho.once⟩
    rw [runs, hr]
    refine ho.waiting fun hn => hw ?_
    by_cases hk : tid = k
    · subst hk; rw [hn] at hd; cases hd
    · rw [ht]; simp [hk, hn]
  · obtain ⟨hu, hl, -⟩ := fire_frame { s with tpool := Function.update s.tpool k (some e) } k d.cb
    rw [he]
    refine ⟨by rw [hu]; exact ho.low, by rw [hl]; exact ho.loop, fun hw => ?_, ?_⟩
    · rw [runs_fire]
      by_cases hk : k = tid
      · subst hk
        exact absurd (fire_gone { s with tpool := Function.update s.tpool k (some e) } _ ho.loop) hw
      · rw [fire_other _ _ (Ne.symm hk)] at hw
        rw [if_neg hk]
        exact ho.waiting (by simpa [Ne.symm hk] using hw)
    · rw [runs_fire]
      by_cases hk : k = tid
      · subst hk
        have h0 : runs s k = 0 := ho.waiting (by rw [hd]; simp)
        rw [if_pos rfl]
        exact Nat.le_of_eq (congrArg (· + 1) h0)
      · rw [if_neg hk]
        exact ho.once

theorem resume_oneShot {s : State φ α} (k : ℕ) {tid : ℕ} (ho : OneShot tid s) :
    OneShot tid (resume k s) := by
  obtain ⟨-, he⟩ | ⟨ms, -, he⟩ := resume_cases k s
  · rw [he]; exact ⟨ho.low, ho.loop, ho.waiting, ho.once⟩
  · obtain ⟨hu, ht, hl, hr, -⟩ := rtosStart_frame k ms { s with running := none }
    rw [he]
    exact ⟨by rw [hu]; exact ho.low, by rw [hl]; exact ho.loop,
      fun hw => by rw [runs, hr]; exact ho.waiting (by rwa [ht] at hw),
      by rw [runs, hr]; exact ho.once⟩

/-! ## RTOS timers without an entry -/

section
variable [DecidableEq φ] [DecidableEq α]

/-- A timer that is gone stays gone; its callback does not run and it gets no RTOS timer. -/
theorem step_gone {s t : State φ α} {a : Act φ α} (hi : Inv s) {tid : ℕ} (hg : Gone tid s)
    (h : step s a = some t) : Gone tid t ∧ runs t tid = runs s tid ∧
      (tid ∉ s.slots.ids → tid ∉ t.slots.ids) := by
  have shrink {u : State φ α} (hs : Shrinks s u) : Gone tid u ∧ runs u tid = runs s tid ∧
      (tid ∉ s.slots.ids → tid ∉ u.slots.ids) :=
    ⟨hs.gone hg, hs.runs tid, fun hn hu => hn (hs.slots tid hu)⟩
  have start {u v : State φ α} {fnc : φ} {arg : Args α} (hs : Shrinks s u)
      (hst : Starts u v fnc arg) : Gone tid v ∧ runs v tid = runs s tid ∧
        (tid ∉ s.slots.ids → tid ∉ v.slots.ids) := by
    obtain ⟨g, r, n⟩ := shrink hs
    obtain ⟨g', r', n'⟩ := hst.gone g
    exact ⟨g', r'.trans r, fun hn => n' (n hn)⟩
  cases a with
  | start fnc ms arg keys =>
      obtain ⟨-, ⟨⟩⟩ := Option.ite_none_right_eq_some.mp h
      exact start (timer_stop_shrinks _ _ _ s) (timer_start_starts hi fnc ms arg keys)
  | loopStart fnc ms arg keys =>
      obtain ⟨-, ⟨⟩⟩ := Option.ite_none_right_eq_some.mp h
      exact start (timer_stop_shrinks _ _ _ s) (timer_loop_start_starts hi fnc ms arg keys)
  | stopId k =>
      cases h
      exact shrink (forget_shrinks k s)
  | stop fnc arg keys =>
      obtain ⟨-, ⟨⟩⟩ := Option.ite_none_right_eq_some.mp h
      exact shrink (timer_stop_shrinks fnc arg keys s)
  | stopAll fnc keys =>
      obtain ⟨-, ⟨⟩⟩ := Option.ite_none_right_eq_some.mp h
      exact shrink (timer_stop_all_shrinks fnc keys s)
  | expire k =>
      obtain ⟨-, ⟨⟩⟩ := Option.ite_none_right_eq_some.mp h
      exact ⟨hg, rfl, fun hn hk => hn (Slots.mem_ids_stop.mp hk).1⟩
  | deliver k =>
      obtain ⟨-, ⟨⟩⟩ := Option.ite_none_right_eq_some.mp h
      exact timerfnc_gone k (s := { s with msgs := s.msgs.erase k }) hg
  | ret =>
      obtain ⟨k, -, rfl⟩ := Option.map_eq_some_iff.mp h
      exact resume_gone hi k hg

theorem run_gone {s u : State φ α} {as : List (Act φ α)} (hi : Inv s) {tid : ℕ} (hg : Gone tid s)
    (h : run step s as = some u) : runs u tid = runs s tid ∧
      (tid ∉ s.slots.ids → tid ∉ u.slots.ids) := by
  have hinv : Inv u ∧ Gone tid u ∧ runs u tid = runs s tid ∧
      (tid ∉ s.slots.ids → tid ∉ u.slots.ids) := by
    refine invariant_run (P := fun u => Inv u ∧ Gone tid u ∧ runs u tid = runs s tid ∧
      (tid ∉ s.slots.ids → tid ∉ u.slots.ids)) ?_ ⟨hi, hg, rfl, id⟩ h
    rintro v a w ⟨hv, hgv, hr, hn⟩ hw
    obtain ⟨g, r, n⟩ := step_gone hv hgv hw
    exact ⟨step_inv v a w hv hw, g, r.trans hr, fun h => n (hn h)⟩
  exact hinv.2.2

/-! ## Stopped and replaced timers -/

/-- Action `a` stops timer `tid`, or replaces it by a new one. -/
def Stops (s : State φ α) (tid : ℕ) : Act φ α → Prop
  | .stopId k => k = tid ∧ s.tpool tid ≠ none
  | .stop fnc arg _ => ∃ e, s.tpool tid = some e ∧ e.cb = fnc ∧ argsOf s tid = arg
  | .start fnc _ arg _ => ∃ e, s.tpool tid = some e ∧ e.cb = fnc ∧ argsOf s tid = arg
  | .loopStart fnc _ arg _ => ∃ e, s.tpool tid = some e ∧ e.cb = fnc ∧ argsOf s tid = arg
  | .stopAll fnc _ => ∃ e, s.tpool tid = some e ∧ e.cb = fnc
  | _ => False

theorem timer_stop_gone {s : State φ α} (hi : Inv s) (hf : s.failed = false) {tid : ℕ}
    {fnc : φ} {arg : Args α} {keys : List ℕ} (hk : keys.Perm (pairs s)) {e : Entry φ}
    (he : s.tpool tid = some e) (hc : e.cb = fnc)
    (ha : unpack (argsOf s tid) = unpack arg) : Gone tid (timer_stop fnc arg keys s) := by
  have hsh := timer_stop_shrinks fnc arg keys s
  refine ⟨hsh.uniquetid ▸ hi.low (by rw [he]; simp), ?_⟩
  by_contra hn
  obtain ⟨d, hd⟩ := Option.ne_none_iff_exists'.mp hn
  obtain ⟨hd', ha'⟩ := hsh.live hd
  have hno := timer_stop_none hi hf fnc arg hk tid
  rw [← Bool.not_eq_true, isTimer_iff] at hno
  rw [he] at hd'
  cases hd'
  exact hno ⟨e, hd, hc, by rw [ha', ha]⟩

/-- A stopped timer is gone at once, without a run of its callback. -/
theorem stops_gone {s t : State φ α} {a : Act φ α} (hi : Inv s) (hf : s.failed = false) {tid : ℕ}
    (hs : Stops s tid a) (h : step s a = some t) : Gone tid t ∧ runs t tid = runs s tid ∧
      (tid ∉ s.slots.ids → tid ∉ t.slots.ids) := by
  have start {v : State φ α} {fnc : φ} {arg b : Args α} {keys : List ℕ}
      (hk : keys.Perm (pairs s))
      (hm : ∃ e, s.tpool tid = some e ∧ e.cb = fnc ∧ argsOf s tid = arg)
      (hst : Starts (timer_stop fnc (unpack arg) keys s) v fnc b) :
      Gone tid v ∧ runs v tid = runs s tid ∧ (tid ∉ s.slots.ids → tid ∉ v.slots.ids) := by
    obtain ⟨e, he, hc, ha⟩ := hm
    have hsh := timer_stop_shrinks fnc (unpack arg) keys s
    obtain ⟨g, r, n⟩ := hst.gone (timer_stop_gone hi hf hk he hc (by rw [ha, unpack_unpack]))
    exact ⟨g, r.trans (hsh.runs tid), fun hn => n fun hk => hn (hsh.slots tid hk)⟩
  cases a with
  | start fnc ms arg keys =>
      obtain ⟨⟨-, hk⟩, ⟨⟩⟩ := Option.ite_none_right_eq_some.mp h
      exact start hk hs (timer_start_starts hi fnc ms arg keys)
  | loopStart fnc ms arg keys =>
      obtain ⟨⟨-, hk⟩, ⟨⟩⟩ := Option.ite_none_right_eq_some.mp h
      exact start hk hs (timer_loop_start_starts hi fnc ms arg keys)
  | stopId k =>
      cases h
      obtain ⟨rfl, hl⟩ := hs
      exact ⟨⟨hi.low hl, by simp [timer_stop_id, forget]⟩, rfl, id⟩
  | stop fnc arg keys =>
      obtain ⟨hk, ⟨⟩⟩ := Option.ite_none_right_eq_some.mp h
      obtain ⟨e, he, hc, ha⟩ := hs
      have hsh := timer_stop_shrinks fnc arg keys s
      exact ⟨timer_stop_gone hi hf hk he hc (by rw [ha]), hsh.runs tid,
        fun hn hk => hn (hsh.slots tid hk)⟩
  | stopAll fnc keys =>
      obtain ⟨hk, ⟨⟩⟩ := Option.ite_none_right_eq_some.mp h
      obtain ⟨e, he, hc⟩ := hs
      have hsh := timer_stop_all_shrinks fnc keys s
      have hlive : s.tpool tid ≠ none := by rw [he]; simp
      have hmem : tid ∈ keys := hk.mem_iff.mpr ((mem_pairs hi).mpr hlive)
      exact ⟨⟨hsh.uniquetid ▸ hi.low hlive, timer_stop_all_none fnc keys s hmem he hc⟩,
        hsh.runs tid, fun hn hk => hn (hsh.slots tid hk)⟩
  | expire _ => cases hs
  | deliver _ => cases hs
  | ret => cases hs

/-! ## Runs of one-shot timers -/

theorem step_oneShot {s t : State φ α} {a : Act φ α} (hi : Inv s) {tid : ℕ} (ho : OneShot tid s)
    (h : step s a = some t) : OneShot tid t := by
  cases a with
  | start fnc ms arg keys =>
      obtain ⟨-, ⟨⟩⟩ := Option.ite_none_right_eq_some.mp h
      exact (timer_start_starts hi fnc ms arg keys).oneShot
        ((timer_stop_shrinks fnc (unpack arg) keys s).oneShot ho)
  | loopStart fnc ms arg keys =>
      obtain ⟨-, ⟨⟩⟩ := Option.ite_none_right_eq_some.mp h
      exact (timer_loop_start_starts hi fnc ms arg keys).oneShot
        ((timer_stop_shrinks fnc (unpack arg) keys s).oneShot ho)
  | stopId k =>
      cases h
      exact (forget_shrinks k s).oneShot ho
  | stop fnc arg keys =>
      obtain ⟨-, ⟨⟩⟩ := Option.ite_none_right_eq_some.mp h
      exact (timer_stop_shrinks fnc arg keys s).oneShot ho
  | stopAll fnc keys =>
      obtain ⟨-, ⟨⟩⟩ := Option.ite_none_right_eq_some.mp h
      exact (timer_stop_all_shrinks fnc keys s).oneShot ho
  | expire k =>
      obtain ⟨-, ⟨⟩⟩ := Option.ite_none_right_eq_some.mp h
      exact ⟨ho.low, ho.loop, ho.waiting, ho.once⟩
  | deliver k =>
      obtain ⟨-, ⟨⟩⟩ := Option.ite_none_right_eq_some.mp h
      exact timerfnc_oneShot k (s := { s with msgs := s.msgs.erase k })
        ⟨ho.low, ho.loop, ho.waiting, ho.once⟩
  | ret =>
      obtain ⟨k, -, rfl⟩ := Option.map_eq_some_iff.mp h
      exact resume_oneShot k ho

/-- A timer that `timer_start` has just started. -/
theorem start_oneShot {s t : State φ α} (hi : Inv s) {fnc : φ} {ms : ℕ} {arg : Args α}
    {keys : List ℕ} (h : step s (.start fnc ms arg keys) = some t) :
    OneShot t.uniquetid t := by
  obtain ⟨-, ⟨⟩⟩ := Option.ite_none_right_eq_some.mp h
  have hst := timer_start_starts hi fnc ms arg keys
  have hi' := (timer_stop_shrinks fnc (unpack arg) keys s).inv hi
  have h0 := hst.runs_new hi'
  have hl : (timer_start fnc ms arg keys s).1.loop
      ((timer_stop fnc (unpack arg) keys s).uniquetid + 1) = none := by
    rw [timer_start_loop]
    exact hi'.loop_dead _ (hi'.fresh _ (Nat.lt_succ_self _))
  refine ⟨Nat.le_refl _, ?_, ?_, ?_⟩ <;> rw [hst.uniquetid]
  · exact hl
  · exact fun _ => h0
  · rw [h0]; exact Nat.zero_le 1

/-- The callbacks of timers are sound while no `rtos.timer_start` has failed: no two
timers in the table have the same callback and arguments; a timer that is stopped
or replaced never runs its callback again, whether or not its expiry message is
already queued; a one-shot timer runs its callback at most once; and a loop timer
stopped while its callback runs is not started again. -/
theorem timer_callbacks_sound {s : State φ α} (hr : Reachable step initial s)
    (hf : s.failed = false) :
    (∀ j k d e, s.tpool j = some d → s.tpool k = some e → d.cb = e.cb →
      argsOf s j = argsOf s k → j = k) ∧
    (∀ fnc ms arg keys t, NilFree arg → t.failed = false →
      step s (.start fnc ms arg keys) = some t ∨ step s (.loopStart fnc ms arg keys) = some t →
      (∃ e, t.tpool t.uniquetid = some e ∧ e.cb = fnc) ∧ argsOf t t.uniquetid = arg) ∧
    (∀ a tid t as u, Stops s tid a → step s a = some t → run step t as = some u →
      runs u tid = runs s tid) ∧
    (∀ fnc ms arg keys t as u, step s (.start fnc ms arg keys) = some t →
      run step t as = some u → runs u t.uniquetid ≤ 1) ∧
    (∀ a tid t as u, s.running = some tid → Stops s tid a → step s a = some t →
      run step t as = some u → tid ∉ u.slots.ids) := by
  have hi : Inv s := hr.invariant step_inv initial_inv
  refine ⟨?_, ?_, ?_, ?_, ?_⟩
  · intro j k d e hj hk hc ha
    exact hi.unique hf j k d e hj hk hc (by rw [ha])
  · intro fnc ms arg keys t hn ht h
    have new {v : State φ α}
        (hst : Starts (timer_stop fnc (unpack arg) keys s) v fnc arg) (hv : v.failed = false) :
        (∃ e, v.tpool v.uniquetid = some e ∧ e.cb = fnc) ∧ argsOf v v.uniquetid = arg := by
      rw [hst.uniquetid]
      exact ⟨hst.entry, (hst.success hv).2.1⟩
    obtain h | h := h
    · obtain ⟨-, ⟨⟩⟩ := Option.ite_none_right_eq_some.mp h
      exact new (timer_start_starts hi fnc ms arg keys) ht
    · obtain ⟨-, ⟨⟩⟩ := Option.ite_none_right_eq_some.mp h
      have hst := timer_loop_start_starts hi fnc ms arg keys
      rw [hn.unpack_eq] at hst
      exact new (by rwa [hn.unpack_eq]) ht
  · intro a tid t as u hs h hu
    obtain ⟨g, r, -⟩ := stops_gone hi hf hs h
    exact (run_gone (step_inv s a t hi h) g hu).1.trans r
  · intro fnc ms arg keys t as u h hu
    have ho : Inv u ∧ OneShot t.uniquetid u :=
      invariant_run (P := fun v => Inv v ∧ OneShot t.uniquetid v)
        (fun v a w hv hw => ⟨step_inv v a w hv.1 hw, step_oneShot hv.1 hv.2 hw⟩)
        ⟨step_inv s _ t hi h, start_oneShot hi h⟩ hu
    exact ho.2.once
  · intro a tid t as u hrun hs h hu
    obtain ⟨g, -, n⟩ := stops_gone hi hf hs h
    exact (run_gone (step_inv s a t hi h) g hu).2 (n (hi.run_slot tid hrun))

/-- A timer whose message is queued is stopped: its callback is never run. -/
theorem timer_callbacks_sound_stopped_late :
    ∃ s : State ℕ ℕ, run step initial [.start 7 10 [some 1] [], .expire 1] = some s ∧
      1 ∈ s.msgs ∧ ∀ t as u, step s (.stop 7 [some 1] [1]) = some t → run step t as = some u →
        runs u 1 = 0 :=
  ⟨_, rfl, by decide, fun t as u h hu =>
    ((timer_callbacks_sound ⟨[.start 7 10 [some 1] [], .expire 1], rfl⟩ rfl).2.2.1
      (.stop 7 [some 1] [1]) 1 t as u ⟨.fn 7, rfl, rfl, rfl⟩ h hu).trans (by decide)⟩

/-! ## Agreement with the RTOS timers -/

end
end LuatAir200.Timer
