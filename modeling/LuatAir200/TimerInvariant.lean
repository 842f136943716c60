import LuatAir200.TimerTable

/-!
# The invariant of the timer tables

A stop only removes timers, a start only adds one under a fresh id, and an
expiry message is the only thing that runs a callback. The three tables agree
with each other in every reachable state; while no call of `rtos.timer_start`
has failed, every entry of `tpool` also has its place on the RTOS side.
-/
namespace LuatAir200.Timer
open Lua

variable {φ α : Type}

/-- The arguments of timer `k`. -/
def argsOf (s : State φ α) (k : ℕ) : Args α := (s.para k).getD []

/-- The invariant while the id `hand` is being moved from one place to another. -/
structure InvAt (hand : Option ℕ) (s : State φ α) : Prop where
  fresh : ∀ k, s.uniquetid < k → s.tpool k = none
  para_dead : ∀ k, s.tpool k = none → s.para k = none
  loop_dead : ∀ k, s.tpool k = none → s.loop k = none
  slot_low : ∀ k ∈ s.slots.ids, k ≤ s.uniquetid
  msg_low : ∀ k ∈ s.msgs, k ≤ s.uniquetid
  run_low : ∀ k, s.running = some k → k ≤ s.uniquetid
  ran_low : ∀ r ∈ s.ran, r.1 ≤ s.uniquetid
  msgs_nodup : s.msgs.Nodup
  slot_msg : ∀ k ∈ s.slots.ids, k ∉ s.msgs
  run_slot : ∀ k, s.running = some k → k ∉ s.slots.ids
  run_msg : ∀ k, s.running = some k → k ∉ s.msgs
  run_loop : ∀ k, s.running = some k → s.tpool k ≠ none → s.loop k ≠ none
  slot_kept : ∀ k ∈ s.slots.ids, s.tpool k ≠ none ∨ s.stopped k = true
  msg_kept : ∀ k ∈ s.msgs, s.tpool k ≠ none ∨ s.stopped k = true
  live_kept : ∀ k, s.tpool k ≠ none → s.stopped k = false
  hand_free : ∀ k, hand = some k →
    k ≤ s.uniquetid ∧ k ∉ s.slots.ids ∧ k ∉ s.msgs ∧ s.running ≠ some k
  live_place : s.failed = false → ∀ k, s.tpool k ≠ none →
    k ∈ s.slots.ids ∨ k ∈ s.msgs ∨ s.running = some k ∨ hand = some k
  live_started : s.failed = false → ∀ k e, s.tpool k = some e →
    s.started k = some (e.cb, argsOf s k)
  unique : s.failed = false → ∀ j k d e, s.tpool j = some d → s.tpool k = some e →
    d.cb = e.cb → unpack (argsOf s j) = unpack (argsOf s k) → j = k

/-- The invariant between two actions. -/
abbrev Inv (s : State φ α) : Prop := InvAt none s

theorem initial_inv : Inv (initial : State φ α) := by
  constructor <;> simp [initial, Slots.ids, Slots.empty]

/-! ## Stops -/

/-- What a stop can do: some timers lose all their entries, the others keep them. -/
structure Shrinks (s t : State φ α) : Prop where
  uniquetid : t.uniquetid = s.uniquetid
  entry : ∀ k, (t.tpool k = s.tpool k ∧ t.para k = s.para k ∧ t.loop k = s.loop k ∧
      t.stopped k = s.stopped k) ∨
    (t.tpool k = none ∧ t.para k = none ∧ t.loop k = none ∧ t.stopped k = true)
  slots : ∀ k ∈ t.slots.ids, k ∈ s.slots.ids
  kept : ∀ k ∈ s.slots.ids, t.tpool k ≠ none → k ∈ t.slots.ids
  msgs : t.msgs = s.msgs
  running : t.running = s.running
  ran : t.ran = s.ran
  started : t.started = s.started
  failed : t.failed = s.failed

theorem Shrinks.refl (s : State φ α) : Shrinks s s :=
  ⟨rfl, fun _ => .inl ⟨rfl, rfl, rfl, rfl⟩, fun _ h => h, fun _ h _ => h, rfl, rfl, rfl, rfl, rfl⟩

theorem Shrinks.trans {s t u : State φ α} (h : Shrinks s t) (h' : Shrinks t u) : Shrinks s u where
  uniquetid := h'.uniquetid.trans h.uniquetid
  entry k := by
    obtain ⟨a, b, c, d⟩ | hd := h'.entry k
    · rw [a, b, c, d]; exact h.entry k
    · exact .inr hd
  slots k hk := h.slots k (h'.slots k hk)
  kept k hk hu := by
    refine h'.kept k (h.kept k hk ?_) hu
    obtain ⟨a, -⟩ | ⟨a, -⟩ := h'.entry k
    · rwa [a] at hu
    · exact absurd a hu
  msgs := h'.msgs.trans h.msgs
  running := h'.running.trans h.running
  ran := h'.ran.trans h.ran
  started := h'.started.trans h.started
  failed := h'.failed.trans h.failed

theorem Shrinks.live {s t : State φ α} (h : Shrinks s t) {k : ℕ} {e : Entry φ}
    (he : t.tpool k = some e) : s.tpool k = some e ∧ argsOf t k = argsOf s k := by
  obtain ⟨a, b, -⟩ | ⟨a, -⟩ := h.entry k
  · exact ⟨a ▸ he, by rw [argsOf, argsOf, b]⟩
  · rw [a] at he; cases he

theorem Shrinks.inv {s t : State φ α} (h : Shrinks s t) (hi : Inv s) : Inv t where
  fresh k hk := by
    obtain ⟨a, -⟩ | ⟨a, -⟩ := h.entry k
    · rw [a]; exact hi.fresh k (h.uniquetid ▸ hk)
    · exact a
  para_dead k hk := by
    obtain ⟨a, b, -⟩ | ⟨-, b, -⟩ := h.entry k
    · rw [b]; exact hi.para_dead k (a ▸ hk)
    · exact b
  loop_dead k hk := by
    obtain ⟨a, -, c, -⟩ | ⟨-, -, c, -⟩ := h.entry k
    · rw [c]; exact hi.loop_dead k (a ▸ hk)
    · exact c
  slot_low k hk := h.uniquetid ▸ hi.slot_low k (h.slots k hk)
  msg_low k hk := h.uniquetid ▸ hi.msg_low k (h.msgs ▸ hk)
  run_low k hk := h.uniquetid ▸ hi.run_low k (h.running ▸ hk)
  ran_low r hr := h.uniquetid ▸ hi.ran_low r (h.ran ▸ hr)
  msgs_nodup := h.msgs ▸ hi.msgs_nodup
  slot_msg k hk := h.msgs ▸ hi.slot_msg k (h.slots k hk)
  run_slot k hk hs := hi.run_slot k (h.running ▸ hk) (h.slots k hs)
  run_msg k hk := h.msgs ▸ hi.run_msg k (h.running ▸ hk)
  run_loop k hk hl := by
    obtain ⟨a, -, c, -⟩ | ⟨a, -⟩ := h.entry k
    · rw [c]; exact hi.run_loop k (h.running ▸ hk) (a ▸ hl)
    · exact absurd a hl
  slot_kept k hk := by
    obtain ⟨a, -, -, d⟩ | ⟨-, -, -, d⟩ := h.entry k
    · rw [a, d]; exact hi.slot_kept k (h.slots k hk)
    · exact .inr d
  msg_kept k hk := by
    obtain ⟨a, -, -, d⟩ | ⟨-, -, -, d⟩ := h.entry k
    · rw [a, d]; exact hi.msg_kept k (h.msgs ▸ hk)
    · exact .inr d
  live_kept k hk := by
    obtain ⟨a, -, -, d⟩ | ⟨a, -⟩ := h.entry k
    · rw [d]; exact hi.live_kept k (a ▸ hk)
    · exact absurd a hk
  hand_free := nofun
  live_place hf k hk := by
    obtain ⟨a, -⟩ | ⟨a, -⟩ := h.entry k
    · obtain hp | hp := hi.live_place (h.failed ▸ hf) k (a ▸ hk)
      · exact .inl (h.kept k hp hk)
      · rw [h.msgs, h.running]; exact .inr hp
    · exact absurd a hk
  live_started hf k e he := by
    obtain ⟨he', ha⟩ := h.live he
    rw [h.started, ha]
    exact hi.live_started (h.failed ▸ hf) k e he'
  unique hf j k d e hj hk hc ha := by
    obtain ⟨hj', aj⟩ := h.live hj
    obtain ⟨hk', ak⟩ := h.live hk
    exact hi.unique (h.failed ▸ hf) j k d e hj' hk' hc (by rwa [aj, ak] at ha)

theorem forget_shrinks (k : ℕ) (s : State φ α) : Shrinks s (forget k s) where
  uniquetid := rfl
  entry j := by
    by_cases hj : j = k
    · subst hj; exact .inr (by simp [forget])
    · exact .inl (by simp [forget, hj])
  slots _ h := h
  kept _ h _ := h
  msgs := rfl
  running := rfl
  ran := rfl
  started := rfl
  failed := rfl

/-- Stopping the RTOS timer along with the entries. -/
theorem stopTimer_shrinks (k : ℕ) (s : State φ α) : Shrinks s (forget k (rtosStop k s)) where
  uniquetid := rfl
  entry j := by
    by_cases hj : j = k
    · subst hj; exact .inr (by simp [forget])
    · exact .inl (by simp [forget, rtosStop, hj])
  slots j h := (Slots.mem_ids_stop.mp h).1
  kept j h hl := Slots.mem_ids_stop.mpr ⟨h, fun hj => hl (by simp [forget, hj])⟩
  msgs := rfl
  running := rfl
  ran := rfl
  started := rfl
  failed := rfl

theorem InvAt.low {s : State φ α} {hand : Option ℕ} (hi : InvAt hand s) {tid : ℕ}
    (hl : s.tpool tid ≠ none) : tid ≤ s.uniquetid := by
  by_contra h
  exact hl (hi.fresh tid (by omega))

theorem mem_pairs {s : State φ α} (hi : Inv s) {k : ℕ} : k ∈ pairs s ↔ s.tpool k ≠ none := by
  rw [pairs, List.mem_filter, List.mem_range, Option.isSome_iff_ne_none]
  constructor
  · exact fun h => h.2
  · exact fun h => ⟨Nat.lt_succ_of_le (hi.low h), h⟩

section
variable [DecidableEq φ] [DecidableEq α]

theorem comp_table_iff {t1 : Args α} {t2 : Option (Args α)} :
    comp_table t1 t2 = true ↔ unpack t1 = unpack (t2.getD []) := by
  cases t2 with
  | none =>
      simp only [comp_table, beq_iff_eq, Option.getD_none, unpack_nil]
      rw [← length_unpack, List.length_eq_zero_iff]
  | some t2 =>
      simp only [comp_table, Bool.and_eq_true, beq_iff_eq, List.all_eq_true, List.mem_range,
        Option.getD_some]
      have hl1 := len_le t1
      have hl2 := len_le t2
      constructor
      · rintro ⟨hl, he⟩
        apply List.ext_getElem (by simp [hl])
        intro i h1 h2
        have hi := he i (by simpa using h1)
        simp only [length_unpack] at h1 h2
        simp only [unpack, List.getElem_take]
        simpa [List.getElem?_eq_getElem (show i < t1.length by omega),
          List.getElem?_eq_getElem (show i < t2.length by omega)] using hi
      · intro h
        have hl : len t1 = len t2 := by rw [← length_unpack, h, length_unpack]
        refine ⟨hl, fun i hi => ?_⟩
        have hg : (unpack t1)[i]? = (unpack t2)[i]? := by rw [h]
        rw [unpack, unpack, List.getElem?_take_of_lt hi,
          List.getElem?_take_of_lt (by omega)] at hg
        rw [hg]

theorem isTimer_iff {val : φ} {arg : Args α} {s : State φ α} {k : ℕ} :
    isTimer val arg s k = true ↔
      ∃ e, s.tpool k = some e ∧ e.cb = val ∧ unpack (argsOf s k) = unpack arg := by
  unfold isTimer
  cases he : s.tpool k with
  | none => simp
  | some e =>
      simp only [Bool.and_eq_true, decide_eq_true_eq, comp_table_iff, argsOf,
        Option.some.injEq, exists_eq_left']
      exact and_congr_right fun _ => eq_comm

/-- A stop by callback and arguments removes nothing, or one such timer. -/
theorem timer_stop_cases (val : φ) (arg : Args α) (keys : List ℕ) (s : State φ α) :
    (timer_stop val arg keys s = s ∧ ∀ k ∈ keys, isTimer val arg s k = false) ∨
    ∃ k, isTimer val arg s k = true ∧ timer_stop val arg keys s = forget k (rtosStop k s) := by
  unfold timer_stop
  cases hf : keys.find? (isTimer val arg s) with
  | none =>
      refine .inl ⟨rfl, fun k hk => ?_⟩
      simpa using List.find?_eq_none.mp hf k hk
  | some k => exact .inr ⟨k, List.find?_some hf, rfl⟩

theorem timer_stop_shrinks (val : φ) (arg : Args α) (keys : List ℕ) (s : State φ α) :
    Shrinks s (timer_stop val arg keys s) := by
  obtain ⟨h, -⟩ | ⟨k, -, h⟩ := timer_stop_cases val arg keys s
  · rw [h]; exact Shrinks.refl s
  · rw [h]; exact stopTimer_shrinks k s

/-- After the stop no timer with this callback and these arguments is left. -/
theorem timer_stop_none {s : State φ α} (hi : Inv s) (hf : s.failed = false) (val : φ)
    (arg : Args α) {keys : List ℕ} (hk : keys.Perm (pairs s)) (k : ℕ) :
    isTimer val arg (timer_stop val arg keys s) k = false := by
  rw [← Bool.not_eq_true, isTimer_iff]
  rintro ⟨e, he, hc, ha⟩
  obtain ⟨hs, hn⟩ | ⟨j, hj, hs⟩ := timer_stop_cases val arg keys s
  · rw [hs] at he ha
    have hm : k ∈ keys := hk.mem_iff.mpr ((mem_pairs hi).mpr (by rw [he]; simp))
    have hf := hn k hm
    rw [← Bool.not_eq_true] at hf
    exact hf (isTimer_iff.mpr ⟨e, he, hc, ha⟩)
  · obtain ⟨d, hd, hdc, hda⟩ := isTimer_iff.mp hj
    obtain ⟨he', ha'⟩ := (timer_stop_shrinks val arg keys s).live he
    have hjk := hi.unique hf j k d e hd he' (hdc.trans hc.symm)
      (hda.trans (by rw [← ha, ha']))
    rw [hs, ← hjk] at he
    simp [forget] at he

end

section
variable [DecidableEq φ]

theorem timer_stop_all_shrinks (fnc : φ) (keys : List ℕ) (s : State φ α) :
    Shrinks s (timer_stop_all fnc keys s) := by
  induction keys generalizing s with
  | nil => exact Shrinks.refl s
  | cons k keys ih =>
      simp only [timer_stop_all]
      cases s.tpool k with
      | none => exact ih s
      | some e =>
          dsimp only
          split
          · exact (stopTimer_shrinks k s).trans (ih _)
          · exact ih s

theorem timer_stop_all_none (fnc : φ) (keys : List ℕ) (s : State φ α) {k : ℕ} {e : Entry φ}
    (hk : k ∈ keys) (he : s.tpool k = some e) (hc : e.cb = fnc) :
    (timer_stop_all fnc keys s).tpool k = none := by
  -- an entry that is gone stays gone in the rest of the traversal
  have gone (keys : List ℕ) (s : State φ α) (h : s.tpool k = none) :
      (timer_stop_all fnc keys s).tpool k = none := by
    obtain ⟨a, -⟩ | ⟨a, -⟩ := (timer_stop_all_shrinks fnc keys s).entry k
    · rw [a, h]
    · exact a
  induction keys generalizing s with
  | nil => cases hk
  | cons j keys ih =>
      simp only [timer_stop_all]
      by_cases hjk : j = k
      · subst hjk
        simp only [he, hc, if_true]
        exact gone keys _ (by simp [forget])
      · have hk' : k ∈ keys := (List.mem_cons.mp hk).resolve_left (Ne.symm hjk)
        cases hj : s.tpool j with
        | none => exact ih s hk' he
        | some d =>
            dsimp only
            split
            · exact ih _ hk' (by simp [forget, rtosStop, Ne.symm hjk, he])
            · exact ih s hk' he

end

/-! ## Starts -/

/-- What a start can do after its stop: one timer enters under the next id. A failing
`rtos.timer_start` leaves the entry without a slot. -/
structure Starts (s t : State φ α) (fnc : φ) (arg : Args α) : Prop where
  uniquetid : t.uniquetid = s.uniquetid + 1
  entry : ∃ e, t.tpool (s.uniquetid + 1) = some e ∧ e.cb = fnc
  unstopped : t.stopped (s.uniquetid + 1) = false
  started : t.started (s.uniquetid + 1) = some (fnc, arg)
  other : ∀ k, k ≠ s.uniquetid + 1 → t.tpool k = s.tpool k ∧ t.para k = s.para k ∧
    t.loop k = s.loop k ∧ t.stopped k = s.stopped k ∧ t.started k = s.started k
  place : (t.failed = s.failed ∧ argsOf t (s.uniquetid + 1) = arg ∧
      ∀ k, k ∈ t.slots.ids ↔ k = s.uniquetid + 1 ∨ k ∈ s.slots.ids) ∨
    (t.failed = true ∧ t.slots = s.slots)
  msgs : t.msgs = s.msgs
  running : t.running = s.running
  ran : t.ran = s.ran

theorem Starts.slot {s t : State φ α} {fnc : φ} {arg : Args α} (h : Starts s t fnc arg) {k : ℕ}
    (hk : k ∈ t.slots.ids) : k = s.uniquetid + 1 ∨ k ∈ s.slots.ids := by
  obtain ⟨-, -, hs⟩ | ⟨-, hs⟩ := h.place
  · exact (hs k).mp hk
  · exact .inr (hs ▸ hk)

/-- While nothing has failed, the start had its slot and the arguments are stored. -/
theorem Starts.success {s t : State φ α} {fnc : φ} {arg : Args α} (h : Starts s t fnc arg)
    (hf : t.failed = false) : s.failed = false ∧ argsOf t (s.uniquetid + 1) = arg ∧
      ∀ k, k ∈ t.slots.ids ↔ k = s.uniquetid + 1 ∨ k ∈ s.slots.ids := by
  obtain ⟨a, b, c⟩ | ⟨a, -⟩ := h.place
  · exact ⟨a ▸ hf, b, c⟩
  · rw [a] at hf; cases hf

theorem Starts.inv {s t : State φ α} {fnc : φ} {arg : Args α} (h : Starts s t fnc arg)
    (hi : Inv s)
    (hn : s.failed = false → ∀ k e, s.tpool k = some e → e.cb = fnc →
      unpack (argsOf s k) ≠ unpack arg) : Inv t := by
  obtain ⟨e₀, he₀, hc₀⟩ := h.entry
  -- an entry is the new one or one of before
  have old {k : ℕ} (hk : k ≠ s.uniquetid + 1) := h.other k hk
  have args {k : ℕ} (hk : k ≠ s.uniquetid + 1) : argsOf t k = argsOf s k := by
    rw [argsOf, argsOf, (old hk).2.1]
  have dead {k : ℕ} (hk : t.tpool k = none) : k ≠ s.uniquetid + 1 := by
    rintro rfl; rw [he₀] at hk; cases hk
  have low {k : ℕ} (hk : k ≤ s.uniquetid) : k ≠ s.uniquetid + 1 := by omega
  constructor
  case fresh =>
    intro k hk
    rw [h.uniquetid] at hk
    rw [(old (by omega)).1]
    exact hi.fresh k (by omega)
  case para_dead =>
    intro k hk
    rw [(old (dead hk)).2.1]
    exact hi.para_dead k ((old (dead hk)).1 ▸ hk)
  case loop_dead =>
    intro k hk
    rw [(old (dead hk)).2.2.1]
    exact hi.loop_dead k ((old (dead hk)).1 ▸ hk)
  case slot_low =>
    intro k hk
    rw [h.uniquetid]
    obtain rfl | hk := h.slot hk
    · exact Nat.le_refl _
    · exact Nat.le_succ_of_le (hi.slot_low k hk)
  case msg_low =>
    intro k hk
    rw [h.uniquetid]
    exact Nat.le_succ_of_le (hi.msg_low k (h.msgs ▸ hk))
  case run_low =>
    intro k hk
    rw [h.uniquetid]
    exact Nat.le_succ_of_le (hi.run_low k (h.running ▸ hk))
  case ran_low =>
    intro r hr
    rw [h.uniquetid]
    exact Nat.le_succ_of_le (hi.ran_low r (h.ran ▸ hr))
  case msgs_nodup => exact h.msgs ▸ hi.msgs_nodup
  case slot_msg =>
    intro k hk hm
    rw [h.msgs] at hm
    obtain rfl | hk := h.slot hk
    · exact absurd (hi.msg_low _ hm) (by omega)
    · exact hi.slot_msg k hk hm
  case run_slot =>
    intro k hk hs
    rw [h.running] at hk
    obtain rfl | hs := h.slot hs
    · exact absurd (hi.run_low _ hk) (by omega)
    · exact hi.run_slot k hk hs
  case run_msg =>
    intro k hk
    rw [h.msgs]
    exact hi.run_msg k (h.running ▸ hk)
  case run_loop =>
    intro k hk hl
    rw [h.running] at hk
    have hk' := low (hi.run_low k hk)
    rw [(old hk').2.2.1]
    exact hi.run_loop k hk ((old hk').1 ▸ hl)
  case slot_kept =>
    intro k hk
    obtain rfl | hs := h.slot hk
    · exact .inl (by rw [he₀]; simp)
    · have hk' := low (hi.slot_low k hs)
      rw [(old hk').1, (old hk').2.2.2.1]
      exact hi.slot_kept k hs
  case msg_kept =>
    intro k hk
    rw [h.msgs] at hk
    have hk' := low (hi.msg_low k hk)
    rw [(old hk').1, (old hk').2.2.2.1]
    exact hi.msg_kept k hk
  case live_kept =>
    intro k hk
    by_cases hk' : k = s.uniquetid + 1
    · rw [hk']; exact h.unstopped
    · rw [(old hk').2.2.2.1]
      exact hi.live_kept k ((old hk').1 ▸ hk)
  case hand_free => nofun
  case live_place =>
    intro hf k hk
    obtain ⟨hf', -, hs⟩ := h.success hf
    by_cases hk' : k = s.uniquetid + 1
    · exact .inl ((hs k).mpr (.inl hk'))
    · rw [h.msgs, h.running, hs]
      obtain hp | hp := hi.live_place hf' k ((old hk').1 ▸ hk)
      · exact .inl (.inr hp)
      · exact .inr hp
  case live_started =>
    intro hf k e he
    obtain ⟨hf', ha, -⟩ := h.success hf
    by_cases hk' : k = s.uniquetid + 1
    · subst hk'
      rw [he₀] at he
      cases he
      rw [h.started, hc₀, ha]
    · rw [(old hk').2.2.2.2, args hk']
      exact hi.live_started hf' k e ((old hk').1 ▸ he)
  case unique =>
    intro hf j k d e hj hk hc ha
    obtain ⟨hf', hnew, -⟩ := h.success hf
    by_cases hj' : j = s.uniquetid + 1 <;> by_cases hk' : k = s.uniquetid + 1
    · rw [hj', hk']
    · subst hj'
      rw [he₀] at hj
      cases hj
      rw [hnew, args hk'] at ha
      exact absurd ha.symm (hn hf' k e ((old hk').1 ▸ hk) (hc.symm.trans hc₀))
    · subst hk'
      rw [he₀] at hk
      cases hk
      rw [hnew, args hj'] at ha
      exact absurd ha (hn hf' j d ((old hj').1 ▸ hj) (hc.trans hc₀))
    · rw [args hj', args hk'] at ha
      exact hi.unique hf' j k d e ((old hj').1 ▸ hj) ((old hk').1 ▸ hk) hc ha

/-- The id search ends at once: no id behind the counter is in use. -/
theorem freeTid_eq {s : State φ α} (hi : Inv s) (fuel : ℕ) :
    freeTid s.tpool fuel s.uniquetid = s.uniquetid + 1 := by
  cases fuel with
  | zero => rfl
  | succ fuel => simp [freeTid, hi.fresh (s.uniquetid + 1) (by omega)]

theorem plan_cb (fnc : φ) (ms : ℕ) : (plan fnc ms).1.cb = fnc := by
  unfold plan
  split <;> rfl

section
variable [DecidableEq φ] [DecidableEq α]

/-- Both forms of the stop at the beginning of `timer_start` are one. -/
theorem stop_before_start (fnc : φ) (arg : Args α) (keys : List ℕ) (s : State φ α) :
    (if arg.length = 0 then timer_stop fnc [] keys s else timer_stop fnc (unpack arg) keys s) =
      timer_stop fnc (unpack arg) keys s := by
  split
  · rename_i h
    rw [List.length_eq_zero_iff.mp h, unpack_nil]
  · rfl

theorem timer_start_loop (fnc : φ) (ms : ℕ) (arg : Args α) (keys : List ℕ) (s : State φ α) :
    (timer_start fnc ms arg keys s).1.loop = (timer_stop fnc (unpack arg) keys s).loop := by
  simp only [timer_start, stop_before_start]
  cases (enter fnc ms arg (timer_stop fnc (unpack arg) keys s)).slots.start _ _ with
  | none => rfl
  | some slots =>
      dsimp only
      split <;> rfl

theorem timer_start_starts {s : State φ α} (hi : Inv s) (fnc : φ) (ms : ℕ) (arg : Args α)
    (keys : List ℕ) :
    Starts (timer_stop fnc (unpack arg) keys s) (timer_start fnc ms arg keys s).1 fnc arg := by
  have hi' := (timer_stop_shrinks fnc (unpack arg) keys s).inv hi
  simp only [timer_start, stop_before_start, enter]
  generalize timer_stop fnc (unpack arg) keys s = s₀ at hi' ⊢
  rw [freeTid_eq hi']
  have hpara : s₀.para (s₀.uniquetid + 1) = none :=
    hi'.para_dead _ (hi'.fresh _ (Nat.lt_succ_self _))
  cases hs : s₀.slots.start (s₀.uniquetid + 1) (plan fnc ms).2 with
  | none =>
      constructor
      case entry => exact ⟨_, Function.update_self .., plan_cb fnc ms⟩
      case other => intro k hk; simp [hk]
      case place => exact .inr ⟨rfl, rfl⟩
      all_goals simp
  | some slots =>
      dsimp only
      split
      · constructor
        case entry => exact ⟨_, Function.update_self .., plan_cb fnc ms⟩
        case other => intro k hk; simp [hk]
        case place => exact .inl ⟨rfl, by simp [argsOf], fun k => Slots.mem_ids_start hs⟩
        all_goals simp
      · rename_i hl
        have harg : arg = [] := by simpa using hl
        constructor
        case entry => exact ⟨_, Function.update_self .., plan_cb fnc ms⟩
        case other => intro k hk; simp [hk]
        case place =>
          exact .inl ⟨rfl, by simp [argsOf, hpara, harg], fun k => Slots.mem_ids_start hs⟩
        all_goals simp

theorem timer_start_id {s : State φ α} (hi : Inv s) {fnc : φ} {ms : ℕ} {arg : Args α}
    {keys : List ℕ} {tid : ℕ} (h : (timer_start fnc ms arg keys s).2 = some tid) :
    tid = s.uniquetid + 1 := by
  have hst := timer_start_starts hi fnc ms arg keys
  have hu : (timer_start fnc ms arg keys s).1.uniquetid = s.uniquetid + 1 := by
    rw [hst.uniquetid, (timer_stop_shrinks fnc (unpack arg) keys s).uniquetid]
  rw [← hu]
  revert h
  simp only [timer_start]
  generalize enter fnc ms arg _ = s₁
  cases s₁.slots.start s₁.uniquetid (plan fnc ms).2 with
  | none => intro h; cases h
  | some slots =>
      dsimp only
      split <;> exact fun h => (Option.some.inj h).symm

theorem timer_loop_start_starts {s : State φ α} (hi : Inv s) (fnc : φ) (ms : ℕ) (arg : Args α)
    (keys : List ℕ) :
    Starts (timer_stop fnc (unpack arg) keys s) (timer_loop_start fnc ms arg keys s).1 fnc
      (unpack arg) := by
  have hst := timer_start_starts hi fnc ms (unpack arg) keys
  rw [unpack_unpack] at hst
  have hid (tid : ℕ) (h : (timer_start fnc ms (unpack arg) keys s).2 = some tid) :
      tid = s.uniquetid + 1 := timer_start_id hi h
  unfold timer_loop_start
  rcases hr : timer_start fnc ms (unpack arg) keys s with ⟨t, r⟩
  rw [hr] at hst hid
  cases r with
  | none => exact hst
  | some tid =>
      have htid : tid = (timer_stop fnc (unpack arg) keys s).uniquetid + 1 := by
        rw [(timer_stop_shrinks fnc (unpack arg) keys s).uniquetid]
        exact hid tid rfl
      exact { hst with
        other := fun k hk => by
          obtain ⟨a, b, c, d⟩ := hst.other k hk
          exact ⟨a, b, by rw [← c]; simp [htid, hk], d⟩ }

/-- A start keeps the invariant: its stop has removed the timer it replaces. -/
theorem starts_inv {s t : State φ α} (hi : Inv s) {fnc : φ} {arg a : Args α} {keys : List ℕ}
    (hk : keys.Perm (pairs s)) (ha : unpack a = unpack arg)
    (h : Starts (timer_stop fnc (unpack arg) keys s) t fnc a) : Inv t := by
  have hsh := timer_stop_shrinks fnc (unpack arg) keys s
  refine h.inv (hsh.inv hi) fun hf k e he hc hm => ?_
  have hn := timer_stop_none hi (hsh.failed ▸ hf) fnc (unpack arg) hk k
  rw [← Bool.not_eq_true, isTimer_iff] at hn
  exact hn ⟨e, he, hc, by rw [hm, ha, unpack_unpack]⟩

end

/-! ## Expiry messages -/

theorem rtosStart_cases (tid ms : ℕ) (s : State φ α) :
    (∃ slots : Slots, rtosStart tid ms s = { s with slots := slots } ∧
      ∀ k, k ∈ slots.ids ↔ k = tid ∨ k ∈ s.slots.ids) ∨
    rtosStart tid ms s = { s with failed := true } := by
  unfold rtosStart
  cases hs : s.slots.start tid ms with
  | none => exact .inr rfl
  | some slots => exact .inl ⟨slots, rfl, fun k => Slots.mem_ids_start hs⟩

/-- The id in hand gets an RTOS timer. -/
theorem rtosStart_inv {s : State φ α} {tid : ℕ} (hi : InvAt (some tid) s)
    (hl : s.tpool tid ≠ none) (ms : ℕ) : Inv (rtosStart tid ms s) := by
  obtain ⟨hlow, -, hmsg, hrun⟩ := hi.hand_free tid rfl
  obtain ⟨slots, he, hs⟩ | he := rtosStart_cases tid ms s
  · rw [he]
    exact { hi with
      slot_low := fun k hk => by
        obtain rfl | hk := (hs k).mp hk
        · exact hlow
        · exact hi.slot_low k hk
      slot_msg := fun k hk => by
        obtain rfl | hk := (hs k).mp hk
        · exact hmsg
        · exact hi.slot_msg k hk
      run_slot := fun k hk hm => by
        obtain rfl | hm := (hs k).mp hm
        · exact hrun hk
        · exact hi.run_slot k hk hm
      slot_kept := fun k hk => by
        obtain rfl | hk := (hs k).mp hk
        · exact .inl hl
        · exact hi.slot_kept k hk
      hand_free := nofun
      live_place := fun hf k hk => by
        obtain hp | hp | hp | hp := hi.live_place hf k hk
        · exact .inl ((hs k).mpr (.inr hp))
        · exact .inr (.inl hp)
        · exact .inr (.inr (.inl hp))
        · exact .inl ((hs k).mpr (.inl (Option.some.inj hp).symm)) }
  · rw [he]
    exact { hi with
      hand_free := nofun
      live_place := nofun
      live_started := nofun
      unique := nofun }

/-- The id in hand is given up when its timer is gone. -/
theorem InvAt.drop {s : State φ α} {tid : ℕ} (hi : InvAt (some tid) s)
    (hd : s.tpool tid = none) : Inv s :=
  { hi with
    hand_free := nofun
    live_place := fun hf k hk => by
      obtain hp | hp | hp | hp := hi.live_place hf k hk
      · exact .inl hp
      · exact .inr (.inl hp)
      · exact .inr (.inr (.inl hp))
      · rw [← Option.some.inj hp] at hk
        exact absurd hd hk }

/-- Another record with the same callback, as the count of a long timer's pieces. -/
theorem InvAt.touch {s : State φ α} {hand : Option ℕ} (hi : InvAt hand s) {tid : ℕ}
    {d e : Entry φ} (hd : s.tpool tid = some d) (hc : e.cb = d.cb) :
    InvAt hand { s with tpool := Function.update s.tpool tid (some e) } := by
  have hnone (k : ℕ) : Function.update s.tpool tid (some e) k = none ↔ s.tpool k = none := by
    by_cases hk : k = tid
    · subst hk; simp [hd]
    · simp [hk]
  have hcb {k : ℕ} {x : Entry φ} (h : Function.update s.tpool tid (some e) k = some x) :
      ∃ y, s.tpool k = some y ∧ y.cb = x.cb := by
    by_cases hk : k = tid
    · subst hk
      simp only [Function.update_self, Option.some.injEq] at h
      exact ⟨d, hd, by rw [← h, hc]⟩
    · exact ⟨x, by simpa [hk] using h, rfl⟩
  exact { hi with
    fresh := fun k hk => (hnone k).mpr (hi.fresh k hk)
    para_dead := fun k hk => hi.para_dead k ((hnone k).mp hk)
    loop_dead := fun k hk => hi.loop_dead k ((hnone k).mp hk)
    run_loop := fun k hk hl => hi.run_loop k hk fun h => hl ((hnone k).mpr h)
    slot_kept := fun k hk => (hi.slot_kept k hk).imp_left fun h hn => h ((hnone k).mp hn)
    msg_kept := fun k hk => (hi.msg_kept k hk).imp_left fun h hn => h ((hnone k).mp hn)
    live_kept := fun k hl => hi.live_kept k fun h => hl ((hnone k).mpr h)
    live_place := fun hf k hl => hi.live_place hf k fun h => hl ((hnone k).mpr h)
    live_started := fun hf k x hx => by
      obtain ⟨y, hy, hyc⟩ := hcb hx
      rw [← hyc]
      exact hi.live_started hf k y hy
    unique := fun hf j k x x' hx hx' hxc => by
      obtain ⟨y, hy, hyc⟩ := hcb hx
      obtain ⟨y', hy', hyc'⟩ := hcb hx'
      exact hi.unique hf j k y y' hy hy' (by rw [hyc, hyc', hxc]) }

/-- The id in hand runs its callback; a one-shot timer is gone by then. -/
theorem fire_inv {s : State φ α} {tid : ℕ} (hi : InvAt (some tid) s)
    (hrun : s.running = none) (cb : φ) : Inv (fire tid cb s) := by
  obtain ⟨hlow, hslot, hmsg, -⟩ := hi.hand_free tid rfl
  have hrun_eq {k : ℕ} (h : some tid = some k) : k = tid := (Option.some.inj h).symm
  have hran : ∀ r ∈ s.ran ++ [(tid, cb, ((s.para tid).map unpack).getD [])],
      r.1 ≤ s.uniquetid := by
    intro r hr
    obtain hr | hr := List.mem_append.mp hr
    · exact hi.ran_low r hr
    · rw [List.mem_singleton.mp hr]; exact hlow
  by_cases hloop : s.loop tid = none
  · have hu (k : ℕ) (hk : k ≠ tid) : Function.update s.tpool tid none k = s.tpool k := by
      simp [hk]
    have hsub {k : ℕ} {x : Entry φ} (h : Function.update s.tpool tid none k = some x) :
        k ≠ tid ∧ s.tpool k = some x := by
      by_cases hk : k = tid
      · subst hk; simp at h
      · exact ⟨hk, by rwa [hu k hk] at h⟩
    have hlive {k : ℕ} (h : Function.update s.tpool tid none k ≠ none) :
        k ≠ tid ∧ s.tpool k ≠ none := by
      obtain ⟨x, hx⟩ := Option.ne_none_iff_exists'.mp h
      exact ⟨(hsub hx).1, by rw [(hsub hx).2]; simp⟩
    have hpara (k : ℕ) (hk : k ≠ tid) : Function.update s.para tid none k = s.para k := by
      simp [hk]
    simp only [fire, hloop, Option.isNone_none, if_true]
    exact { hi with
      fresh := fun k hk =>
        (hu k fun h => absurd (h ▸ hlow) (Nat.not_le.mpr hk)).trans (hi.fresh k hk)
      para_dead := fun k hk => by
        by_cases hkt : k = tid
        · simp [hkt]
        · exact (hpara k hkt).trans (hi.para_dead k ((hu k hkt).symm.trans hk))
      loop_dead := fun k hk => by
        by_cases hkt : k = tid
        · exact hkt ▸ hloop
        · exact hi.loop_dead k ((hu k hkt).symm.trans hk)
      run_low := fun k hk => hrun_eq hk ▸ hlow
      ran_low := hran
      run_slot := fun k hk => hrun_eq hk ▸ hslot
      run_msg := fun k hk => hrun_eq hk ▸ hmsg
      run_loop := fun k hk hl => absurd (hrun_eq hk) (hlive hl).1
      slot_kept := fun k hk => by
        have hkt : k ≠ tid := fun h => hslot (h ▸ hk)
        exact (hi.slot_kept k hk).imp_left fun h hn => h ((hu k hkt).symm.trans hn)
      msg_kept := fun k hk => by
        have hkt : k ≠ tid := fun h => hmsg (h ▸ hk)
        exact (hi.msg_kept k hk).imp_left fun h hn => h ((hu k hkt).symm.trans hn)
      live_kept := fun k hk => hi.live_kept k (hlive hk).2
      hand_free := nofun
      live_place := fun hf k hk => by
        obtain hp | hp | hp | hp := hi.live_place hf k (hlive hk).2
        · exact .inl hp
        · exact .inr (.inl hp)
        · rw [hrun] at hp; cases hp
        · exact absurd (hrun_eq hp) (hlive hk).1
      live_started := fun hf k x hx => by
        refine (hi.live_started hf k x (hsub hx).2).trans ?_
        simp [argsOf, (hsub hx).1]
      unique := fun hf j k x y hx hy hc ha => by
        refine hi.unique hf j k x y (hsub hx).2 (hsub hy).2 hc ?_
        simpa [argsOf, (hsub hx).1, (hsub hy).1] using ha }
  · have hsome : (s.loop tid).isNone = false := by
      simpa [Option.isSome_iff_ne_none] using hloop
    simp only [fire, hsome, Bool.false_eq_true, if_false]
    exact { hi with
      run_low := fun k hk => hrun_eq hk ▸ hlow
      ran_low := hran
      run_slot := fun k hk => hrun_eq hk ▸ hslot
      run_msg := fun k hk => hrun_eq hk ▸ hmsg
      run_loop := fun k hk _ => hrun_eq hk ▸ hloop
      hand_free := nofun
      live_place := fun hf k hk => by
        obtain hp | hp | hp | hp := hi.live_place hf k hk
        · exact .inl hp
        · exact .inr (.inl hp)
        · rw [hrun] at hp; cases hp
        · exact .inr (.inr (.inl hp)) }

/-- `timerfnc` ignores the message of a timer that is gone, starts the next piece
of a long timer, or runs the callback. -/
theorem timerfnc_cases (tid : ℕ) (s : State φ α) :
    (s.tpool tid = none ∧ timerfnc tid s = s) ∨
    ∃ d e, s.tpool tid = some d ∧ e.cb = d.cb ∧
      ((∃ ms, timerfnc tid s =
          rtosStart tid ms { s with tpool := Function.update s.tpool tid (some e) }) ∨
        timerfnc tid s =
          fire tid d.cb { s with tpool := Function.update s.tpool tid (some e) }) := by
  unfold timerfnc
  cases hd : s.tpool tid with
  | none => exact .inl ⟨rfl, rfl⟩
  | some d =>
      refine .inr ⟨d, ?_⟩
      cases d with
      | fn cb =>
          have hs : Function.update s.tpool tid (some (.fn cb)) = s.tpool := by
            rw [← hd, Function.update_eq_self]
          exact ⟨.fn cb, rfl, rfl, .inr (by rw [hs]; rfl)⟩
      | split cb step total times =>
          refine ⟨.split cb step total (times + 1), rfl, rfl, ?_⟩
          dsimp only
          split
          · exact .inl ⟨step, rfl⟩
          · exact .inr rfl

/-- Taking an expiry message off the queue. -/
theorem Inv.take {s : State φ α} (hi : Inv s) {tid : ℕ} (hm : tid ∈ s.msgs)
    (hrun : s.running = none) : InvAt (some tid) { s with msgs := s.msgs.erase tid } :=
  { hi with
    msg_low := fun k hk => hi.msg_low k (List.mem_of_mem_erase hk)
    msgs_nodup := hi.msgs_nodup.erase tid
    slot_msg := fun k hk h => hi.slot_msg k hk (List.mem_of_mem_erase h)
    run_msg := fun k hk h => hi.run_msg k hk (List.mem_of_mem_erase h)
    msg_kept := fun k hk => hi.msg_kept k (List.mem_of_mem_erase hk)
    hand_free := fun k hk => by
      obtain rfl := Option.some.inj hk
      exact ⟨hi.msg_low tid hm, fun h => hi.slot_msg tid h hm, hi.msgs_nodup.not_mem_erase,
        by simp [hrun]⟩
    live_place := fun hf k hk => by
      obtain hp | hp | hp | hp := hi.live_place hf k hk
      · exact .inl hp
      · by_cases hkt : k = tid
        · exact .inr (.inr (.inr (by rw [hkt])))
        · exact .inr (.inl ((List.mem_erase_of_ne hkt).mpr hp))
      · exact .inr (.inr (.inl hp))
      · cases hp }

theorem deliver_inv {s : State φ α} (hi : Inv s) {tid : ℕ} (hm : tid ∈ s.msgs)
    (hrun : s.running = none) : Inv (timerfnc tid { s with msgs := s.msgs.erase tid }) := by
  have ht := hi.take hm hrun
  obtain ⟨hd, he⟩ | ⟨d, e, hd, hc, ⟨ms, he⟩ | he⟩ :=
    timerfnc_cases tid { s with msgs := s.msgs.erase tid }
  · rw [he]; exact ht.drop hd
  · rw [he]; exact rtosStart_inv (ht.touch hd hc) (by simp) ms
  · rw [he]; exact fire_inv (ht.touch hd hc) hrun d.cb

theorem resume_cases (tid : ℕ) (s : State φ α) :
    (s.loop tid = none ∧ resume tid s = { s with running := none }) ∨
    ∃ ms, s.loop tid = some ms ∧ resume tid s = rtosStart tid ms { s with running := none } := by
  unfold resume
  cases hl : s.loop tid with
  | none => exact .inl ⟨rfl, by simp only [hl]⟩
  | some ms => exact .inr ⟨ms, rfl, by simp only [hl]⟩

theorem resume_inv {s : State φ α} (hi : Inv s) {tid : ℕ} (hrun : s.running = some tid) :
    Inv (resume tid s) := by
  have ht : InvAt (some tid) { s with running := none } :=
    { hi with
      run_low := nofun
      run_slot := nofun
      run_msg := nofun
      run_loop := nofun
      hand_free := fun k hk => by
        obtain rfl := Option.some.inj hk
        exact ⟨hi.run_low tid hrun, hi.run_slot tid hrun, hi.run_msg tid hrun, nofun⟩
      live_place := fun hf k hk => by
        obtain hp | hp | hp | hp := hi.live_place hf k hk
        · exact .inl hp
        · exact .inr (.inl hp)
        · rw [hrun] at hp
          exact .inr (.inr (.inr hp))
        · cases hp }
  obtain ⟨hl, he⟩ | ⟨ms, hl, he⟩ := resume_cases tid s
  · rw [he]
    exact ht.drop (by_contra fun hn => hi.run_loop tid hrun hn hl)
  · rw [he]
    exact rtosStart_inv ht (fun hn => by rw [hi.loop_dead tid hn] at hl; cases hl) ms

/-- An expiry moves a running timer's id from its slot to the message queue. -/
theorem expire_inv {s : State φ α} (hi : Inv s) {tid : ℕ} (hs : tid ∈ s.slots.ids) :
    Inv { s with slots := s.slots.stop tid, msgs := s.msgs ++ [tid] } := by
  have hmem {k : ℕ} (h : k ∈ s.msgs ++ [tid]) : k ∈ s.msgs ∨ k = tid := by simpa using h
  exact { hi with
    slot_low := fun k hk => hi.slot_low k (Slots.mem_ids_stop.mp hk).1
    msg_low := fun k hk => by
      obtain hk | rfl := hmem hk
      · exact hi.msg_low k hk
      · exact hi.slot_low k hs
    msgs_nodup := by
      refine List.nodup_append.mpr ⟨hi.msgs_nodup, by simp, ?_⟩
      intro a ha b hb hab
      rw [List.mem_singleton.mp hb] at hab
      exact hi.slot_msg tid hs (hab ▸ ha)
    slot_msg := fun k hk h => by
      obtain ⟨hk, hne⟩ := Slots.mem_ids_stop.mp hk
      obtain h | h := hmem h
      · exact hi.slot_msg k hk h
      · exact hne h
    run_slot := fun k hk h => hi.run_slot k hk (Slots.mem_ids_stop.mp h).1
    run_msg := fun k hk h => by
      obtain h | rfl := hmem h
      · exact hi.run_msg k hk h
      · exact hi.run_slot k hk hs
    slot_kept := fun k hk => hi.slot_kept k (Slots.mem_ids_stop.mp hk).1
    msg_kept := fun k hk => by
      obtain hk | rfl := hmem hk
      · exact hi.msg_kept k hk
      · exact hi.slot_kept k hs
    hand_free := nofun
    live_place := fun hf k hk => by
      by_cases hkt : k = tid
      · exact .inr (.inl (by simp [hkt]))
      · obtain hp | hp | hp := hi.live_place hf k hk
        · exact .inl (Slots.mem_ids_stop.mpr ⟨hp, hkt⟩)
        · exact .inr (.inl (List.mem_append_left _ hp))
        · exact .inr (.inr hp) }

theorem step_inv [DecidableEq φ] [DecidableEq α] (s : State φ α) (a : Act φ α) (t : State φ α)
    (hi : Inv s) (h : step s a = some t) : Inv t := by
  cases a with
  | start fnc ms arg keys =>
      obtain ⟨⟨-, hk⟩, ⟨⟩⟩ := Option.ite_none_right_eq_some.mp h
      exact starts_inv hi hk rfl (timer_start_starts hi fnc ms arg keys)
  | loopStart fnc ms arg keys =>
      obtain ⟨⟨-, hk⟩, ⟨⟩⟩ := Option.ite_none_right_eq_some.mp h
      exact starts_inv hi hk (unpack_unpack arg) (timer_loop_start_starts hi fnc ms arg keys)
  | stopId tid =>
      cases h
      exact (forget_shrinks tid s).inv hi
  | stop fnc arg keys =>
      obtain ⟨-, ⟨⟩⟩ := Option.ite_none_right_eq_some.mp h
      exact (timer_stop_shrinks fnc arg keys s).inv hi
  | stopAll fnc keys =>
      obtain ⟨-, ⟨⟩⟩ := Option.ite_none_right_eq_some.mp h
      exact (timer_stop_all_shrinks fnc keys s).inv hi
  | expire tid =>
      obtain ⟨hs, ⟨⟩⟩ := Option.ite_none_right_eq_some.mp h
      exact expire_inv hi hs
  | deliver tid =>
      obtain ⟨⟨hm, hrun⟩, ⟨⟩⟩ := Option.ite_none_right_eq_some.mp h
      exact deliver_inv hi hm hrun
  | ret =>
      obtain ⟨tid, hrun, rfl⟩ := Option.map_eq_some_iff.mp h
      exact resume_inv hi hrun

end LuatAir200.Timer
