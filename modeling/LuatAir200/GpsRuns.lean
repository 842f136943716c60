import LuatAir200.GpsTimers

/-!
# Runs of the GPS applications

Every step that meets the condition keeps the invariant, whether it is taken between two ticks
or in a callback; so the applications are kept along every run of such steps.
-/
namespace LuatAir200.Gps
open Lua Machine

variable {lo k : ℕ} {cur : Option ℕ} {st : State} {app : App}

theorem sound_of_none (hps : st.pass = none) (h : Inv 0 0 none st) : Sound st := by
  unfold Sound
  rw [hps]
  exact h

theorem Sound.idle (h : Sound st) (hidle : st.idle = true) : Inv 0 0 none st ∧ st.pass = none := by
  simp only [State.idle, Bool.and_eq_true, Option.isNone_iff_eq_none] at hidle
  unfold Sound at h
  rw [hidle.1] at h
  exact ⟨h, hidle.1⟩

/-- Both parts of the invariant, for a step that leaves the loop where it is. -/
theorem Sound.map {st' : State} (h : Sound st) (hpass : st'.pass = st.pass)
    (hinv : ∀ lo k cur, Inv lo k cur st → Inv lo k cur st')
    (hrun : ∀ ps cur, Inv (ps.i + 1) ps.k cur st → Running ps st → Running ps st') : Sound st' := by
  unfold Sound at h ⊢
  rw [hpass]
  split at h
  · exact hinv _ _ _ h
  · exact ⟨hinv _ _ _ h.1, hrun _ _ h.1 h.2⟩

theorem Sound.congr {st' : State} (h : Sound st) (ht : st'.tlist = st.tlist)
    (hp : st'.paras = st.paras) (hl : st'.log = st.log) (hpass : st'.pass = st.pass) :
    Sound st' := by
  apply h.map hpass
  · intro lo k cur hinv
    exact hinv.congr ht hp hl
  · intro ps _ _ hrun
    exact hrun.congr ht hp hl

/-! ## Calls by an application -/

/-- A callback from `open`, for an application without a timer. -/
theorem Inv.answered (h : Inv lo k cur st) (hm : app.1 ≠ .TIMER) :
    Inv lo k cur (st.record (.called app)) where
  bound := h.bound
  unique := h.unique
  apart := h.apart
  active a x hx := by
    obtain ⟨o, ho, h1, ht⟩ := h.active a x hx
    show ∃ o ∈ status (st.app x) (.called app :: st.log), _
    by_cases he : app = st.app x
    · refine ⟨{ o with called := true }, ?_, h1, fun hT => absurd ?_ hm⟩
      · rw [status, if_pos he, Option.mem_def.mp ho]
        rfl
      · rw [he]
        exact hT
    · refine ⟨o, ?_, h1, ht⟩
      rw [status, if_neg he]
      exact ho
  inactive a o ho hno := by
    have ho' : o ∈ status a (.called app :: st.log) := ho
    by_cases he : app = a
    · rw [status, if_pos he] at ho'
      obtain ⟨p, hp, rfl⟩ := Option.map_eq_some_iff.mp ho'
      exact h.inactive a p hp hno
    · rw [status, if_neg he] at ho'
      exact h.inactive a o ho' hno
  calls cause := by
    refine ⟨?_, h.calls cause⟩
    intro he
    exact absurd (congrArg Prod.fst he) hm

theorem Running.answered {ps : Pass} (hr : Running ps st) (app : App) :
    Running ps (st.record (.called app)) := by
  obtain hdef | ⟨x, hx, hmode, hrun⟩ := hr
  · exact .inl hdef
  refine .inr ⟨x, hx, hmode, hrun.imp ?_ id⟩
  rintro ⟨hf, o, ho, h1, hover⟩
  refine ⟨hf, ?_⟩
  show ∃ o ∈ status (st.app x) (.called app :: st.log), _
  by_cases he : app = st.app x
  · refine ⟨{ o with called := true }, ?_, h1, hover⟩
    rw [status, if_pos he, Option.mem_def.mp ho]
    rfl
  · refine ⟨o, ?_, h1, hover⟩
    rw [status, if_neg he]
    exact ho

theorem Sound.openApp {mode : Mode} {p : ℕ} (h : Sound st) (hc : Careful st (.openApp mode p)) :
    Sound (Gps.openApp mode p st) := by
  unfold Gps.openApp
  split
  case isFalse hfix =>
    apply h.finishOpen
    apply hc
    intro hf
    left
    simpa [hf] using hfix
  case isTrue hfix =>
    have hm : mode ≠ .TIMER := by
      simp only [Bool.and_eq_true, decide_eq_true_eq] at hfix
      exact hfix.2
    split
    case isTrue =>
      have hcalled : Sound (st.record (.called (mode, (st.paras p).cause))) := by
        refine h.map rfl ?_ ?_
        · intro lo k cur hinv
          exact hinv.answered hm
        · intro ps _ _ hrun
          exact hrun.answered _
      exact hcalled.congr rfl rfl rfl rfl
    case isFalse hcb =>
      split
      · exact h
      · apply h.finishOpen
        apply hc
        intro _
        right
        refine ⟨?_, by simpa using hcb⟩
        cases mode <;> simp_all

/-- The callback may close its own application. -/
theorem Running.user_close {ps : Pass} (h : Inv lo k cur st) (hr : Running ps st) (app : App) :
    Running ps ((Gps.close app st).record (.closed app)) := by
  obtain hdef | ⟨x, hx, hmode, hrun⟩ := hr
  · exact .inl hdef
  have hget : ((Gps.close app st).record (.closed app)).tlist[ps.i]? =
      some (if x.flag && st.app x = app then { x with flag := false } else x) := by
    show (Gps.close app st).tlist[ps.i]? = _
    rw [(close_fields app st).1, delitem_tlist h.unique, List.getElem?_map, hx, Option.map_some]
  have happ : ∀ y, (Gps.close app st).app y = st.app y := app_close app st
  have hlog := (close_fields app st).2.2.1
  obtain ⟨hf, o, ho, h1, hover⟩ | ⟨hf, hno⟩ := hrun
  · by_cases he : st.app x = app
    · refine .inr ⟨{ x with flag := false }, ?_, hmode, .inr ⟨rfl, fun b y hy => ?_⟩⟩
      · simpa [hf, he] using hget
      · have hne := ((has_close h app b y).mp hy).2
        show (Gps.close app st).app y ≠ (Gps.close app st).app x
        rw [happ, happ, he]
        exact hne
    · refine .inr ⟨x, by simpa [he] using hget, hmode, .inl ⟨hf, o, ?_, h1, hover⟩⟩
      show o ∈ status ((Gps.close app st).app x) (.closed app :: (Gps.close app st).log)
      rw [happ, hlog, status, if_neg (Ne.symm he)]
      exact ho
  · refine .inr ⟨x, by simpa [hf] using hget, hmode, .inr ⟨hf, fun b y hy => ?_⟩⟩
    show (Gps.close app st).app y ≠ (Gps.close app st).app x
    rw [happ, happ]
    exact hno b y ((has_close h app b y).mp hy).1

theorem Sound.close (h : Sound st) (app : App) :
    Sound ((Gps.close app st).record (.closed app)) := by
  refine h.map (close_fields app st).2.2.2.1 ?_ ?_
  · intro lo k cur hinv
    exact hinv.user_close app
  · intro ps cur hinv hrun
    exact hrun.user_close hinv app

/-! ## Between two ticks -/

/-- The time of an application does not depend on what else is in its table. -/
theorem Timing.fields {late : Prop} {o : On} {q q' : Para} (h : Timing late o q)
    (hr : q'.remain = q.remain) (hd : q'.delay = q.delay) : Timing late o q' := by
  unfold Timing at h ⊢
  rw [hr, hd]
  exact h

theorem Sound.setVal (h : Sound st) (p : ℕ) (val : Option ℤ) :
    Sound (st.setPara p fun q => { q with val := val }) := by
  have happ : ∀ x, (st.setPara p fun q => { q with val := val }).app x = st.app x :=
    app_setPara (f := fun q => { q with val := val }) fun _ => rfl
  refine h.map rfl ?_ ?_
  · intro lo k cur hinv
    refine hinv.setPara (f := fun q => { q with val := val }) (fun _ => rfl) ?_
    intro a y _ _ _ late o q ht
    exact ht.fields rfl rfl
  · intro ps _ _ hrun
    exact hrun.paras rfl rfl (fun _ x _ => happ x) fun x _ => happ x

/-- What it means that a table is not in use. -/
theorem uses_eq_false {p : ℕ} (h : st.uses p = false) : (∀ a x, st.Has a x → x.para ≠ p) ∧
    ∀ ps ∈ st.pass, ∀ x, st.tlist[ps.i]? = some x → x.para ≠ p := by
  simp only [State.uses, Bool.or_eq_false_iff] at h
  obtain ⟨⟨htl, -⟩, hpass⟩ := h
  constructor
  · intro a x hx hp
    have hn := List.any_eq_false.mp htl x (List.mem_of_getElem? hx.1)
    simp [hx.2, hp] at hn
  · intro ps hps x hx hp
    rw [Option.mem_def.mp hps] at hpass
    simp [hx, hp] at hpass

theorem Sound.fill (h : Sound st) {p : ℕ} (hp : st.uses p = false) (cause : LuaString)
    (val : Option ℤ) (cb : Bool) :
    Sound (st.setPara p fun q => { q with cause := cause, val := val, cb := cb }) := by
  obtain ⟨hhas, hpass⟩ := uses_eq_false hp
  have happ : ∀ x : Item, x.para ≠ p →
      (st.setPara p fun q => { q with cause := cause, val := val, cb := cb }).app x = st.app x := by
    intro x hx
    simp [State.app, State.setPara, hx]
  have hsame : (st.setPara p fun q => { q with cause := cause, val := val, cb := cb }).pass =
    st.pass := rfl
  unfold Sound at h ⊢
  rw [hsame]
  have hinv : ∀ lo k cur, Inv lo k cur st → Inv lo k cur
      (st.setPara p fun q => { q with cause := cause, val := val, cb := cb }) := by
    intro lo k cur hinv
    refine hinv.paras rfl rfl ?_ ?_
    · intro a x hx
      exact happ x (hhas a x hx)
    · intro a x hx _ late o ht
      simpa [State.setPara, hhas a x hx] using ht
  cases hps : st.pass with
  | none =>
      rw [hps] at h
      exact hinv _ _ _ h
  | some ps =>
      rw [hps] at h
      refine ⟨hinv _ _ _ h.1, h.2.paras rfl rfl (fun a x hx => happ x (hhas a x hx)) ?_⟩
      intro x hx
      exact happ x (hpass ps hps x hx)

theorem On.Over.tick {o : On} (h : o.Over) : On.Over { o with ticks := o.ticks + 1 } := by
  obtain ⟨x, hx, hle⟩ := h
  refine ⟨x, hx, ?_⟩
  push_cast
  omega

theorem Timing.tick {o : On} {q : Para} (h : Timing False o q) {late : Prop} :
    Timing late { o with ticks := o.ticks + 1 } q := by
  unfold Timing at h ⊢
  split
  case h_1 hv =>
    have hv' : o.val = none := hv
    rw [hv'] at h
    exact h
  case h_2 x hv =>
    have hv' : o.val = some x := hv
    rw [hv'] at h
    obtain ⟨r, hr, hle, -, hd⟩ := h
    refine ⟨r, hr, ?_, fun _ => ?_, hd.imp_right fun hx => ?_⟩
    · push_cast
      omega
    · push_cast
      omega
    · push_cast
      omega

/-- A tick begins: every application has had one tick more, and no entry is counted yet. -/
theorem Inv.tick (h : Inv 0 0 none st) : Inv 0 st.tlist.length none (st.record .tick) where
  bound := by
    show 0 + st.tlist.length ≤ st.tlist.length
    omega
  unique := h.unique
  apart := h.apart
  active a x hx := by
    obtain ⟨o, ho, -, hm⟩ := h.active a x hx
    refine ⟨{ o with ticks := o.ticks + 1 }, ?_, fun _ _ => Nat.le_add_left 1 _, fun hT => ⟨?_, (hm hT).2⟩⟩
    · show _ ∈ status (st.app x) (.tick :: st.log)
      rw [status, Option.mem_def.mp ho]
      rfl
    · exact ((hm hT).1.mono fun hf => hf.elim).tick
  inactive app o ho hno := by
    have ho' : o ∈ status app (.tick :: st.log) := ho
    rw [status] at ho'
    obtain ⟨p, hp, rfl⟩ := Option.map_eq_some_iff.mp ho'
    refine ⟨Nat.le_add_left 1 _, fun hT => ?_⟩
    exact ((h.inactive app p hp hno).2 hT).tick
  calls := h.calls

theorem Sound.timerfunc (h : Sound st) (hidle : st.idle = true) : Sound (Gps.timerfunc st) := by
  apply scan_sound
  exact (h.idle hidle).1.tick.congr rfl rfl rfl

/-- A location gives a delay to the tables of the applications without a timer. -/
theorem Inv.located (h : Inv lo k cur st) (l : List Item) (hl : ∀ x ∈ l, x ∈ st.tlist) :
    Inv lo k cur (l.foldl (fun st it =>
      if it.flag && it.mode ≠ .TIMER then st.setPara it.para fun q => { q with delay := some 1 }
      else st) st) := by
  induction l generalizing st with
  | nil => exact h
  | cons x l ih =>
      rw [List.foldl_cons]
      have hl' := fun y hy => hl y (List.mem_cons_of_mem x hy)
      split
      case isFalse => exact ih h hl'
      case isTrue hx =>
        simp only [Bool.and_eq_true, decide_eq_true_eq] at hx
        refine ih ?_ hl'
        refine h.setPara (f := fun q => { q with delay := some 1 }) (fun _ => rfl) ?_
        intro a y hy hT hp
        obtain ⟨b, hb⟩ := List.getElem?_of_mem (hl x List.mem_cons_self)
        have hab := h.apart a b y x hy ⟨hb, hx.1⟩ hT hp
        subst hab
        obtain rfl : x = y := Option.some.inj (hb.symm.trans hy.1)
        exact absurd hT hx.2

theorem foldl_located_pass (l : List Item) (st : State) : (l.foldl (fun st it =>
    if it.flag && it.mode ≠ .TIMER then st.setPara it.para fun q => { q with delay := some 1 }
    else st) st).pass = st.pass := by
  induction l generalizing st with
  | nil => rfl
  | cons x l ih =>
      rw [List.foldl_cons, ih]
      split <;> rfl

theorem Sound.gpsstatind (h : Sound st) (hidle : st.idle = true) : Sound (Gps.gpsstatind st) := by
  obtain ⟨hinv, hpass⟩ := h.idle hidle
  apply sound_of_none
  · exact (foldl_located_pass st.tlist st).trans hpass
  · exact (hinv.located st.tlist fun _ hx => hx).congr rfl rfl rfl

/-! ## Steps and runs -/

/-- The callback returns, and the entry is closed or goes on. -/
theorem Sound.after {ps : Pass} (h : Inv (ps.i + 1) ps.k (curSlot ps) st) (hr : Running ps st) :
    Inv (ps.i + 1) ps.k none (afterCallback ps.i ps.md ps.fixed st) := by
  by_cases hdef : ps.fixed = true ∧ ps.md = .DEFAULT
  · rw [curSlot, if_pos hdef] at h
    unfold afterCallback
    split
    · exact h
    · rw [if_pos (by simpa using hdef)]
      exact h.noDelay _
  · rw [curSlot, if_neg hdef] at h
    obtain hd | ⟨x, hx, hmode, hrun⟩ := hr
    · exact absurd hd hdef
    have hclose : afterCallback ps.i ps.md ps.fixed st = Gps.close (st.app x) st := by
      simp only [afterCallback, hx]
      rw [if_neg (by simpa using hdef), ← hmode]
      rfl
    rw [hclose]
    obtain ⟨hf, o, ho, h1, hover⟩ | ⟨hf, hno⟩ := hrun
    · apply h.expire ⟨hx, hf⟩ ho h1 hover
      intro b hb
      exact (Option.some.inj hb).symm
    · apply h.close_none hno
      rintro a y hy rfl'
      obtain rfl := Option.some.inj rfl'
      rw [Option.some.inj (hx.symm.trans hy.1)] at hf
      exact absurd hy.2 (by simp [hf])

theorem Sound.ret {st' : State} (h : Sound st) (hc : Careful st .ret)
    (hs : step st .ret = some st') : Sound st' := by
  simp only [step] at hs
  split at hs
  case h_1 mode p opens hopens =>
    obtain rfl := Option.some.inj hs
    have h' : Sound { st with opens := opens } := h.congr rfl rfl rfl rfl
    split
    · exact h'
    · rename_i hm
      exact h'.finishOpen (hc (mode, p) (by rw [hopens]; rfl) hm)
  case h_2 =>
    obtain ⟨ps, hps, rfl⟩ := Option.map_eq_some_iff.mp hs
    unfold Sound at h
    rw [hps] at h
    exact scan_sound ps.k (Sound.after h.1 h.2)

theorem Sound.step {st' : State} {act : Act} (h : Sound st) (hc : Careful st act)
    (hs : Gps.step st act = some st') : Sound st' := by
  cases act with
  | openApp mode p =>
      obtain rfl := Option.some.inj hs
      exact h.openApp hc
  | close mode p =>
      obtain rfl := Option.some.inj hs
      exact h.close _
  | ret => exact h.ret hc hs
  | tick =>
      obtain ⟨hi, hs⟩ := Option.ite_none_right_eq_some.mp hs
      obtain rfl := Option.some.inj hs
      simp only [Bool.and_eq_true] at hi
      exact h.timerfunc hi.1
  | located =>
      obtain ⟨hi, hs⟩ := Option.ite_none_right_eq_some.mp hs
      obtain rfl := Option.some.inj hs
      exact h.gpsstatind hi
  | fix b =>
      obtain ⟨-, hs⟩ := Option.ite_none_right_eq_some.mp hs
      obtain rfl := Option.some.inj hs
      exact h.congr rfl rfl rfl rfl
  | others b =>
      obtain ⟨-, hs⟩ := Option.ite_none_right_eq_some.mp hs
      obtain rfl := Option.some.inj hs
      exact h.congr rfl rfl rfl rfl
  | setVal p val =>
      obtain rfl := Option.some.inj hs
      exact h.setVal p val
  | fill p cause val cb =>
      obtain ⟨hu, hs⟩ := Option.ite_none_left_eq_some.mp hs
      obtain rfl := Option.some.inj hs
      exact h.fill (by simpa using hu) cause val cb

theorem sound_init (paras : ℕ → Para) : Sound (init paras) := by
  apply sound_of_none rfl
  have hempty : ∀ a x, ¬(init paras).Has a x := by
    intro a x hx
    simp [State.Has, init] at hx
  constructor
  · exact Nat.zero_le _
  · intro a b x y hx
    exact absurd hx (hempty a x)
  · intro a b x y hx
    exact absurd hx (hempty a x)
  · intro a x hx
    exact absurd hx (hempty a x)
  · intro app o ho
    cases ho
  · exact fun _ => trivial

/-- In every run whose steps meet the condition, each application is kept until it is closed or
its time is over, called once at most and never after it was closed, and active after the tick
in which it was opened. -/
theorem applications_kept (paras : ℕ → Para) (acts : List Act)
    (h : Meets step Careful (init paras) acts) : Along step Keeps (init paras) acts := by
  have hsound : Along step Sound (init paras) acts :=
    along_of_meets (I := fun _ => True) (fun _ _ _ _ _ => trivial)
      (fun _ _ _ _ hs hc hstep => hs.step hc hstep) trivial (sound_init paras) h
  exact hsound.imp fun _ hs => hs.keeps

/-- Two applications with a timer and a callback, and one without. -/
def tables (p : ℕ) : Para :=
  match p with
  | 0 => ⟨lua "POWERON", some 1, true, none, none⟩
  | 1 => ⟨lua "ALARM", some 2, true, none, none⟩
  | _ => ⟨lua "TRACK", none, false, none, none⟩

theorem applications_kept_called : Along step Keeps (init tables)
    [.openApp .TIMER 0, .openApp .DEFAULT 2, .tick, .openApp .TIMER 1, .ret, .tick] :=
  applications_kept tables _ (by decide +kernel)

/-- The callback of an application opens it again; `timerfunc` closes what it finds in the entry
afterwards. -/
theorem reopened_in_callback_closed : ∃ st ∈ run step (init tables)
    [.openApp .TIMER 0, .tick, .openApp .TIMER 0, .ret], st.idle = true ∧
      status (.TIMER, lua "POWERON") st.log = some ⟨some 1, 0, false⟩ ∧
      ¬st.Active (.TIMER, lua "POWERON") ∧ ¬Keeps st := by
  have hsome : (run step (init tables)
      [.openApp .TIMER 0, .tick, .openApp .TIMER 0, .ret]).isSome = true := by decide +kernel
  have hall : (run step (init tables) [.openApp .TIMER 0, .tick, .openApp .TIMER 0, .ret]).all
      (fun st => st.idle &&
        decide (status (.TIMER, lua "POWERON") st.log = some ⟨some 1, 0, false⟩) &&
          decide (¬st.Active (.TIMER, lua "POWERON"))) = true := by decide +kernel
  obtain ⟨st, hst⟩ := Option.isSome_iff_exists.mp hsome
  rw [hst] at hall ⊢
  simp only [Option.all_some, Bool.and_eq_true, decide_eq_true_eq] at hall
  obtain ⟨⟨hidle, hstatus⟩, hact⟩ := hall
  refine ⟨st, rfl, hidle, hstatus, hact, ?_⟩
  intro hkeeps
  exact hact ((hkeeps.1 _ ⟨some 1, 0, false⟩ hstatus).2 rfl)

end LuatAir200.Gps
