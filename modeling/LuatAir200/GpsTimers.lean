import LuatAir200.Machine
import LuatAir200.GpsModel

/-!
# How long an application stays open

The log says for each application when it was opened last and whether it was closed. An
application with a timer must stay in the table until it is closed or its time is over, and
its callback may be called once. This needs that no table is shared or carries an old delay,
that no callback opens its own application again or another one after closing it, and that no
application is opened into an entry that the running loop has still to visit.
-/
namespace LuatAir200.Gps
open Lua Machine

/-! ## What the log says -/

/-- An application since it was opened last. -/
structure On where
  val : Option ℤ
  ticks : ℕ
  called : Bool
  deriving DecidableEq

def status (app : App) : List Event → Option On
  | [] => none
  | .opened a val :: log => if a = app then some ⟨val, 0, false⟩ else status app log
  | .closed a :: log => if a = app then none else status app log
  | .called a :: log =>
      if a = app then (status app log).map fun o => { o with called := true } else status app log
  | .tick :: log => (status app log).map fun o => { o with ticks := o.ticks + 1 }

/-- The callback is called only for an application that is open, and once for each opening. -/
def Calls (app : App) : List Event → Prop
  | [] => True
  | .called a :: log => (a = app → ∃ o ∈ status app log, o.called = false) ∧ Calls app log
  | _ :: log => Calls app log

def State.Active (st : State) (app : App) : Prop := ∃ it ∈ st.tlist, it.flag ∧ st.app it = app

instance (st : State) (app : App) : Decidable (st.Active app) :=
  inferInstanceAs (Decidable (∃ it ∈ st.tlist, it.flag ∧ st.app it = app))

/-- The time for which an application was opened is over. -/
def On.Over (o : On) : Prop := ∃ x, o.val = some x ∧ x ≤ o.ticks

/-- An application with a timer that was opened and not closed is active or its time is over,
its callback was called once at most, and an application opened since the last tick began is
active. -/
def Keeps (st : State) : Prop :=
  (∀ app, ∀ o ∈ status app st.log,
    (app.1 = .TIMER → st.Active app ∨ o.Over) ∧ (o.ticks = 0 → st.Active app)) ∧
  ∀ cause, Calls (.TIMER, cause) st.log

/-! ## The condition -/

/-- The table `p` can be given to `open` in this mode: no delay is left in it, and no other
application uses it together with a timer. -/
def clean (st : State) (mode : Mode) (p : ℕ) : Bool :=
  (mode ≠ .TIMER || (st.paras p).delay.isNone) &&
    st.tlist.all fun it => !it.flag || it.para ≠ p || st.app it = (mode, (st.paras p).cause) ||
      (mode ≠ .TIMER && it.mode ≠ .TIMER)

/-- In a callback of `timerfunc` that closes its application: the application is neither closed
nor the one to be opened; in any: the entry to be used is not still to be visited. -/
def lateral (st : State) (app : App) : Bool :=
  match st.pass with
  | none => true
  | some ps =>
      ((ps.fixed && ps.md = .DEFAULT) ||
        st.tlist[ps.i]?.any fun it => it.flag && st.app it ≠ app) &&
      (freeSlot (delitem app st).tlist).all fun j => j ≤ ps.i || ps.i + ps.k < j

def addOk (st : State) (mode : Mode) (p : ℕ) : Bool :=
  clean st mode p && lateral st (mode, (st.paras p).cause)

/-- The condition, for each place where an application is added to the table. -/
def Careful (st : State) : Act → Prop
  | .openApp mode p => (st.fix = true → mode = .TIMER ∨ mode = .DEFAULT ∧ (st.paras p).cb = false) →
      addOk st mode p = true
  | .ret => ∀ o ∈ st.opens.head?, o.1 ≠ .TIMERORSUC → addOk st o.1 o.2 = true
  | _ => True

instance (st : State) : (act : Act) → Decidable (Careful st act)
  | .openApp _ _ => inferInstanceAs (Decidable (_ → _))
  | .ret => inferInstanceAs (Decidable (∀ o ∈ _, _))
  | .close _ _ | .tick | .located | .fix _ | .others _ | .setVal _ _ | .fill _ _ _ _ =>
      inferInstanceAs (Decidable True)

/-! ## The invariant -/

/-- A valid entry. -/
def State.Has (st : State) (a : ℕ) (x : Item) : Prop := st.tlist[a]? = some x ∧ x.flag = true

/-- The counters of an entry with a timer; `late` when the tick has not been counted yet. -/
def Timing (late : Prop) (o : On) (q : Para) : Prop :=
  match o.val with
  | none => q.remain = none ∧ q.delay = none
  | some x => ∃ r, q.remain = some r ∧ x ≤ o.ticks + r ∧ (late → x + 1 ≤ o.ticks + r) ∧
      (q.delay = none ∨ x ≤ o.ticks)

/-- What holds while the slots from `lo` to `lo + k` are still to be visited and the callback
of `cur` is running. -/
structure Inv (lo k : ℕ) (cur : Option ℕ) (st : State) : Prop where
  bound : lo + k ≤ st.tlist.length
  unique : ∀ a b x y, st.Has a x → st.Has b y → st.app x = st.app y → a = b
  apart : ∀ a b x y, st.Has a x → st.Has b y → x.mode = .TIMER → x.para = y.para → a = b
  active : ∀ a x, st.Has a x → ∃ o ∈ status (st.app x) st.log,
    (lo ≤ a → a < lo + k → 1 ≤ o.ticks) ∧ (x.mode = .TIMER →
      Timing (lo ≤ a ∧ a < lo + k) o (st.paras x.para) ∧ (cur ≠ some a → o.called = false))
  inactive : ∀ app, ∀ o ∈ status app st.log, (∀ a x, st.Has a x → st.app x ≠ app) →
    1 ≤ o.ticks ∧ (app.1 = .TIMER → o.Over)
  calls : ∀ cause, Calls (.TIMER, cause) st.log

/-- The entry whose callback is running is the one that is closed afterwards, if any is. -/
def Running (ps : Pass) (st : State) : Prop :=
  (ps.fixed = true ∧ ps.md = .DEFAULT) ∨ ∃ x, st.tlist[ps.i]? = some x ∧ x.mode = ps.md ∧
    ((x.flag = true ∧ ∃ o ∈ status (st.app x) st.log, 1 ≤ o.ticks ∧ (x.mode = .TIMER → o.Over)) ∨
      x.flag = false ∧ ∀ b y, st.Has b y → st.app y ≠ st.app x)

def curSlot (ps : Pass) : Option ℕ := if ps.fixed = true ∧ ps.md = .DEFAULT then none else some ps.i

def Sound (st : State) : Prop :=
  match st.pass with
  | none => Inv 0 0 none st
  | some ps => Inv (ps.i + 1) ps.k (curSlot ps) st ∧ Running ps st

theorem Inv.keeps {lo k : ℕ} {cur : Option ℕ} {st : State} (h : Inv lo k cur st) : Keeps st := by
  refine ⟨?_, h.calls⟩
  intro app o ho
  by_cases hact : st.Active app
  · exact ⟨fun _ => .inl hact, fun _ => hact⟩
  · have hin := h.inactive app o ho fun a x hx he =>
      hact ⟨x, List.mem_of_getElem? hx.1, hx.2, he⟩
    refine ⟨fun hm => .inr (hin.2 hm), ?_⟩
    intro h0
    omega

theorem Sound.keeps {st : State} (h : Sound st) : Keeps st := by
  unfold Sound at h
  split at h
  · exact h.keeps
  · exact h.1.keeps

theorem Timing.mono {L M : Prop} {o : On} {q : Para} (h : Timing L o q) (hl : M → L) :
    Timing M o q := by
  unfold Timing at h ⊢
  split
  · simpa [*] using h
  · simp only [*] at h
    obtain ⟨r, hr, hle, hlate, hd⟩ := h
    exact ⟨r, hr, hle, fun h' => hlate (hl h'), hd⟩

section Parts

variable {lo k lo' k' : ℕ} {cur : Option ℕ} {st st' : State} {app : App}

theorem Inv.weaken (h : Inv lo k cur st) (hb : lo' + k' ≤ lo + k)
    (hr : ∀ a, lo' ≤ a → a < lo' + k' → lo ≤ a ∧ a < lo + k) : Inv lo' k' cur st where
  bound := hb.trans h.bound
  unique := h.unique
  apart := h.apart
  active a x hx := by
    obtain ⟨o, ho, ht, hm⟩ := h.active a x hx
    refine ⟨o, ho, ?_, ?_⟩
    · intro h1 h2
      obtain ⟨h3, h4⟩ := hr a h1 h2
      exact ht h3 h4
    · intro hT
      exact ⟨(hm hT).1.mono fun hl => hr a hl.1 hl.2, (hm hT).2⟩
  inactive := h.inactive
  calls := h.calls

/-- Only the parameter tables have changed, and not what matters in them. -/
theorem Inv.paras (h : Inv lo k cur st) (ht : st'.tlist = st.tlist) (hl : st'.log = st.log)
    (happ : ∀ a x, st.Has a x → st'.app x = st.app x)
    (htime : ∀ a x, st.Has a x → x.mode = .TIMER → ∀ late o,
      Timing late o (st.paras x.para) → Timing late o (st'.paras x.para)) : Inv lo k cur st' := by
  have hhas : ∀ a x, st'.Has a x ↔ st.Has a x := by
    intro a x
    rw [State.Has, State.Has, ht]
  constructor
  · rw [ht]
    exact h.bound
  · intro a b x y hx hy he
    rw [hhas] at hx hy
    rw [happ a x hx, happ b y hy] at he
    exact h.unique a b x y hx hy he
  · intro a b x y hx hy
    rw [hhas] at hx hy
    exact h.apart a b x y hx hy
  · intro a x hx
    rw [hhas] at hx
    obtain ⟨o, ho, h1, hm⟩ := h.active a x hx
    rw [happ a x hx, hl]
    exact ⟨o, ho, h1, fun hT => ⟨htime a x hx hT _ o (hm hT).1, (hm hT).2⟩⟩
  · intro app o ho hno
    rw [hl] at ho
    apply h.inactive app o ho
    intro a x hx he
    exact hno a x ((hhas a x).mpr hx) ((happ a x hx).trans he)
  · rw [hl]
    exact h.calls

theorem Inv.congr (h : Inv lo k cur st) (ht : st'.tlist = st.tlist) (hp : st'.paras = st.paras)
    (hl : st'.log = st.log) : Inv lo k cur st' := by
  apply h.paras ht hl
  · intro a x _
    rw [State.app, State.app, hp]
  · intro a x _ _ late o htime
    rw [hp]
    exact htime

theorem delitem_tlist (hu : ∀ a b x y, st.Has a x → st.Has b y → st.app x = st.app y → a = b) :
    (delitem app st).tlist = st.tlist.map fun it =>
      if it.flag && st.app it = app then { it with flag := false } else it := by
  apply Keyed.modify_eq_map
  intro i j a b ha hb hpa hpb
  simp only [Bool.and_eq_true, decide_eq_true_eq] at hpa hpb
  exact hu i j a b ⟨ha, hpa.1⟩ ⟨hb, hpb.1⟩ (hpa.2.trans hpb.2.symm)

theorem has_delitem (hu : ∀ a b x y, st.Has a x → st.Has b y → st.app x = st.app y → a = b)
    (a : ℕ) (x : Item) : (delitem app st).Has a x ↔ st.Has a x ∧ st.app x ≠ app := by
  simp only [State.Has, delitem_tlist hu, List.getElem?_map, Option.map_eq_some_iff]
  constructor
  · rintro ⟨⟨y, hy, rfl⟩, hf⟩
    split at hf
    · cases hf
    case isFalse hn =>
      rw [if_neg hn]
      exact ⟨⟨hy, hf⟩, fun he => hn (by simp [hf, he])⟩
  · rintro ⟨⟨hx, hf⟩, hne⟩
    exact ⟨⟨x, hx, by simp [hne]⟩, hf⟩

theorem close_fields (app : App) (st : State) : (close app st).tlist = (delitem app st).tlist ∧
    (close app st).paras = st.paras ∧ (close app st).log = st.log ∧
    (close app st).pass = st.pass ∧ (close app st).opens = st.opens := by
  unfold close closegps
  dsimp only
  split
  · exact ⟨rfl, rfl, rfl, rfl, rfl⟩
  · split <;> exact ⟨rfl, rfl, rfl, rfl, rfl⟩

theorem length_close (h : Inv lo k cur st) (app : App) :
    (close app st).tlist.length = st.tlist.length := by
  rw [(close_fields app st).1, delitem_tlist h.unique, List.length_map]

theorem has_close (h : Inv lo k cur st) (app : App) (a : ℕ) (x : Item) :
    (close app st).Has a x ↔ st.Has a x ∧ st.app x ≠ app := by
  rw [← has_delitem h.unique a x, State.Has, State.Has, (close_fields app st).1]

theorem app_close (app : App) (st : State) (x : Item) : (close app st).app x = st.app x := by
  rw [State.app, State.app, (close_fields app st).2.1]

/-- The entries other than the one that is closed. -/
theorem Inv.close_active (h : Inv lo k cur st) {l : List Event}
    (hl : ∀ a, a ≠ app → status a l = status a st.log)
    {cur' : Option ℕ} (hc : ∀ a x, st.Has a x → st.app x ≠ app → cur' ≠ some a → cur ≠ some a) :
    ∀ a x, (close app st).Has a x → ∃ o ∈ status ((close app st).app x) l,
      (lo ≤ a → a < lo + k → 1 ≤ o.ticks) ∧ (x.mode = .TIMER →
        Timing (lo ≤ a ∧ a < lo + k) o ((close app st).paras x.para) ∧
          (cur' ≠ some a → o.called = false)) := by
  intro a x hx
  obtain ⟨hx, hne⟩ := (has_close h app a x).mp hx
  obtain ⟨o, ho, h1, hm⟩ := h.active a x hx
  rw [app_close, hl _ hne, (close_fields app st).2.1]
  exact ⟨o, ho, h1, fun hT => ⟨(hm hT).1, fun hn => (hm hT).2 (hc a x hx hne hn)⟩⟩

/-- `gps.close` -/
theorem Inv.user_close (h : Inv lo k cur st) (app : App) :
    Inv lo k cur ((close app st).record (.closed app)) where
  bound := (length_close h app).symm ▸ h.bound
  unique a b x y hx hy he :=
    h.unique a b x y ((has_close h app a x).mp hx).1 ((has_close h app b y).mp hy).1
      (((app_close app st x).symm.trans he).trans (app_close app st y))
  apart a b x y hx hy :=
    h.apart a b x y ((has_close h app a x).mp hx).1 ((has_close h app b y).mp hy).1
  active := by
    apply h.close_active
    · intro a ha
      show status a (.closed app :: (close app st).log) = _
      rw [status, if_neg (Ne.symm ha), (close_fields app st).2.2.1]
    · exact fun _ _ _ _ hn => hn
  inactive a o ho hno := by
    have hlog : status a (.closed app :: st.log) = some o := by
      rw [← (close_fields app st).2.2.1]
      exact ho
    by_cases ha : app = a
    · simp [status, ha] at hlog
    · rw [status, if_neg ha] at hlog
      apply h.inactive a o hlog
      intro b x hx he
      apply hno b x ((has_close h app b x).mpr ⟨hx, fun he' => ha (he'.symm.trans he)⟩)
      exact (app_close app st x).trans he
  calls cause := by
    show Calls _ (close app st).log
    rw [(close_fields app st).2.2.1]
    exact h.calls cause

/-- The entry `a`, whose time is over, is closed by `timerfunc`. -/
theorem Inv.expire {a : ℕ} {x : Item} {o : On} (h : Inv lo k cur st) (hx : st.Has a x)
    (ho : o ∈ status (st.app x) st.log) (h1 : 1 ≤ o.ticks) (hover : x.mode = .TIMER → o.Over)
    (hc : ∀ b, cur = some b → b = a) : Inv lo k none (close (st.app x) st) where
  bound := (length_close h _).symm ▸ h.bound
  unique b c y z hy hz he :=
    h.unique b c y z ((has_close h _ b y).mp hy).1 ((has_close h _ c z).mp hz).1
      (((app_close _ st y).symm.trans he).trans (app_close _ st z))
  apart b c y z hy hz :=
    h.apart b c y z ((has_close h _ b y).mp hy).1 ((has_close h _ c z).mp hz).1
  active := by
    apply h.close_active
    · intro b _
      rw [(close_fields (st.app x) st).2.2.1]
    · rintro b y hy hne - hcur
      obtain rfl := hc b hcur
      have hxy : x = y := Option.some.inj (hx.1.symm.trans hy.1)
      exact hne (by rw [hxy])
  inactive b p hp hno := by
    rw [(close_fields (st.app x) st).2.2.1] at hp
    by_cases hb : st.app x = b
    · subst hb
      rw [Option.mem_def.mp ho] at hp
      cases hp
      exact ⟨h1, hover⟩
    · apply h.inactive b p hp
      intro c y hy he
      apply hno c y ((has_close h _ c y).mpr ⟨hy, fun he' => hb (he'.symm.trans he)⟩)
      exact (app_close _ st y).trans he
  calls cause := by
    rw [(close_fields (st.app x) st).2.2.1]
    exact h.calls cause

/-- Closing an application that is not active changes nothing. -/
theorem Inv.close_none (h : Inv lo k cur st) (hno : ∀ b y, st.Has b y → st.app y ≠ app)
    (hc : ∀ a x, st.Has a x → cur ≠ some a) : Inv lo k none (close app st) where
  bound := (length_close h app).symm ▸ h.bound
  unique b c y z hy hz he :=
    h.unique b c y z ((has_close h _ b y).mp hy).1 ((has_close h _ c z).mp hz).1
      (((app_close _ st y).symm.trans he).trans (app_close _ st z))
  apart b c y z hy hz :=
    h.apart b c y z ((has_close h _ b y).mp hy).1 ((has_close h _ c z).mp hz).1
  active := by
    apply h.close_active
    · intro b _
      rw [(close_fields app st).2.2.1]
    · exact fun a x hx _ _ => hc a x hx
  inactive b p hp hno' := by
    rw [(close_fields app st).2.2.1] at hp
    apply h.inactive b p hp
    intro c y hy he
    apply hno' c y ((has_close h _ c y).mpr ⟨hy, hno c y hy⟩)
    exact (app_close _ st y).trans he
  calls cause := by
    rw [(close_fields app st).2.2.1]
    exact h.calls cause

end Parts

/-! ## One slot of the loop -/

theorem app_setPara {st : State} {p : ℕ} {f : Para → Para}
    (hf : ∀ q, (f q).cause = q.cause) (x : Item) : (st.setPara p f).app x = st.app x := by
  by_cases hx : x.para = p
  · simp [State.app, State.setPara, hx, hf]
  · simp [State.app, State.setPara, hx]

@[simp] theorem count_cause (fix : Bool) (md : Mode) (q : Para) : (count fix md q).cause = q.cause := by
  unfold count
  dsimp only
  split <;> rfl

/-- Counting a tick for an entry with a timer; when it is due, its time is over. -/
theorem Timing.count {L : Prop} {o : On} {q : Para} (h : Timing True o q) (hl : ¬L)
    (fix : Bool) : Timing L o (Gps.count fix .TIMER q) ∧
      (due fix (Gps.count fix .TIMER q) = true → o.Over) := by
  obtain ⟨cause, val, cb, remain, delay⟩ := q
  unfold Timing at h
  split at h
  case h_1 hv =>
    obtain ⟨rfl, rfl⟩ := h
    have hcount : Gps.count fix .TIMER ⟨cause, val, cb, none, none⟩ =
        ⟨cause, val, cb, none, none⟩ := by simp [Gps.count, dec]
    rw [hcount]
    refine ⟨by simp [Timing, hv], ?_⟩
    cases fix <;> simp [due]
  case h_2 x hv =>
    obtain ⟨r, rfl, -, hlate, hd⟩ := h
    have hr := hlate trivial
    obtain ⟨r', hr', hle⟩ : ∃ r', dec (some r) = some r' ∧ x ≤ o.ticks + r' := by
      by_cases h0 : r > 0
      · exact ⟨r - 1, by simp [dec, h0], by omega⟩
      · exact ⟨r, by simp [dec, h0], by omega⟩
    have hdec : dec delay = none ∨ x ≤ o.ticks := by
      obtain hn | hx := hd
      · left
        simp only at hn
        simp [hn, dec]
      · exact .inr hx
    by_cases hset : (fix && r' = 0 && (dec delay).isNone) = true
    · simp only [Bool.and_eq_true, decide_eq_true_eq] at hset
      obtain ⟨⟨rfl, rfl⟩, hnone⟩ := hset
      have hcount : Gps.count true .TIMER ⟨cause, val, cb, some r, delay⟩ =
          ⟨cause, val, cb, some 0, some 1⟩ := by simp [Gps.count, hr', hnone]
      rw [hcount]
      refine ⟨?_, by simp [due]⟩
      rw [Timing, hv]
      exact ⟨0, rfl, hle, fun h => absurd h hl, .inr (by omega)⟩
    · have hcount : Gps.count fix .TIMER ⟨cause, val, cb, some r, delay⟩ =
          ⟨cause, val, cb, some r', dec delay⟩ := by
        simp only [Gps.count, hr']
        rw [if_neg]
        simpa [Bool.and_assoc] using hset
      rw [hcount]
      refine ⟨?_, ?_⟩
      · rw [Timing, hv]
        exact ⟨r', rfl, hle, fun h => absurd h hl, hdec⟩
      · intro hdue
        refine ⟨x, hv, ?_⟩
        cases fix with
        | true =>
            have h0 : dec delay = some 0 := by simpa [due] using hdue
            simpa [h0] using hdec
        | false =>
            have h0 : r' = 0 := by simpa [due] using hdue
            omega

section Slot

variable {i k : ℕ} {st : State} {x : Item}

/-- A table of which no entry with a timer depends, or in which only a delay is taken back. -/
theorem Inv.setPara {lo : ℕ} {cur : Option ℕ} (h : Inv lo k cur st) {p : ℕ} {f : Para → Para}
    (hf : ∀ q, (f q).cause = q.cause)
    (hp : ∀ a y, st.Has a y → y.mode = .TIMER → y.para = p → ∀ late o q,
      Timing late o q → Timing late o (f q)) : Inv lo k cur (st.setPara p f) := by
  apply @Inv.paras _ _ _ st (st.setPara p f) h rfl rfl
  · intro a y _
    exact app_setPara hf y
  · intro a y hy hT late o ht
    by_cases hyp : y.para = p
    · have hq := hp a y hy hT hyp late o _ ht
      simpa [State.setPara, hyp] using hq
    · simpa [State.setPara, hyp] using ht

theorem Inv.noDelay {lo : ℕ} {cur : Option ℕ} (h : Inv lo k cur st) (p : ℕ) :
    Inv lo k cur (st.setPara p fun q => { q with delay := none }) := by
  refine h.setPara (f := fun q => { q with delay := none }) (fun _ => rfl) ?_
  intro a y _ _ _ late o q ht
  unfold Timing at ht ⊢
  split
  · rename_i hv
    simp only [hv] at ht
    exact ⟨ht.1, rfl⟩
  · rename_i v hv
    simp only [hv] at ht
    obtain ⟨r, hr, hle, hlate, -⟩ := ht
    exact ⟨r, hr, hle, hlate, .inl rfl⟩

/-- The slot that `timerfunc` visits: its counters, and whether its time is over. -/
theorem Inv.count (h : Inv i (k + 1) none st) (hx : st.Has i x) :
    Inv (i + 1) k none (st.setPara x.para (count st.fix x.mode)) ∧
      ∃ o ∈ status (st.app x) st.log, 1 ≤ o.ticks ∧ (x.mode = .TIMER → o.called = false) ∧
        (due st.fix (count st.fix x.mode (st.paras x.para)) = true → x.mode = .TIMER → o.Over) := by
  obtain ⟨o, ho, h1, hm⟩ := h.active i x hx
  have hone : 1 ≤ o.ticks := h1 le_rfl (by omega)
  have htimer : x.mode = .TIMER → Timing True o (st.paras x.para) := fun hT =>
    (hm hT).1.mono fun _ => ⟨le_rfl, by omega⟩
  have happ := fun y => @app_setPara st x.para _ (count_cause st.fix x.mode) y
  refine ⟨?_, o, ho, hone, fun hT => (hm hT).2 (by simp), ?_⟩
  · constructor
    · have := h.bound
      show i + 1 + k ≤ st.tlist.length
      omega
    · intro a b y z hy hz he
      rw [happ, happ] at he
      exact h.unique a b y z hy hz he
    · exact h.apart
    · intro a y hy
      rw [happ]
      by_cases ha : a = i
      · subst ha
        obtain rfl : x = y := Option.some.inj (hx.1.symm.trans hy.1)
        refine ⟨o, ho, fun h2 => by omega, fun hT => ⟨?_, (hm hT).2⟩⟩
        have ht := ((htimer hT).count (L := a + 1 ≤ a ∧ a < a + 1 + k) (by omega) st.fix).1
        simpa [State.setPara, hT] using ht
      · obtain ⟨p, hp, h2, hmy⟩ := h.active a y hy
        refine ⟨p, hp, fun h3 h4 => h2 (by omega) (by omega), fun hT => ⟨?_, (hmy hT).2⟩⟩
        have hne : y.para ≠ x.para := fun he => ha (h.apart a i y x hy hx hT he)
        have ht := (hmy hT).1.mono (M := i + 1 ≤ a ∧ a < i + 1 + k) (by omega)
        simpa [State.setPara, hne] using ht
    · intro app p hp hno
      apply h.inactive app p hp
      intro a y hy he
      exact hno a y hy ((happ y).trans he)
    · exact h.calls
  · intro hdue hT
    rw [hT] at hdue
    exact ((htimer hT).count (L := False) id st.fix).2 hdue

/-- The callback of an entry is called for the first time. -/
theorem Inv.called {lo : ℕ} {o : On} (h : Inv lo k none st) (hx : st.Has i x)
    (ho : o ∈ status (st.app x) st.log) (hc : x.mode = .TIMER → o.called = false)
    {cur : Option ℕ} (hcur : x.mode = .TIMER → cur = some i) :
    Inv lo k cur (st.record (.called (st.app x))) where
  bound := h.bound
  unique := h.unique
  apart := h.apart
  active a y hy := by
    obtain ⟨p, hp, h1, hm⟩ := h.active a y hy
    show ∃ p ∈ status (st.app y) (.called (st.app x) :: st.log), _
    by_cases he : st.app x = st.app y
    · obtain rfl := h.unique i a x y hx hy he
      refine ⟨{ p with called := true }, ?_, h1, fun hT => ⟨(hm hT).1, fun hn => ?_⟩⟩
      · rw [status, if_pos he, Option.mem_def.mp hp]
        rfl
      · have hTx : x.mode = .TIMER := by
          rw [Option.some.inj (hx.1.symm.trans hy.1)]
          exact hT
        exact absurd (hcur hTx) hn
    · refine ⟨p, ?_, h1, fun hT => ⟨(hm hT).1, fun _ => (hm hT).2 (by simp)⟩⟩
      rw [status, if_neg he]
      exact hp
  inactive app p hp hno := by
    have hne : st.app x ≠ app := hno i x hx
    have hp' : p ∈ status app (.called (st.app x) :: st.log) := hp
    rw [status, if_neg hne] at hp'
    exact h.inactive app p hp' hno
  calls cause := by
    refine ⟨?_, h.calls cause⟩
    intro he
    rw [← he]
    exact ⟨o, ho, hc (congrArg Prod.fst he)⟩

theorem Inv.afterCallback {lo : ℕ} {o : On} (h : Inv lo k none st) (hx : st.Has i x)
    (ho : o ∈ status (st.app x) st.log) (h1 : 1 ≤ o.ticks) (hover : x.mode = .TIMER → o.Over)
    {fixed : Bool} : Inv lo k none (afterCallback i x.mode fixed st) := by
  simp only [Gps.afterCallback, hx.1]
  split
  · exact h.noDelay x.para
  · exact h.expire hx ho h1 hover (by simp)

end Slot

theorem scan_sound (k : ℕ) : ∀ {i : ℕ} {st : State}, Inv i k none st → Sound (scan k i st) := by
  induction k with
  | zero =>
      intro i st h
      have h0 : Inv 0 0 none st := h.weaken (by omega) (by omega)
      exact h0.congr rfl rfl rfl
  | succ k ih =>
      intro i st h
      have hskip : Inv (i + 1) k none st := h.weaken (by omega) (by omega)
      rw [scan]
      split
      · exact ih hskip
      case h_2 x hx =>
        split
        case isFalse => exact ih hskip
        case isTrue hf =>
          obtain ⟨hinv, o, ho, h1, hc, hover⟩ := h.count ⟨hx, hf⟩
          dsimp only
          split
          case isFalse => exact ih hinv
          case isTrue hdue =>
            generalize hst : st.setPara x.para (count st.fix x.mode) = st' at hinv hdue ⊢
            have happ : ∀ y, st'.app y = st.app y := by
              subst hst
              exact app_setPara (count_cause st.fix x.mode)
            have hx' : st'.Has i x := by
              subst hst
              exact ⟨hx, hf⟩
            have ho' : o ∈ status (st'.app x) st'.log := by
              rw [happ]
              subst hst
              exact ho
            have hover' : x.mode = .TIMER → o.Over := by
              apply hover
              subst hst
              simpa [State.setPara] using hdue
            split
            case isTrue =>
              have hcur : x.mode = .TIMER → curSlot ⟨i, k, x.mode, st.fix⟩ = some i := by
                intro hT
                simp [curSlot, hT]
              refine ⟨(hinv.called hx' ho' hc hcur).congr rfl rfl rfl, .inr ⟨x, hx'.1, rfl, .inl ⟨hf, ?_⟩⟩⟩
              refine ⟨{ o with called := true }, ?_, h1, hover'⟩
              show _ ∈ status (st'.app x) (.called (st'.app x) :: st'.log)
              rw [status, if_pos rfl, Option.mem_def.mp ho']
              rfl
            case isFalse =>
              exact ih (hinv.afterCallback hx' ho' h1 hover')

/-! ## Adding an application -/

section Adding

variable {lo k : ℕ} {cur : Option ℕ} {st : State} {mode : Mode} {p : ℕ}

def State.appOf (st : State) (mode : Mode) (p : ℕ) : App := (mode, (st.paras p).cause)

/-- The entry that `additem` uses. -/
def usedSlot (st : State) (app : App) : ℕ :=
  (freeSlot (delitem app st).tlist).getD (delitem app st).tlist.length

theorem additem_fields (mode : Mode) (p : ℕ) (st : State) :
    (additem mode p st).log = st.log ∧ (additem mode p st).pass = st.pass ∧
      (∀ q, ((additem mode p st).paras q).cause = (st.paras q).cause) ∧
      ∀ q, q ≠ p → (additem mode p st).paras q = st.paras q := by
  unfold additem
  dsimp only
  split
  · refine ⟨rfl, rfl, ?_, ?_⟩
    · intro q
      by_cases hq : q = p
      · simp [State.setPara, delitem, hq]
      · simp [State.setPara, delitem, hq]
    · intro q hq
      simp [State.setPara, delitem, hq]
  · exact ⟨rfl, rfl, fun _ => rfl, fun _ _ => rfl⟩

theorem app_additem (mode : Mode) (p : ℕ) (st : State) (x : Item) :
    (additem mode p st).app x = st.app x := by
  rw [State.app, State.app, (additem_fields mode p st).2.2.1]

theorem additem_tlist (mode : Mode) (p : ℕ) (st : State) :
    (additem mode p st).tlist =
      match freeSlot (delitem (st.appOf mode p) st).tlist with
      | some i => (delitem (st.appOf mode p) st).tlist.set i ⟨true, mode, p⟩
      | none => (delitem (st.appOf mode p) st).tlist ++ [⟨true, mode, p⟩] := by
  have hl : (if mode = .TIMERORSUC ∨ mode = .TIMER then
      (delitem (st.appOf mode p) st).setPara p fun q => { q with remain := q.val }
    else delitem (st.appOf mode p) st).tlist = (delitem (st.appOf mode p) st).tlist := by
    split <;> rfl
  exact congrArg (fun is : List Item => match freeSlot is with
    | some i => is.set i ⟨true, mode, p⟩
    | none => is ++ [(⟨true, mode, p⟩ : Item)]) hl

theorem has_additem (h : Inv lo k cur st) (a : ℕ) (x : Item) : (additem mode p st).Has a x ↔
    (a = usedSlot st (st.appOf mode p) ∧ x = ⟨true, mode, p⟩) ∨
      (st.Has a x ∧ st.app x ≠ st.appOf mode p) := by
  rw [← has_delitem h.unique a x, State.Has, additem_tlist, usedSlot]
  generalize (delitem (st.appOf mode p) st) = st'
  cases hfree : freeSlot st'.tlist with
  | none =>
      rw [freeSlot, List.findIdx?_eq_none_iff] at hfree
      simp only [Option.getD_none, State.Has]
      by_cases ha : a < st'.tlist.length
      · rw [List.getElem?_append_left ha]
        constructor
        · exact .inr
        · rintro (⟨rfl, -⟩ | hx)
          · exact absurd ha (Nat.lt_irrefl _)
          · exact hx
      · have hn : st'.tlist[a]? = none := List.getElem?_eq_none (by omega)
        rw [List.getElem?_append_right (by omega), hn]
        constructor
        · rintro ⟨hx, -⟩
          obtain ⟨hlt, rfl⟩ := List.getElem?_eq_some_iff.mp hx
          simp only [List.length_singleton] at hlt
          exact .inl ⟨by omega, by simp⟩
        · rintro (⟨rfl, rfl⟩ | ⟨hx, -⟩)
          · simp
          · cases hx
  | some i =>
      obtain ⟨hlt, hflag, -⟩ := List.findIdx?_eq_some_iff_getElem.mp hfree
      simp only [Option.getD_some, State.Has, List.getElem?_set]
      by_cases ha : i = a
      · subst ha
        simp only [if_true, hlt, Option.some.injEq, List.getElem?_eq_getElem hlt]
        constructor
        · rintro ⟨rfl, -⟩
          exact .inl ⟨trivial, rfl⟩
        · rintro (⟨-, rfl⟩ | ⟨rfl, hf⟩)
          · simp
          · simp [hf] at hflag
      · simp only [if_neg ha, Ne.symm ha, false_and, false_or]

theorem length_additem (h : Inv lo k cur st) :
    st.tlist.length ≤ (additem mode p st).tlist.length := by
  have hlen : (delitem (st.appOf mode p) st).tlist.length = st.tlist.length := by
    rw [delitem_tlist h.unique, List.length_map]
  rw [additem_tlist]
  split
  · rw [List.length_set, hlen]
  · rw [List.length_append, hlen]
    exact Nat.le_add_right _ _

/-- What `clean` says about the other entries. -/
theorem clean_iff : clean st mode p = true ↔ (mode = .TIMER → (st.paras p).delay = none) ∧
    ∀ a x, st.Has a x → x.para = p → st.app x ≠ st.appOf mode p →
      mode ≠ .TIMER ∧ x.mode ≠ .TIMER := by
  simp only [clean, Bool.and_eq_true, Bool.or_eq_true, decide_eq_true_eq, List.all_eq_true,
    Option.isNone_iff_eq_none, Bool.not_eq_true', ne_eq, State.appOf]
  refine and_congr ⟨fun h hT => h.resolve_left (not_not.mpr hT), fun h => ?_⟩ ⟨?_, ?_⟩
  · by_cases hT : mode = .TIMER
    · exact .inr (h hT)
    · exact .inl hT
  · intro h a x hx hp hne
    obtain ((hf | hq) | he) | hm := h x (List.mem_of_getElem? hx.1)
    · exact absurd hx.2 (by simp [hf])
    · exact absurd hp hq
    · exact absurd he hne
    · exact hm
  · intro h x hx
    obtain ⟨a, ha⟩ := List.getElem?_of_mem hx
    by_cases hf : x.flag = true
    · by_cases hp : x.para = p
      · by_cases he : st.app x = (mode, (st.paras p).cause)
        · exact .inl (.inr he)
        · exact .inr (h a x ⟨ha, hf⟩ hp he)
      · exact .inl (.inl (.inr hp))
    · exact .inl (.inl (.inl (by simpa using hf)))

theorem additem_remain (hT : mode = .TIMER) (st : State) :
    ((additem mode p st).paras p).remain = (st.paras p).val ∧
      ((additem mode p st).paras p).delay = (st.paras p).delay := by
  subst hT
  simp [additem, State.setPara, delitem]

/-- The application is added, and an entry that is still to be visited is not used. -/
theorem Inv.additem (h : Inv lo k cur st) (hclean : clean st mode p = true)
    (hslot : ¬(lo ≤ usedSlot st (st.appOf mode p) ∧ usedSlot st (st.appOf mode p) < lo + k)) :
    Inv lo k cur ((Gps.additem mode p st).record (.opened (st.appOf mode p) (st.paras p).val)) := by
  obtain ⟨hdelay, hother⟩ := clean_iff.mp hclean
  obtain ⟨hlog, -, hcause, hparas⟩ := additem_fields mode p st
  generalize hj : usedSlot st (st.appOf mode p) = j at hslot
  generalize hst : (Gps.additem mode p st).record (.opened (st.appOf mode p) (st.paras p).val) = st'
  have hlog' : st'.log = .opened (st.appOf mode p) (st.paras p).val :: st.log := by
    rw [← hst, ← hlog]
    rfl
  have hparas' : ∀ q, q ≠ p → st'.paras q = st.paras q := by
    rw [← hst]
    exact hparas
  have happ : ∀ x, st'.app x = st.app x := by
    intro x
    rw [← hst]
    exact app_additem mode p st x
  have hhas : ∀ a x, st'.Has a x ↔ (a = j ∧ x = ⟨true, mode, p⟩) ∨
      (st.Has a x ∧ st.app x ≠ st.appOf mode p) := by
    intro a x
    rw [← hst, ← hj]
    exact has_additem h a x
  have hnew : st.app ⟨true, mode, p⟩ = st.appOf mode p := rfl
  have hmem : st'.Has j ⟨true, mode, p⟩ := (hhas _ _).mpr (.inl ⟨rfl, rfl⟩)
  constructor
  · refine h.bound.trans ?_
    rw [← hst]
    exact length_additem h
  · intro a b x y hx hy he
    rw [happ, happ] at he
    obtain ⟨rfl, rfl⟩ | ⟨hx, hxn⟩ := (hhas a x).mp hx
    · obtain ⟨rfl, rfl⟩ | ⟨hy, hyn⟩ := (hhas b y).mp hy
      · rfl
      · exact absurd he.symm hyn
    · obtain ⟨rfl, rfl⟩ | ⟨hy, hyn⟩ := (hhas b y).mp hy
      · exact absurd he hxn
      · exact h.unique a b x y hx hy he
  · intro a b x y hx hy hT hp
    obtain ⟨rfl, rfl⟩ | ⟨hx, hxn⟩ := (hhas a x).mp hx
    · obtain ⟨rfl, rfl⟩ | ⟨hy, hyn⟩ := (hhas b y).mp hy
      · rfl
      · exact absurd hT (hother b y hy hp.symm hyn).1
    · obtain ⟨rfl, rfl⟩ | ⟨hy, hyn⟩ := (hhas b y).mp hy
      · exact absurd hT (hother a x hx hp hxn).2
      · exact h.apart a b x y hx hy hT hp
  · intro a x hx
    rw [happ, hlog']
    obtain ⟨rfl, rfl⟩ | ⟨hx, hxn⟩ := (hhas a x).mp hx
    · refine ⟨⟨(st.paras p).val, 0, false⟩, ?_, fun h1 h2 => absurd ⟨h1, h2⟩ hslot,
        fun hT => ⟨?_, fun _ => rfl⟩⟩
      · rw [status, hnew, if_pos rfl]
        rfl
      · have hT' : mode = .TIMER := hT
        obtain ⟨hrem, hdel⟩ := additem_remain (p := p) hT' st
        have hq : st'.paras p = (Gps.additem mode p st).paras p := by
          rw [← hst]
          rfl
        simp only [hq]
        rw [hdelay hT'] at hdel
        cases hval : (st.paras p).val with
        | none =>
            rw [hval] at hrem
            exact ⟨hrem, hdel⟩
        | some v =>
            rw [hval] at hrem
            exact ⟨v, hrem, by simp, fun hl => absurd hl hslot, .inl hdel⟩
    · obtain ⟨o, ho, h1, hm⟩ := h.active a x hx
      refine ⟨o, ?_, h1, fun hT => ⟨?_, (hm hT).2⟩⟩
      · rw [status, if_neg (Ne.symm hxn)]
        exact ho
      · have hne : x.para ≠ p := fun hp => (hother a x hx hp hxn).2 hT
        rw [hparas' _ hne]
        exact (hm hT).1
  · intro app o ho hno
    have hne : st.appOf mode p ≠ app := fun he => hno j _ hmem ((happ _).trans (hnew.trans he))
    rw [hlog', status, if_neg hne] at ho
    apply h.inactive app o ho
    intro a x hx he
    apply hno a x ((hhas a x).mpr (.inr ⟨hx, fun he' => hne (he'.symm.trans he)⟩))
    exact (happ x).trans he
  · intro cause
    rw [hlog']
    exact h.calls cause

/-- What `lateral` says in a callback. -/
theorem lateral_spec {cur : Option ℕ} {ps : Pass} {app : App} (hps : st.pass = some ps)
    (h : Inv (ps.i + 1) ps.k cur st) (hl : lateral st app = true) :
    ((ps.fixed = true ∧ ps.md = .DEFAULT) ∨ ∃ x, st.Has ps.i x ∧ st.app x ≠ app) ∧
      ¬(ps.i + 1 ≤ usedSlot st app ∧ usedSlot st app < ps.i + 1 + ps.k) := by
  simp only [lateral, hps, Bool.and_eq_true, Bool.or_eq_true, decide_eq_true_eq] at hl
  refine ⟨hl.1.imp_right fun hany => ?_, ?_⟩
  · obtain ⟨x, hx, hf⟩ := (Option.any_eq_true _ _).mp hany
    simp only [Bool.and_eq_true, decide_eq_true_eq] at hf
    exact ⟨x, ⟨hx, hf.1⟩, hf.2⟩
  · have hall := hl.2
    unfold usedSlot
    cases hfree : freeSlot (delitem app st).tlist with
    | none =>
        have hlen : (delitem app st).tlist.length = st.tlist.length := by
          rw [delitem_tlist h.unique, List.length_map]
        have := h.bound
        rw [Option.getD_none, hlen]
        omega
    | some j =>
        rw [hfree] at hall
        simp only [Option.all_some, Bool.or_eq_true, decide_eq_true_eq] at hall
        rw [Option.getD_some]
        omega

/-- The entry whose callback is running stays, when another application is added. -/
theorem Running.additem {cur : Option ℕ} {ps : Pass} (h : Inv (ps.i + 1) ps.k cur st)
    (hr : Running ps st) (hl : (ps.fixed = true ∧ ps.md = .DEFAULT) ∨
      ∃ x, st.Has ps.i x ∧ st.app x ≠ st.appOf mode p) :
    Running ps ((Gps.additem mode p st).record (.opened (st.appOf mode p) (st.paras p).val)) := by
  obtain hdef | ⟨y, hy, hmode, hrun⟩ := hr
  · exact .inl hdef
  obtain hdef | ⟨x, hx, hne⟩ := hl
  · exact .inl hdef
  obtain rfl : x = y := Option.some.inj (hx.1.symm.trans hy)
  obtain ⟨-, o, ho, h1, hover⟩ | ⟨hf, -⟩ := hrun
  · have hx' : (Gps.additem mode p st).Has ps.i x := (has_additem h ps.i x).mpr (.inr ⟨hx, hne⟩)
    refine .inr ⟨x, hx'.1, hmode, .inl ⟨hx.2, o, ?_, h1, hover⟩⟩
    show o ∈ status ((Gps.additem mode p st).app x) (.opened _ _ :: (Gps.additem mode p st).log)
    rw [app_additem, (additem_fields mode p st).1, status, if_neg (Ne.symm hne)]
    exact ho
  · rw [hx.2] at hf
    cases hf

theorem finishOpen_fields (mode : Mode) (p : ℕ) (st : State) :
    (finishOpen mode p st).tlist = (additem mode p st).tlist ∧
      (finishOpen mode p st).paras = (additem mode p st).paras ∧
      (finishOpen mode p st).log =
        .opened (st.appOf mode p) (st.paras p).val :: (additem mode p st).log ∧
      (finishOpen mode p st).pass = st.pass := by
  unfold finishOpen
  dsimp only
  have hpass := (additem_fields mode p st).2.1
  split <;> exact ⟨rfl, rfl, rfl, hpass⟩

/-- The entry of the running callback keeps its application. -/
theorem Running.paras {ps : Pass} {st' : State} (hr : Running ps st) (ht : st'.tlist = st.tlist)
    (hl : st'.log = st.log) (happ : ∀ a x, st.Has a x → st'.app x = st.app x)
    (hcur : ∀ x, st.tlist[ps.i]? = some x → st'.app x = st.app x) : Running ps st' := by
  obtain hdef | ⟨x, hx, hmode, hrun⟩ := hr
  · exact .inl hdef
  refine .inr ⟨x, ht ▸ hx, hmode, ?_⟩
  rw [hcur x hx, hl]
  refine hrun.imp id ?_
  rintro ⟨hf, hno⟩
  refine ⟨hf, fun b y hy => ?_⟩
  have hy' : st.Has b y := by
    rw [State.Has, ← ht]
    exact hy
  rw [happ b y hy']
  exact hno b y hy'

theorem Running.congr {ps : Pass} {st' : State} (hr : Running ps st) (ht : st'.tlist = st.tlist)
    (hp : st'.paras = st.paras) (hl : st'.log = st.log) : Running ps st' := by
  have happ : ∀ x, st'.app x = st.app x := by
    intro x
    rw [State.app, State.app, hp]
  exact hr.paras ht hl (fun _ x _ => happ x) fun x _ => happ x

/-- An application is added where this is all right. -/
theorem Sound.finishOpen (h : Sound st) (hok : addOk st mode p = true) :
    Sound (Gps.finishOpen mode p st) := by
  rw [addOk, Bool.and_eq_true] at hok
  obtain ⟨ht, hp, hl, hpass⟩ := finishOpen_fields mode p st
  unfold Sound at h ⊢
  rw [hpass]
  split at h
  · have hadd := h.additem hok.1 (by omega)
    exact hadd.congr ht hp hl
  · rename_i ps hps
    obtain ⟨hlat, hslot⟩ := lateral_spec hps h.1 hok.2
    exact ⟨(h.1.additem hok.1 hslot).congr ht hp hl, (h.2.additem h.1 hlat).congr ht hp hl⟩

end Adding

end LuatAir200.Gps
