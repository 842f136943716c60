import LuatAir200.WdtModel

/-!
# Normal feeds, resets and tests

Normal feeds never stop. The controller is reset after 20 high levels as long as `open` does
not come while polls are under way and the last poll does not read a low level: it decides
before it reads. A test makes three feeds unless it begins before the last poll, whose count it
takes over, or while a feed of an older test is due.
-/
namespace LuatAir200.Wdt
open Due Machine

/-! ## What is claimed, and when it holds -/

/-- After `open` and before `close` a normal feed is due. -/
def Fed (s : State) : Prop := s.opened = true → (s.clock.due (.feed .normal)).isSome = true

/-- Each reset came after 20 polls that all read a high level. -/
def ResetOk (s : State) : Prop := ∀ l ∈ s.resets, l = List.replicate 20 true

/-- Something of a test is due. -/
def TestDue (s : State) : Prop :=
  (s.clock.due (.feed .test)).isSome = true ∨ (s.clock.due (.feedend .test)).isSome = true ∨
    (s.clock.due (.getscm .test)).isSome = true

/-- The last test goes on or has made three feeds. -/
def TestOk (s : State) : Prop :=
  ∀ r ∈ s.round, if s.testing then r.feeds ≤ 3 ∧ TestDue s else r.feeds = 3

/-- `open` is not called while polls or a feed of a test are due, except during a test. -/
def openOk (s : State) : Act → Bool
  | .open => s.testing || [Timer.getscm .normal, .feed .test, .feedend .test, .getscm .test].all
      fun t => (s.clock.due t).isNone
  | _ => true

/-- The poll that decides to reset reads a high level. -/
def lastHigh (s : State) : Act → Bool
  | .expire (.getscm .normal) _ last => s.testing || 1 < s.get_scm_cnt || s.scm_active || last
  | _ => true

/-- A test does not begin before the last poll of a series, or when a feed of a test is due. -/
def testOk (s : State) : Act → Bool
  | .test => s.testing || (s.get_scm_cnt ≠ 1 && (s.clock.due (.feed .test)).isNone)
  | _ => true

/-! ## Durations -/

structure Base (s : State) : Prop where
  timely : s.clock.Timely
  cnt : 1 ≤ s.get_scm_cnt ∧ s.get_scm_cnt ≤ 20
  feed : ∀ x, s.clock.due (.feed .test) = some x → x ≤ s.clock.now + 100
  feedend : ∀ x, s.clock.due (.feedend .test) = some x → x ≤ s.clock.now + 2000
  getscm : ∀ x, s.clock.due (.getscm .test) = some x → x ≤ s.clock.now + 100

/-- The time left up to `d`, and `more`. -/
def left (now : ℕ) (d : Option ℕ) (more : ℕ) : ℕ :=
  match d with
  | none => 0
  | some x => x - now + more

/-- A bound on the time before a test makes its next feed or is over. -/
def rest (s : State) : ℕ :=
  left s.clock.now (s.clock.due (.feed .test)) 0 +
    left s.clock.now (s.clock.due (.feedend .test)) 2300 +
    left s.clock.now (s.clock.due (.getscm .test)) (100 * s.get_scm_cnt)

/-- The next normal feed is due later than that. -/
def Bounded (s : State) : Prop :=
  ∀ d, s.clock.due (.feed .normal) = some d → s.clock.now + rest s < d

theorem Base.rest_le {s : State} (h : Base s) : rest s ≤ 6500 := by
  have h1 := h.feed
  have h2 := h.feedend
  have h3 := h.getscm
  have h4 := h.cnt
  unfold rest
  cases hf : s.clock.due (.feed .test) <;> cases he : s.clock.due (.feedend .test) <;>
    cases hg : s.clock.due (.getscm .test) <;> simp [left, hf, he, hg] at * <;> omega

section Handlers

variable {s : State}

/-- Starting a timer of `wdt.lua` keeps the durations. -/
theorem Base.start (h : Base s) {t : Timer} {n : ℕ}
    (hf : t = .feed .test → n ≤ 100) (he : t = .feedend .test → n ≤ 2000)
    (hg : t = .getscm .test → n ≤ 100) : Base (start t n s) := by
  refine ⟨h.timely.start t n, h.cnt, ?_, ?_, ?_⟩
  · intro x hx
    by_cases ht : Timer.feed .test = t
    · obtain rfl : s.clock.now + n = x := by simpa [Wdt.start, ht] using hx
      exact Nat.add_le_add_left (hf ht.symm) _
    · exact h.feed x (by simpa [Wdt.start, ht] using hx)
  · intro x hx
    by_cases ht : Timer.feedend .test = t
    · obtain rfl : s.clock.now + n = x := by simpa [Wdt.start, ht] using hx
      exact Nat.add_le_add_left (he ht.symm) _
    · exact h.feedend x (by simpa [Wdt.start, ht] using hx)
  · intro x hx
    by_cases ht : Timer.getscm .test = t
    · obtain rfl : s.clock.now + n = x := by simpa [Wdt.start, ht] using hx
      exact Nat.add_le_add_left (hg ht.symm) _
    · exact h.getscm x (by simpa [Wdt.start, ht] using hx)

theorem Base.stop (h : Base s) (t : Timer) : Base (stop t s) := by
  refine ⟨h.timely.stop t, h.cnt, ?_, ?_, ?_⟩
  · intro x hx
    by_cases ht : Timer.feed .test = t
    · simp [Wdt.stop, ht] at hx
    · exact h.feed x (by simpa [Wdt.stop, ht] using hx)
  · intro x hx
    by_cases ht : Timer.feedend .test = t
    · simp [Wdt.stop, ht] at hx
    · exact h.feedend x (by simpa [Wdt.stop, ht] using hx)
  · intro x hx
    by_cases ht : Timer.getscm .test = t
    · simp [Wdt.stop, ht] at hx
    · exact h.getscm x (by simpa [Wdt.stop, ht] using hx)

/-- Only the clock and the counter matter. -/
theorem Base.congr {u : State} (h : Base s) (hc : u.clock = s.clock)
    (hn : 1 ≤ u.get_scm_cnt ∧ u.get_scm_cnt ≤ 20) : Base u := by
  refine ⟨?_, hn, ?_, ?_, ?_⟩ <;> rw [hc]
  · exact h.timely
  · exact h.feed
  · exact h.feedend
  · exact h.getscm

theorem feed_base (h : Base s) (tag : Tag) : Base (feed tag s) := by
  cases tag with
  | normal =>
      cases ht : s.testing with
      | true => rwa [feed_refused ht]
      | false =>
          rw [feed_normal ht]
          have h1 := h.start (t := .feed .normal) (n := 120000) nofun nofun nofun
          have h2 := h1.start (t := .feedend .normal) (n := 2000) nofun nofun nofun
          exact h2.congr rfl h.cnt
  | test =>
      rw [feed_test]
      have h1 := h.start (t := .feed .normal) (n := 120000) nofun nofun nofun
      have h2 := (h1.stop (.feedend .normal)).start (t := .feedend .test) (n := 2000)
        nofun (fun _ => Nat.le_refl _) nofun
      exact h2.congr rfl h.cnt

theorem feedend_base (h : Base s) (tag : Tag) : Base (feedend tag s) := by
  cases tag with
  | normal =>
      cases ht : s.testing with
      | true => rwa [feedend_refused ht]
      | false =>
          rw [feedend_normal ht]
          exact h.start nofun nofun nofun
  | test =>
      rw [feedend_test]
      exact (h.stop _).start nofun nofun fun _ => Nat.le_refl _

theorem getscm_base (h : Base s) (tag : Tag) (first last : Bool) :
    Base (getscm tag first last s) := by
  have hcnt := h.cnt
  cases tag with
  | normal =>
      cases ht : s.testing with
      | true => rwa [getscm_refused ht]
      | false =>
          by_cases hc : 1 < s.get_scm_cnt
          · rw [getscm_normal_on ht hc]
            have h1 := h.start (t := .getscm .normal) (n := 100) nofun nofun nofun
            refine h1.congr rfl ?_
            show 1 ≤ s.get_scm_cnt - 1 ∧ s.get_scm_cnt - 1 ≤ 20
            omega
          · rw [Nat.not_lt] at hc
            cases ha : s.scm_active with
            | true =>
                rw [getscm_normal_end ht hc ha]
                exact h.congr rfl (by simp)
            | false =>
                rw [getscm_normal_reset ht hc ha]
                have h1 := h.start (t := .setval) (n := 100) nofun nofun nofun
                exact h1.congr rfl (by simp)
  | test =>
      have h1 := h.stop (.getscm .normal)
      by_cases hc : 1 < s.get_scm_cnt
      · have hn : 1 ≤ s.get_scm_cnt - 1 ∧ s.get_scm_cnt - 1 ≤ 20 := by omega
        have h2 := h1.start (t := .getscm .test) (n := 100) nofun nofun fun _ => Nat.le_refl _
        cases first with
        | false =>
            rw [getscm_test_low hc]
            exact h2.congr rfl hn
        | true =>
            by_cases ht : s.testcnt < 2
            · rw [getscm_test_again hc ht]
              have h3 := h1.start (t := .feed .test) (n := 100) (fun _ => Nat.le_refl _) nofun nofun
              exact h3.congr rfl (by simp)
            · rw [getscm_test_done hc (Nat.not_lt.mp ht)]
              exact h2.congr rfl hn
      · rw [getscm_test_end (Nat.not_lt.mp hc)]
        exact h1.congr rfl (by simp)

theorem fire_base (h : Base s) (t : Timer) (first last : Bool) : Base (fire t first last s) := by
  cases t with
  | feed tag => exact feed_base h tag
  | feedend tag => exact feedend_base h tag
  | getscm tag => exact getscm_base h tag first last
  | setval => exact h.congr rfl h.cnt

theorem test_base (h : Base s) : Base (test s) := by
  cases ht : s.testing with
  | true => rwa [test_refused ht]
  | false =>
      rw [test_starts ht]
      apply feed_base
      exact h.congr rfl h.cnt

theorem close_base (s : State) : Base (close s) := by
  have hno : ∀ t x, (close s).clock.due t = some x → False := by
    intro t x hx
    rw [close_due] at hx
    cases hx
  exact ⟨fun t x hx => (hno t x hx).elim, by simp [close], fun x hx => (hno _ x hx).elim,
    fun x hx => (hno _ x hx).elim, fun x hx => (hno _ x hx).elim⟩

end Handlers

/-- What an action is, after time has passed or the expired timer is gone. -/
theorem step_eq {s t : State} {a : Act} (h : step s a = some t) :
    (a = .open ∧ t = open_ s) ∨ (a = .close ∧ t = close s) ∨ (a = .test ∧ t = test s) ∨
    (∃ ms, a = .pass ms ∧ t = { s with clock := { s.clock with now := s.clock.now + ms } } ∧
      ∀ k x, s.clock.due k = some x → s.clock.now + ms ≤ x) ∨
    ∃ k first last, a = .expire k first last ∧ s.clock.due k = some s.clock.now ∧
      t = fire k first last (stop k s) := by
  cases a with
  | «open» => exact .inl ⟨rfl, (Option.some.inj h).symm⟩
  | close => exact .inr (.inl ⟨rfl, (Option.some.inj h).symm⟩)
  | test => exact .inr (.inr (.inl ⟨rfl, (Option.some.inj h).symm⟩))
  | pass ms =>
      obtain ⟨c, hc, rfl⟩ := Option.map_eq_some_iff.mp h
      obtain ⟨rfl, hd⟩ := pass_eq hc mem_timers
      exact .inr (.inr (.inr (.inl ⟨ms, rfl, rfl, hd⟩)))
  | expire k first last =>
      obtain ⟨c, hc, rfl⟩ := Option.map_eq_some_iff.mp h
      obtain ⟨hd, rfl⟩ := expire_eq hc
      exact .inr (.inr (.inr (.inr ⟨k, first, last, rfl, hd, rfl⟩)))

theorem step_base {s t : State} (h : Base s) {a : Act} (hst : step s a = some t) : Base t := by
  obtain ⟨-, rfl⟩ | ⟨-, rfl⟩ | ⟨-, rfl⟩ | ⟨ms, -, rfl, hd⟩ | ⟨k, first, last, -, -, rfl⟩ :=
    step_eq hst
  · exact (feed_base h .normal).congr rfl (feed_base h .normal).cnt
  · exact close_base s
  · exact test_base h
  · refine ⟨fun k x hx => hd k x hx, h.cnt, ?_, ?_, ?_⟩
    · intro x hx
      have := h.feed x hx
      show x ≤ s.clock.now + ms + 100
      omega
    · intro x hx
      have := h.feedend x hx
      show x ≤ s.clock.now + ms + 2000
      omega
    · intro x hx
      have := h.getscm x hx
      show x ≤ s.clock.now + ms + 100
      omega
  · exact fire_base (h.stop k) k first last

/-! ## Normal feeding -/

section Bounds

variable {s : State}

/-- After a feed the next normal one is two minutes away. -/
theorem Base.bounded (h : Base s)
    (hd : s.clock.due (.feed .normal) = some (s.clock.now + 120000)) : Bounded s := by
  intro d hn
  obtain rfl := Option.some.inj (hd.symm.trans hn)
  have := h.rest_le
  omega

theorem feed_due (tag : Tag) (h : tag = .normal → s.testing = false) :
    (feed tag s).clock.now = s.clock.now ∧
      (feed tag s).clock.due (.feed .normal) = some (s.clock.now + 120000) := by
  cases tag with
  | normal =>
      rw [feed_normal (h rfl)]
      simp [start]
  | test =>
      rw [feed_test]
      simp [start, stop]

theorem feed_bounded (h : Base s) (tag : Tag) (ht : tag = .normal → s.testing = false) :
    Bounded (feed tag s) := by
  obtain ⟨hn, hd⟩ := feed_due tag ht
  exact (feed_base h tag).bounded (by rw [hn, hd])

/-- A poll of a test takes no more time than was left. -/
theorem getscm_bounded (h : Bounded s) (hd : s.clock.due (.getscm .test) = some s.clock.now)
    (first last : Bool) : Bounded (getscm .test first last (stop (.getscm .test) s)) := by
  intro d hn
  have hs : ∀ d, s.clock.due (.feed .normal) = some d → s.clock.now + rest s < d := h
  by_cases hc : 1 < (stop (.getscm .test) s).get_scm_cnt
  · have hc' : 1 < s.get_scm_cnt := hc
    cases first with
    | false =>
        rw [getscm_test_low hc] at hn ⊢
        have := hs d (by simpa [start, stop] using hn)
        simp [rest, start, stop, left, hd] at this ⊢
        omega
    | true =>
        by_cases ht : (stop (.getscm .test) s).testcnt < 2
        · rw [getscm_test_again hc ht] at hn ⊢
          have := hs d (by simpa [start, stop] using hn)
          simp [rest, start, stop, left, hd] at this ⊢
          omega
        · rw [getscm_test_done hc (Nat.not_lt.mp ht)] at hn ⊢
          have := hs d (by simpa [start, stop] using hn)
          simp [rest, start, stop, left, hd] at this ⊢
          omega
  · rw [getscm_test_end (Nat.not_lt.mp hc)] at hn ⊢
    have := hs d (by simpa [start, stop] using hn)
    simp [rest, stop, left] at this ⊢
    omega

theorem feedend_bounded (hb : Base s) (h : Bounded s)
    (hd : s.clock.due (.feedend .test) = some s.clock.now) :
    Bounded (feedend .test (stop (.feedend .test) s)) := by
  intro d hn
  have hcnt := hb.cnt
  have hs : ∀ d, s.clock.due (.feed .normal) = some d → s.clock.now + rest s < d := h
  rw [feedend_test] at hn ⊢
  have := hs d (by simpa [start, stop] using hn)
  simp [rest, start, stop, left, hd] at this ⊢
  omega

theorem left_pass {now ms n : ℕ} {d : Option ℕ} (h : ∀ x, d = some x → now + ms ≤ x) :
    left (now + ms) d n + (if d.isSome then ms else 0) = left now d n := by
  cases d with
  | none => rfl
  | some x =>
      have := h x rfl
      simp only [left, Option.isSome_some, if_true]
      omega

theorem pass_bounded (h : Bounded s) (ht : TestDue s) {ms : ℕ}
    (hd : ∀ k x, s.clock.due k = some x → s.clock.now + ms ≤ x) :
    Bounded { s with clock := { s.clock with now := s.clock.now + ms } } := by
  intro d hn
  have hs := h d hn
  have h1 := left_pass (n := 0) (hd (.feed .test))
  have h2 := left_pass (n := 2300) (hd (.feedend .test))
  have h3 := left_pass (n := 100 * s.get_scm_cnt) (hd (.getscm .test))
  simp only [rest] at hs ⊢
  obtain ht | ht | ht := ht <;> simp only [ht, if_true] at h1 h2 h3 <;> omega

/-- Only the test's timers, the next normal feed and the counter matter. -/
theorem Bounded.congr {u : State} (h : Bounded s) (hn : u.clock.now = s.clock.now)
    (hc : u.get_scm_cnt = s.get_scm_cnt)
    (hd : ∀ t, t ∈ [Timer.feed .normal, .feed .test, .feedend .test, .getscm .test] →
      u.clock.due t = s.clock.due t) : Bounded u := by
  intro d hdue
  rw [hd _ (by simp)] at hdue
  have := h d hdue
  unfold rest at this ⊢
  rwa [hn, hc, hd (.feed .test) (by simp), hd (.feedend .test) (by simp),
    hd (.getscm .test) (by simp)]

end Bounds

structure Feeding (s : State) : Prop where
  base : Base s
  fed : Fed s
  opened : s.testing = true → s.opened = true
  due : s.testing = true → TestDue s
  bounded : s.testing = true → Bounded s

section Feeding

variable {s : State}

/-- What is left alone by a handler that has nothing to do with tests. -/
theorem Feeding.congr {u : State} (h : Feeding s) (hb : Base u) (ho : u.opened = s.opened)
    (ht : u.testing = s.testing) (hn : u.clock.now = s.clock.now)
    (hc : u.testing = true → u.get_scm_cnt = s.get_scm_cnt)
    (hd : ∀ t, t ∈ [Timer.feed .normal, .feed .test, .feedend .test, .getscm .test] →
      u.clock.due t = s.clock.due t) : Feeding u := by
  refine ⟨hb, ?_, ?_, ?_, ?_⟩
  · intro hu
    rw [hd _ (by simp)]
    exact h.fed (ho ▸ hu)
  · intro hu
    rw [ho]
    exact h.opened (ht ▸ hu)
  · intro hu
    have := h.due (ht ▸ hu)
    unfold TestDue at this ⊢
    rwa [hd (.feed .test) (by simp), hd (.feedend .test) (by simp), hd (.getscm .test) (by simp)]
  · intro hu
    exact (h.bounded (ht ▸ hu)).congr hn (hc hu) hd

/-- While testing the time of the next normal feed does not come. -/
theorem Feeding.early (h : Feeding s) (hd : s.clock.due (.feed .normal) = some s.clock.now) :
    s.testing = false := by
  cases ht : s.testing with
  | false => rfl
  | true =>
      have := h.bounded ht _ hd
      omega

theorem feeding_feed (h : Base s) (tag : Tag) (ht : tag = .normal → s.testing = false)
    (ho : s.testing = true → s.opened = true) : Feeding (feed tag s) := by
  refine ⟨feed_base h tag, ?_, ?_, ?_, fun _ => feed_bounded h tag ht⟩
  · intro _
    simp [(feed_due tag ht).2]
  · intro hu
    cases tag with
    | normal =>
        rw [feed_normal (ht rfl)] at hu ⊢
        exact ho hu
    | test =>
        rw [feed_test] at hu ⊢
        exact ho hu
  · intro hu
    cases tag with
    | normal =>
        rw [feed_normal (ht rfl)] at hu
        exact absurd ((ht rfl).symm.trans hu) Bool.false_ne_true
    | test =>
        rw [feed_test]
        exact .inr (.inl (by simp [start]))

theorem feeding_feedend (h : Feeding s) (tag : Tag)
    (hd : s.clock.due (.feedend tag) = some s.clock.now) :
    Feeding (feedend tag (stop (.feedend tag) s)) := by
  have hb := feedend_base (h.base.stop (.feedend tag)) tag
  cases tag with
  | normal =>
      cases ht : s.testing with
      | true =>
          rw [@feedend_refused (stop _ s) ht] at hb ⊢
          exact h.congr hb rfl rfl rfl (fun _ => rfl) (by simp [stop])
      | false =>
          rw [@feedend_normal (stop _ s) ht] at hb ⊢
          exact h.congr hb rfl rfl rfl (fun _ => rfl) (by simp [start, stop])
  | test =>
      refine ⟨hb, ?_, ?_, ?_, fun hu => feedend_bounded h.base (h.bounded hu) hd⟩
      · intro hu
        rw [feedend_test]
        simpa [start, stop] using h.fed hu
      · exact h.opened
      · intro _
        rw [feedend_test]
        exact .inr (.inr (by simp [start]))

theorem feeding_getscm (h : Feeding s) (tag : Tag) (first last : Bool)
    (hd : s.clock.due (.getscm tag) = some s.clock.now) :
    Feeding (getscm tag first last (stop (.getscm tag) s)) := by
  have hb := getscm_base (h.base.stop (.getscm tag)) tag first last
  cases tag with
  | normal =>
      cases ht : s.testing with
      | true =>
          rw [@getscm_refused (stop _ s) ht] at hb ⊢
          exact h.congr hb rfl rfl rfl (fun _ => rfl) (by simp [stop])
      | false =>
          have hno : ¬s.testing = true := by simp [ht]
          by_cases hc : 1 < s.get_scm_cnt
          · rw [@getscm_normal_on (stop _ s) ht hc] at hb ⊢
            exact h.congr hb rfl rfl rfl (fun hu => absurd hu hno) (by simp [start, stop])
          · cases ha : s.scm_active with
            | true =>
                rw [@getscm_normal_end (stop _ s) ht (Nat.not_lt.mp hc) ha] at hb ⊢
                exact h.congr hb rfl rfl rfl (fun hu => absurd hu hno) (by simp [stop])
            | false =>
                rw [@getscm_normal_reset (stop _ s) ht (Nat.not_lt.mp hc) ha] at hb ⊢
                exact h.congr hb rfl rfl rfl (fun hu => absurd hu hno) (by simp [start, stop])
  | test =>
      have hbound : s.testing = true →
          Bounded (getscm .test first last (stop (.getscm .test) s)) :=
        fun hu => getscm_bounded (h.bounded hu) hd first last
      have hfed : s.opened = true → (s.clock.due (.feed .normal)).isSome = true := h.fed
      by_cases hc : 1 < (stop (.getscm .test) s).get_scm_cnt
      · cases first with
        | false =>
            rw [getscm_test_low hc] at hb hbound ⊢
            refine ⟨hb, ?_, h.opened, ?_, hbound⟩
            · intro hu
              simpa [start, stop] using hfed hu
            · exact fun _ => .inr (.inr (by simp [start]))
        | true =>
            by_cases ht : (stop (.getscm .test) s).testcnt < 2
            · rw [getscm_test_again hc ht] at hb hbound ⊢
              refine ⟨hb, ?_, h.opened, ?_, hbound⟩
              · intro hu
                simpa [start, stop] using hfed hu
              · exact fun _ => .inl (by simp [start])
            · rw [getscm_test_done hc (Nat.not_lt.mp ht)] at hb ⊢
              refine ⟨hb, ?_, ?_, ?_, ?_⟩
              · intro hu
                simpa [start, stop] using hfed hu
              all_goals exact fun hu => absurd hu Bool.false_ne_true
      · rw [getscm_test_end (Nat.not_lt.mp hc)] at hb ⊢
        refine ⟨hb, ?_, ?_, ?_, ?_⟩
        · intro hu
          simpa [stop] using hfed hu
        all_goals exact fun hu => absurd hu Bool.false_ne_true

theorem step_feeding {t : State} (h : Feeding s) {a : Act} (hst : step s a = some t) :
    Feeding t := by
  have hbt := step_base h.base hst
  obtain ⟨-, rfl⟩ | ⟨-, rfl⟩ | ⟨-, rfl⟩ | ⟨ms, -, rfl, hd⟩ | ⟨k, first, last, -, hd, rfl⟩ :=
    step_eq hst
  · cases ht : s.testing with
    | true =>
        have hs : open_ s = { s with opened := true } := by rw [open_, feed_refused ht]
        rw [hs] at hbt ⊢
        exact h.congr hbt (h.opened ht).symm rfl rfl (fun _ => rfl) fun _ _ => rfl
    | false =>
        have hf := feeding_feed h.base .normal (fun _ => ht) h.opened
        exact ⟨hbt, fun _ => by simp [open_, (feed_due .normal fun _ => ht).2], fun _ => rfl,
          hf.due, hf.bounded⟩
  · exact ⟨hbt, fun hu => absurd hu Bool.false_ne_true, fun hu => absurd hu Bool.false_ne_true,
      fun hu => absurd hu Bool.false_ne_true, fun hu => absurd hu Bool.false_ne_true⟩
  · cases ht : s.testing with
    | true => rwa [test_refused ht]
    | false =>
        rw [test_starts ht]
        refine feeding_feed ?_ .test nofun fun _ => rfl
        exact h.base.congr rfl h.base.cnt
  · exact ⟨hbt, h.fed, h.opened, h.due, fun hu => pass_bounded (h.bounded hu) (h.due hu) hd⟩
  · cases k with
    | feed tag =>
        cases tag with
        | normal =>
            have ht := h.early hd
            exact feeding_feed (h.base.stop _) .normal (fun _ => ht) h.opened
        | test => exact feeding_feed (h.base.stop _) .test nofun h.opened
    | feedend tag => exact feeding_feedend h tag hd
    | getscm tag => exact feeding_getscm h tag first last hd
    | setval => exact h.congr hbt rfl rfl rfl (fun _ => rfl) (by simp [fire, stop])

end Feeding

/-! ## Resets -/

/-- Nothing is read. -/
structure Quiet (s : State) : Prop where
  testing : s.testing = false
  noTest : ¬TestDue s
  getscm : s.clock.due (.getscm .normal) = none
  feedend : s.clock.due (.feedend .normal) = none
  cnt : s.get_scm_cnt = 20

/-- A test has taken over; a normal poll that is still due will be refused. -/
structure Tests (s : State) : Prop where
  due : TestDue s
  bounded : Bounded s
  feedend : s.clock.due (.feedend .normal) = none
  getscm : s.testing = false → s.clock.due (.getscm .normal) = none

/-- A normal feed goes on. -/
structure Waits (s : State) : Prop where
  testing : s.testing = false
  noTest : ¬TestDue s
  getscm : s.clock.due (.getscm .normal) = none
  feedend : ∃ e, s.clock.due (.feedend .normal) = some e ∧
    ∀ d, s.clock.due (.feed .normal) = some d → e + 2200 < d
  cnt : s.get_scm_cnt = 20
  levels : s.levels = []

/-- The polls after a normal feed; without a low level so far `scm_active` is unset. -/
structure Polls (s : State) : Prop where
  testing : s.testing = false
  noTest : ¬TestDue s
  getscm : ∃ g, s.clock.due (.getscm .normal) = some g ∧
    ∀ d, s.clock.due (.feed .normal) = some d → g + 100 * s.get_scm_cnt < d
  feedend : s.clock.due (.feedend .normal) = none
  cnt : s.levels.length + s.get_scm_cnt = 20
  levels : s.scm_active = false → s.levels = List.replicate s.levels.length true

def Cycle (s : State) : Prop :=
  Base s ∧ ResetOk s ∧ (Quiet s ∨ Tests s ∨ Waits s ∨ Polls s)

section Cycle

variable {s : State}

theorem Quiet.feed (h : Quiet s) : Waits (feed .normal s) := by
  have hno := h.noTest
  unfold TestDue at hno
  rw [feed_normal h.testing]
  refine ⟨h.testing, ?_, ?_, ⟨s.clock.now + 2000, ?_, ?_⟩, h.cnt, rfl⟩
  · simpa [TestDue, start] using hno
  · simpa [start] using h.getscm
  · simp [start]
  · intro d hd
    obtain rfl : s.clock.now + 120000 = d := by simpa [start] using hd
    omega

/-- A feed of a test ends what was under way. -/
theorem feed_tests (hb : Base s) (h : s.testing = false → s.clock.due (.getscm .normal) = none) :
    Tests (feed .test s) := by
  refine ⟨?_, feed_bounded hb .test nofun, ?_, ?_⟩
  · rw [feed_test]
    exact .inr (.inl (by simp [start]))
  · rw [feed_test]
    simp [start, stop]
  · intro ht
    rw [feed_test] at ht ⊢
    simpa [start, stop] using h ht

theorem Waits.polls (h : Waits s) (hd : s.clock.due (.feedend .normal) = some s.clock.now) :
    Polls (Wdt.feedend .normal (stop (.feedend .normal) s)) := by
  have hno := h.noTest
  obtain ⟨e, he, hbound⟩ := h.feedend
  obtain rfl : s.clock.now = e := Option.some.inj (hd.symm.trans he)
  unfold TestDue at hno
  rw [@feedend_normal (stop _ s) h.testing]
  refine ⟨h.testing, ?_, ⟨s.clock.now + 100, ?_, ?_⟩, ?_, ?_, ?_⟩
  · simpa [TestDue, start, stop] using hno
  · simp [start, stop]
  · intro d hdue
    have hlt := hbound d (by simpa [start, stop] using hdue)
    show s.clock.now + 100 + 100 * s.get_scm_cnt < d
    rw [h.cnt]
    omega
  · simp [start, stop]
  · simp [start, stop, h.levels, h.cnt]
  · intro _
    simp [start, stop, h.levels]

theorem replicate_snoc {l : List Bool} {b : Bool} :
    l ++ [b] = List.replicate (l ++ [b]).length true ↔
      l = List.replicate l.length true ∧ b = true := by
  rw [List.eq_replicate_iff, List.eq_replicate_iff]
  simp [or_imp, forall_and]

/-- A poll that does not decide. -/
theorem Polls.on (h : Polls s) (hc : 1 < s.get_scm_cnt)
    (hd : s.clock.due (.getscm .normal) = some s.clock.now) (first last : Bool) :
    Polls (Wdt.getscm .normal first last (stop (.getscm .normal) s)) := by
  have hno := h.noTest
  obtain ⟨g, hg, hbound⟩ := h.getscm
  obtain rfl : s.clock.now = g := Option.some.inj (hd.symm.trans hg)
  unfold TestDue at hno
  rw [@getscm_normal_on (stop _ s) h.testing hc]
  refine ⟨h.testing, ?_, ⟨s.clock.now + 100, ?_, ?_⟩, ?_, ?_, ?_⟩
  · simpa [TestDue, start, stop] using hno
  · simp [start, stop]
  · intro d hdue
    have hlt := hbound d (by simpa [start, stop] using hdue)
    show s.clock.now + 100 + 100 * (s.get_scm_cnt - 1) < d
    omega
  · simpa [start, stop] using h.feedend
  · have := h.cnt
    show (s.levels ++ [last]).length + (s.get_scm_cnt - 1) = 20
    rw [List.length_append, List.length_singleton]
    omega
  · intro ha
    obtain ⟨ha', hl⟩ : s.scm_active = false ∧ last = true := by simpa [start, stop] using ha
    exact replicate_snoc.mpr ⟨h.levels ha', hl⟩

/-- The deciding poll. -/
theorem Polls.decide (h : Polls s) (hr : ResetOk s) (hc : s.get_scm_cnt ≤ 1) (hb : Base s)
    (first last : Bool) :
    Quiet (Wdt.getscm .normal first last (stop (.getscm .normal) s)) ∧
      (ResetOk (Wdt.getscm .normal first last (stop (.getscm .normal) s)) ↔
        (s.scm_active || last) = true) := by
  have hno := h.noTest
  unfold TestDue at hno
  have hcnt := hb.cnt
  cases ha : s.scm_active with
  | true =>
      rw [@getscm_normal_end (stop _ s) h.testing hc ha]
      refine ⟨⟨h.testing, ?_, ?_, ?_, rfl⟩, ?_⟩
      · simpa [TestDue, stop] using hno
      · simp [stop]
      · simpa [stop] using h.feedend
      · exact ⟨fun _ => rfl, fun _ => hr⟩
  | false =>
      rw [@getscm_normal_reset (stop _ s) h.testing hc ha]
      refine ⟨⟨h.testing, ?_, ?_, ?_, rfl⟩, ?_⟩
      · simpa [TestDue, start, stop] using hno
      · simp [start, stop]
      · simpa [start, stop] using h.feedend
      · have hl : (s.levels ++ [last]).length = 20 := by
          have := h.cnt
          rw [List.length_append, List.length_singleton]
          omega
        have hall := @replicate_snoc s.levels last
        rw [hl] at hall
        constructor
        · intro hok
          have := hok _ (List.mem_append_right _ (List.mem_singleton_self _))
          simpa using (hall.mp this).2
        · intro hlast l hm
          obtain hm | hm := List.mem_append.mp hm
          · exact hr l hm
          · obtain rfl := List.mem_singleton.mp hm
            exact hall.mpr ⟨h.levels ha, by simpa using hlast⟩

theorem feed_resets (tag : Tag) : (feed tag s).resets = s.resets := by
  cases tag with
  | normal =>
      cases ht : s.testing with
      | true => rw [feed_refused ht]
      | false =>
          rw [feed_normal ht]
          rfl
  | test =>
      rw [feed_test]
      rfl

/-- Polls and feeds of a test. -/
theorem Tests.feedend_test (h : Tests s) (hb : Base s)
    (hd : s.clock.due (.feedend .test) = some s.clock.now) :
    Tests (Wdt.feedend .test (stop (.feedend .test) s)) := by
  refine ⟨?_, feedend_bounded hb h.bounded hd, ?_, ?_⟩
  · rw [Wdt.feedend_test]
    exact .inr (.inr (by simp [start]))
  · rw [Wdt.feedend_test]
    simpa [start, stop] using h.feedend
  · intro _
    rw [Wdt.feedend_test]
    simp [start, stop]

theorem Tests.getscm_test (h : Tests s) (hd : s.clock.due (.getscm .test) = some s.clock.now)
    (first last : Bool) :
    (Quiet (Wdt.getscm .test first last (stop (.getscm .test) s)) ∨
      Tests (Wdt.getscm .test first last (stop (.getscm .test) s))) ∧
    (Wdt.getscm .test first last (stop (.getscm .test) s)).resets = s.resets := by
  have hbound := getscm_bounded h.bounded hd first last
  by_cases hc : 1 < (stop (.getscm .test) s).get_scm_cnt
  · cases first with
    | false =>
        rw [getscm_test_low hc] at hbound ⊢
        refine ⟨.inr ⟨.inr (.inr ?_), hbound, ?_, fun _ => ?_⟩, rfl⟩
        · simp [start]
        · simpa [start, stop] using h.feedend
        · simp [start, stop]
    | true =>
        by_cases ht : (stop (.getscm .test) s).testcnt < 2
        · rw [getscm_test_again hc ht] at hbound ⊢
          refine ⟨.inr ⟨.inl ?_, hbound, ?_, fun _ => ?_⟩, rfl⟩
          · simp [start]
          · simpa [start, stop] using h.feedend
          · simp [start, stop]
        · rw [getscm_test_done hc (Nat.not_lt.mp ht)] at hbound ⊢
          refine ⟨.inr ⟨.inr (.inr ?_), hbound, ?_, fun _ => ?_⟩, rfl⟩
          · simp [start]
          · simpa [start, stop] using h.feedend
          · simp [start, stop]
  · rw [getscm_test_end (Nat.not_lt.mp hc)] at hbound ⊢
    refine ⟨?_, rfl⟩
    by_cases hdue : (s.clock.due (.feed .test)).isSome = true ∨
        (s.clock.due (.feedend .test)).isSome = true
    · refine .inr ⟨?_, hbound, ?_, fun _ => ?_⟩
      · simpa [TestDue, stop] using hdue
      · simpa [stop] using h.feedend
      · simp [stop]
    · refine .inl ⟨rfl, ?_, ?_, ?_, rfl⟩
      · simpa [TestDue, stop] using hdue
      · simp [stop]
      · simpa [stop] using h.feedend

/-- A feed that is due belongs to a quiet time. -/
theorem Cycle.quiet (h : Quiet s ∨ Tests s ∨ Waits s ∨ Polls s) (hb : Base s)
    (hd : s.clock.due (.feed .normal) = some s.clock.now) : Quiet s := by
  obtain h | h | h | h := h
  · exact h
  · exact absurd (h.bounded _ hd) (by omega)
  · obtain ⟨e, he, hbound⟩ := h.feedend
    have h1 := hbound _ hd
    have h2 := hb.timely _ _ he
    omega
  · obtain ⟨g, hg, hbound⟩ := h.getscm
    have h1 := hbound _ hd
    have h2 := hb.timely _ _ hg
    omega

theorem TestDue.tests {t : Timer} (ht : t ∈ [Timer.feed .test, .feedend .test, .getscm .test])
    (h : Quiet s ∨ Tests s ∨ Waits s ∨ Polls s) (hd : s.clock.due t = some s.clock.now) :
    Tests s := by
  have hdue : TestDue s := by
    simp only [List.mem_cons, List.not_mem_nil, or_false] at ht
    obtain rfl | rfl | rfl := ht <;> simp [TestDue, hd]
  obtain h | h | h | h := h
  · exact absurd hdue h.noTest
  · exact h
  · exact absurd hdue h.noTest
  · exact absurd hdue h.noTest

theorem TestDue.congr {u : State} (hd : ∀ t, t ≠ .setval → u.clock.due t = s.clock.due t) :
    TestDue u ↔ TestDue s := by
  rw [TestDue, TestDue, hd (.feed .test) nofun, hd (.feedend .test) nofun, hd (.getscm .test) nofun]

/-- The timer that releases the reset pin does not matter. -/
theorem Cycle.congr {u : State} (h : Cycle s) (hb : Base u) (hn : u.clock.now = s.clock.now)
    (hd : ∀ t, t ≠ .setval → u.clock.due t = s.clock.due t) (ht : u.testing = s.testing)
    (ha : u.scm_active = s.scm_active) (hc : u.get_scm_cnt = s.get_scm_cnt)
    (hl : u.levels = s.levels) (hr : u.resets = s.resets) : Cycle u := by
  have hdue := TestDue.congr hd
  have hbound : Bounded s → Bounded u := by
    intro hbs
    apply hbs.congr hn hc
    intro t hm
    apply hd
    rintro rfl
    simp at hm
  have hg := hd (.getscm .normal) nofun
  have he := hd (.feedend .normal) nofun
  have hf := hd (.feed .normal) nofun
  obtain ⟨-, hok, h⟩ := h
  refine ⟨hb, by rwa [ResetOk, hr], ?_⟩
  obtain h | h | h | h := h
  · exact .inl ⟨ht.trans h.testing, mt hdue.mp h.noTest, hg.trans h.getscm, he.trans h.feedend,
      hc.trans h.cnt⟩
  · exact .inr (.inl ⟨hdue.mpr h.due, hbound h.bounded, he.trans h.feedend,
      fun hu => hg.trans (h.getscm (ht.symm.trans hu))⟩)
  · obtain ⟨e, hes, hlt⟩ := h.feedend
    exact .inr (.inr (.inl ⟨ht.trans h.testing, mt hdue.mp h.noTest, hg.trans h.getscm,
      ⟨e, he.trans hes, fun d hud => hlt d (hf.symm.trans hud)⟩, hc.trans h.cnt,
      hl.trans h.levels⟩))
  · obtain ⟨g, hgs, hlt⟩ := h.getscm
    refine .inr (.inr (.inr ⟨ht.trans h.testing, mt hdue.mp h.noTest,
      ⟨g, hg.trans hgs, ?_⟩, he.trans h.feedend, ?_, ?_⟩))
    · intro d hud
      rw [hc]
      exact hlt d (hf.symm.trans hud)
    · rw [hl, hc]
      exact h.cnt
    · rw [hl, ha]
      exact h.levels

theorem Cycle.pass (h : Cycle s) {ms : ℕ} (hd : ∀ k x, s.clock.due k = some x → s.clock.now + ms ≤ x)
    (hb : Base { s with clock := { s.clock with now := s.clock.now + ms } }) :
    Cycle { s with clock := { s.clock with now := s.clock.now + ms } } := by
  obtain ⟨-, hok, h⟩ := h
  refine ⟨hb, hok, ?_⟩
  obtain h | h | h | h := h
  · exact .inl ⟨h.testing, h.noTest, h.getscm, h.feedend, h.cnt⟩
  · exact .inr (.inl ⟨h.due, pass_bounded h.bounded h.due hd, h.feedend, h.getscm⟩)
  · exact .inr (.inr (.inl ⟨h.testing, h.noTest, h.getscm, h.feedend, h.cnt, h.levels⟩))
  · exact .inr (.inr (.inr ⟨h.testing, h.noTest, h.getscm, h.feedend, h.cnt, h.levels⟩))

/-- `open` at a permitted time. -/
theorem Cycle.openQuiet (h : Cycle s) (ht : s.testing = false) (ho : openOk s .open = true) :
    Waits (feed .normal s) := by
  obtain ⟨hg, hno⟩ : s.clock.due (.getscm .normal) = none ∧ ¬TestDue s := by
    simpa [openOk, ht, TestDue, and_assoc] using ho
  obtain ⟨-, -, h | h | h | h⟩ := h
  · exact h.feed
  · exact absurd h.due hno
  · -- a feed that is under way begins anew
    unfold TestDue at hno
    rw [feed_normal ht]
    refine ⟨ht, ?_, ?_, ⟨s.clock.now + 2000, ?_, ?_⟩, h.cnt, rfl⟩
    · simpa [TestDue, start] using hno
    · simpa [start] using hg
    · simp [start]
    · intro d hd
      obtain rfl : s.clock.now + 120000 = d := by simpa [start] using hd
      omega
  · obtain ⟨g, hgs, -⟩ := h.getscm
    rw [hg] at hgs
    cases hgs

/-- A normal poll: refused during a test, one that goes on, or the deciding one. -/
theorem Cycle.normalPoll (h : Cycle s) {first last : Bool}
    (hb : Base (getscm .normal first last (stop (.getscm .normal) s)))
    (hd : s.clock.due (.getscm .normal) = some s.clock.now) :
    (lastHigh s (.expire (.getscm .normal) first last) = true →
      Cycle (getscm .normal first last (stop (.getscm .normal) s))) ∧
    (ResetOk (getscm .normal first last (stop (.getscm .normal) s)) →
      lastHigh s (.expire (.getscm .normal) first last) = true) := by
  obtain ⟨hbase, hok, hph⟩ := h
  cases ht : s.testing with
  | true =>
      have htests : Tests s := by
        obtain hph | hph | hph | hph := hph
        · cases hph.testing.symm.trans ht
        · exact hph
        · cases hph.testing.symm.trans ht
        · cases hph.testing.symm.trans ht
      rw [@getscm_refused (stop _ s) ht] at hb ⊢
      refine ⟨fun _ => ⟨hb, hok, .inr (.inl ⟨?_, ?_, ?_, ?_⟩)⟩, fun _ => by simp [lastHigh, ht]⟩
      · simpa [TestDue, stop] using htests.due
      · exact htests.bounded.congr rfl rfl (by simp [stop])
      · simpa [stop] using htests.feedend
      · simp [stop]
  | false =>
      have hp : Polls s := by
        obtain hph | hph | hph | hph := hph
        · cases hph.getscm.symm.trans hd
        · cases (hph.getscm ht).symm.trans hd
        · cases hph.getscm.symm.trans hd
        · exact hph
      by_cases hc : 1 < s.get_scm_cnt
      · have hon := hp.on hc hd first last
        refine ⟨fun _ => ⟨hb, ?_, .inr (.inr (.inr hon))⟩, fun _ => by simp [lastHigh, hc]⟩
        rw [@getscm_normal_on (stop _ s) ht hc]
        exact hok
      · obtain ⟨hq, hr⟩ := hp.decide hok (Nat.not_lt.mp hc) hbase first last
        have hl : lastHigh s (.expire (.getscm .normal) first last) = (s.scm_active || last) := by
          simp [lastHigh, ht, hc]
        rw [hl]
        exact ⟨fun hlast => ⟨hb, hr.mpr hlast, .inl hq⟩, hr.mp⟩

/-- One step, with `open` at permitted times only. -/
theorem step_cycle {t : State} (h : Cycle s) {a : Act} (ho : openOk s a = true)
    (hst : step s a = some t) :
    (lastHigh s a = true → Cycle t) ∧ (ResetOk t → lastHigh s a = true) := by
  have hbt := step_base h.1 hst
  have hok := h.2.1
  obtain ⟨rfl, rfl⟩ | ⟨rfl, rfl⟩ | ⟨rfl, rfl⟩ | ⟨ms, rfl, rfl, hd⟩ | ⟨k, first, last, rfl, hd, rfl⟩ :=
    step_eq hst
  · refine ⟨fun _ => ?_, fun _ => rfl⟩
    cases ht : s.testing with
    | true =>
        have hs : open_ s = { s with opened := true } := by rw [open_, feed_refused ht]
        rw [hs] at hbt ⊢
        exact h.congr hbt rfl (fun _ _ => rfl) rfl rfl rfl rfl rfl
    | false =>
        have hw := h.openQuiet ht ho
        refine ⟨hbt, by rwa [ResetOk, show (open_ s).resets = s.resets from feed_resets .normal], ?_⟩
        exact .inr (.inr (.inl ⟨hw.testing, hw.noTest, hw.getscm, hw.feedend, hw.cnt, hw.levels⟩))
  · refine ⟨fun _ => ⟨hbt, hok, .inl ⟨rfl, ?_, close_due _, close_due _, rfl⟩⟩, fun _ => rfl⟩
    simp [TestDue, close_due]
  · refine ⟨fun _ => ?_, fun _ => rfl⟩
    cases ht : s.testing with
    | true => rwa [test_refused ht]
    | false =>
        rw [test_starts ht] at hbt ⊢
        refine ⟨hbt, by rwa [ResetOk, feed_resets], .inr (.inl (feed_tests ?_ ?_))⟩
        · exact h.1.congr rfl h.1.cnt
        · intro hu
          cases hu
  · exact ⟨fun _ => h.pass hd hbt, fun _ => rfl⟩
  · have hph := h.2.2
    have hres : ResetOk (stop k s) := hok
    cases k with
    | feed tag =>
        have hr : ResetOk (feed tag (stop (.feed tag) s)) := by rwa [ResetOk, feed_resets]
        refine ⟨fun _ => ⟨hbt, hr, ?_⟩, fun _ => rfl⟩
        cases tag with
        | normal =>
            have hq := Cycle.quiet hph h.1 hd
            have hno := hq.noTest
            have hq' : Quiet (stop (.feed .normal) s) := by
              refine ⟨hq.testing, ?_, ?_, ?_, hq.cnt⟩
              · simpa [TestDue, stop] using hno
              · simpa [stop] using hq.getscm
              · simpa [stop] using hq.feedend
            exact .inr (.inr (.inl hq'.feed))
        | test =>
            have ht := TestDue.tests (t := .feed .test) (by simp) hph hd
            refine .inr (.inl (feed_tests (h.1.stop _) ?_))
            intro hu
            simpa [stop] using ht.getscm hu
    | feedend tag =>
        refine ⟨fun _ => ?_, fun _ => rfl⟩
        cases tag with
        | normal =>
            have hw : Waits s := by
              obtain hph | hph | hph | hph := hph
              · cases hph.feedend.symm.trans hd
              · cases hph.feedend.symm.trans hd
              · exact hph
              · cases hph.feedend.symm.trans hd
            have hp := hw.polls hd
            refine ⟨hbt, ?_, .inr (.inr (.inr hp))⟩
            show ResetOk (feedend .normal (stop _ s))
            rw [@feedend_normal (stop _ s) hw.testing]
            exact hok
        | test =>
            have ht := TestDue.tests (t := .feedend .test) (by simp) hph hd
            refine ⟨hbt, ?_, .inr (.inl (ht.feedend_test h.1 hd))⟩
            show ResetOk (feedend .test (stop _ s))
            rw [feedend_test]
            exact hok
    | getscm tag =>
        cases tag with
        | normal => exact Cycle.normalPoll h hbt hd
        | test =>
            have ht := TestDue.tests (t := .getscm .test) (by simp) hph hd
            obtain ⟨hp, hr⟩ := ht.getscm_test hd first last
            refine ⟨fun _ => ⟨hbt, ?_, ?_⟩, fun _ => rfl⟩
            · show ResetOk (getscm .test first last (stop _ s))
              rwa [ResetOk, hr]
            · obtain hp | hp := hp
              · exact .inl hp
              · exact .inr (.inl hp)
    | setval =>
        refine ⟨fun _ => ?_, fun _ => rfl⟩
        refine h.congr hbt rfl ?_ rfl rfl rfl rfl rfl
        intro t ht
        simp [fire, stop, ht]

end Cycle

/-! ## Tests -/

/-- A test has made a feed; a poll left over from an older test may come before its own. -/
structure Begun (s : State) (r : Round) : Prop where
  testing : s.testing = true
  fresh : r.fresh = true
  feeds : r.feeds = s.testcnt + 1
  le : s.testcnt ≤ 2
  cnt : 1 < s.get_scm_cnt
  feed : s.clock.due (.feed .test) = none
  feedend : ∃ e, s.clock.due (.feedend .test) = some e ∧
    ∀ g, s.clock.due (.getscm .test) = some g → g + 100 < e
  first : s.clock.due (.getscm .test) = none ∨ s.testcnt = 0

structure Polling (s : State) (r : Round) : Prop where
  testing : s.testing = true
  fresh : r.fresh = true
  feeds : r.feeds = s.testcnt + 1
  le : s.testcnt ≤ 2
  cnt : 1 < s.get_scm_cnt
  feed : s.clock.due (.feed .test) = none
  feedend : s.clock.due (.feedend .test) = none
  getscm : (s.clock.due (.getscm .test)).isSome = true

/-- The first poll has read a high level, and the next feed is due. -/
structure Again (s : State) (r : Round) : Prop where
  testing : s.testing = true
  fresh : r.fresh = false
  feeds : r.feeds = s.testcnt
  le : s.testcnt ≤ 2
  cnt : s.get_scm_cnt = 20
  feed : ∃ d, s.clock.due (.feed .test) = some d ∧
    ∀ e, s.clock.due (.feedend .test) = some e → d < e
  getscm : s.clock.due (.getscm .test) = none

structure Done (s : State) (r : Round) : Prop where
  testing : s.testing = false
  fresh : r.fresh = false
  feeds : r.feeds = 3
  le : 2 ≤ s.testcnt
  feed : s.clock.due (.feed .test) = none
  feedend : s.clock.due (.feedend .test) = none

def Rounds (s : State) : Prop :=
  ∀ r, s.round = some r → Begun s r ∨ Polling s r ∨ Again s r ∨ Done s r

section Rounds

variable {s : State}

theorem Rounds.testOk (h : Rounds s) : TestOk s := by
  intro r hr
  obtain h | h | h | h := h r hr
  · have hdue : TestDue s := by
      obtain ⟨e, he, -⟩ := h.feedend
      exact .inr (.inl (by simp [he]))
    have := h.feeds
    have := h.le
    rw [if_pos h.testing]
    exact ⟨by omega, hdue⟩
  · have := h.feeds
    have := h.le
    rw [if_pos h.testing]
    exact ⟨by omega, .inr (.inr h.getscm)⟩
  · have hdue : TestDue s := by
      obtain ⟨d, hd, -⟩ := h.feed
      exact .inl (by simp [hd])
    have := h.feeds
    have := h.le
    rw [if_pos h.testing]
    exact ⟨by omega, hdue⟩
  · rw [if_neg (by simp [h.testing])]
    exact h.feeds

/-- What has nothing to do with tests. -/
theorem Rounds.congr {u : State} (h : Rounds s) (ht : u.testing = s.testing)
    (hn : u.testcnt = s.testcnt) (hc : s.testing = true → u.get_scm_cnt = s.get_scm_cnt)
    (hr : u.round = s.round)
    (hd : ∀ t, t ∈ [Timer.feed .test, .feedend .test, .getscm .test] →
      u.clock.due t = s.clock.due t) : Rounds u := by
  have hf := hd (.feed .test) (by simp)
  have he := hd (.feedend .test) (by simp)
  have hg := hd (.getscm .test) (by simp)
  intro r hru
  obtain h | h | h | h := h r (hr.symm.trans hru)
  · refine .inl ⟨ht.trans h.testing, h.fresh, by rw [hn, h.feeds], by rw [hn]; exact h.le,
      by rw [hc h.testing]; exact h.cnt, hf.trans h.feed, ?_, ?_⟩
    · rw [he, hg]
      exact h.feedend
    · rw [hg, hn]
      exact h.first
  · exact .inr (.inl ⟨ht.trans h.testing, h.fresh, by rw [hn, h.feeds], by rw [hn]; exact h.le,
      by rw [hc h.testing]; exact h.cnt, hf.trans h.feed, he.trans h.feedend,
      by rw [hg]; exact h.getscm⟩)
  · refine .inr (.inr (.inl ⟨ht.trans h.testing, h.fresh, by rw [hn, h.feeds],
      by rw [hn]; exact h.le, (hc h.testing).trans h.cnt, ?_, hg.trans h.getscm⟩))
    rw [hf, he]
    exact h.feed
  · exact .inr (.inr (.inr ⟨ht.trans h.testing, h.fresh, h.feeds, by rw [hn]; exact h.le,
      hf.trans h.feed, he.trans h.feedend⟩))

theorem test_rounds (hb : Base s) (ht : s.testing = false) (ho : testOk s .test = true) :
    Rounds (test s) := by
  obtain ⟨hc, hf⟩ : s.get_scm_cnt ≠ 1 ∧ s.clock.due (.feed .test) = none := by
    simpa [testOk, ht] using ho
  have hcnt := hb.cnt
  intro r hr
  rw [test_starts ht, feed_test] at hr ⊢
  obtain rfl : (⟨1, true⟩ : Round) = r := Option.some.inj hr
  refine .inl ⟨rfl, rfl, rfl, Nat.zero_le _, ?_, ?_, ⟨s.clock.now + 2000, ?_, ?_⟩, .inr rfl⟩
  · show 1 < s.get_scm_cnt
    omega
  · simpa [start, stop] using hf
  · simp [start, stop]
  · intro g hg
    have := hb.getscm g (by simpa [start, stop] using hg)
    omega

theorem feed_rounds (h : Rounds s) {d : ℕ}
    (hd : s.clock.due (.feed .test) = some d) : Rounds (feed .test (stop (.feed .test) s)) := by
  intro r hr
  rw [feed_test] at hr ⊢
  obtain ⟨r', hr', rfl⟩ := Option.map_eq_some_iff.mp hr
  obtain h | h | h | h := h r' hr'
  · cases h.feed.symm.trans hd
  · cases h.feed.symm.trans hd
  · refine .inl ⟨h.testing, rfl, by rw [h.feeds]; rfl, h.le, ?_, ?_, ⟨s.clock.now + 2000, ?_, ?_⟩, ?_⟩
    · show 1 < s.get_scm_cnt
      rw [h.cnt]
      decide
    · simp [start, stop]
    · simp [start, stop]
    · intro g hg
      simp [start, stop, h.getscm] at hg
    · simp [start, stop, h.getscm]
  · cases h.feed.symm.trans hd

theorem feedend_rounds (hb : Base s) (h : Rounds s)
    (hd : s.clock.due (.feedend .test) = some s.clock.now) :
    Rounds (feedend .test (stop (.feedend .test) s)) := by
  intro r hr
  rw [feedend_test] at hr ⊢
  obtain h | h | h | h := h r hr
  · refine .inr (.inl ⟨h.testing, h.fresh, h.feeds, h.le, h.cnt, ?_, ?_, ?_⟩)
    · simpa [start, stop] using h.feed
    · simp [start, stop]
    · simp [start]
  · cases h.feedend.symm.trans hd
  · obtain ⟨d, hdue, hlt⟩ := h.feed
    have h1 := hlt _ hd
    have h2 := hb.timely _ _ hdue
    omega
  · cases h.feedend.symm.trans hd

theorem poll_fresh {high : Bool} {r r' : Round} (h : r.poll high = some r') (hf : r.fresh = true) :
    high = true ∧ r' = { r with fresh := false } := by
  cases high <;> simp_all [Round.poll]

theorem poll_stale {high : Bool} {r r' : Round} (h : r.poll high = some r')
    (hf : r.fresh = false) : r' = r := by
  simp_all [Round.poll]

/-- The first poll after a feed, when it reads a high level. -/
theorem first_poll {r : Round} {b : Bool} (ht : s.testing = true) (hfeeds : r.feeds = s.testcnt + 1)
    (hle : s.testcnt ≤ 2) (hc : 1 < s.get_scm_cnt)
    (hf : s.clock.due (.feed .test) = none)
    (he : ∀ e, s.clock.due (.feedend .test) = some e → s.testcnt = 0 ∧ s.clock.now + 100 < e) :
    Again (getscm .test true b (stop (.getscm .test) s)) { r with fresh := false } ∨
      Done (getscm .test true b (stop (.getscm .test) s)) { r with fresh := false } := by
  by_cases hlt : s.testcnt < 2
  · rw [@getscm_test_again (stop _ s) hc hlt]
    refine .inl ⟨ht, rfl, hfeeds, ?_, rfl, ⟨s.clock.now + 100, ?_, ?_⟩, ?_⟩
    · show s.testcnt + 1 ≤ 2
      omega
    · simp [start, stop]
    · intro e hes
      exact (he e (by simpa [start, stop] using hes)).2
    · simp [start, stop]
  · rw [Nat.not_lt] at hlt
    rw [@getscm_test_done (stop _ s) hc hlt]
    refine .inr ⟨rfl, rfl, ?_, ?_, ?_, ?_⟩
    · show r.feeds = 3
      omega
    · show 2 ≤ s.testcnt + 1
      omega
    · simpa [start, stop] using hf
    · cases hes : s.clock.due (.feedend .test) with
      | none => simp [start, stop, hes]
      | some e =>
          have := (he e hes).1
          omega

/-- After the test the polls that are left over make no more feeds. -/
theorem Done.poll {r : Round} (h : Done s r) (first last : Bool) :
    Done (getscm .test first last (stop (.getscm .test) s)) r := by
  by_cases hc : 1 < s.get_scm_cnt
  · cases first with
    | false =>
        rw [@getscm_test_low (stop _ s) hc]
        refine ⟨h.testing, h.fresh, h.feeds, h.le, ?_, ?_⟩
        · simpa [start, stop] using h.feed
        · simpa [start, stop] using h.feedend
    | true =>
        rw [@getscm_test_done (stop _ s) hc h.le]
        refine ⟨rfl, h.fresh, h.feeds, Nat.le_succ_of_le h.le, ?_, ?_⟩
        · simpa [start, stop] using h.feed
        · simpa [start, stop] using h.feedend
  · rw [@getscm_test_end (stop _ s) (Nat.not_lt.mp hc)]
    refine ⟨rfl, h.fresh, h.feeds, h.le, ?_, ?_⟩
    · simpa [stop] using h.feed
    · simpa [stop] using h.feedend

theorem getscm_round (first last : Bool) : (getscm .test first last s).round =
    s.round.bind (Round.poll (if 1 < s.get_scm_cnt then first else last)) := by
  by_cases hc : 1 < s.get_scm_cnt
  · rw [if_pos hc]
    cases first with
    | false =>
        rw [getscm_test_low hc]
    | true =>
        by_cases ht : s.testcnt < 2
        · rw [getscm_test_again hc ht]
        · rw [getscm_test_done hc (Nat.not_lt.mp ht)]
  · rw [if_neg hc, getscm_test_end (Nat.not_lt.mp hc)]

theorem getscm_rounds (h : Rounds s) (first last : Bool)
    (hd : s.clock.due (.getscm .test) = some s.clock.now) :
    Rounds (getscm .test first last (stop (.getscm .test) s)) := by
  intro r hr
  rw [getscm_round] at hr
  obtain ⟨r', hr', hp⟩ := Option.bind_eq_some_iff.mp hr
  obtain h | h | h | h := h r' hr'
  · obtain ⟨e, he, hlt⟩ := h.feedend
    have h0 : s.testcnt = 0 := h.first.resolve_left (by simp [hd])
    obtain ⟨hfirst, rfl⟩ := poll_fresh hp h.fresh
    obtain rfl : first = true := (if_pos h.cnt).symm.trans hfirst
    obtain ha | ha := first_poll (b := last) h.testing h.feeds h.le h.cnt h.feed (by
      intro e' he'
      obtain rfl : e = e' := Option.some.inj (he.symm.trans he')
      exact ⟨h0, hlt _ hd⟩)
    · exact .inr (.inr (.inl ha))
    · exact .inr (.inr (.inr ha))
  · obtain ⟨hfirst, rfl⟩ := poll_fresh hp h.fresh
    obtain rfl : first = true := (if_pos h.cnt).symm.trans hfirst
    obtain ha | ha := first_poll (b := last) h.testing h.feeds h.le h.cnt h.feed (by
      intro e' he'
      rw [h.feedend] at he'
      cases he')
    · exact .inr (.inr (.inl ha))
    · exact .inr (.inr (.inr ha))
  · cases h.getscm.symm.trans hd
  · obtain rfl := poll_stale hp h.fresh
    exact .inr (.inr (.inr (h.poll first last)))

theorem step_rounds {t : State} (hb : Base s) (h : Rounds s) {a : Act} (ho : testOk s a = true)
    (hst : step s a = some t) : Rounds t := by
  obtain ⟨rfl, rfl⟩ | ⟨rfl, rfl⟩ | ⟨rfl, rfl⟩ | ⟨ms, rfl, rfl, hd⟩ | ⟨k, first, last, rfl, hd, rfl⟩ :=
    step_eq hst
  · cases ht : s.testing with
    | true =>
        rw [open_, feed_refused ht]
        exact h.congr rfl rfl (fun _ => rfl) rfl fun _ _ => rfl
    | false =>
        rw [open_, feed_normal ht]
        exact h.congr rfl rfl (fun _ => rfl) rfl (by simp [start])
  · intro r hr
    cases hr
  · cases ht : s.testing with
    | true => rwa [test_refused ht]
    | false => exact test_rounds hb ht ho
  · exact h.congr rfl rfl (fun _ => rfl) rfl fun _ _ => rfl
  · cases k with
    | feed tag =>
        cases tag with
        | normal =>
            show Rounds (feed .normal (stop _ s))
            cases ht : s.testing with
            | true =>
                rw [@feed_refused (stop _ s) ht]
                exact h.congr rfl rfl (fun _ => rfl) rfl (by simp [stop])
            | false =>
                rw [@feed_normal (stop _ s) ht]
                exact h.congr rfl rfl (fun _ => rfl) rfl (by simp [start, stop])
        | test => exact feed_rounds h hd
    | feedend tag =>
        cases tag with
        | normal =>
            show Rounds (feedend .normal (stop _ s))
            cases ht : s.testing with
            | true =>
                rw [@feedend_refused (stop _ s) ht]
                exact h.congr rfl rfl (fun _ => rfl) rfl (by simp [stop])
            | false =>
                rw [@feedend_normal (stop _ s) ht]
                exact h.congr rfl rfl (fun _ => rfl) rfl (by simp [start, stop])
        | test => exact feedend_rounds hb h hd
    | getscm tag =>
        cases tag with
        | normal =>
            show Rounds (getscm .normal first last (stop _ s))
            cases ht : s.testing with
            | true =>
                rw [@getscm_refused (stop _ s) ht]
                exact h.congr rfl rfl (fun _ => rfl) rfl (by simp [stop])
            | false =>
                have hno : ¬s.testing = true := by simp [ht]
                by_cases hc : 1 < s.get_scm_cnt
                · rw [@getscm_normal_on (stop _ s) ht hc]
                  exact h.congr rfl rfl (fun hu => absurd hu hno) rfl (by simp [start, stop])
                · cases ha : s.scm_active with
                  | true =>
                      rw [@getscm_normal_end (stop _ s) ht (Nat.not_lt.mp hc) ha]
                      exact h.congr rfl rfl (fun hu => absurd hu hno) rfl (by simp [stop])
                  | false =>
                      rw [@getscm_normal_reset (stop _ s) ht (Nat.not_lt.mp hc) ha]
                      exact h.congr rfl rfl (fun hu => absurd hu hno) rfl (by simp [start, stop])
        | test => exact getscm_rounds h first last hd
    | setval => exact h.congr rfl rfl (fun _ => rfl) rfl (by simp [fire, stop])

end Rounds

/-! ## Runs -/

theorem loaded_base : Base loaded := by
  refine ⟨?_, by simp [loaded], ?_, ?_, ?_⟩
  · intro k x hx
    cases hx
  all_goals
    intro x hx
    cases hx

theorem init_base : Base init :=
  (feed_base loaded_base .normal).congr rfl (feed_base loaded_base .normal).cnt

theorem init_feeding : Feeding init := by
  have hf := feeding_feed loaded_base .normal (fun _ => rfl) nofun
  have hd := feed_due (s := loaded) .normal fun _ => rfl
  exact ⟨init_base, fun _ => by simp [init, open_, hd.2], fun _ => rfl, hf.due, hf.bounded⟩

theorem init_cycle : Cycle init := by
  have hq : Quiet loaded := by
    refine ⟨rfl, ?_, rfl, rfl, rfl⟩
    simp [TestDue, loaded]
  have hw := hq.feed
  refine ⟨init_base, ?_, .inr (.inr (.inl ⟨hw.testing, hw.noTest, hw.getscm, hw.feedend, hw.cnt,
    hw.levels⟩))⟩
  intro l hl
  cases hl

/-- A normal feed is always due; with `open` at permitted times a reset comes after 20 high
levels exactly if each deciding poll reads one; a test that begins at a permitted time makes
three feeds. -/
theorem watchdog_fed (acts : List Act) :
    Along step Fed init acts ∧
    (Meets step (fun s a => openOk s a = true) init acts →
      (Along step ResetOk init acts ↔ Meets step (fun s a => lastHigh s a = true) init acts)) ∧
    (Meets step (fun s a => testOk s a = true) init acts → Along step TestOk init acts) := by
  refine ⟨?_, ?_, ?_⟩
  · refine along_of_meets (I := Feeding) (G := fun _ _ => True) ?_ ?_ init_feeding init_feeding.fed
      (meets_true init acts)
    · exact fun s a t h hst => step_feeding h hst
    · exact fun s a t h _ _ hst => (step_feeding h hst).fed
  · intro hopen
    refine along_iff_meets_under (Q := Cycle) (fun s h => h.2.1) ?_ ?_ init_cycle hopen
    · exact fun s a t ho h hg hst => (step_cycle h ho hst).1 hg
    · exact fun s a t ho h hp hst => (step_cycle h ho hst).2 hp
  · intro htest
    have hinit : Rounds init := by
      intro r hr
      cases hr
    refine Along.imp (P := fun s => Base s ∧ Rounds s) (fun s h => h.2.testOk) ?_
    refine along_of_meets (I := fun _ => True) (fun _ _ _ _ _ => trivial) ?_ trivial
      ⟨init_base, hinit⟩ htest
    exact fun s a t _ h hg hst => ⟨step_base h.1 hst, step_rounds h.1 h.2 hg hst⟩

/-- The timers of one poll. -/
def poll (tag : Tag) (high : Bool) : List Act := [.pass 100, .expire (.getscm tag) high high]

def waited (tag : Tag) : List Act := [.pass 2000, .expire (.feedend tag) true true]

/-- A test with high levels. -/
theorem watchdog_fed_test :
    Along step TestOk init (.test :: waited .test ++ poll .test true ++
      [.pass 100, .expire (.feed .test) true true] ++ waited .test ++ poll .test true ++
      [.pass 100, .expire (.feed .test) true true] ++ waited .test ++ poll .test true) :=
  (watchdog_fed _).2.2 (by decide)

/-- The 20th poll reads a low level, after it has decided. -/
def lastLow : List Act :=
  waited .normal ++ (List.replicate 19 (poll .normal true)).flatten ++ poll .normal false

theorem reset_before_last_level :
    (run step init lastLow).map (fun s => (s.rst, s.resets)) =
      some (false, [List.replicate 19 true ++ [false]]) ∧ ¬Along step ResetOk init lastLow := by
  have hrun : (run step init lastLow).map (fun s => (s.rst, s.resets)) =
      some (false, [List.replicate 19 true ++ [false]]) := by
    decide
  refine ⟨hrun, ?_⟩
  intro h
  obtain ⟨t, ht, he⟩ := Option.map_eq_some_iff.mp hrun
  have hok := h.last ht
  obtain ⟨-, hr⟩ := Prod.mk.inj he
  rw [ResetOk, hr] at hok
  exact absurd (hok _ (List.mem_singleton_self _)) (by decide)

/-- A test that begins before the last poll takes over its count and makes one feed. -/
example :
    (run step init (waited .normal ++ (List.replicate 19 (poll .normal true)).flatten ++
      .test :: poll .normal true ++ [.pass 1900, .expire (.feedend .test) true true] ++
      poll .test true)).map
        (fun s => (s.testing, s.round, timers.filter fun t => (s.clock.due t).isSome)) =
      some (false, some ⟨1, false⟩, [.feed .normal]) := by
  decide

end LuatAir200.Wdt
