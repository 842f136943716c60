import LuatAir200.LinkLife

/-!
# Parked connection requests

A connection asked for while the IP context is not ready is parked in the link
and released when the context becomes ready. A parked request belongs to a link
that is `CONNECTING`, and none is left behind once the context is usable, except
after the steps named here.
-/
namespace LuatAir200.Links
open Lua Machine

variable {ν : Type}

/-! ## Withdrawn connections -/

/-- A link with a parked request is `CONNECTING`. -/
def ParkedConnecting (s : State ν) : Prop :=
  ∀ id l, s.linklist id = some l → l.pending ≠ none → l.state = .connecting

/-- No link with a parked request is closed, or has its state overwritten by a
status report. -/
def KeepsParked (s : State ν) (a : Act ν) : Prop :=
  ∀ id l, s.linklist id = some l → l.pending ≠ none →
    a ≠ .close id ∧ ∀ st, statusOf s a = some (id, st) → st = lua "SEND FAIL"

/-- An accepted call of `disconnect` or `close`. -/
def Withdraws (s : State ν) (a : Act ν) (id : ℕ) : Prop :=
  a = .disconnect id ∧ (disconnect id s).2 ≠ some false ∨ a = .close id ∧ (close id s).2 = true

/-- An accepted call of `connect`. -/
def Connects (s : State ν) (a : Act ν) (id : ℕ) : Prop :=
  ∃ prot addr port, a = .connect id prot addr port ∧ (connect id prot addr port s).2 = true

theorem validaction_close {s : State ν} {id : ℕ} {l : Link ν} (hl : s.linklist id = some l)
    (hs : l.state = .connecting) : validaction s id .close = true := by
  simp only [validaction, hl, hs]
  rw [if_neg (by decide), if_neg (by simp)]

theorem connect_accepted {s : State ν} {id : ℕ} {l : Link ν} {prot addr port : LuaString}
    (hv : validaction s id .connect) (hl : s.linklist id = some l) (hc : l.state ≠ .connected) :
    (connect id prot addr port s).2 = true := by
  simp only [connect, hv, hl, hc, if_false]
  split
  · rfl
  · split <;> rfl

theorem step_parkedConnecting {s t : State ν} {a : Act ν} (hs : Shape s)
    (hp : ParkedConnecting s) (h : step s a = some t) : ParkedConnecting t ↔ KeepsParked s a := by
  constructor
  · intro ht id l hl hn
    have hc := hp id l hl hn
    constructor
    · rintro rfl
      cases h
      have he : (close id s).1.linklist id = some { l with state := .closing } := by
        simp [close, validaction_close hl hc, hl, req, setLink]
      have := ht id _ he hn
      cases this
    · intro st hst
      by_contra hf
      have hv := view_statusind hf (s := taken s a) (l := l) (by rw [taken_linklist]; exact hl)
      rw [← step_statusOf h hst] at hv
      have := ht id _ (congrArg View.link hv) hn
      dsimp only at this
      split at this <;> cases this
  · intro hg id
    have taken (l : Link ν) (hl : (view id (taken s a)).link = some l) (hn : l.pending ≠ none) :
        l.state = .connecting :=
      hp id l ((congrFun (taken_linklist s a) id).symm.trans hl) hn
    have he := step_effect hs h id
    generalize hv : view id t = v at he
    have ht : t.linklist id = v.link := congrArg View.link hv
    rw [ht]
    intro l hl hn
    cases he with
    | quiet => exact taken l hl hn
    | opened => cases hl; exact absurd rfl hn
    | closing k ha hk => cases hl; exact absurd ha (hg id k hk hn).1
    | called => cases hl; rfl
    | parked => cases hl; rfl
    | started => cases hl; rfl
    | withdrawn => cases hl; exact absurd rfl hn
    | disconnecting => cases hl; exact absurd rfl hn
    | sent => exact hp id l hl hn
    | dropped => exact hp id l hl hn
    | released => cases hl; exact absurd rfl hn
    | status k st hst hf hk => cases hl; exact absurd ((hg id k hk hn).2 st hst) hf
    | shuted k hm hk h1 => cases hl; exact absurd ⟨hp id k hk hn, hn⟩ h1
    | disconnected k hc hk hd => cases hl; rw [hp id k hk hn] at hd; cases hd
    | closed => cases hl

/-- Nothing is parked in link `id`. -/
def Idle (id : ℕ) (s : State ν) : Prop := ∀ l, s.linklist id = some l → l.pending = none

/-- How many `AT+CIPSTART` for `id` have been requested. -/
def issued (id : ℕ) (s : State ν) : ℕ := s.requests.countP (AtCmd.starts id)

theorem withdraws_idle {s t : State ν} {a : Act ν} {id : ℕ} (hg : KeepsParked s a)
    (hw : Withdraws s a id) (h : step s a = some t) : Idle id t ∧ issued id t = issued id s := by
  obtain ⟨rfl, hd⟩ | ⟨rfl, hc⟩ := hw
  · cases h
    obtain he | ⟨l, -, hl, ⟨-, -, he⟩ | he⟩ := disconnect_cases id s
    · rw [he] at hd
      exact absurd rfl hd
    · rw [he]
      refine ⟨fun k hk => ?_, rfl⟩
      simp only [dispatch, setLink, Function.update_self, Option.some.injEq] at hk
      rw [← hk]
    · rw [he]
      refine ⟨fun k hk => ?_, ?_⟩
      · simp only [req, setLink, Function.update_self, Option.some.injEq] at hk
        rw [← hk]
      · simp [issued, req, setLink, AtCmd.starts]
  · cases h
    obtain he | ⟨l, -, hl, he⟩ := close_cases id s
    · rw [he] at hc
      cases hc
    · rw [he]
      refine ⟨fun k hk => ?_, ?_⟩
      · simp only [req, setLink, Function.update_self, Option.some.injEq] at hk
        rw [← hk]
        by_contra hn
        exact (hg id l hl hn).1 rfl
      · simp [issued, req, setLink, AtCmd.starts]

/-- A link with nothing parked gets no `AT+CIPSTART` until it is connected anew. -/
theorem step_idle {s t : State ν} {a : Act ν} {id : ℕ} (hs : Shape s) (hi : Idle id s)
    (hn : ¬Connects s a id) (h : step s a = some t) : Idle id t ∧ issued id t = issued id s := by
  have he := step_effect hs h id
  generalize hw : view id t = v at he
  have hl : t.linklist id = v.link := congrArg View.link hw
  have hq : issued id t = v.starts := congrArg View.starts hw
  have hreq : (taken s a).requests = s.requests := by cases a <;> rfl
  have ht : (view id (taken s a)).starts = issued id s := by
    simp only [view, issued, hreq]
  have idle {l : Link ν} (hl : (view id (taken s a)).link = some l) : l.pending = none :=
    hi l ((congrFun (taken_linklist s a) id).symm.trans hl)
  rw [Idle, hl, hq]
  cases he with
  | quiet => exact ⟨fun l hl => idle hl, ht⟩
  | opened => exact ⟨fun l hl => by cases hl; rfl, rfl⟩
  | closing k ha hk => exact ⟨fun l hl => by cases hl; exact hi k hk, rfl⟩
  | called k prot addr port ha hv hk hc =>
      exact absurd ⟨prot, addr, port, ha, connect_accepted hv hk hc⟩ hn
  | parked k prot addr port ha hv hk hc =>
      exact absurd ⟨prot, addr, port, ha, connect_accepted hv hk hc⟩ hn
  | started k prot addr port ha hv hk hc =>
      exact absurd ⟨prot, addr, port, ha, connect_accepted hv hk hc⟩ hn
  | withdrawn => exact ⟨fun l hl => by cases hl; rfl, rfl⟩
  | disconnecting => exact ⟨fun l hl => by cases hl; rfl, rfl⟩
  | sent => exact ⟨fun l hl => hi l hl, rfl⟩
  | dropped => exact ⟨fun l hl => hi l hl, rfl⟩
  | released k c n hr hst hk hp => rw [hi k hk] at hp; cases hp
  | status k st hst hf hk => exact ⟨fun l hl => by cases hl; exact hi k hk, ht⟩
  | shuted k hm hk => exact ⟨fun l hl => by cases hl; exact hi k hk, rfl⟩
  | disconnected k hc hk => exact ⟨fun l hl => by cases hl; exact hi k hk, ht⟩
  | closed => exact ⟨fun l hl => (by cases hl), ht⟩

theorem run_idle {s u : State ν} {as : List (Act ν)} {id : ℕ} (hs : Shape s) (hi : Idle id s)
    (hm : Meets step (fun s a => ¬Connects s a id) s as) (hr : run step s as = some u) :
    issued id u = issued id s := by
  have hinv : Shape u ∧ Idle id u ∧ issued id u = issued id s := by
    refine guarded_run (P := fun v => Shape v ∧ Idle id v ∧ issued id v = issued id s) ?_
      ⟨hs, hi, rfl⟩ hm hr
    rintro v a w ⟨hv, hiv, hq⟩ hn hw
    obtain ⟨h1, h2⟩ := step_idle hv hiv hn hw
    exact ⟨step_shape v a w hv hw, h1, h2.trans hq⟩
  exact hinv.2.2

/-- Along a run a parked request always belongs to a link that is `CONNECTING`, and
after an accepted `disconnect` or `close` no `AT+CIPSTART` is issued for the link
until a `connect` is accepted, exactly if in no step of the run a link with a
parked request is closed or has its state overwritten by a status report. -/
theorem withdrawn_never_started (as : List (Act ν)) :
    (Along step ParkedConnecting boot as ∧
      ∀ before a after rest id (s t u : State ν), as = before ++ a :: (after ++ rest) →
        run step boot before = some s → Withdraws s a id → step s a = some t →
        Meets step (fun s a => ¬Connects s a id) t after → run step t after = some u →
        issued id u = issued id s) ↔
      Meets step KeepsParked boot as := by
  have hiff : Along step ParkedConnecting boot as ↔ Meets step KeepsParked boot as :=
    along_iff_meets step_shape (fun s a t hs hp h => step_parkedConnecting hs hp h) boot_shape
      (fun _ _ => nofun) as
  constructor
  · rintro ⟨h, -⟩
    exact hiff.mp h
  · intro h
    refine ⟨hiff.mpr h, ?_⟩
    rintro before a after rest id s t u rfl hr hw ht hm hu
    have hs : Shape s := invariant_run step_shape boot_shape hr
    have hg : KeepsParked s a := ((meets_append.mp h).2 s hr t ht).1
    obtain ⟨hi, hq⟩ := withdraws_idle hg hw ht
    exact (run_idle (step_shape s a t hs ht) hi hm hu).trans hq

/-- A link that is closed while its connection is parked is connected all the same. -/
theorem closed_link_started : ∃ s t : State Unit,
    run step boot [.openlink () false, .connect 0 (lua "TCP") (lua "a.b") (lua "80"), .close 0] =
      some s ∧ (close 0 s).2 = true ∧ ¬ParkedConnecting s ∧
    run step s [.urc (lua "STATE: IP STATUS")] = some t ∧ issued 0 s = 0 ∧ issued 0 t = 1 := by
  refine ⟨_, _, rfl, by decide, fun h => ?_, rfl, by decide, by decide⟩
  exact absurd (h 0 _ rfl (by decide)) (by decide)

/-! ## Stranded connections -/

/-- Some connection request is parked. -/
def SomeParked (s : State ν) : Prop := ∃ id l, s.linklist id = some l ∧ l.pending ≠ none

/-- While the IP context is usable and not being shut, nothing is parked. -/
def NoneStranded (s : State ν) : Prop := ipready s → s.shuting = false → ¬SomeParked s

/-- An `AT+CIPSHUT` has failed. -/
def shutFails (s : State ν) : Act ν → Bool
  | .respond _ response _ =>
      match s.ril.current with
      | some ⟨_, .cipshut⟩ => response ≠ lua "SHUT OK" ∧ s.simready
      | _ => false
  | _ => false

/-- With a request parked, the status becomes `IP PROCESSING`, or an `AT+CIPSHUT` fails
that had left the context usable. -/
def Strands (s : State ν) (a : Act ν) : Prop :=
  SomeParked s ∧ (reportOf a = some (lua "IP PROCESSING") ∧ s.shuting = false ∨
    shutFails s a ∧ ipready s)

/-- The status of the IP context and whether it is being shut. -/
def ip (s : State ν) : LuaString × Bool := (s.ipstatus, s.shuting)

@[simp] theorem ip_startconnectingtimer (k : ℕ) (s : State ν) :
    ip (startconnectingtimer k s) = ip s := by
  unfold startconnectingtimer
  split <;> rfl

@[simp] theorem ip_stopcheckciicr (s : State ν) : ip (stopcheckciicr s) = ip s := by
  unfold stopcheckciicr
  split <;> rfl

@[simp] theorem ip_usersckntfy (l : Link ν) (s : State ν) : ip (usersckntfy l s) = ip s := by
  unfold usersckntfy
  split <;> rfl

theorem ip_querycgatt (s : State ν) : ip (querycgatt s) = ip s := by
  unfold querycgatt
  split <;> rfl

theorem ip_req (cmd : AtCmd) (s : State ν) : ip (req cmd s) = ip s := rfl

theorem ip_initial (s : State ν) : ip (initial s) = ip s := by
  unfold initial
  split
  · rfl
  · simp only [ip_req]
    rfl

theorem ip_closecnf (k : ℕ) (s : State ν) : ip (closecnf k s) = ip s := by
  unfold closecnf
  split
  · rfl
  split
  · rfl
  split
  · exact ip_usersckntfy _ s
  · rfl

theorem ip_statusind (k : ℕ) (st : LuaString) (s : State ν) : ip (statusind k st s) = ip s := by
  unfold statusind
  split
  · rfl
  split
  · split <;> rfl
  · exact ip_usersckntfy _ _

theorem ip_sendcnf {k : ℕ} {result : LuaString} {s t : State ν}
    (h : sendcnf k result s = some t) : ip t = ip s := by
  obtain ⟨l, -, rfl⟩ := Option.map_eq_some_iff.mp h
  rfl

theorem ip_connpend (is : List ℕ) (s : State ν) : ip (connpend is s) = ip s := by
  induction is generalizing s with
  | nil => rfl
  | cons i is ih =>
      simp only [connpend]
      split
      · exact ih s
      split
      · exact ih s
      · rw [ih]
        exact ip_startconnectingtimer _ _

theorem ip_shutLoop (is : List ℕ) (s : State ν) : ip (shutLoop is s) = ip s := by
  induction is generalizing s with
  | nil => exact ip_stopcheckciicr s
  | cons i is ih =>
      simp only [shutLoop]
      split
      · exact ih s
      split
      · exact ih _
      · rfl

/-- What can happen to the IP context in one action. -/
inductive IpEffect (s : State ν) (a : Act ν) : LuaString × Bool → Prop
  | same : IpEffect s a (ip s)
  | begun : IpEffect s a (lua "IP START", s.shuting)
  | shutting (st : LuaString) : IpEffect s a (st, true)
  | report (st : LuaString) (h : reportOf a = some st) : IpEffect s a (st, s.shuting)
  | shut : IpEffect s a (lua "IP INITIAL", false)
  | failed (h : shutFails s a) : IpEffect s a (s.ipstatus, false)

theorem ip_setupIP (s : State ν) :
    ip (setupIP s) = ip s ∨ ip (setupIP s) = (lua "IP START", s.shuting) := by
  unfold setupIP
  split
  · exact .inl rfl
  split
  · exact .inl rfl
  · exact .inr rfl

theorem ip_shut (s : State ν) : ip (shut s) = ip s ∨ ip (shut s) = (s.ipstatus, true) := by
  unfold Links.shut
  split
  · exact .inl rfl
  · dsimp only
    split <;> exact .inr rfl

theorem ip_endOf (s : State ν) : ip (endOf s) = ip s ∨ ip (endOf s) = (s.ipstatus, true) := by
  unfold endOf
  split
  · exact ip_shut s
  · exact .inl rfl

theorem ip_ipstatusChanged (s : State ν) :
    ip (ipstatusChanged s) = ip s ∨ ip (ipstatusChanged s) = (s.ipstatus, true) := by
  unfold ipstatusChanged
  split
  · exact .inl rfl
  split
  · exact .inl (ip_connpend ids s)
  split
  · exact .inl rfl
  split
  · exact .inl rfl
  split
  · exact .inl rfl
  · exact ip_shut s

theorem ip_setIPStatus (st : LuaString) (s : State ν) :
    ip (setIPStatus st s) = (st, s.shuting) ∨ ip (setIPStatus st s) = (st, true) := by
  rw [setIPStatus_eq]
  split
  · have hs := (reported_frame st s).2.2.1
    obtain h | h := ip_ipstatusChanged { reported st s with ipstatus := st }
    · left
      rw [h, ip, hs]
    · exact .inr h
  · rename_i h
    rw [not_or, not_not] at h
    exact .inl (by rw [ip, h.1])

/-- The statuses after which nothing is shut. -/
theorem ip_setIPStatus_calm (st : LuaString) (s : State ν)
    (h : st = lua "IP PROCESSING" ∨ st = lua "IP STATUS" ∨ st = lua "IP INITIAL") :
    ip (setIPStatus st s) = (st, s.shuting) := by
  have hs := (reported_frame st s).2.2.1
  have hc : ip (ipstatusChanged { reported st s with ipstatus := st }) =
      ip { reported st s with ipstatus := st } := by
    obtain rfl | rfl | rfl := h
    · rfl
    · exact ip_connpend ids _
    · rfl
  rw [setIPStatus_eq]
  split
  · rw [hc, ip, hs]
  · rename_i hn
    rw [not_or, not_not] at hn
    rw [ip, hn.1]

theorem shutcnf_ok {result : LuaString} {s : State ν}
    (h : result = lua "SHUT OK" ∨ !s.simready) :
    ip (shutcnf result s) = (lua "IP INITIAL", false) := by
  obtain ⟨hs, -, hsim, -⟩ := shutEnded_frame s
  rw [shutcnf_eq, if_pos h, ip_shutLoop, ip_setIPStatus_calm _ _ (.inr (.inr rfl)), hs]

theorem shutcnf_failed {result : LuaString} {s : State ν}
    (h : ¬(result = lua "SHUT OK" ∨ !s.simready)) :
    ip (shutcnf result s) = (s.ipstatus, false) := by
  obtain ⟨hs, hi, -, -⟩ := shutEnded_frame s
  rw [shutcnf_eq, if_neg h, ip_stopcheckciicr, ip, timer_start, hs, hi]

theorem step_ip {s t : State ν} {a : Act ν} (h : step s a = some t) : IpEffect s a (ip t) := by
  have same {u : State ν} {a : Act ν} (hu : ip u = ip s) : IpEffect s a (ip u) := by
    rw [hu]
    exact .same
  have setup {u : State ν} {a : Act ν} (hu : ip u = ip s) : IpEffect s a (ip (setupIP u)) := by
    have h2 : u.shuting = s.shuting := congrArg Prod.snd hu
    obtain he | he := ip_setupIP u
    · exact same (he.trans hu)
    · rw [he, h2]
      exact .begun
  have down {u v : State ν} {a : Act ν} (hu : ip u = ip s)
      (hv : ip v = ip u ∨ ip v = (u.ipstatus, true)) : IpEffect s a (ip v) := by
    obtain he | he := hv
    · exact same (he.trans hu)
    · rw [he]
      exact .shutting _
  cases a with
  | openid k n tag =>
      cases h
      unfold openid
      split
      · exact same rfl
      · dsimp only
        split
        · exact same rfl
        · exact setup rfl
  | openlink n tag =>
      cases h
      unfold openlink
      split
      · exact same rfl
      · rename_i k hk
        unfold openid
        dsimp only
        split
        · exact same rfl
        · dsimp only
          split
          · exact same rfl
          · exact setup rfl
  | close k =>
      cases h
      obtain he | ⟨l, -, -, he⟩ := close_cases k s <;> rw [he] <;> exact same rfl
  | connect k prot addr port =>
      cases h
      obtain he | ⟨l, -, -, -, ⟨-, he⟩ | ⟨-, he⟩ | ⟨-, he⟩⟩ := connect_cases k prot addr port s
      · rw [he]; exact same rfl
      · rw [he]; exact same rfl
      · rw [he]; exact same rfl
      · rw [he]; exact same (ip_startconnectingtimer _ _)
  | disconnect k =>
      cases h
      obtain he | ⟨l, -, -, ⟨-, -, he⟩ | he⟩ := disconnect_cases k s <;> rw [he] <;>
        exact same rfl
  | send k data =>
      cases h
      obtain he | ⟨l, -, -, -, he⟩ := send_cases k data s <;> rw [he] <;> exact same rfl
  | shut => cases h; exact down rfl (ip_shut s)
  | setapn a b c => cases h; exact same rfl
  | setconnectnoretrestart flag interval => cases h; exact same rfl
  | regipstatusind => cases h; exact same rfl
  | checkciicr tm => cases h; exact same rfl
  | querycgatt => cases h; exact same (ip_querycgatt s)
  | request cmd => cases h; exact same rfl
  | simstatus ready => cases h; exact same rfl
  | calls exist => cases h; exact same rfl
  | sendat =>
      obtain ⟨q, hq, rfl⟩ := Option.map_eq_some_iff.mp h
      exact same rfl
  | respond success response intermediate =>
      simp only [step] at h
      split at h
      swap
      · cases h
      rename_i c hf hcur
      obtain ⟨no, cmd⟩ := c
      cases cmd with
      | cipstart c =>
          cases h
          split
          · exact same (ip_statusind _ _ _)
          · exact same rfl
      | cipsend k data =>
          simp only [rsp] at h
          split at h
          · split at h
            · exact same ((ip_sendcnf h).trans rfl)
            · obtain ⟨r, -, h⟩ := Option.bind_eq_some_iff.mp h
              exact same ((ip_sendcnf h).trans rfl)
          · split at h
            · exact same ((ip_sendcnf h).trans rfl)
            · obtain ⟨r, -, h⟩ := Option.bind_eq_some_iff.mp h
              exact same ((ip_sendcnf h).trans rfl)
      | cipclose k => cases h; exact same (ip_closecnf _ _)
      | cipshut =>
          cases h
          by_cases hr : response = lua "SHUT OK" ∨ !s.simready
          · rw [shutcnf_ok (by exact hr)]
            exact .shut
          · rw [shutcnf_failed (by exact hr)]
            refine .failed ?_
            simpa [shutFails, hcur] using hr
      | ciicr =>
          cases h
          split
          · split
            · split <;> exact same rfl
            · exact same rfl
          · exact down rfl (ip_shut _)
      | cgatt =>
          cases h
          unfold cgattrsp
          split
          · dsimp only
            split
            · split
              · exact setup rfl
              · exact same rfl
            · exact same rfl
          split
          · dsimp only
            split <;> exact same rfl
          · exact same rfl
      | _ => cases h; exact same rfl
  | urc data =>
      obtain ⟨hf, ⟨⟩⟩ := Option.ite_none_right_eq_some.mp h
      split
      swap
      · exact same rfl
      rename_i pfx hp
      split
      swap
      · exact same rfl
      unfold urc
      split
      · rename_i hst
        subst hst
        obtain he | he := ip_setIPStatus (data.drop 7) s
        · rw [he]
          exact .report _ (by simp [reportOf, hp])
        · rw [he]
          exact .shutting _
      split
      · exact same rfl
      split
      · exact down rfl (ip_shut s)
      split
      · exact same rfl
      split
      · exact same (ip_statusind _ _ _)
      · exact same rfl
  | msg =>
      simp only [step] at h
      split at h
      swap
      · cases h
      rename_i m ms hf hm
      cases h
      cases m with
      | statusind k st => exact same (ip_statusind _ _ _)
      | closecnf k => exact same (ip_closecnf _ _)
      | _ => exact same rfl
  | proc p =>
      obtain ⟨-, ⟨⟩⟩ := Option.ite_none_right_eq_some.mp h
      cases p with
      | imsiReady code =>
          simp only [proc]
          split <;> exact same rfl
      | flymode on =>
          simp only [proc]
          split <;> exact same rfl
      | registered => exact same (ip_initial s)
      | _ on =>
          simp only [proc]
          split
          · exact same rfl
          · exact down rfl (ip_endOf _)
  | expire k =>
      obtain ⟨-, h⟩ := Option.ite_none_right_eq_some.mp h
      cases k with
      | setupIP => cases h; exact setup rfl
      | cipstatus => cases h; exact same rfl
      | querycgatt => cases h; exact same (ip_querycgatt _)
      | checkciicr => cases h
      | connecting k =>
          obtain ⟨-, ⟨⟩⟩ := Option.ite_none_left_eq_some.mp h
          exact same rfl
  | ret =>
      obtain ⟨⟨n, r⟩, hf, rfl⟩ := Option.map_eq_some_iff.mp h
      cases r with
      | done => exact same rfl
      | stopconnectingtimer k => exact same rfl
      | disconnected k =>
          simp only [resume]
          split
          · exact same (ip_usersckntfy _ _)
          · exact same rfl
      | shut i is =>
          simp only [resume]
          split
          · refine same ((ip_shutLoop _ _).trans ?_)
            exact ip_usersckntfy _ _
          · exact same rfl

theorem step_reportOf {s t : State ν} {a : Act ν} {st : LuaString} (h : step s a = some t)
    (hr : reportOf a = some st) : t = setIPStatus st s := by
  cases a with
  | urc data =>
      obtain ⟨hp, he⟩ := Option.ite_none_right_eq_some.mp hr
      cases he
      obtain ⟨-, ⟨⟩⟩ := Option.ite_none_right_eq_some.mp h
      have hreg : registered s (lua "STATE") = true := by simp [registered]
      rw [hp]
      simp only [hreg, urc, if_true]
  | _ => cases hr

theorem step_shutFails {s t : State ν} {a : Act ν} (h : step s a = some t)
    (hf : shutFails s a = true) : ∃ result, ¬(result = lua "SHUT OK" ∨ !(taken s a).simready) ∧
      t = shutcnf result (taken s a) := by
  cases a with
  | respond success response intermediate =>
      simp only [step] at h
      split at h
      · rename_i c _ hcur
        simp only [shutFails, hcur] at hf
        obtain ⟨no, cmd⟩ := c
        cases cmd with
        | cipshut =>
            cases h
            exact ⟨response, by simpa [taken] using hf, rfl⟩
        | _ => cases hf
      · cases h
  | _ => cases hf

theorem ipready_of_ip {s t : State ν} (h : ip s = ip t) : ipready s = ipready t := by
  have h1 : s.ipstatus = t.ipstatus := congrArg Prod.fst h
  simp only [ipready, h1]

/-- A parked request of `t` was parked in `s`, unless it has just been made. -/
theorem SomeParked.back {s t : State ν} {a : Act ν} (hs : Shape s) (h : step s a = some t)
    (hp : SomeParked t) : SomeParked s ∨
      (!ipready s ∨ s.shuting) ∧ ∃ id prot addr port, a = .connect id prot addr port := by
  obtain ⟨id, l, hl, hn⟩ := hp
  obtain ⟨c, hc⟩ := Option.ne_none_iff_exists'.mp hn
  obtain ⟨k, hk, hkc⟩ | ⟨hw, prot, addr, port, ha, -⟩ := (step_effect hs h id).pending hl hc
  · exact .inl ⟨id, k, hk, by rw [hkc]; simp⟩
  · exact .inr ⟨hw, id, prot, addr, port, ha⟩

theorem strands_stranded {s t : State ν} {a : Act ν} (h : step s a = some t)
    (hg : Strands s a) : ¬NoneStranded t := by
  obtain ⟨⟨id, l, hl, hn⟩, ⟨hr, hsh⟩ | ⟨hf, hi⟩⟩ := hg
  · have ht := step_reportOf h hr
    have hip := ip_setIPStatus_calm (lua "IP PROCESSING") s (.inl rfl)
    have hv := view_setIPStatus (lua "IP PROCESSING") (by decide) s id
    rw [← ht, hsh] at hip
    rw [← ht] at hv
    have h1 : t.ipstatus = lua "IP PROCESSING" := congrArg Prod.fst hip
    have h2 : t.shuting = false := congrArg Prod.snd hip
    exact fun hno => hno (by simp [ipready, h1]) h2 ⟨id, l, (congrArg View.link hv).trans hl, hn⟩
  · obtain ⟨result, hno, ht⟩ := step_shutFails h hf
    have hip := shutcnf_failed hno
    have hv : view id (shutcnf result (taken s a)) = view id (taken s a) := by
      rw [shutcnf_eq, if_neg hno]
      exact (view_stopcheckciicr id _).trans ((shutEnded_frame _).2.2.2 id)
    have hst : (taken s a).ipstatus = s.ipstatus := by cases a <;> rfl
    rw [← ht, hst] at hip
    rw [← ht] at hv
    have h1 : t.ipstatus = s.ipstatus := congrArg Prod.fst hip
    have h2 : t.shuting = false := congrArg Prod.snd hip
    have h3 : t.linklist id = some l :=
      (congrArg View.link hv).trans ((congrFun (taken_linklist s a) id).trans hl)
    exact fun hno => hno (by rw [ipready, h1]; exact hi) h2 ⟨id, l, h3, hn⟩

theorem step_noneStranded {s t : State ν} {a : Act ν} (hs : Shape s) (hn : NoneStranded s)
    (h : step s a = some t) : NoneStranded t ↔ ¬Strands s a := by
  refine ⟨fun ht hg => strands_stranded h hg ht, fun hg hr hsh hp => ?_⟩
  have hback := hp.back hs h
  have hip := step_ip h
  generalize hq : ip t = q at hip
  cases hip with
  | same =>
      have h1 : ipready s = true := (ipready_of_ip hq).symm.trans hr
      have h2 : s.shuting = false := (congrArg Prod.snd hq).symm.trans hsh
      obtain hp | ⟨hw, -⟩ := hback
      · exact hn h1 h2 hp
      · simp [h1, h2] at hw
  | begun =>
      have h1 : t.ipstatus = lua "IP START" := congrArg Prod.fst hq
      simp only [ipready, h1] at hr
      exact absurd hr (by decide)
  | shutting st => exact absurd ((congrArg Prod.snd hq).symm.trans hsh) (by simp)
  | report st hst =>
      have h1 : t.ipstatus = st := congrArg Prod.fst hq
      have h2 : s.shuting = false := (congrArg Prod.snd hq).symm.trans hsh
      have hp' : SomeParked s := by
        obtain hp | ⟨-, id, prot, addr, port, rfl⟩ := hback
        · exact hp
        · cases hst
      simp only [ipready, h1, decide_eq_true_eq] at hr
      obtain rfl | rfl := hr
      · have ht := step_reportOf h hst
        by_cases hi : s.ipstatus = lua "IP STATUS"
        · exact hn (by simp [ipready, hi]) h2 hp'
        · obtain ⟨id, l, hl, hc⟩ := hp
          have hm : id ∈ ids := by
            by_contra hm
            have hid : MAXLINKS < id := by
              rw [ids, List.mem_range] at hm
              omega
            rw [(step_shape s a t hs h).low id hid] at hl
            cases hl
          obtain ⟨hq, he⟩ | ⟨k, c, n, -, -, -, -, he⟩ := setIPStatus_released hi hs id
          · rw [← ht] at he
            exact hc (hq hm l ((congrArg View.link he).symm.trans hl))
          · rw [← ht] at he
            have hk := (congrArg View.link he).symm.trans hl
            cases hk
            exact hc rfl
      · exact hg ⟨hp', .inl ⟨hst, h2⟩⟩
  | shut =>
      have h1 : t.ipstatus = lua "IP INITIAL" := congrArg Prod.fst hq
      simp only [ipready, h1] at hr
      exact absurd hr (by decide)
  | failed hf =>
      have h1 : t.ipstatus = s.ipstatus := congrArg Prod.fst hq
      obtain hp | ⟨-, id, prot, addr, port, rfl⟩ := hback
      · exact hg ⟨hp, .inr ⟨hf, by simpa only [ipready, h1] using hr⟩⟩
      · cases hf

/-- Along a run no connection request is left parked while the IP context is usable
and not being shut, exactly if in no step, with a request parked, the status
becomes `IP PROCESSING` or a usable context fails to be shut. -/
theorem none_stranded (as : List (Act ν)) :
    Along step NoneStranded boot as ↔ Meets step (fun s a => ¬Strands s a) boot as := by
  refine along_iff_meets step_shape (fun s a t hs hp h => step_noneStranded hs hp h) boot_shape
    (fun _ _ => ?_) as
  rintro ⟨id, l, hl, -⟩
  cases hl

/-- The context is shut on `+PDP` while it is usable; a connection parked meanwhile
is stranded by the failure of the `AT+CIPSHUT`. -/
theorem failed_shut_strands : ∃ s : State Unit,
    run step boot [.simstatus true, .openlink () false, .urc (lua "STATE: IP STATUS"),
      .urc (lua "+PDP: DEACT"), .connect 0 (lua "TCP") (lua "a.b") (lua "80"), .sendat,
      .respond false (lua "ERROR") none] = some s ∧ ¬NoneStranded s := by
  refine ⟨_, rfl, fun h => h (by decide) (by decide) ⟨0, _, rfl, by decide⟩⟩

end LuatAir200.Links
