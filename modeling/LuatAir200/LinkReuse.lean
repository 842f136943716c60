import LuatAir200.LinkQueue

/-!
# Reusing a link id

While an `AT+CIPCLOSE` is the last command of a link that is being closed, the
response that frees the slot leaves no command for the id behind: the next link
with this id hears nothing of the commands of its predecessor.
-/
namespace LuatAir200.Links
open Lua Machine

variable {ν : Type}

/-- `close` is accepted only when nothing is on its way that will call `closecnf`, and
no parked connection of a link that is being closed is released. -/
def ClosesOnce (s : State ν) (a : Act ν) : Prop :=
  (∀ id, a = .close id → (close id s).2 = true →
    (∀ c ∈ s.ril.items, c.cmd ≠ .cipclose id) ∧ .closecnf id ∉ s.qmsg) ∧
  (reportOf a = some (lua "IP STATUS") → s.ipstatus ≠ lua "IP STATUS" →
    ∀ id l, s.linklist id = some l → l.state = .closing → l.pending = none)

/-- A free slot has no command; a link that is being closed has its `AT+CIPCLOSE` as
its last command, and nothing else that could free it. -/
structure Tidy (id : ℕ) (v : View ν) : Prop where
  free : v.link = none → v.cmds = [] ∧ .closecnf id ∉ v.msgs
  closing : ∀ l, v.link = some l → l.state = .closing → .closecnf id ∉ v.msgs ∧
    ∃ cs no, v.cmds = cs ++ [⟨no, .cipclose id⟩] ∧ ∀ c ∈ cs, c.cmd ≠ .cipclose id

theorem Tidy.of_open {id : ℕ} {v : View ν} {l : Link ν} (hl : v.link = some l)
    (hs : l.state ≠ .closing) : Tidy id v where
  free h := by
    rw [hl] at h
    cases h
  closing k hk hc := by
    rw [hl] at hk
    cases hk
    exact absurd hc hs

/-- The last of some commands, when it is not the first one. -/
theorem append_eq_cons {α : Type} {cs : List α} {x y : α} {ys : List α}
    (h : cs ++ [x] = y :: ys) : y = x ∧ cs = [] ∧ ys = [] ∨ ∃ ds, cs = y :: ds ∧ ys = ds ++ [x] := by
  cases cs with
  | nil =>
      cases h
      exact .inl ⟨rfl, rfl, rfl⟩
  | cons c cs =>
      cases h
      exact .inr ⟨cs, rfl, rfl⟩

/-- Taking an event keeps a tidy link tidy, unless the event frees it. -/
theorem Tidy.taken {s : State ν} {a : Act ν} {id : ℕ} (h : Tidy id (view id s))
    (hc : closeOf s a = some id → ∀ l, s.linklist id = some l → l.state ≠ .closing) :
    Tidy id (view id (taken s a)) := by
  have hlink : (view id (Links.taken s a)).link = (view id s).link :=
    congrFun (taken_linklist s a) id
  obtain he | ⟨c, hcc, he⟩ | ⟨m, -, he⟩ := view_taken s a id
  · rw [he]
    exact h
  · have hcmds : (view id s).cmds = c :: (view id (Links.taken s a)).cmds := by rw [he]
    have hmsgs : (view id s).msgs = (view id (Links.taken s a)).msgs := by rw [he]
    constructor
    · intro hn
      have := (h.free (hlink.symm.trans hn)).1
      rw [hcmds] at this
      cases this
    · intro l hl hst
      have hls : s.linklist id = some l := hlink.symm.trans hl
      obtain ⟨hm, cs, no, hcs, hno⟩ := h.closing l hls hst
      refine ⟨hmsgs ▸ hm, ?_⟩
      obtain ⟨hx, -, -⟩ | ⟨ds, rfl, hds⟩ := append_eq_cons (hcs.symm.trans hcmds)
      · exact absurd hst (hc (hcc (by rw [hx])) l hls)
      · exact ⟨ds, no, hds, fun d hd => hno d (List.mem_cons_of_mem c hd)⟩
  · have hcmds : (view id s).cmds = (view id (Links.taken s a)).cmds := by rw [he]
    have hmsgs : (view id s).msgs = m :: (view id (Links.taken s a)).msgs := by rw [he]
    have sub : .closecnf id ∉ (view id s).msgs → .closecnf id ∉ (view id (Links.taken s a)).msgs := by
      rw [hmsgs]
      exact fun h hm => h (List.mem_cons_of_mem m hm)
    constructor
    · intro hn
      obtain ⟨h1, h2⟩ := h.free (hlink.symm.trans hn)
      exact ⟨hcmds ▸ h1, sub h2⟩
    · intro l hl hst
      obtain ⟨hm, h⟩ := h.closing l (hlink.symm.trans hl) hst
      exact ⟨sub hm, hcmds ▸ h⟩

/-- The event that frees a link finds the `AT+CIPCLOSE` at the head of the queue. -/
theorem Tidy.freed {s : State ν} {a : Act ν} {id : ℕ} {l : Link ν} (h : Tidy id (view id s))
    (hc : closeOf s a = some id) (hl : s.linklist id = some l) (hs : l.state = .closing) :
    (view id (Links.taken s a)).cmds = [] ∧ .closecnf id ∉ (view id (Links.taken s a)).msgs := by
  obtain ⟨hm, cs, no, hcs, hno⟩ := h.closing l hl hs
  obtain ⟨n, -, he⟩ | hmem := closeOf_cases hc
  · have hcmds : (view id s).cmds = ⟨n, .cipclose id⟩ :: (view id (Links.taken s a)).cmds := by
      rw [he]
    have hmsgs : (view id s).msgs = (view id (Links.taken s a)).msgs := by rw [he]
    obtain ⟨-, -, hnil⟩ | ⟨ds, rfl, -⟩ := append_eq_cons (hcs.symm.trans hcmds)
    · exact ⟨hnil, hmsgs ▸ hm⟩
    · exact absurd rfl (hno _ List.mem_cons_self)
  · exact absurd hmem hm

theorem step_tidy {s t : State ν} {a : Act ν} {id : ℕ} (hs : Shape s)
    (ht : Tidy id (view id s)) (hg : ClosesOnce s a) (h : step s a = some t) :
    Tidy id (view id t) := by
  have he := step_effect hs h id
  generalize hw : view id t = v at he
  cases he with
  | quiet hc => exact ht.taken fun h l hl => (hc h l hl).2
  | opened => exact .of_open rfl (by simp)
  | closing l ha hl =>
      have hacc : (close id s).2 = true := by
        subst ha
        cases h
        obtain he | ⟨k, -, -, he⟩ := close_cases id s
        · rw [he] at hw
          have hc := congrArg View.cmds hw
          simp at hc
        · rw [he]
      obtain ⟨hno, hm⟩ := hg.1 id ha hacc
      refine ⟨nofun, fun k hk hst => ⟨?_, (view id s).cmds, _, rfl, fun c hc => ?_⟩⟩
      · exact fun hmem => hm (List.mem_filter.mp hmem).1
      · exact hno c (List.mem_filter.mp hc).1
  | called => exact .of_open rfl (by simp)
  | parked => exact .of_open rfl (by simp)
  | started => exact .of_open rfl (by simp)
  | withdrawn => exact .of_open rfl (by simp)
  | disconnecting => exact .of_open rfl (by simp)
  | sent l data ha hl hst => exact .of_open (l := l) hl (by rw [hst]; simp)
  | dropped no data cs ha hc =>
      constructor
      · intro hn
        have := (ht.free hn).1
        rw [hc] at this
        cases this
      · intro l hl hst
        obtain ⟨hm, ds, n, hds, hno⟩ := ht.closing l hl hst
        obtain ⟨hx, -, -⟩ | ⟨es, rfl, hes⟩ := append_eq_cons (hds.symm.trans hc)
        · cases hx
        · exact ⟨hm, es, n, hes, fun c hc => hno c (List.mem_cons_of_mem _ hc)⟩
  | released l c n hr hi hl hp =>
      refine .of_open rfl fun hst => ?_
      have := hg.2 hr hi id l hl hst
      rw [hp] at this
      cases this
  | status => exact .of_open rfl (by dsimp only; split <;> simp)
  | shuted => exact .of_open rfl (by simp)
  | disconnected => exact .of_open rfl (by simp)
  | closed l hc hl hst =>
      exact ⟨fun _ => ht.freed hc hl hst, nofun⟩

/-! ## Requests are only added -/

/-- `t` is reached from `s` by making requests. -/
def Grows (s t : State ν) : Prop := s.requests <+: t.requests

theorem Grows.trans {s t u : State ν} (h : Grows s t) (h' : Grows t u) : Grows s u :=
  List.IsPrefix.trans h h'

theorem Grows.of_eq {s t : State ν} (h : t.requests = s.requests) : Grows s t :=
  ⟨[], by simp [h]⟩

theorem Grows.length {s t : State ν} (h : Grows s t) : s.requests.length ≤ t.requests.length :=
  List.IsPrefix.length_le h

theorem step_grows {s t : State ν} {a : Act ν} (h : step s a = some t) : Grows s t := by
  obtain ⟨u, ⟨cs, -, hr⟩, hu, -⟩ := step_adds h
  exact ⟨cs.map Cmd.cmd, by rw [hr, hu]⟩

/-- A command that appears in the queue is numbered by the requests before it. -/
theorem Effect.fresh {s : State ν} {a : Act ν} {id : ℕ} {v : View ν} (h : Effect s a id v) :
    ∀ c ∈ v.cmds, c ∈ (view id s).cmds ∨ s.requests.length ≤ c.no := by
  have taken : ∀ c ∈ (view id (taken s a)).cmds, c ∈ (view id s).cmds ∨ s.requests.length ≤ c.no := by
    intro c hc
    left
    obtain he | ⟨d, -, he⟩ | ⟨m, -, he⟩ := view_taken s a id
    · rwa [he] at hc
    · rw [he]
      exact List.mem_cons_of_mem d hc
    · rw [he]
      exact hc
  have added (no : ℕ) (cmd : AtCmd) (hn : s.requests.length ≤ no) :
      ∀ c ∈ (view id s).cmds ++ [⟨no, cmd⟩], c ∈ (view id s).cmds ∨ s.requests.length ≤ c.no := by
    intro c hc
    obtain hc | hc := List.mem_append.mp hc
    · exact .inl hc
    · rw [List.mem_singleton] at hc
      exact .inr (by rw [hc]; exact hn)
  cases h with
  | quiet => exact taken
  | closing => exact added _ _ (Nat.le_refl _)
  | started => exact added _ _ (Nat.le_refl _)
  | disconnecting => exact added _ _ (Nat.le_refl _)
  | sent => exact added _ _ (Nat.le_refl _)
  | dropped no data cs ha hc =>
      intro c hm
      rw [hc]
      exact .inl (List.mem_cons_of_mem _ hm)
  | released l c n hr hi hl hp hn => exact added _ _ hn
  | status => exact taken
  | disconnected => exact taken
  | closed => exact taken
  | _ => exact fun c hc => .inl hc

/-- Commands that are in the queue now for an id whose slot was free are younger than that. -/
theorem run_fresh {s t : State ν} {as : List (Act ν)} {id : ℕ} (hs : Shape s)
    (hc : (view id s).cmds = []) (hr : run step s as = some t) :
    ∀ c ∈ (view id t).cmds, s.requests.length ≤ c.no := by
  have hinv : Shape t ∧ Grows s t ∧ ∀ c ∈ (view id t).cmds, s.requests.length ≤ c.no := by
    refine invariant_run (P := fun u => Shape u ∧ Grows s u ∧
      ∀ c ∈ (view id u).cmds, s.requests.length ≤ c.no) ?_ ⟨hs, .of_eq rfl, by simp [hc]⟩ hr
    rintro u a v ⟨hu, hg, hcs⟩ hv
    refine ⟨step_shape u a v hu hv, hg.trans (step_grows hv), fun c hc => ?_⟩
    obtain hc | hc := (step_effect hu hv id).fresh c hc
    · exact hcs c hc
    · exact Nat.le_trans hg.length hc
  exact hinv.2.2

/-- In a run whose steps all meet `ClosesOnce` no command for a free id is queued or
outstanding. So all commands that a later link with this id sees in the queue were
requested after the slot had been free, and no `AT+CIPSEND` is answered for a link
that is gone. -/
theorem reuse_is_safe {as : List (Act ν)} {s : State ν} (hm : Meets step ClosesOnce boot as)
    (hr : run step boot as = some s) :
    (∀ id, s.linklist id = none → ∀ c ∈ s.ril.items, c.cmd.id? ≠ some id) ∧
    (∀ id bs t, s.linklist id = none → run step s bs = some t →
      ∀ c ∈ t.ril.items, c.cmd.id? = some id → s.requests.length ≤ c.no) ∧
    (∀ no id data, s.ril.current = some ⟨no, .cipsend id data⟩ → s.linklist id ≠ none) := by
  have hinv : Shape s ∧ ∀ id, Tidy id (view id s) :=
    guarded_run (P := fun u => Shape u ∧ ∀ id, Tidy id (view id u))
      (fun u a v hu hg hv => ⟨step_shape u a v hu.1 hv, fun id => step_tidy hu.1 (hu.2 id) hg hv⟩)
      ⟨boot_shape, fun id => ⟨fun _ => ⟨rfl, by simp [view, boot]⟩, fun _ => nofun⟩⟩ hm hr
  obtain ⟨hs, ht⟩ := hinv
  have hfree : ∀ id, s.linklist id = none → (view id s).cmds = [] :=
    fun id hl => ((ht id).free hl).1
  have hnone : ∀ id, s.linklist id = none → ∀ c ∈ s.ril.items, c.cmd.id? ≠ some id := by
    intro id hl c hc hid
    have : c ∈ (view id s).cmds := List.mem_filter.mpr ⟨hc, by simp [hid, -AtCmd.id?]⟩
    rw [hfree id hl] at this
    cases this
  refine ⟨hnone, ?_, ?_⟩
  · intro id bs t hl hbs c hc hid
    exact run_fresh hs (hfree id hl) hbs c (List.mem_filter.mpr ⟨hc, by simp [hid, -AtCmd.id?]⟩)
  · intro no id data hcur hl
    refine hnone id hl ⟨no, .cipsend id data⟩ ?_ rfl
    rw [Fifo.items_eq_cons hcur]
    exact List.mem_cons_self

theorem reuse_is_safe_once : ∃ s : State Unit,
    run step boot [.openlink () false, .close 0, .sendat, .respond true (lua "0, CLOSE OK") none] =
      some s ∧ s.linklist 0 = none ∧ ∀ c ∈ s.ril.items, c.cmd.id? ≠ some 0 := by
  have hm : Meets step ClosesOnce boot [.openlink () false, .close 0, .sendat,
      .respond true (lua "0, CLOSE OK") none] := by
    refine fun _ h1 => ⟨⟨nofun, nofun⟩, fun _ h2 => ⟨⟨fun id hid _ => ?_, nofun⟩, fun _ _ =>
      ⟨⟨nofun, nofun⟩, fun _ _ => ⟨⟨nofun, nofun⟩, trivial⟩⟩⟩⟩
    cases h1
    cases hid
    exact ⟨by decide, by decide⟩
  exact ⟨_, rfl, rfl, (reuse_is_safe hm rfl).1 0 rfl⟩

/-- `close` is accepted again while the link is being closed: `CLOSEING` is not
`CLOSING`. The second `AT+CIPCLOSE` is still queued when the slot is free, and ends
the connection of the next link with this id. -/
theorem closed_twice_leaves_command : ∃ s : State Unit,
    run step boot [.openlink () false, .close 0, .close 0, .sendat,
      .respond true (lua "0, CLOSE OK") none] = some s ∧
    s.linklist 0 = none ∧ ⟨1, .cipclose 0⟩ ∈ s.ril.items :=
  ⟨_, rfl, rfl, by decide⟩

end LuatAir200.Links
