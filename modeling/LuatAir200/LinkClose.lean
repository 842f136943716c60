import LuatAir200.LinkLife

/-!
# Closing a link

An accepted `close` marks the link `CLOSING`; the response of its `AT+CIPCLOSE`
frees the slot, provided that no event has overwritten the mark. While an
`AT+CIPCLOSE` is the last command of a link that is being closed, a free slot has
no command left in the queue of `ril`.
-/
namespace LuatAir200.Links
open Lua Machine

variable {ν : Type}

/-! ## The slot is freed -/

/-- The `CLOSE` notices that have been given for link `id`. -/
def closes (id : ℕ) (s : State ν) : List (Notice ν) := (view id s).closes

/-- While link `id` is there no status report reaches it, the loop of `shutcnf` does
not come to it, and it is not disconnected; and its id is not given out again. -/
def KeepsClosing (id : ℕ) (s : State ν) (a : Act ν) : Prop :=
  (s.linklist id ≠ none → (∀ st, statusOf s a = some (id, st) → st = lua "SEND FAIL") ∧
    id ∉ shutOf s a ∧ a ≠ .disconnect id) ∧
  opensOf s a ≠ some id

/-- The link of the notify function `n` is being closed, or is gone and has been told so. -/
def Closing (id : ℕ) (n : ν) (told : List (Notice ν)) (s : State ν) : Prop :=
  (∃ l, s.linklist id = some l ∧ l.notify = n ∧ l.state = .closing ∧ closes id s = told) ∨
    s.linklist id = none ∧ s.urcs id = false ∧
      closes id s = told ++ [⟨n, id, .close, lua "OK"⟩]

theorem validaction_closing {s : State ν} {id : ℕ} {l : Link ν} (hl : s.linklist id = some l)
    (hs : l.state = .closing) : validaction s id .connect = false := by
  simp only [validaction, hl, hs]
  rw [if_neg (by decide), if_pos (by decide)]

theorem close_closing {s : State ν} {id : ℕ} (h : (close id s).2 = true) :
    ∃ l, s.linklist id = some l ∧ Closing id l.notify (closes id s) (close id s).1 := by
  obtain he | ⟨l, -, hl, he⟩ := close_cases id s
  · rw [he] at h
    cases h
  · refine ⟨l, hl, .inl ⟨{ l with state := .closing }, ?_, rfl, rfl, ?_⟩⟩
    · rw [he]
      simp [req, setLink]
    · rw [he, closes, view_req _ (by simp), view_setLink]
      rfl

theorem step_closing {s t : State ν} {a : Act ν} {id : ℕ} {n : ν} {told : List (Notice ν)}
    (hs : Shape s) (hc : Closing id n told s) (hk : KeepsClosing id s a) (h : step s a = some t) :
    Closing id n told t := by
  have htk : (taken s a).linklist id = s.linklist id ∧ (taken s a).urcs = s.urcs ∧
      closes id (taken s a) = closes id s := by cases a <;> exact ⟨rfl, rfl, rfl⟩
  obtain ⟨hlink, hurc, hcl⟩ := htk
  have he := step_effect hs h id
  generalize hw : view id t = v at he
  have h1 : t.linklist id = v.link := congrArg View.link hw
  have h2 : t.urcs id = v.urc := congrArg View.urc hw
  have h3 : closes id t = v.closes := congrArg View.closes hw
  obtain ⟨hkl, hko⟩ := hk
  obtain ⟨l, hl, hn, hst, htold⟩ | ⟨hl, hu, htold⟩ := hc
  · have hin : s.linklist id ≠ none := by rw [hl]; simp
    obtain ⟨hks, hkm, hkd⟩ := hkl hin
    rw [Closing, h1, h2, h3]
    cases he with
    | quiet => exact .inl ⟨l, hlink.trans hl, hn, hst, hcl.trans htold⟩
    | opened _ _ _ hf => rw [hl] at hf; cases hf
    | closing k ha hk =>
        rw [hl] at hk
        cases hk
        exact .inl ⟨_, rfl, hn, rfl, htold⟩
    | called k _ _ _ _ hv => rw [validaction_closing hl hst] at hv; cases hv
    | parked k _ _ _ _ hv => rw [validaction_closing hl hst] at hv; cases hv
    | started k _ _ _ _ hv => rw [validaction_closing hl hst] at hv; cases hv
    | withdrawn k ha => exact absurd ha hkd
    | disconnecting k ha => exact absurd ha hkd
    | sent => exact .inl ⟨l, hl, hn, hst, htold⟩
    | dropped => exact .inl ⟨l, hl, hn, hst, htold⟩
    | released k c m hr hi hk =>
        rw [hl] at hk
        cases hk
        exact .inl ⟨_, rfl, hn, hst, htold⟩
    | status k st hst' hf => exact absurd (hks st hst') hf
    | shuted k hm => exact absurd hm hkm
    | disconnected k hc hk hd =>
        rw [hl] at hk
        cases hk
        rw [hst] at hd
        cases hd
    | closed k hc hk =>
        rw [hl] at hk
        cases hk
        refine .inr ⟨rfl, rfl, ?_⟩
        rw [← htold, ← hn]
        rfl
  · rw [Closing, h1, h2, h3]
    refine .inr ?_
    cases he with
    | quiet => exact ⟨hlink.trans hl, (congrFun hurc id).trans hu, hcl.trans htold⟩
    | opened _ _ ho => exact absurd ho hko
    | dropped => exact ⟨hl, hu, htold⟩
    | sent k data ha hk => rw [hl] at hk; cases hk
    | _ => simp_all

theorem run_closing {s t : State ν} {as : List (Act ν)} {id : ℕ} {n : ν} {told : List (Notice ν)}
    (hs : Shape s) (hc : Closing id n told s) (hm : Meets step (KeepsClosing id) s as)
    (hr : run step s as = some t) : Shape t ∧ Closing id n told t :=
  guarded_run (P := fun u => Shape u ∧ Closing id n told u)
    (fun u a v hu hk hv => ⟨step_shape u a v hu.1 hv, step_closing hu.1 hu.2 hk hv⟩)
    ⟨hs, hc⟩ hm hr

/-- Once `close` has been accepted, the response of its `AT+CIPCLOSE` finds the slot
freed or frees it: the link is gone, its URC is no longer registered, and its notify
function has been told `CLOSE`, `OK` exactly once since the call. The steps between
must not overwrite the state of the link nor give out its id anew. -/
theorem close_frees {before after : List (Act ν)} {id : ℕ} {s t : State ν}
    (success : Bool) (response : LuaString) (intermediate : Option LuaString)
    (hs : run step boot before = some s) (hc : (close id s).2 = true)
    (hm : Meets step (KeepsClosing id) (close id s).1 after)
    (ht : run step (close id s).1 after = some t) (hf : t.frame = none)
    (hcur : t.ril.current = some ⟨s.requests.length, .cipclose id⟩) :
    ∃ l u, s.linklist id = some l ∧
      step t (.respond success response intermediate) = some u ∧
      u.linklist id = none ∧ u.urcs id = false ∧
      closes id u = closes id s ++ [⟨l.notify, id, .close, lua "OK"⟩] := by
  have hshape : Shape (close id s).1 :=
    step_shape s (.close id) _ (invariant_run step_shape boot_shape hs) rfl
  obtain ⟨l, hl, hcl⟩ := close_closing hc
  obtain ⟨hst, hct⟩ := run_closing hshape hcl hm ht
  have hstep : step t (.respond success response intermediate) =
      some (closecnf id { t with ril := t.ril.finish }) := by
    simp only [step, hf, hcur, rsp]
  refine ⟨l, _, hl, hstep, ?_⟩
  obtain ⟨k, hk, hn, hck, htold⟩ | ⟨hk, hu, htold⟩ := hct
  · rw [closecnf_eq (s := { t with ril := t.ril.finish }) hk, if_neg (by rw [hck]; decide),
      if_pos hck]
    have hv := view_freed id k (usersckntfy k { t with ril := t.ril.finish })
    rw [view_usersckntfy] at hv
    refine ⟨congrArg View.link hv, congrArg View.urc hv, (congrArg View.closes hv).trans ?_⟩
    rw [← htold, ← hn]
    rfl
  · have he : closecnf id { t with ril := t.ril.finish } = { t with ril := t.ril.finish } := by
      simp only [closecnf, hk]
    rw [he]
    exact ⟨hk, hu, htold⟩

theorem close_frees_unconnected : ∃ s t u : State Unit,
    run step boot [.openlink () false] = some s ∧ run step (close 0 s).1 [.sendat] = some t ∧
      step t (.respond true (lua "0, CLOSE OK") none) = some u ∧
      u.linklist 0 = none ∧ u.urcs 0 = false ∧ closes 0 u = [⟨(), 0, .close, lua "OK"⟩] := by
  have hs : run step boot [.openlink () false] = some (openlink () false boot).1 := rfl
  have hm : Meets step (KeepsClosing 0) (close 0 (openlink () false boot).1).1 [.sendat] :=
    fun _ _ => ⟨⟨fun _ => ⟨nofun, by simp [shutOf], nofun⟩, nofun⟩, trivial⟩
  obtain ⟨l, u, hl, hu, h1, h2, h3⟩ := close_frees true (lua "0, CLOSE OK") none hs (by decide) hm rfl rfl rfl
  cases hl
  exact ⟨_, _, u, hs, rfl, hu, h1, h2, h3⟩

/-- The server closes the connection while the `AT+CIPCLOSE` waits in the queue: the
link is only marked `CLOSED`, and its slot is never freed. -/
theorem closed_by_server_leaks : ∃ s t u : State Unit,
    run step boot [.openlink () false, .urc (lua "STATE: IP STATUS"),
      .connect 0 (lua "TCP") (lua "a.b") (lua "80"), .sendat, .respond true (lua "OK") none,
      .urc (lua "0, CONNECT OK"), .ret] = some s ∧ (close 0 s).2 = true ∧
    run step (close 0 s).1 [.urc (lua "0, CLOSED"), .ret, .sendat] = some t ∧
    t.ril.current = some ⟨s.requests.length, .cipclose 0⟩ ∧
    step t (.respond true (lua "0, CLOSE OK") none) = some u ∧
    u.linklist 0 ≠ none ∧ u.urcs 0 = true ∧ closes 0 u = [] :=
  ⟨_, _, _, rfl, by decide, rfl, rfl, rfl, nofun, by decide, rfl⟩

end LuatAir200.Links
