import LuatAir200.LinkLife

/-!
# Requests stay in the queue

No function of `link.lua` takes a command out of the queue of `ril.lua`. A command leaves
it when its response comes, or when `ril` drops it as malformed.
-/
namespace LuatAir200.Links
open Lua Machine

variable {ν : Type}

/-- `t` is reached from `s` by making requests. -/
def Adds (s t : State ν) : Prop :=
  ∃ cs, t.ril.items = s.ril.items ++ cs ∧ t.requests = s.requests ++ cs.map Cmd.cmd

namespace Adds
variable {s t u : State ν}

theorem same (h : t.ril = s.ril) (hr : t.requests = s.requests) : Adds s t :=
  ⟨[], by simp [h], by simp [hr]⟩

theorem refl (s : State ν) : Adds s s := same rfl rfl

theorem trans (h : Adds s t) (k : Adds t u) : Adds s u := by
  obtain ⟨cs, hi, hr⟩ := h
  obtain ⟨ds, ki, kr⟩ := k
  exact ⟨cs ++ ds, by rw [ki, hi, List.append_assoc], by
    rw [kr, hr, List.map_append, List.append_assoc]⟩

/-- A change elsewhere, and then the requests. -/
theorem after (k : Adds t u) (h : t.ril = s.ril) (hr : t.requests = s.requests) : Adds s u :=
  (same h hr).trans k

theorem subset (h : Adds s t) : s.ril.items ⊆ t.ril.items := by
  obtain ⟨cs, hi, -⟩ := h
  rw [hi]
  exact List.subset_append_left _ _

theorem req (c : AtCmd) (s : State ν) : Adds s (req c s) :=
  ⟨[⟨s.requests.length, c⟩], Fifo.items_push _ _, rfl⟩

theorem setupIP (s : State ν) : Adds s (setupIP s) := by
  unfold Links.setupIP
  split
  · exact refl s
  split
  · exact refl s
  · exact (((req _ s).trans (req _ _)).trans (req _ _)).trans (same rfl rfl)

theorem startconnectingtimer (id : ℕ) (s : State ν) : Adds s (startconnectingtimer id s) := by
  unfold Links.startconnectingtimer
  split <;> exact same rfl rfl

theorem usersckntfy (l : Link ν) (s : State ν) : Adds s (usersckntfy l s) := by
  unfold Links.usersckntfy
  split <;> exact same rfl rfl

theorem stopcheckciicr (s : State ν) : Adds s (stopcheckciicr s) := by
  unfold Links.stopcheckciicr
  split <;> exact same rfl rfl

theorem shut (s : State ν) : Adds s (shut s) := by
  unfold Links.shut
  split
  · exact same rfl rfl
  · dsimp only
    split <;> exact (req .cipshut s).trans (same rfl rfl)

theorem querycgatt (s : State ν) : Adds s (querycgatt s) := by
  unfold Links.querycgatt
  split
  · exact refl s
  · exact req _ s

theorem endOf (s : State ν) : Adds s (endOf s) := by
  unfold Links.endOf
  split
  · exact shut s
  · exact refl s

theorem initial (s : State ν) : Adds s (initial s) := by
  unfold Links.initial
  split
  · exact refl s
  · have h : Adds s { s with inited := true } := same rfl rfl
    exact (((h.trans (req _ _)).trans (req _ _)).trans (req _ _)).trans (req _ _)

/-! ## The interface -/

theorem openid (id : ℕ) (n : ν) (tag : Bool) (s : State ν) : Adds s (openid id n tag s).1 := by
  unfold Links.openid
  split
  · exact refl s
  · dsimp only
    split
    · exact same rfl rfl
    · exact (setupIP _).after rfl rfl

theorem openlink (n : ν) (tag : Bool) (s : State ν) : Adds s (openlink n tag s).1 := by
  unfold Links.openlink
  split
  · exact refl s
  · exact openid _ n tag s

theorem close (id : ℕ) (s : State ν) : Adds s (close id s).1 := by
  obtain he | ⟨l, -, -, he⟩ := close_cases id s <;> rw [he]
  · exact refl s
  · exact (req _ _).after rfl rfl

theorem connect (id : ℕ) (prot addr port : LuaString) (s : State ν) :
    Adds s (connect id prot addr port s).1 := by
  obtain he | ⟨l, -, -, -, ⟨-, he⟩ | ⟨-, he⟩ | ⟨-, he⟩⟩ := connect_cases id prot addr port s <;>
    rw [he]
  · exact refl s
  · exact same rfl rfl
  · exact same rfl rfl
  · exact ((req _ _).trans (startconnectingtimer _ _)).after rfl rfl

theorem disconnect (id : ℕ) (s : State ν) : Adds s (disconnect id s).1 := by
  obtain he | ⟨l, -, -, ⟨-, -, he⟩ | he⟩ := disconnect_cases id s <;> rw [he]
  · exact refl s
  · exact same rfl rfl
  · exact (req _ _).after rfl rfl

theorem send (id : ℕ) (data : LuaString) (s : State ν) : Adds s (send id data s).1 := by
  obtain he | ⟨l, -, -, -, he⟩ := send_cases id data s <;> rw [he]
  · exact refl s
  · exact req _ s

/-! ## Events -/

theorem sendcnf {id : ℕ} {r : LuaString} (h : sendcnf id r s = some t) : Adds s t := by
  rw [sendcnf_eq] at h
  obtain ⟨l, -, rfl⟩ := Option.map_eq_some_iff.mp h
  exact same rfl rfl

theorem closecnf (id : ℕ) (s : State ν) : Adds s (closecnf id s) := by
  unfold Links.closecnf
  split
  · exact refl s
  split
  · exact same rfl rfl
  split
  · exact (usersckntfy _ s).trans (same rfl rfl)
  · exact refl s

theorem statusind (id : ℕ) (st : LuaString) (s : State ν) : Adds s (statusind id st s) := by
  unfold Links.statusind
  split
  · exact refl s
  split
  · split <;> exact same rfl rfl
  · refine Adds.trans ?_ (same rfl rfl)
    exact (usersckntfy _ _).after rfl rfl

theorem connpend (is : List ℕ) (s : State ν) : Adds s (connpend is s) := by
  induction is generalizing s with
  | nil => exact refl s
  | cons i is ih =>
      unfold Links.connpend
      split
      · exact ih s
      split
      · exact ih s
      · refine Adds.trans ?_ (ih _)
        exact ((req _ s).trans (startconnectingtimer _ _)).trans (same rfl rfl)

theorem ipstatusChanged (s : State ν) : Adds s (ipstatusChanged s) := by
  unfold Links.ipstatusChanged
  split
  · exact refl s
  split
  · exact connpend ids s
  split
  · exact same rfl rfl
  split
  · exact same rfl rfl
  split
  · exact (req _ s).trans (req _ _)
  · exact (shut s).trans (same rfl rfl)

theorem setIPStatus (status : LuaString) (s : State ν) : Adds s (setIPStatus status s) := by
  rw [setIPStatus_eq]
  split
  · refine Adds.trans ?_ (ipstatusChanged _)
    unfold reported
    dsimp only
    split <;> split <;> exact same rfl rfl
  · exact refl s

theorem shutLoop (is : List ℕ) (s : State ν) : Adds s (shutLoop is s) := by
  induction is generalizing s with
  | nil => exact stopcheckciicr s
  | cons i is ih =>
      unfold Links.shutLoop
      split
      · exact ih s
      split
      · exact (ih _).after rfl rfl
      · exact same rfl rfl

theorem shutcnf (response : LuaString) (s : State ν) : Adds s (shutcnf response s) := by
  have hs : Adds s (shutEnded s) := by
    unfold shutEnded
    split <;> exact same rfl rfl
  rw [shutcnf_eq]
  split
  · exact (hs.trans (setIPStatus _ _)).trans (shutLoop ids _)
  · exact hs.trans ((stopcheckciicr _).after rfl rfl)

theorem cgattrsp (i : Option LuaString) (s : State ν) : Adds s (cgattrsp i s) := by
  unfold Links.cgattrsp
  split
  · dsimp only
    split
    · split
      · exact (setupIP _).after rfl rfl
      · exact (req _ _).after rfl rfl
    · exact same rfl rfl
  split
  · dsimp only
    split <;> exact same rfl rfl
  · exact refl s

theorem rsp {cmd : AtCmd} {success : Bool} {response : LuaString}
    {intermediate : Option LuaString} (h : rsp cmd success response intermediate s = some t) :
    Adds s t := by
  cases cmd with
  | cipsend id data =>
      simp only [Links.rsp] at h
      split at h
      · split at h
        · exact (req _ s).trans (sendcnf h)
        · obtain ⟨r, -, h⟩ := Option.bind_eq_some_iff.mp h
          exact (req _ s).trans (sendcnf h)
      · split at h
        · exact sendcnf h
        · obtain ⟨r, -, h⟩ := Option.bind_eq_some_iff.mp h
          exact sendcnf h
  | cipclose id => cases h; exact closecnf id s
  | cipshut => cases h; exact shutcnf response s
  | cipstart c =>
      cases h
      split
      · exact statusind _ _ s
      · exact refl s
  | ciicr =>
      cases h
      split
      · split
        · split <;> exact same rfl rfl
        · exact refl s
      · exact (shut s).trans (same rfl rfl)
  | cgatt => cases h; exact cgattrsp intermediate s
  | _ => cases h; exact refl s

theorem urc (data pfx : LuaString) (s : State ν) : Adds s (urc data pfx s) := by
  unfold Links.urc
  split
  · exact setIPStatus _ s
  split
  · exact refl s
  split
  · exact (shut s).trans (same rfl rfl)
  split
  · exact refl s
  split
  · exact statusind _ _ s
  · exact refl s

theorem proc (p : Proc) (s : State ν) : Adds s (proc p s) := by
  cases p with
  | imsiReady code =>
      unfold Links.proc
      dsimp only
      split <;> exact same rfl rfl
  | flymode on =>
      unfold Links.proc
      dsimp only
      split
      · exact same rfl rfl
      · exact (req _ _).after rfl rfl
  | update on => cases on with
    | true => exact same rfl rfl
    | false => exact (endOf _).after rfl rfl
  | dbg on => cases on with
    | true => exact same rfl rfl
    | false => exact (endOf _).after rfl rfl
  | ntp on => cases on with
    | true => exact same rfl rfl
    | false => exact (endOf _).after rfl rfl
  | registered => exact (initial s).trans (same rfl rfl)

theorem resume (r : Rest) (s : State ν) : Adds s (resume r s) := by
  cases r with
  | done => exact refl s
  | stopconnectingtimer id => exact same rfl rfl
  | disconnected id =>
      unfold Links.resume
      dsimp only
      split
      · exact (usersckntfy _ s).trans (same rfl rfl)
      · exact refl s
  | shut i is =>
      unfold Links.resume
      dsimp only
      split
      · exact (usersckntfy _ s).trans ((shutLoop is _).after rfl rfl)
      · exact refl s

end Adds

/-- A command leaves the queue in a step when its response comes or when it is malformed;
apart from that the step makes requests. -/
theorem step_adds {s t : State ν} {a : Act ν} (h : step s a = some t) :
    ∃ u : State ν, Adds u t ∧ u.requests = s.requests ∧ ∀ c ∈ s.ril.items,
      c ∈ u.ril.items ∨ c.cmd.wellFormed = false ∨
        s.ril.current = some c ∧ ∃ success response intermediate,
          a = .respond success response intermediate := by
  have plain (h : Adds s t) : ∃ u : State ν, Adds u t ∧ u.requests = s.requests ∧
      ∀ c ∈ s.ril.items, c ∈ u.ril.items ∨ c.cmd.wellFormed = false ∨
        s.ril.current = some c ∧ ∃ success response intermediate,
          a = .respond success response intermediate := ⟨s, h, rfl, fun c hc => .inl hc⟩
  cases a with
  | sendat =>
      obtain ⟨q, hq, rfl⟩ := Option.map_eq_some_iff.mp h
      refine ⟨_, Adds.refl _, rfl, fun c hc => ?_⟩
      by_cases hw : c.cmd.wellFormed = true
      · exact .inl (Fifo.mem_start hq hc hw)
      · exact .inr (.inl (by simpa using hw))
  | respond success response intermediate =>
      simp only [step] at h
      split at h
      · rename_i d hf hcur
        refine ⟨_, Adds.rsp h, rfl, fun c hc => ?_⟩
        rw [Fifo.items_eq_cons hcur, List.mem_cons] at hc
        obtain rfl | hc := hc
        · exact .inr (.inr ⟨hcur, _, _, _, rfl⟩)
        · exact .inl hc
      · cases h
  | openid id n tag => cases h; exact plain (Adds.openid id n tag s)
  | openlink n tag => cases h; exact plain (Adds.openlink n tag s)
  | close id => cases h; exact plain (Adds.close id s)
  | connect id prot addr port => cases h; exact plain (Adds.connect id prot addr port s)
  | disconnect id => cases h; exact plain (Adds.disconnect id s)
  | send id data => cases h; exact plain (Adds.send id data s)
  | shut => cases h; exact plain (Adds.shut s)
  | querycgatt => cases h; exact plain (Adds.querycgatt s)
  | request cmd => cases h; exact plain (Adds.req _ s)
  | urc data =>
      obtain ⟨-, ⟨⟩⟩ := Option.ite_none_right_eq_some.mp h
      refine plain ?_
      split
      · split
        · exact Adds.urc data _ s
        · exact Adds.refl s
      · exact Adds.refl s
  | msg =>
      simp only [step] at h
      split at h
      · rename_i m ms hf hm
        cases h
        cases m with
        | statusind id st => exact plain ((Adds.statusind id st _).after rfl rfl)
        | closecnf id => exact plain ((Adds.closecnf id _).after rfl rfl)
        | _ => exact plain (Adds.same rfl rfl)
      · cases h
  | proc p =>
      obtain ⟨-, ⟨⟩⟩ := Option.ite_none_right_eq_some.mp h
      exact plain (Adds.proc p s)
  | expire k =>
      obtain ⟨-, he⟩ := Option.ite_none_right_eq_some.mp h
      cases k with
      | setupIP => cases he; exact plain ((Adds.setupIP _).after rfl rfl)
      | cipstatus => cases he; exact plain ((Adds.req _ _).after rfl rfl)
      | querycgatt => cases he; exact plain ((Adds.querycgatt _).after rfl rfl)
      | checkciicr => cases he
      | connecting id =>
          simp only [expire] at he
          split at he
          · cases he
          · cases he
            exact plain (Adds.same rfl rfl)
  | ret =>
      obtain ⟨f, -, rfl⟩ := Option.map_eq_some_iff.mp h
      exact plain ((Adds.resume f.2 _).after rfl rfl)
  | _ => cases h; exact plain (Adds.same rfl rfl)

/-- A well-formed command stays until its response comes. -/
theorem step_stays {s t : State ν} {a : Act ν} (h : step s a = some t) {c : Cmd}
    (hc : c ∈ s.ril.items) (hw : c.cmd.wellFormed = true) :
    c ∈ t.ril.items ∨
      s.ril.current = some c ∧ ∃ success response intermediate,
        a = .respond success response intermediate := by
  obtain ⟨u, hu, -, hs⟩ := step_adds h
  obtain hc | hf | hr := hs c hc
  · exact .inl (hu.subset hc)
  · rw [hw] at hf
    cases hf
  · exact .inr hr

end LuatAir200.Links
