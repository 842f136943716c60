import Mathlib.Data.List.Basic
import LuatAir200.LinkModel

/-!
# The life of one link

`view id` is what the program holds about one link id: its entry in the table,
its AT commands and local events in their queues, and how often it was started
and closed. `Effect` lists what one action can do to it. The invariants of the
link table are proved from this list alone.
-/
namespace LuatAir200.Links
open Lua Machine

variable {ν : Type}

/-- `AT+CIPSTART` for `id`. -/
def AtCmd.starts (id : ℕ) : AtCmd → Bool
  | .cipstart c => c.id = id
  | _ => false

structure View (ν : Type) where
  link : Option (Link ν)
  urc : Bool
  /-- The commands for this id that are queued or outstanding. -/
  cmds : List Cmd
  msgs : List Msg
  /-- How many `AT+CIPSTART` have been requested. -/
  starts : ℕ
  /-- The `CLOSE` notices that have been given. -/
  closes : List (Notice ν)

def view (id : ℕ) (s : State ν) : View ν where
  link := s.linklist id
  urc := s.urcs id
  cmds := s.ril.items.filter fun c => c.cmd.id? = some id
  msgs := s.qmsg.filter fun m => m.id? = some id
  starts := s.requests.countP (AtCmd.starts id)
  closes := s.log.filter fun n => n.id = id ∧ n.evt = .close

/-! ## What an action is about -/

/-- The state in which the handler of an event starts: a response takes its
command from `ril`, a message leaves the queue. -/
def taken (s : State ν) : Act ν → State ν
  | .respond _ _ _ => { s with ril := s.ril.finish }
  | .msg => { s with qmsg := s.qmsg.tail }
  | _ => s

/-- The call of `statusind` that an event leads to. -/
def statusOf (s : State ν) : Act ν → Option (ℕ × LuaString)
  | .urc data =>
      match smatch1 data (lua "(%+*[%u%d& ]+)") with
      | some pfx =>
          if registered s pfx ∧ pfx ≠ lua "STATE" ∧ pfx ≠ lua "C" ∧ pfx ≠ lua "+PDP" ∧
              pfx ≠ lua "+RECEIVE" then
            (smatch2 data (lua "(%d), *([%u :%d]+)")).map fun r => (tonumber r.1, r.2)
          else none
      | none => none
  | .respond _ response _ =>
      match s.ril.current with
      | some ⟨_, .cipstart c⟩ => if response = lua "ERROR" then some (c.id, lua "ERROR") else none
      | _ => none
  | .msg =>
      match s.qmsg with
      | .statusind id state :: _ => some (id, state)
      | _ => none
  | _ => none

/-- The call of `closecnf` that an event leads to. -/
def closeOf (s : State ν) : Act ν → Option ℕ
  | .respond _ _ _ =>
      match s.ril.current with
      | some ⟨_, .cipclose id⟩ => some id
      | _ => none
  | .msg =>
      match s.qmsg with
      | .closecnf id :: _ => some id
      | _ => none
  | _ => none

/-- The links that the loop of `shutcnf` has still to visit. -/
def shutOf (s : State ν) : Act ν → List ℕ
  | .respond _ response _ =>
      match s.ril.current with
      | some ⟨_, .cipshut⟩ => if response = lua "SHUT OK" ∨ !s.simready then ids else []
      | _ => []
  | .ret =>
      match s.frame with
      | some (_, .shut _ is) => is
      | _ => []
  | _ => []

/-- The IP status that a `STATE` report carries. -/
def reportOf : Act ν → Option LuaString
  | .urc data =>
      if smatch1 data (lua "(%+*[%u%d& ]+)") = some (lua "STATE") then some (data.drop 7) else none
  | _ => none

/-- The id that an action gives out. -/
def opensOf (s : State ν) : Act ν → Option ℕ
  | .openid id _ _ => if MAXLINKS < id ∨ s.linklist id ≠ none then none else some id
  | .openlink _ _ => emptylink s
  | _ => none

/-- What an action can do to one link. -/
inductive Effect (s : State ν) (a : Act ν) (id : ℕ) : View ν → Prop
  | quiet (hc : closeOf s a = some id → ∀ l, s.linklist id = some l →
      l.state ≠ .disconnecting ∧ l.state ≠ .closing) : Effect s a id (view id (taken s a))
  | opened (n : ν) (tag : Bool) (ho : opensOf s a = some id) (hl : s.linklist id = none)
      (hid : id ≤ MAXLINKS) :
      Effect s a id { view id s with link := some ⟨n, tag, .initial, none⟩, urc := true }
  | closing (l : Link ν) (ha : a = .close id) (hl : s.linklist id = some l) :
      Effect s a id { view id s with
        link := some { l with state := .closing }
        cmds := (view id s).cmds ++ [⟨s.requests.length, .cipclose id⟩] }
  | called (l : Link ν) (prot addr port : LuaString) (ha : a = .connect id prot addr port)
      (hv : validaction s id .connect) (hl : s.linklist id = some l) (hn : l.state ≠ .connected) :
      Effect s a id { view id s with
        link := some { l with state := .connecting }
        msgs := (view id s).msgs ++ [.statusind id (lua "CONNECT FAIL")] }
  | parked (l : Link ν) (prot addr port : LuaString) (ha : a = .connect id prot addr port)
      (hv : validaction s id .connect) (hl : s.linklist id = some l) (hn : l.state ≠ .connected)
      (hw : !ipready s ∨ s.shuting) :
      Effect s a id { view id s with
        link := some { l with state := .connecting, pending := some ⟨id, prot, addr, port⟩ } }
  | started (l : Link ν) (prot addr port : LuaString) (ha : a = .connect id prot addr port)
      (hv : validaction s id .connect) (hl : s.linklist id = some l) (hn : l.state ≠ .connected) :
      Effect s a id { view id s with
        link := some { l with state := .connecting }
        cmds := (view id s).cmds ++ [⟨s.requests.length, .cipstart ⟨id, prot, addr, port⟩⟩]
        starts := (view id s).starts + 1 }
  | withdrawn (l : Link ν) (ha : a = .disconnect id) (hl : s.linklist id = some l)
      (hp : l.pending ≠ none) (hs : l.state = .connecting) :
      Effect s a id { view id s with
        link := some { l with pending := none, state := .disconnecting }
        msgs := (view id s).msgs ++ [.closecnf id] }
  | disconnecting (l : Link ν) (ha : a = .disconnect id) (hl : s.linklist id = some l) :
      Effect s a id { view id s with
        link := some { l with pending := none, state := .disconnecting }
        cmds := (view id s).cmds ++ [⟨s.requests.length, .cipclose id⟩] }
  | sent (l : Link ν) (data : LuaString) (ha : a = .send id data) (hl : s.linklist id = some l)
      (hs : l.state = .connected) :
      Effect s a id { view id s with
        cmds := (view id s).cmds ++ [⟨s.requests.length, .cipsend id data⟩] }
  | dropped (no : ℕ) (data : LuaString) (cs : List Cmd) (ha : a = .sendat)
      (hc : (view id s).cmds = ⟨no, .cipsend id data⟩ :: cs) (hd : data = []) :
      Effect s a id { view id s with cmds := cs }
  | released (l : Link ν) (c : Connect) (n : ℕ) (hr : reportOf a = some (lua "IP STATUS"))
      (hi : s.ipstatus ≠ lua "IP STATUS") (hl : s.linklist id = some l) (hp : l.pending = some c)
      (hn : s.requests.length ≤ n) :
      Effect s a id { view id s with
        link := some { l with pending := none }
        cmds := (view id s).cmds ++ [⟨n, .cipstart c⟩]
        starts := (view id s).starts + 1 }
  | status (l : Link ν) (st : LuaString) (hst : statusOf s a = some (id, st))
      (hf : st ≠ lua "SEND FAIL") (hl : s.linklist id = some l) :
      Effect s a id { view id (taken s a) with
        link := some { l with state := if st = lua "CONNECT OK" then .connected else .closed } }
  | shuted (l : Link ν) (hm : id ∈ shutOf s a) (hl : s.linklist id = some l)
      (hs : ¬(l.state = .connecting ∧ l.pending ≠ none)) (hi : l.state ≠ .initial) :
      Effect s a id { view id s with link := some { l with state := .closed } }
  | disconnected (l : Link ν) (hc : closeOf s a = some id) (hl : s.linklist id = some l)
      (hs : l.state = .disconnecting) :
      Effect s a id { view id (taken s a) with link := some { l with state := .closed } }
  | closed (l : Link ν) (hc : closeOf s a = some id) (hl : s.linklist id = some l)
      (hs : l.state = .closing) :
      Effect s a id { view id (taken s a) with
        link := none
        urc := false
        closes := (view id s).closes ++ [⟨l.notify, id, .close, lua "OK"⟩] }

/-! ## Functions that leave the link alone -/

theorem starts_id? {id : ℕ} {c : AtCmd} (h : c.starts id = true) : c.id? = some id := by
  cases c <;> simp_all [AtCmd.starts, AtCmd.id?]

@[simp] theorem view_req_ne {id : ℕ} {c : AtCmd} (s : State ν) (h : ¬c.id? = some id) :
    view id (req c s) = view id s := by
  have hs : c.starts id = false := by
    rw [← Bool.not_eq_true]
    exact fun hs => h (starts_id? hs)
  simp [view, req, h, hs, List.filter_append]

theorem view_req {id : ℕ} {c : AtCmd} (s : State ν) (h : c.id? = some id) :
    view id (req c s) = { view id s with
      cmds := (view id s).cmds ++ [⟨s.requests.length, c⟩]
      starts := (view id s).starts + if c.starts id then 1 else 0 } := by
  simp [view, req, h, List.filter_append, List.countP_singleton]

@[simp] theorem view_dispatch_ne {id : ℕ} {m : Msg} (s : State ν) (h : ¬m.id? = some id) :
    view id (dispatch m s) = view id s := by
  simp [view, dispatch, h, List.filter_append]

theorem view_dispatch {id : ℕ} {m : Msg} (s : State ν) (h : m.id? = some id) :
    view id (dispatch m s) = { view id s with msgs := (view id s).msgs ++ [m] } := by
  simp [view, dispatch, h, List.filter_append]

attribute [simp] AtCmd.id? Msg.id?

@[simp] theorem view_timer_start (id : ℕ) (k : Timer) (ms : ℕ) (s : State ν) :
    view id (timer_start k ms s) = view id s := rfl

@[simp] theorem view_timer_stop (id : ℕ) (k : Timer) (s : State ν) :
    view id (timer_stop k s) = view id s := rfl

@[simp] theorem view_stopconnectingtimer (id k : ℕ) (s : State ν) :
    view id (stopconnectingtimer k s) = view id s := rfl

@[simp] theorem view_startconnectingtimer (id k : ℕ) (s : State ν) :
    view id (startconnectingtimer k s) = view id s := by
  unfold startconnectingtimer
  split <;> rfl

@[simp] theorem view_stopcheckciicr (id : ℕ) (s : State ν) :
    view id (stopcheckciicr s) = view id s := by
  unfold stopcheckciicr
  split <;> rfl

theorem view_setLink_ne {id k : ℕ} (h : id ≠ k) (l : Option (Link ν)) (s : State ν) :
    view id (setLink k l s) = view id s := by
  simp [view, setLink, h]

theorem view_setLink (id : ℕ) (l : Option (Link ν)) (s : State ν) :
    view id (setLink id l s) = { view id s with link := l } := by
  simp [view, setLink]

theorem view_notify (id : ℕ) (l : Link ν) (k : ℕ) (evt : Evt) (val : LuaString) (rest : Rest)
    (s : State ν) (h : evt ≠ .close) : view id (notify l k evt val rest s) = view id s := by
  simp [view, notify, h]

@[simp] theorem view_setupIP (id : ℕ) (s : State ν) : view id (setupIP s) = view id s := by
  have hr : view id (req .cipstatus (req .ciicr (req (.cstt s.apnname s.username s.password) s)))
      = view id s := by simp
  unfold setupIP
  split
  · rfl
  split
  · rfl
  · exact hr

@[simp] theorem view_shut (id : ℕ) (s : State ν) : view id (shut s) = view id s := by
  have hr : view id { req .cipshut s with shuting := true, shutpending := false } = view id s :=
    view_req_ne s (by simp)
  unfold shut
  split
  · rfl
  dsimp only
  split
  · rw [view_dispatch_ne _ (by simp), hr]
  · exact hr

@[simp] theorem view_usersckntfy (id : ℕ) (l : Link ν) (s : State ν) :
    view id (usersckntfy l s) = view id s := by
  unfold usersckntfy
  split <;> simp

@[simp] theorem view_querycgatt (id : ℕ) (s : State ν) : view id (querycgatt s) = view id s := by
  unfold querycgatt
  split <;> simp

@[simp] theorem view_endOf (id : ℕ) (s : State ν) : view id (endOf s) = view id s := by
  unfold endOf
  split <;> simp

@[simp] theorem view_initial (id : ℕ) (s : State ν) : view id (initial s) = view id s := by
  unfold initial
  split
  · rfl
  · simp only [view_req_ne, AtCmd.id?, reduceCtorEq, not_false_eq_true]
    rfl

@[simp] theorem view_setapn (id : ℕ) (a b c : LuaString) (s : State ν) :
    view id (setapn a b c s) = view id s := rfl

theorem view_proc (id : ℕ) (p : Proc) (s : State ν) : view id (proc p s) = view id s := by
  cases p with
  | imsiReady code =>
      simp only [proc]
      split <;> rfl
  | flymode on =>
      simp only [proc]
      split
      · rfl
      · exact view_req_ne _ (by simp)
  | update on =>
      simp only [proc]
      split
      · rfl
      · exact view_endOf id _
  | dbg on =>
      simp only [proc]
      split
      · rfl
      · exact view_endOf id _
  | ntp on =>
      simp only [proc]
      split
      · rfl
      · exact view_endOf id _
  | registered => simp [proc]

theorem view_cgattrsp (id : ℕ) (i : Option LuaString) (s : State ν) :
    view id (cgattrsp i s) = view id s := by
  have hr : view id (dispatch (.netGprsReady true) { s with cgatt := lua "1" }) = view id s :=
    view_dispatch_ne _ (by simp)
  have hn : view id (dispatch (.netGprsReady false) { s with cgatt := lua "0" }) = view id s :=
    view_dispatch_ne _ (by simp)
  unfold cgattrsp
  split
  · dsimp only
    split
    · split <;> simp [hr]
    · exact hr
  split
  · dsimp only
    split
    · exact hn
    · rfl
  · rfl

/-! ## The handlers of one link -/

/-- The three results that `sendcnf` looks for are longer than what its pattern finds. -/
theorem sendcnf_eq (id : ℕ) (result : LuaString) (s : State ν) :
    sendcnf id result s = (s.linklist id).map fun l =>
      notify l id .send result .done (setLink id (some l) s) := by
  have hs : ∀ x : LuaString, x.length ≠ 1 → smatch1 result (lua "([%u ])") ≠ some x := by
    intro x hx h
    have hp : parse (lua "([%u ])") = some ⟨false,
        [.openCap, .cls (.set false [.inr 117, .inl (32, 32)]) .one, .closeCap]⟩ := by decide
    exact hx (smatch1_single hp h)
  have h1 := hs (lua "TCP ERROR") (by decide)
  have h2 := hs (lua "UDP ERROR") (by decide)
  have h3 := hs (lua "ERROR") (by decide)
  unfold sendcnf
  simp only [h1, h2, h3, or_false, if_false]

theorem setLink_self {id : ℕ} {l : Link ν} {s : State ν} (h : s.linklist id = some l) :
    setLink id (some l) s = s := by
  unfold setLink
  rw [← h, Function.update_eq_self]

theorem setLink_setLink (id : ℕ) (l k : Option (Link ν)) (s : State ν) :
    setLink id l (setLink id k s) = setLink id l s := by
  simp [setLink]

theorem view_sendcnf {id k : ℕ} {result : LuaString} {s t : State ν}
    (h : sendcnf k result s = some t) : view id t = view id s := by
  rw [sendcnf_eq] at h
  obtain ⟨l, hl, rfl⟩ := Option.map_eq_some_iff.mp h
  rw [view_notify _ _ _ _ _ _ _ (by simp), setLink_self hl]

/-- The update of `closecnf` that frees a link. -/
def freed (l : Link ν) (k : ℕ) (s : State ν) : State ν :=
  notify l k .close (lua "OK") (.stopconnectingtimer k)
    { setLink k none s with urcs := Function.update s.urcs k false }

theorem view_freed_ne {id k : ℕ} (h : id ≠ k) (l : Link ν) (s : State ν) :
    view id (freed l k s) = view id s := by
  simp [view, freed, notify, setLink, h, Ne.symm h]

theorem view_freed (id : ℕ) (l : Link ν) (s : State ν) :
    view id (freed l id s) = { view id s with
      link := none
      urc := false
      closes := (view id s).closes ++ [⟨l.notify, id, .close, lua "OK"⟩] } := by
  simp [view, freed, notify, setLink]

theorem closecnf_eq {k : ℕ} {l : Link ν} {s : State ν} (h : s.linklist k = some l) :
    closecnf k s =
      if l.state = .disconnecting then
        notify l k .disconnect (lua "OK") (.disconnected k)
          (setLink k (some { l with state := .closed }) s)
      else if l.state = .closing then freed l k (usersckntfy l s)
      else s := by
  simp only [closecnf, h, freed]

theorem view_closecnf_ne {id k : ℕ} (h : id ≠ k) (s : State ν) :
    view id (closecnf k s) = view id s := by
  cases hl : s.linklist k with
  | none => simp [closecnf, hl]
  | some l =>
      rw [closecnf_eq hl]
      split
      · rw [view_notify _ _ _ _ _ _ _ (by simp), view_setLink_ne h]
      split
      · rw [view_freed_ne h, view_usersckntfy]
      · rfl

theorem view_statusind_ne {id k : ℕ} (h : id ≠ k) (state : LuaString) (s : State ν) :
    view id (statusind k state s) = view id s := by
  cases hl : s.linklist k with
  | none => simp [statusind, hl]
  | some l =>
      simp only [statusind, hl]
      split
      · split
        · exact view_notify _ _ _ _ _ _ _ (by simp)
        · rfl
      · rw [view_notify _ _ _ _ _ _ _ (by split <;> simp), view_usersckntfy, view_setLink_ne h]

theorem view_sendfail (id k : ℕ) (s : State ν) :
    view id (statusind k (lua "SEND FAIL") s) = view id s := by
  unfold statusind
  split
  · rfl
  · simp only [if_true]
    split
    · exact view_notify _ _ _ _ _ _ _ (by simp)
    · rfl

theorem view_statusind {id : ℕ} {l : Link ν} {state : LuaString} {s : State ν}
    (hf : state ≠ lua "SEND FAIL") (hl : s.linklist id = some l) :
    view id (statusind id state s) = { view id s with
      link := some { l with
        state := if state = lua "CONNECT OK" then .connected else .closed } } := by
  simp only [statusind, hl, hf, if_false]
  rw [view_notify _ _ _ _ _ _ _ (by split <;> simp), view_usersckntfy, view_setLink]

/-- What the loop of `shutcnf` does to a link until it calls a notify function. -/
theorem view_shutLoop (id : ℕ) (is : List ℕ) (s : State ν) :
    view id (shutLoop is s) = view id s ∨
      ∃ l, s.linklist id = some l ∧ id ∈ is ∧ ¬(l.state = .connecting ∧ l.pending ≠ none) ∧
        l.state ≠ .initial ∧
        view id (shutLoop is s) = { view id s with link := some { l with state := .closed } } := by
  induction is generalizing s with
  | nil => exact .inl (view_stopcheckciicr id s)
  | cons i is ih =>
      cases hl : s.linklist i with
      | none =>
          simp only [shutLoop, hl]
          obtain h | ⟨l, h1, h2, h3⟩ := ih s
          · exact .inl h
          · exact .inr ⟨l, h1, List.mem_cons_of_mem i h2, h3⟩
      | some l =>
          simp only [shutLoop, hl]
          split
          · obtain h | ⟨l, h1, h2, h3⟩ := ih (stopconnectingtimer i s)
            · exact .inl h
            · exact .inr ⟨l, h1, List.mem_cons_of_mem i h2, h3⟩
          · rename_i hs
            rw [not_or] at hs
            rw [view_notify _ _ _ _ _ _ _ (by simp)]
            by_cases hi : id = i
            · subst hi
              exact .inr ⟨l, hl, List.mem_cons_self, hs.1, hs.2, view_setLink id _ s⟩
            · exact .inl (view_setLink_ne hi _ s)

/-- Every parked connection belongs to its link, and only eight ids exist. -/
structure Shape (s : State ν) : Prop where
  low : ∀ id, MAXLINKS < id → s.linklist id = none
  parked : ∀ id l c, s.linklist id = some l → l.pending = some c → c.id = id

/-- One round of the loop of `connpend`. -/
def release (i : ℕ) (l : Link ν) (c : Connect) (s : State ν) : State ν :=
  setLink i (some { l with pending := none }) (startconnectingtimer c.id (req (.cipstart c) s))

theorem view_release_ne {id i : ℕ} {l : Link ν} {c : Connect} {s : State ν} (h : id ≠ i)
    (hc : c.id = i) : view id (release i l c s) = view id s := by
  rw [release, view_setLink_ne h, view_startconnectingtimer, view_req_ne]
  simpa [hc] using Ne.symm h

theorem view_release {id : ℕ} {l : Link ν} {c : Connect} {s : State ν} (hc : c.id = id) :
    view id (release id l c s) = { view id s with
      link := some { l with pending := none }
      cmds := (view id s).cmds ++ [⟨s.requests.length, .cipstart c⟩]
      starts := (view id s).starts + 1 } := by
  rw [release, view_setLink, view_startconnectingtimer, view_req _ (by simp [hc])]
  simp [AtCmd.starts, hc]

theorem release_length (i : ℕ) (l : Link ν) (c : Connect) (s : State ν) :
    (release i l c s).requests.length = s.requests.length + 1 := by
  unfold release startconnectingtimer
  split <;> simp [setLink, req, timer_start]

theorem Shape.release {s : State ν} (h : Shape s) {i : ℕ} {l : Link ν} {c : Connect}
    (hl : s.linklist i = some l) : Shape (release i l c s) := by
  have hlink : (Links.release i l c s).linklist =
      Function.update s.linklist i (some { l with pending := none }) := by
    unfold Links.release startconnectingtimer
    split <;> rfl
  constructor
  · intro id hid
    rw [hlink, Function.update_of_ne]
    · exact h.low id hid
    · rintro rfl
      rw [h.low id hid] at hl
      cases hl
  · intro id k d hk hd
    rw [hlink] at hk
    by_cases hi : id = i
    · subst hi
      rw [Function.update_self] at hk
      cases hk
      cases hd
    · rw [Function.update_of_ne hi] at hk
      exact h.parked id k d hk hd

/-- The loop of `connpend` over `is` leads from `s` to `t`, as link `id` sees it. -/
def Released (id : ℕ) (is : List ℕ) (s t : State ν) : Prop :=
  ((id ∈ is → ∀ l, s.linklist id = some l → l.pending = none) ∧ view id t = view id s) ∨
  ∃ l c n, id ∈ is ∧ s.linklist id = some l ∧ l.pending = some c ∧ s.requests.length ≤ n ∧
    view id t = { view id s with
      link := some { l with pending := none }
      cmds := (view id s).cmds ++ [⟨n, .cipstart c⟩]
      starts := (view id s).starts + 1 }

theorem Released.cons {id i : ℕ} {is : List ℕ} {s t : State ν} (h : Released id is s t)
    (hn : ∀ l, s.linklist i = some l → l.pending = none) : Released id (i :: is) s t := by
  obtain ⟨hp, hv⟩ | ⟨l, c, n, hm, h⟩ := h
  · refine .inl ⟨fun hm => ?_, hv⟩
    obtain rfl | hm := List.mem_cons.mp hm
    · exact hn
    · exact hp hm
  · exact .inr ⟨l, c, n, List.mem_cons_of_mem i hm, h⟩

theorem Released.of_view {id : ℕ} {is : List ℕ} {s s' t : State ν} (hv : view id s' = view id s)
    (hq : s'.requests = s.requests) (h : Released id is s' t) : Released id is s t := by
  have hl : s'.linklist id = s.linklist id := congrArg View.link hv
  simpa only [Released, hv, hq, hl] using h

/-- `connpend` releases the parked connection of each link that it visits. -/
theorem view_connpend (id : ℕ) (is : List ℕ) {s : State ν} (h : Shape s) :
    Released id is s (connpend is s) := by
  induction is generalizing s with
  | nil => exact .inl ⟨by simp, rfl⟩
  | cons i is ih =>
      cases hl : s.linklist i with
      | none =>
          simp only [connpend, hl]
          exact (ih h).cons (by simp [hl])
      | some l =>
          cases hp : l.pending with
          | none =>
              simp only [connpend, hl, hp]
              exact (ih h).cons (by simp [hl, hp])
          | some c =>
              have hc := h.parked i l c hl hp
              have he : connpend (i :: is) s = connpend is (release i l c s) := by
                simp only [connpend, hl, hp, release]
              rw [he]
              by_cases hi : id = i
              · subst hi
                have hv := view_release (l := l) (s := s) hc
                have hlink : (release id l c s).linklist id = some { l with pending := none } :=
                  congrArg View.link hv
                obtain ⟨-, hk⟩ | ⟨k, d, n, -, hk, hd, -⟩ := ih (h.release (c := c) hl)
                · exact .inr ⟨l, c, s.requests.length, List.mem_cons_self, hl, hp, Nat.le_refl _,
                    hk.trans hv⟩
                · rw [hlink] at hk
                  cases hk
                  cases hd
              · have hv := view_release_ne (l := l) (s := s) hi hc
                have hlink : (release i l c s).linklist id = s.linklist id :=
                  congrArg View.link hv
                have hlen := release_length i l c s
                obtain ⟨hk, hw⟩ | ⟨k, d, n, hm, hk, hd, hn, hw⟩ := ih (h.release (c := c) hl)
                · refine .inl ⟨fun hm => ?_, hw.trans hv⟩
                  have hm := (List.mem_cons.mp hm).resolve_left hi
                  rw [← hlink]
                  exact hk hm
                · refine .inr ⟨k, d, n, List.mem_cons_of_mem i hm, hlink ▸ hk, hd, by omega, ?_⟩
                  rw [hw, hv]

theorem view_ipstatusChanged {s : State ν} (h : s.ipstatus ≠ lua "IP STATUS") (id : ℕ) :
    view id (ipstatusChanged s) = view id s := by
  unfold ipstatusChanged
  split
  · rfl
  split
  · rfl
  split
  · rfl
  split
  · simp
  · simp

/-- The state in which `setIPStatus` stores the new status. -/
def reported (status : LuaString) (s : State ν) : State ν :=
  let s := if s.ipstatusind ∧ s.ipstatus ≠ status then
      dispatch (.ipStatusInd (status = lua "IP GPRSACT" ∨ status = lua "IP PROCESSING" ∨
        status = lua "IP STATUS")) s
    else s
  if status = lua "IP GPRSACT" ∧ s.checkciicrtm.isSome then timer_stop .checkciicr s else s

theorem reported_frame (status : LuaString) (s : State ν) :
    (reported status s).linklist = s.linklist ∧ (reported status s).requests = s.requests ∧
      (reported status s).shuting = s.shuting ∧ ∀ id, view id (reported status s) = view id s := by
  unfold reported
  dsimp only
  split <;> split <;>
    exact ⟨rfl, rfl, rfl, fun id => by simp⟩

theorem setIPStatus_eq (status : LuaString) (s : State ν) :
    setIPStatus status s =
      if s.ipstatus ≠ status ∨ repeated status then
        ipstatusChanged { reported status s with ipstatus := status }
      else s := by
  unfold setIPStatus
  dsimp only
  split
  · rfl
  · rename_i h
    rw [not_or] at h
    simp [h.1]

theorem view_setIPStatus (status : LuaString) (h : status ≠ lua "IP STATUS") (s : State ν)
    (id : ℕ) : view id (setIPStatus status s) = view id s := by
  rw [setIPStatus_eq]
  split
  · rw [view_ipstatusChanged h]
    exact (reported_frame status s).2.2.2 id
  · rfl

theorem setIPStatus_same {s : State ν} (h : s.ipstatus = lua "IP STATUS") :
    setIPStatus (lua "IP STATUS") s = s := by
  rw [setIPStatus_eq, if_neg]
  rw [not_or]
  exact ⟨by simp [h], by decide⟩

theorem setIPStatus_released {s : State ν} (h : s.ipstatus ≠ lua "IP STATUS") (hs : Shape s)
    (id : ℕ) : Released id ids s (setIPStatus (lua "IP STATUS") s) := by
  obtain ⟨hl, hq, -, hv⟩ := reported_frame (lua "IP STATUS") s
  have hs' : Shape { reported (lua "IP STATUS") s with ipstatus := lua "IP STATUS" } :=
    ⟨fun k hk => by rw [hl]; exact hs.low k hk, fun k l c hk => hs.parked k l c (hl ▸ hk)⟩
  have he : setIPStatus (lua "IP STATUS") s =
      connpend ids { reported (lua "IP STATUS") s with ipstatus := lua "IP STATUS" } := by
    rw [setIPStatus_eq, if_pos (.inl h)]
    simp only [ipstatusChanged, if_true, show lua "IP STATUS" ≠ lua "IP PROCESSING" by decide,
      if_false]
  rw [he]
  exact (view_connpend id ids hs').of_view (hv id) hq

/-- The state in which `shutcnf` looks at the result. -/
def shutEnded (s : State ν) : State ν :=
  if s.ipstatusind then dispatch (.ipShutingInd false) { s with shuting := false }
  else { s with shuting := false }

theorem shutEnded_frame (s : State ν) :
    (shutEnded s).shuting = false ∧ (shutEnded s).ipstatus = s.ipstatus ∧
      (shutEnded s).simready = s.simready ∧ ∀ id, view id (shutEnded s) = view id s := by
  unfold shutEnded
  split
  · exact ⟨rfl, rfl, rfl, fun id => view_dispatch_ne _ (by simp)⟩
  · exact ⟨rfl, rfl, rfl, fun id => rfl⟩

theorem shutcnf_eq (result : LuaString) (s : State ν) :
    shutcnf result s =
      if result = lua "SHUT OK" ∨ !s.simready then
        shutLoop ids (setIPStatus (lua "IP INITIAL") (shutEnded s))
      else stopcheckciicr (timer_start .cipstatus 10000 (shutEnded s)) := by
  rw [← (shutEnded_frame s).2.2.1]
  rfl

theorem view_shutcnf (id : ℕ) (result : LuaString) (s : State ν) :
    view id (shutcnf result s) = view id s ∨
      ∃ l, s.linklist id = some l ∧ (result = lua "SHUT OK" ∨ !s.simready) ∧ id ∈ ids ∧
        ¬(l.state = .connecting ∧ l.pending ≠ none) ∧ l.state ≠ .initial ∧
        view id (shutcnf result s) =
          { view id s with link := some { l with state := .closed } } := by
  obtain ⟨-, -, -, hv⟩ := shutEnded_frame s
  rw [shutcnf_eq]
  split
  · rename_i hok
    have hb : view id (setIPStatus (lua "IP INITIAL") (shutEnded s)) = view id s :=
      (view_setIPStatus _ (by decide) _ id).trans (hv id)
    obtain h | ⟨l, hl, hm, h1, h2, h⟩ :=
      view_shutLoop id ids (setIPStatus (lua "IP INITIAL") (shutEnded s))
    · exact .inl (h.trans hb)
    · have hl' : s.linklist id = some l := (congrArg View.link hb).symm.trans hl
      exact .inr ⟨l, hl', hok, hm, h1, h2, by rw [h, hb]⟩
  · exact .inl ((view_stopcheckciicr id _).trans (hv id))

/-! ## Actions -/

theorem statusind_effect {s t : State ν} {a : Act ν} {id : ℕ} (k : ℕ) (st : LuaString)
    (hc : closeOf s a = none) (hst : statusOf s a = some (k, st))
    (hl : (taken s a).linklist = s.linklist)
    (ht : t = statusind k st (taken s a)) : Effect s a id (view id t) := by
  subst ht
  by_cases hf : st = lua "SEND FAIL"
  · subst hf
    rw [view_sendfail]
    exact .quiet (by simp [hc])
  by_cases hi : id = k
  · subst hi
    cases hk : s.linklist id with
    | none =>
        have he : statusind id st (taken s a) = taken s a := by simp [statusind, hl, hk]
        rw [he]
        exact .quiet (by simp [hc])
    | some l =>
        rw [view_statusind hf (hl ▸ hk)]
        exact .status l st hst hf hk
  · rw [view_statusind_ne hi]
    exact .quiet (by simp [hc])

theorem closecnf_effect {s t : State ν} {a : Act ν} {id : ℕ} (k : ℕ) (hc : closeOf s a = some k)
    (hv : ∀ id, (view id (taken s a)).link = s.linklist id ∧
      (view id (taken s a)).closes = (view id s).closes)
    (ht : t = closecnf k (taken s a)) : Effect s a id (view id t) := by
  subst ht
  by_cases hi : id = k
  · subst hi
    obtain ⟨hl, hn⟩ := hv id
    cases hk : s.linklist id with
    | none =>
        have he : closecnf id (taken s a) = taken s a := by
          simp only [closecnf, show (taken s a).linklist id = none from hl.trans hk]
        rw [he]
        exact .quiet (by simp [hk])
    | some l =>
        rw [closecnf_eq (hl.trans hk)]
        split
        · rename_i hs
          rw [view_notify _ _ _ _ _ _ _ (by simp), view_setLink]
          exact .disconnected l hc hk hs
        split
        · rename_i hs
          rw [view_freed, view_usersckntfy, hn]
          exact .closed l hc hk hs
        · rename_i h1 h2
          refine .quiet fun _ k hk' => ?_
          rw [hk] at hk'
          cases hk'
          exact ⟨h1, h2⟩
  · rw [view_closecnf_ne hi]
    refine .quiet fun h => ?_
    rw [hc] at h
    exact absurd (Option.some.inj h).symm hi

/-! ## The interface -/

theorem close_cases (k : ℕ) (s : State ν) :
    close k s = (s, false) ∨ ∃ l, validaction s k .close ∧ s.linklist k = some l ∧
      close k s = (req (.cipclose k) (setLink k (some { l with state := .closing }) s), true) := by
  unfold close
  split
  · exact .inr ⟨_, ‹_›, ‹_›, rfl⟩
  · exact .inl rfl

theorem connect_cases (k : ℕ) (prot addr port : LuaString) (s : State ν) :
    connect k prot addr port s = (s, false) ∨
      ∃ l, validaction s k .connect ∧ s.linklist k = some l ∧ l.state ≠ .connected ∧
        ((s.callexist ∧ connect k prot addr port s =
            (dispatch (.statusind k (lua "CONNECT FAIL"))
              (setLink k (some { l with state := .connecting }) s), true)) ∨
        ((!ipready s ∨ s.shuting) ∧ connect k prot addr port s =
            (setLink k (some { l with state := .connecting, pending := some ⟨k, prot, addr, port⟩ })
              s, true)) ∨
        ((ipready s ∧ s.shuting = false) ∧ connect k prot addr port s =
            (startconnectingtimer k (req (.cipstart ⟨k, prot, addr, port⟩)
              (setLink k (some { l with state := .connecting }) s)), true))) := by
  unfold connect
  split
  · rename_i l hv hl
    split
    · exact .inl rfl
    rename_i hc
    refine .inr ⟨l, hv, hl, hc, ?_⟩
    dsimp only
    split
    · exact .inl ⟨‹_›, rfl⟩
    split
    · exact .inr (.inl ⟨‹_›, by rw [setLink_setLink]⟩)
    · rename_i hp
      refine .inr (.inr ⟨?_, rfl⟩)
      have hp : ¬((!ipready s) = true ∨ s.shuting = true) := hp
      rwa [not_or, Bool.not_eq_true', Bool.not_eq_false, Bool.not_eq_true] at hp
  · exact .inl rfl

theorem disconnect_cases (k : ℕ) (s : State ν) :
    disconnect k s = (s, some false) ∨ ∃ l, validaction s k .disconnect ∧ s.linklist k = some l ∧
      ((l.pending ≠ none ∧ l.state = .connecting ∧ disconnect k s =
          (dispatch (.closecnf k)
            (setLink k (some { l with pending := none, state := .disconnecting }) s), none)) ∨
        disconnect k s = (req (.cipclose k)
          (setLink k (some { l with pending := none, state := .disconnecting }) s), some true)) := by
  unfold disconnect
  split
  · rename_i l hv hl
    refine .inr ⟨l, hv, hl, ?_⟩
    split
    · rename_i hp
      exact .inl ⟨hp.1, hp.2.2, rfl⟩
    · exact .inr rfl
  · exact .inl rfl

theorem send_cases (k : ℕ) (data : LuaString) (s : State ν) :
    send k data s = (s, false) ∨ ∃ l, s.linklist k = some l ∧ l.state = .connected ∧
      s.callexist = false ∧ send k data s = (req (.cipsend k data) s, true) := by
  unfold send
  split
  · exact .inl rfl
  · rename_i l hl
    split
    · exact .inl rfl
    · rename_i hc
      split
      · exact .inl rfl
      · rename_i he
        exact .inr ⟨l, hl, by simpa using hc, by simpa using he, rfl⟩

theorem emptylink_free {s : State ν} {k : ℕ} (h : emptylink s = some k) :
    s.linklist k = none ∧ k ≤ MAXLINKS := by
  have hm : k ∈ ids := List.mem_of_find?_eq_some h
  have hf := List.find?_some h
  rw [ids, List.mem_range] at hm
  exact ⟨by simpa using hf, by omega⟩

/-- `openid` for an id that is free. -/
theorem openid_free {s : State ν} {k : ℕ} (hl : s.linklist k = none) (hk : k ≤ MAXLINKS) (n : ν)
    (tag : Bool) : (openid k n tag s).2 = true ∧
      (∀ id, id ≠ k → view id (openid k n tag s).1 = view id s) ∧
      view k (openid k n tag s).1 =
        { view k s with link := some ⟨n, tag, .initial, none⟩, urc := true } := by
  have hn : ¬(MAXLINKS < k ∨ s.linklist k ≠ none) := by
    rw [not_or]
    exact ⟨by omega, by simp [hl]⟩
  have hv (id : ℕ) : view id (openid k n tag s).1 =
      view id { setLink k (some ⟨n, tag, .initial, none⟩) s with
        urcs := Function.update s.urcs k true } := by
    unfold openid
    rw [if_neg hn]
    dsimp only
    split <;> simp
  refine ⟨?_, fun id hi => ?_, ?_⟩
  · unfold openid
    rw [if_neg hn]
  · rw [hv]
    simp [view, setLink, hi]
  · rw [hv]
    simp [view, setLink]

theorem openid_taken {s : State ν} {k : ℕ} (h : MAXLINKS < k ∨ s.linklist k ≠ none) (n : ν)
    (tag : Bool) : openid k n tag s = (s, false) := by
  rw [openid, if_pos h]

theorem step_effect {s t : State ν} {a : Act ν} (hs : Shape s) (h : step s a = some t) (id : ℕ) :
    Effect s a id (view id t) := by
  have same {u : State ν} {a : Act ν} (hc : closeOf s a = none)
      (hv : view id u = view id (taken s a)) : Effect s a id (view id u) := by
    rw [hv]
    exact .quiet (by simp [hc])
  cases a with
  | openid k n tag =>
      cases h
      by_cases hk : MAXLINKS < k ∨ s.linklist k ≠ none
      · rw [openid_taken hk]
        exact same rfl rfl
      have ho : opensOf s (.openid k n tag) = some k := by rw [opensOf, if_neg hk]
      rw [not_or, not_not] at hk
      obtain ⟨-, hne, hself⟩ := openid_free hk.2 (Nat.le_of_not_lt hk.1) n tag
      by_cases hi : id = k
      · subst hi
        rw [hself]
        exact .opened n tag ho hk.2 (Nat.le_of_not_lt hk.1)
      · exact same rfl (hne id hi)
  | openlink n tag =>
      cases h
      cases he : emptylink s with
      | none =>
          simp only [openlink, he]
          exact same rfl rfl
      | some k =>
          obtain ⟨hl, hk⟩ := emptylink_free he
          obtain ⟨-, hne, hself⟩ := openid_free hl hk n tag
          simp only [openlink, he]
          by_cases hi : id = k
          · subst hi
            rw [hself]
            exact .opened n tag he hl hk
          · exact same rfl (hne id hi)
  | close k =>
      cases h
      obtain he | ⟨l, -, hl, he⟩ := close_cases k s
      · rw [he]
        exact same rfl rfl
      rw [he]
      by_cases hi : id = k
      · subst hi
        rw [view_req _ (by simp), view_setLink]
        exact .closing l rfl hl
      · refine same rfl ?_
        rw [view_req_ne _ (by simpa using Ne.symm hi), view_setLink_ne hi]
        rfl
  | connect k prot addr port =>
      cases h
      obtain he | ⟨l, hv, hl, hc, ⟨-, he⟩ | ⟨hw, he⟩ | ⟨-, he⟩⟩ := connect_cases k prot addr port s
      · rw [he]
        exact same rfl rfl
      all_goals
        rw [he]
        by_cases hi : id = k
      · subst hi
        rw [view_dispatch _ (by simp), view_setLink]
        exact .called l prot addr port rfl hv hl hc
      · refine same rfl ?_
        rw [view_dispatch_ne _ (by simpa using Ne.symm hi), view_setLink_ne hi]
        rfl
      · subst hi
        rw [view_setLink]
        exact .parked l prot addr port rfl hv hl hc hw
      · exact same rfl (view_setLink_ne hi _ s)
      · subst hi
        rw [view_startconnectingtimer, view_req _ (by simp), view_setLink]
        simp only [AtCmd.starts, decide_true, if_true]
        exact .started l prot addr port rfl hv hl hc
      · refine same rfl ?_
        rw [view_startconnectingtimer, view_req_ne _ (by simpa using Ne.symm hi), view_setLink_ne hi]
        rfl
  | disconnect k =>
      cases h
      obtain he | ⟨l, -, hl, ⟨hp, hst, he⟩ | he⟩ := disconnect_cases k s
      · rw [he]
        exact same rfl rfl
      all_goals
        rw [he]
        by_cases hi : id = k
      · subst hi
        rw [view_dispatch _ (by simp), view_setLink]
        exact .withdrawn l rfl hl hp hst
      · refine same rfl ?_
        rw [view_dispatch_ne _ (by simpa using Ne.symm hi), view_setLink_ne hi]
        rfl
      · subst hi
        rw [view_req _ (by simp), view_setLink]
        exact .disconnecting l rfl hl
      · refine same rfl ?_
        rw [view_req_ne _ (by simpa using Ne.symm hi), view_setLink_ne hi]
        rfl
  | send k data =>
      cases h
      obtain he | ⟨l, hl, hst, -, he⟩ := send_cases k data s
      · rw [he]
        exact same rfl rfl
      rw [he]
      by_cases hi : id = k
      · subst hi
        rw [view_req _ (by simp)]
        exact .sent l data rfl hl hst
      · exact same rfl (view_req_ne _ (by simpa using Ne.symm hi))
  | shut => cases h; exact same rfl (view_shut id s)
  | setapn a b c => cases h; exact same rfl rfl
  | setconnectnoretrestart flag interval => cases h; exact same rfl rfl
  | regipstatusind => cases h; exact same rfl rfl
  | checkciicr tm => cases h; exact same rfl rfl
  | querycgatt => cases h; exact same rfl (view_querycgatt id s)
  | request cmd => cases h; exact same rfl (view_req_ne s (by simp))
  | simstatus ready => cases h; exact same rfl rfl
  | calls exist => cases h; exact same rfl rfl
  | sendat =>
      obtain ⟨q, hq, rfl⟩ := Option.map_eq_some_iff.mp h
      obtain he | ⟨⟨no, cmd⟩, hc, he⟩ := Fifo.start_cases hq
      · exact same rfl (by simp [view, taken, he])
      cases cmd with
      | cipsend k data =>
          by_cases hi : id = k
          · subst hi
            exact .dropped no data _ rfl (by simp [view, he])
              (by simpa [AtCmd.wellFormed] using hc)
          · exact same rfl (by simp [view, taken, he, Ne.symm hi])
      | _ => cases hc
  | respond success response intermediate =>
      simp only [step] at h
      split at h
      · rename_i c hf hcur
        have hl : ∀ id, (view id (taken s (.respond success response intermediate))).link =
            s.linklist id := fun id => rfl
        obtain ⟨no, cmd⟩ := c
        cases cmd with
        | cipstart c =>
            cases h
            split
            · rename_i hr
              exact statusind_effect c.id (lua "ERROR") (by simp [closeOf, hcur])
                (by simp [statusOf, hcur, hr]) rfl rfl
            · exact same (by simp [closeOf, hcur]) rfl
        | cipsend k data =>
            have hc : closeOf s (.respond success response intermediate) = none := by
              simp [closeOf, hcur]
            simp only [rsp] at h
            split at h
            · split at h
              · exact same hc ((view_sendcnf h).trans (view_req_ne _ (by simp)))
              · obtain ⟨r, -, h⟩ := Option.bind_eq_some_iff.mp h
                exact same hc ((view_sendcnf h).trans (view_req_ne _ (by simp)))
            · split at h
              · exact same hc (view_sendcnf h)
              · obtain ⟨r, -, h⟩ := Option.bind_eq_some_iff.mp h
                exact same hc (view_sendcnf h)
        | cipclose k =>
            cases h
            exact closecnf_effect k (by simp [closeOf, hcur]) (fun id => ⟨rfl, rfl⟩) rfl
        | cipshut =>
            cases h
            have hc : closeOf s (.respond success response intermediate) = none := by
              simp [closeOf, hcur]
            have hv : view id { s with ril := s.ril.finish } = view id s := by
              simp [view, Fifo.items_eq_cons hcur]
            obtain he | ⟨l, hk, hr, hm, h1, h2, he⟩ :=
              view_shutcnf id response { s with ril := s.ril.finish }
            · exact same hc he
            · rw [he, hv]
              refine .shuted l ?_ hk h1 h2
              simp only [shutOf, hcur]
              rw [if_pos hr]
              exact hm
        | ciicr =>
            cases h
            refine same (by simp [closeOf, hcur]) ?_
            split
            · split
              · split <;> rfl
              · rfl
            · exact view_shut id _
        | cgatt =>
            cases h
            exact same (by simp [closeOf, hcur]) (view_cgattrsp id _ _)
        | _ =>
            cases h
            exact same (by simp [closeOf, hcur]) rfl
      · cases h
  | urc data =>
      obtain ⟨hf, ⟨⟩⟩ := Option.ite_none_right_eq_some.mp h
      have hc : closeOf s (.urc data) = none := rfl
      split
      swap
      · exact same hc rfl
      rename_i pfx hp
      split
      swap
      · exact same hc rfl
      rename_i hr
      simp only [urc]
      split
      · rename_i hst
        subst hst
        by_cases hip : data.drop 7 = lua "IP STATUS"
        swap
        · exact same hc (view_setIPStatus _ hip s id)
        rw [hip]
        by_cases hi : s.ipstatus = lua "IP STATUS"
        · rw [setIPStatus_same hi]
          exact same hc rfl
        obtain ⟨-, he⟩ | ⟨l, c, n, -, hl, hq, hn, he⟩ := setIPStatus_released hi hs id
        · exact same hc he
        · rw [he]
          exact .released l c n (by simp [reportOf, hp, hip]) hi hl hq hn
      rename_i h1
      split
      · exact same hc rfl
      rename_i h2
      split
      · exact same hc (view_shut id s)
      rename_i h3
      split
      · exact same hc rfl
      rename_i h4
      split
      · rename_i lid lstate hm
        exact statusind_effect (tonumber lid) lstate rfl
          (by simp [statusOf, hp, hr, h1, h2, h3, h4, hm]) rfl rfl
      · exact same hc rfl
  | msg =>
      simp only [step] at h
      split at h
      · rename_i m ms hf hm
        cases h
        have ht : taken s .msg = { s with qmsg := ms } := by simp [taken, hm]
        cases m with
        | statusind k st =>
            exact statusind_effect k st (by simp [closeOf, hm]) (by simp [statusOf, hm]) rfl
              (by rw [ht]; rfl)
        | closecnf k =>
            exact closecnf_effect k (by simp [closeOf, hm]) (fun id => ⟨rfl, rfl⟩) (by rw [ht]; rfl)
        | _ => exact same (by simp [closeOf, hm]) (by rw [ht]; rfl)
      · cases h
  | proc p =>
      obtain ⟨-, ⟨⟩⟩ := Option.ite_none_right_eq_some.mp h
      exact same rfl (view_proc id p s)
  | expire k =>
      obtain ⟨-, h⟩ := Option.ite_none_right_eq_some.mp h
      cases k with
      | setupIP => cases h; exact same rfl (view_setupIP id _)
      | cipstatus => cases h; exact same rfl (view_req_ne _ (by simp))
      | querycgatt => cases h; exact same rfl (view_querycgatt id _)
      | checkciicr => cases h
      | connecting k =>
          simp only [expire] at h
          split at h
          · cases h
          · cases h
            exact same rfl rfl
  | ret =>
      obtain ⟨⟨n, r⟩, hf, rfl⟩ := Option.map_eq_some_iff.mp h
      cases r with
      | done => exact same rfl rfl
      | stopconnectingtimer k => exact same rfl rfl
      | disconnected k =>
          refine same rfl ?_
          simp only [resume]
          split
          · exact view_usersckntfy id _ _
          · rfl
      | shut i is =>
          simp only [resume]
          split
          swap
          · exact same rfl rfl
          rename_i l hl
          have hv : view id (stopconnectingtimer i (usersckntfy l { s with frame := none })) =
              view id s := view_usersckntfy id _ _
          obtain he | ⟨k, hk, hm, h1, h2, he⟩ := view_shutLoop id is
            (stopconnectingtimer i (usersckntfy l { s with frame := none }))
          · exact same rfl (he.trans hv)
          · rw [he, hv]
            exact .shuted k (by simpa [shutOf, hf] using hm) ((congrArg View.link hv).symm.trans hk)
              h1 h2

@[simp] theorem taken_linklist (s : State ν) (a : Act ν) : (taken s a).linklist = s.linklist := by
  cases a <;> rfl

/-- What a link loses when an event is taken: a command that is answered, or a message. -/
theorem view_taken (s : State ν) (a : Act ν) (id : ℕ) :
    view id (taken s a) = view id s ∨
    (∃ c, (c.cmd = .cipclose id → closeOf s a = some id) ∧
      view id s = { view id (taken s a) with cmds := c :: (view id (taken s a)).cmds }) ∨
    ∃ m, (m = .closecnf id → closeOf s a = some id) ∧
      view id s = { view id (taken s a) with msgs := m :: (view id (taken s a)).msgs } := by
  cases a with
  | respond success response intermediate =>
      cases hc : s.ril.current with
      | none =>
          left
          simp [view, taken, Fifo.items, Fifo.finish, hc]
      | some c =>
          have hi := Fifo.items_eq_cons hc
          by_cases hid : c.cmd.id? = some id
          · refine .inr (.inl ⟨c, fun he => ?_, ?_⟩)
            · obtain ⟨no, cmd⟩ := c
              cases he
              simp [closeOf, hc]
            · simp [view, taken, hi, hid, -AtCmd.id?]
          · left
            simp [view, taken, hi, hid, -AtCmd.id?]
  | msg =>
      cases hm : s.qmsg with
      | nil =>
          left
          simp [view, taken, hm]
      | cons m ms =>
          by_cases hid : m.id? = some id
          · refine .inr (.inr ⟨m, fun he => ?_, ?_⟩)
            · subst he
              simp [closeOf, hm]
            · simp [view, taken, hm, hid, -Msg.id?]
          · left
            simp [view, taken, hm, hid, -Msg.id?]
  | _ => exact .inl rfl

/-- `closecnf` is called for the head of one of the two queues. -/
theorem closeOf_cases {s : State ν} {a : Act ν} {id : ℕ} (h : closeOf s a = some id) :
    (∃ no, s.ril.current = some ⟨no, .cipclose id⟩ ∧
      view id s = { view id (taken s a) with
        cmds := ⟨no, .cipclose id⟩ :: (view id (taken s a)).cmds }) ∨
    .closecnf id ∈ (view id s).msgs := by
  cases a with
  | respond success response intermediate =>
      simp only [closeOf] at h
      split at h
      · rename_i no k hc
        cases h
        exact .inl ⟨no, hc, by simp [view, taken, Fifo.items_eq_cons hc]⟩
      · cases h
  | msg =>
      simp only [closeOf] at h
      split at h
      · rename_i k ms hm
        cases h
        right
        simp [view, hm]
      · cases h
  | _ => cases h

/-- A parked connection was parked before, or has just been asked for. -/
theorem Effect.pending {s : State ν} {a : Act ν} {id : ℕ} {v : View ν} (h : Effect s a id v)
    {l : Link ν} {c : Connect} (hl : v.link = some l) (hp : l.pending = some c) :
    (∃ k, s.linklist id = some k ∧ k.pending = some c) ∨
      (!ipready s ∨ s.shuting) ∧ ∃ prot addr port, a = .connect id prot addr port ∧
        c = ⟨id, prot, addr, port⟩ := by
  have taken {l : Link ν} (hl : (view id (taken s a)).link = some l) (hp : l.pending = some c) :
      ∃ k, s.linklist id = some k ∧ k.pending = some c :=
    ⟨l, (congrFun (taken_linklist s a) id).symm.trans hl, hp⟩
  cases h with
  | quiet => exact .inl (taken hl hp)
  | opened => cases hl; cases hp
  | closing k ha hk => cases hl; exact .inl ⟨k, hk, hp⟩
  | called k prot addr port ha hv hk => cases hl; exact .inl ⟨k, hk, hp⟩
  | parked k prot addr port ha hv hk hn hw =>
      cases hl
      cases hp
      exact .inr ⟨hw, prot, addr, port, ha, rfl⟩
  | started k prot addr port ha hv hk => cases hl; exact .inl ⟨k, hk, hp⟩
  | withdrawn => cases hl; cases hp
  | disconnecting => cases hl; cases hp
  | sent => exact .inl ⟨l, hl, hp⟩
  | dropped => exact .inl ⟨l, hl, hp⟩
  | released => cases hl; cases hp
  | status k st hst hf hk => cases hl; exact .inl ⟨k, hk, hp⟩
  | shuted k hm hk => cases hl; exact .inl ⟨k, hk, hp⟩
  | disconnected k hc hk => cases hl; exact .inl ⟨k, hk, hp⟩
  | closed => cases hl

/-- A link in the table was there before, or its id has just been given out. -/
theorem Effect.present {s : State ν} {a : Act ν} {id : ℕ} {v : View ν} (h : Effect s a id v)
    (hl : v.link ≠ none) : s.linklist id ≠ none ∨ opensOf s a = some id ∧ id ≤ MAXLINKS := by
  cases h with
  | quiet => exact .inl (by rwa [← taken_linklist s a])
  | opened n tag ho hn hm => exact .inr ⟨ho, hm⟩
  | sent => exact .inl hl
  | dropped => exact .inl hl
  | closed => exact absurd rfl hl
  | _ => exact .inl (by simp [*])

theorem step_shape (s : State ν) (a : Act ν) (t : State ν) (hs : Shape s)
    (h : step s a = some t) : Shape t := by
  constructor
  · intro id hid
    by_contra hl
    obtain hn | ⟨-, hm⟩ := (step_effect hs h id).present hl
    · exact hn (hs.low id hid)
    · omega
  · intro id l c hl hp
    obtain ⟨k, hk, hc⟩ | ⟨-, prot, addr, port, -, rfl⟩ := (step_effect hs h id).pending hl hp
    · exact hs.parked id k c hk hc
    · rfl

theorem boot_shape : Shape (boot : State ν) := ⟨fun _ _ => rfl, fun _ _ _ => nofun⟩

/-- The action that reports a status calls `statusind` with it. -/
theorem step_statusOf {s t : State ν} {a : Act ν} {id : ℕ} {st : LuaString}
    (h : step s a = some t) (hs : statusOf s a = some (id, st)) :
    t = statusind id st (taken s a) := by
  cases a with
  | urc data =>
      obtain ⟨-, ⟨⟩⟩ := Option.ite_none_right_eq_some.mp h
      cases hp : smatch1 data (lua "(%+*[%u%d& ]+)") with
      | none =>
          simp only [statusOf, hp] at hs
          cases hs
      | some pfx =>
          simp only [statusOf, hp] at hs
          obtain ⟨⟨hr, h1, h2, h3, h4⟩, hm⟩ := Option.ite_none_right_eq_some.mp hs
          obtain ⟨⟨lid, lstate⟩, hd, he⟩ := Option.map_eq_some_iff.mp hm
          cases he
          simp only [hr, if_true, urc, h1, h2, h3, h4, if_false, hd]
          rfl
  | respond success response intermediate =>
      simp only [step] at h
      split at h
      · rename_i c hf hcur
        simp only [statusOf, hcur] at hs
        obtain ⟨no, cmd⟩ := c
        cases cmd with
        | cipstart c =>
            obtain ⟨hr, he⟩ := Option.ite_none_right_eq_some.mp hs
            cases he
            simp only [rsp, hr, if_true, Option.some.injEq] at h
            exact h.symm
        | _ => cases hs
      · cases h
  | msg =>
      simp only [step] at h
      split at h
      · rename_i m ms hf hm
        simp only [statusOf, hm] at hs
        cases m with
        | statusind k st' =>
            cases hs
            simp only [Option.some.injEq] at h
            rw [← h]
            simp [msg, taken, hm]
        | _ => cases hs
      · cases h
  | _ => cases hs

end LuatAir200.Links
