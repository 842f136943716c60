import LuatAir200.LinkLife
import LuatAir200.Replica

/-!
# What `link.lua` tells about the IP context

Once `regipstatusind` has been called, every change of the IP status and of `shuting` is
announced by a message. `signal` is what the messages are about, and `Announced` that
someone who follows them is right about the IP context when all have come.
-/
namespace LuatAir200.Links
open Lua Machine Replica

variable {ν : Type}

/-- The statuses in which `IP_STATUS_IND` says that the IP context is there. -/
def usable (status : LuaString) : Bool :=
  status = lua "IP GPRSACT" ∨ status = lua "IP PROCESSING" ∨ status = lua "IP STATUS"

def Msg.isIp : Msg → Bool
  | .ipStatusInd _ | .ipShutingInd _ => true
  | _ => false

/-- What a listener makes of a message: whether the IP context is usable, and whether it is
being shut. The end of a shutdown is taken for its success. -/
def hears (p : Bool × Bool) : Msg → Bool × Bool
  | .ipStatusInd b => (b, p.2)
  | .ipShutingInd b => if b then (p.1, true) else (false, false)
  | _ => p

structure Signal where
  ind : Bool
  usable : Bool
  shuting : Bool
  msgs : List Msg
  /-- The `AT+CIPSHUT` that are queued or outstanding. -/
  shuts : List Cmd

def signal (s : State ν) : Signal where
  ind := s.ipstatusind
  usable := usable s.ipstatus
  shuting := s.shuting
  msgs := s.qmsg.filter Msg.isIp
  shuts := s.ril.items.filter fun c => c.cmd = .cipshut

/-- The messages lead a listener from `p` to the truth, and a shutdown has its command. -/
structure Announced (p : Bool × Bool) (s : State ν) : Prop where
  ind : s.ipstatusind = true
  synced : Synced hears s.qmsg p (usable s.ipstatus, s.shuting)
  shut : s.shuting = true → ∃ c ∈ s.ril.items, c.cmd = .cipshut

theorem announced_iff (p : Bool × Bool) (s : State ν) :
    Announced p s ↔ (signal s).ind = true ∧
      Synced hears (signal s).msgs p ((signal s).usable, (signal s).shuting) ∧
      ((signal s).shuting = true → (signal s).shuts ≠ []) := by
  have hq : Synced hears (signal s).msgs p ((signal s).usable, (signal s).shuting) ↔
      Synced hears s.qmsg p (usable s.ipstatus, s.shuting) :=
    synced_filter (fun m r hm => by cases m <;> first | rfl | cases hm)
  have hs : (signal s).shuts ≠ [] ↔ ∃ c ∈ s.ril.items, c.cmd = .cipshut := by
    rw [signal, ne_eq, List.filter_eq_nil_iff]
    simp
  rw [hq, hs]
  constructor
  · intro h
    exact ⟨h.ind, h.synced, h.shut⟩
  · rintro ⟨h1, h2, h3⟩
    exact ⟨h1, h2, h3⟩

theorem Announced.of_signal {p : Bool × Bool} {s t : State ν} (h : Announced p s)
    (he : signal t = signal s) : Announced p t := by
  rw [announced_iff, he, ← announced_iff]
  exact h

/-! ## Functions that change nothing of it -/

@[simp] theorem signal_req {c : AtCmd} (s : State ν) (h : ¬c = .cipshut) :
    signal (req c s) = signal s := by
  simp [signal, req, h, List.filter_append]

@[simp] theorem signal_dispatch {m : Msg} (s : State ν) (h : m.isIp = false) :
    signal (dispatch m s) = signal s := by
  simp [signal, dispatch, h, List.filter_append]

attribute [simp] Msg.isIp

@[simp] theorem signal_timer_start (k : Timer) (ms : ℕ) (s : State ν) :
    signal (timer_start k ms s) = signal s := rfl

@[simp] theorem signal_timer_stop (k : Timer) (s : State ν) :
    signal (timer_stop k s) = signal s := rfl

@[simp] theorem signal_setLink (id : ℕ) (l : Option (Link ν)) (s : State ν) :
    signal (setLink id l s) = signal s := rfl

@[simp] theorem signal_notify (l : Link ν) (id : ℕ) (evt : Evt) (val : LuaString) (rest : Rest)
    (s : State ν) : signal (notify l id evt val rest s) = signal s := rfl

@[simp] theorem signal_stopconnectingtimer (id : ℕ) (s : State ν) :
    signal (stopconnectingtimer id s) = signal s := rfl

@[simp] theorem signal_startconnectingtimer (id : ℕ) (s : State ν) :
    signal (startconnectingtimer id s) = signal s := by
  unfold startconnectingtimer
  split <;> rfl

@[simp] theorem signal_stopcheckciicr (s : State ν) : signal (stopcheckciicr s) = signal s := by
  unfold stopcheckciicr
  split <;> rfl

/-- `setupIP` leaves `IP INITIAL` for `IP START`, and neither is usable. -/
@[simp] theorem signal_setupIP (s : State ν) : signal (setupIP s) = signal s := by
  unfold setupIP
  split
  · rfl
  rename_i h
  rw [not_or, not_not] at h
  split
  · rfl
  · have hr : signal (req .cipstatus (req .ciicr (req (.cstt s.apnname s.username s.password) s)))
        = signal s := by simp
    have hu : usable (lua "IP START") = usable s.ipstatus := by rw [h.1]; decide
    rw [← hr, signal, hu]
    rfl

@[simp] theorem signal_usersckntfy (l : Link ν) (s : State ν) :
    signal (usersckntfy l s) = signal s := by
  unfold usersckntfy
  split
  · rfl
  · exact signal_dispatch s rfl

@[simp] theorem signal_querycgatt (s : State ν) : signal (querycgatt s) = signal s := by
  unfold querycgatt
  split
  · rfl
  · exact signal_req s (by simp)

@[simp] theorem signal_initial (s : State ν) : signal (initial s) = signal s := by
  unfold initial
  split
  · rfl
  · simp only [signal_req, reduceCtorEq, not_false_eq_true]
    rfl

@[simp] theorem signal_openid (id : ℕ) (n : ν) (tag : Bool) (s : State ν) :
    signal (openid id n tag s).1 = signal s := by
  unfold openid
  split
  · rfl
  · dsimp only
    split
    · rfl
    · exact signal_setupIP _

@[simp] theorem signal_openlink (n : ν) (tag : Bool) (s : State ν) :
    signal (openlink n tag s).1 = signal s := by
  unfold openlink
  split
  · rfl
  · exact signal_openid _ n tag s

@[simp] theorem signal_close (id : ℕ) (s : State ν) : signal (close id s).1 = signal s := by
  obtain he | ⟨l, -, -, he⟩ := close_cases id s <;> rw [he]
  exact signal_req _ (by simp)

@[simp] theorem signal_connect (id : ℕ) (prot addr port : LuaString) (s : State ν) :
    signal (connect id prot addr port s).1 = signal s := by
  obtain he | ⟨l, -, -, -, ⟨-, he⟩ | ⟨-, he⟩ | ⟨-, he⟩⟩ := connect_cases id prot addr port s <;>
    rw [he]
  · exact signal_dispatch _ rfl
  · rfl
  · simp

@[simp] theorem signal_disconnect (id : ℕ) (s : State ν) : signal (disconnect id s).1 = signal s := by
  obtain he | ⟨l, -, -, ⟨-, -, he⟩ | he⟩ := disconnect_cases id s <;> rw [he]
  · exact signal_dispatch _ rfl
  · exact signal_req _ (by simp)

@[simp] theorem signal_send (id : ℕ) (data : LuaString) (s : State ν) :
    signal (send id data s).1 = signal s := by
  obtain he | ⟨l, -, -, -, he⟩ := send_cases id data s <;> rw [he]
  exact signal_req _ (by simp)

theorem signal_sendcnf {id : ℕ} {r : LuaString} {s t : State ν} (h : sendcnf id r s = some t) :
    signal t = signal s := by
  rw [sendcnf_eq] at h
  obtain ⟨l, -, rfl⟩ := Option.map_eq_some_iff.mp h
  rfl

@[simp] theorem signal_closecnf (id : ℕ) (s : State ν) : signal (closecnf id s) = signal s := by
  cases hl : s.linklist id with
  | none => simp only [closecnf, hl]
  | some l =>
      rw [closecnf_eq hl]
      split
      · rfl
      split
      · exact signal_usersckntfy l s
      · rfl

@[simp] theorem signal_statusind (id : ℕ) (st : LuaString) (s : State ν) :
    signal (statusind id st s) = signal s := by
  unfold statusind
  split
  · rfl
  split
  · split <;> rfl
  · exact signal_usersckntfy _ _

@[simp] theorem signal_connpend (is : List ℕ) (s : State ν) :
    signal (connpend is s) = signal s := by
  induction is generalizing s with
  | nil => rfl
  | cons i is ih =>
      cases hl : s.linklist i with
      | none => simp only [connpend, hl, ih]
      | some l =>
          cases hp : l.pending with
          | none => simp only [connpend, hl, hp, ih]
          | some c => simp [connpend, hl, hp, ih]

@[simp] theorem signal_shutLoop (is : List ℕ) (s : State ν) :
    signal (shutLoop is s) = signal s := by
  induction is generalizing s with
  | nil => exact signal_stopcheckciicr s
  | cons i is ih =>
      cases hl : s.linklist i with
      | none => simp only [shutLoop, hl, ih]
      | some l =>
          simp only [shutLoop, hl]
          split
          · exact ih _
          · rfl

@[simp] theorem signal_resume (r : Rest) (s : State ν) : signal (resume r s) = signal s := by
  cases r with
  | done => rfl
  | stopconnectingtimer id => rfl
  | disconnected id =>
      simp only [resume]
      split
      · exact signal_usersckntfy _ s
      · rfl
  | shut i is =>
      simp only [resume]
      split
      · rw [signal_shutLoop, signal_stopconnectingtimer, signal_usersckntfy]
      · rfl

@[simp] theorem signal_cgattrsp (i : Option LuaString) (s : State ν) :
    signal (cgattrsp i s) = signal s := by
  have hd (b : Bool) (c : LuaString) :
      signal (dispatch (.netGprsReady b) { s with cgatt := c }) = signal s :=
    signal_dispatch _ rfl
  unfold cgattrsp
  split
  · dsimp only
    split
    · split
      · rw [signal_setupIP, hd]
      · simp [hd]
    · exact hd true _
  split
  · dsimp only
    split
    · rw [signal_timer_start, hd]
    · rfl
  · rfl

/-! ## Changes of the IP context -/

section Changes
variable {p : Bool × Bool} {s : State ν}

theorem Announced.shut_called (h : Announced p s) : Announced p (Links.shut s) := by
  unfold Links.shut
  split
  · exact h.of_signal rfl
  · dsimp only
    have hi : ({ req .cipshut s with shuting := true, shutpending := false } : State ν).ipstatusind
        = true := h.ind
    rw [if_pos hi]
    refine ⟨h.ind, h.synced.push (.ipShutingInd true), fun _ => ?_⟩
    refine ⟨⟨s.requests.length, .cipshut⟩, ?_, rfl⟩
    simp [dispatch, req]

theorem Announced.ipstatusChanged (h : Announced p s) :
    Announced p (Links.ipstatusChanged s) := by
  unfold Links.ipstatusChanged
  split
  · exact h
  split
  · exact h.of_signal (signal_connpend ids s)
  split
  · exact h.of_signal rfl
  split
  · exact h.of_signal rfl
  split
  · exact h.of_signal (by simp)
  · exact h.shut_called.of_signal rfl

theorem Announced.setIPStatus (h : Announced p s) (status : LuaString) :
    Announced p (Links.setIPStatus status s) := by
  rw [setIPStatus_eq]
  split
  · refine Announced.ipstatusChanged ?_
    by_cases hne : s.ipstatus = status
    · -- nothing is announced, and nothing has changed
      have he : { reported status s with ipstatus := status } = reported status s := by
        unfold reported
        subst hne
        dsimp only
        split <;> split <;> rfl
      rw [he]
      refine h.of_signal ?_
      unfold reported
      simp only [hne, ne_eq, not_true_eq_false, and_false, if_false]
      split <;> rfl
    · have hd : Announced p { dispatch (.ipStatusInd (usable status)) s with ipstatus := status } :=
        ⟨h.ind, h.synced.push (.ipStatusInd (usable status)), h.shut⟩
      refine hd.of_signal ?_
      unfold reported
      simp only [h.ind, hne, ne_eq, not_false_eq_true, and_self, if_true]
      split <;> rfl
  · exact h

/-- A shutdown that fails while the IP context is usable is announced as a success. -/
theorem Announced.shutcnf {r : LuaString} (hind : s.ipstatusind = true)
    (hs : Synced hears s.qmsg p (usable s.ipstatus, s.shuting))
    (hr : usable s.ipstatus = true → s.simready = true → r = lua "SHUT OK") :
    Announced p (Links.shutcnf r s) := by
  have hd (hu : usable s.ipstatus = false) : Announced p (shutEnded s) := by
    rw [shutEnded, if_pos hind]
    have hp := hs.push (.ipShutingInd false)
    have he : (usable s.ipstatus, false) = hears (usable s.ipstatus, s.shuting)
        (.ipShutingInd false) := by
      rw [hu]
      rfl
    refine ⟨hind, ?_, nofun⟩
    rw [← he] at hp
    exact hp
  have hi : Announced p (Links.setIPStatus (lua "IP INITIAL") (shutEnded s)) := by
    by_cases hne : s.ipstatus = lua "IP INITIAL"
    · exact (hd (by rw [hne]; decide)).setIPStatus _
    · rw [setIPStatus_eq, if_pos (.inl (by rwa [(shutEnded_frame s).2.1]))]
      refine Announced.ipstatusChanged ?_
      have hd : Announced p { dispatch (.ipStatusInd false) (shutEnded s) with
          ipstatus := lua "IP INITIAL" } := by
        rw [shutEnded, if_pos hind]
        have hp := (hs.push (.ipShutingInd false)).push (.ipStatusInd false)
        exact ⟨hind, hp, nofun⟩
      refine hd.of_signal ?_
      have he : (shutEnded s).ipstatusind = true := by
        rw [shutEnded, if_pos hind]
        exact hind
      unfold reported
      simp only [he, (shutEnded_frame s).2.1, hne, ne_eq, not_false_eq_true, and_self, if_true]
      rfl
  rw [shutcnf_eq]
  split
  · exact hi.of_signal (signal_shutLoop ids _)
  · rename_i hn
    rw [not_or] at hn
    have hu : usable s.ipstatus = false := by
      rw [← Bool.not_eq_true]
      exact fun hu => hn.1 (hr hu (by simpa using hn.2))
    exact (hd hu).of_signal (signal_stopcheckciicr _)

theorem Announced.endOf (h : Announced p s) : Announced p (Links.endOf s) := by
  unfold Links.endOf
  split
  · exact h.shut_called
  · exact h

theorem Announced.proc (h : Announced p s) (q : Proc) : Announced p (Links.proc q s) := by
  cases q with
  | imsiReady code =>
      refine h.of_signal ?_
      simp only [Links.proc]
      split <;> rfl
  | flymode on =>
      refine h.of_signal ?_
      simp only [Links.proc]
      split
      · rfl
      · exact signal_req _ (by simp)
  | update on =>
      cases on with
      | true => exact h.of_signal rfl
      | false => exact (h.of_signal (t := { s with updating := false }) rfl).endOf
  | dbg on =>
      cases on with
      | true => exact h.of_signal rfl
      | false => exact (h.of_signal (t := { s with dbging := false }) rfl).endOf
  | ntp on =>
      cases on with
      | true => exact h.of_signal rfl
      | false => exact (h.of_signal (t := { s with ntping := false }) rfl).endOf
  | registered => exact h.of_signal (signal_initial s)

theorem Announced.urc (h : Announced p s) (data pfx : LuaString) :
    Announced p (Links.urc data pfx s) := by
  unfold Links.urc
  split
  · exact h.setIPStatus _
  split
  · exact h
  split
  · exact h.shut_called.of_signal rfl
  split
  · exact h
  split
  · exact h.of_signal (signal_statusind _ _ s)
  · exact h

end Changes

/-! ## Actions -/

/-- No `AT+CIPSHUT` fails while the IP context is usable, with the SIM card ready. -/
def ShutsUsable (s : State ν) : Act ν → Prop
  | .respond _ response _ =>
      match s.ril.current with
      | some ⟨_, .cipshut⟩ => usable s.ipstatus = true → s.simready = true → response = lua "SHUT OK"
      | _ => True
  | _ => True

instance (s : State ν) (a : Act ν) : Decidable (ShutsUsable s a) := by
  unfold ShutsUsable
  split
  · split <;> infer_instance
  · infer_instance

/-- What a listener has heard after the action. -/
def told (s : State ν) (a : Act ν) (p : Bool × Bool) : Bool × Bool :=
  match a, s.qmsg with
  | .msg, m :: _ => hears p m
  | _, _ => p

theorem signal_rsp {cmd : AtCmd} (hc : cmd ≠ .cipshut) (hi : cmd ≠ .ciicr) {success : Bool}
    {response : LuaString} {intermediate : Option LuaString} {s t : State ν}
    (h : rsp cmd success response intermediate s = some t) : signal t = signal s := by
  cases cmd with
  | cipshut => exact absurd rfl hc
  | ciicr => exact absurd rfl hi
  | cipsend id data =>
      simp only [rsp] at h
      split at h
      · have hr : signal (req .cipstatus s) = signal s := signal_req s (by simp)
        split at h
        · exact (signal_sendcnf h).trans hr
        · obtain ⟨r, -, h⟩ := Option.bind_eq_some_iff.mp h
          exact (signal_sendcnf h).trans hr
      · split at h
        · exact signal_sendcnf h
        · obtain ⟨r, -, h⟩ := Option.bind_eq_some_iff.mp h
          exact signal_sendcnf h
  | cipclose id =>
      cases h
      exact signal_closecnf id s
  | cipstart c =>
      cases h
      split
      · exact signal_statusind _ _ s
      · rfl
  | cgatt =>
      cases h
      exact signal_cgattrsp intermediate s
  | _ =>
      cases h
      rfl

theorem Announced.step {p : Bool × Bool} {s t : State ν} {a : Act ν} (h : Announced p s)
    (hr : ShutsUsable s a) (hs : step s a = some t) : Announced (told s a p) t := by
  cases a with
  | sendat =>
      obtain ⟨q, hq, rfl⟩ := Option.map_eq_some_iff.mp hs
      refine h.of_signal ?_
      obtain he | ⟨c, hc, he⟩ := Fifo.start_cases hq
      · simp [signal, he]
      · have hne : c.cmd ≠ .cipshut := fun hn => by rw [hn] at hc; cases hc
        simp [signal, he, hne]
  | respond success response intermediate =>
      simp only [Links.step] at hs
      split at hs
      · rename_i c hf hcur
        obtain ⟨no, cmd⟩ := c
        have hitems : s.ril.items = ⟨no, cmd⟩ :: s.ril.finish.items := Fifo.items_eq_cons hcur
        by_cases hc : cmd = .cipshut
        · subst hc
          cases hs
          simp only [ShutsUsable, hcur] at hr
          exact Announced.shutcnf (s := { s with ril := s.ril.finish }) h.ind h.synced hr
        have hfin : Announced p { s with ril := s.ril.finish } := by
          refine h.of_signal ?_
          simp [signal, hitems, hc]
        by_cases hi : cmd = .ciicr
        · subst hi
          cases hs
          split
          · split
            · split
              · exact hfin.of_signal rfl
              · exact hfin
            · exact hfin
          · exact hfin.shut_called.of_signal rfl
        · exact hfin.of_signal (signal_rsp hc hi hs)
      · cases hs
  | urc data =>
      obtain ⟨-, ⟨⟩⟩ := Option.ite_none_right_eq_some.mp hs
      split
      · split
        · exact h.urc data _
        · exact h
      · exact h
  | msg =>
      simp only [Links.step] at hs
      split at hs
      · rename_i m ms hf hm
        cases hs
        have hp : Announced (hears p m) { s with qmsg := ms } := by
          refine ⟨h.ind, ?_, h.shut⟩
          have := h.synced
          rw [hm, synced_cons] at this
          exact this
        have ht : told s .msg p = hears p m := by simp only [told, hm]
        rw [ht]
        refine hp.of_signal ?_
        cases m with
        | statusind id st => exact signal_statusind id st _
        | closecnf id => exact signal_closecnf id _
        | _ => rfl
      · cases hs
  | proc q =>
      obtain ⟨-, ⟨⟩⟩ := Option.ite_none_right_eq_some.mp hs
      exact h.proc q
  | expire k =>
      obtain ⟨-, he⟩ := Option.ite_none_right_eq_some.mp hs
      refine h.of_signal ?_
      cases k with
      | setupIP => cases he; exact signal_setupIP _
      | cipstatus => cases he; exact signal_req _ (by simp)
      | querycgatt => cases he; exact signal_querycgatt _
      | checkciicr => cases he
      | connecting id =>
          simp only [Links.expire] at he
          split at he
          · cases he
          · cases he
            rfl
  | ret =>
      obtain ⟨f, -, rfl⟩ := Option.map_eq_some_iff.mp hs
      exact h.of_signal (signal_resume f.2 _)
  | shut =>
      cases hs
      exact h.shut_called
  | regipstatusind =>
      cases hs
      exact ⟨rfl, h.synced, h.shut⟩
  | setapn a b c => cases hs; exact h.of_signal rfl
  | setconnectnoretrestart flag interval => cases hs; exact h.of_signal rfl
  | checkciicr tm => cases hs; exact h.of_signal rfl
  | simstatus ready => cases hs; exact h.of_signal rfl
  | calls exist => cases hs; exact h.of_signal rfl
  | _ =>
      cases hs
      exact h.of_signal (by simp)

end LuatAir200.Links
