import LuatAir200.LinkOwner
import LuatAir200.LinkConnecting
import LuatAir200.LinkPending

/-!
# What a client of `link.lua` relies on

A notice says what has become of the link that it is about. When the other modules use links of
their own only, the links of a client change by its own calls and by the events that it is told.
-/
namespace LuatAir200.Links
open Lua Machine

variable {ν : Type}

/-! ## What a notice says -/

/-- What a notice says about its link, when an event leads from `s` to `t`. -/
def Tells (n : Notice ν) (s t : State ν) : Prop :=
  match n.evt with
  | .connect => ∃ l, t.linklist n.id = some l ∧ l.notify = n.notify ∧
      l.state = if n.val = lua "CONNECT OK" then .connected else .closed
  | .state => ∃ l, t.linklist n.id = some l ∧ l.notify = n.notify ∧ l.state = .closed
  | .send => ∃ l, t.linklist n.id = some l ∧ l.notify = n.notify
  | .disconnect => ∃ l, s.linklist n.id = some l ∧ l.notify = n.notify ∧ l.state = .disconnecting ∧
      t.linklist n.id = some { l with state := .closed }
  | .close => ∃ l, s.linklist n.id = some l ∧ l.notify = n.notify ∧ l.state = .closing ∧
      t.linklist n.id = none

def Telling (s t : State ν) : Prop := ∀ f, t.frame = some f → Tells f.1 s t

theorem telling_of_frame {s t : State ν} (h : t.frame = none) : Telling s t := by
  intro f hf
  rw [h] at hf
  cases hf

theorem telling_notify {s t : State ν} {l : Link ν} {id : ℕ} {evt : Evt} {val : LuaString} (r : Rest)
    (h : Tells ⟨l.notify, id, evt, val⟩ s t) : Telling s (notify l id evt val r t) := by
  intro f hf
  obtain rfl := Option.some.inj hf
  exact h

theorem telling_statusind (id : ℕ) (st : LuaString) {s : State ν} (hf : s.frame = none) :
    Telling s (statusind id st s) := by
  unfold statusind
  split
  · exact telling_of_frame hf
  rename_i l hl
  split
  · split
    · exact telling_notify _ ⟨l, hl, rfl⟩
    · exact telling_of_frame hf
  · have hk (k : Link ν) : (usersckntfy k (setLink id (some k) s)).linklist id = some k := by
      refine (congrArg View.link (view_usersckntfy id k _)).trans ?_
      exact congrArg View.link (view_setLink id (some k) s)
    apply telling_notify
    by_cases hev : l.state = .connecting ∨ st = lua "CONNECT OK"
    · rw [if_pos hev]
      exact ⟨_, hk _, rfl, rfl⟩
    · rw [if_neg hev]
      refine ⟨_, hk _, rfl, ?_⟩
      exact if_neg (not_or.mp hev).2

theorem telling_closecnf (id : ℕ) {s : State ν} (hf : s.frame = none) :
    Telling s (closecnf id s) := by
  cases hl : s.linklist id with
  | none =>
      refine telling_of_frame ?_
      simpa [closecnf, hl] using hf
  | some l =>
      rw [closecnf_eq hl]
      split
      · rename_i hst
        exact telling_notify _ ⟨l, hl, rfl, hst, by simp [setLink]⟩
      split
      · rename_i hst
        exact telling_notify _ ⟨l, hl, rfl, hst, by simp [setLink]⟩
      · exact telling_of_frame hf

theorem telling_shutLoop (is : List ℕ) (u : State ν) {s : State ν} (hf : s.frame = none) :
    Telling u (shutLoop is s) := by
  induction is generalizing s with
  | nil => exact telling_of_frame ((frame_stopcheckciicr s).trans hf)
  | cons i is ih =>
      rw [shutLoop]
      split
      · exact ih hf
      split
      · exact ih hf
      · rename_i l _ _
        exact telling_notify _ ⟨{ l with state := .closed }, by simp [setLink], rfl, rfl⟩

theorem telling_shutcnf (result : LuaString) (u : State ν) {s : State ν} (hf : s.frame = none) :
    Telling u (shutcnf result s) := by
  have hend : (shutEnded s).frame = none := by
    unfold shutEnded
    split <;> exact hf
  rw [shutcnf_eq]
  split
  · exact telling_shutLoop ids u ((frame_setIPStatus _ _).trans hend)
  · exact telling_of_frame ((frame_stopcheckciicr _).trans hend)

theorem telling_sendcnf {id : ℕ} {r : LuaString} {s t : State ν} (u : State ν)
    (h : sendcnf id r s = some t) : Telling u t := by
  rw [sendcnf_eq] at h
  obtain ⟨l, -, rfl⟩ := Option.map_eq_some_iff.mp h
  exact telling_notify _ ⟨l, by simp [setLink], rfl⟩

theorem telling_rsp {cmd : AtCmd} {success : Bool} {response : LuaString} {i : Option LuaString}
    {s t : State ν} (hf : s.frame = none) (h : rsp cmd success response i s = some t) :
    Telling s t := by
  cases cmd with
  | cipsend id data =>
      have told {u : State ν} {st : LuaString} (hu : (if (smatch st (lua "DATA ACCEPT")).isSome then
          sendcnf id (lua "SEND OK") u else (getresult st).bind fun r => sendcnf id r u) = some t) :
          Telling s t := by
        split at hu
        · exact telling_sendcnf s hu
        · obtain ⟨r, -, hu⟩ := Option.bind_eq_some_iff.mp hu
          exact telling_sendcnf s hu
      exact told h
  | cipclose id =>
      obtain rfl := Option.some.inj h
      exact telling_closecnf id hf
  | cipshut =>
      obtain rfl := Option.some.inj h
      exact telling_shutcnf response s hf
  | cipstart c =>
      obtain rfl := Option.some.inj h
      split
      · exact telling_statusind c.id _ hf
      · exact telling_of_frame hf
  | ciicr =>
      obtain rfl := Option.some.inj h
      apply telling_of_frame
      split
      · split
        · split <;> exact hf
        · exact hf
      · exact (frame_shut s).trans hf
  | cgatt =>
      obtain rfl := Option.some.inj h
      exact telling_of_frame ((frame_cgattrsp i s).trans hf)
  | cstt | cipstatus | cifsr | other =>
      obtain rfl := Option.some.inj h
      exact telling_of_frame hf

theorem telling_urc (data pfx : LuaString) {s : State ν} (hf : s.frame = none) :
    Telling s (urc data pfx s) := by
  unfold urc
  split
  · exact telling_of_frame ((frame_setIPStatus _ s).trans hf)
  split
  · exact telling_of_frame hf
  split
  · exact telling_of_frame ((frame_shut s).trans hf)
  split
  · exact telling_of_frame hf
  split
  · exact telling_statusind _ _ hf
  · exact telling_of_frame hf

theorem telling_resume (r : Rest) (u : State ν) {s : State ν} (hf : s.frame = none) :
    Telling u (resume r s) := by
  cases r with
  | done => exact telling_of_frame hf
  | stopconnectingtimer id => exact telling_of_frame hf
  | disconnected id =>
      apply telling_of_frame
      simp only [resume]
      split
      · exact (frame_usersckntfy _ s).trans hf
      · exact hf
  | shut i is =>
      simp only [resume]
      split
      · exact telling_shutLoop is u ((frame_usersckntfy _ s).trans hf)
      · exact telling_of_frame hf

/-- What the notice of an event says is so. -/
theorem step_telling {s t : State ν} {a : Act ν} (h : step s a = some t)
    (hf : s.frame = none ∨ a = .ret) : Telling s t := by
  obtain hf | rfl := hf
  · cases a with
    | sendat =>
        obtain ⟨q, -, rfl⟩ := Option.map_eq_some_iff.mp h
        exact telling_of_frame hf
    | respond success response i =>
        simp only [step] at h
        split at h
        · exact telling_rsp (s := { s with ril := s.ril.finish }) hf h
        · cases h
    | urc data =>
        obtain ⟨-, h⟩ := Option.ite_none_right_eq_some.mp h
        obtain rfl := Option.some.inj h
        split
        · split
          · exact telling_urc data _ hf
          · exact telling_of_frame hf
        · exact telling_of_frame hf
    | msg =>
        simp only [step] at h
        split at h
        · rename_i m ms _ hm
          obtain rfl := Option.some.inj h
          cases m with
          | statusind id st => exact telling_statusind (s := { s with qmsg := ms }) id st hf
          | closecnf id => exact telling_closecnf (s := { s with qmsg := ms }) id hf
          | _ => exact telling_of_frame hf
        · cases h
    | proc p =>
        obtain ⟨-, h⟩ := Option.ite_none_right_eq_some.mp h
        obtain rfl := Option.some.inj h
        exact telling_of_frame ((frame_proc p s).trans hf)
    | expire k =>
        obtain ⟨-, h⟩ := Option.ite_none_right_eq_some.mp h
        apply telling_of_frame
        cases k with
        | setupIP =>
            obtain rfl := Option.some.inj h
            exact (frame_setupIP _).trans hf
        | cipstatus =>
            obtain rfl := Option.some.inj h
            exact hf
        | querycgatt =>
            obtain rfl := Option.some.inj h
            exact (frame_querycgatt _).trans hf
        | checkciicr => cases h
        | connecting id =>
            simp only [expire] at h
            split at h
            · cases h
            · obtain rfl := Option.some.inj h
              exact hf
    | ret =>
        obtain ⟨f, hf', -⟩ := Option.map_eq_some_iff.mp h
        rw [hf] at hf'
        cases hf'
    | _ =>
        obtain rfl := Option.some.inj h
        apply telling_of_frame
        simpa [req, setapn] using hf
  · obtain ⟨f, -, rfl⟩ := Option.map_eq_some_iff.mp h
    exact telling_resume f.2 s rfl

/-! ## How a link changes -/

theorem shutLoop_told {id : ℕ} (is : List ℕ) (s : State ν) :
    (shutLoop is s).linklist id = s.linklist id ∨ ∃ l rest, s.linklist id = some l ∧
      (shutLoop is s).frame = some (⟨l.notify, id, .state, lua "SHUTED"⟩, rest) := by
  induction is generalizing s with
  | nil => exact .inl (congrArg View.link (view_stopcheckciicr id s))
  | cons i is ih =>
      cases hl : s.linklist i with
      | none =>
          simp only [shutLoop, hl]
          exact ih s
      | some l =>
          simp only [shutLoop, hl]
          split
          · exact ih (stopconnectingtimer i s)
          · by_cases hi : id = i
            · subst hi
              exact .inr ⟨l, .shut id is, hl, rfl⟩
            · left
              simp [notify, setLink, hi]

theorem step_shutOf_told {s t : State ν} {a : Act ν} {id : ℕ} (h : step s a = some t)
    (hm : id ∈ shutOf s a) :
    t.linklist id = s.linklist id ∨ ∃ l rest, s.linklist id = some l ∧
      t.frame = some (⟨l.notify, id, .state, lua "SHUTED"⟩, rest) := by
  obtain ⟨u, hu, ht⟩ := step_shutLoop h hm
  obtain rfl | rfl := ht
  · rw [← hu]
    exact shutLoop_told _ u
  · exact .inl (congrFun hu id)

theorem closeOf_frame {s t : State ν} {a : Act ν} {id : ℕ} (h : step s a = some t)
    (hc : closeOf s a = some id) : s.frame = none := by
  cases hf : s.frame with
  | none => rfl
  | some f =>
      cases a with
      | respond | msg => simp [step, hf] at h
      | _ => cases hc

/-- A link changes its state by the calls of its owner, and by the events that the owner is told. -/
theorem step_kept {s t : State ν} {a : Act ν} {id : ℕ} {l : Link ν} (hs : Shape s)
    (hl : s.linklist id = some l) (h : step s a = some t) :
    (∃ k, t.linklist id = some k ∧ k.notify = l.notify ∧ k.state = l.state) ∨
      a = .close id ∨ a = .disconnect id ∨ (∃ prot addr port, a = .connect id prot addr port) ∨
      (a = .ret ∨ s.frame = none) ∧ ∃ n rest, t.frame = some (n, rest) ∧ n.notify = l.notify ∧
        n.id = id ∧ n.evt ≠ .send := by
  have he := step_effect hs h id
  generalize hv : view id t = v at he
  have hlink : t.linklist id = v.link := congrArg View.link hv
  have same (k : Link ν) (hk : s.linklist id = some k) : k = l := by
    rw [hl] at hk
    exact (Option.some.inj hk).symm
  cases he with
  | quiet => exact .inl ⟨l, hlink.trans ((congrFun (taken_linklist s a) id).trans hl), rfl, rfl⟩
  | opened n tag ho hn => simp [hl] at hn
  | closing k ha => exact .inr (.inl ha)
  | called k prot addr port ha => exact .inr (.inr (.inr (.inl ⟨prot, addr, port, ha⟩)))
  | parked k prot addr port ha => exact .inr (.inr (.inr (.inl ⟨prot, addr, port, ha⟩)))
  | started k prot addr port ha => exact .inr (.inr (.inr (.inl ⟨prot, addr, port, ha⟩)))
  | withdrawn k ha => exact .inr (.inr (.inl ha))
  | disconnecting k ha => exact .inr (.inr (.inl ha))
  | sent => exact .inl ⟨l, hlink.trans hl, rfl, rfl⟩
  | dropped => exact .inl ⟨l, hlink.trans hl, rfl, rfl⟩
  | released k c n hr hi hk =>
      obtain rfl := same k hk
      exact .inl ⟨_, hlink, rfl, rfl⟩
  | status k st hst hf hk =>
      refine .inr (.inr (.inr (.inr ⟨.inr (statusOf_frame h hst), ?_⟩)))
      have hlt : (taken s a).linklist id = some l := (congrFun (taken_linklist s a) id).trans hl
      rw [step_statusOf h hst]
      simp only [statusind, hlt, hf, if_false]
      refine ⟨_, _, rfl, rfl, rfl, ?_⟩
      dsimp only
      split <;> decide
  | shuted k hm hk =>
      obtain ht | ⟨m, rest, hm', hfr⟩ := step_shutOf_told h hm
      · exact .inl ⟨l, ht.trans hl, rfl, rfl⟩
      · obtain rfl := same m hm'
        exact .inr (.inr (.inr (.inr ⟨shutOf_frame h hm, _, rest, hfr, rfl, rfl, by simp⟩)))
  | disconnected k hc hk hks =>
      obtain rfl := same k hk
      refine .inr (.inr (.inr (.inr ⟨.inr (closeOf_frame h hc), ?_⟩)))
      have hlt : (taken s a).linklist id = some k := (congrFun (taken_linklist s a) id).trans hl
      rw [step_closeOf h hc, closecnf_eq hlt, if_pos hks]
      exact ⟨_, _, rfl, rfl, rfl, by simp⟩
  | closed k hc hk hks =>
      obtain rfl := same k hk
      refine .inr (.inr (.inr (.inr ⟨.inr (closeOf_frame h hc), ?_⟩)))
      exact ⟨_, _, step_freed hc hl hks h, rfl, rfl, by simp⟩

/-! ## A client among others -/

def isRet : Act ν → Bool
  | .ret => true
  | _ => false

theorem isRet_iff {a : Act ν} : isRet a = true ↔ a = .ret := by
  cases a <;> simp [isRet]

section Client

variable [DecidableEq ν] (c : ν)

/-- Other modules do not open links with this notify function, and use their own links only. -/
def foreign (s : State ν) : Act ν → Bool
  | .openid _ n _ => n ≠ c
  | .openlink n _ => n ≠ c
  | .close id => owner id s ≠ some c
  | .connect id _ _ _ => owner id s ≠ some c
  | .disconnect id => owner id s ≠ some c
  | .send id _ => owner id s ≠ some c
  | _ => true

/-- What the client is told when `link.lua` goes from `s` to `t`. -/
def notified (s : State ν) (a : Act ν) (t : State ν) : Option (Notice ν) :=
  if s.frame.isNone ∨ isRet a then
    match t.frame with
    | some (n, _) => if n.notify = c then some n else none
    | none => none
  else none

/-- The state of link `id`, if it is the client's. -/
def stateOf (id : ℕ) (s : State ν) : Option LinkState :=
  (s.linklist id).bind fun l => if l.notify = c then some l.state else none

variable {c} {s t : State ν} {a : Act ν} {id : ℕ}

theorem notified_iff {n : Notice ν} : notified c s a t = some n ↔
    (s.frame = none ∨ a = .ret) ∧ n.notify = c ∧ ∃ rest, t.frame = some (n, rest) := by
  have hc : (s.frame.isNone = true ∨ isRet a = true) ↔ (s.frame = none ∨ a = .ret) := by
    rw [Option.isNone_iff_eq_none, isRet_iff]
  unfold notified
  split
  · rename_i hf
    cases ht : t.frame with
    | none => simp
    | some f =>
        obtain ⟨m, rest⟩ := f
        constructor
        · intro h
          obtain ⟨hm, h⟩ := Option.ite_none_right_eq_some.mp h
          obtain rfl := Option.some.inj h
          exact ⟨hc.mp hf, hm, rest, rfl⟩
        · rintro ⟨-, hm, r, h⟩
          cases h
          exact if_pos hm
  · rename_i hf
    rw [hc] at hf
    simp [hf]

/-- What the client is told is so. -/
theorem notified_tells {n : Notice ν} (h : step s a = some t) (ht : notified c s a t = some n) :
    n.notify = c ∧ Tells n s t := by
  obtain ⟨hf, hn, rest, ht⟩ := notified_iff.mp ht
  exact ⟨hn, step_telling h hf (n, rest) ht⟩

/-- The link of a notice is the client's, unless it has been freed. -/
theorem notified_owner {n : Notice ν} (h : step s a = some t) (ht : notified c s a t = some n)
    (he : n.evt ≠ .close) : owner n.id t = some c := by
  obtain ⟨hn, ht⟩ := notified_tells h ht
  have key {k : Link ν} (hk : t.linklist n.id = some k) (hkn : k.notify = n.notify) :
      owner n.id t = some c := by
    rw [owner, hk, Option.map_some, hkn, hn]
  unfold Tells at ht
  split at ht
  · obtain ⟨k, hk, hkn, -⟩ := ht
    exact key hk hkn
  · obtain ⟨k, hk, hkn, -⟩ := ht
    exact key hk hkn
  · obtain ⟨k, hk, hkn⟩ := ht
    exact key hk hkn
  · obtain ⟨k, -, hkn, -, hk⟩ := ht
    exact key hk hkn
  · rename_i hc
    exact absurd hc he

theorem stateOf_eq_some {st : LinkState} : stateOf c id s = some st ↔
    ∃ l, s.linklist id = some l ∧ l.notify = c ∧ l.state = st := by
  unfold stateOf
  rw [Option.bind_eq_some_iff]
  constructor
  · rintro ⟨l, hl, h⟩
    obtain ⟨hn, h⟩ := Option.ite_none_right_eq_some.mp h
    exact ⟨l, hl, hn, Option.some.inj h⟩
  · rintro ⟨l, hl, hn, rfl⟩
    exact ⟨l, hl, if_pos hn⟩

theorem stateOf_isSome : (stateOf c id s).isSome = true ↔ owner id s = some c := by
  rw [Option.isSome_iff_exists, owner, Option.map_eq_some_iff]
  constructor
  · rintro ⟨st, h⟩
    obtain ⟨l, hl, hn, -⟩ := stateOf_eq_some.mp h
    exact ⟨l, hl, hn⟩
  · rintro ⟨l, hl, hn⟩
    exact ⟨l.state, stateOf_eq_some.mpr ⟨l, hl, hn, rfl⟩⟩

/-- Other modules do not give the client new links. -/
theorem foreign_owner (hs : Shape s) (hf : foreign c s a = true) (h : step s a = some t)
    (ho : owner id t = some c) : owner id s = some c := by
  obtain he | ⟨hopen, -⟩ | ⟨-, l, -, -, hn⟩ := step_owner hs h id
  · rwa [← he]
  · obtain ⟨n, tag, ha, hn⟩ := step_opens h hopen
    obtain rfl : n = c := Option.some.inj (hn.symm.trans ho)
    obtain rfl | rfl := ha <;> simp [foreign] at hf
  · rw [owner, hn] at ho
    cases ho

/-- A link of the client stays as it is until the client is told of a change. -/
theorem foreign_kept (hs : Shape s) (hf : foreign c s a = true) (h : step s a = some t)
    {st : LinkState} (hst : stateOf c id s = some st) :
    stateOf c id t = some st ∨ ∃ n, notified c s a t = some n ∧ n.id = id ∧ n.evt ≠ .send := by
  obtain ⟨l, hl, hn, rfl⟩ := stateOf_eq_some.mp hst
  have ho : owner id s = some c := stateOf_isSome.mp (by rw [hst]; rfl)
  obtain ⟨k, hk, hkn, hks⟩ | rfl | rfl | ⟨p, q, r, rfl⟩ | ⟨hr, n, rest, hfr, hnn, hid, hev⟩ :=
    step_kept hs hl h
  · exact .inl (stateOf_eq_some.mpr ⟨k, hk, hkn.trans hn, hks⟩)
  · simp [foreign, ho] at hf
  · simp [foreign, ho] at hf
  · simp [foreign, ho] at hf
  · exact .inr ⟨n, notified_iff.mpr ⟨hr.symm, hnn.trans hn, rest, hfr⟩, hid, hev⟩

end Client

/-! ## Calls of the client -/

/-- `connect` is accepted in this state. -/
def LinkState.connectable (st : LinkState) : Bool := ¬lua "ING" <:+ st.text ∧ st ≠ .connected

section Calls

variable [DecidableEq ν] {c : ν} {s t : State ν} {id : ℕ} {st : LinkState}

@[simp] theorem stateOf_send (k : ℕ) (data : LuaString) :
    stateOf c id (send k data s).1 = stateOf c id s := by
  obtain he | ⟨l, -, -, -, he⟩ := send_cases k data s <;> rw [he]
  rfl

theorem stateOf_close (h : stateOf c id s = some st) (hst : st.text ≠ lua "CLOSEING") :
    stateOf c id (close id s).1 = some .closing := by
  obtain ⟨l, hl, hn, rfl⟩ := stateOf_eq_some.mp h
  have hv : validaction s id .close = true := by
    simp only [validaction, hl]
    rw [if_neg (fun he => hst he.symm), if_neg (by simp)]
  refine stateOf_eq_some.mpr ⟨{ l with state := .closing }, ?_, hn, rfl⟩
  simp [close, hv, hl, req, setLink]

theorem stateOf_connect (h : stateOf c id s = some st) (hc : st.connectable = true)
    (prot addr port : LuaString) :
    stateOf c id (connect id prot addr port s).1 = some .connecting := by
  obtain ⟨l, hl, hn, rfl⟩ := stateOf_eq_some.mp h
  obtain ⟨hing, hcon⟩ := of_decide_eq_true hc
  have hv : validaction s id .connect = true := by
    simp only [validaction, hl]
    rw [if_neg, if_neg (by simp [hing])]
    intro he
    exact hing (he ▸ by decide)
  have ha : (connect id prot addr port s).2 = true := connect_accepted hv hl hcon
  obtain ⟨k, hk, hs⟩ := connect_waits ha
  have ho : owner id (connect id prot addr port s).1 = some c := by
    rw [owner_connect, owner, hl, Option.map_some, hn]
  obtain ⟨k', hk', hn'⟩ := Option.map_eq_some_iff.mp ho
  obtain rfl : k = k' := Option.some.inj (hk.symm.trans hk')
  exact stateOf_eq_some.mpr ⟨k, hk, hn', hs⟩

theorem stateOf_openlink {k : ℕ} (hk : emptylink s = some k) (tag : Bool) :
    stateOf c k (openlink c tag s).1 = some .initial := by
  obtain ⟨hl, hmax⟩ := emptylink_free hk
  refine stateOf_eq_some.mpr ⟨⟨c, tag, .initial, none⟩, ?_, rfl, rfl⟩
  simp only [openlink, hk]
  exact congrArg View.link (openid_free hl hmax c tag).2.2

/-- In the other states `connect` does nothing. -/
theorem connect_unable (h : stateOf c id s = some st) (hc : st.connectable = false)
    (prot addr port : LuaString) : (connect id prot addr port s).1 = s := by
  obtain ⟨l, hl, -, rfl⟩ := stateOf_eq_some.mp h
  obtain he | ⟨k, hv, hk, hn, -⟩ := connect_cases id prot addr port s
  · rw [he]
  · exfalso
    obtain rfl : l = k := Option.some.inj (hl.symm.trans hk)
    refine of_decide_eq_false hc ⟨?_, hn⟩
    intro hing
    simp only [validaction, hl] at hv
    split at hv
    · cases hv
    · simp [hing] at hv

end Calls

end LuatAir200.Links
