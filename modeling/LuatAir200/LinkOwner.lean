import LuatAir200.LinkNotice

/-!
# Who owns a link

A link has the notify function that it was opened with until it is freed, and the notice
`CLOSE` is given only when a link is freed.
-/
namespace LuatAir200.Links
open Lua Machine

variable {ν : Type}

/-- The notify function of link `id`. -/
def owner (id : ℕ) (s : State ν) : Option ν := (s.linklist id).map Link.notify

theorem owner_of_view {id : ℕ} {s t : State ν} (h : view id t = view id s) :
    owner id t = owner id s := congrArg (fun v => Option.map Link.notify (View.link v)) h

/-- An action leaves a link to its owner, unless it opens or frees it. -/
theorem step_owner {s t : State ν} {a : Act ν} (hs : Shape s) (h : step s a = some t) (id : ℕ) :
    owner id t = owner id s ∨ opensOf s a = some id ∧ s.linklist id = none ∨
      closeOf s a = some id ∧ ∃ l, s.linklist id = some l ∧ l.state = .closing ∧
        t.linklist id = none := by
  cases hl : s.linklist id with
  | none =>
      have he := step_effect hs h id
      generalize hw : view id t = v at he
      have hv : owner id t = v.link.map Link.notify := congrArg (fun v => v.link.map Link.notify) hw
      have hn : owner id s = none := by rw [owner, hl]; rfl
      rw [hv, hn]
      cases he with
      | quiet =>
          left
          show Option.map Link.notify ((taken s a).linklist id) = none
          rw [taken_linklist s a, hl]
          rfl
      | opened n tag ho => exact .inr (.inl ⟨ho, rfl⟩)
      | dropped =>
          left
          show Option.map Link.notify (s.linklist id) = none
          rw [hl]
          rfl
      | closing k _ hk | called k _ _ _ _ _ hk | parked k _ _ _ _ _ hk | started k _ _ _ _ _ hk
      | withdrawn k _ hk | disconnecting k _ hk | sent k _ _ hk | released k _ _ _ _ hk
      | status k _ _ _ hk | shuted k _ hk | disconnected k _ hk | closed k _ hk =>
          rw [hl] at hk
          cases hk
  | some l =>
      obtain ⟨k, hk, hn⟩ | ⟨hc, hst, hgone⟩ := step_link hs hl h
      · left
        simp [owner, hl, hk, hn]
      · exact .inr (.inr ⟨hc, l, rfl, hst, hgone⟩)

theorem owner_openid {s : State ν} {k : ℕ} (hl : s.linklist k = none) (hk : k ≤ MAXLINKS) (n : ν)
    (tag : Bool) (id : ℕ) : owner id (openid k n tag s).1 = if id = k then some n else owner id s := by
  obtain ⟨-, hne, hself⟩ := openid_free hl hk n tag
  by_cases hi : id = k
  · subst hi
    rw [if_pos rfl]
    exact congrArg (fun v => v.link.map Link.notify) hself
  · rw [if_neg hi]
    exact owner_of_view (hne id hi)

/-- `open` gives the first free link to the caller. -/
theorem owner_openlink {s : State ν} {k : ℕ} (hk : emptylink s = some k) (n : ν) (tag : Bool)
    (id : ℕ) : owner id (openlink n tag s).1 = if id = k then some n else owner id s := by
  obtain ⟨hl, hmax⟩ := emptylink_free hk
  simp only [openlink, hk]
  exact owner_openid hl hmax n tag id

/-- A link that an action opens belongs to its caller. -/
theorem step_opens {s t : State ν} {a : Act ν} {id : ℕ} (h : step s a = some t)
    (ho : opensOf s a = some id) :
    ∃ n tag, (a = .openid id n tag ∨ a = .openlink n tag) ∧ owner id t = some n := by
  cases a with
  | openid k n tag =>
      obtain ⟨hk, ho⟩ := Option.ite_none_left_eq_some.mp ho
      cases ho
      cases h
      rw [not_or, not_not] at hk
      refine ⟨n, tag, .inl rfl, ?_⟩
      rw [owner_openid hk.2 (Nat.le_of_not_lt hk.1), if_pos rfl]
  | openlink n tag =>
      cases h
      exact ⟨n, tag, .inr rfl, by rw [owner_openlink ho, if_pos rfl]⟩
  | _ => cases ho

/-! ## Calls that leave the owners alone -/

theorem owner_setLink {s : State ν} {k : ℕ} {l : Link ν} (hl : s.linklist k = some l)
    (st : LinkState) (p : Option Connect) (id : ℕ) :
    owner id (setLink k (some { l with state := st, pending := p }) s) = owner id s := by
  by_cases hi : id = k
  · subst hi
    simp [owner, setLink, hl]
  · simp [owner, setLink, hi]

theorem owner_startconnectingtimer (id k : ℕ) (s : State ν) :
    owner id (startconnectingtimer k s) = owner id s :=
  owner_of_view (view_startconnectingtimer id k s)

@[simp] theorem owner_connect (k : ℕ) (prot addr port : LuaString) (id : ℕ) (s : State ν) :
    owner id (connect k prot addr port s).1 = owner id s := by
  obtain he | ⟨l, -, hl, -, ⟨-, he⟩ | ⟨-, he⟩ | ⟨-, he⟩⟩ := connect_cases k prot addr port s
  · rw [he]
  · rw [he]
    exact owner_setLink hl _ _ id
  · rw [he]
    exact owner_setLink hl _ _ id
  · rw [he]
    dsimp only
    rw [owner_startconnectingtimer]
    exact owner_setLink hl _ _ id

@[simp] theorem owner_disconnect (k id : ℕ) (s : State ν) :
    owner id (disconnect k s).1 = owner id s := by
  obtain he | ⟨l, -, hl, ⟨-, -, he⟩ | he⟩ := disconnect_cases k s
  · rw [he]
  · rw [he]
    exact owner_setLink hl _ _ id
  · rw [he]
    exact owner_setLink hl _ _ id

@[simp] theorem owner_close (k id : ℕ) (s : State ν) : owner id (close k s).1 = owner id s := by
  obtain he | ⟨l, -, hl, he⟩ := close_cases k s
  · rw [he]
  · rw [he]
    exact owner_setLink hl _ _ id

@[simp] theorem owner_send (k : ℕ) (data : LuaString) (id : ℕ) (s : State ν) :
    owner id (send k data s).1 = owner id s := by
  obtain he | ⟨l, -, -, -, he⟩ := send_cases k data s <;> rw [he]
  rfl

/-! ## The notice `CLOSE` -/

/-- No notify function is being told that its link is closed. -/
def NotClosing (s : State ν) : Prop := ∀ f, s.frame = some f → f.1.evt ≠ .close

theorem NotClosing.of_frame {s t : State ν} (h : NotClosing s) (hf : t.frame = s.frame) :
    NotClosing t := by
  rw [NotClosing, hf]
  exact h

theorem notClosing_notify {evt : Evt} (he : evt ≠ .close) (l : Link ν) (id : ℕ) (val : LuaString)
    (r : Rest) (s : State ν) : NotClosing (notify l id evt val r s) := by
  intro f hf
  cases hf
  exact he

@[simp] theorem frame_usersckntfy (l : Link ν) (s : State ν) : (usersckntfy l s).frame = s.frame := by
  unfold usersckntfy
  split <;> rfl

@[simp] theorem frame_stopcheckciicr (s : State ν) : (stopcheckciicr s).frame = s.frame := by
  unfold stopcheckciicr
  split <;> rfl

@[simp] theorem frame_endOf (s : State ν) : (endOf s).frame = s.frame := by
  unfold endOf
  split
  · exact frame_shut s
  · rfl

theorem frame_connpend (is : List ℕ) (s : State ν) : (connpend is s).frame = s.frame := by
  induction is generalizing s with
  | nil => rfl
  | cons i is ih =>
      rw [connpend]
      split
      · exact ih s
      split
      · exact ih s
      · rw [ih]
        exact frame_startconnectingtimer _ _

theorem frame_ipstatusChanged (s : State ν) : (ipstatusChanged s).frame = s.frame := by
  unfold ipstatusChanged
  split
  · rfl
  split
  · exact frame_connpend ids s
  split
  · rfl
  split
  · rfl
  split
  · rfl
  · exact frame_shut s

@[simp] theorem frame_setIPStatus (st : LuaString) (s : State ν) :
    (setIPStatus st s).frame = s.frame := by
  unfold setIPStatus
  dsimp only
  split
  · rw [frame_ipstatusChanged]
    show (if _ then _ else _ : State ν).frame = _
    split <;> split <;> rfl
  · split <;> rfl

theorem frame_cgattrsp (i : Option LuaString) (s : State ν) : (cgattrsp i s).frame = s.frame := by
  unfold cgattrsp
  split
  · dsimp only
    split
    · split
      · exact frame_setupIP _
      · rfl
    · rfl
  split
  · dsimp only
    split <;> rfl
  · rfl

theorem frame_req (cmd : AtCmd) (s : State ν) : (req cmd s).frame = s.frame := rfl

theorem frame_proc (p : Proc) (s : State ν) : (proc p s).frame = s.frame := by
  cases p with
  | imsiReady code => simp only [proc]; split <;> rfl
  | flymode on => simp only [proc]; split <;> rfl
  | update on | dbg on | ntp on =>
      simp only [proc]
      split
      · rfl
      · exact frame_endOf _
  | registered =>
      show (initial s).frame = s.frame
      unfold initial
      split
      · rfl
      · simp only [frame_req]

theorem notClosing_statusind (id : ℕ) (st : LuaString) {s : State ν} (h : NotClosing s) :
    NotClosing (statusind id st s) := by
  unfold statusind
  split
  · exact h
  split
  · split
    · exact notClosing_notify (by decide) _ _ _ _ _
    · exact h
  · apply notClosing_notify
    split <;> decide

theorem notClosing_shutLoop (is : List ℕ) {s : State ν} (h : NotClosing s) :
    NotClosing (shutLoop is s) := by
  induction is generalizing s with
  | nil => exact h.of_frame (frame_stopcheckciicr s)
  | cons i is ih =>
      rw [shutLoop]
      split
      · exact ih h
      split
      · exact ih h
      · exact notClosing_notify (by decide) _ _ _ _ _

theorem notClosing_shutcnf (result : LuaString) {s : State ν} (h : NotClosing s) :
    NotClosing (shutcnf result s) := by
  have rest {u : State ν} (hu : NotClosing u) : NotClosing
      (if result = lua "SHUT OK" ∨ !u.simready then shutLoop ids (setIPStatus (lua "IP INITIAL") u)
        else stopcheckciicr (timer_start .cipstatus 10000 u)) := by
    split
    · exact notClosing_shutLoop ids (hu.of_frame (frame_setIPStatus _ u))
    · exact hu.of_frame (frame_stopcheckciicr _)
  apply rest
  split <;> exact h

theorem notClosing_sendcnf {id : ℕ} {r : LuaString} {s t : State ν} (h : sendcnf id r s = some t) :
    NotClosing t := by
  obtain ⟨l, val, -, hf⟩ := sendcnf_frame h
  intro f hft
  rw [hf] at hft
  cases hft
  show Evt.send ≠ .close
  decide

theorem notClosing_rsp {cmd : AtCmd} {success : Bool} {response : LuaString}
    {i : Option LuaString} {s t : State ν} (h : NotClosing s) (hn : ∀ id, cmd ≠ .cipclose id)
    (hr : rsp cmd success response i s = some t) : NotClosing t := by
  cases cmd with
  | cipsend id data =>
      have told {u : State ν} {st : LuaString} (hu : (if (smatch st (lua "DATA ACCEPT")).isSome then
          sendcnf id (lua "SEND OK") u else (getresult st).bind fun r => sendcnf id r u) = some t) :
          NotClosing t := by
        split at hu
        · exact notClosing_sendcnf hu
        · obtain ⟨r, -, hu⟩ := Option.bind_eq_some_iff.mp hu
          exact notClosing_sendcnf hu
      exact told hr
  | cipclose id => exact absurd rfl (hn id)
  | cipshut =>
      cases hr
      exact notClosing_shutcnf response h
  | cipstart c =>
      cases hr
      split
      · exact notClosing_statusind c.id _ h
      · exact h
  | ciicr =>
      cases hr
      split
      · split
        · split <;> exact h
        · exact h
      · exact h.of_frame (frame_shut s)
  | cgatt =>
      cases hr
      exact h.of_frame (frame_cgattrsp i s)
  | cstt | cipstatus | cifsr | other =>
      cases hr
      exact h

theorem notClosing_urc (data pfx : LuaString) {s : State ν} (h : NotClosing s) :
    NotClosing (urc data pfx s) := by
  unfold urc
  split
  · exact h.of_frame (frame_setIPStatus _ s)
  split
  · exact h
  split
  · exact h.of_frame (frame_shut s)
  split
  · exact h
  split
  · exact notClosing_statusind _ _ h
  · exact h

theorem notClosing_resume (r : Rest) {s : State ν} (h : NotClosing s) : NotClosing (resume r s) := by
  cases r with
  | done => exact h
  | stopconnectingtimer id => exact h
  | disconnected id =>
      simp only [resume]
      split
      · exact h.of_frame (frame_usersckntfy _ s)
      · exact h
  | shut i is =>
      simp only [resume]
      split
      · exact notClosing_shutLoop is (h.of_frame (frame_usersckntfy _ s))
      · exact h

/-- The notice `CLOSE` is given when a link is freed, to its owner. -/
theorem step_closes {s t : State ν} {a : Act ν} {n : Notice ν} {r : Rest}
    (h : step s a = some t) (hf : s.frame = none ∨ a = .ret) (ht : t.frame = some (n, r))
    (he : n.evt = .close) :
    closeOf s a = some n.id ∧ ∃ l, s.linklist n.id = some l ∧ l.state = .closing := by
  have contra (hn : NotClosing t) : False := hn (n, r) ht he
  cases hc : closeOf s a with
  | some id =>
      have htk := step_closeOf h hc
      have hframe : (taken s a).frame = none := by
        have ha : s.frame = none := by
          obtain hf | rfl := hf
          · exact hf
          · cases hc
        cases a <;> exact ha
      have hlink : (taken s a).linklist id = s.linklist id := congrFun (taken_linklist s a) id
      cases hl : s.linklist id with
      | none =>
          have hsame : t = taken s a := by
            rw [htk, closecnf]
            simp only [hlink, hl]
          rw [hsame, hframe] at ht
          cases ht
      | some l =>
          rw [closecnf_eq (hlink.trans hl)] at htk
          split at htk
          · rw [htk] at ht
            cases ht
            cases he
          split at htk
          · rename_i hst
            rw [htk] at ht
            cases ht
            exact ⟨rfl, l, hl, hst⟩
          · rw [htk, hframe] at ht
            cases ht
  | none =>
      exfalso
      apply contra
      obtain hf | rfl := hf
      · have hnc : NotClosing s := by
          intro f hf'
          rw [hf] at hf'
          cases hf'
        cases a with
        | sendat =>
            obtain ⟨q, -, rfl⟩ := Option.map_eq_some_iff.mp h
            exact hnc
        | respond success response i =>
            simp only [step] at h
            split at h
            · rename_i c _ hcur
              refine notClosing_rsp (by exact hnc) ?_ h
              intro id hcmd
              obtain ⟨no, cmd⟩ := c
              cases hcmd
              simp [closeOf, hcur] at hc
            · cases h
        | urc data =>
            obtain ⟨-, h⟩ := Option.ite_none_right_eq_some.mp h
            cases h
            split
            · split
              · exact notClosing_urc data _ hnc
              · exact hnc
            · exact hnc
        | msg =>
            simp only [step] at h
            split at h
            · rename_i m ms _ hm
              cases h
              cases m with
              | statusind id st => exact notClosing_statusind id st hnc
              | closecnf id => simp [closeOf, hm] at hc
              | _ => exact hnc
            · cases h
        | proc p =>
            obtain ⟨-, h⟩ := Option.ite_none_right_eq_some.mp h
            cases h
            exact hnc.of_frame (frame_proc p s)
        | expire k =>
            obtain ⟨-, h⟩ := Option.ite_none_right_eq_some.mp h
            cases k with
            | setupIP =>
                cases h
                exact hnc.of_frame (frame_setupIP _)
            | cipstatus =>
                cases h
                exact hnc
            | querycgatt =>
                cases h
                exact hnc.of_frame (frame_querycgatt _)
            | checkciicr => cases h
            | connecting id =>
                simp only [expire] at h
                split at h
                · cases h
                · cases h
                  exact hnc
        | ret =>
            obtain ⟨f, hf', -⟩ := Option.map_eq_some_iff.mp h
            rw [hf] at hf'
            cases hf'
        | _ =>
            cases h
            refine hnc.of_frame ?_
            simp [req, setapn]
      · obtain ⟨f, -, rfl⟩ := Option.map_eq_some_iff.mp h
        apply notClosing_resume
        intro g hg
        cases hg

end LuatAir200.Links
