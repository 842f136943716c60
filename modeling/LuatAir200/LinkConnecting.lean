import LuatAir200.LinkNotice

/-!
# Links that wait for their connection

A link leaves the state `CONNECTING` when its owner is told so, by `CONNECT` or by
`SHUTED`, or when its owner ends the attempt.
-/
namespace LuatAir200.Links
open Lua Machine

variable {ν : Type}

/-- The link is in the state `CONNECTING`. -/
def Waits (id : ℕ) (s : State ν) : Prop := ∃ l, s.linklist id = some l ∧ l.state = .connecting

theorem Waits.of_view {id : ℕ} {s t : State ν} (h : Waits id s) (hv : view id t = view id s) :
    Waits id t := by
  obtain ⟨l, hl, hs⟩ := h
  exact ⟨l, (congrArg View.link hv).trans hl, hs⟩

theorem waits_setLink {k : ℕ} {l : Link ν} (h : l.state = .connecting) (s : State ν) :
    Waits k (setLink k (some l) s) := ⟨l, by simp [setLink], h⟩

/-! ## Calls -/

theorem connect_waits {k : ℕ} {prot addr port : LuaString} {s : State ν}
    (h : (connect k prot addr port s).2 = true) : Waits k (connect k prot addr port s).1 := by
  obtain he | ⟨l, -, hl, -, ⟨-, he⟩ | ⟨-, he⟩ | ⟨-, he⟩⟩ := connect_cases k prot addr port s
  · rw [he] at h
    cases h
  · rw [he]
    exact waits_setLink rfl s
  · rw [he]
    exact waits_setLink rfl s
  · rw [he]
    refine Waits.of_view (s := req (.cipstart ⟨k, prot, addr, port⟩)
      (setLink k (some { l with state := .connecting }) s)) ?_ (view_startconnectingtimer k k _)
    exact waits_setLink rfl s

theorem Waits.connect {id : ℕ} {s : State ν} (h : Waits id s) (k : ℕ)
    (prot addr port : LuaString) : Waits id (connect k prot addr port s).1 := by
  cases hr : (Links.connect k prot addr port s).2 with
  | false =>
      obtain he | ⟨l, -, hl, -, ⟨-, he⟩ | ⟨-, he⟩ | ⟨-, he⟩⟩ := connect_cases k prot addr port s
      · rw [he]
        exact h
      all_goals
        rw [he] at hr
        cases hr
  | true =>
      by_cases hi : id = k
      · subst hi
        exact connect_waits hr
      · refine h.of_view ?_
        obtain he | ⟨l, -, hl, -, ⟨-, he⟩ | ⟨-, he⟩ | ⟨-, he⟩⟩ := connect_cases k prot addr port s
        · rw [he]
        · rw [he, view_dispatch_ne _ (by simpa using Ne.symm hi), view_setLink_ne hi]
        · rw [he, view_setLink_ne hi]
        · rw [he, view_startconnectingtimer, view_req_ne _ (by simpa using Ne.symm hi),
            view_setLink_ne hi]

theorem Waits.send {id : ℕ} {s : State ν} (h : Waits id s) (k : ℕ) (data : LuaString) :
    Waits id (send k data s).1 := by
  obtain he | ⟨l, -, -, -, he⟩ := send_cases k data s
  · rw [he]
    exact h
  · rw [he]
    exact h

theorem Waits.shut {id : ℕ} {s : State ν} (h : Waits id s) : Waits id (shut s) :=
  h.of_view (view_shut id s)

theorem Waits.openlink {id : ℕ} {s : State ν} (h : Waits id s) (n : ν) (tag : Bool) :
    Waits id (openlink n tag s).1 := by
  unfold Links.openlink
  split
  · exact h
  · rename_i k hk
    obtain ⟨hl, hmax⟩ := emptylink_free hk
    have hi : id ≠ k := by
      rintro rfl
      obtain ⟨l, hs, -⟩ := h
      rw [hl] at hs
      cases hs
    exact h.of_view ((openid_free hl hmax n tag).2.1 id hi)

/-- A link that has just been opened can be connected. -/
theorem openlink_connects {k : ℕ} {s : State ν} (hk : emptylink s = some k) (n : ν) (tag : Bool)
    (prot addr port : LuaString) :
    (connect k prot addr port (openlink n tag s).1).2 = true := by
  obtain ⟨hl, hmax⟩ := emptylink_free hk
  have hv := (openid_free hl hmax n tag).2.2
  have ho : (openlink n tag s).1.linklist k = some ⟨n, tag, .initial, none⟩ := by
    simp only [openlink, hk]
    exact congrArg View.link hv
  have hva : validaction (openlink n tag s).1 k .connect = true := by
    simp only [validaction, ho]
    decide
  simp only [connect, hva, ho]
  split
  · rename_i hc
    cases hc
  · split
    · rfl
    · split <;> rfl

theorem Waits.disconnect {id k : ℕ} {s : State ν} (h : Waits id s) (hi : id ≠ k) :
    Waits id (disconnect k s).1 := by
  refine h.of_view ?_
  have hk : ¬k = id := Ne.symm hi
  obtain he | ⟨l, -, -, ⟨-, -, he⟩ | he⟩ := disconnect_cases k s
  · rw [he]
  · rw [he, view_dispatch_ne _ (by simpa using hk), view_setLink_ne hi]
  · rw [he, view_req_ne _ (by simpa using hk), view_setLink_ne hi]

theorem Waits.close {id k : ℕ} {s : State ν} (h : Waits id s) (hi : id ≠ k) :
    Waits id (close k s).1 := by
  refine h.of_view ?_
  have hk : ¬k = id := Ne.symm hi
  obtain he | ⟨l, -, -, he⟩ := close_cases k s
  · rw [he]
  · rw [he, view_req_ne _ (by simpa using hk), view_setLink_ne hi]

theorem waits_of_close {id k : ℕ} {s : State ν} (h : Waits id (close k s).1) : Waits id s := by
  obtain he | ⟨l, -, hl, he⟩ := close_cases k s
  · rwa [he] at h
  · by_cases hi : id = k
    · subst hi
      obtain ⟨m, hm, hs⟩ := h
      rw [he] at hm
      have hm : some { l with state := .closing } = some m := by simpa [req, setLink] using hm
      cases hm
      cases hs
    · have hk : ¬k = id := Ne.symm hi
      rw [he] at h
      refine h.of_view ?_
      rw [view_req_ne _ (by simpa using hk), view_setLink_ne hi]

theorem connect_refused {id : ℕ} {prot addr port : LuaString} {s : State ν}
    (h : (connect id prot addr port s).2 = false) : (connect id prot addr port s).1 = s := by
  obtain he | ⟨l, -, -, -, ⟨-, he⟩ | ⟨-, he⟩ | ⟨-, he⟩⟩ := connect_cases id prot addr port s
  · rw [he]
  all_goals
    rw [he] at h
    cases h

/-! ## Events -/

theorem statusind_tells {id : ℕ} {st : LuaString} {s : State ν} (hf : st ≠ lua "SEND FAIL")
    (h : Waits id s) : ∃ l rest, s.linklist id = some l ∧
      (statusind id st s).frame = some (⟨l.notify, id, .connect, st⟩, rest) := by
  obtain ⟨l, hl, hs⟩ := h
  refine ⟨l, .stopconnectingtimer id, hl, ?_⟩
  simp [statusind, hl, hf, hs, notify]

/-! ## The loop of `shutcnf` -/

/-- The loop passes over links that have not been started. -/
def spared (s : State ν) (i : ℕ) : Bool :=
  match s.linklist i with
  | some l => l.state = .connecting ∧ l.pending ≠ none ∨ l.state = .initial
  | none => true

/-- The link whose owner is told `SHUTED` by the action. -/
def shutNext (s : State ν) (a : Act ν) : Option ℕ := (shutOf s a).find? fun i => !spared s i

theorem spared_congr {s t : State ν} (h : t.linklist = s.linklist) : spared t = spared s := by
  ext i
  simp only [spared, h]

/-- The loop leaves a waiting link alone, or tells its owner. -/
theorem shutLoop_waits {id : ℕ} (is : List ℕ) {s : State ν} (h : Waits id s) :
    Waits id (shutLoop is s) ∨
      is.find? (fun i => !spared s i) = some id ∧ ∃ l rest, s.linklist id = some l ∧
        (shutLoop is s).frame = some (⟨l.notify, id, .state, lua "SHUTED"⟩, rest) := by
  induction is generalizing s with
  | nil => exact .inl (h.of_view (view_stopcheckciicr id s))
  | cons i is ih =>
      cases hl : s.linklist i with
      | none =>
          have hi : spared s i = true := by simp [spared, hl]
          simp only [shutLoop, hl, List.find?_cons, hi]
          exact ih h
      | some l =>
          simp only [shutLoop, hl, List.find?_cons]
          split
          · rename_i hsp
            have hi : spared s i = true := by simp [spared, hl, hsp]
            simp only [hi]
            exact ih (s := stopconnectingtimer i s) h
          · rename_i hsp
            have hi : spared s i = false := by
              simp only [spared, hl]
              exact decide_eq_false hsp
            simp only [hi]
            by_cases hid : id = i
            · subst hid
              exact .inr ⟨rfl, l, .shut id is, hl, rfl⟩
            · refine .inl (h.of_view ?_)
              rw [view_notify _ _ _ _ _ _ _ (by simp), view_setLink_ne hid]

/-- A step that goes through the loop, or stops it since the link has gone. -/
theorem step_shutLoop {s t : State ν} {a : Act ν} {id : ℕ} (h : step s a = some t)
    (hm : id ∈ shutOf s a) :
    ∃ u : State ν, u.linklist = s.linklist ∧ (t = shutLoop (shutOf s a) u ∨ t = u) := by
  cases a with
  | respond success response intermediate =>
      simp only [step] at h
      split at h
      · rename_i c hf hcur
        obtain ⟨no, cmd⟩ := c
        cases cmd with
        | cipshut =>
            simp only [shutOf, hcur] at hm ⊢
            split at hm
            · rename_i hok
              obtain rfl := Option.some.inj h
              have hsh : shutcnf response { s with ril := s.ril.finish } =
                  shutLoop ids (setIPStatus (lua "IP INITIAL")
                    (shutEnded { s with ril := s.ril.finish })) := by
                rw [shutcnf_eq, if_pos hok]
              rw [if_pos hok]
              refine ⟨_, ?_, .inl hsh⟩
              funext i
              have hv := view_setIPStatus (lua "IP INITIAL") (by decide)
                (shutEnded { s with ril := s.ril.finish }) i
              exact congrArg View.link (hv.trans ((shutEnded_frame _).2.2.2 i))
            · cases hm
        | _ => simp [shutOf, hcur] at hm
      · cases h
  | ret =>
      obtain ⟨f, hf, rfl⟩ := Option.map_eq_some_iff.mp h
      obtain ⟨n, rest⟩ := f
      cases rest with
      | shut i is =>
          have hsh : shutOf s .ret = is := by simp only [shutOf, hf]
          rw [hsh]
          simp only [resume]
          split
          · rename_i l hl
            refine ⟨_, ?_, .inl rfl⟩
            funext j
            exact congrArg View.link (view_usersckntfy j l { s with frame := none })
          · exact ⟨{ s with frame := none }, rfl, .inr rfl⟩
      | _ => simp [shutOf, hf] at hm
  | _ => cases hm

theorem step_shutOf {s t : State ν} {a : Act ν} {id : ℕ} (hw : Waits id s)
    (h : step s a = some t) (hm : id ∈ shutOf s a) :
    Waits id t ∨ shutNext s a = some id ∧ ∃ l rest, s.linklist id = some l ∧
      t.frame = some (⟨l.notify, id, .state, lua "SHUTED"⟩, rest) := by
  obtain ⟨u, hu, ht⟩ := step_shutLoop h hm
  have hwu : Waits id u := by rwa [Waits, hu]
  obtain rfl | rfl := ht
  · rw [shutNext, ← spared_congr hu, ← hu]
    exact shutLoop_waits _ hwu
  · exact .inl hwu

theorem statusOf_frame {s t : State ν} {a : Act ν} {p : ℕ × LuaString} (h : step s a = some t)
    (hst : statusOf s a = some p) : s.frame = none := by
  cases hf : s.frame with
  | none => rfl
  | some f =>
      cases a with
      | urc | respond | msg => simp [step, hf] at h
      | _ => cases hst

theorem shutOf_frame {s t : State ν} {a : Act ν} {id : ℕ} (h : step s a = some t)
    (hm : id ∈ shutOf s a) : a = .ret ∨ s.frame = none := by
  cases hf : s.frame with
  | none => exact .inr rfl
  | some f =>
      cases a with
      | ret => exact .inl rfl
      | respond => simp [step, hf] at h
      | _ => cases hm

/-- A waiting link waits on after a step, unless its owner is told that the attempt is over
or ends it. -/
theorem step_waits {s t : State ν} {a : Act ν} {id : ℕ} (hs : Shape s) (hw : Waits id s)
    (h : step s a = some t) :
    Waits id t ∨ a = .close id ∨ a = .disconnect id ∨
      (a = .ret ∨ s.frame = none) ∧ ∃ l evt val rest, s.linklist id = some l ∧
        t.frame = some (⟨l.notify, id, evt, val⟩, rest) ∧
        (evt = .connect ∨ (evt = .state ∧ val = lua "SHUTED") ∧ shutNext s a = some id) := by
  have he := step_effect hs h id
  generalize hv : view id t = v at he
  have hlink : t.linklist id = v.link := congrArg View.link hv
  obtain ⟨l, hl, hst⟩ := hw
  have stays {k : Link ν} (hk : v.link = some k) (hks : k.state = .connecting) : Waits id t :=
    ⟨k, hlink.trans hk, hks⟩
  cases he with
  | quiet => exact .inl (stays ((congrFun (taken_linklist s a) id).trans hl) hst)
  | opened n tag ho hn => simp [hl] at hn
  | closing k ha => exact .inr (.inl ha)
  | called k => exact .inl (stays rfl rfl)
  | parked k => exact .inl (stays rfl rfl)
  | started k => exact .inl (stays rfl rfl)
  | withdrawn k ha => exact .inr (.inr (.inl ha))
  | disconnecting k ha => exact .inr (.inr (.inl ha))
  | sent => exact .inl (stays hl hst)
  | dropped => exact .inl (stays hl hst)
  | released k c n hr hi hk =>
      rw [hl] at hk
      cases hk
      exact .inl (stays rfl hst)
  | status k st hso hf hk =>
      have hwt : Waits id (taken s a) := ⟨l, (congrFun (taken_linklist s a) id).trans hl, hst⟩
      obtain ⟨m, rest, hm, hfr⟩ := statusind_tells hf hwt
      rw [taken_linklist s a] at hm
      rw [step_statusOf h hso]
      exact .inr (.inr (.inr ⟨.inr (statusOf_frame h hso), m, .connect, st, rest, hm, hfr, .inl rfl⟩))
  | shuted k hm' hk =>
      obtain hw | ⟨hn, m, rest, hm, hfr⟩ := step_shutOf ⟨l, hl, hst⟩ h hm'
      · exact .inl hw
      · exact .inr (.inr (.inr ⟨shutOf_frame h hm', m, .state, _, rest, hm, hfr,
          .inr ⟨⟨rfl, rfl⟩, hn⟩⟩))
  | disconnected k hc hk hks =>
      rw [hl] at hk
      cases hk
      simp [hst] at hks
  | closed k hc hk hks =>
      rw [hl] at hk
      cases hk
      simp [hst] at hks

end LuatAir200.Links
