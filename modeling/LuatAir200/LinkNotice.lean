import LuatAir200.LinkLife

/-!
# What the owner of a link can rely on

A link keeps its notify function until the `CLOSE` notice, an `AT+CIPSEND` stays
in the queue until it is answered, and the answer is told to the notify function of
its link. While a notify function is being run, only its return ends the event.
-/
namespace LuatAir200.Links
open Lua Machine

variable {ν : Type}

/-! ## The event that is being handled -/

@[simp] theorem frame_setupIP (s : State ν) : (setupIP s).frame = s.frame := by
  unfold setupIP
  split
  · rfl
  split <;> rfl

@[simp] theorem frame_startconnectingtimer (id : ℕ) (s : State ν) :
    (startconnectingtimer id s).frame = s.frame := by
  unfold startconnectingtimer
  split <;> rfl

@[simp] theorem frame_shut (s : State ν) : (shut s).frame = s.frame := by
  unfold shut
  split
  · rfl
  · dsimp only
    split <;> rfl

@[simp] theorem frame_querycgatt (s : State ν) : (querycgatt s).frame = s.frame := by
  unfold querycgatt
  split <;> rfl

@[simp] theorem frame_openid (id : ℕ) (n : ν) (tag : Bool) (s : State ν) :
    (openid id n tag s).1.frame = s.frame := by
  unfold openid
  split
  · rfl
  · dsimp only
    split
    · rfl
    · rw [frame_setupIP]
      rfl

@[simp] theorem frame_openlink (n : ν) (tag : Bool) (s : State ν) :
    (openlink n tag s).1.frame = s.frame := by
  unfold openlink
  split
  · rfl
  · exact frame_openid _ n tag s

@[simp] theorem frame_close (id : ℕ) (s : State ν) : (close id s).1.frame = s.frame := by
  obtain he | ⟨l, -, -, he⟩ := close_cases id s <;> rw [he]
  rfl

@[simp] theorem frame_connect (id : ℕ) (prot addr port : LuaString) (s : State ν) :
    (connect id prot addr port s).1.frame = s.frame := by
  obtain he | ⟨l, -, -, -, ⟨-, he⟩ | ⟨-, he⟩ | ⟨-, he⟩⟩ := connect_cases id prot addr port s <;>
    rw [he]
  · rfl
  · rfl
  · rw [frame_startconnectingtimer]
    rfl

@[simp] theorem frame_disconnect (id : ℕ) (s : State ν) : (disconnect id s).1.frame = s.frame := by
  obtain he | ⟨l, -, -, ⟨-, -, he⟩ | he⟩ := disconnect_cases id s <;> rw [he] <;> rfl

@[simp] theorem frame_send (id : ℕ) (data : LuaString) (s : State ν) :
    (send id data s).1.frame = s.frame := by
  obtain he | ⟨l, -, -, -, he⟩ := send_cases id data s <;> rw [he]
  rfl

/-- Until the callback returns, the event that it is run for stays. -/
theorem step_frame {s t : State ν} {a : Act ν} {f : Notice ν × Rest} (hf : s.frame = some f)
    (ha : a ≠ .ret) (h : step s a = some t) : t.frame = some f := by
  cases a with
  | sendat =>
      obtain ⟨q, -, rfl⟩ := Option.map_eq_some_iff.mp h
      exact hf
  | respond success response intermediate => simp [step, hf] at h
  | urc data => simp [step, hf] at h
  | msg => simp [step, hf] at h
  | proc p => simp [step, hf] at h
  | expire k => simp [step, hf] at h
  | ret => exact absurd rfl ha
  | _ =>
      cases h
      simp [req, setapn, hf]

/-! ## The two notices that matter to a sender -/

/-- The response to the `AT+CIPSEND` of link `id`. -/
def Answers (s : State ν) (a : Act ν) (id : ℕ) : Prop :=
  ∃ success response intermediate no data, a = .respond success response intermediate ∧
    s.ril.current = some ⟨no, .cipsend id data⟩

theorem sendcnf_frame {id : ℕ} {r : LuaString} {s t : State ν} (h : sendcnf id r s = some t) :
    ∃ l val, s.linklist id = some l ∧ t.frame = some (⟨l.notify, id, .send, val⟩, .done) := by
  rw [sendcnf_eq] at h
  obtain ⟨l, hl, rfl⟩ := Option.map_eq_some_iff.mp h
  exact ⟨l, r, hl, rfl⟩

theorem step_answers {s t : State ν} {a : Act ν} {id : ℕ} (ha : Answers s a id)
    (h : step s a = some t) :
    ∃ l val, s.linklist id = some l ∧ t.frame = some (⟨l.notify, id, .send, val⟩, .done) := by
  obtain ⟨success, response, intermediate, no, data, rfl, hcur⟩ := ha
  simp only [step] at h
  split at h
  · rename_i c hf hc
    rw [hcur] at hc
    cases hc
    have told {u : State ν} {r : LuaString} (h : sendcnf id r u = some t)
        (hu : u.linklist = s.linklist) : ∃ l val, s.linklist id = some l ∧
          t.frame = some (⟨l.notify, id, .send, val⟩, .done) := hu ▸ sendcnf_frame h
    simp only [rsp] at h
    split at h
    · split at h
      · exact told h rfl
      · obtain ⟨r, -, h⟩ := Option.bind_eq_some_iff.mp h
        exact told h rfl
    · split at h
      · exact told h rfl
      · obtain ⟨r, -, h⟩ := Option.bind_eq_some_iff.mp h
        exact told h rfl
  · cases h

/-- The event that leads to a call of `closecnf` does nothing else. -/
theorem step_closeOf {s t : State ν} {a : Act ν} {id : ℕ} (h : step s a = some t)
    (hc : closeOf s a = some id) : t = closecnf id (taken s a) := by
  cases a with
  | respond success response intermediate =>
      simp only [step] at h
      split at h
      · rename_i c hf hcur
        simp only [closeOf, hcur] at hc
        obtain ⟨no, cmd⟩ := c
        cases cmd with
        | cipclose k =>
            cases hc
            cases h
            rfl
        | _ => cases hc
      · cases h
  | msg =>
      simp only [step] at h
      split at h
      · rename_i m ms hf hm
        simp only [closeOf, hm] at hc
        cases m with
        | closecnf k =>
            cases hc
            cases h
            simp [msg, taken, hm]
        | _ => cases hc
      · cases h
  | _ => cases hc

theorem step_freed {s t : State ν} {a : Act ν} {id : ℕ} {l : Link ν}
    (hc : closeOf s a = some id) (hl : s.linklist id = some l) (hs : l.state = .closing)
    (h : step s a = some t) :
    t.frame = some (⟨l.notify, id, .close, lua "OK"⟩, .stopconnectingtimer id) := by
  have hlt : (taken s a).linklist id = some l := (congrFun (taken_linklist s a) id).trans hl
  rw [step_closeOf h hc, closecnf_eq hlt, if_neg (by simp [hs]), if_pos hs]
  rfl

/-! ## Links and their commands last -/

/-- An `AT+CIPSEND` for `id` with this data is queued or outstanding. -/
def Sends (id : ℕ) (data : LuaString) (s : State ν) : Prop :=
  ∃ c ∈ s.ril.items, c.cmd = .cipsend id data

theorem sends_iff {id : ℕ} {data : LuaString} {s : State ν} :
    Sends id data s ↔ ∃ c ∈ (view id s).cmds, c.cmd = .cipsend id data := by
  constructor
  · rintro ⟨c, hc, he⟩
    exact ⟨c, List.mem_filter.mpr ⟨hc, by simp [he]⟩, he⟩
  · rintro ⟨c, hc, he⟩
    exact ⟨c, (List.mem_filter.mp hc).1, he⟩

/-- A link stays in the table with its notify function, unless the event frees it. -/
theorem step_link {s t : State ν} {a : Act ν} {id : ℕ} {l : Link ν} (hs : Shape s)
    (hl : s.linklist id = some l) (h : step s a = some t) :
    (∃ k, t.linklist id = some k ∧ k.notify = l.notify) ∨
      closeOf s a = some id ∧ l.state = .closing ∧ t.linklist id = none := by
  have he := step_effect hs h id
  generalize hw : view id t = v at he
  have hv : t.linklist id = v.link := congrArg View.link hw
  rw [hv]
  have same (k : Link ν) (hk : s.linklist id = some k) : k.notify = l.notify := by
    rw [hl] at hk
    cases hk
    rfl
  cases he with
  | quiet => exact .inl ⟨l, (congrFun (taken_linklist s a) id).trans hl, rfl⟩
  | opened n tag ho hn => simp [hl] at hn
  | closing k ha hk => exact .inl ⟨_, rfl, same k hk⟩
  | called k prot addr port ha hv hk => exact .inl ⟨_, rfl, same k hk⟩
  | parked k prot addr port ha hv hk => exact .inl ⟨_, rfl, same k hk⟩
  | started k prot addr port ha hv hk => exact .inl ⟨_, rfl, same k hk⟩
  | withdrawn k ha hk => exact .inl ⟨_, rfl, same k hk⟩
  | disconnecting k ha hk => exact .inl ⟨_, rfl, same k hk⟩
  | sent k data ha hk => exact .inl ⟨l, hl, rfl⟩
  | dropped => exact .inl ⟨l, hl, rfl⟩
  | released k c n hr hi hk => exact .inl ⟨_, rfl, same k hk⟩
  | status k st hst hf hk => exact .inl ⟨_, rfl, same k hk⟩
  | shuted k hm hk => exact .inl ⟨_, rfl, same k hk⟩
  | disconnected k hc hk => exact .inl ⟨_, rfl, same k hk⟩
  | closed k hc hk hst =>
      rw [hl] at hk
      cases hk
      exact .inr ⟨hc, hst, rfl⟩

/-- Taking an event leaves the `AT+CIPSEND` commands of a link alone, unless it is the
response to one of them. -/
theorem sends_taken {s : State ν} {a : Act ν} {id : ℕ} {data : LuaString} (hn : ¬Answers s a id)
    (h : Sends id data s) : Sends id data (taken s a) := by
  cases a with
  | respond success response intermediate =>
      obtain ⟨c, hc, he⟩ := h
      cases hcur : s.ril.current with
      | none =>
          refine ⟨c, ?_, he⟩
          simpa [taken, Fifo.items, Fifo.finish, hcur] using hc
      | some d =>
          rw [Fifo.items_eq_cons hcur] at hc
          obtain rfl | hc := List.mem_cons.mp hc
          · refine absurd ⟨success, response, intermediate, c.no, data, rfl, ?_⟩ hn
            rw [hcur, ← he]
          · exact ⟨c, hc, he⟩
  | _ => exact h

/-- An `AT+CIPSEND` stays queued or outstanding until it is answered. -/
theorem step_sends {s t : State ν} {a : Act ν} {id : ℕ} {data : LuaString} (hs : Shape s)
    (hd : data ≠ []) (hn : ¬Answers s a id) (h : step s a = some t) (hq : Sends id data s) :
    Sends id data t := by
  have ht : ∃ c ∈ (view id (taken s a)).cmds, c.cmd = .cipsend id data :=
    sends_iff.mp (sends_taken hn hq)
  rw [sends_iff] at hq ⊢
  have he := step_effect hs h id
  generalize view id t = v at he
  have more {cs : List Cmd} : ∃ c ∈ (view id s).cmds ++ cs, c.cmd = .cipsend id data := by
    obtain ⟨c, hc, he⟩ := hq
    exact ⟨c, List.mem_append_left cs hc, he⟩
  cases he with
  | quiet => exact ht
  | status => exact ht
  | disconnected => exact ht
  | closed => exact ht
  | closing => exact more
  | started => exact more
  | disconnecting => exact more
  | sent => exact more
  | released => exact more
  | dropped no data' cs ha hc hnil =>
      obtain ⟨c, hmem, he⟩ := hq
      rw [hc] at hmem
      obtain rfl | hmem := List.mem_cons.mp hmem
      · cases he
        exact absurd hnil hd
      · exact ⟨c, hmem, he⟩
  | _ => exact hq

end LuatAir200.Links
