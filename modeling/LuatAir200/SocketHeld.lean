import LuatAir200.SocketConnecting

/-!
# How many items a socket holds

Items of one kind are counted: those that a socket holds, and the one that the call of
`rsp` in a step reports. What is reported was held before.
-/
namespace LuatAir200.Sockets
open Lua Machine

/-- The step makes the entry of socket `idx` anew, or forgets what it holds. -/
def Resets (s : State) (idx : ℕ) (a : Act) : Prop :=
  Reconnects s idx a ∨ a = .ret ∧
    ((∃ id, s.frame = some (.connected id idx false)) ∨ s.frame = some (.closed idx))

theorem mild_countP {o q : Outbox Item} {ms : List (Outbox.Move Item)} (hm : ∀ m ∈ ms, Mild m)
    (h : run Outbox.move o ms = some q) (p : Item → Bool) :
    q.held.countP p + q.reported.countP p = o.held.countP p + o.reported.countP p := by
  refine guarded_run
    (P := fun v => v.held.countP p + v.reported.countP p = o.held.countP p + o.reported.countP p)
    (G := fun _ m => Mild m) (fun u m v hu hm hv => ?_) rfl
    (meets_of_forall (fun m hmem _ => hm m hmem) o) h
  have hb := Outbox.move_countP hv p
  rw [hm.forgotten u, hm.gains] at hb
  simp only [List.countP_nil, Nat.add_zero] at hb
  exact hb.trans hu

/-- What is held and reported only becomes less when a step forgets what is held. -/
theorem step_held {s t : State} {a : Act} (h : step s a = some t) {idx : ℕ}
    (ha : ∀ data para pos ins, a ≠ .send idx data para pos ins) (p : Item → Bool) :
    (held idx t).countP p + (outbox idx t).reported.countP p ≤
        (held idx s).countP p + (outbox idx s).reported.countP p ∧
      ((Resets s idx a → (held idx s).countP p = 0) →
        (held idx t).countP p + (outbox idx t).reported.countP p =
          (held idx s).countP p + (outbox idx s).reported.countP p) := by
  obtain ⟨m, ms, hall, hm, hr⟩ := step_evolves h idx
  obtain ⟨o, ho, hr⟩ := run_cons_eq_some.mp hr
  have hb := Outbox.move_countP ho p
  have hq := mild_countP hm hr p
  have hg : m.gains = [] := by
    cases hall with
    | queue data para pos ins i hs => exact absurd hs (ha data para pos ins)
    | direct data para pos ins k hs => exact absurd hs (ha data para pos ins)
    | lose data para pos ins k hs => exact absurd hs (ha data para pos ins)
    | _ => rfl
  rw [hg, List.countP_nil, Nat.add_zero] at hb
  unfold held
  refine ⟨by omega, fun hn => ?_⟩
  have hf : ((outbox idx s).forgotten m).countP p = 0 := by
    cases hall with
    | reset hres => exact hn hres
    | lose data para pos ins k hs => exact absurd hs (ha data para pos ins)
    | _ => rfl
  omega

/-! ## Calls of `rsp` -/

/-- The step calls `rsp` once at most. -/
def Once (s t : State) : Prop := t.calls = s.calls ∨ ∃ c, Calls s t c

theorem call_once {s u : State} (h : u.calls = s.calls) (c : Call) (f : Frame) :
    Once s (call c f u) := .inr ⟨c, by simp [Calls, call, h]⟩

theorem failFirst_once {s u : State} (h : u.calls = s.calls) (idx : ℕ) (f : Frame)
    {r : State → State} (hr : Once s (r u)) : Once s (failFirst idx f r u) := by
  unfold failFirst
  split
  · exact call_once h _ f
  · exact hr

theorem conack_once {s u : State} (h : u.calls = s.calls) (id idx : ℕ) (cause : Option ℕ)
    (suc : Bool) : Once s (conack id idx cause suc u) := by
  unfold conack
  split
  · exact call_once h _ _
  · exact failFirst_once h idx _ (call_once h _ _)

theorem lostLoop_once {s u : State} (h : u.calls = s.calls) (idx : ℕ) (val : LuaString) :
    Once s (lostLoop idx val u) := failFirst_once h idx _ (call_once h _ _)

theorem sckrsp_once {s u : State} (h : u.calls = s.calls) (id : ℕ) (evt : Links.Evt)
    (val : LuaString) : Once s (sckrsp id evt val u) := by
  unfold sckrsp
  split
  · exact .inl h
  split
  · exact .inl h
  cases evt with
  | connect =>
      dsimp only
      split
      · rw [if_pos (Nat.le_add_left 1 _)]
        exact conack_once (by exact h) id _ _ false
      · exact conack_once h id _ _ true
  | send =>
      dsimp only
      split
      · rw [if_pos (Nat.le_add_left 1 _)]
        exact call_once (by exact h) _ _
      · exact call_once (by exact h) _ _
  | disconnect =>
      dsimp only
      refine call_once ?_ _ _
      split <;> exact h
  | close => exact call_once h _ _
  | state =>
      dsimp only
      split
      · exact lostLoop_once h _ val
      · exact call_once h _ _

theorem deliver_once {s u : State} (h : u.calls = s.calls) : Once s (deliver u) := by
  unfold deliver
  split
  · split
    · exact sckrsp_once h _ _ _
    · exact .inl h
  · exact .inl h

theorem resume_once (f : Frame) {s u : State} (h : u.calls = s.calls) : Once s (resume f u) := by
  cases f with
  | conack id idx cause => exact failFirst_once h idx _ (call_once h _ _)
  | connected id idx suc =>
      refine .inl (Eq.trans ?_ h)
      simp only [resume]
      split
      · split
        · exact sndnxt_calls _ idx _
        · rfl
      · rfl
  | sndack id idx suc =>
      simp only [resume]
      split
      · refine .inl (Eq.trans ?_ h)
        split
        · split
          · exact sndnxt_calls _ idx u
          · rfl
        · rfl
      · exact failFirst_once h idx _ (.inl h)
  | flush idx => exact failFirst_once h idx _ (.inl h)
  | closed idx => exact .inl h
  | lost idx val => exact lostLoop_once h idx val
  | done => exact .inl h

theorem resumed_once (s : State) : Once s (resumed s) := by
  unfold resumed
  split
  · exact resume_once _ rfl
  · exact .inl rfl

theorem frame_none_calls {s : State} (h : (resumed s).frame = none) :
    (resumed s).calls = s.calls := by
  unfold resumed at h ⊢
  split
  · rename_i f hf
    simp only [hf] at h
    exact resume_calls h
  · rfl

theorem calls_linkConnect (id : Option ℕ) (prot addr port : LuaString) (s : State) :
    (linkConnect id prot addr port s).1.calls = s.calls := by
  cases id <;> rfl

theorem calls_linkDisconnect (id : Option ℕ) (s : State) :
    (linkDisconnect id s).1.calls = s.calls := by
  cases id <;> rfl

/-- Only events lead to calls. -/
def eventful : Act → Prop
  | .link _ | .ret => True
  | _ => False

theorem step_calls {s t : State} {a : Act} (ha : ¬eventful a) (h : step s a = some t) :
    t.calls = s.calls := by
  cases a with
  | create idx prot addr port cause =>
      cases h
      unfold create
      split <;> rfl
  | connect idx prot addr port cause =>
      cases h
      unfold connect
      split
      · rfl
      split
      · rename_i k _
        split
        · split
          · rfl
          · exact calls_linkDisconnect k.id s
        · have hl := calls_linkConnect k.id prot addr port s
          split <;> (rename_i he; rw [he] at hl; exact hl)
      · have hl := calls_linkConnect (linkOpen s).2 prot addr port (linkOpen s).1
        dsimp only
        split <;> (rename_i he; rw [he] at hl; exact hl)
  | send idx data para pos ins =>
      obtain ⟨-, ⟨⟩⟩ := Option.ite_none_right_eq_some.mp h
      unfold send
      split
      swap
      · rfl
      rename_i k _ _
      split
      · rfl
      dsimp only
      split
      · split <;> exact calls_linkConnect k.id _ _ _ s
      split
      · rfl
      · exact calls_hand k.id idx _ s
  | disconnect idx cause =>
      cases h
      unfold disconnect
      split
      · exact calls_linkDisconnect _ _
      · rfl
  | close idx =>
      cases h
      unfold close
      split
      · rename_i k _ _
        cases k.id <;> rfl
      · rfl
  | setwaitingrspitem idx item =>
      cases h
      unfold setwaitingrspitem
      split
      · rfl
      dsimp only
      split
      · unfold rsumscksnd
        split
        · rfl
        split
        · exact calls_linkConnect _ _ _ _ _
        split
        · exact sndnxt_calls _ idx _
        · rfl
      · rfl
  | link b => exact absurd trivial ha
  | ret => exact absurd trivial ha

theorem step_once {s t : State} {a : Act} (h : step s a = some t) : Once s t := by
  by_cases ha : eventful a
  swap
  · exact .inl (step_calls ha h)
  cases a with
  | link b =>
      obtain ⟨-, h⟩ := Option.ite_none_right_eq_some.mp h
      obtain ⟨l, -, rfl⟩ := Option.map_eq_some_iff.mp h
      split
      · exact deliver_once rfl
      · exact .inl rfl
  | ret =>
      obtain ⟨-, rfl⟩ | ⟨hf, l, -, rfl⟩ := step_ret.mp h
      · exact resumed_once s
      · exact deliver_once (frame_none_calls hf)
  | _ => exact ha.elim

/-- What a step reports to socket `idx`. -/
def report (s t : State) (idx : ℕ) : Option Item :=
  (t.calls[s.calls.length]?).bind (Call.reported idx)

theorem step_report {s t : State} {a : Act} (h : step s a = some t) (idx : ℕ)
    (p : Item → Bool) : (outbox idx t).reported.countP p =
      (outbox idx s).reported.countP p + (report s t idx).toList.countP p := by
  obtain hc | ⟨c, hc⟩ := step_once h
  · simp [outbox, report, hc]
  · have hc : t.calls = s.calls ++ [c] := hc
    have hr : report s t idx = c.reported idx := by simp [report, hc]
    rw [hr]
    cases hi : c.reported idx <;> simp [outbox, hc, hi, List.filterMap_append]

/-- What a socket holds after a step, and what the step reports, it held before. -/
theorem step_held_report {s t : State} {a : Act} (h : step s a = some t) {idx : ℕ}
    (ha : ∀ data para pos ins, a ≠ .send idx data para pos ins) (p : Item → Bool) :
    (held idx t).countP p + (report s t idx).toList.countP p ≤ (held idx s).countP p ∧
      ((Resets s idx a → (held idx s).countP p = 0) →
        (held idx t).countP p + (report s t idx).toList.countP p = (held idx s).countP p) := by
  have hs := step_held h ha p
  have hr := step_report h idx p
  rw [hr] at hs
  exact ⟨by omega, fun hn => by have := hs.2 hn; omega⟩

/-! ## `send` -/

theorem send_held_ne {i idx : ℕ} (hi : i ≠ idx) (data : LuaString) (para : ℕ) (s : State) :
    held i (send idx data para none false s).1 = held i s := by
  unfold send held
  split
  swap
  · rfl
  rename_i k _ _
  split
  · rfl
  dsimp only
  split
  · split
    · rw [outbox_enqueue_ne hi, outbox_linkConnect]
    · rw [outbox_linkConnect]
  split
  · rw [outbox_enqueue_ne hi]
  · rw [outbox_accept_ne hi, outbox_hand_ne hi]

theorem enqueue_held {idx : ℕ} {s : State} {k : Sock} (hk : s.scks idx = some k) (item : Item) :
    (held idx (enqueue idx item none s)).Perm (item :: held idx s) := by
  rw [held, outbox_enqueue hk, held]
  exact (List.perm_insertIdx item _ (Nat.le_refl _)).append_right _

/-- An item that is accepted is held, unless the link refuses it. -/
theorem send_held {idx : ℕ} {data : LuaString} {para : ℕ} {s : State}
    (h : (send idx data para none false s).2 = true) :
    Drops s idx (.send idx data para none false) ∧
        held idx (send idx data para none false s).1 = held idx s ∨
      ¬Drops s idx (.send idx data para none false) ∧ ∃ x : Item, x.para = para ∧
        (held idx (send idx data para none false s).1).Perm (x :: held idx s) := by
  cases hk : s.scks idx with
  | none =>
      have hx : checkidx1 idx s = false := by simp [checkidx1, hk]
      simp [send, hx] at h
  | some k =>
  by_cases hidx : idx ≤ SCK_MAX_CNT
  swap
  · have hx : checkidx1 idx s = false := by simp [checkidx1, hidx]
    simp [send, hx] at h
  have hx : checkidx1 idx s = true := by simp [checkidx1, hidx, hk]
  by_cases hd : data = []
  · simp [send, hx, hk, hd] at h
  have drops : Drops s idx (.send idx data para none false) ↔ lstate k.id s = lua "CONNECTED" ∧
      k.sndingitem = none ∧ k.waitingrspitem = none ∧ ¬Sendable k.id s := by
    simp [Drops, hidx, hd, hk]
  by_cases hc : lstate k.id s = lua "CONNECTED"
  swap
  · have hr : (linkConnect k.id k.prot k.addr k.port s).2 = true := by
      simpa [send, hx, hk, hd, hc, apply_ite Prod.snd] using h
    refine .inr ⟨fun hn => hc (drops.mp hn).1, ⟨(s.accepted idx).length, data, para, hd⟩, rfl, ?_⟩
    have he : (send idx data para none false s).1 = enqueue idx ⟨(s.accepted idx).length, data, para,
        hd⟩ none (linkConnect k.id k.prot k.addr k.port s).1 := by
      simp [send, hx, hk, hd, hc, hr]
    have hku : (linkConnect k.id k.prot k.addr k.port s).1.scks idx = some k := by
      cases k.id <;> exact hk
    rw [he]
    refine (enqueue_held hku _).trans ?_
    rw [held, outbox_linkConnect, held]
  by_cases hf : k.sndingitem = none ∧ k.waitingrspitem = none
  swap
  · have hb : ¬(k.sndingitem = none) ∨ ¬(k.waitingrspitem = none) := not_and_or.mp hf
    refine .inr ⟨fun hn => hf ⟨(drops.mp hn).2.1, (drops.mp hn).2.2.1⟩,
      ⟨(s.accepted idx).length, data, para, hd⟩, rfl, ?_⟩
    have he : (send idx data para none false s).1 =
        enqueue idx ⟨(s.accepted idx).length, data, para, hd⟩ none s := by
      simp [send, hx, hk, hd, hc, hb]
    rw [he]
    exact enqueue_held hk _
  cases hs : (linkSend k.id data s).2 with
  | true =>
      have hm := send_direct hidx hk hd hc hf.1 hf.2 hs para none false
      refine .inr ⟨fun hn => (drops.mp hn).2.2.2 (linkSend_taken.mp hs),
        ⟨(s.accepted idx).length, data, para, hd⟩, rfl, ?_⟩
      simp only [Outbox.move] at hm
      split at hm
      · rename_i hfly
        rw [held, ← Option.some.inj hm, held, Outbox.held, Outbox.held, hfly]
        exact (List.perm_append_singleton _ _).trans (by simp)
      · cases hm
  | false =>
      have hm := send_lose hidx hk hd hc hf.1 hf.2 hs para none false
      refine .inl ⟨drops.mpr ⟨hc, hf.1, hf.2, fun hn => ?_⟩, ?_⟩
      · rw [linkSend_taken.mpr hn] at hs
        cases hs
      · rw [held, ← Option.some.inj hm]
        rfl

end LuatAir200.Sockets
