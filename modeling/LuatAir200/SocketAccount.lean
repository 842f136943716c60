import LuatAir200.SocketWiring

/-!
# Accountability for sent items

Every item for which `send` returns true waits, is being sent, or is reported
exactly once, as long as no step drops items: a `send` that the link refuses, a
`connect` that makes an entry anew, and the end of a failed connection or of a
socket, while the socket holds items.
-/
namespace LuatAir200.Sockets
open Lua Machine

/-- `link.connect` accepts a connection of this link. -/
def Connectable (id : Option ℕ) (s : State) : Prop :=
  ∃ i l, id = some i ∧ s.link.linklist i = some l ∧ Links.validaction s.link i .connect ∧
    l.state ≠ .connected

theorem linkConnect_taken {id : Option ℕ} {prot addr port : LuaString} {s : State} :
    (linkConnect id prot addr port s).2 = true ↔ Connectable id s := by
  cases id with
  | none => simp [linkConnect, Connectable]
  | some i =>
      obtain he | ⟨l, hv, hl, hn, ⟨-, he⟩ | ⟨-, he⟩ | ⟨-, he⟩⟩ :=
        Links.connect_cases i prot addr port s.link
      · simp only [linkConnect, he, Connectable, Option.some.injEq, Bool.false_eq_true, false_iff]
        rintro ⟨j, l, rfl, hl, hv, hn⟩
        have hc := congrArg Prod.snd he
        simp only [Links.connect, hv, hl, hn, if_false] at hc
        split at hc
        · cases hc
        · split at hc <;> cases hc
      all_goals
        simp only [linkConnect, he, true_iff]
        exact ⟨i, l, rfl, hl, hv, hn⟩

/-- The items of a socket that are not reported yet. -/
def held (idx : ℕ) (s : State) : List Item := (outbox idx s).held

/-- The step gives up items of socket `idx` without reporting them. -/
def Drops (s : State) (idx : ℕ) : Act → Prop
  | .send i data _ _ _ => i = idx ∧ idx ≤ SCK_MAX_CNT ∧ data ≠ [] ∧ ∃ k, s.scks idx = some k ∧
      lstate k.id s = lua "CONNECTED" ∧ k.sndingitem = none ∧ k.waitingrspitem = none ∧
      ¬Sendable k.id s
  | .connect i prot addr port _ => i = idx ∧ idx ≤ SCK_MAX_CNT ∧ held idx s ≠ [] ∧
      ∃ k, s.scks idx = some k ∧
        (lstate k.id s = lua "CONNECTED" ∧ ¬(k.addr = addr ∧ k.port = port ∧ k.prot = prot) ∨
          lstate k.id s ≠ lua "CONNECTED" ∧ Connectable k.id s)
  | .ret => held idx s ≠ [] ∧
      ((∃ id, s.frame = some (.connected id idx false)) ∨ s.frame = some (.closed idx))
  | _ => False

/-- Each accepted item waits, or is being sent with its `AT+CIPSEND` queued or
outstanding, or has been reported, and only one of these and once. -/
def Accounted (s : State) : Prop :=
  ∀ idx, ∀ x ∈ s.accepted idx,
    let o := outbox idx s
    (o.waiting.count x = 1 ∧ o.flying ≠ some x ∧ o.reported.count x = 0) ∨
    (x ∉ o.waiting ∧ o.flying = some x ∧ o.reported.count x = 0 ∧
      ∃ id, sckid idx s = some id ∧ Links.Sends id x.data s.link) ∨
    (x ∉ o.waiting ∧ o.flying ≠ some x ∧ o.reported.count x = 1)

/-- What holds along every run, dropped items or not. -/
structure Sound (s : State) : Prop where
  numbered : Numbered s
  wired : Wired s
  bounded : ∀ idx, (outbox idx s).Bounded

theorem boot_sound : Sound boot := ⟨boot_numbered, boot_wired, fun _ _ => Nat.le_refl 0⟩

theorem step_sound (s : State) (a : Act) (t : State) (ha : a.numbered) (hs : Sound s)
    (h : step s a = some t) : Sound t where
  numbered := step_numbered s a t hs.numbered h
  wired := step_wired s a t ha hs.wired h
  bounded idx := by
    obtain ⟨m, ms, -, -, hr⟩ := step_evolves h idx
    exact invariant_run (fun _ _ _ ho hp => Outbox.move_bounded ho hp) (hs.bounded idx) hr

/-- In a sound state the items are accounted for exactly if the outboxes are. -/
theorem accounted_iff {s : State} (hs : Sound s) :
    Accounted s ↔ ∀ idx, (outbox idx s).Accounts := by
  constructor
  · intro h idx
    refine List.perm_iff_count.mpr fun x => ?_
    have hb := hs.bounded idx x
    by_cases hx : x ∈ (outbox idx s).accepted
    · have h1 : (outbox idx s).accepted.count x = 1 :=
        List.count_eq_one_of_mem (hs.numbered.nodup idx) hx
      have hge : 1 ≤ ((outbox idx s).held ++ (outbox idx s).reported).count x := by
        simp only [Outbox.held, List.count_append]
        obtain ⟨hw, -⟩ | ⟨-, hf, -⟩ | ⟨-, -, hr⟩ := h idx x hx
        · omega
        · have h1 : (outbox idx s).flying.toList.count x = 1 := by simp [hf]
          omega
        · omega
      omega
    · have h0 := List.count_eq_zero.mpr hx
      omega
  · intro h idx x hx
    have hn : (outbox idx s).accepted.Nodup := hs.numbered.nodup idx
    obtain ⟨hw, hf, hr⟩ | ⟨hw, hf, hr⟩ | h3 := (h idx).exactly_once hn hx
    · refine .inl ⟨?_, hf, hr⟩
      have hb := hs.bounded idx x
      have h1 : (outbox idx s).accepted.count x = 1 := List.count_eq_one_of_mem hn hx
      have hp : 0 < (outbox idx s).waiting.count x := List.count_pos_iff.mpr hw
      simp only [Outbox.held, List.count_append] at hb
      omega
    · exact .inr (.inl ⟨hw, hf, hr, hs.wired.flying idx x hf⟩)
    · exact .inr (.inr h3)

/-! ## Which steps keep the accounts -/

theorem Mild.forgotten {m : Outbox.Move Item} (hm : Mild m) (o : Outbox Item) :
    o.forgotten m = [] := by cases hm <;> rfl

/-- Mild moves keep the accounts as they are. -/
theorem mild_accounts {o p : Outbox Item} {ms : List (Outbox.Move Item)} (hm : ∀ m ∈ ms, Mild m)
    (h : run Outbox.move o ms = some p) (ho : o.Accounts) : p.Accounts :=
  guarded_run (G := fun _ m => Mild m)
    (fun o _ _ ho hm h => (Outbox.move_accounts ho h).mpr (hm.forgotten o)) ho
    (meets_of_forall (fun m hmem _ => hm m hmem) o) h

/-- Once something is missing it stays so through mild moves. -/
theorem mild_missing {o p : Outbox Item} {ms : List (Outbox.Move Item)} (hm : ∀ m ∈ ms, Mild m)
    (h : run Outbox.move o ms = some p)
    (ho : o.held.length + o.reported.length < o.accepted.length) : ¬p.Accounts := by
  have hp : p.held.length + p.reported.length < p.accepted.length := by
    refine guarded_run (P := fun o => o.held.length + o.reported.length < o.accepted.length)
      (G := fun _ m => Mild m) (fun o m q ho hm h => ?_) ho
      (meets_of_forall (fun m hmem _ => hm m hmem) o) h
    have hlen := (Outbox.move_balance h).length_eq
    rw [hm.forgotten o, hm.gains] at hlen
    simp only [List.length_append, List.length_nil] at hlen
    rw [Outbox.move_accepted h, hm.gains, List.append_nil]
    omega
  intro hacc
  have hlen := List.Perm.length_eq hacc
  rw [List.length_append] at hlen
  omega

theorem allowed_forgotten {s : State} {idx : ℕ} {a : Act} {m : Outbox.Move Item}
    (h : Allowed s idx a m) (hn : ¬Drops s idx a) : (outbox idx s).forgotten m = [] := by
  cases h with
  | lose data para pos ins k ha hidx hd hk hc hf hw hs =>
      subst ha
      refine absurd ⟨rfl, hidx, hd, k, hk, hc, hf, hw, fun hsend => ?_⟩ hn
      rw [linkSend_taken.mpr hsend] at hs
      cases hs
  | reset h =>
      by_contra hheld
      have hheld : held idx s ≠ [] := hheld
      obtain ⟨prot, addr, port, cause, rfl, hidx, k, hk, hr⟩ | ⟨rfl, hr⟩ := h
      · exact hn ⟨rfl, hidx, hheld, k, hk, hr.imp_right fun h => ⟨h.1, linkConnect_taken.mp h.2⟩⟩
      · exact hn ⟨hheld, hr⟩
  | _ => rfl

/-- The outbox after a step that drops items. -/
theorem drops_moves {s t : State} {idx : ℕ} {a : Act} (hd : Drops s idx a) (h : step s a = some t) :
    ∃ m ms, (outbox idx s).forgotten m ≠ [] ∧ (∀ n ∈ ms, Mild n) ∧
      run Outbox.move (outbox idx s) (m :: ms) = some (outbox idx t) := by
  cases a with
  | send i data para pos ins =>
      obtain ⟨rfl, hidx, hdata, k, hk, hc, hf, hw, hns⟩ := hd
      obtain ⟨-, ⟨⟩⟩ := Option.ite_none_right_eq_some.mp h
      have hs : (linkSend k.id data s).2 = false := by
        rw [← Bool.not_eq_true]
        exact fun hs => hns (linkSend_taken.mp hs)
      refine ⟨_, [], ?_, by simp, run_cons_eq_some.mpr ⟨_, send_lose hidx hk hdata hc hf hw hs para
        pos ins, rfl⟩⟩
      exact List.cons_ne_nil _ _
  | connect i prot addr port cause =>
      obtain ⟨rfl, hidx, hheld, k, hk, hr⟩ := hd
      cases h
      have ho := connect_resets hidx hk (hr.imp_right fun h => ⟨h.1, linkConnect_taken.mpr h.2⟩) cause
      refine ⟨.reset, [], hheld, by simp, run_cons_eq_some.mpr ⟨_, ?_, rfl⟩⟩
      rw [ho]
      rfl
  | ret =>
      obtain ⟨hheld, hf⟩ := hd
      have hreset : (outbox idx s).move .reset = some (outbox idx (resumed s)) := by
        have ho (f : Frame) (hsf : s.frame = some f)
            (hf : (∃ id, f = .connected id idx false) ∨ f = .closed idx) :
            outbox idx (resumed s) = { outbox idx s with waiting := [], flying := none } := by
          rw [resumed, hsf]
          exact resume_resets hf
        obtain ⟨id, hf⟩ | hf := hf
        · rw [ho _ hf (.inl ⟨id, rfl⟩)]
          rfl
        · rw [ho _ hf (.inr rfl)]
          rfl
      obtain ⟨-, rfl⟩ | ⟨-, l, -, rfl⟩ := step_ret.mp h
      · exact ⟨.reset, [], hheld, by simp, run_cons_eq_some.mpr ⟨_, hreset, rfl⟩⟩
      · obtain ⟨ms, hm, hr⟩ : Mildly idx (resumed s) (deliver { resumed s with link := l }) :=
          deliver_mildly idx { resumed s with link := l }
        exact ⟨.reset, ms, hheld, hm, run_cons_eq_some.mpr ⟨_, hreset, hr⟩⟩
  | _ => exact hd.elim

theorem step_accounted {s t : State} {a : Act} (ha : a.numbered) (hs : Sound s)
    (hacc : Accounted s) (h : step s a = some t) : Accounted t ↔ ∀ idx, ¬Drops s idx a := by
  rw [accounted_iff hs] at hacc
  rw [accounted_iff (step_sound s a t ha hs h)]
  constructor
  · intro ht idx hd
    obtain ⟨m, ms, hfor, hm, hr⟩ := drops_moves hd h
    obtain ⟨p, hp, hr⟩ := run_cons_eq_some.mp hr
    refine mild_missing hm hr ?_ (ht idx)
    have hacc' := List.Perm.length_eq (hacc idx)
    have hlen := (Outbox.move_balance hp).length_eq
    have hpos := List.length_pos_of_ne_nil hfor
    rw [Outbox.move_accepted hp]
    simp only [List.length_append] at hacc' hlen ⊢
    omega
  · intro hn idx
    obtain ⟨m, ms, ha, hm, hr⟩ := step_evolves h idx
    obtain ⟨p, hp, hr⟩ := run_cons_eq_some.mp hr
    have hp : p.Accounts :=
      (Outbox.move_accounts (hacc idx) hp).mpr (allowed_forgotten ha (hn idx))
    exact mild_accounts hm hr hp

/-- Along a run every accepted item is accounted for exactly if no step of it drops items. -/
theorem every_item_accounted {as : List Act} (ha : ∀ a ∈ as, a.numbered) :
    Along step Accounted boot as ↔ Meets step (fun s a => ∀ idx, ¬Drops s idx a) boot as :=
  along_iff_meets_of step_sound (fun _ _ _ ha hs hacc h => step_accounted ha hs hacc h) boot_sound
    (fun _ _ => nofun) ha

theorem every_item_accounted_queued : Along step Accounted boot
    [.create 1 (lua "TCP") (lua "a.b") (lua "80") none, .send 1 (lua "data") 0 none false] := by
  refine (every_item_accounted (by simp [Act.numbered])).mpr ?_
  refine fun _ h1 => ⟨fun _ => id, fun _ _ => ⟨?_, trivial⟩⟩
  cases h1
  rintro idx ⟨rfl, -, -, k, hk, hc, -⟩
  cases hk
  revert hc
  decide

/-- During a voice call `link.send` refuses the data, and `send` returns true all the
same: the item does not wait, is not being sent and has not been reported. -/
theorem call_loses_item : ∃ s t : State,
    run step boot [.connect 1 (lua "TCP") (lua "a.b") (lua "80") none,
      .link (.urc (lua "STATE: IP STATUS")), .link (.urc (lua "0, CONNECT OK")), .ret,
      .link (.calls true)] = some s ∧
    (send 1 (lua "data") 0 none false s).2 = true ∧
    step s (.send 1 (lua "data") 0 none false) = some t ∧
    (t.accepted 1).map Item.data = [lua "data"] ∧ held 1 t = [] ∧
    (outbox 1 t).reported = [] ∧ ¬Accounted t := by
  have h : (run step boot [.connect 1 (lua "TCP") (lua "a.b") (lua "80") none,
      .link (.urc (lua "STATE: IP STATUS")), .link (.urc (lua "0, CONNECT OK")), .ret,
      .link (.calls true)]).map (fun s =>
        let r := send 1 (lua "data") 0 none false s
        (r.2, (r.1.accepted 1).map Item.data, held 1 r.1, (outbox 1 r.1).reported)) =
      some (true, [lua "data"], [], []) := by
    decide +kernel
  obtain ⟨s, hr, hs⟩ := Option.map_eq_some_iff.mp h
  simp only [Prod.mk.injEq] at hs
  obtain ⟨htrue, hacc, hheld, hrep⟩ := hs
  refine ⟨s, (send 1 (lua "data") 0 none false s).1, hr, htrue, rfl, hacc, hheld, hrep, ?_⟩
  intro hall
  obtain ⟨hwait, hfly⟩ := List.append_eq_nil_iff.mp hheld
  have hfly := Option.toList_eq_nil_iff.mp hfly
  obtain ⟨x, hx, -⟩ : ∃ x ∈ (send 1 (lua "data") 0 none false s).1.accepted 1,
      x.data = lua "data" := by
    rw [← List.mem_map, hacc]
    exact List.mem_singleton_self _
  have hone := hall 1 x hx
  simp [hwait, hfly, hrep] at hone

end LuatAir200.Sockets
