import LuatAir200.SocketLedger

/-!
# The order in which items are sent

`send` hands an item over at once when nothing is being sent, and does not look
whether older items wait. They do while the callback for `CONNECT` or `SEND` is
run, and after `link.send` has refused one of them.
-/
namespace LuatAir200.Sockets
open Lua Machine

/-- `link.send` takes data for this link. -/
def Sendable (id : Option ℕ) (s : State) : Prop :=
  ∃ i l, id = some i ∧ s.link.linklist i = some l ∧ l.state = .connected ∧ s.link.callexist = false

theorem linkSend_taken {id : Option ℕ} {data : LuaString} {s : State} :
    (linkSend id data s).2 = true ↔ Sendable id s := by
  cases id with
  | none => simp [linkSend, Sendable]
  | some i =>
      simp only [linkSend, Links.send, Sendable, Option.some.injEq]
      cases hl : s.link.linklist i with
      | none => simp [hl]
      | some l => by_cases hc : l.state = .connected <;> cases hx : s.link.callexist <;> simp [hl, hc]

theorem Sendable.connected {id : Option ℕ} {s : State} (h : Sendable id s) :
    lstate id s = lua "CONNECTED" := by
  obtain ⟨i, l, rfl, hl, hs, -⟩ := h
  simp [lstate, Links.getstate, hl, hs, Links.LinkState.text]

/-- A `send` that hands its item over while older ones wait. -/
def Overtaking (s : State) : Act → Prop
  | .send idx data _ _ _ => idx ≤ SCK_MAX_CNT ∧ data ≠ [] ∧ ∃ k, s.scks idx = some k ∧
      Sendable k.id s ∧ k.sndingitem = none ∧ k.waitingrspitem = none ∧ k.sndpending ≠ []
  | _ => False

/-- The position that a `send` asks for. -/
def Act.pos : Act → Option ℕ
  | .send _ _ _ pos _ => pos
  | _ => none

/-- In each socket, items are handed over in the order in which they were accepted, and
none that waits has been overtaken. -/
def InOrder (s : State) : Prop :=
  ∀ idx, (s.handed idx).Sublist (s.accepted idx) ∧
    (s.handed idx ++ ((s.scks idx).map Sock.sndpending).getD []).Sublist (s.accepted idx)

theorem inOrder_iff {s : State} : InOrder s ↔ ∀ idx, (outbox idx s).Ordered := by
  constructor
  · exact fun h idx => (h idx).2
  · exact fun h idx => ⟨(List.sublist_append_left _ _).trans (h idx), h idx⟩

/-! ## Numbers -/

/-- The accepted items of a socket carry their positions. -/
def Numbered (s : State) : Prop :=
  ∀ idx, (s.accepted idx).map Item.no = List.range (s.accepted idx).length

theorem Numbered.nodup {s : State} (h : Numbered s) (idx : ℕ) : (s.accepted idx).Nodup := by
  have hn : ((s.accepted idx).map Item.no).Nodup := by
    rw [h idx]
    exact List.nodup_range
  exact hn.of_map

theorem Mild.gains {m : Outbox.Move Item} (hm : Mild m) : m.gains = [] := by cases hm <;> rfl

theorem Allowed.gains {s : State} {idx : ℕ} {a : Act} {m : Outbox.Move Item}
    (hm : Allowed s idx a m) : m.gains = [] ∨
      ∃ data para hd, m.gains = [⟨(s.accepted idx).length, data, para, hd⟩] := by
  cases hm with
  | queue data para pos ins i ha hd => exact .inr ⟨data, para, hd, rfl⟩
  | direct data para pos ins k ha hidx hd => exact .inr ⟨data, para, hd, rfl⟩
  | lose data para pos ins k ha hidx hd => exact .inr ⟨data, para, hd, rfl⟩
  | _ => exact .inl rfl

theorem step_accepted {s t : State} {a : Act} (h : step s a = some t) (idx : ℕ) :
    t.accepted idx = s.accepted idx ∨
      ∃ data para hd, t.accepted idx =
        s.accepted idx ++ [⟨(s.accepted idx).length, data, para, hd⟩] := by
  obtain ⟨m, ms, ha, hm, hr⟩ := step_evolves h idx
  obtain ⟨p, hp, hr⟩ := run_cons_eq_some.mp hr
  have hk : (outbox idx t).accepted = p.accepted := by
    refine guarded_run (P := fun o => o.accepted = p.accepted) (G := fun _ m => Mild m)
      (fun o n q ho hn hq => ?_) rfl (meets_of_forall (fun n hn _ => hm n hn) p) hr
    rw [Outbox.move_accepted hq, hn.gains, List.append_nil, ho]
  have ht : t.accepted idx = s.accepted idx ++ m.gains := hk.trans (Outbox.move_accepted hp)
  obtain hg | ⟨data, para, hd, hg⟩ := ha.gains
  · exact .inl (by rw [ht, hg, List.append_nil])
  · exact .inr ⟨data, para, hd, by rw [ht, hg]⟩

theorem step_numbered (s : State) (a : Act) (t : State) (hs : Numbered s)
    (h : step s a = some t) : Numbered t := by
  intro idx
  obtain he | ⟨data, para, hd, he⟩ := step_accepted h idx
  · rw [he]
    exact hs idx
  · rw [he, List.map_append, hs idx]
    simp [List.range_succ]

theorem boot_numbered : Numbered boot := fun _ => rfl

/-! ## Order -/

theorem Mild.not_overtakes {m : Outbox.Move Item} (hm : Mild m) (o : Outbox Item) :
    ¬o.Overtakes m := by
  cases hm <;> exact id

/-- A step whose first move does not overtake keeps the order. -/
theorem Evolves.ordered {s t : State} {idx : ℕ} {a : Act} (h : Evolves s idx a t)
    (hs : (outbox idx s).Ordered)
    (hn : ∀ m, Allowed s idx a m → ¬(outbox idx s).Overtakes m) : (outbox idx t).Ordered := by
  obtain ⟨m, ms, ha, hm, hr⟩ := h
  refine guarded_run (G := fun o m => ¬o.Overtakes m) (fun o n p ho hno hp => ?_) hs ?_ hr
  · exact Outbox.move_ordered ho hno hp
  · exact fun p _ => ⟨hn m ha, meets_of_forall (fun n hmem o => (hm n hmem).not_overtakes o) p⟩

theorem not_overtakes {s : State} {a : Act} (hp : a.pos = none) (hn : ¬Overtaking s a) {idx : ℕ}
    {m : Outbox.Move Item} (h : Allowed s idx a m) : ¬(outbox idx s).Overtakes m := by
  cases h with
  | queue data para pos ins i ha hd hi =>
      subst ha
      cases hp
      exact fun hne => hne hi
  | direct data para pos ins k ha hidx hd hk hc hf hw hs =>
      subst ha
      intro hne
      have hpend : k.sndpending ≠ [] := by simpa [Outbox.Overtakes, outbox, hk] using hne
      exact hn ⟨hidx, hd, k, hk, linkSend_taken.mp hs, hf, hw, hpend⟩
  | _ => exact id

/-- One step keeps the order exactly if it does not overtake. -/
theorem step_inOrder {s t : State} {a : Act} (hp : a.pos = none) (hnum : Numbered s)
    (hs : InOrder s) (h : step s a = some t) : InOrder t ↔ ¬Overtaking s a := by
  rw [inOrder_iff] at hs ⊢
  constructor
  · intro ht ha
    cases a with
    | send idx data para pos ins =>
        obtain ⟨hidx, hd, k, hk, hsend, hf, hw, hne⟩ := ha
        have hm := send_direct hidx hk hd hsend.connected hf hw (linkSend_taken.mpr hsend) para pos ins
        have hnt : Numbered t := step_numbered s _ t hnum h
        obtain ⟨-, ⟨⟩⟩ := Option.ite_none_right_eq_some.mp h
        refine Outbox.direct_not_ordered hm ?_ (hnt.nodup idx) (ht idx)
        simpa [outbox, hk] using hne
    | _ => exact ha
  · intro hn idx
    exact (step_evolves h idx).ordered (hs idx) fun m hm => not_overtakes hp hn hm

/-- When no position is given, the items of every socket are handed over in the order of
acceptance, and none is overtaken while it waits, along exactly those runs in which no
`send` finds a connected link, nothing being sent and older items waiting. -/
theorem sent_in_order {as : List Act} (hp : ∀ a ∈ as, a.pos = none) :
    Along step InOrder boot as ↔ Meets step (fun s a => ¬Overtaking s a) boot as := by
  have hboot : InOrder boot := fun _ => ⟨List.Sublist.refl _, List.Sublist.refl _⟩
  exact along_iff_meets_of (A := fun a => a.pos = none)
    (fun s a t _ => step_numbered s a t)
    (fun s a t hp hnum hs h => step_inOrder hp hnum hs h) boot_numbered hboot hp

/-- A connection attempt, an item that waits for it, and an item that the callback for
`CONNECT` sends. -/
def connectThenSend : List Act :=
  [.create 1 (lua "TCP") (lua "a.b") (lua "80") none,
    .send 1 (lua "old") 0 none false,
    .link (.urc (lua "STATE: IP STATUS")),
    .link (.urc (lua "0, CONNECT OK")),
    .send 1 (lua "new") 0 none false]

theorem sent_in_order_connecting :
    Along step InOrder boot (connectThenSend.take 4) := by
  refine (sent_in_order (by decide)).mpr ?_
  refine fun _ h1 => ⟨id, fun _ _ => ⟨?_, fun _ _ => ⟨id, fun _ _ => ⟨id, trivial⟩⟩⟩⟩
  cases h1
  rintro ⟨-, -, k, hk, -, -, -, hne⟩
  cases hk
  exact hne rfl

/-- The item that the callback sends goes first, and the older one follows it. -/
theorem callback_overtakes : ∃ s : State,
    run step boot (connectThenSend ++ [.ret, .link .sendat, .link (.respond true [] none),
      .link .sendat, .link (.respond true (lua "DATA ACCEPT:0,3") none), .ret]) = some s ∧
    (s.accepted 1).map Item.data = [lua "old", lua "new"] ∧
    (s.handed 1).map Item.data = [lua "new", lua "old"] := by
  have h : (run step boot (connectThenSend ++ [.ret, .link .sendat, .link (.respond true [] none),
      .link .sendat, .link (.respond true (lua "DATA ACCEPT:0,3") none), .ret])).map
        (fun s => ((s.accepted 1).map Item.data, (s.handed 1).map Item.data)) =
      some ([lua "old", lua "new"], [lua "new", lua "old"]) := by
    decide +kernel
  obtain ⟨s, hr, hs⟩ := Option.map_eq_some_iff.mp h
  rw [Prod.mk.injEq] at hs
  exact ⟨s, hr, hs.1, hs.2⟩

end LuatAir200.Sockets
