import LuatAir200.Outbox
import LuatAir200.SocketModel

/-!
# What becomes of the items of a socket

The queue of a socket, the item it is sending and the history of its items make up
an `Outbox`; each step makes one move in the outbox of a socket, and `Allowed` says
which steps make which moves.
-/
namespace LuatAir200.Sockets
open Lua Machine

/-- The item that a call of `rsp` reports to socket `idx`. -/
def Call.reported (idx : ℕ) : Call → Option Item
  | .send i _ item => if i = idx then item else none
  | _ => none

def outbox (idx : ℕ) (s : State) : Outbox Item where
  waiting := ((s.scks idx).map Sock.sndpending).getD []
  flying := (s.scks idx).bind Sock.sndingitem
  accepted := s.accepted idx
  handed := s.handed idx
  reported := s.calls.filterMap (Call.reported idx)

/-- A call of `connect` that makes the entry of the socket anew. -/
def Reconnects (s : State) (idx : ℕ) (a : Act) : Prop :=
  ∃ prot addr port cause, a = .connect idx prot addr port cause ∧ idx ≤ SCK_MAX_CNT ∧
    ∃ k, s.scks idx = some k ∧
      ((lstate k.id s = lua "CONNECTED" ∧ ¬(k.addr = addr ∧ k.port = port ∧ k.prot = prot)) ∨
       (lstate k.id s ≠ lua "CONNECTED" ∧ (linkConnect k.id prot addr port s).2 = true))

/-- Which step may make which move in the outbox of socket `idx`. -/
inductive Allowed (s : State) (idx : ℕ) (a : Act) : Outbox.Move Item → Prop
  | keep : Allowed s idx a .keep
  | queue (data : LuaString) (para : ℕ) (pos : Option ℕ) (ins : Bool) (i : ℕ)
      (ha : a = .send idx data para pos ins) (hd : data ≠ [])
      (hi : i = (pos.map (· - 1)).getD (outbox idx s).waiting.length) :
      Allowed s idx a (.queue i ⟨(s.accepted idx).length, data, para, hd⟩)
  | direct (data : LuaString) (para : ℕ) (pos : Option ℕ) (ins : Bool) (k : Sock)
      (ha : a = .send idx data para pos ins) (hidx : idx ≤ SCK_MAX_CNT) (hd : data ≠ [])
      (hk : s.scks idx = some k) (hc : lstate k.id s = lua "CONNECTED")
      (hf : k.sndingitem = none) (hw : k.waitingrspitem = none)
      (hs : (linkSend k.id data s).2 = true) :
      Allowed s idx a (.direct ⟨(s.accepted idx).length, data, para, hd⟩)
  | lose (data : LuaString) (para : ℕ) (pos : Option ℕ) (ins : Bool) (k : Sock)
      (ha : a = .send idx data para pos ins) (hidx : idx ≤ SCK_MAX_CNT) (hd : data ≠ [])
      (hk : s.scks idx = some k) (hc : lstate k.id s = lua "CONNECTED")
      (hf : k.sndingitem = none) (hw : k.waitingrspitem = none)
      (hs : (linkSend k.id data s).2 = false) :
      Allowed s idx a (.lose ⟨(s.accepted idx).length, data, para, hd⟩)
  | next : Allowed s idx a .next
  | fail : Allowed s idx a .fail
  | answer : Allowed s idx a .answer
  | reset (h : Reconnects s idx a ∨ a = .ret ∧ ((∃ id, s.frame = some (.connected id idx false)) ∨
      s.frame = some (.closed idx))) : Allowed s idx a .reset

/-! ## Outboxes and the primitives -/

/-- `f` leaves alone what waits and what is being sent. -/
def Keeps (f : Sock → Sock) : Prop :=
  ∀ k, (f k).sndpending = k.sndpending ∧ (f k).sndingitem = k.sndingitem

theorem outbox_upd_ne {idx i : ℕ} (h : idx ≠ i) (f : Sock → Sock) (s : State) :
    outbox idx (upd i f s) = outbox idx s := by
  simp [outbox, upd, h]

theorem outbox_upd (idx : ℕ) (f : Sock → Sock) (s : State) :
    outbox idx (upd idx f s) = { outbox idx s with
      waiting := ((s.scks idx).map fun k => (f k).sndpending).getD []
      flying := (s.scks idx).bind fun k => (f k).sndingitem } := by
  cases hk : s.scks idx <;> simp [outbox, upd, hk]

theorem outbox_upd_keeps {f : Sock → Sock} (h : Keeps f) (idx i : ℕ) (s : State) :
    outbox idx (upd i f s) = outbox idx s := by
  by_cases hi : idx = i
  · subst hi
    rw [outbox_upd]
    cases hk : s.scks idx with
    | none => simp [outbox, hk]
    | some k => simp [outbox, hk, h k]
  · exact outbox_upd_ne hi f s

theorem outbox_call (idx : ℕ) (c : Call) (f : Frame) (s : State) :
    outbox idx (call c f s) = { outbox idx s with
      reported := (outbox idx s).reported ++ (c.reported idx).toList } := by
  cases hc : c.reported idx <;> simp [outbox, call, hc, List.filterMap_append]

@[simp] theorem outbox_link (idx : ℕ) (l : LinkState) (s : State) :
    outbox idx { s with link := l } = outbox idx s := rfl

theorem outbox_linkConnect (idx : ℕ) (id : Option ℕ) (prot addr port : LuaString) (s : State) :
    outbox idx (linkConnect id prot addr port s).1 = outbox idx s := by
  cases id <;> rfl

theorem outbox_linkDisconnect (idx : ℕ) (id : Option ℕ) (s : State) :
    outbox idx (linkDisconnect id s).1 = outbox idx s := by
  cases id <;> rfl

theorem outbox_linkClose (idx : ℕ) (id : Option ℕ) (s : State) :
    outbox idx (linkClose id s).1 = outbox idx s := by
  cases id <;> rfl

theorem outbox_linkSend (idx : ℕ) (id : Option ℕ) (data : LuaString) (s : State) :
    outbox idx (linkSend id data s).1 = outbox idx s := by
  cases id <;> rfl

theorem scks_linkSend (id : Option ℕ) (data : LuaString) (s : State) :
    (linkSend id data s).1.scks = s.scks := by
  cases id <;> rfl

/-! ## Mild moves -/

/-- The moves that cannot harm an item. -/
inductive Mild : Outbox.Move Item → Prop
  | keep : Mild .keep
  | next : Mild .next
  | fail : Mild .fail
  | answer : Mild .answer

/-- The outbox of `idx` makes only mild moves. -/
def Mildly (idx : ℕ) (s t : State) : Prop :=
  ∃ ms, (∀ m ∈ ms, Mild m) ∧ run Outbox.move (outbox idx s) ms = some (outbox idx t)

theorem Mildly.still {idx : ℕ} {s t : State} (h : outbox idx t = outbox idx s) :
    Mildly idx s t := ⟨[], by simp, by rw [h]; rfl⟩

theorem Mildly.one {idx : ℕ} {s t : State} {m : Outbox.Move Item} (hm : Mild m)
    (h : (outbox idx s).move m = some (outbox idx t)) : Mildly idx s t :=
  ⟨[m], by simpa using hm, run_cons_eq_some.mpr ⟨_, h, rfl⟩⟩

theorem Mildly.trans {idx : ℕ} {s t u : State} (h : Mildly idx s t) (h' : Mildly idx t u) :
    Mildly idx s u := by
  obtain ⟨ms, hm, hr⟩ := h
  obtain ⟨ns, hn, hs⟩ := h'
  refine ⟨ms ++ ns, fun m hmem => ?_, run_append.mpr ⟨_, hr, hs⟩⟩
  obtain h | h := List.mem_append.mp hmem
  · exact hm m h
  · exact hn m h

theorem hand_refused {id : Option ℕ} (idx : ℕ) (item : Item) {s : State}
    (h : (linkSend id item.data s).2 = false) :
    hand id idx item s = ((linkSend id item.data s).1, false) := by
  unfold hand
  cases hr : linkSend id item.data s with
  | mk t b =>
      rw [hr] at h
      cases h
      rfl

theorem hand_taken {id : Option ℕ} (idx : ℕ) (item : Item) {s : State}
    (h : (linkSend id item.data s).2 = true) :
    hand id idx item s =
      ({ upd idx (fun k => { k with sndingitem := some item }) (linkSend id item.data s).1 with
        handed := Function.update (linkSend id item.data s).1.handed idx
          ((linkSend id item.data s).1.handed idx ++ [item]) }, true) := by
  unfold hand
  cases hr : linkSend id item.data s with
  | mk t b =>
      rw [hr] at h
      cases h
      rfl

theorem outbox_hand_ne {id : Option ℕ} {idx i : ℕ} (h : idx ≠ i) (item : Item) (s : State) :
    outbox idx (hand id i item s).1 = outbox idx s := by
  have hl := outbox_linkSend idx id item.data s
  cases hs : (linkSend id item.data s).2 with
  | false => rw [hand_refused i item hs, hl]
  | true =>
      rw [hand_taken i item hs, ← hl]
      simp [outbox, upd, h]

theorem outbox_hand {id : Option ℕ} {idx : ℕ} (item : Item) {s : State} {k : Sock}
    (hk : s.scks idx = some k) (h : (linkSend id item.data s).2 = true) :
    outbox idx (hand id idx item s).1 = { outbox idx s with
      flying := some item
      handed := (outbox idx s).handed ++ [item] } := by
  have hl := outbox_linkSend idx id item.data s
  have hs := scks_linkSend id item.data s
  rw [hand_taken idx item h, ← hl]
  simp [outbox, upd, hs, hk]

/-- The state in which `sndnxt` calls `link.send`. -/
def removed (idx : ℕ) (rest : List Item) (s : State) : State :=
  upd idx (fun k => { k with sndpending := rest }) s

theorem sndnxt_taken {id : Option ℕ} {idx : ℕ} {s : State} {k : Sock} {item : Item}
    {rest : List Item} (hk : s.scks idx = some k) (hp : k.sndpending = item :: rest)
    (hs : (linkSend id item.data (removed idx rest s)).2 = true) :
    sndnxt id idx s = (hand id idx item (removed idx rest s)).1 := by
  have he := hand_taken idx item hs
  simp only [sndnxt, hk, Option.map_some, hp]
  rw [removed] at he
  rw [he, removed, he]

theorem sndnxt_refused {id : Option ℕ} {idx : ℕ} {s : State} {k : Sock} {item : Item}
    {rest : List Item} (hk : s.scks idx = some k) (hp : k.sndpending = item :: rest)
    (hs : (linkSend id item.data (removed idx rest s)).2 = false) :
    sndnxt id idx s = upd idx (fun k => { k with sndpending := item :: k.sndpending })
      (linkSend id item.data (removed idx rest s)).1 := by
  have he := hand_refused idx item hs
  simp only [sndnxt, hk, Option.map_some, hp]
  rw [removed] at he
  rw [he, removed]

/-- `sndnxt` hands over the first waiting item, or leaves it where it is. -/
theorem sndnxt_mildly {id : Option ℕ} {idx : ℕ} {s : State} {k : Sock} (hk : s.scks idx = some k)
    (hf : k.sndingitem = none) (i : ℕ) : Mildly i s (sndnxt id idx s) := by
  cases hp : k.sndpending with
  | nil =>
      refine .still ?_
      simp only [sndnxt, hk, Option.map_some, hp]
  | cons item rest =>
      have hku : (removed idx rest s).scks idx = some { k with sndpending := rest } := by
        simp [removed, upd, hk]
      cases hs : (linkSend id item.data (removed idx rest s)).2 with
      | true =>
          rw [sndnxt_taken hk hp hs]
          by_cases hi : i = idx
          · subst hi
            refine .one .next ?_
            rw [outbox_hand item hku hs, removed, outbox_upd]
            simp [Outbox.move, outbox, hk, hp, hf]
          · exact .still ((outbox_hand_ne hi _ _).trans (outbox_upd_ne hi _ s))
      | false =>
          rw [sndnxt_refused hk hp hs]
          refine .still ?_
          by_cases hi : i = idx
          · subst hi
            have hl := outbox_linkSend i id item.data (removed i rest s)
            have hsc := scks_linkSend id item.data (removed i rest s)
            rw [outbox_upd, hl, hsc, hku, removed, outbox_upd]
            simp [outbox, hk, hp, hf]
          · exact (outbox_upd_ne hi _ _).trans
              ((outbox_linkSend i id item.data _).trans (outbox_upd_ne hi _ s))

theorem rsumscksnd_mildly (idx i : ℕ) (s : State) : Mildly i s (rsumscksnd idx s) := by
  unfold rsumscksnd
  split
  · exact .still rfl
  · rename_i k hk
    split
    · exact .still (outbox_linkConnect i _ _ _ _ s)
    split
    · rename_i h
      exact sndnxt_mildly hk h.2.1 i
    · exact .still rfl

/-- A call of `rsp` that reports nothing. -/
theorem call_mildly (i : ℕ) {c : Call} (hc : ∀ i, c.reported i = none) (f : Frame) (s : State) :
    Mildly i s (call c f s) :=
  .still (by rw [outbox_call, hc i]; simp)

theorem upd_mildly {f : Sock → Sock} (h : Keeps f) (idx i : ℕ) (s : State) :
    Mildly i s (upd idx f s) := .still (outbox_upd_keeps h i idx s)

theorem failFirst_mildly (idx i : ℕ) (f : Frame) {rest : State → State} {s : State}
    (hr : Mildly i s (rest s)) : Mildly i s (failFirst idx f rest s) := by
  unfold failFirst
  split
  · rename_i item items hm
    obtain ⟨k, hk, hp⟩ := Option.map_eq_some_iff.mp hm
    by_cases hi : i = idx
    · subst hi
      refine .one .fail ?_
      rw [outbox_call, outbox_upd]
      simp [Outbox.move, outbox, hk, hp, Call.reported]
    · refine .still ?_
      rw [outbox_call, outbox_upd_ne hi]
      simp [Call.reported, Ne.symm hi]
  · exact hr

theorem conackLoop_mildly (id idx : ℕ) (cause : Option ℕ) (i : ℕ) (s : State) :
    Mildly i s (conackLoop id idx cause s) :=
  failFirst_mildly idx i _ (call_mildly i (fun _ => rfl) _ s)

theorem conack_mildly (id idx : ℕ) (cause : Option ℕ) (suc : Bool) (i : ℕ) (s : State) :
    Mildly i s (conack id idx cause suc s) := by
  unfold conack
  split
  · exact call_mildly i (fun _ => rfl) _ s
  · exact conackLoop_mildly id idx cause i s

theorem lostLoop_mildly (idx : ℕ) (val : LuaString) (i : ℕ) (s : State) :
    Mildly i s (lostLoop idx val s) :=
  failFirst_mildly idx i _ (call_mildly i (fun _ => rfl) _ s)

/-- `sndack` reports the item that is being sent. -/
theorem sndack_mildly {id idx : ℕ} (suc : Bool) {s : State} {k : Sock} (hk : s.scks idx = some k)
    (i : ℕ) : Mildly i s (sndack id idx suc k.sndingitem s) := by
  unfold sndack
  by_cases hi : i = idx
  · subst hi
    refine .one .answer ?_
    rw [outbox_call, sndrstpara, outbox_upd]
    simp [Outbox.move, outbox, hk, Call.reported]
  · refine .still ?_
    rw [outbox_call, sndrstpara, outbox_upd_ne hi]
    simp [Call.reported, Ne.symm hi]

theorem sckrsp_mildly (id : ℕ) (evt : Links.Evt) (val : LuaString) (i : ℕ) (s : State) :
    Mildly i s (sckrsp id evt val s) := by
  unfold sckrsp
  split
  · exact .still rfl
  rename_i idx _
  split
  · exact .still rfl
  rename_i k hk
  cases evt with
  | connect =>
      dsimp only
      split
      · rw [if_pos (Nat.le_add_left 1 _)]
        have hu : Mildly i s (upd idx (fun k => { k with conretry := k.conretry + 1 }) s) :=
          upd_mildly (by exact fun _ => ⟨rfl, rfl⟩) idx i s
        exact hu.trans (conack_mildly _ _ _ _ i _)
      · exact conack_mildly _ _ _ _ i s
  | send =>
      dsimp only
      split
      · rw [if_pos (Nat.le_add_left 1 _)]
        have hu : Mildly i s (upd idx (fun k => { k with sndretry := k.sndretry + 1 }) s) :=
          upd_mildly (by exact fun _ => ⟨rfl, rfl⟩) idx i s
        exact hu.trans (sndack_mildly (k := { k with sndretry := k.sndretry + 1 }) false
          (by simp [upd, hk]) i)
      · exact sndack_mildly true hk i
  | disconnect =>
      dsimp only
      refine Mildly.trans ?_ (call_mildly i (fun _ => rfl) _ _)
      have hu : Mildly i s (discrstpara idx s) := upd_mildly (by exact fun _ => ⟨rfl, rfl⟩) idx i s
      refine hu.trans ?_
      split
      · exact upd_mildly (by exact fun _ => ⟨rfl, rfl⟩) idx i _
      · exact .still rfl
  | close => exact call_mildly i (fun _ => rfl) _ s
  | state =>
      dsimp only
      split
      · exact lostLoop_mildly idx val i s
      · exact call_mildly i (fun _ => rfl) _ s

theorem deliver_mildly (i : ℕ) (s : State) : Mildly i s (deliver s) := by
  unfold deliver
  split
  · split
    · exact sckrsp_mildly _ _ _ i s
    · exact .still rfl
  · exact .still rfl

/-! ## Steps -/

/-- One allowed move, then mild ones. -/
def Evolves (s : State) (idx : ℕ) (a : Act) (t : State) : Prop :=
  ∃ m ms, Allowed s idx a m ∧ (∀ n ∈ ms, Mild n) ∧
    run Outbox.move (outbox idx s) (m :: ms) = some (outbox idx t)

theorem Evolves.of_mildly {s t : State} {idx : ℕ} {a : Act} (h : Mildly idx s t) :
    Evolves s idx a t := by
  obtain ⟨ms, hm, hr⟩ := h
  exact ⟨.keep, ms, .keep, hm, hr⟩

theorem Evolves.one {s t : State} {idx : ℕ} {a : Act} {m : Outbox.Move Item}
    (ha : Allowed s idx a m) (h : (outbox idx s).move m = some (outbox idx t)) :
    Evolves s idx a t :=
  ⟨m, [], ha, by simp, run_cons_eq_some.mpr ⟨_, h, rfl⟩⟩

theorem Evolves.trans {s t u : State} {idx : ℕ} {a : Act} (h : Evolves s idx a t)
    (h' : Mildly idx t u) : Evolves s idx a u := by
  obtain ⟨m, ms, ha, hm, hr⟩ := h
  obtain ⟨ns, hn, hs⟩ := h'
  refine ⟨m, ms ++ ns, ha, fun n hmem => ?_, ?_⟩
  · obtain h | h := List.mem_append.mp hmem
    · exact hm n h
    · exact hn n h
  · rw [← List.cons_append]
    exact run_append.mpr ⟨_, hr, hs⟩

theorem outbox_init_ne {idx i : ℕ} (h : i ≠ idx) (id cause : Option ℕ) (prot addr port : LuaString)
    (discause : Option ℕ) (s : State) :
    outbox i (init idx id cause prot addr port discause s) = outbox i s := by
  simp [outbox, init, h]

theorem outbox_init (idx : ℕ) (id cause : Option ℕ) (prot addr port : LuaString)
    (discause : Option ℕ) (s : State) :
    outbox idx (init idx id cause prot addr port discause s) =
      { outbox idx s with waiting := [], flying := none } := by
  simp [outbox, init]

/-- A fresh entry for a socket that had none. -/
theorem outbox_init_new {idx : ℕ} {s : State} (h : s.scks idx = none) (i : ℕ)
    (id cause : Option ℕ) (prot addr port : LuaString) (discause : Option ℕ) :
    outbox i (init idx id cause prot addr port discause s) = outbox i s := by
  by_cases hi : i = idx
  · subst hi
    rw [outbox_init]
    simp [outbox, h]
  · exact outbox_init_ne hi id cause prot addr port discause s

/-- The end of a failed connection, and of a socket. -/
theorem resume_resets {s : State} {f : Frame} {idx : ℕ}
    (hf : (∃ id, f = .connected id idx false) ∨ f = .closed idx) :
    outbox idx (resume f s) = { outbox idx s with waiting := [], flying := none } := by
  obtain ⟨id, rfl⟩ | rfl := hf
  · have he : resume (.connected id idx false) s = conrstpara idx false s := rfl
    rw [he, conrstpara, outbox_upd]
    cases hk : s.scks idx <;> simp
  · simp [outbox, resume]

theorem resume_evolves {s : State} {f : Frame} (hf : s.frame = some f) (i : ℕ) :
    Evolves s i .ret (resume f { s with frame := none }) := by
  have mild {t : State} (h : Mildly i { s with frame := none } t) : Evolves s i .ret t := .of_mildly h
  cases f with
  | conack id idx cause => exact mild (conackLoop_mildly id idx cause i _)
  | connected id idx suc =>
      cases suc with
      | true =>
          refine mild ?_
          have hu : Mildly i { s with frame := none } (conrstpara idx true { s with frame := none }) :=
            upd_mildly (by exact fun _ => ⟨rfl, rfl⟩) idx i _
          refine hu.trans ?_
          simp only [resume]
          split
          · rename_i k _ hk
            split
            · rename_i h
              exact sndnxt_mildly hk h.2 i
            · exact .still rfl
          · exact .still rfl
      | false =>
          by_cases hi : i = idx
          · subst hi
            refine .one (.reset (.inr ⟨rfl, .inl ⟨id, hf⟩⟩)) ?_
            rw [resume_resets (.inl ⟨id, rfl⟩)]
            rfl
          · have he : resume (.connected id idx false) { s with frame := none } =
                conrstpara idx false { s with frame := none } := rfl
            rw [he]
            exact mild (.still (outbox_upd_ne hi _ _))
  | sndack id idx suc =>
      refine mild ?_
      simp only [resume]
      split
      · split
        · rename_i k hk
          split
          · rename_i h
            exact sndnxt_mildly (s := { s with frame := none }) hk h.2.1 i
          · exact .still rfl
        · exact .still rfl
      · exact failFirst_mildly idx i _ (.still rfl)
  | flush idx => exact mild (failFirst_mildly idx i _ (.still rfl))
  | closed idx =>
      by_cases hi : i = idx
      · subst hi
        refine .one (.reset (.inr ⟨rfl, .inr hf⟩)) ?_
        rw [resume_resets (.inr rfl)]
        rfl
      · refine mild (.still ?_)
        simp [outbox, resume, hi]
  | lost idx val => exact mild (lostLoop_mildly idx val i _)
  | done => exact mild (.still rfl)

/-- A new entry in place of an old one forgets what waits and flies. -/
theorem init_evolves {s u : State} {idx : ℕ} {a : Act} (hr : Reconnects s idx a)
    (hu : ∀ i, outbox i u = outbox i s) (i : ℕ) (id cause : Option ℕ) (prot addr port : LuaString)
    (discause : Option ℕ) :
    Evolves s i a (init idx id cause prot addr port discause u) := by
  by_cases hi : i = idx
  · subst hi
    refine .one (.reset (.inl hr)) ?_
    rw [outbox_init, hu]
    rfl
  · exact .of_mildly (.still ((outbox_init_ne hi id cause prot addr port discause u).trans (hu i)))

theorem connect_resets {s : State} {idx : ℕ} {k : Sock} {prot addr port : LuaString}
    (hidx : idx ≤ SCK_MAX_CNT) (hk : s.scks idx = some k)
    (hr : (lstate k.id s = lua "CONNECTED" ∧ ¬(k.addr = addr ∧ k.port = port ∧ k.prot = prot)) ∨
      (lstate k.id s ≠ lua "CONNECTED" ∧ (linkConnect k.id prot addr port s).2 = true))
    (cause : Option ℕ) : outbox idx (connect idx prot addr port cause s).1 =
      { outbox idx s with waiting := [], flying := none } := by
  have hmax : ¬¬idx ≤ SCK_MAX_CNT := not_not.mpr hidx
  simp only [connect, if_neg hmax, hk]
  obtain ⟨hc, hn⟩ | ⟨hc, ht⟩ := hr
  · rw [if_pos hc, if_neg hn, outbox_init, outbox_linkDisconnect]
  · have he : linkConnect k.id prot addr port s = ((linkConnect k.id prot addr port s).1, true) :=
      Prod.ext rfl ht
    rw [if_neg hc, he]
    dsimp only
    rw [outbox_init, outbox_linkConnect]

theorem connect_evolves (s : State) (idx : ℕ) (prot addr port : LuaString) (cause : Option ℕ)
    (i : ℕ) : Evolves s i (.connect idx prot addr port cause)
      (connect idx prot addr port cause s).1 := by
  unfold connect
  split
  · exact .of_mildly (.still rfl)
  rename_i hidx
  rw [not_not] at hidx
  split
  · rename_i k hk
    split
    · rename_i hc
      split
      · exact .of_mildly (.still rfl)
      · rename_i hn
        exact init_evolves ⟨prot, addr, port, cause, rfl, hidx, k, hk, .inl ⟨hc, hn⟩⟩
          (fun i => outbox_linkDisconnect i k.id s) i _ _ _ _ _ _
    · rename_i hc
      cases hr : (linkConnect k.id prot addr port s).2 with
      | true =>
          have he : linkConnect k.id prot addr port s =
              ((linkConnect k.id prot addr port s).1, true) := Prod.ext rfl hr
          rw [he]
          exact init_evolves ⟨prot, addr, port, cause, rfl, hidx, k, hk, .inr ⟨hc, hr⟩⟩
            (fun i => outbox_linkConnect i k.id prot addr port s) i _ _ _ _ _ _
      | false =>
          have he : linkConnect k.id prot addr port s =
              ((linkConnect k.id prot addr port s).1, false) := Prod.ext rfl hr
          rw [he]
          exact .of_mildly (.still (outbox_linkConnect i k.id prot addr port s))
  · rename_i hk
    have ho : outbox i (linkConnect (linkOpen s).2 prot addr port (linkOpen s).1).1 = outbox i s :=
      outbox_linkConnect i _ prot addr port (linkOpen s).1
    have hn : (linkConnect (linkOpen s).2 prot addr port (linkOpen s).1).1.scks idx = none := by
      cases (linkOpen s).2 <;> exact hk
    dsimp only
    split
    · rename_i t he
      rw [he] at ho hn
      exact .of_mildly (.still ((outbox_init_new hn i _ _ _ _ _ _).trans ho))
    · rename_i t he
      rw [he] at ho
      exact .of_mildly (.still ho)

theorem outbox_enqueue_ne {i idx : ℕ} (h : i ≠ idx) (item : Item) (pos : Option ℕ) (s : State) :
    outbox i (enqueue idx item pos s) = outbox i s := by
  simp [outbox, enqueue, upd, h]

theorem outbox_enqueue {idx : ℕ} {s : State} {k : Sock} (hk : s.scks idx = some k) (item : Item)
    (pos : Option ℕ) : outbox idx (enqueue idx item pos s) = { outbox idx s with
      waiting := (outbox idx s).waiting.insertIdx
        ((pos.map (· - 1)).getD (outbox idx s).waiting.length) item
      accepted := (outbox idx s).accepted ++ [item] } := by
  simp [outbox, enqueue, upd, hk]

/-- An item is put into the queue of its socket. -/
theorem enqueue_evolves {s u : State} {idx : ℕ} {k : Sock} {data : LuaString} {para : ℕ}
    {pos : Option ℕ} {ins : Bool} (hd : data ≠ []) (hk : u.scks idx = some k) (hu : ∀ i, outbox i u = outbox i s)
    (hs : s.scks idx = some k) (hp : posOk s idx pos) (i : ℕ) :
    Evolves s i (.send idx data para pos ins)
      (enqueue idx ⟨(s.accepted idx).length, data, para, hd⟩ pos u) := by
  by_cases hi : i = idx
  · subst hi
    have hw : (outbox i s).waiting = k.sndpending := by simp [outbox, hs]
    refine .one (.queue data para pos ins _ rfl hd rfl) ?_
    rw [outbox_enqueue hk, hu, Outbox.move, if_pos]
    rw [hw]
    cases pos with
    | none => exact Nat.le_refl _
    | some p =>
        simp only [posOk, hs, decide_eq_true_eq] at hp
        simp only [Option.map_some, Option.getD_some]
        omega
  · exact .of_mildly (.still ((outbox_enqueue_ne hi _ pos u).trans (hu i)))

/-- The history of `send` grows by one entry. -/
theorem outbox_accept (idx : ℕ) (item : Item) (s : State) :
    outbox idx { s with accepted := Function.update s.accepted idx (s.accepted idx ++ [item]) } =
      { outbox idx s with accepted := (outbox idx s).accepted ++ [item] } := by
  simp [outbox]

theorem outbox_accept_ne {i idx : ℕ} (h : i ≠ idx) (item : Item) (s : State) :
    outbox i { s with accepted := Function.update s.accepted idx (s.accepted idx ++ [item]) } =
      outbox i s := by
  simp [outbox, h]

/-- `send` hands the item over at once, and the link takes it. -/
theorem send_direct {s : State} {idx : ℕ} {k : Sock} (hidx : idx ≤ SCK_MAX_CNT)
    (hk : s.scks idx = some k) {data : LuaString} (hd : data ≠ [])
    (hc : lstate k.id s = lua "CONNECTED") (hf : k.sndingitem = none)
    (hw : k.waitingrspitem = none) (hs : (linkSend k.id data s).2 = true) (para : ℕ)
    (pos : Option ℕ) (ins : Bool) :
    (outbox idx s).move (.direct ⟨(s.accepted idx).length, data, para, hd⟩) =
      some (outbox idx (send idx data para pos ins s).1) := by
  have ho := outbox_hand ⟨(s.accepted idx).length, data, para, hd⟩ hk hs
  have hx : checkidx1 idx s = true := by simp [checkidx1, hidx, hk]
  simp only [send, hx, hk, hd, hc, hf, hw, dif_neg, if_false, not_true_eq_false, not_false_eq_true,
    ne_eq, or_self]
  rw [outbox_accept, ho]
  simp [Outbox.move, outbox, hk, hf]

/-- `send` hands the item over at once, and the link refuses it. -/
theorem send_lose {s : State} {idx : ℕ} {k : Sock} (hidx : idx ≤ SCK_MAX_CNT)
    (hk : s.scks idx = some k) {data : LuaString} (hd : data ≠ [])
    (hc : lstate k.id s = lua "CONNECTED") (hf : k.sndingitem = none)
    (hw : k.waitingrspitem = none) (hs : (linkSend k.id data s).2 = false) (para : ℕ)
    (pos : Option ℕ) (ins : Bool) :
    (outbox idx s).move (.lose ⟨(s.accepted idx).length, data, para, hd⟩) =
      some (outbox idx (send idx data para pos ins s).1) := by
  have hr := hand_refused idx ⟨(s.accepted idx).length, data, para, hd⟩ hs
  have hx : checkidx1 idx s = true := by simp [checkidx1, hidx, hk]
  simp only [send, hx, hk, hd, hc, hf, hw, dif_neg, if_false, not_true_eq_false, not_false_eq_true,
    ne_eq, or_self]
  rw [outbox_accept, hr, outbox_linkSend]
  rfl

theorem send_evolves (s : State) (idx : ℕ) (data : LuaString) (para : ℕ) (pos : Option ℕ)
    (ins : Bool) (hp : posOk s idx pos) (i : ℕ) :
    Evolves s i (.send idx data para pos ins) (send idx data para pos ins s).1 := by
  unfold send
  split
  swap
  · exact .of_mildly (.still rfl)
  rename_i k hx hk
  have hidx : idx ≤ SCK_MAX_CNT := by
    simp only [checkidx1, Bool.decide_and, Bool.and_eq_true, decide_eq_true_eq] at hx
    exact hx.1
  split
  · exact .of_mildly (.still rfl)
  rename_i hd
  dsimp only
  split
  · have ho : ∀ i, outbox i (linkConnect k.id k.prot k.addr k.port s).1 = outbox i s :=
      fun i => outbox_linkConnect i _ _ _ _ s
    have hku : (linkConnect k.id k.prot k.addr k.port s).1.scks idx = some k := by
      cases k.id <;> exact hk
    split
    · exact enqueue_evolves hd hku ho hk hp i
    · exact .of_mildly (.still (ho i))
  rename_i hc
  rw [not_not] at hc
  split
  · exact enqueue_evolves hd hk (fun _ => rfl) hk hp i
  rename_i hf
  rw [not_or, not_not, not_not] at hf
  by_cases hi : i = idx
  · subst hi
    cases hs : (linkSend k.id data s).2 with
    | true =>
        have hm := send_direct hidx hk hd hc hf.1 hf.2 hs para pos ins
        simp only [send, hx, hk, hd, hc, hf, dif_neg, not_false_eq_true] at hm
        exact .one (.direct data para pos ins k rfl hidx hd hk hc hf.1 hf.2 hs) hm
    | false =>
        have hm := send_lose hidx hk hd hc hf.1 hf.2 hs para pos ins
        simp only [send, hx, hk, hd, hc, hf, dif_neg, not_false_eq_true] at hm
        exact .one (.lose data para pos ins k rfl hidx hd hk hc hf.1 hf.2 hs) hm
  · refine .of_mildly (.still ?_)
    rw [outbox_accept_ne hi, outbox_hand_ne hi]

theorem setwaitingrspitem_mildly (idx : ℕ) (item : Option LuaString) (i : ℕ) (s : State) :
    Mildly i s (setwaitingrspitem idx item s) := by
  unfold setwaitingrspitem
  split
  · exact .still rfl
  · have hu : Mildly i s (upd idx (fun k => { k with waitingrspitem := item }) s) :=
      upd_mildly (by exact fun _ => ⟨rfl, rfl⟩) idx i s
    refine hu.trans ?_
    split
    · exact rsumscksnd_mildly idx i _
    · exact .still rfl

/-- The state after what `sckrsp` does when a callback of its own returns. -/
def resumed (s : State) : State :=
  match s.frame with
  | some f => resume f { s with frame := none }
  | none => s

/-- A return leads `sckrsp` to its next callback, or to its end and on in `link.lua`. -/
theorem step_ret {s t : State} : step s .ret = some t ↔
    (resumed s).frame ≠ none ∧ t = resumed s ∨
    (resumed s).frame = none ∧ ∃ l, Links.step (resumed s).link .ret = some l ∧
      t = deliver { resumed s with link := l } := by
  have he : step s .ret = if (resumed s).frame.isSome then some (resumed s)
      else (Links.step (resumed s).link .ret).map fun l => deliver { resumed s with link := l } :=
    rfl
  rw [he]
  cases hf : (resumed s).frame with
  | some f =>
      rw [Option.isSome_some, if_pos rfl, Option.some.injEq]
      simp [eq_comm]
  | none =>
      rw [Option.isSome_none, if_neg (by simp), Option.map_eq_some_iff]
      simp [eq_comm, hf]

/-- Each step makes one allowed move in the outbox of a socket, and mild ones after it. -/
theorem step_evolves {s t : State} {a : Act} (h : step s a = some t) (i : ℕ) :
    Evolves s i a t := by
  cases a with
  | create idx prot addr port cause =>
      cases h
      unfold create
      split
      · exact .of_mildly (.still rfl)
      · rename_i hn
        rw [not_or, Option.not_isSome_iff_eq_none] at hn
        exact .of_mildly (.still (outbox_init_new (s := (linkOpen s).1) hn.2 i _ _ _ _ _ _))
  | connect idx prot addr port cause =>
      cases h
      exact connect_evolves s idx prot addr port cause i
  | send idx data para pos ins =>
      obtain ⟨hp, ⟨⟩⟩ := Option.ite_none_right_eq_some.mp h
      exact send_evolves s idx data para pos ins hp i
  | disconnect idx cause =>
      cases h
      unfold disconnect
      split
      · rename_i k _ hk
        refine .of_mildly (.still ?_)
        rw [outbox_linkDisconnect]
        exact outbox_upd_keeps (by exact fun _ => ⟨rfl, rfl⟩) i idx s
      · exact .of_mildly (.still rfl)
  | close idx =>
      cases h
      unfold close
      split
      · exact .of_mildly (.still (outbox_linkClose i _ s))
      · exact .of_mildly (.still rfl)
  | setwaitingrspitem idx item =>
      cases h
      exact .of_mildly (setwaitingrspitem_mildly idx item i s)
  | link a =>
      obtain ⟨-, h⟩ := Option.ite_none_right_eq_some.mp h
      obtain ⟨l, -, rfl⟩ := Option.map_eq_some_iff.mp h
      refine .of_mildly ?_
      split
      · have hd : Mildly i { s with link := l } (deliver { s with link := l }) := deliver_mildly i _
        exact hd
      · exact .still rfl
  | ret =>
      rw [step_ret] at h
      have hr : Evolves s i .ret (resumed s) := by
        cases hf : s.frame with
        | some f =>
            rw [resumed, hf]
            exact resume_evolves hf i
        | none =>
            rw [resumed, hf]
            exact .of_mildly (.still rfl)
      obtain ⟨-, rfl⟩ | ⟨-, l, -, rfl⟩ := h
      · exact hr
      · have hd : Mildly i (resumed s) (deliver { resumed s with link := l }) :=
          deliver_mildly i { resumed s with link := l }
        exact hr.trans hd

end LuatAir200.Sockets
