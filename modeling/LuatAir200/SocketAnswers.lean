import LuatAir200.LinkAttempt
import LuatAir200.SocketConnecting

/-!
# Answers to `connect`

A call of `connect` that has returned true is to be answered by a call of `rsp` for `CONNECT`.
Beside the sockets stands, for each of them, whether a call is unanswered, with the links as
they were when it was made.
-/
namespace LuatAir200.Sockets
open Lua Machine

/-! ## What happens to the links -/

/-- The links change as in a run of `link.lua`. -/
def LinkRun (s t : State) : Prop := ∃ as, run Links.step s.link as = some t.link

theorem LinkRun.of_eq {s t : State} (h : t.link = s.link) : LinkRun s t := ⟨[], by rw [h, run_nil]⟩

theorem LinkRun.trans {s t u : State} (h : LinkRun s t) (h' : LinkRun t u) : LinkRun s u := by
  obtain ⟨as, has⟩ := h
  obtain ⟨bs, hbs⟩ := h'
  exact ⟨as ++ bs, run_append.mpr ⟨t.link, has, hbs⟩⟩

theorem LinkRun.of_step {s t : State} {a : Links.Act Client}
    (h : Links.step s.link a = some t.link) : LinkRun s t :=
  ⟨[a], run_cons_eq_some.mpr ⟨t.link, h, run_nil _⟩⟩

theorem linkRun_linkOpen (s : State) : LinkRun s (linkOpen s).1 :=
  .of_step (a := .openlink .sckrsp false) rfl

theorem linkRun_linkConnect (id : Option ℕ) (prot addr port : LuaString) (s : State) :
    LinkRun s (linkConnect id prot addr port s).1 := by
  cases id with
  | none => exact .of_eq rfl
  | some k => exact .of_step (a := .connect k prot addr port) rfl

theorem linkRun_linkDisconnect (id : Option ℕ) (s : State) :
    LinkRun s (linkDisconnect id s).1 := by
  cases id with
  | none => exact .of_eq rfl
  | some k => exact .of_step (a := .disconnect k) rfl

theorem linkRun_linkClose (id : Option ℕ) (s : State) : LinkRun s (linkClose id s).1 := by
  cases id with
  | none => exact .of_eq rfl
  | some k => exact .of_step (a := .close k) rfl

theorem linkRun_linkSend (id : Option ℕ) (data : LuaString) (s : State) :
    LinkRun s (linkSend id data s).1 := by
  cases id with
  | none => exact .of_eq rfl
  | some k => exact .of_step (a := .send k data) rfl

theorem linkRun_hand (id : Option ℕ) (idx : ℕ) (item : Item) (s : State) :
    LinkRun s (hand id idx item s).1 := by
  have hl := linkRun_linkSend id item.data s
  cases hs : (linkSend id item.data s).2 with
  | false => rwa [hand_refused idx item hs]
  | true =>
      rw [hand_taken idx item hs]
      exact hl.trans (.of_eq rfl)

theorem linkRun_sndnxt (id : Option ℕ) (idx : ℕ) (s : State) : LinkRun s (sndnxt id idx s) := by
  unfold sndnxt
  split
  · rename_i item rest _
    have hh := linkRun_hand id idx item (upd idx (fun k => { k with sndpending := rest }) s)
    have hu : LinkRun s (upd idx (fun k => { k with sndpending := rest }) s) := .of_eq rfl
    split
    · rename_i t he
      rw [he] at hh
      exact hu.trans hh
    · rename_i t he
      rw [he] at hh
      exact (hu.trans hh).trans (.of_eq rfl)
  · exact .of_eq rfl

theorem linkRun_failFirst {idx : ℕ} {f : Frame} {r : State → State} {s : State}
    (hr : LinkRun s (r s)) : LinkRun s (failFirst idx f r s) := by
  unfold failFirst
  split
  · exact .of_eq rfl
  · exact hr

theorem linkRun_conack (id idx : ℕ) (cause : Option ℕ) (suc : Bool) (s : State) :
    LinkRun s (conack id idx cause suc s) := by
  unfold conack
  split
  · exact .of_eq rfl
  · exact linkRun_failFirst (.of_eq rfl)

theorem linkRun_sckrsp (id : ℕ) (evt : Links.Evt) (val : LuaString) (s : State) :
    LinkRun s (sckrsp id evt val s) := by
  unfold sckrsp
  split
  · exact .of_eq rfl
  split
  · exact .of_eq rfl
  rename_i _ idx _ _ k _
  cases evt with
  | connect =>
      simp only
      split
      · have hu : LinkRun s (upd idx (fun k => { k with conretry := k.conretry + 1 }) s) :=
          .of_eq rfl
        rw [if_pos (Nat.le_add_left 1 _)]
        exact hu.trans (linkRun_conack id idx _ false _)
      · exact linkRun_conack id idx _ true s
  | send =>
      simp only
      split
      · rw [if_pos (Nat.le_add_left 1 _)]
        exact .of_eq rfl
      · exact .of_eq rfl
  | disconnect =>
      simp only
      split <;> exact .of_eq rfl
  | close => exact .of_eq rfl
  | state =>
      simp only
      split
      · exact linkRun_failFirst (.of_eq rfl)
      · exact .of_eq rfl

theorem linkRun_deliver (s : State) : LinkRun s (deliver s) := by
  unfold deliver
  split
  · split
    · exact linkRun_sckrsp _ _ _ s
    · exact .of_eq rfl
  · exact .of_eq rfl

theorem linkRun_resume (f : Frame) (s : State) : LinkRun s (resume f s) := by
  cases f with
  | conack id idx cause => exact linkRun_conack id idx cause false s
  | connected id idx suc =>
      have hu : LinkRun s (conrstpara idx suc s) := .of_eq rfl
      refine hu.trans ?_
      simp only [resume]
      split
      · split
        · exact linkRun_sndnxt _ idx _
        · exact .of_eq rfl
      · exact .of_eq rfl
  | sndack id idx suc =>
      simp only [resume]
      split
      · split
        · split
          · exact linkRun_sndnxt _ idx s
          · exact .of_eq rfl
        · exact .of_eq rfl
      · exact linkRun_failFirst (.of_eq rfl)
  | flush idx => exact linkRun_failFirst (r := fun s => s) (.of_eq rfl)
  | closed idx => exact .of_eq rfl
  | lost idx val => exact linkRun_failFirst (.of_eq rfl)
  | done => exact .of_eq rfl

theorem linkRun_connect (idx : ℕ) (prot addr port : LuaString) (cause : Option ℕ) (s : State) :
    LinkRun s (connect idx prot addr port cause s).1 := by
  unfold connect
  split
  · exact .of_eq rfl
  split
  · rename_i k _
    split
    · split
      · exact .of_eq rfl
      · exact (linkRun_linkDisconnect k.id s).trans (.of_eq rfl)
    · have hl := linkRun_linkConnect k.id prot addr port s
      split
      · rename_i t he
        rw [he] at hl
        exact hl.trans (.of_eq rfl)
      · rename_i t he
        rwa [he] at hl
  · have hl := (linkRun_linkOpen s).trans
      (linkRun_linkConnect (linkOpen s).2 prot addr port (linkOpen s).1)
    dsimp only
    split
    · rename_i t he
      rw [he] at hl
      exact hl.trans (.of_eq rfl)
    · rename_i t he
      rwa [he] at hl

theorem linkRun_send (idx : ℕ) (data : LuaString) (para : ℕ) (pos : Option ℕ) (ins : Bool)
    (s : State) : LinkRun s (send idx data para pos ins s).1 := by
  unfold send
  split
  · rename_i k _ _
    split
    · exact .of_eq rfl
    dsimp only
    split
    · have hl := linkRun_linkConnect k.id k.prot k.addr k.port s
      split
      · exact hl.trans (.of_eq rfl)
      · exact hl
    split
    · exact .of_eq rfl
    · exact (linkRun_hand k.id idx _ s).trans (.of_eq rfl)
  · exact .of_eq rfl

theorem linkRun_setwaitingrspitem (idx : ℕ) (item : Option LuaString) (s : State) :
    LinkRun s (setwaitingrspitem idx item s) := by
  unfold setwaitingrspitem
  split
  · exact .of_eq rfl
  have hu : LinkRun s (upd idx (fun k => { k with waitingrspitem := item }) s) := .of_eq rfl
  dsimp only
  split
  · refine hu.trans ?_
    unfold rsumscksnd
    split
    · exact .of_eq rfl
    split
    · exact linkRun_linkConnect _ _ _ _ _
    split
    · exact linkRun_sndnxt _ idx _
    · exact .of_eq rfl
  · exact hu

/-- `socket.lua` uses `link.lua` by its interface: each step is a run of it. -/
theorem step_linkRun {s t : State} {a : Act} (h : step s a = some t) : LinkRun s t := by
  cases a with
  | create idx prot addr port cause =>
      cases h
      unfold create
      split
      · exact .of_eq rfl
      · exact (linkRun_linkOpen s).trans (.of_eq rfl)
  | connect idx prot addr port cause =>
      cases h
      exact linkRun_connect idx prot addr port cause s
  | send idx data para pos ins =>
      obtain ⟨-, ⟨⟩⟩ := Option.ite_none_right_eq_some.mp h
      exact linkRun_send idx data para pos ins s
  | disconnect idx cause =>
      cases h
      unfold disconnect
      split
      · have hu : LinkRun s (upd idx (fun k => { k with discause := cause }) s) := .of_eq rfl
        exact hu.trans (linkRun_linkDisconnect _ _)
      · exact .of_eq rfl
  | close idx =>
      cases h
      unfold close
      split
      · exact linkRun_linkClose _ s
      · exact .of_eq rfl
  | setwaitingrspitem idx item =>
      cases h
      exact linkRun_setwaitingrspitem idx item s
  | link a =>
      obtain ⟨-, h⟩ := Option.ite_none_right_eq_some.mp h
      obtain ⟨l, hl, rfl⟩ := Option.map_eq_some_iff.mp h
      have hr : LinkRun s { s with link := l } := .of_step hl
      split
      · exact hr.trans (linkRun_deliver _)
      · exact hr
  | ret =>
      have hr : LinkRun s (resumed s) := by
        unfold resumed
        split
        · rename_i f _
          have hu : LinkRun s { s with frame := none } := .of_eq rfl
          exact hu.trans (linkRun_resume f _)
        · exact .of_eq rfl
      obtain ⟨-, rfl⟩ | ⟨-, l, hl, rfl⟩ := step_ret.mp h
      · exact hr
      · exact (hr.trans (.of_step hl)).trans (linkRun_deliver _)

/-- A socket keeps its link until it goes. -/
theorem step_sckid {s t : State} {a : Act} {idx id : ℕ} (h : step s a = some t)
    (hid : sckid idx s = some id) : sckid idx t = some id ∨ sckid idx t = none := by
  have kept {u : State} (hu : ∀ i, sckid i u = sckid i s) : sckid idx u = some id ∨
      sckid idx u = none := .inl ((hu idx).trans hid)
  have keeps {u : State} {j : ℕ} {m : Option ℕ} (cause : Option ℕ) (prot addr port : LuaString)
      (discause : Option ℕ) (hu : ∀ i, sckid i u = sckid i s)
      (hm : sckid j s = none ∨ sckid j s = m) :
      sckid idx (init j m cause prot addr port discause u) = some id ∨
        sckid idx (init j m cause prot addr port discause u) = none := by
    left
    rw [sckid_init]
    split
    · rename_i he
      subst he
      obtain hn | hm := hm
      · rw [hn] at hid
        cases hid
      · exact hm.symm.trans hid
    · exact (hu idx).trans hid
  cases a with
  | create j prot addr port cause =>
      cases h
      unfold create
      split
      · exact .inl hid
      · rename_i hn
        rw [not_or, Option.not_isSome_iff_eq_none] at hn
        exact keeps cause prot addr port none (fun _ => rfl) (.inl (by simp [sckid, hn.2]))
  | connect j prot addr port cause =>
      cases h
      unfold connect
      split
      · exact .inl hid
      split
      · rename_i k hk
        have hm : sckid j s = none ∨ sckid j s = k.id := .inr (by simp [sckid, hk])
        split
        · split
          · exact .inl hid
          · exact keeps cause prot addr port _ (by intro i; cases k.id <;> rfl) hm
        · have hs := steady_linkConnect k.id prot addr port s
          split
          · rename_i t he
            rw [he] at hs
            exact keeps cause prot addr port none hs.ids hm
          · rename_i t he
            rw [he] at hs
            exact kept hs.ids
      · rename_i hk
        have hs := (steady_linkOpen s).trans (steady_linkConnect (linkOpen s).2 prot addr port _)
        dsimp only
        split
        · rename_i t he
          rw [he] at hs
          exact keeps cause prot addr port none hs.ids (.inl (by simp [sckid, hk]))
        · rename_i t he
          rw [he] at hs
          exact kept hs.ids
  | send j data para pos ins =>
      obtain ⟨-, ⟨⟩⟩ := Option.ite_none_right_eq_some.mp h
      exact kept (steady_send j data para pos ins s).1.ids
  | disconnect j cause =>
      cases h
      unfold disconnect
      split
      · rename_i k _ _
        have hu := fun i => sckid_upd (f := fun k => { k with discause := cause })
          (fun _ => rfl) j i s
        exact kept fun i => (show _ = sckid i s by rw [← hu i]; cases k.id <;> rfl)
      · exact .inl hid
  | close j =>
      cases h
      unfold close
      split
      · rename_i k _ _
        exact kept fun i => by cases k.id <;> rfl
      · exact .inl hid
  | setwaitingrspitem j item =>
      cases h
      exact kept (steady_setwaitingrspitem j item s).1.ids
  | link a =>
      obtain ⟨-, h⟩ := Option.ite_none_right_eq_some.mp h
      obtain ⟨l, hl, rfl⟩ := Option.map_eq_some_iff.mp h
      split
      · exact kept (steady_deliver { s with link := l }).ids
      · exact .inl hid
  | ret =>
      by_cases hc : s.frame = some (.closed idx)
      · have hr : sckid idx (resumed s) = none := by simp [resumed, hc, resume, sckid]
        obtain ⟨-, rfl⟩ | ⟨-, l, -, rfl⟩ := step_ret.mp h
        · exact .inr hr
        · exact .inr (((steady_deliver { resumed s with link := l }).ids idx).trans hr)
      · have hr := sckid_resumed hc
        obtain ⟨-, rfl⟩ | ⟨-, l, -, rfl⟩ := step_ret.mp h
        · exact .inl (hr.trans hid)
        · exact .inl ((((steady_deliver { resumed s with link := l }).ids idx).trans hr).trans hid)

/-! ## Unanswered calls -/

structure Watched where
  sock : State
  /-- For each socket, the links as they were at its call of `connect` that is unanswered. -/
  asked : ℕ → Option LinkState

def start : Watched := ⟨boot, fun _ => none⟩

/-- The socket is connected to this server. -/
def connectedTo (idx : ℕ) (prot addr port : LuaString) (s : State) : Bool :=
  match s.scks idx with
  | some k => lstate k.id s = lua "CONNECTED" ∧ k.addr = addr ∧ k.port = port ∧ k.prot = prot
  | none => false

/-- The socket is connected to another server. -/
def connectedElsewhere (idx : ℕ) (prot addr port : LuaString) (s : State) : Bool :=
  match s.scks idx with
  | some k => lstate k.id s = lua "CONNECTED" ∧ ¬(k.addr = addr ∧ k.port = port ∧ k.prot = prot)
  | none => false

/-- The step calls `rsp(idx,"CONNECT",...)`. -/
def answered (idx : ℕ) (s t : State) : Bool :=
  (t.calls.drop s.calls.length).any fun c => match c with
    | .connect i _ _ => i = idx
    | _ => false

/-- The unanswered calls after a step. -/
def watch (w : Watched) (a : Act) (t : State) (idx : ℕ) : Option LinkState :=
  let still := if answered idx w.sock t then none else w.asked idx
  match a with
  | .connect i prot addr port cause =>
      if i = idx ∧ (connect i prot addr port cause w.sock).2 ∧ !connectedTo i prot addr port w.sock then
        some w.sock.link
      else still
  | .disconnect i _ => if i = idx then none else still
  | .close i => if i = idx then none else still
  | _ => still

def wstep (w : Watched) (a : Act) : Option Watched :=
  (step w.sock a).map fun t => ⟨t, watch w a t⟩

/-- The answer to the unanswered call is due. -/
def Promised (w : Watched) : Prop := ∀ idx b, w.asked idx = some b →
  (∃ id, sckid idx w.sock = some id ∧ Links.Attempting b id w.sock.link) ∨ Failing idx w.sock

/-- No socket is connected to another server by `connect`, and no socket that waits for an
answer is shut down, or loses its link by something else than a call for it. -/
structure Heeds (w : Watched) (a : Act) : Prop where
  other : ∀ idx prot addr port cause, a = .connect idx prot addr port cause →
    connectedElsewhere idx prot addr port w.sock = false
  shut : ∀ idx, w.asked idx ≠ none → ¬Shut w.sock a idx
  quits : ∀ idx, w.asked idx ≠ none → Quits w.sock a idx →
    a = .close idx ∨ ∃ cause, a = .disconnect idx cause

theorem answered_of_calls {idx : ℕ} {s t : State} {suc : Bool} {cause : Option ℕ}
    (h : Calls s t (.connect idx suc cause)) : answered idx s t = true := by
  simp [answered, show t.calls = _ from h]

/-- A call is unanswered after a step if it was so before, or if the step makes it. -/
theorem watch_cases {w : Watched} {a : Act} {t : State} {idx : ℕ} {b : LinkState}
    (h : watch w a t idx = some b) :
    w.asked idx = some b ∧ answered idx w.sock t = false ∧
        ¬(a = .close idx ∨ ∃ cause, a = .disconnect idx cause) ∨
      b = w.sock.link ∧ ∃ prot addr port cause, a = .connect idx prot addr port cause ∧
        (connect idx prot addr port cause w.sock).2 = true ∧
        connectedTo idx prot addr port w.sock = false := by
  have still (h : (if answered idx w.sock t then none else w.asked idx) = some b) :
      w.asked idx = some b ∧ answered idx w.sock t = false := by
    obtain ⟨hn, hb⟩ := Option.ite_none_left_eq_some.mp h
    exact ⟨hb, Bool.eq_false_iff.mpr hn⟩
  cases a with
  | connect i prot addr port cause =>
      simp only [watch] at h
      split at h
      · rename_i hc
        obtain ⟨rfl, hr, hn⟩ := hc
        cases h
        exact .inr ⟨rfl, prot, addr, port, cause, rfl, hr, by simpa using hn⟩
      · exact .inl ⟨(still h).1, (still h).2, by simp⟩
  | disconnect i cause =>
      obtain ⟨hi, h⟩ := Option.ite_none_left_eq_some.mp h
      exact .inl ⟨(still h).1, (still h).2, by simpa using hi⟩
  | close i =>
      obtain ⟨hi, h⟩ := Option.ite_none_left_eq_some.mp h
      exact .inl ⟨(still h).1, (still h).2, by simpa using hi⟩
  | _ => exact .inl ⟨(still h).1, (still h).2, by simp⟩

/-! ## A call of `connect` -/

theorem linkConnect_not_waits {id : ℕ} {prot addr port : LuaString} {s : State}
    (h : (linkConnect (some id) prot addr port s).2 = true) : ¬Links.Waits id s.link := by
  rintro ⟨l, hl, hc⟩
  obtain he | ⟨k, hv, hk, -⟩ := Links.connect_cases id prot addr port s.link
  · simp only [linkConnect, he] at h
    cases h
  · rw [Links.validaction, hl] at hv
    simp only [hc] at hv
    revert hv
    decide

/-- After a call that has returned true the socket waits, for an attempt that the call has made. -/
theorem connect_asked {idx : ℕ} {prot addr port : LuaString} {cause : Option ℕ} {s : State}
    (h : (connect idx prot addr port cause s).2 = true)
    (hsame : connectedTo idx prot addr port s = false)
    (hother : connectedElsewhere idx prot addr port s = false) :
    ∃ id, sckid idx (connect idx prot addr port cause s).1 = some id ∧
      Links.Waits id (connect idx prot addr port cause s).1.link ∧ ¬Links.Waits id s.link := by
  have taken {m : Option ℕ} {u : State} (hr : (linkConnect m prot addr port u).2 = true)
      (hu : ∀ id, m = some id → Links.Waits id s.link → Links.Waits id u.link) :
      ∃ id, sckid idx (init idx m cause prot addr port none (linkConnect m prot addr port u).1) =
          some id ∧
        Links.Waits id (init idx m cause prot addr port none
          (linkConnect m prot addr port u).1).link ∧ ¬Links.Waits id s.link := by
    cases m with
    | none => cases hr
    | some id =>
        exact ⟨id, by rw [sckid_init, if_pos rfl], Links.connect_waits hr,
          fun hw => linkConnect_not_waits hr (hu id rfl hw)⟩
  unfold connect at h ⊢
  split at h
  · cases h
  rename_i hidx
  rw [if_neg hidx]
  cases hk : s.scks idx with
  | some k =>
      simp only [connectedTo, connectedElsewhere, hk, decide_eq_false_iff_not] at hsame hother
      have hn : lstate k.id s ≠ lua "CONNECTED" := fun hc => hother ⟨hc, fun h => hsame ⟨hc, h⟩⟩
      simp only [hk, hn, if_false] at h ⊢
      cases hr : (linkConnect k.id prot addr port s).2 with
      | true =>
          rw [show linkConnect k.id prot addr port s =
            ((linkConnect k.id prot addr port s).1, true) from Prod.ext rfl hr]
          exact taken hr fun _ _ hw => hw
      | false =>
          rw [show linkConnect k.id prot addr port s =
            ((linkConnect k.id prot addr port s).1, false) from Prod.ext rfl hr] at h
          cases h
  | none =>
      simp only [hk] at h ⊢
      cases hr : (linkConnect (linkOpen s).2 prot addr port (linkOpen s).1).2 with
      | true =>
          rw [show linkConnect (linkOpen s).2 prot addr port (linkOpen s).1 =
            ((linkConnect (linkOpen s).2 prot addr port (linkOpen s).1).1, true) from
              Prod.ext rfl hr]
          exact taken hr fun _ _ hw => hw.openlink .sckrsp false
      | false =>
          rw [show linkConnect (linkOpen s).2 prot addr port (linkOpen s).1 =
            ((linkConnect (linkOpen s).2 prot addr port (linkOpen s).1).1, false) from
              Prod.ext rfl hr] at h
          cases h

/-! ## Runs -/

structure Watching (w : Watched) : Prop where
  wired : Wired w.sock
  fresh : ∀ idx b, w.asked idx = some b → ∀ id, sckid idx w.sock = some id →
    Links.Fresh b id w.sock.link

theorem start_watching : Watching start := ⟨boot_wired, fun _ _ h => by cases h⟩

theorem LinkRun.fresh {s t : State} (h : LinkRun s t) (hs : Links.Shape s.link) {b : LinkState}
    {id : ℕ} (hf : Links.Fresh b id s.link) : Links.Fresh b id t.link := by
  obtain ⟨as, has⟩ := h
  refine (invariant_run (P := fun l => Links.Shape l ∧ Links.Fresh b id l) ?_ ⟨hs, hf⟩ has).2
  exact fun l a l' hl h => ⟨Links.step_shape l a l' hl.1 h, Links.step_fresh hl.1 hl.2 h⟩

theorem step_watching {w v : Watched} {a : Act} (hw : Watching w) (hp : Promised w)
    (ha : a.numbered) (hk : Heeds w a) (h : wstep w a = some v) : Watching v := by
  obtain ⟨t, ht, rfl⟩ := Option.map_eq_some_iff.mp h
  refine ⟨step_wired w.sock a t ha hw.wired ht, fun idx b hb id hid => ?_⟩
  apply (step_linkRun ht).fresh hw.wired.shape
  obtain ⟨hb, -, -⟩ | ⟨rfl, prot, addr, port, cause, rfl, hr, hsame⟩ := watch_cases hb
  · obtain ⟨k, hk⟩ : ∃ k, sckid idx w.sock = some k := by
      obtain ⟨k, hk, -⟩ | ⟨k, c, hf⟩ := hp idx b hb
      · exact ⟨k, hk⟩
      · exact ⟨k, hw.wired.at_ _ idx k hf rfl⟩
    obtain hk' | hk' := step_sckid ht hk
    · obtain rfl : k = id := Option.some.inj (hk'.symm.trans hid)
      exact hw.fresh idx b hb k hk
    · rw [hk'] at hid
      cases hid
  · cases ht
    obtain ⟨k, hk', -, hn⟩ := connect_asked hr hsame (hk.other idx prot addr port cause rfl)
    obtain rfl : k = id := Option.some.inj (hk'.symm.trans hid)
    exact Links.fresh_self hn

theorem step_promised {w v : Watched} {a : Act} (hw : Watching w) (hp : Promised w)
    (hk : Heeds w a) (hv : Watching v) (h : wstep w a = some v) : Promised v := by
  obtain ⟨t, ht, rfl⟩ := Option.map_eq_some_iff.mp h
  intro idx b hb
  have attempting {id : ℕ} (hid : sckid idx t = some id) (hwt : Links.Waits id t.link) :
      Links.Attempting b id t.link := ⟨hwt, (hv.fresh idx b hb id hid).underway hwt⟩
  obtain ⟨hb, hn, hown⟩ | ⟨rfl, prot, addr, port, cause, rfl, hr, hsame⟩ := watch_cases hb
  · have hd : Due idx w.sock :=
      (hp idx b hb).imp_left fun ⟨id, hid, hwt, _⟩ => ⟨id, hid, hwt⟩
    have hb' : w.asked idx ≠ none := by simp [hb]
    obtain hd | (⟨suc, cause, hc⟩ | ⟨hs, -⟩) | hq := step_endsIf hw.wired ht hd
    · exact hd.imp_left fun ⟨id, hid, hwt⟩ => ⟨id, hid, attempting hid hwt⟩
    · rw [answered_of_calls hc] at hn
      cases hn
    · exact absurd hs (hk.shut idx hb')
    · exact absurd (hk.quits idx hb' hq) hown
  · cases ht
    obtain ⟨id, hid, hwt, -⟩ := connect_asked hr hsame (hk.other idx prot addr port cause rfl)
    exact .inl ⟨id, hid, attempting hid hwt⟩

/-- Every call of `connect` that has returned true is answered, or its answer is due. -/
theorem connect_answered {as : List Act} (hn : ∀ a ∈ as, a.numbered)
    (hm : Meets wstep Heeds start as) : Along wstep Promised start as := by
  have hs : Watching start ∧ Promised start := ⟨start_watching, fun _ _ h => by cases h⟩
  have hm := hm.and (meets_of_forall (G := fun _ a => a.numbered) (fun a ha _ => hn a ha) start)
  refine (along_of_meets (I := fun _ => True)
    (P := fun w => Watching w ∧ Promised w) (fun _ _ _ _ _ => trivial) ?_ trivial hs hm).imp
    fun _ h => h.2
  intro w a v _ hp hg h
  have hv := step_watching hp.1 hp.2 hg.2 hg.1 h
  exact ⟨hv, step_promised hp.1 hp.2 hg.1 hv h⟩

theorem connect_answered_parked : Along wstep Promised start
    [.connect 1 (lua "TCP") (lua "a.b") (lua "80") none,
      .link (.urc (lua "0, CONNECT OK")), .ret] := by
  refine connect_answered (by simp [Act.numbered]) ?_
  intro u hu
  refine ⟨⟨fun _ _ _ _ _ _ => rfl, fun _ h => absurd rfl h, fun _ h => absurd rfl h⟩, ?_⟩
  intro v hv
  refine ⟨⟨fun _ _ _ _ _ h => (by cases h), ?_, ?_⟩, ?_⟩
  · rintro idx - ⟨id, -, h⟩
    cases h
  · rintro idx - (⟨id, -, ⟨j, -, h | ⟨c, h⟩⟩ | h | h⟩ | ⟨h, -⟩) <;> cases h
  intro w hw
  refine ⟨⟨fun _ _ _ _ _ h => by (cases h), ?_, ?_⟩, trivial⟩
  · have hs : (wstep start (.connect 1 (lua "TCP") (lua "a.b") (lua "80") none)).bind
        (fun u => (wstep u (.link (.urc (lua "0, CONNECT OK")))).map fun v => shuts v.sock .ret) =
          some none := by
      decide +kernel
    rw [hu, Option.bind_some, hv, Option.map_some, Option.some.injEq] at hs
    rintro idx - ⟨id, -, h⟩
    rw [hs] at h
    cases h
  · have hf : (wstep start (.connect 1 (lua "TCP") (lua "a.b") (lua "80") none)).bind
        (fun u => (wstep u (.link (.urc (lua "0, CONNECT OK")))).map fun v => v.sock.frame) =
          some (some (.connected 0 1 true)) := by
      decide +kernel
    rw [hu, Option.bind_some, hv, Option.map_some, Option.some.injEq] at hf
    rintro idx - (⟨id, -, ⟨j, -, h | ⟨c, h⟩⟩ | h | h⟩ | ⟨-, h⟩)
    · cases h
    · cases h
    · cases h
    · cases h
    · rw [hf] at h
      cases h

/-- A call that changes the server disconnects, and nothing connects again. -/
theorem changed_server_unanswered : ∃ w v : Watched,
    run wstep start [.connect 1 (lua "TCP") (lua "a.b") (lua "80") none,
      .link (.urc (lua "STATE: IP STATUS")), .link .sendat, .link (.respond true (lua "OK") none),
      .link (.urc (lua "0, CONNECT OK")), .ret] = some w ∧
    (connect 1 (lua "TCP") (lua "c.d") (lua "80") none w.sock).2 = true ∧
    connectedTo 1 (lua "TCP") (lua "c.d") (lua "80") w.sock = false ∧
    run wstep w [.connect 1 (lua "TCP") (lua "c.d") (lua "80") none, .link .sendat,
      .link (.respond true (lua "0, CLOSE OK") none), .ret] = some v ∧
    v.sock.calls = [.connect 1 true none, .disconnect 1 none] ∧ ¬Promised v := by
  have h : (run wstep start [.connect 1 (lua "TCP") (lua "a.b") (lua "80") none,
      .link (.urc (lua "STATE: IP STATUS")), .link .sendat, .link (.respond true (lua "OK") none),
      .link (.urc (lua "0, CONNECT OK")), .ret]).bind (fun w =>
        (run wstep w [.connect 1 (lua "TCP") (lua "c.d") (lua "80") none, .link .sendat,
          .link (.respond true (lua "0, CLOSE OK") none), .ret]).map fun v =>
            ((connect 1 (lua "TCP") (lua "c.d") (lua "80") none w.sock).2 &&
              !connectedTo 1 (lua "TCP") (lua "c.d") (lua "80") w.sock && (v.asked 1).isSome &&
              v.sock.frame.isNone,
              v.sock.calls, sckid 1 v.sock, (v.sock.link.linklist 0).map Links.Link.state)) =
      some (true, [.connect 1 true none, .disconnect 1 none], some 0, some .closed) := by
    decide +kernel
  obtain ⟨w, hw, h⟩ := Option.bind_eq_some_iff.mp h
  obtain ⟨v, hv, h⟩ := Option.map_eq_some_iff.mp h
  simp only [Prod.mk.injEq, Bool.and_eq_true, Bool.not_eq_true', Option.isNone_iff_eq_none] at h
  obtain ⟨⟨⟨⟨hr, hc⟩, hasked⟩, hf⟩, hcalls, hid, hst⟩ := h
  refine ⟨w, v, hw, hr, hc, hv, hcalls, fun hp => ?_⟩
  obtain ⟨b, hb⟩ := Option.isSome_iff_exists.mp hasked
  obtain ⟨id, hid', ⟨l, hl, hls⟩, -⟩ | ⟨id, cause, hf'⟩ := hp 1 b hb
  · obtain rfl : 0 = id := Option.some.inj (hid.symm.trans hid')
    rw [hl, Option.map_some, Option.some.injEq, hls] at hst
    cases hst
  · rw [hf] at hf'
    cases hf'

end LuatAir200.Sockets
