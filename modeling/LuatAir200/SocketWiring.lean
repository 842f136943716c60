import LuatAir200.LinkNotice
import LuatAir200.SocketOrder

/-!
# Sockets and their links

Each socket has a link of its own that tells `sckrsp`, and what a socket is
sending has its `AT+CIPSEND` queued or outstanding. The entry of a socket whose
`CLOSE` callback is being run is an exception: its link is free already.
-/
namespace LuatAir200.Sockets
open Lua Machine

/-- The link id of a socket. -/
def sckid (idx : ℕ) (s : State) : Option ℕ := (s.scks idx).bind Sock.id

/-- The link belongs to the socket module. -/
def Owned (id : ℕ) (l : LinkState) : Prop :=
  ∃ k, l.linklist id = some k ∧ k.notify = .sckrsp

/-- The socket whose entry goes when the callback returns. -/
def leaving : Option Frame → Option ℕ
  | some (.closed idx) => some idx
  | _ => none

/-- The socket and the link that the rest of `sckrsp` is about to use. -/
def Frame.at? : Frame → Option (ℕ × ℕ)
  | .conack id idx _ => some (idx, id)
  | .connected id idx _ => some (idx, id)
  | .sndack id idx _ => some (idx, id)
  | .flush _ | .closed _ | .lost _ _ | .done => none

structure Wired (s : State) : Prop where
  shape : Links.Shape s.link
  frame : s.frame ≠ none → s.link.frame ≠ none
  at_ : ∀ f idx id, s.frame = some f → f.at? = some (idx, id) → sckid idx s = some id
  range : ∀ idx id, sckid idx s = some id → 1 ≤ idx ∧ idx ≤ SCK_MAX_CNT
  owned : ∀ idx id, sckid idx s = some id → leaving s.frame ≠ some idx → Owned id s.link
  inj : ∀ i j id, sckid i s = some id → sckid j s = some id → leaving s.frame ≠ some i →
    leaving s.frame ≠ some j → i = j
  flying : ∀ idx x, (outbox idx s).flying = some x →
    ∃ id, sckid idx s = some id ∧ Links.Sends id x.data s.link

theorem boot_wired : Wired boot where
  shape := Links.boot_shape
  frame := fun h => absurd rfl h
  at_ := nofun
  range := nofun
  owned := nofun
  inj := nofun
  flying := nofun

/-! ## Changes that keep the wiring -/

/-- No socket changes its link, no link of a socket goes, and what a socket is sending
it was sending before or has an `AT+CIPSEND`. -/
structure Kept (s t : State) : Prop where
  shape : Links.Shape t.link
  owned : ∀ id, Owned id s.link → Owned id t.link
  sends : ∀ id data, data ≠ [] → Links.Sends id data s.link → Links.Sends id data t.link
  ids : ∀ idx, sckid idx t = sckid idx s
  flying : ∀ idx x, (outbox idx t).flying = some x → (outbox idx s).flying = some x ∨
    ∃ id, sckid idx t = some id ∧ Links.Sends id x.data t.link

structure Tame (s t : State) : Prop where
  kept : Links.Shape s.link → Kept s t
  frame : t.link.frame = s.link.frame

theorem Kept.trans {s t u : State} (h : Kept s t) (h' : Kept t u) : Kept s u where
  shape := h'.shape
  owned id hid := h'.owned id (h.owned id hid)
  sends id data hd hs := h'.sends id data hd (h.sends id data hd hs)
  ids idx := (h'.ids idx).trans (h.ids idx)
  flying idx x hx := by
    obtain hx | hx := h'.flying idx x hx
    · obtain hx | ⟨id, hid, hx⟩ := h.flying idx x hx
      · exact .inl hx
      · exact .inr ⟨id, (h'.ids idx).trans hid, h'.sends id x.data x.nonempty hx⟩
    · exact .inr hx

theorem Tame.trans {s t u : State} (h : Tame s t) (h' : Tame t u) : Tame s u where
  kept hs := (h.kept hs).trans (h'.kept (h.kept hs).shape)
  frame := h'.frame.trans h.frame

/-- The sockets change, and the links do not. -/
theorem Tame.of_scks {s t : State} (hl : t.link = s.link) (hi : ∀ idx, sckid idx t = sckid idx s)
    (hf : ∀ idx x, (outbox idx t).flying = some x → (outbox idx s).flying = some x) : Tame s t where
  kept hs :=
    { shape := hl ▸ hs
      owned := fun id h => hl ▸ h
      sends := fun id data _ h => hl ▸ h
      ids := hi
      flying := fun idx x hx => .inl (hf idx x hx) }
  frame := by rw [hl]

theorem Tame.refl (s : State) : Tame s s := .of_scks rfl (fun _ => rfl) fun _ _ => id

/-- The links change by an action that frees none and answers no `AT+CIPSEND`. -/
theorem Kept.of_link {s : State} {a : Links.Act Client} {l : LinkState}
    (h : Links.step s.link a = some l) (hc : Links.closeOf s.link a = none)
    (hn : ∀ id, ¬Links.Answers s.link a id) (hs : Links.Shape s.link) :
    Kept s { s with link := l } where
  shape := Links.step_shape s.link a l hs h
  owned id := by
    rintro ⟨k, hk, hn⟩
    obtain ⟨m, hm, hmn⟩ | ⟨hcl, -⟩ := Links.step_link hs hk h
    · exact ⟨m, hm, hmn.trans hn⟩
    · rw [hc] at hcl
      cases hcl
  sends id data hd := Links.step_sends hs hd (hn id) h
  ids idx := rfl
  flying idx x hx := .inl hx

/-- A call of the interface of `link.lua`. -/
def isCall : Links.Act Client → Bool
  | .openlink _ _ | .close _ | .connect _ _ _ _ | .disconnect _ | .send _ _ => true
  | _ => false

theorem Tame.of_call {s : State} {a : Links.Act Client} {l : LinkState} (ha : isCall a = true)
    (h : Links.step s.link a = some l) : Tame s { s with link := l } where
  kept hs := by
    refine .of_link h ?_ ?_ hs
    · cases a <;> first | rfl | cases ha
    · rintro id ⟨_, _, _, _, _, rfl, -⟩
      cases ha
  frame := by
    cases a with
    | openlink | close | connect | disconnect | send =>
        cases h
        simp
    | _ => cases ha

theorem tame_linkOpen (s : State) : Tame s (linkOpen s).1 :=
  .of_call (a := .openlink .sckrsp false) rfl rfl

theorem tame_linkConnect (id : Option ℕ) (prot addr port : LuaString) (s : State) :
    Tame s (linkConnect id prot addr port s).1 := by
  cases id with
  | none => exact .refl s
  | some id => exact .of_call (a := .connect id prot addr port) rfl rfl

theorem tame_linkDisconnect (id : Option ℕ) (s : State) : Tame s (linkDisconnect id s).1 := by
  cases id with
  | none => exact .refl s
  | some id => exact .of_call (a := .disconnect id) rfl rfl

theorem tame_linkClose (id : Option ℕ) (s : State) : Tame s (linkClose id s).1 := by
  cases id with
  | none => exact .refl s
  | some id => exact .of_call (a := .close id) rfl rfl

theorem tame_linkSend (id : Option ℕ) (data : LuaString) (s : State) :
    Tame s (linkSend id data s).1 := by
  cases id with
  | none => exact .refl s
  | some id => exact .of_call (a := .send id data) rfl rfl

/-- `f` keeps the link id, and what is being sent if it does not clear it. -/
def Gentle (f : Sock → Sock) : Prop :=
  ∀ k, (f k).id = k.id ∧ ((f k).sndingitem = none ∨ (f k).sndingitem = k.sndingitem)

theorem sckid_upd {f : Sock → Sock} (hf : ∀ k, (f k).id = k.id) (idx i : ℕ) (s : State) :
    sckid i (upd idx f s) = sckid i s := by
  by_cases hi : i = idx
  · subst hi
    cases hk : s.scks i <;> simp [sckid, upd, hk, hf]
  · simp [sckid, upd, hi]

theorem tame_upd {f : Sock → Sock} (hf : Gentle f) (idx : ℕ) (s : State) : Tame s (upd idx f s) := by
  refine .of_scks rfl (fun i => sckid_upd (fun k => (hf k).1) idx i s) fun i x hx => ?_
  by_cases hi : i = idx
  · subst hi
    rw [outbox_upd] at hx
    cases hk : s.scks i with
    | none => simp [hk] at hx
    | some k =>
        simp only [hk, Option.bind_some] at hx
        simp only [outbox, hk, Option.bind_some]
        obtain h | h := (hf k).2
        · rw [h] at hx
          cases hx
        · exact h ▸ hx
  · rwa [outbox_upd_ne hi] at hx

theorem tame_call (c : Call) (f : Frame) (s : State) : Tame s (call c f s) := by
  refine .of_scks rfl (fun _ => rfl) fun i x hx => ?_
  rwa [outbox_call] at hx

/-! ## Sending -/

/-- Data that `link.send` has taken has an `AT+CIPSEND`. -/
theorem linkSend_sends {id : Option ℕ} {data : LuaString} {s : State}
    (h : (linkSend id data s).2 = true) :
    ∃ i, id = some i ∧ Links.Sends i data (linkSend id data s).1.link := by
  cases id with
  | none => cases h
  | some i =>
      refine ⟨i, rfl, ?_⟩
      obtain he | ⟨l, -, -, -, he⟩ := Links.send_cases i data s.link
      · simp [linkSend, he] at h
      · simp [linkSend, he, Links.Sends, Links.req]

theorem tame_hand {idx : ℕ} {id : Option ℕ} {s : State} (hid : sckid idx s = id) (item : Item) :
    Tame s (hand id idx item s).1 := by
  cases hs : (linkSend id item.data s).2 with
  | false =>
      rw [hand_refused idx item hs]
      exact tame_linkSend id item.data s
  | true =>
      have hl := tame_linkSend id item.data s
      obtain ⟨i, hi, hq⟩ := linkSend_sends hs
      have hids (j : ℕ) : sckid j (hand id idx item s).1 = sckid j (linkSend id item.data s).1 := by
        rw [hand_taken idx item hs]
        exact sckid_upd (f := fun k => { k with sndingitem := some item }) (fun _ => rfl) idx j _
      have hlink : (hand id idx item s).1.link = (linkSend id item.data s).1.link := by
        rw [hand_taken idx item hs]
        rfl
      constructor
      · intro hsh
        have hk := hl.kept hsh
        refine ⟨hlink ▸ hk.shape, fun j hj => hlink ▸ hk.owned j hj,
          fun j data hd hj => hlink ▸ hk.sends j data hd hj, fun j => (hids j).trans (hk.ids j), ?_⟩
        intro j x hx
        by_cases hj : j = idx
        · subst hj
          have hji : sckid j s = some i := hid.trans hi
          have hsck : s.scks j ≠ none := by
            intro hn
            simp [sckid, hn] at hji
          obtain ⟨k, hsk⟩ := Option.ne_none_iff_exists'.mp hsck
          rw [outbox_hand item hsk hs] at hx
          cases hx
          exact .inr ⟨i, ((hids j).trans (hk.ids j)).trans hji, hlink ▸ hq⟩
        · rw [outbox_hand_ne hj] at hx
          exact .inl hx
      · rw [hlink]
        exact hl.frame

theorem tame_sndnxt {idx : ℕ} {id : Option ℕ} {s : State} (hid : sckid idx s = id) :
    Tame s (sndnxt id idx s) := by
  cases hk : s.scks idx with
  | none =>
      simp only [sndnxt, hk, Option.map_none]
      exact .refl s
  | some k =>
      cases hp : k.sndpending with
      | nil =>
          simp only [sndnxt, hk, Option.map_some, hp]
          exact .refl s
      | cons item rest =>
          have hr : Tame s (removed idx rest s) := tame_upd (by exact fun _ => ⟨rfl, .inr rfl⟩) idx s
          have hidr : sckid idx (removed idx rest s) = id :=
            (sckid_upd (by exact fun _ => rfl) idx idx s).trans hid
          cases hs : (linkSend id item.data (removed idx rest s)).2 with
          | true =>
              rw [sndnxt_taken hk hp hs]
              exact hr.trans (tame_hand hidr item)
          | false =>
              rw [sndnxt_refused hk hp hs]
              refine (hr.trans (tame_linkSend id item.data _)).trans ?_
              exact tame_upd (by exact fun _ => ⟨rfl, .inr rfl⟩) idx _

/-! ## The handler of link events -/

/-- A tame change after which the event goes on for socket and link `p`, or is over. -/
structure Goes (p : Option (ℕ × ℕ)) (s t : State) : Prop where
  tame : Tame s t
  frame : t.frame = s.frame ∨ ∃ f, t.frame = some f ∧ (f.at? = none ∨ f.at? = p)

theorem Goes.after {p : Option (ℕ × ℕ)} {s t u : State} (h : Tame s t) (hf : t.frame = s.frame)
    (h' : Goes p t u) : Goes p s u where
  tame := h.trans h'.tame
  frame := h'.frame.imp_left fun he => he.trans hf

theorem Goes.of_tame {p : Option (ℕ × ℕ)} {s t : State} (h : Tame s t) (hf : t.frame = s.frame) :
    Goes p s t := ⟨h, .inl hf⟩

theorem goes_call {p : Option (ℕ × ℕ)} (c : Call) {f : Frame} (hf : f.at? = none ∨ f.at? = p)
    (s : State) : Goes p s (call c f s) := ⟨tame_call c f s, .inr ⟨f, rfl, hf⟩⟩

theorem goes_failFirst {p : Option (ℕ × ℕ)} (idx : ℕ) {f : Frame} (hf : f.at? = none ∨ f.at? = p)
    {r : State → State} {s : State} (hr : Goes p s (r s)) :
    Goes p s (failFirst idx f r s) := by
  unfold failFirst
  split
  · rename_i item items hm
    have hu : Tame s (upd idx (fun k => { k with sndpending := items }) s) :=
      tame_upd (by exact fun _ => ⟨rfl, .inr rfl⟩) idx s
    exact .after hu rfl (goes_call _ hf _)
  · exact hr

theorem goes_conackLoop (id idx : ℕ) (cause : Option ℕ) (s : State) :
    Goes (some (idx, id)) s (conackLoop id idx cause s) :=
  goes_failFirst idx (by exact .inr rfl) (goes_call _ (by exact .inr rfl) s)

theorem goes_conack (id idx : ℕ) (cause : Option ℕ) (suc : Bool) (s : State) :
    Goes (some (idx, id)) s (conack id idx cause suc s) := by
  unfold conack
  split
  · exact goes_call _ (by exact .inr rfl) s
  · exact goes_conackLoop id idx cause s

theorem goes_lostLoop (p : Option (ℕ × ℕ)) (idx : ℕ) (val : LuaString) (s : State) :
    Goes p s (lostLoop idx val s) :=
  goes_failFirst idx (.inl rfl) (goes_call _ (.inl rfl) s)

theorem goes_sndack (id idx : ℕ) (suc : Bool) (item : Option Item) (s : State) :
    Goes (some (idx, id)) s (sndack id idx suc item s) := by
  have hu : Tame s (sndrstpara idx s) := tame_upd (by exact fun _ => ⟨rfl, .inl rfl⟩) idx s
  exact .after hu rfl (goes_call _ (by exact .inr rfl) _)

theorem getidxbyid_sckid {id idx : ℕ} {s : State} (h : getidxbyid id s = some idx) :
    sckid idx s = some id := by
  have hf := List.find?_some h
  simp only [decide_eq_true_eq] at hf
  obtain ⟨k, hk, hid⟩ := Option.map_eq_some_iff.mp hf
  rw [sckid, hk]
  exact hid

theorem goes_sckrsp {id idx : ℕ} {s : State} (h : getidxbyid id s = some idx) (evt : Links.Evt)
    (val : LuaString) : Goes (some (idx, id)) s (sckrsp id evt val s) := by
  unfold sckrsp
  simp only [h]
  split
  · exact .of_tame (.refl s) rfl
  rename_i k hk
  cases evt with
  | connect =>
      dsimp only
      split
      · rw [if_pos (Nat.le_add_left 1 _)]
        have hu : Tame s (upd idx (fun k => { k with conretry := k.conretry + 1 }) s) :=
          tame_upd (by exact fun _ => ⟨rfl, .inr rfl⟩) idx s
        exact .after hu rfl (goes_conack id idx _ false _)
      · exact goes_conack id idx _ true s
  | send =>
      dsimp only
      split
      · rw [if_pos (Nat.le_add_left 1 _)]
        have hu : Tame s (upd idx (fun k => { k with sndretry := k.sndretry + 1 }) s) :=
          tame_upd (by exact fun _ => ⟨rfl, .inr rfl⟩) idx s
        exact .after hu rfl (goes_sndack id idx false _ _)
      · exact goes_sndack id idx true _ s
  | disconnect =>
      dsimp only
      have hu : Tame s (discrstpara idx s) := tame_upd (by exact fun _ => ⟨rfl, .inr rfl⟩) idx s
      refine .after hu rfl ?_
      split
      · have hc : Tame (discrstpara idx s)
            (upd idx (fun m => { m with concause := k.discause }) (discrstpara idx s)) :=
          tame_upd (by exact fun _ => ⟨rfl, .inr rfl⟩) idx _
        exact .after hc rfl (goes_call _ (.inl rfl) _)
      · exact goes_call _ (.inl rfl) _
  | close => exact goes_call _ (.inl rfl) s
  | state =>
      dsimp only
      split
      · exact goes_lostLoop _ idx val s
      · exact goes_call _ (.inl rfl) s

/-- The frame is left by `sndnxt`. -/
theorem frame_sndnxt (id : Option ℕ) (idx : ℕ) (s : State) : (sndnxt id idx s).frame = s.frame := by
  have hl (t : State) (data : LuaString) : (linkSend id data t).1.frame = t.frame := by
    cases id <;> rfl
  cases hk : s.scks idx with
  | none => simp only [sndnxt, hk, Option.map_none]
  | some k =>
      cases hp : k.sndpending with
      | nil => simp only [sndnxt, hk, Option.map_some, hp]
      | cons item rest =>
          cases hs : (linkSend id item.data (removed idx rest s)).2 with
          | true =>
              rw [sndnxt_taken hk hp hs, hand_taken idx item hs]
              exact hl _ _
          | false =>
              rw [sndnxt_refused hk hp hs]
              exact hl _ _

/-- What follows the callback, when the socket is there to stay. -/
theorem goes_resume {f : Frame} {s : State} (hl : leaving (some f) = none)
    (hat : ∀ idx id, f.at? = some (idx, id) → sckid idx s = some id) :
    Goes f.at? s (resume f s) := by
  cases f with
  | conack id idx cause => exact goes_conackLoop id idx cause s
  | connected id idx suc =>
      have hu : Tame s (conrstpara idx suc s) := by
        refine tame_upd ?_ idx s
        intro k
        cases suc with
        | true => exact ⟨rfl, .inr rfl⟩
        | false => exact ⟨rfl, .inl rfl⟩
      have hid : sckid idx (conrstpara idx suc s) = some id := by
        have hk : sckid idx (conrstpara idx suc s) = sckid idx s :=
          sckid_upd (by intro k; cases suc <;> rfl) idx idx s
        exact hk.trans (hat idx id rfl)
      refine .after hu rfl ?_
      simp only [resume]
      split
      · split
        · exact .of_tame (tame_sndnxt hid) (frame_sndnxt _ idx _)
        · exact .of_tame (.refl _) rfl
      · exact .of_tame (.refl _) rfl
  | sndack id idx suc =>
      simp only [resume]
      split
      · split
        · split
          · exact .of_tame (tame_sndnxt (hat idx id rfl)) (frame_sndnxt _ idx s)
          · exact .of_tame (.refl s) rfl
        · exact .of_tame (.refl s) rfl
      · exact goes_failFirst (r := fun s => s) idx (.inl rfl) (.of_tame (.refl s) rfl)
  | flush idx => exact goes_failFirst (r := fun s => s) idx (.inl rfl) (.of_tame (.refl s) rfl)
  | closed idx => cases hl
  | lost idx val => exact goes_lostLoop _ idx val s
  | done => exact .of_tame (.refl s) rfl

/-! ## Steps -/

theorem Wired.kept {s t : State} (hs : Wired s) (hl : leaving s.frame = none) (h : Kept s t)
    (hf : t.frame ≠ none → t.link.frame ≠ none)
    (hat : ∀ f idx id, t.frame = some f → f.at? = some (idx, id) → sckid idx t = some id) :
    Wired t where
  shape := h.shape
  frame := hf
  at_ := hat
  range idx id hid := hs.range idx id ((h.ids idx).symm.trans hid)
  owned idx id hid _ := h.owned id (hs.owned idx id ((h.ids idx).symm.trans hid) (by simp [hl]))
  inj i j id hi hj _ _ := hs.inj i j id ((h.ids i).symm.trans hi) ((h.ids j).symm.trans hj)
    (by simp [hl]) (by simp [hl])
  flying idx x hx := by
    obtain hx | hx := h.flying idx x hx
    · obtain ⟨id, hid, hq⟩ := hs.flying idx x hx
      exact ⟨id, (h.ids idx).trans hid, h.sends id x.data x.nonempty hq⟩
    · exact hx

theorem Wired.goes {p : Option (ℕ × ℕ)} {s t : State} (hs : Wired s) (hf : s.frame = none)
    (hlf : s.link.frame ≠ none) (hp : ∀ idx id, p = some (idx, id) → sckid idx s = some id)
    (h : Goes p s t) : Wired t := by
  have hk : Kept s t := h.tame.kept hs.shape
  refine hs.kept (by rw [hf]; rfl) hk (fun _ => h.tame.frame ▸ hlf) fun f idx id hft hat => ?_
  obtain he | ⟨g, hg, hga⟩ := h.frame
  · rw [he, hf] at hft
    cases hft
  · rw [hft] at hg
    cases hg
    rw [hat] at hga
    exact (hk.ids idx).trans (hp idx id (hga.resolve_left (by simp)).symm)

/-- Calls of the interface leave the event alone. -/
theorem Wired.tame {s t : State} (hs : Wired s) (h : Tame s t) (hf : t.frame = s.frame) :
    Wired t := by
  have hk : Kept s t := h.kept hs.shape
  exact
    { shape := hk.shape
      frame := fun hn => h.frame ▸ hs.frame (hf ▸ hn)
      at_ := fun f idx id he ha => (hk.ids idx).trans (hs.at_ f idx id (hf ▸ he) ha)
      range := fun idx id hid => hs.range idx id ((hk.ids idx).symm.trans hid)
      owned := fun idx id hid hl =>
        hk.owned id (hs.owned idx id ((hk.ids idx).symm.trans hid) (hf ▸ hl))
      inj := fun i j id hi hj hli hlj => hs.inj i j id ((hk.ids i).symm.trans hi)
        ((hk.ids j).symm.trans hj) (hf ▸ hli) (hf ▸ hlj)
      flying := fun idx x hx => by
        obtain hx | hx := hk.flying idx x hx
        · obtain ⟨id, hid, hq⟩ := hs.flying idx x hx
          exact ⟨id, (hk.ids idx).trans hid, hk.sends id x.data x.nonempty hq⟩
        · exact hx }

theorem sckid_init (idx : ℕ) (id cause : Option ℕ) (prot addr port : LuaString)
    (discause : Option ℕ) (s : State) (j : ℕ) :
    sckid j (init idx id cause prot addr port discause s) = if j = idx then id else sckid j s := by
  by_cases hj : j = idx
  · subst hj
    simp [sckid, init]
  · simp [sckid, init, hj]

/-- A new entry, for the link that the socket has or for one that no socket has. -/
theorem Wired.init {s : State} {idx : ℕ} {id : Option ℕ} (hs : Wired s)
    (hidx : 1 ≤ idx ∧ idx ≤ SCK_MAX_CNT)
    (hat : ∀ f i, s.frame = some f → f.at? = some (idx, i) → id = some i)
    (hown : ∀ i, id = some i → leaving s.frame ≠ some idx → Owned i s.link ∧
      ∀ j, j ≠ idx → leaving s.frame ≠ some j → sckid j s ≠ some i)
    (cause : Option ℕ) (prot addr port : LuaString) (discause : Option ℕ) :
    Wired (Sockets.init idx id cause prot addr port discause s) := by
  have hids := sckid_init idx id cause prot addr port discause s
  have hself := (hids idx).trans (if_pos rfl)
  have hne {j : ℕ} (hj : j ≠ idx) := (hids j).trans (if_neg hj)
  constructor
  · exact hs.shape
  · exact hs.frame
  · intro f j i hf ha
    by_cases hj : j = idx
    · subst hj
      exact hself.trans (hat f i hf ha)
    · exact (hne hj).trans (hs.at_ f j i hf ha)
  · intro j i hi
    by_cases hj : j = idx
    · subst hj
      exact hidx
    · exact hs.range j i ((hne hj).symm.trans hi)
  · intro j i hi hl
    by_cases hj : j = idx
    · subst hj
      exact (hown i (hself.symm.trans hi) hl).1
    · exact hs.owned j i ((hne hj).symm.trans hi) hl
  · intro i j k hi hj hli hlj
    by_cases hii : i = idx
    · by_cases hjj : j = idx
      · exact hii.trans hjj.symm
      · subst hii
        exact absurd ((hne hjj).symm.trans hj) ((hown k (hself.symm.trans hi) hli).2 j hjj hlj)
    · by_cases hjj : j = idx
      · subst hjj
        exact absurd ((hne hii).symm.trans hi) ((hown k (hself.symm.trans hj) hlj).2 i hii hli)
      · exact hs.inj i j k ((hne hii).symm.trans hi) ((hne hjj).symm.trans hj) hli hlj
  · intro j x hx
    by_cases hj : j = idx
    · subst hj
      rw [outbox_init] at hx
      cases hx
    · rw [outbox_init_ne hj] at hx
      obtain ⟨i, hi, hq⟩ := hs.flying j x hx
      exact ⟨i, (hne hj).trans hi, hq⟩

/-- A new socket with the link that `link.open` has given out. -/
theorem Wired.initOpen {s u : State} {idx : ℕ} (hs : Wired s) (hidx : 1 ≤ idx ∧ idx ≤ SCK_MAX_CNT)
    (hn : s.scks idx = none) (hu : Tame (linkOpen s).1 u) (huf : u.frame = s.frame)
    (cause : Option ℕ) (prot addr port : LuaString) (discause : Option ℕ) :
    Wired (Sockets.init idx (linkOpen s).2 cause prot addr port discause u) := by
  have hid : sckid idx s = none := by simp [sckid, hn]
  have hk := (tame_linkOpen s).kept hs.shape
  have hku := hu.kept hk.shape
  have hwu : Wired u := hs.tame ((tame_linkOpen s).trans hu) huf
  refine hwu.init hidx (fun f i hf ha => ?_) (fun i hi hl => ?_) cause prot addr port discause
  · have := hs.at_ f idx i (huf ▸ hf) ha
    rw [hid] at this
    cases this
  · have he : Links.emptylink s.link = some i := by
      simp only [linkOpen, Links.openlink] at hi
      split at hi
      · cases hi
      · rename_i k hk
        cases hi
        exact hk
    obtain ⟨hfree, hmax⟩ := Links.emptylink_free he
    constructor
    · refine hku.owned i ?_
      obtain ⟨-, -, hv⟩ := Links.openid_free hfree hmax Client.sckrsp false
      refine ⟨⟨.sckrsp, false, .initial, none⟩, ?_, rfl⟩
      simp only [linkOpen, Links.openlink, he]
      exact congrArg Links.View.link hv
    · intro j _ hlj hj
      have hj : sckid j s = some i := (hk.ids j).symm.trans ((hku.ids j).symm.trans hj)
      obtain ⟨k, hk, -⟩ := hs.owned j i hj (huf ▸ hlj)
      rw [hfree] at hk
      cases hk

theorem connect_wired {s : State} (hs : Wired s) {idx : ℕ} (hidx : 1 ≤ idx)
    (prot addr port : LuaString) (cause : Option ℕ) :
    Wired (connect idx prot addr port cause s).1 := by
  have same {u : State} {k : Sock} (hk : s.scks idx = some k) (hu : Tame s u)
      (huf : u.frame = s.frame) (hmax : idx ≤ SCK_MAX_CNT) (discause : Option ℕ) :
      Wired (Sockets.init idx k.id cause prot addr port discause u) := by
    have hid : sckid idx s = k.id := by simp [sckid, hk]
    have hku := hu.kept hs.shape
    have hwu : Wired u := hs.tame hu huf
    have hidu : sckid idx u = k.id := (hku.ids idx).trans hid
    refine hwu.init ⟨hidx, hmax⟩ (fun f i hf ha => ?_) (fun i hi hl => ⟨?_, ?_⟩) cause prot addr
      port discause
    · exact hidu.symm.trans (hwu.at_ f idx i hf ha)
    · exact hwu.owned idx i (hidu.trans hi) hl
    · exact fun j hj hlj hij => hj (hwu.inj j idx i hij (hidu.trans hi) hlj hl)
  have hcf (id : Option ℕ) (u : State) : (linkConnect id prot addr port u).1.frame = u.frame := by
    cases id <;> rfl
  have hdf (id : Option ℕ) : (linkDisconnect id s).1.frame = s.frame := by cases id <;> rfl
  unfold connect
  split
  · exact hs
  rename_i hmax
  rw [not_not] at hmax
  split
  · rename_i k hk
    split
    · split
      · exact hs
      · exact same hk (tame_linkDisconnect k.id s) (hdf k.id) hmax _
    · have ht := tame_linkConnect k.id prot addr port s
      have hf := hcf k.id s
      split
      · rename_i t he
        rw [he] at ht hf
        exact same hk ht hf hmax none
      · rename_i t he
        rw [he] at ht hf
        exact hs.tame ht hf
  · rename_i hk
    have ht := tame_linkConnect (linkOpen s).2 prot addr port (linkOpen s).1
    have hf := hcf (linkOpen s).2 (linkOpen s).1
    dsimp only
    split
    · rename_i t he
      rw [he] at ht hf
      exact hs.initOpen ⟨hidx, hmax⟩ hk ht hf cause prot addr port none
    · rename_i t he
      rw [he] at ht hf
      exact hs.tame ((tame_linkOpen s).trans ht) hf

theorem tame_enqueue (idx : ℕ) (item : Item) (pos : Option ℕ) (s : State) :
    Tame s (enqueue idx item pos s) := by
  have hu : Tame s (upd idx (fun k => { k with
      sndpending := k.sndpending.insertIdx ((pos.map (· - 1)).getD k.sndpending.length) item }) s) :=
    tame_upd (by exact fun _ => ⟨rfl, .inr rfl⟩) idx s
  exact hu.trans (.of_scks rfl (fun _ => rfl) fun _ _ => id)

theorem frame_hand (id : Option ℕ) (idx : ℕ) (item : Item) (s : State) :
    (hand id idx item s).1.frame = s.frame := by
  have hl : (linkSend id item.data s).1.frame = s.frame := by cases id <;> rfl
  cases hs : (linkSend id item.data s).2 with
  | true =>
      rw [hand_taken idx item hs]
      exact hl
  | false =>
      rw [hand_refused idx item hs]
      exact hl

theorem send_wired {s : State} (hs : Wired s) (idx : ℕ) (data : LuaString) (para : ℕ)
    (pos : Option ℕ) (ins : Bool) : Wired (send idx data para pos ins s).1 := by
  unfold send
  split
  swap
  · exact hs
  rename_i k _ hk
  split
  · exact hs
  rename_i hd
  dsimp only
  split
  · have hl := tame_linkConnect k.id k.prot k.addr k.port s
    have hf : (linkConnect k.id k.prot k.addr k.port s).1.frame = s.frame := by
      cases k.id <;> rfl
    split
    · exact hs.tame (hl.trans (tame_enqueue idx _ pos _)) hf
    · exact hs.tame hl hf
  split
  · exact hs.tame (tame_enqueue idx _ pos s) rfl
  · have hid : sckid idx s = k.id := by simp [sckid, hk]
    have hh := tame_hand hid ⟨(s.accepted idx).length, data, para, hd⟩
    refine hs.tame (hh.trans ?_) (frame_hand k.id idx _ s)
    exact .of_scks rfl (fun _ => rfl) fun _ _ => id

theorem setwaitingrspitem_wired {s : State} (hs : Wired s) (idx : ℕ) (item : Option LuaString) :
    Wired (setwaitingrspitem idx item s) := by
  have resumed {u : State} (hu : Wired u) : Wired (rsumscksnd idx u) := by
    unfold rsumscksnd
    split
    · exact hu
    rename_i k hk
    split
    · refine hu.tame (tame_linkConnect k.id k.prot k.addr k.port u) ?_
      cases k.id <;> rfl
    split
    · have hid : sckid idx u = k.id := by simp [sckid, hk]
      exact hu.tame (tame_sndnxt hid) (frame_sndnxt k.id idx u)
    · exact hu
  have hw : Wired (upd idx (fun k => { k with waitingrspitem := item }) s) :=
    hs.tame (tame_upd (by exact fun _ => ⟨rfl, .inr rfl⟩) idx s) rfl
  unfold setwaitingrspitem
  split
  · exact hs
  · dsimp only
    split
    · exact resumed hw
    · exact hw

/-- Every socket with link `id` is the one that `sckrsp` finds. -/
theorem Wired.getidxbyid {s : State} (hs : Wired s) (hl : leaving s.frame = none) {idx id : ℕ}
    (h : sckid idx s = some id) : Sockets.getidxbyid id s = some idx := by
  obtain ⟨h1, h5⟩ := hs.range idx id h
  cases hg : Sockets.getidxbyid id s with
  | none =>
      obtain ⟨k, hk, hid⟩ := Option.bind_eq_some_iff.mp h
      have hm : idx ∈ List.range' 1 SCK_MAX_CNT := by
        rw [List.mem_range'_1]
        omega
      have hno := List.find?_eq_none.mp hg idx hm
      simp [hk, hid] at hno
  | some j =>
      rw [hs.inj j idx id (getidxbyid_sckid hg) h (by simp [hl]) (by simp [hl])]

theorem deliver_wired {s : State} (hs : Wired s) (hf : s.frame = none) : Wired (deliver s) := by
  unfold deliver
  split
  · rename_i n r hlf
    split
    · cases hg : Sockets.getidxbyid n.id s with
      | none =>
          have he : sckrsp n.id n.evt n.val s = s := by simp only [sckrsp, hg]
          rw [he]
          exact hs
      | some idx =>
          refine hs.goes hf (by simp [hlf]) (fun i id hp => ?_) (goes_sckrsp hg n.evt n.val)
          cases hp
          exact getidxbyid_sckid hg
    · exact hs
  · exact hs

/-- The `SEND` event of a socket leaves nothing being sent. -/
theorem sckrsp_send {id idx : ℕ} {s : State} (h : Sockets.getidxbyid id s = some idx)
    (val : LuaString) :
    Goes (some (idx, id)) s (sckrsp id .send val s) ∧
      (outbox idx (sckrsp id .send val s)).flying = none ∧
      (sckrsp id .send val s).link = s.link := by
  refine ⟨goes_sckrsp h .send val, ?_⟩
  have ack (suc : Bool) (item : Option Item) (u : State) :
      (outbox idx (sndack id idx suc item u)).flying = none := by
    rw [sndack, outbox_call, sndrstpara, outbox_upd]
    cases u.scks idx <;> rfl
  have hsck : sckid idx s = some id := getidxbyid_sckid h
  obtain ⟨k, hk, -⟩ := Option.bind_eq_some_iff.mp hsck
  simp only [sckrsp, h, hk]
  split
  · rw [if_pos (Nat.le_add_left 1 _)]
    exact ⟨ack false _ _, rfl⟩
  · exact ⟨ack true _ s, rfl⟩

/-- The response to an `AT+CIPSEND` ends the sending of the socket of that link. -/
theorem answers_wired {s : State} {a : Links.Act Client} {l : LinkState} {id : ℕ} (hs : Wired s)
    (hf : s.frame = none) (ha : Links.Answers s.link a id) (h : Links.step s.link a = some l) :
    Wired (deliver { s with link := l }) := by
  have hleave : leaving s.frame = none := by rw [hf]; rfl
  have hcl : Links.closeOf s.link a = none := by
    obtain ⟨success, response, intermediate, no, data, rfl, hcur⟩ := ha
    simp [Links.closeOf, hcur]
  have hone : ∀ i, Links.Answers s.link a i → i = id := by
    rintro i ⟨_, _, _, no, data, rfl, hcur⟩
    obtain ⟨_, _, _, no', data', he, hcur'⟩ := ha
    rw [hcur] at hcur'
    cases hcur'
    rfl
  have howned {i : ℕ} (hi : Owned i s.link) : Owned i l := by
    obtain ⟨k, hk, hn⟩ := hi
    obtain ⟨m, hm, hmn⟩ | ⟨hc, -⟩ := Links.step_link hs.shape hk h
    · exact ⟨m, hm, hmn.trans hn⟩
    · rw [hcl] at hc
      cases hc
  obtain ⟨k, val, hk, hlf⟩ := Links.step_answers ha h
  have others {u : State} (hu : u.link = l) (hids : ∀ j, sckid j u = sckid j s)
      (hfr : u.frame ≠ none → u.link.frame ≠ none)
      (hat : ∀ f idx i, u.frame = some f → f.at? = some (idx, i) → sckid idx u = some i)
      (hfl : ∀ j x, (outbox j u).flying = some x →
        (outbox j s).flying = some x ∧ sckid j s ≠ some id ∨
          ∃ i, sckid j u = some i ∧ Links.Sends i x.data l) : Wired u := by
    refine ⟨hu ▸ Links.step_shape s.link a l hs.shape h, hfr, hat, ?_, ?_, ?_, ?_⟩
    · exact fun j i hj => hs.range j i ((hids j).symm.trans hj)
    · exact fun j i hj _ => hu ▸ howned (hs.owned j i ((hids j).symm.trans hj) (by simp [hleave]))
    · exact fun i j d hi hj _ _ => hs.inj i j d ((hids i).symm.trans hi) ((hids j).symm.trans hj)
        (by simp [hleave]) (by simp [hleave])
    · intro j x hx
      obtain ⟨hx, hne⟩ | hq := hfl j x hx
      · obtain ⟨i, hi, hq⟩ := hs.flying j x hx
        refine ⟨i, (hids j).trans hi, hu ▸ Links.step_sends hs.shape x.nonempty ?_ h hq⟩
        intro hai
        rw [hone i hai] at hi
        exact hne hi
      · rw [hu]
        exact hq
  by_cases hsck : ∃ idx, sckid idx s = some id
  · obtain ⟨idx, hidx⟩ := hsck
    have hg : Sockets.getidxbyid id { s with link := l } = some idx := hs.getidxbyid hleave hidx
    have hn : k.notify = .sckrsp := by
      obtain ⟨m, hm, hmn⟩ := hs.owned idx id hidx (by simp [hleave])
      rw [hk] at hm
      cases hm
      exact hmn
    have he : deliver { s with link := l } = sckrsp id .send val { s with link := l } := by
      simp only [deliver, hlf, hn, if_true]
    rw [he]
    obtain ⟨hgo, hclear, hlink⟩ := sckrsp_send hg val
    have hkept := hgo.tame.kept (Links.step_shape s.link a l hs.shape h)
    refine others hlink hkept.ids (fun _ => by rw [hlink]; simp [hlf]) (fun f j i hfr hat => ?_)
      fun j x hx => ?_
    · obtain hfr' | ⟨g, hg', hga⟩ := hgo.frame
      · rw [hfr'] at hfr
        have hfr : s.frame = some f := hfr
        rw [hf] at hfr
        cases hfr
      · rw [hfr] at hg'
        cases hg'
        rw [hat] at hga
        cases hga.resolve_left (by simp)
        exact (hkept.ids idx).trans hidx
    · have hji : j ≠ idx := by
        rintro rfl
        rw [hclear] at hx
        cases hx
      obtain hx | ⟨i, hi, hq⟩ := hkept.flying j x hx
      · exact .inl ⟨hx, fun hj => hji (hs.inj j idx id hj hidx (by simp [hleave])
          (by simp [hleave]))⟩
      · rw [hlink] at hq
        exact .inr ⟨i, hi, hq⟩
  · rw [not_exists] at hsck
    have hu : Wired { s with link := l } :=
      others rfl (fun _ => rfl) (fun hn => absurd hf hn) (fun f j i hfr => by
        have hfr : s.frame = some f := hfr
        rw [hf] at hfr
        cases hfr) fun j x hx => .inl ⟨hx, hsck j⟩
    exact deliver_wired hu hf

/-- The link of a socket is freed, and the socket is about to go. -/
theorem freed_wired {s : State} {a : Links.Act Client} {l : LinkState} {id : ℕ}
    {k : Links.Link Client} (hs : Wired s) (hf : s.frame = none)
    (hc : Links.closeOf s.link a = some id) (hk : s.link.linklist id = some k)
    (hst : k.state = .closing) (h : Links.step s.link a = some l) :
    Wired (deliver { s with link := l }) := by
  have hleave : leaving s.frame = none := by rw [hf]; rfl
  have hlf := Links.step_freed hc hk hst h
  have hno : ∀ i, ¬Links.Answers s.link a i := by
    rintro i ⟨_, _, _, no, data, rfl, hcur⟩
    simp [Links.closeOf, hcur] at hc
  have howned {i : ℕ} (hi : Owned i s.link) (hne : i ≠ id) : Owned i l := by
    obtain ⟨m, hm, hn⟩ := hi
    obtain ⟨m', hm', hmn⟩ | ⟨hc', -⟩ := Links.step_link hs.shape hm h
    · exact ⟨m', hm', hmn.trans hn⟩
    · rw [hc] at hc'
      cases hc'
      exact absurd rfl hne
  have others {f : Option Frame} {c : List Call} (hfl : f ≠ none → l.frame ≠ none)
      (hat : ∀ g i j, f = some g → g.at? = some (i, j) → False)
      (hgone : ∀ j, sckid j s = some id → leaving f = some j) :
      Wired { s with link := l, frame := f, calls := c } := by
    refine ⟨Links.step_shape s.link a l hs.shape h, hfl, fun g i j hg ha => (hat g i j hg ha).elim,
      hs.range, fun j i hj hl => ?_, fun i j d hi hj _ _ => ?_, fun j x hx => ?_⟩
    · refine howned (hs.owned j i hj (by simp [hleave])) ?_
      rintro rfl
      exact hl (hgone j hj)
    · exact hs.inj i j d hi hj (by simp [hleave]) (by simp [hleave])
    · obtain ⟨i, hi, hq⟩ := hs.flying j x hx
      exact ⟨i, hi, Links.step_sends hs.shape x.nonempty (hno i) h hq⟩
  by_cases hsck : ∃ idx, sckid idx s = some id
  · obtain ⟨idx, hidx⟩ := hsck
    have hg : Sockets.getidxbyid id { s with link := l } = some idx := hs.getidxbyid hleave hidx
    have hn : k.notify = .sckrsp := by
      obtain ⟨m, hm, hmn⟩ := hs.owned idx id hidx (by simp [hleave])
      rw [hk] at hm
      cases hm
      exact hmn
    obtain ⟨sk, hsk, -⟩ := Option.bind_eq_some_iff.mp hidx
    have he : deliver { s with link := l } =
        call (.close idx) (.closed idx) { s with link := l } := by
      simp only [deliver, hlf, hn, if_true, sckrsp, hg, hsk]
    rw [he]
    refine others (fun _ => by simp [hlf]) (fun g i j hg' hat => ?_) fun j hj => ?_
    · cases hg'
      cases hat
    · rw [hs.inj j idx id hj hidx (by simp [hleave]) (by simp [hleave])]
      rfl
  · rw [not_exists] at hsck
    have hu : Wired { s with link := l } := by
      refine others (fun hn => absurd hf hn) (fun g i j hg _ => ?_) fun j hj => absurd hj (hsck j)
      rw [hf] at hg
      cases hg
    exact deliver_wired hu hf

/-- An event of the link layer keeps the wiring, with what `sckrsp` does at once. -/
theorem event_wired {s : State} {a : Links.Act Client} {l : LinkState} (hs : Wired s)
    (hf : s.frame = none) (h : Links.step s.link a = some l) :
    Wired (deliver { s with link := l }) := by
  by_cases ha : ∃ id, Links.Answers s.link a id
  · obtain ⟨id, ha⟩ := ha
    exact answers_wired hs hf ha h
  rw [not_exists] at ha
  by_cases hc : ∃ id k, Links.closeOf s.link a = some id ∧ s.link.linklist id = some k ∧
      k.state = .closing
  · obtain ⟨id, k, hc, hk, hst⟩ := hc
    exact freed_wired hs hf hc hk hst h
  · have hk : Kept s { s with link := l } := by
      refine ⟨Links.step_shape s.link a l hs.shape h, fun id hid => ?_, fun id data hd =>
        Links.step_sends hs.shape hd (ha id) h, fun _ => rfl, fun _ _ => .inl⟩
      obtain ⟨k, hk, hn⟩ := hid
      obtain ⟨m, hm, hmn⟩ | ⟨hcl, hst, -⟩ := Links.step_link hs.shape hk h
      · exact ⟨m, hm, hmn.trans hn⟩
      · exact absurd ⟨id, k, hcl, hk, hst⟩ hc
    refine deliver_wired (hs.kept (by rw [hf]; rfl) hk (fun hn => absurd hf hn) ?_) hf
    intro f idx id hft
    rw [show ({ s with link := l } : State).frame = s.frame from rfl, hf] at hft
    cases hft

/-- A callback returns. -/
theorem resumed_wired {s : State} (hs : Wired s) : Wired (resumed s) := by
  unfold resumed
  split
  swap
  · exact hs
  rename_i f hf
  have hlf : s.link.frame ≠ none := hs.frame (by simp [hf])
  cases hl : leaving (some f) with
  | none =>
      have hs0 : Wired { s with frame := none } := by
        refine ⟨hs.shape, fun hn => absurd rfl hn, fun _ _ _ h => (by cases h), hs.range,
          fun idx id hid _ => ?_,
          fun i j id hi hj _ _ => ?_, hs.flying⟩
        · exact hs.owned idx id hid (by simp [hf, hl])
        · exact hs.inj i j id hi hj (by simp [hf, hl]) (by simp [hf, hl])
      have hat : ∀ idx id, f.at? = some (idx, id) → sckid idx s = some id :=
        fun idx id => hs.at_ f idx id hf
      exact hs0.goes rfl hlf hat (goes_resume hl hat)
  | some idx =>
      have hfc : f = .closed idx := by
        cases f <;> cases hl
        rfl
      subst hfc
      have hids (j : ℕ) (hj : j ≠ idx) :
          sckid j (resume (.closed idx) { s with frame := none }) = sckid j s := by
        simp [sckid, resume, hj]
      have hgone : sckid idx (resume (.closed idx) { s with frame := none }) = none := by
        simp [sckid, resume]
      have hne {j id : ℕ}
          (hj : sckid j (resume (.closed idx) { s with frame := none }) = some id) : j ≠ idx := by
        rintro rfl
        rw [hgone] at hj
        cases hj
      have stays {j : ℕ} (hj : j ≠ idx) : leaving s.frame ≠ some j := by
        rw [hf]
        exact fun h => hj (Option.some.inj h).symm
      refine ⟨hs.shape, fun hn => absurd rfl hn, fun _ _ _ h => (by cases h), fun j id hj => ?_,
        fun j id hj _ => ?_,
        fun i j id hi hj _ _ => ?_, fun j x hx => ?_⟩
      · exact hs.range j id ((hids j (hne hj)).symm.trans hj)
      · exact hs.owned j id ((hids j (hne hj)).symm.trans hj) (stays (hne hj))
      · exact hs.inj i j id ((hids i (hne hi)).symm.trans hi) ((hids j (hne hj)).symm.trans hj)
          (stays (hne hi)) (stays (hne hj))
      · by_cases hj : j = idx
        · subst hj
          simp [outbox, resume] at hx
        · have hx : (outbox j s).flying = some x := by
            simpa [outbox, resume, hj] using hx
          obtain ⟨i, hi, hq⟩ := hs.flying j x hx
          exact ⟨i, (hids j hj).trans hi, hq⟩

/-- The socket that an action creates has a number from one on. -/
def Act.numbered : Act → Prop
  | .create idx _ _ _ _ => 1 ≤ idx
  | .connect idx _ _ _ _ => 1 ≤ idx
  | _ => True

theorem step_wired (s : State) (a : Act) (t : State) (ha : a.numbered) (hs : Wired s)
    (h : step s a = some t) : Wired t := by
  cases a with
  | create idx prot addr port cause =>
      cases h
      unfold create
      split
      · exact hs
      · rename_i hn
        rw [not_or, not_not, Option.not_isSome_iff_eq_none] at hn
        exact hs.initOpen ⟨ha, hn.1⟩ hn.2 (.refl _) rfl cause prot addr port none
  | connect idx prot addr port cause =>
      cases h
      exact connect_wired hs ha prot addr port cause
  | send idx data para pos ins =>
      obtain ⟨-, ⟨⟩⟩ := Option.ite_none_right_eq_some.mp h
      exact send_wired hs idx data para pos ins
  | disconnect idx cause =>
      cases h
      unfold disconnect
      split
      · rename_i k _ hk
        have hu : Tame s (upd idx (fun k => { k with discause := cause }) s) :=
          tame_upd (by exact fun _ => ⟨rfl, .inr rfl⟩) idx s
        refine hs.tame (hu.trans (tame_linkDisconnect k.id _)) ?_
        cases k.id <;> rfl
      · exact hs
  | close idx =>
      cases h
      unfold close
      split
      · rename_i k _ hk
        refine hs.tame (tame_linkClose k.id s) ?_
        cases k.id <;> rfl
      · exact hs
  | setwaitingrspitem idx item =>
      cases h
      exact setwaitingrspitem_wired hs idx item
  | link a =>
      obtain ⟨hfor, h⟩ := Option.ite_none_right_eq_some.mp h
      obtain ⟨l, hl, rfl⟩ := Option.map_eq_some_iff.mp h
      cases hf : s.link.frame with
      | none =>
          have hfs : s.frame = none := by
            by_contra hn
            exact hs.frame hn hf
          simp only [Option.isNone_none, if_true]
          exact event_wired hs hfs hl
      | some f =>
          have hret : a ≠ .ret := by
            rintro rfl
            cases hfor
          have hev : Links.closeOf s.link a = none ∧ ∀ id, ¬Links.Answers s.link a id := by
            constructor
            · cases a with
              | respond => simp [Links.step, hf] at hl
              | msg => simp [Links.step, hf] at hl
              | _ => rfl
            · rintro id ⟨_, _, _, _, _, rfl, -⟩
              simp [Links.step, hf] at hl
          simp only [Option.isNone_some, Bool.false_eq_true, if_false]
          refine hs.tame ⟨fun hsh => .of_link hl hev.1 hev.2 hsh, ?_⟩ rfl
          rw [Links.step_frame hf hret hl, hf]
  | ret =>
      have hr := resumed_wired hs
      obtain ⟨-, rfl⟩ | ⟨hf, l, hl, rfl⟩ := step_ret.mp h
      · exact hr
      · exact event_wired hr hf hl

end LuatAir200.Sockets
