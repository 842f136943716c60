import LuatAir200.LinkConnecting
import LuatAir200.SocketAccount

/-!
# Sockets that wait for their connection

`connect` puts the link of a socket into the state `CONNECTING`. It stays there until the
`rsp` of the socket is called for `CONNECT` or `SHUTED`, or until the link is given up.
-/
namespace LuatAir200.Sockets
open Lua Machine

/-- The link of socket `idx` is in the state `CONNECTING`. -/
def Connecting (idx : ℕ) (s : State) : Prop := ∃ id, sckid idx s = some id ∧ Links.Waits id s.link

/-- `rsp` is being told of a failure to connect; its call for `CONNECT` follows. -/
def Failing (idx : ℕ) (s : State) : Prop := ∃ id cause, s.frame = some (.conack id idx cause)

/-- A call of `rsp` for `CONNECT` is due. -/
def Due (idx : ℕ) (s : State) : Prop := Connecting idx s ∨ Failing idx s

/-- `connect` will find a link that it can use. -/
def CanConnect (idx : ℕ) (s : State) : Prop :=
  match s.scks idx with
  | some k => lstate k.id s ≠ lua "CONNECTED" ∧ Connectable k.id s ∨ Connecting idx s
  | none => (Links.emptylink s.link).isSome

/-! ## Changes under which sockets wait on -/

/-- No socket changes its link, and links in the state `CONNECTING` stay there. -/
structure Steady (s t : State) : Prop where
  ids : ∀ i, sckid i t = sckid i s
  waits : ∀ id, Links.Waits id s.link → Links.Waits id t.link

theorem Steady.refl (s : State) : Steady s s := ⟨fun _ => rfl, fun _ => id⟩

theorem Steady.trans {s t u : State} (h : Steady s t) (h' : Steady t u) : Steady s u :=
  ⟨fun i => (h'.ids i).trans (h.ids i), fun id hw => h'.waits id (h.waits id hw)⟩

theorem Steady.connecting {s t : State} (h : Steady s t) {idx : ℕ} (hc : Connecting idx s) :
    Connecting idx t := by
  obtain ⟨id, hid, hw⟩ := hc
  exact ⟨id, (h.ids idx).trans hid, h.waits id hw⟩

theorem Steady.of_eq {s t : State} (hs : t.scks = s.scks) (hl : t.link = s.link) : Steady s t :=
  ⟨fun i => by rw [sckid, sckid, hs], fun id => hl ▸ fun h => h⟩

theorem steady_upd {f : Sock → Sock} (hf : ∀ k, (f k).id = k.id) (idx : ℕ) (s : State) :
    Steady s (upd idx f s) := ⟨fun i => sckid_upd hf idx i s, fun _ => id⟩

theorem steady_linkOpen (s : State) : Steady s (linkOpen s).1 :=
  ⟨fun _ => rfl, fun _ hw => hw.openlink _ _⟩

theorem steady_linkConnect (id : Option ℕ) (prot addr port : LuaString) (s : State) :
    Steady s (linkConnect id prot addr port s).1 := by
  cases id with
  | none => exact .refl s
  | some k => exact ⟨fun _ => rfl, fun _ hw => hw.connect k prot addr port⟩

theorem steady_linkSend (id : Option ℕ) (data : LuaString) (s : State) :
    Steady s (linkSend id data s).1 := by
  cases id with
  | none => exact .refl s
  | some k => exact ⟨fun _ => rfl, fun _ hw => hw.send k data⟩

theorem steady_hand (id : Option ℕ) (idx : ℕ) (item : Item) (s : State) :
    Steady s (hand id idx item s).1 := by
  have hl := steady_linkSend id item.data s
  cases hs : (linkSend id item.data s).2 with
  | false => rwa [hand_refused idx item hs]
  | true =>
      rw [hand_taken idx item hs]
      have hu : Steady s (upd idx (fun k => { k with sndingitem := some item })
          (linkSend id item.data s).1) := hl.trans (steady_upd (by exact fun _ => rfl) idx _)
      exact ⟨hu.ids, hu.waits⟩

theorem steady_sndnxt (id : Option ℕ) (idx : ℕ) (s : State) : Steady s (sndnxt id idx s) := by
  unfold sndnxt
  split
  · rename_i item rest _
    have hu : Steady s (upd idx (fun k => { k with sndpending := rest }) s) :=
      steady_upd (by exact fun _ => rfl) idx s
    have hh := hu.trans (steady_hand id idx item _)
    split
    · rename_i t he
      rwa [he] at hh
    · rename_i t he
      rw [he] at hh
      exact hh.trans (steady_upd (by exact fun _ => rfl) idx t)
  · exact .refl s

theorem steady_call (c : Call) (f : Frame) (s : State) : Steady s (call c f s) := .of_eq rfl rfl

theorem steady_failFirst (idx : ℕ) (f : Frame) {r : State → State} {s : State}
    (hr : Steady s (r s)) : Steady s (failFirst idx f r s) := by
  unfold failFirst
  split
  · exact (steady_upd (by exact fun _ => rfl) idx s).trans (steady_call _ _ _)
  · exact hr

theorem steady_conack (id idx : ℕ) (cause : Option ℕ) (suc : Bool) (s : State) :
    Steady s (conack id idx cause suc s) := by
  unfold conack
  split
  · exact steady_call _ _ s
  · exact steady_failFirst (r := call (.connect idx false cause) (.connected id idx false)) idx _
      (steady_call _ _ s)

theorem steady_lostLoop (idx : ℕ) (val : LuaString) (s : State) :
    Steady s (lostLoop idx val s) :=
  steady_failFirst (r := call (.state idx val) .done) idx _ (steady_call _ _ s)

theorem steady_sndack (id idx : ℕ) (suc : Bool) (item : Option Item) (s : State) :
    Steady s (sndack id idx suc item s) :=
  (steady_upd (by exact fun _ => rfl) idx s).trans (steady_call _ _ _)

theorem steady_sckrsp (id : ℕ) (evt : Links.Evt) (val : LuaString) (s : State) :
    Steady s (sckrsp id evt val s) := by
  unfold sckrsp
  split
  · exact .refl s
  split
  · exact .refl s
  rename_i _ idx _ _ k _
  cases evt with
  | connect =>
      simp only
      split
      · have hu : Steady s (upd idx (fun k => { k with conretry := k.conretry + 1 }) s) :=
          steady_upd (by exact fun _ => rfl) idx s
        rw [if_pos (Nat.le_add_left 1 _)]
        exact hu.trans (steady_conack id idx _ false _)
      · exact steady_conack id idx _ true s
  | send =>
      simp only
      split
      · have hu : Steady s (upd idx (fun k => { k with sndretry := k.sndretry + 1 }) s) :=
          steady_upd (by exact fun _ => rfl) idx s
        rw [if_pos (Nat.le_add_left 1 _)]
        exact hu.trans (steady_sndack id idx false _ _)
      · exact steady_sndack id idx true _ s
  | disconnect =>
      have hu : Steady s (discrstpara idx s) := steady_upd (by exact fun _ => rfl) idx s
      simp only
      split
      · exact (hu.trans (steady_upd (by exact fun _ => rfl) idx _)).trans (steady_call _ _ _)
      · exact hu.trans (steady_call _ _ _)
  | close => exact steady_call _ _ s
  | state =>
      simp only
      split
      · exact steady_lostLoop idx val s
      · exact steady_call _ _ s

theorem steady_deliver (s : State) : Steady s (deliver s) := by
  unfold deliver
  split
  · split
    · exact steady_sckrsp _ _ _ s
    · exact .refl s
  · exact .refl s

theorem steady_resume {f : Frame} (hf : leaving (some f) = none) (s : State) :
    Steady s (resume f s) := by
  cases f with
  | conack id idx cause => exact steady_conack id idx cause false s
  | connected id idx suc =>
      have hu : Steady s (conrstpara idx suc s) :=
        steady_upd (by intro k; cases suc <;> rfl) idx s
      refine hu.trans ?_
      simp only [resume]
      split
      · split
        · exact steady_sndnxt _ idx _
        · exact .refl _
      · exact .refl _
  | sndack id idx suc =>
      simp only [resume]
      split
      · split
        · split
          · exact steady_sndnxt _ idx s
          · exact .refl s
        · exact .refl s
      · exact steady_failFirst (r := fun s => s) idx _ (.refl s)
  | flush idx => exact steady_failFirst (r := fun s => s) idx _ (.refl s)
  | closed idx => cases hf
  | lost idx val => exact steady_lostLoop idx val s
  | done => exact .refl s

/-! ## Calls -/

theorem Due.steady {s t : State} (h : Steady s t) (hf : t.frame = s.frame) {idx : ℕ}
    (hd : Due idx s) : Due idx t := by
  obtain hc | ⟨id, cause, hs⟩ := hd
  · exact .inl (h.connecting hc)
  · exact .inr ⟨id, cause, hf.trans hs⟩

theorem frame_linkConnect (id : Option ℕ) (prot addr port : LuaString) (s : State) :
    (linkConnect id prot addr port s).1.frame = s.frame := by
  cases id <;> rfl

theorem frame_linkDisconnect (id : Option ℕ) (s : State) :
    (linkDisconnect id s).1.frame = s.frame := by
  cases id <;> rfl

/-- A link in the state `CONNECTING` is not connected. -/
theorem lstate_waits {id : ℕ} {s : State} (h : Links.Waits id s.link) :
    lstate (some id) s = lua "CONNECTING" := by
  obtain ⟨l, hl, hs⟩ := h
  simp [lstate, Links.getstate, hl, hs, Links.LinkState.text]

theorem linkDisconnect_waits {id : Option ℕ} {i : ℕ} {s : State} (hi : id ≠ some i)
    (h : Links.Waits i s.link) : Links.Waits i (linkDisconnect id s).1.link := by
  cases id with
  | none => exact h
  | some k => exact h.disconnect fun he => hi (by rw [he])

/-- `connect` does not end a connection attempt of any socket. -/
theorem connect_due (idx : ℕ) (prot addr port : LuaString) (cause : Option ℕ) {j : ℕ} {s : State}
    (hd : Due j s) : Due j (connect idx prot addr port cause s).1 := by
  have fresh {t : State} {id : Option ℕ} {discause : Option ℕ} (ht : t.frame = s.frame)
      (hw : ∀ i, sckid j s = some i → Links.Waits i s.link →
        Links.Waits i t.link ∧ sckid j (init idx id cause prot addr port discause t) = some i) :
      Due j (init idx id cause prot addr port discause t) := by
    obtain ⟨i, hi, hc⟩ | ⟨i, c, hf⟩ := hd
    · exact .inl ⟨i, (hw i hi hc).2, (hw i hi hc).1⟩
    · exact .inr ⟨i, c, ht.trans hf⟩
  unfold connect
  split
  · exact hd
  split
  · rename_i k hk
    have hid : sckid idx s = k.id := by simp [sckid, hk]
    have hj (t : State) (hs : ∀ i, sckid i t = sckid i s) (discause : Option ℕ) :
        sckid j (init idx k.id cause prot addr port discause t) = sckid j s := by
      rw [sckid_init]
      split
      · rename_i he
        rw [he, hid]
      · exact hs j
    split
    · rename_i hc
      split
      · exact hd
      · refine fresh (frame_linkDisconnect k.id s) fun i hi hw => ⟨?_, ?_⟩
        · refine linkDisconnect_waits (fun he => ?_) hw
          rw [he, lstate_waits hw] at hc
          exact absurd hc (by decide)
        · rw [hj _ fun i => by cases k.id <;> rfl, hi]
    · have hs := steady_linkConnect k.id prot addr port s
      have hf := frame_linkConnect k.id prot addr port s
      split
      · rename_i t he
        rw [he] at hs hf
        exact fresh hf fun i hi hw => ⟨hs.waits i hw, (hj t hs.ids none).trans hi⟩
      · rename_i t he
        rw [he] at hs hf
        exact hd.steady hs hf
  · rename_i hk
    have hs := (steady_linkOpen s).trans (steady_linkConnect (linkOpen s).2 prot addr port _)
    have hf : (linkConnect (linkOpen s).2 prot addr port (linkOpen s).1).1.frame = s.frame :=
      frame_linkConnect (linkOpen s).2 prot addr port _
    dsimp only
    split
    · rename_i t he
      rw [he] at hs hf
      refine fresh hf fun i hi hw => ⟨hs.waits i hw, ?_⟩
      have hne : j ≠ idx := by
        rintro rfl
        simp [sckid, hk] at hi
      rw [sckid_init, if_neg hne, hs.ids, hi]
    · rename_i t he
      rw [he] at hs hf
      exact hd.steady hs hf

/-- A link that `connect` can use is in the state `CONNECTING` afterwards. -/
theorem connect_connecting {idx : ℕ} {s : State} (hidx : idx ≤ SCK_MAX_CNT)
    (hc : CanConnect idx s) (prot addr port : LuaString) (cause : Option ℕ) :
    Connecting idx (connect idx prot addr port cause s).1 := by
  have taken {id : Option ℕ} {t : State} (hr : (linkConnect id prot addr port t).2 = true) :
      Connecting idx (init idx id cause prot addr port none
        (linkConnect id prot addr port t).1) := by
    cases id with
    | none => cases hr
    | some i => exact ⟨i, by rw [sckid_init, if_pos rfl], Links.connect_waits hr⟩
  have hmax : ¬¬idx ≤ SCK_MAX_CNT := not_not.mpr hidx
  unfold connect
  rw [if_neg hmax]
  unfold CanConnect at hc
  cases hk : s.scks idx with
  | some k =>
      simp only [hk] at hc ⊢
      have hn : lstate k.id s ≠ lua "CONNECTED" := by
        obtain ⟨hn, -⟩ | ⟨i, hi, hw⟩ := hc
        · exact hn
        · have hid : k.id = some i := by simpa [sckid, hk] using hi
          rw [hid, lstate_waits hw]
          decide
      rw [if_neg hn]
      cases hr : (linkConnect k.id prot addr port s).2 with
      | true =>
          have he : linkConnect k.id prot addr port s =
              ((linkConnect k.id prot addr port s).1, true) := Prod.ext rfl hr
          rw [he]
          exact taken hr
      | false =>
          have he : linkConnect k.id prot addr port s =
              ((linkConnect k.id prot addr port s).1, false) := Prod.ext rfl hr
          rw [he]
          obtain ⟨-, hcon⟩ | hcon := hc
          · rw [linkConnect_taken.mpr hcon] at hr
            cases hr
          · exact (steady_linkConnect k.id prot addr port s).connecting hcon
  | none =>
      simp only [hk] at hc ⊢
      obtain ⟨i, hi⟩ := Option.isSome_iff_exists.mp hc
      have ho : (linkOpen s).2 = some i := by
        simp only [linkOpen, Links.openlink, hi]
      have hr : (linkConnect (linkOpen s).2 prot addr port (linkOpen s).1).2 = true := by
        rw [ho]
        exact Links.openlink_connects hi .sckrsp false prot addr port
      have he : linkConnect (linkOpen s).2 prot addr port (linkOpen s).1 =
          ((linkConnect (linkOpen s).2 prot addr port (linkOpen s).1).1, true) := Prod.ext rfl hr
      rw [he]
      exact taken hr

/-- Socket `j` does not wait for the link of socket `idx`. -/
def Apart (idx j : ℕ) (s : State) : Prop := Connecting j s → sckid j s ≠ sckid idx s

theorem disconnect_due {idx j : ℕ} {cause : Option ℕ} {s : State} (hd : Due j s)
    (hn : Apart idx j s) : Due j (disconnect idx cause s).1 := by
  unfold disconnect
  split
  · rename_i k _ hk
    have hu : Steady s (upd idx (fun k => { k with discause := cause }) s) :=
      steady_upd (by exact fun _ => rfl) idx s
    obtain hc | ⟨i, c, hf⟩ := hd
    · obtain ⟨i, hi, hw⟩ := hu.connecting hc
      refine .inl ⟨i, ?_, linkDisconnect_waits (fun he => ?_) hw⟩
      · cases k.id <;> exact hi
      · have hi : sckid j s = some i := (hu.ids j).symm.trans hi
        exact hn hc (hi.trans (by simpa [sckid, hk] using he.symm))
    · exact .inr ⟨i, c, (frame_linkDisconnect k.id _).trans hf⟩
  · exact hd

theorem close_due {idx j : ℕ} {s : State} (hd : Due j s) (hn : Apart idx j s) :
    Due j (close idx s).1 := by
  unfold close
  split
  · rename_i k _ hk
    cases hid : k.id with
    | none => exact hd
    | some i =>
        obtain hc | ⟨q, c, hf⟩ := hd
        · obtain ⟨q, hq, hw⟩ := id hc
          refine .inl ⟨q, hq, hw.close ?_⟩
          rintro rfl
          exact hn hc (hq.trans (by simp [sckid, hk, hid]))
        · exact .inr ⟨q, c, hf⟩
  · exact hd

/-- `close` makes no socket wait. -/
theorem close_apart {idx i j : ℕ} {s : State} (h : Apart i j s) : Apart i j (close idx s).1 := by
  unfold close
  split
  · rename_i k _ _
    cases k.id with
    | none => exact h
    | some n =>
        rintro ⟨q, hq, hw⟩
        exact h ⟨q, hq, Links.waits_of_close hw⟩
  · exact h

theorem linkConnect_refused {id : Option ℕ} {prot addr port : LuaString} {s : State}
    (h : (linkConnect id prot addr port s).2 = false) :
    (linkConnect id prot addr port s).1 = s := by
  cases id with
  | none => rfl
  | some i => exact congrArg (fun l => { s with link := l }) (Links.connect_refused h)

theorem send_refused {idx : ℕ} {data : LuaString} {para : ℕ} {s : State}
    (h : (send idx data para none false s).2 = false) :
    (send idx data para none false s).1 = s := by
  unfold send at h ⊢
  split
  swap
  · rfl
  rename_i k hc hk
  simp only [hc, hk] at h
  split
  · rfl
  rename_i hd
  rw [dif_neg hd] at h
  dsimp only at h ⊢
  split
  · rename_i hl
    rw [if_pos hl] at h
    split
    · rename_i hr
      rw [if_pos hr] at h
      cases h
    · rename_i hr
      simp only [Bool.false_eq_true, or_false, Bool.not_eq_true] at hr
      exact linkConnect_refused hr
  · rename_i hl
    rw [if_neg hl] at h
    split at h <;> cases h

theorem steady_send (idx : ℕ) (data : LuaString) (para : ℕ) (pos : Option ℕ) (ins : Bool)
    (s : State) : Steady s (send idx data para pos ins s).1 ∧
      (send idx data para pos ins s).1.frame = s.frame := by
  have queued {t : State} (ht : Steady s t) (item : Item) :
      Steady s (enqueue idx item pos t) := by
    have hu : Steady t (upd idx (fun k => { k with
        sndpending := k.sndpending.insertIdx ((pos.map (· - 1)).getD k.sndpending.length) item })
        t) := steady_upd (by exact fun _ => rfl) idx t
    exact ht.trans ⟨hu.ids, hu.waits⟩
  unfold send
  split
  swap
  · exact ⟨.refl s, rfl⟩
  rename_i k _ _
  split
  · exact ⟨.refl s, rfl⟩
  dsimp only
  split
  · have hs := steady_linkConnect k.id k.prot k.addr k.port s
    have hf := frame_linkConnect k.id k.prot k.addr k.port s
    split
    · exact ⟨queued hs _, hf⟩
    · exact ⟨hs, hf⟩
  split
  · exact ⟨queued (.refl s) _, rfl⟩
  · have hh := steady_hand k.id idx ⟨(s.accepted idx).length, data, para, ‹_›⟩ s
    exact ⟨⟨hh.ids, hh.waits⟩, frame_hand _ _ _ s⟩

theorem create_due {idx j : ℕ} {prot addr port : LuaString} {cause : Option ℕ} {s : State}
    (hd : Due j s) : Due j (create idx prot addr port cause s).1 := by
  unfold create
  split
  · exact hd
  rename_i hn
  rw [not_or, Option.not_isSome_iff_eq_none] at hn
  obtain ⟨i, hi, hw⟩ | ⟨i, c, hf⟩ := hd
  · refine .inl ⟨i, ?_, (steady_linkOpen s).waits i hw⟩
    have hne : j ≠ idx := by
      rintro rfl
      simp [sckid, hn.2] at hi
    rw [sckid_init, if_neg hne, (steady_linkOpen s).ids, hi]
  · exact .inr ⟨i, c, hf⟩

theorem steady_setwaitingrspitem (idx : ℕ) (item : Option LuaString) (s : State) :
    Steady s (setwaitingrspitem idx item s) ∧ (setwaitingrspitem idx item s).frame = s.frame := by
  unfold setwaitingrspitem
  split
  · exact ⟨.refl s, rfl⟩
  have hu : Steady s (upd idx (fun k => { k with waitingrspitem := item }) s) :=
    steady_upd (by exact fun _ => rfl) idx s
  dsimp only
  split
  swap
  · exact ⟨hu, rfl⟩
  unfold rsumscksnd
  split
  · exact ⟨hu, rfl⟩
  rename_i k _
  split
  · exact ⟨hu.trans (steady_linkConnect k.id k.prot k.addr k.port _),
      frame_linkConnect k.id k.prot k.addr k.port _⟩
  split
  · exact ⟨hu.trans (steady_sndnxt k.id idx _), frame_sndnxt k.id idx _⟩
  · exact ⟨hu, rfl⟩

/-! ## Events -/

/-- The step has called `rsp` with `c`. -/
def Calls (s t : State) (c : Call) : Prop := t.calls = s.calls ++ [c]

/-- A wait ends in a call of `rsp` for `CONNECT`, or for `SHUTED`. -/
def Ends (idx : ℕ) (s t : State) : Prop :=
  (∃ suc cause, Calls s t (.connect idx suc cause)) ∨ Calls s t (.state idx (lua "SHUTED"))

/-- The same, with what is known of a call for `SHUTED`. -/
def EndsIf (idx : ℕ) (p : Prop) (s t : State) : Prop :=
  (∃ suc cause, Calls s t (.connect idx suc cause)) ∨ p ∧ Calls s t (.state idx (lua "SHUTED"))

theorem EndsIf.ends {idx : ℕ} {p : Prop} {s t : State} (h : EndsIf idx p s t) : Ends idx s t :=
  h.imp_right And.right

/-- The link whose owner is told `SHUTED` by the step. -/
def shuts (s : State) : Act → Option ℕ
  | .link a => Links.shutNext s.link a
  | .ret => if (resumed s).frame = none then Links.shutNext (resumed s).link .ret else none
  | _ => none

/-- The link of the socket is shut down by the step. -/
def Shut (s : State) (a : Act) (idx : ℕ) : Prop := ∃ id, sckid idx s = some id ∧ shuts s a = some id

/-- `conack` calls `rsp` for `CONNECT`, or fails an item before that. -/
theorem conack_due {idx id : ℕ} {cause : Option ℕ} {suc : Bool} {s t : State}
    (ht : t.calls = s.calls) : Due idx (conack id idx cause suc t) ∨
      ∃ ok c, Calls s (conack id idx cause suc t) (.connect idx ok c) := by
  unfold conack
  split
  · exact .inr ⟨true, cause, by simp [Calls, call, ht]⟩
  · unfold conackLoop failFirst
    split
    · exact .inl (.inr ⟨id, cause, rfl⟩)
    · exact .inr ⟨false, cause, by simp [Calls, call, ht]⟩

/-- The owner of a waiting link is told that the attempt is over. -/
theorem sckrsp_ends {idx id : ℕ} {evt : Links.Evt} {val : LuaString} {p : Prop} {s t : State}
    (hg : getidxbyid id t = some idx) (ht : t.calls = s.calls)
    (he : evt = .connect ∨ (evt = .state ∧ val = lua "SHUTED") ∧ p) :
    Due idx (sckrsp id evt val t) ∨ EndsIf idx p s (sckrsp id evt val t) := by
  obtain ⟨k, hk, -⟩ := Option.bind_eq_some_iff.mp (getidxbyid_sckid hg)
  obtain rfl | ⟨⟨rfl, rfl⟩, hp⟩ := he
  · simp only [sckrsp, hg, hk]
    split
    · rw [if_pos (Nat.le_add_left 1 _)]
      exact (conack_due (by exact ht)).imp_right .inl
    · exact (conack_due (by exact ht)).imp_right .inl
  · have hne : lua "SHUTED" ≠ lua "CLOSED" := by decide
    simp only [sckrsp, hg, hk, hne, if_false]
    exact .inr (.inr ⟨hp, by simp [Calls, call, ht]⟩)

/-- An event of the link layer, with what `sckrsp` does at once. -/
theorem event_due {s u : State} {a : Links.Act Client} {l : LinkState} {idx : ℕ} (hs : Wired s)
    (hf : s.frame = none) (hu : u = { s with link := l }) (h : Links.step s.link a = some l)
    (hc : Connecting idx s) : Connecting idx (deliver u) ∨ Due idx (deliver u) ∨
      EndsIf idx (∃ id, sckid idx s = some id ∧ Links.shutNext s.link a = some id) s (deliver u) ∨
        ∃ id, sckid idx s = some id ∧ (a = .close id ∨ a = .disconnect id) := by
  subst hu
  have hleave : leaving s.frame = none := by rw [hf]; rfl
  obtain ⟨id, hid, hw⟩ := hc
  obtain hw | ha | ha | ⟨-, m, evt, val, rest, hm, hfr, he⟩ := Links.step_waits hs.shape hw h
  · exact .inl ((steady_deliver { s with link := l }).connecting ⟨id, hid, hw⟩)
  · exact .inr (.inr (.inr ⟨id, hid, .inl ha⟩))
  · exact .inr (.inr (.inr ⟨id, hid, .inr ha⟩))
  · obtain ⟨k, hk, hn⟩ := hs.owned idx id hid (by simp [hleave])
    rw [hm] at hk
    cases hk
    have hg : Sockets.getidxbyid id { s with link := l } = some idx := hs.getidxbyid hleave hid
    have hd : deliver { s with link := l } = sckrsp id evt val { s with link := l } := by
      simp only [deliver, hfr, hn, if_true]
    rw [hd]
    have he' : evt = .connect ∨ (evt = .state ∧ val = lua "SHUTED") ∧
        ∃ id, sckid idx s = some id ∧ Links.shutNext s.link a = some id :=
      he.imp_right (And.imp_right fun hn => ⟨id, hid, hn⟩)
    obtain hd | hd := sckrsp_ends (s := s) hg rfl he'
    · exact .inr (.inl hd)
    · exact .inr (.inr (.inl hd))

theorem failFirst_calls {idx : ℕ} {f : Frame} {r : State → State} {s : State}
    (hr : (r s).frame = none → (r s).calls = s.calls) (h : (failFirst idx f r s).frame = none) :
    (failFirst idx f r s).calls = s.calls := by
  unfold failFirst at h ⊢
  split at h
  · cases h
  · exact hr h

theorem calls_hand (id : Option ℕ) (idx : ℕ) (item : Item) (s : State) :
    (hand id idx item s).1.calls = s.calls := by
  have hl : (linkSend id item.data s).1.calls = s.calls := by cases id <;> rfl
  cases hs : (linkSend id item.data s).2 with
  | false => rw [hand_refused idx item hs, hl]
  | true =>
      rw [hand_taken idx item hs]
      exact hl

theorem sndnxt_calls (id : Option ℕ) (idx : ℕ) (s : State) :
    (sndnxt id idx s).calls = s.calls := by
  unfold sndnxt
  split
  · rename_i item rest _
    have hh := calls_hand id idx item (upd idx (fun k => { k with sndpending := rest }) s)
    split
    · rename_i t he
      rwa [he] at hh
    · rename_i t he
      rwa [he] at hh
  · rfl

/-- The last part of what `sckrsp` does calls nothing. -/
theorem resume_calls {f : Frame} {s : State} (h : (resume f s).frame = none) :
    (resume f s).calls = s.calls := by
  cases f with
  | conack id idx cause => exact failFirst_calls (fun h => by cases h) h
  | connected id idx suc =>
      simp only [resume]
      split
      · split
        · exact sndnxt_calls _ idx _
        · rfl
      · rfl
  | sndack id idx suc =>
      simp only [resume] at h ⊢
      split
      · split
        · split
          · exact sndnxt_calls _ idx s
          · rfl
        · rfl
      · rename_i hs
        rw [if_neg hs] at h
        exact failFirst_calls (r := fun s => s) (fun _ => rfl) h
  | flush idx => exact failFirst_calls (r := fun s => s) (fun _ => rfl) h
  | closed idx => rfl
  | lost idx val => exact failFirst_calls (fun h => by cases h) h
  | done => rfl

theorem sckid_resumed {s : State} {idx : ℕ} (hcl : s.frame ≠ some (.closed idx)) :
    sckid idx (resumed s) = sckid idx s := by
  cases hf : s.frame with
  | none => rw [resumed, hf]
  | some f =>
      have he : resumed s = resume f { s with frame := none } := by rw [resumed, hf]
      rw [he]
      cases hl : leaving (some f) with
      | none => exact (steady_resume hl { s with frame := none }).ids idx
      | some j =>
          cases f with
          | closed i =>
              have hi : idx ≠ i := by
                rintro rfl
                exact hcl hf
              simp [sckid, resume, hi]
          | _ => cases hl

/-- A callback returns: what is due stays so, or the call for `CONNECT` follows. -/
theorem resumed_due {s : State} {idx : ℕ} (hcl : s.frame ≠ some (.closed idx)) (hd : Due idx s) :
    Due idx (resumed s) ∧ ((resumed s).frame = none → (resumed s).calls = s.calls) ∨
      (∃ suc cause, Calls s (resumed s) (.connect idx suc cause)) ∧ (resumed s).frame ≠ none := by
  cases hf : s.frame with
  | none =>
      rw [resumed, hf]
      exact .inl ⟨hd, fun _ => rfl⟩
  | some f =>
      have he : resumed s = resume f { s with frame := none } := by rw [resumed, hf]
      have quiet (hc : (resumed s).frame = none) : (resumed s).calls = s.calls := by
        rw [he] at hc ⊢
        exact resume_calls hc
      obtain hc | ⟨i, c, hfail⟩ := hd
      · refine .inl ⟨.inl ?_, quiet⟩
        have hc0 : Connecting idx { s with frame := none } := hc
        rw [he]
        cases hl : leaving (some f) with
        | none => exact (steady_resume hl _).connecting hc0
        | some j =>
            have hfc : f = .closed j := by
              cases f <;> cases hl
              rfl
            subst hfc
            have hj : idx ≠ j := by
              rintro rfl
              exact hcl hf
            obtain ⟨id, hid, hw⟩ := hc
            exact ⟨id, by simpa [sckid, resume, hj] using hid, hw⟩
      · rw [hf] at hfail
        cases hfail
        have hdone : (resumed s).frame ≠ none := by
          rw [he]
          simp only [resume, conackLoop, failFirst]
          split <;> simp [call]
        have hcon : resumed s = conack i idx c false { s with frame := none } := he
        rw [hcon] at hdone quiet ⊢
        obtain hd | hd : Due idx (conack i idx c false { s with frame := none }) ∨
            ∃ suc cause, Calls s (conack i idx c false { s with frame := none })
              (.connect idx suc cause) := conack_due rfl
        · exact .inl ⟨hd, quiet⟩
        · exact .inr ⟨hd, hdone⟩

/-- What ends a wait without a call of `rsp`: the link is closed or disconnected, or the
socket has gone. -/
def Quits (s : State) (a : Act) (idx : ℕ) : Prop :=
  (∃ id, sckid idx s = some id ∧
    ((∃ j, sckid j s = some id ∧ (a = .close j ∨ ∃ cause, a = .disconnect j cause)) ∨
      a = .link (.close id) ∨ a = .link (.disconnect id))) ∨
    a = .ret ∧ s.frame = some (.closed idx)

/-- A step leaves what is due, or makes the call, or gives the connection up; a call for
`SHUTED` comes from the loop of `shutcnf`. -/
theorem step_endsIf {s t : State} {a : Act} {idx : ℕ} (hs : Wired s) (h : step s a = some t)
    (hd : Due idx s) : Due idx t ∨ EndsIf idx (Shut s a idx) s t ∨ Quits s a idx := by
  cases a with
  | create j prot addr port cause =>
      cases h
      exact .inl (create_due hd)
  | connect j prot addr port cause =>
      cases h
      exact .inl (connect_due j prot addr port cause hd)
  | send j data para pos ins =>
      obtain ⟨-, ⟨⟩⟩ := Option.ite_none_right_eq_some.mp h
      have hst := steady_send j data para pos ins s
      exact .inl (hd.steady hst.1 hst.2)
  | disconnect j cause =>
      cases h
      by_cases hq : Apart j idx s
      · exact .inl (disconnect_due hd hq)
      · obtain ⟨⟨id, hi, -⟩, he⟩ := Classical.not_imp.mp hq
        exact .inr (.inr (.inl ⟨id, hi, .inl ⟨j, (not_not.mp he).symm.trans hi, .inr ⟨cause, rfl⟩⟩⟩))
  | close j =>
      cases h
      by_cases hq : Apart j idx s
      · exact .inl (close_due hd hq)
      · obtain ⟨⟨id, hi, -⟩, he⟩ := Classical.not_imp.mp hq
        exact .inr (.inr (.inl ⟨id, hi, .inl ⟨j, (not_not.mp he).symm.trans hi, .inl rfl⟩⟩))
  | setwaitingrspitem j item =>
      cases h
      have hst := steady_setwaitingrspitem j item s
      exact .inl (hd.steady hst.1 hst.2)
  | link a =>
      obtain ⟨hfor, h⟩ := Option.ite_none_right_eq_some.mp h
      obtain ⟨l, hl, rfl⟩ := Option.map_eq_some_iff.mp h
      cases hf : s.link.frame with
      | none =>
          have hfs : s.frame = none := by
            by_contra hn
            exact hs.frame hn hf
          obtain hc | ⟨i, c, hc⟩ := hd
          · simp only [Option.isNone_none, if_true]
            obtain hc | hc | hc | ⟨id, hid, ha⟩ := event_due hs hfs rfl hl hc
            · exact .inl (.inl hc)
            · exact .inl hc
            · exact .inr (.inl hc)
            · obtain rfl | rfl := ha
              · exact .inr (.inr (.inl ⟨id, hid, .inr (.inl rfl)⟩))
              · exact .inr (.inr (.inl ⟨id, hid, .inr (.inr rfl)⟩))
          · rw [hfs] at hc
            cases hc
      | some f =>
          simp only [Option.isNone_some, Bool.false_eq_true, if_false]
          obtain ⟨id, hid, hw⟩ | ⟨i, c, hc⟩ := hd
          · obtain hw | rfl | rfl | ⟨rfl | hn, -⟩ := Links.step_waits hs.shape hw hl
            · exact .inl (.inl ⟨id, hid, hw⟩)
            · exact .inr (.inr (.inl ⟨id, hid, .inr (.inl rfl)⟩))
            · exact .inr (.inr (.inl ⟨id, hid, .inr (.inr rfl)⟩))
            · cases hfor
            · rw [hf] at hn
              cases hn
          · exact .inl (.inr ⟨i, c, hc⟩)
  | ret =>
      by_cases hcl : s.frame = some (.closed idx)
      · exact .inr (.inr (.inr ⟨rfl, hcl⟩))
      obtain ⟨hne, rfl⟩ | ⟨hfr, l, hl, rfl⟩ := step_ret.mp h
      · obtain hr | hr := resumed_due hcl hd
        · exact .inl hr.1
        · exact .inr (.inl (.inl hr.1))
      · obtain ⟨hr, hcalls⟩ | hr := resumed_due hcl hd
        · obtain hc | ⟨i, c, hc⟩ := hr
          · obtain hc | hc | hc | ⟨id, -, ha⟩ := event_due (resumed_wired hs) hfr rfl hl hc
            · exact .inl (.inl hc)
            · exact .inl hc
            · refine .inr (.inl ?_)
              simpa only [EndsIf, Shut, shuts, Calls, hcalls hfr, if_pos hfr, sckid_resumed hcl] using hc
            · obtain ha | ha := ha <;> cases ha
          · rw [hfr] at hc
            cases hc
        · exact absurd hfr hr.2

theorem step_due {s t : State} {a : Act} {idx : ℕ} (hs : Wired s) (h : step s a = some t)
    (hd : Due idx s) : Due idx t ∨ Ends idx s t ∨ Quits s a idx :=
  (step_endsIf hs h hd).imp_right (Or.imp_left EndsIf.ends)

end LuatAir200.Sockets
