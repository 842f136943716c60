import LuatAir200.LinkOwner
import LuatAir200.SocketConnecting

/-!
# The sockets and their links, one to one

Every socket has a link of its own that tells `sckrsp`, and every such link has its socket. The
exception is the entry of a socket whose `CLOSE` callback is being run. A socket gets no link at
all when it is created while all links are taken.
-/
namespace LuatAir200.Sockets
open Lua Machine

/-- The entries of `scks` other than `out` and the open links of `sckrsp` belong together. -/
structure OneToOne (out : Option ℕ) (s : State) : Prop where
  owned : ∀ idx k, s.scks idx = some k → out ≠ some idx → ∃ id, k.id = some id ∧ Owned id s.link
  inj : ∀ i j id, sckid i s = some id → sckid j s = some id → out ≠ some i → out ≠ some j → i = j
  onto : ∀ id, Owned id s.link → ∃ idx, out ≠ some idx ∧ sckid idx s = some id
  there : ∀ idx, out = some idx → s.scks idx ≠ none

/-- The two tables correspond. -/
def Corresponds (s : State) : Prop := OneToOne none s

/-- They correspond but for an entry that goes when its `CLOSE` callback returns. -/
def CorrespondsButLeaving (s : State) : Prop := OneToOne (leaving s.frame) s

/-- `create` finds a link that it can open. -/
def hasLink (s : State) : Act → Bool
  | .create idx _ _ _ _ => ¬idx ≤ SCK_MAX_CNT ∨ (s.scks idx).isSome ∨ (Links.emptylink s.link).isSome
  | _ => true

/-- The event frees the link of a socket. -/
def frees (s : State) : Act → Bool
  | .link a =>
      (Links.closeOf s.link a).any fun id =>
        (s.link.linklist id).any fun l => l.state = .closing ∧ l.notify = .sckrsp
  | _ => false

/-! ## Changes that leave both tables alone -/

/-- What the entry of a socket says about its link. -/
def entry (idx : ℕ) (s : State) : Option (Option ℕ) := (s.scks idx).map Sock.id

structure Firm (s t : State) : Prop where
  entry : ∀ idx, entry idx t = entry idx s
  owner : ∀ id, Links.owner id t.link = Links.owner id s.link
  frame : leaving s.frame = none → leaving t.frame = none

theorem Firm.refl (s : State) : Firm s s := ⟨fun _ => rfl, fun _ => rfl, id⟩

theorem Firm.trans {s t u : State} (h : Firm s t) (h' : Firm t u) : Firm s u where
  entry idx := (h'.entry idx).trans (h.entry idx)
  owner id := (h'.owner id).trans (h.owner id)
  frame hs := h'.frame (h.frame hs)

theorem owned_iff {id : ℕ} {l : LinkState} : Owned id l ↔ Links.owner id l = some .sckrsp := by
  rw [Links.owner, Option.map_eq_some_iff]
  rfl

theorem sckid_eq (idx : ℕ) (s : State) : sckid idx s = (entry idx s).join := by
  rw [sckid, entry]
  cases s.scks idx <;> rfl

theorem Firm.sckid {s t : State} (h : Firm s t) (idx : ℕ) :
    Sockets.sckid idx t = Sockets.sckid idx s := by
  rw [sckid_eq, sckid_eq, h.entry]

theorem Firm.owned {s t : State} (h : Firm s t) (id : ℕ) : Owned id t.link ↔ Owned id s.link := by
  rw [owned_iff, owned_iff, h.owner]

theorem scks_of_entry {s t : State} {idx : ℕ} {k : Sock} (h : entry idx t = entry idx s)
    (hk : t.scks idx = some k) : ∃ m, s.scks idx = some m ∧ m.id = k.id := by
  have hm : (s.scks idx).map Sock.id = some k.id := by
    rw [← entry, ← h, entry, hk]
    rfl
  exact Option.map_eq_some_iff.mp hm

theorem OneToOne.firm {out : Option ℕ} {s t : State} (h : OneToOne out s) (hf : Firm s t) :
    OneToOne out t where
  owned idx k hk hn := by
    obtain ⟨m, hm, hid⟩ := scks_of_entry (hf.entry idx) hk
    obtain ⟨id, hi, ho⟩ := h.owned idx m hm hn
    exact ⟨id, hid.symm.trans hi, (hf.owned id).mpr ho⟩
  inj i j id hi hj := h.inj i j id ((hf.sckid i).symm.trans hi) ((hf.sckid j).symm.trans hj)
  onto id ho := by
    obtain ⟨idx, hn, hi⟩ := h.onto id ((hf.owned id).mp ho)
    exact ⟨idx, hn, (hf.sckid idx).trans hi⟩
  there idx hn ht := by
    have he : entry idx s = none := by
      rw [← hf.entry, entry, ht]
      rfl
    exact h.there idx hn (Option.map_eq_none_iff.mp he)

theorem firm_upd {f : Sock → Sock} (hf : ∀ k, (f k).id = k.id) (idx : ℕ) (s : State) :
    Firm s (upd idx f s) := by
  refine ⟨fun i => ?_, fun _ => rfl, id⟩
  by_cases hi : i = idx
  · subst hi
    cases hk : s.scks i <;> simp [entry, upd, hk, hf]
  · simp [entry, upd, hi]

theorem firm_linkConnect (id : Option ℕ) (prot addr port : LuaString) (s : State) :
    Firm s (linkConnect id prot addr port s).1 := by
  cases id with
  | none => exact .refl s
  | some k => exact ⟨fun _ => rfl, fun id => Links.owner_connect k prot addr port id s.link, id⟩

theorem firm_linkDisconnect (id : Option ℕ) (s : State) : Firm s (linkDisconnect id s).1 := by
  cases id with
  | none => exact .refl s
  | some k => exact ⟨fun _ => rfl, fun id => Links.owner_disconnect k id s.link, id⟩

theorem firm_linkClose (id : Option ℕ) (s : State) : Firm s (linkClose id s).1 := by
  cases id with
  | none => exact .refl s
  | some k => exact ⟨fun _ => rfl, fun id => Links.owner_close k id s.link, id⟩

theorem firm_linkSend (id : Option ℕ) (data : LuaString) (s : State) :
    Firm s (linkSend id data s).1 := by
  cases id with
  | none => exact .refl s
  | some k => exact ⟨fun _ => rfl, fun id => Links.owner_send k data id s.link, id⟩

theorem firm_hand (id : Option ℕ) (idx : ℕ) (item : Item) (s : State) :
    Firm s (hand id idx item s).1 := by
  have hl := firm_linkSend id item.data s
  cases hs : (linkSend id item.data s).2 with
  | false => rwa [hand_refused idx item hs]
  | true =>
      rw [hand_taken idx item hs]
      have hu : Firm s (upd idx (fun k => { k with sndingitem := some item })
          (linkSend id item.data s).1) := hl.trans (firm_upd (by exact fun _ => rfl) idx _)
      exact ⟨hu.entry, hu.owner, hu.frame⟩

theorem firm_sndnxt (id : Option ℕ) (idx : ℕ) (s : State) : Firm s (sndnxt id idx s) := by
  unfold sndnxt
  split
  · rename_i item rest _
    have hu : Firm s (upd idx (fun k => { k with sndpending := rest }) s) :=
      firm_upd (by exact fun _ => rfl) idx s
    have hh := hu.trans (firm_hand id idx item _)
    split
    · rename_i t he
      rwa [he] at hh
    · rename_i t he
      rw [he] at hh
      exact hh.trans (firm_upd (by exact fun _ => rfl) idx t)
  · exact .refl s

theorem firm_call (c : Call) {f : Frame} (hf : leaving (some f) = none) (s : State) :
    Firm s (call c f s) := ⟨fun _ => rfl, fun _ => rfl, fun _ => hf⟩

theorem firm_failFirst (idx : ℕ) {f : Frame} (hf : leaving (some f) = none) {r : State → State}
    {s : State} (hr : Firm s (r s)) : Firm s (failFirst idx f r s) := by
  unfold failFirst
  split
  · exact (firm_upd (by exact fun _ => rfl) idx s).trans (firm_call _ hf _)
  · exact hr

theorem firm_conack (id idx : ℕ) (cause : Option ℕ) (suc : Bool) (s : State) :
    Firm s (conack id idx cause suc s) := by
  unfold conack
  split
  · exact firm_call _ rfl s
  · exact firm_failFirst (r := call (.connect idx false cause) (.connected id idx false)) idx rfl
      (firm_call _ rfl s)

theorem firm_lostLoop (idx : ℕ) (val : LuaString) (s : State) : Firm s (lostLoop idx val s) :=
  firm_failFirst (r := call (.state idx val) .done) idx rfl (firm_call _ rfl s)

theorem firm_sndack (id idx : ℕ) (suc : Bool) (item : Option Item) (s : State) :
    Firm s (sndack id idx suc item s) :=
  (firm_upd (by exact fun _ => rfl) idx s).trans (firm_call _ rfl _)

theorem firm_sckrsp {evt : Links.Evt} (he : evt ≠ .close) (id : ℕ) (val : LuaString) (s : State) :
    Firm s (sckrsp id evt val s) := by
  unfold sckrsp
  split
  · exact .refl s
  split
  · exact .refl s
  rename_i _ idx _ _ k _
  cases evt with
  | connect =>
      simp only
      split
      · have hu : Firm s (upd idx (fun k => { k with conretry := k.conretry + 1 }) s) :=
          firm_upd (by exact fun _ => rfl) idx s
        rw [if_pos (Nat.le_add_left 1 _)]
        exact hu.trans (firm_conack id idx _ false _)
      · exact firm_conack id idx _ true s
  | send =>
      simp only
      split
      · have hu : Firm s (upd idx (fun k => { k with sndretry := k.sndretry + 1 }) s) :=
          firm_upd (by exact fun _ => rfl) idx s
        rw [if_pos (Nat.le_add_left 1 _)]
        exact hu.trans (firm_sndack id idx false _ _)
      · exact firm_sndack id idx true _ s
  | disconnect =>
      have hu : Firm s (discrstpara idx s) := firm_upd (by exact fun _ => rfl) idx s
      simp only
      split
      · exact (hu.trans (firm_upd (by exact fun _ => rfl) idx _)).trans (firm_call _ rfl _)
      · exact hu.trans (firm_call _ rfl _)
  | close => exact absurd rfl he
  | state =>
      simp only
      split
      · exact firm_lostLoop idx val s
      · exact firm_call _ rfl s

theorem firm_deliver {s : State}
    (h : ∀ n r, s.link.frame = some (n, r) → n.notify = .sckrsp → n.evt ≠ .close) :
    Firm s (deliver s) := by
  unfold deliver
  split
  · rename_i n r hf
    split
    · rename_i hn
      exact firm_sckrsp (h n r hf hn) _ _ s
    · exact .refl s
  · exact .refl s

theorem firm_resume {f : Frame} (hf : leaving (some f) = none) (s : State) :
    Firm s (resume f s) := by
  cases f with
  | conack id idx cause => exact firm_conack id idx cause false s
  | connected id idx suc =>
      have hu : Firm s (conrstpara idx suc s) := firm_upd (by intro k; cases suc <;> rfl) idx s
      refine hu.trans ?_
      simp only [resume]
      split
      · split
        · exact firm_sndnxt _ idx _
        · exact .refl _
      · exact .refl _
  | sndack id idx suc =>
      simp only [resume]
      split
      · split
        · split
          · exact firm_sndnxt _ idx s
          · exact .refl s
        · exact .refl s
      · exact firm_failFirst (r := fun s => s) idx rfl (.refl s)
  | flush idx => exact firm_failFirst (r := fun s => s) idx rfl (.refl s)
  | closed idx => cases hf
  | lost idx val => exact firm_lostLoop idx val s
  | done => exact .refl s

theorem firm_send (idx : ℕ) (data : LuaString) (para : ℕ) (pos : Option ℕ) (ins : Bool)
    (s : State) : Firm s (send idx data para pos ins s).1 := by
  have enq (item : Item) (u : State) : Firm u (enqueue idx item pos u) := by
    have hu : Firm u (upd idx (fun k => { k with
        sndpending := k.sndpending.insertIdx ((pos.map (· - 1)).getD k.sndpending.length) item })
        u) := firm_upd (by exact fun _ => rfl) idx u
    exact ⟨hu.entry, hu.owner, hu.frame⟩
  unfold send
  split
  swap
  · exact .refl s
  rename_i k _ hk
  split
  · exact .refl s
  dsimp only
  split
  · have hl := firm_linkConnect k.id k.prot k.addr k.port s
    split
    · exact hl.trans (enq _ _)
    · exact hl
  split
  · exact enq _ s
  · rename_i hd _ _
    have hh := firm_hand k.id idx ⟨(s.accepted idx).length, data, para, hd⟩ s
    exact ⟨hh.entry, hh.owner, hh.frame⟩

theorem firm_setwaitingrspitem (idx : ℕ) (item : Option LuaString) (s : State) :
    Firm s (setwaitingrspitem idx item s) := by
  have resumed (u : State) : Firm u (rsumscksnd idx u) := by
    unfold rsumscksnd
    split
    · exact .refl u
    split
    · exact firm_linkConnect _ _ _ _ u
    split
    · exact firm_sndnxt _ idx u
    · exact .refl u
  have hu : Firm s (upd idx (fun k => { k with waitingrspitem := item }) s) :=
    firm_upd (by exact fun _ => rfl) idx s
  unfold setwaitingrspitem
  split
  · exact .refl s
  · dsimp only
    split
    · exact hu.trans (resumed _)
    · exact hu

/-- Another entry for the link that the socket has. -/
theorem firm_init {idx : ℕ} {k : Sock} {s t : State} (hk : s.scks idx = some k) (ht : Firm s t)
    (cause : Option ℕ) (prot addr port : LuaString) (discause : Option ℕ) :
    Firm s (init idx k.id cause prot addr port discause t) := by
  refine ⟨fun i => ?_, ht.owner, ht.frame⟩
  by_cases hi : i = idx
  · subst hi
    simp [entry, init, hk]
  · rw [← ht.entry]
    simp [entry, init, hi]

/-! ## Opening -/

/-- `link.open` gives socket `idx`, which had no entry, a link of its own. -/
theorem CorrespondsButLeaving.opened {s t : State} {idx k : ℕ} (h : CorrespondsButLeaving s) (hw : Wired t)
    (hn : s.scks idx = none) (hk : Links.emptylink s.link = some k)
    (he : ∀ i, entry i t = if i = idx then some (some k) else entry i s)
    (ho : ∀ id, Links.owner id t.link = if id = k then some .sckrsp else Links.owner id s.link)
    (hf : t.frame = s.frame) : CorrespondsButLeaving t := by
  obtain ⟨hfree, -⟩ := Links.emptylink_free hk
  have hout : leaving t.frame ≠ some idx := by
    rw [hf]
    exact fun hl => h.there idx hl hn
  have hown : ∀ id, Owned id t.link ↔ id = k ∨ Owned id s.link := by
    intro id
    rw [owned_iff, owned_iff, ho]
    by_cases hi : id = k <;> simp [hi]
  have hself : sckid idx t = some k := by
    rw [sckid_eq, he, if_pos rfl]
    rfl
  have hne : ∀ i, i ≠ idx → sckid i t = sckid i s := by
    intro i hi
    rw [sckid_eq, sckid_eq, he, if_neg hi]
  constructor
  · intro i m hm hl
    by_cases hi : i = idx
    · have hmk : (t.scks i).map Sock.id = some (some k) := by
        rw [← entry, he, if_pos hi]
      rw [hm] at hmk
      exact ⟨k, Option.some.inj hmk, (hown k).mpr (.inl rfl)⟩
    · have hme : entry i t = entry i s := by rw [he, if_neg hi]
      obtain ⟨m', hm', hid⟩ := scks_of_entry hme hm
      obtain ⟨id, hid', hid''⟩ := h.owned i m' hm' (hf ▸ hl)
      exact ⟨id, hid.symm.trans hid', (hown id).mpr (.inr hid'')⟩
  · exact hw.inj
  · intro id hid
    obtain rfl | hid := (hown id).mp hid
    · exact ⟨idx, hout, hself⟩
    · obtain ⟨i, hl, hi⟩ := h.onto id hid
      have hii : i ≠ idx := by
        rintro rfl
        simp [sckid, hn] at hi
      exact ⟨i, hf ▸ hl, (hne i hii).trans hi⟩
  · intro i hl ht
    have hi : i ≠ idx := by
      rintro rfl
      exact hout hl
    have hie : entry i s = none := by
      rw [← if_neg (t := some (some k)) (e := entry i s) hi, ← he, entry, ht]
      rfl
    exact h.there i (hf ▸ hl) (Option.map_eq_none_iff.mp hie)

theorem entry_init (idx : ℕ) (id cause : Option ℕ) (prot addr port : LuaString)
    (discause : Option ℕ) (s : State) (i : ℕ) :
    entry i (init idx id cause prot addr port discause s) =
      if i = idx then some id else entry i s := by
  by_cases hi : i = idx
  · subst hi
    simp [entry, init]
  · simp [entry, init, hi]

theorem owner_linkOpen {s : State} {k : ℕ} (hk : Links.emptylink s.link = some k) (id : ℕ) :
    Links.owner id (linkOpen s).1.link = if id = k then some .sckrsp else Links.owner id s.link :=
  Links.owner_openlink hk .sckrsp false id

theorem linkOpen_some {s : State} {k : ℕ} (hk : Links.emptylink s.link = some k) :
    (linkOpen s).2 = some k := by
  simp only [linkOpen, Links.openlink, hk]

theorem linkOpen_none {s : State} (hk : Links.emptylink s.link = none) :
    linkOpen s = (s, none) := by
  simp only [linkOpen, Links.openlink, hk]

/-- `create` keeps the correspondence exactly when it finds a link. -/
theorem create_corresponds {s : State} {idx : ℕ} (h : CorrespondsButLeaving s)
    (prot addr port : LuaString) (cause : Option ℕ)
    (hw : Wired (create idx prot addr port cause s).1) :
    CorrespondsButLeaving (create idx prot addr port cause s).1 ↔
      hasLink s (.create idx prot addr port cause) = true := by
  simp only [hasLink, decide_eq_true_eq]
  by_cases hr : ¬idx ≤ SCK_MAX_CNT ∨ (s.scks idx).isSome
  · have hs : (create idx prot addr port cause s).1 = s := by rw [create, if_pos hr]
    rw [hs]
    have hl : ¬idx ≤ SCK_MAX_CNT ∨ (s.scks idx).isSome ∨ (Links.emptylink s.link).isSome := by
      rw [← or_assoc]
      exact .inl hr
    exact ⟨fun _ => hl, fun _ => h⟩
  · have hs : (create idx prot addr port cause s).1 =
        init idx (linkOpen s).2 cause prot addr port none (linkOpen s).1 := by
      rw [create, if_neg hr]
    rw [hs] at hw ⊢
    rw [not_or, Option.not_isSome_iff_eq_none] at hr
    obtain ⟨hidx, hn⟩ := hr
    cases hk : Links.emptylink s.link with
    | none =>
        have hno : ¬(¬idx ≤ SCK_MAX_CNT ∨ (s.scks idx).isSome ∨ (none : Option ℕ).isSome) := by
          simp [hn, not_not.mp hidx]
        refine ⟨fun hc => ?_, fun hl => absurd hl hno⟩
        rw [linkOpen_none hk] at hc
        have hl : leaving s.frame ≠ some idx := fun hl => h.there idx hl hn
        have hget : (init idx none cause prot addr port none s).scks idx ≠ none := by simp [init]
        obtain ⟨m, hm⟩ := Option.ne_none_iff_exists'.mp hget
        obtain ⟨id, hid, -⟩ := hc.owned idx m hm hl
        have hnil : entry idx (init idx none cause prot addr port none s) = some none := by
          rw [entry_init, if_pos rfl]
        rw [entry, hm, Option.map_some, hid] at hnil
        cases hnil
    | some k =>
        refine ⟨fun _ => .inr (.inr rfl), fun _ => ?_⟩
        rw [linkOpen_some hk] at hw ⊢
        refine h.opened hw hn hk (entry_init idx (some k) cause prot addr port none _) ?_ rfl
        exact owner_linkOpen hk

theorem connect_corresponds {s : State} {idx : ℕ} (h : CorrespondsButLeaving s)
    (prot addr port : LuaString) (cause : Option ℕ)
    (hw : Wired (connect idx prot addr port cause s).1) :
    CorrespondsButLeaving (connect idx prot addr port cause s).1 := by
  have firm {t : State} (ht : Firm s t) (hf : t.frame = s.frame) : CorrespondsButLeaving t := by
    rw [CorrespondsButLeaving, hf]
    exact h.firm ht
  have hcf (id : Option ℕ) (u : State) : (linkConnect id prot addr port u).1.frame = u.frame := by
    cases id <;> rfl
  have hdf (id : Option ℕ) : (linkDisconnect id s).1.frame = s.frame := by cases id <;> rfl
  unfold connect at hw ⊢
  split
  · exact h
  rename_i hmax
  rw [if_neg hmax] at hw
  split
  · rename_i k hk
    split
    · split
      · exact h
      · exact firm (firm_init hk (firm_linkDisconnect k.id s) cause prot addr port _) (hdf k.id)
    · have ht := firm_linkConnect k.id prot addr port s
      have hf := hcf k.id s
      split
      · rename_i t he
        rw [he] at ht hf
        exact firm (firm_init hk ht cause prot addr port none) hf
      · rename_i t he
        rw [he] at ht hf
        exact firm ht hf
  · rename_i hn
    simp only [hn] at hw
    cases hk : Links.emptylink s.link with
    | none =>
        rw [linkOpen_none hk]
        exact h
    | some k =>
        dsimp only
        rw [linkOpen_some hk] at hw ⊢
        have ho (id : ℕ) : Links.owner id (linkConnect (some k) prot addr port (linkOpen s).1).1.link =
            if id = k then some .sckrsp else Links.owner id s.link := by
          rw [(firm_linkConnect (some k) prot addr port (linkOpen s).1).owner id]
          exact owner_linkOpen hk id
        have he (i : ℕ) : entry i (linkConnect (some k) prot addr port (linkOpen s).1).1 =
            entry i s := (firm_linkConnect (some k) prot addr port (linkOpen s).1).entry i
        have hf := hcf (some k) (linkOpen s).1
        have hr : (linkConnect (some k) prot addr port (linkOpen s).1).2 = true :=
          Links.openlink_connects hk .sckrsp false prot addr port
        split
        · rename_i t ht
          rw [ht] at ho he hf hw
          refine h.opened hw hn hk ?_ ho hf
          intro i
          rw [entry_init, he]
        · rename_i t ht
          rw [ht] at hr
          cases hr

/-! ## Events -/

theorem frees_iff {s : State} {a : Links.Act Client} : frees s (.link a) = true ↔
    ∃ id, Links.closeOf s.link a = some id ∧ ∃ l, s.link.linklist id = some l ∧
      l.state = .closing ∧ l.notify = .sckrsp := by
  simp only [frees, Option.any_eq_true, decide_eq_true_eq]

/-- Other modules open links for themselves. -/
theorem foreign_opens {s : State} {a : Links.Act Client} {l : LinkState} {id : ℕ}
    (hfor : foreign s a = true) (h : Links.step s.link a = some l)
    (ho : Links.opensOf s.link a = some id) : ¬Owned id l := by
  obtain ⟨n, tag, ha, hown⟩ := Links.step_opens h ho
  have hn : n ≠ .sckrsp := by
    obtain rfl | rfl := ha <;> simpa [foreign] using hfor
  rw [owned_iff, hown]
  exact fun he => hn (Option.some.inj he)

/-- The links of `sckrsp` are the same after an action that frees none of them. -/
theorem owned_step {s : State} {a : Links.Act Client} {l : LinkState} (hw : Wired s)
    (hfor : foreign s a = true ∨ a = .ret) (h : Links.step s.link a = some l)
    (hn : frees s (.link a) = false) (id : ℕ) : Owned id l ↔ Owned id s.link := by
  obtain he | ⟨ho, hnone⟩ | ⟨hc, m, hm, hst, hgone⟩ := Links.step_owner hw.shape h id
  · rw [owned_iff, owned_iff, he]
  · have hs : ¬Owned id s.link := by
      rintro ⟨m, hm, -⟩
      rw [hnone] at hm
      cases hm
    have hl : ¬Owned id l := by
      obtain hfor | rfl := hfor
      · exact foreign_opens hfor h ho
      · cases ho
    exact iff_of_false hl hs
  · have hs : ¬Owned id s.link := by
      rintro ⟨m', hm', hn'⟩
      rw [hm] at hm'
      cases hm'
      rw [frees_iff.mpr ⟨id, hc, m, hm, hst, hn'⟩] at hn
      cases hn
    have hl : ¬Owned id l := by
      rintro ⟨m', hm', -⟩
      rw [hgone] at hm'
      cases hm'
    exact iff_of_false hl hs

/-- No socket is told `CLOSE` then. -/
theorem told_other {s : State} {a : Links.Act Client} {l : LinkState}
    (hf : s.link.frame = none ∨ a = .ret) (h : Links.step s.link a = some l)
    (hn : frees s (.link a) = false) (n : Links.Notice Client) (r : Links.Rest)
    (hl : l.frame = some (n, r)) (hself : n.notify = .sckrsp) : n.evt ≠ .close := by
  intro he
  obtain ⟨hc, m, hm, hst⟩ := Links.step_closes h hf hl he
  have hfr := Links.step_freed hc hm hst h
  rw [hl] at hfr
  have hnm : n.notify = m.notify := congrArg (fun p => p.1.notify) (Option.some.inj hfr)
  rw [frees_iff.mpr ⟨n.id, hc, m, hm, hst, hnm.symm.trans hself⟩] at hn
  cases hn

theorem OneToOne.of_owned {out : Option ℕ} {s : State} {l : LinkState} (h : OneToOne out s)
    (ho : ∀ id, Owned id l ↔ Owned id s.link) : OneToOne out { s with link := l } where
  owned idx k hk hn := by
    obtain ⟨id, hid, hid'⟩ := h.owned idx k hk hn
    exact ⟨id, hid, (ho id).mpr hid'⟩
  inj := h.inj
  onto id hid := h.onto id ((ho id).mp hid)
  there := h.there

/-- An event that frees no link of a socket keeps the correspondence. -/
theorem event_corresponds {s : State} {a : Links.Act Client} {l : LinkState} (hw : Wired s)
    (hs : Corresponds s) (hf : s.frame = none) (hlf : s.link.frame = none ∨ a = .ret)
    (hfor : foreign s a = true ∨ a = .ret) (h : Links.step s.link a = some l)
    (hn : frees s (.link a) = false) :
    Corresponds (deliver { s with link := l }) ∧
      leaving (deliver { s with link := l }).frame = none := by
  have hfirm : Firm { s with link := l } (deliver { s with link := l }) := firm_deliver (by
    intro n r hfr hself
    exact told_other hlf h hn n r hfr hself)
  have hl : leaving ({ s with link := l } : State).frame = none := by
    show leaving s.frame = none
    rw [hf]
    rfl
  exact ⟨(hs.of_owned (owned_step hw hfor h hn)).firm hfirm, hfirm.frame hl⟩

/-- When the link of a socket is freed, its entry stays until the `CLOSE` callback returns. -/
theorem freed_corresponds {s : State} {a : Links.Act Client} {l : LinkState} (hw : Wired s)
    (hs : Corresponds s) (hf : s.frame = none) (hfor : foreign s a = true)
    (h : Links.step s.link a = some l) (hfr : frees s (.link a) = true) :
    CorrespondsButLeaving (deliver { s with link := l }) ∧
      ¬Corresponds (deliver { s with link := l }) := by
  obtain ⟨id, hc, m, hm, hst, hself⟩ := frees_iff.mp hfr
  have hlf := Links.step_freed hc hm hst h
  obtain ⟨idx, -, hidx⟩ := hs.onto id ⟨m, hm, hself⟩
  obtain ⟨k, hk, hkid⟩ := Option.bind_eq_some_iff.mp hidx
  have hleave : leaving s.frame = none := by rw [hf]; rfl
  have hg : getidxbyid id { s with link := l } = some idx := hw.getidxbyid hleave hidx
  have he : deliver { s with link := l } =
      call (.close idx) (.closed idx) { s with link := l } := by
    simp only [deliver, hlf, hself, if_true, sckrsp, hg, hk]
  have hgone : ¬Owned id l := by
    obtain ⟨k', hk', -⟩ | ⟨-, -, hnone⟩ := Links.step_link hw.shape hm h
    · rintro -
      have hclosed := Links.step_closeOf h hc
      have htk : (Links.taken s.link a).linklist id = some m :=
        (congrFun (Links.taken_linklist s.link a) id).trans hm
      rw [Links.closecnf_eq htk, if_neg (by simp [hst]), if_pos hst] at hclosed
      rw [hclosed] at hk'
      simp [Links.freed, Links.notify, Links.setLink] at hk'
    · rintro ⟨k', hk', -⟩
      rw [hnone] at hk'
      cases hk'
  have hother : ∀ i, i ≠ id → (Owned i l ↔ Owned i s.link) := by
    intro i hi
    obtain he | ⟨ho, -⟩ | ⟨hc', -⟩ := Links.step_owner hw.shape h i
    · rw [owned_iff, owned_iff, he]
    · cases a <;> first | cases ho | cases hc
    · rw [hc] at hc'
      exact absurd (Option.some.inj hc').symm hi
  rw [he]
  refine ⟨?_, ?_⟩
  · show OneToOne (some idx) _
    constructor
    · intro i n hn hi
      obtain ⟨j, hj, hjo⟩ := hs.owned i n hn (by simp)
      refine ⟨j, hj, (hother j ?_).mpr hjo⟩
      rintro rfl
      have hn' : s.scks i = some n := hn
      have hij : sckid i s = some j := by
        rw [sckid, hn']
        exact hj
      exact hi (by rw [hs.inj i idx j hij hidx (by simp) (by simp)])
    · intro i j n hi hj _ _
      exact hs.inj i j n hi hj (by simp) (by simp)
    · intro j hj
      have hji : j ≠ id := by
        rintro rfl
        exact hgone hj
      obtain ⟨i, -, hi⟩ := hs.onto j ((hother j hji).mp hj)
      refine ⟨i, ?_, hi⟩
      intro hii
      obtain rfl := Option.some.inj hii
      rw [hidx] at hi
      exact hji (Option.some.inj hi).symm
    · intro i hi hnone
      obtain rfl := Option.some.inj hi
      have hnone' : s.scks idx = none := hnone
      rw [hk] at hnone'
      cases hnone'
  · intro hcor
    obtain ⟨j, hj, hjo⟩ := hcor.owned idx k hk (by simp)
    rw [hkid] at hj
    obtain rfl := Option.some.inj hj
    exact hgone hjo

/-- A callback returns. -/
theorem resumed_corresponds {s : State} (hs : CorrespondsButLeaving s) :
    Corresponds (resumed s) ∧ leaving (resumed s).frame = none := by
  unfold CorrespondsButLeaving at hs
  unfold resumed
  split
  swap
  · rename_i hf
    rw [hf] at hs
    exact ⟨hs, by rw [hf]; rfl⟩
  rename_i f hf
  rw [hf] at hs
  cases hl : leaving (some f) with
  | none =>
      rw [hl] at hs
      have hfirm : Firm { s with frame := none } (resume f { s with frame := none }) :=
        firm_resume hl _
      have hs0 : OneToOne none { s with frame := none } := ⟨hs.owned, hs.inj, hs.onto, hs.there⟩
      exact ⟨hs0.firm hfirm, hfirm.frame rfl⟩
  | some idx =>
      have hfc : f = .closed idx := by
        cases f <;> cases hl
        rfl
      subst hfc
      have hother : ∀ i, i ≠ idx →
          (resume (.closed idx) { s with frame := none }).scks i = s.scks i := by
        intro i hi
        simp [resume, hi]
      have hgone : (resume (.closed idx) { s with frame := none }).scks idx = none := by
        simp [resume]
      have hne {i : ℕ} {n : ℕ}
          (hi : sckid i (resume (.closed idx) { s with frame := none }) = some n) : i ≠ idx := by
        rintro rfl
        simp [sckid, hgone] at hi
      have stays {i : ℕ} (hi : i ≠ idx) : leaving (some (.closed idx)) ≠ some i :=
        fun h => hi (Option.some.inj h).symm
      refine ⟨⟨?_, ?_, ?_, ?_⟩, rfl⟩
      · intro i k hk _
        have hi : i ≠ idx := by
          rintro rfl
          rw [hgone] at hk
          cases hk
        rw [hother i hi] at hk
        exact hs.owned i k hk (stays hi)
      · intro i j n hi hj _ _
        have hi' := hne hi
        have hj' := hne hj
        rw [sckid, hother i hi'] at hi
        rw [sckid, hother j hj'] at hj
        exact hs.inj i j n hi hj (stays hi') (stays hj')
      · intro n hn
        obtain ⟨i, hl, hi⟩ := hs.onto n hn
        have hii : i ≠ idx := fun he => hl (by rw [he]; rfl)
        refine ⟨i, by simp, ?_⟩
        rw [sckid, hother i hii]
        exact hi
      · intro i hi
        cases hi

/-! ## Steps and runs -/

/-- A link that other modules free or use is not one of a socket, and no event comes while a
notify function is being run. -/
theorem frees_callback {s : State} {a : Links.Act Client} {f : Links.Notice Client × Links.Rest}
    {l : LinkState} (hf : s.link.frame = some f) (hfor : foreign s a = true)
    (h : Links.step s.link a = some l) : frees s (.link a) = false := by
  cases a with
  | respond => simp [Links.step, hf] at h
  | msg => simp [Links.step, hf] at h
  | ret => cases hfor
  | _ => rfl

theorem frame_send (idx : ℕ) (data : LuaString) (para : ℕ) (pos : Option ℕ) (ins : Bool)
    (s : State) : (send idx data para pos ins s).1.frame = s.frame := by
  unfold send
  split
  swap
  · rfl
  rename_i k _ _
  split
  · rfl
  dsimp only
  split
  · split <;> exact frame_linkConnect k.id k.prot k.addr k.port s
  split
  · rfl
  · exact frame_hand k.id idx _ s

theorem frame_setwaitingrspitem (idx : ℕ) (item : Option LuaString) (s : State) :
    (setwaitingrspitem idx item s).frame = s.frame := by
  have resumed (u : State) : (rsumscksnd idx u).frame = u.frame := by
    unfold rsumscksnd
    split
    · rfl
    split
    · exact frame_linkConnect _ _ _ _ u
    split
    · exact frame_sndnxt _ idx u
    · rfl
  unfold setwaitingrspitem
  split
  · rfl
  · dsimp only
    split
    · exact resumed _
    · rfl

theorem frame_create (idx : ℕ) (prot addr port : LuaString) (cause : Option ℕ) (s : State) :
    (create idx prot addr port cause s).1.frame = s.frame := by
  unfold create
  split <;> rfl

theorem frame_connect (idx : ℕ) (prot addr port : LuaString) (cause : Option ℕ) (s : State) :
    (connect idx prot addr port cause s).1.frame = s.frame := by
  have hcf (id : Option ℕ) (u : State) : (linkConnect id prot addr port u).1.frame = u.frame :=
    frame_linkConnect id prot addr port u
  unfold connect
  split
  · rfl
  split
  · rename_i k _
    split
    · split
      · rfl
      · exact frame_linkDisconnect k.id s
    · have hf := hcf k.id s
      split
      · rename_i t he
        rw [he] at hf
        exact hf
      · rename_i t he
        rw [he] at hf
        exact hf
  · have hf := hcf (linkOpen s).2 (linkOpen s).1
    dsimp only
    split
    · rename_i t he
      rw [he] at hf
      exact hf
    · rename_i t he
      rw [he] at hf
      exact hf

theorem frame_disconnect (idx : ℕ) (cause : Option ℕ) (s : State) :
    (disconnect idx cause s).1.frame = s.frame := by
  unfold disconnect
  split
  · exact frame_linkDisconnect _ _
  · rfl

theorem frame_close (idx : ℕ) (s : State) : (close idx s).1.frame = s.frame := by
  unfold close
  split
  · rename_i k _ _
    cases k.id <;> rfl
  · rfl

theorem step_corresponds {s t : State} {a : Act} (hw : Wired s) (ha : a.numbered)
    (hs : CorrespondsButLeaving s) (h : step s a = some t) :
    CorrespondsButLeaving t ↔ hasLink s a = true := by
  have hwt : Wired t := step_wired s a t ha hw h
  have firm (ht : Firm s t) (hf : t.frame = s.frame) (hl : hasLink s a = true) :
      CorrespondsButLeaving t ↔ hasLink s a = true := by
    refine iff_of_true ?_ hl
    rw [CorrespondsButLeaving, hf]
    exact hs.firm ht
  cases a with
  | create idx prot addr port cause =>
      cases h
      exact create_corresponds hs prot addr port cause hwt
  | connect idx prot addr port cause =>
      cases h
      exact iff_of_true (connect_corresponds hs prot addr port cause hwt) rfl
  | send idx data para pos ins =>
      obtain ⟨-, ht⟩ := Option.ite_none_right_eq_some.mp h
      obtain rfl := Option.some.inj ht
      exact firm (firm_send idx data para pos ins s) (frame_send idx data para pos ins s) rfl
  | disconnect idx cause =>
      cases h
      refine firm ?_ (frame_disconnect idx cause s) rfl
      unfold disconnect
      split
      · rename_i k _ _
        have hu : Firm s (upd idx (fun k => { k with discause := cause }) s) :=
          firm_upd (by exact fun _ => rfl) idx s
        exact hu.trans (firm_linkDisconnect k.id _)
      · exact .refl s
  | close idx =>
      cases h
      refine firm ?_ (frame_close idx s) rfl
      unfold close
      split
      · rename_i k _ _
        exact firm_linkClose k.id s
      · exact .refl s
  | setwaitingrspitem idx item =>
      cases h
      exact firm (firm_setwaitingrspitem idx item s) (frame_setwaitingrspitem idx item s) rfl
  | link a =>
      refine iff_of_true ?_ rfl
      obtain ⟨hfor, h⟩ := Option.ite_none_right_eq_some.mp h
      obtain ⟨l, hl, rfl⟩ := Option.map_eq_some_iff.mp h
      cases hf : s.link.frame with
      | none =>
          have hfs : s.frame = none := by
            by_contra hn
            exact hw.frame hn hf
          have hs' : Corresponds s := by
            rw [CorrespondsButLeaving, hfs] at hs
            exact hs
          simp only [Option.isNone_none, if_true]
          cases hfr : frees s (.link a) with
          | true => exact (freed_corresponds hw hs' hfs hfor hl hfr).1
          | false =>
              obtain ⟨hcor, hleave⟩ := event_corresponds hw hs' hfs (.inl hf) (.inl hfor) hl hfr
              rw [CorrespondsButLeaving, hleave]
              exact hcor
      | some f =>
          simp only [Option.isNone_some, Bool.false_eq_true, if_false]
          exact hs.of_owned (owned_step hw (.inl hfor) hl (frees_callback hf hfor hl))
  | ret =>
      refine iff_of_true ?_ rfl
      have hwr := resumed_wired hw
      obtain ⟨hcor, hleave⟩ := resumed_corresponds hs
      obtain ⟨-, rfl⟩ | ⟨hf, l, hl, rfl⟩ := step_ret.mp h
      · rw [CorrespondsButLeaving, hleave]
        exact hcor
      · obtain ⟨hcor', hleave'⟩ := event_corresponds hwr hcor hf (.inr rfl) (.inr rfl) hl rfl
        rw [CorrespondsButLeaving, hleave']
        exact hcor'

/-- A socket is about to go only after the event that frees its link. -/
theorem step_leaving {s t : State} {a : Act} (hw : Wired s) (hs : Corresponds s)
    (hl : leaving s.frame = none) (hn : frees s a = false) (h : step s a = some t) :
    leaving t.frame = none := by
  cases a with
  | create idx prot addr port cause =>
      cases h
      rw [frame_create]
      exact hl
  | connect idx prot addr port cause =>
      cases h
      rw [frame_connect]
      exact hl
  | send idx data para pos ins =>
      obtain ⟨-, ht⟩ := Option.ite_none_right_eq_some.mp h
      obtain rfl := Option.some.inj ht
      rw [frame_send]
      exact hl
  | disconnect idx cause =>
      cases h
      rw [frame_disconnect]
      exact hl
  | close idx =>
      cases h
      rw [frame_close]
      exact hl
  | setwaitingrspitem idx item =>
      cases h
      rw [frame_setwaitingrspitem]
      exact hl
  | link a =>
      obtain ⟨hfor, h⟩ := Option.ite_none_right_eq_some.mp h
      obtain ⟨l, hstep, rfl⟩ := Option.map_eq_some_iff.mp h
      cases hf : s.link.frame with
      | none =>
          have hfs : s.frame = none := by
            by_contra hne
            exact hw.frame hne hf
          simp only [Option.isNone_none, if_true]
          exact (event_corresponds hw hs hfs (.inl hf) (.inl hfor) hstep hn).2
      | some f =>
          simp only [Option.isNone_some, Bool.false_eq_true, if_false]
          exact hl
  | ret =>
      have hwr := resumed_wired hw
      have hs' : CorrespondsButLeaving s := by
        rw [CorrespondsButLeaving, hl]
        exact hs
      obtain ⟨hcor, hleave⟩ := resumed_corresponds hs'
      obtain ⟨-, rfl⟩ | ⟨hf, l, hstep, rfl⟩ := step_ret.mp h
      · exact hleave
      · exact (event_corresponds hwr hcor hf (.inr rfl) (.inr rfl) hstep rfl).2

/-- The event that frees the link of a socket leaves an entry without a link. -/
theorem frees_breaks {s t : State} {a : Act} (hw : Wired s) (hs : Corresponds s)
    (hn : frees s a = true) (h : step s a = some t) : ¬Corresponds t := by
  cases a with
  | link a =>
      obtain ⟨hfor, h⟩ := Option.ite_none_right_eq_some.mp h
      obtain ⟨l, hstep, rfl⟩ := Option.map_eq_some_iff.mp h
      cases hf : s.link.frame with
      | none =>
          have hfs : s.frame = none := by
            by_contra hne
            exact hw.frame hne hf
          simp only [Option.isNone_none, if_true]
          exact (freed_corresponds hw hs hfs hfor hstep hn).2
      | some f =>
          rw [frees_callback hf hfor hstep] at hn
          cases hn
  | _ => cases hn

theorem boot_corresponds : Corresponds boot := by
  have hno : ∀ idx, sckid idx boot = none := fun _ => rfl
  constructor
  · intro idx k hk
    cases hk
  · intro i j id hi
    rw [hno] at hi
    cases hi
  · rintro id ⟨k, hk, -⟩
    cases hk
  · intro idx hidx
    cases hidx

/-- The tables correspond in every state of a run exactly if `create` finds a link each time and
no socket is closed. Closing does no harm beyond the `CLOSE` callback: but for the entry whose
callback is running, the tables correspond exactly if `create` finds a link each time. -/
theorem tables_correspond (acts : List Act) (ha : ∀ a ∈ acts, a.numbered) :
    (Along step Corresponds boot acts ↔
      Meets step (fun s a => hasLink s a = true ∧ frees s a = false) boot acts) ∧
    (Along step CorrespondsButLeaving boot acts ↔
      Meets step (fun s a => hasLink s a = true) boot acts) := by
  constructor
  · have strict (s : State) (hs : Corresponds s) (hl : leaving s.frame = none) :
        CorrespondsButLeaving s := by
      rw [CorrespondsButLeaving, hl]
      exact hs
    apply along_iff_meets_via (A := Act.numbered)
      (Q := fun s => (Wired s ∧ leaving s.frame = none) ∧ Corresponds s)
    · exact fun s hs => hs.2
    · rintro s a t hnum ⟨⟨hw, hl⟩, hs⟩ ⟨hlink, hfree⟩ h
      have hlt := step_leaving hw hs hl hfree h
      have hct := (step_corresponds hw hnum (strict s hs hl) h).mpr hlink
      rw [CorrespondsButLeaving, hlt] at hct
      exact ⟨⟨step_wired s a t hnum hw h, hlt⟩, hct⟩
    · rintro s a t hnum ⟨⟨hw, hl⟩, hs⟩ hct h
      have hfree : frees s a = false := by
        by_contra hne
        exact frees_breaks hw hs (by simpa using hne) h hct
      have hlt := step_leaving hw hs hl hfree h
      exact ⟨(step_corresponds hw hnum (strict s hs hl) h).mp (strict t hct hlt), hfree⟩
    · exact ⟨⟨boot_wired, rfl⟩, boot_corresponds⟩
    · exact ha
  · exact along_iff_meets_of (I := Wired)
      (fun s a t hnum hw h => step_wired s a t hnum hw h)
      (fun s a t hnum hw hs h => step_corresponds hw hnum hs h) boot_wired boot_corresponds ha

theorem tables_correspond_two :
    (Along step Corresponds boot [.create 1 (lua "TCP") (lua "a") (lua "80") none,
        .connect 2 (lua "UDP") (lua "b") (lua "53") none] ↔
      Meets step (fun s a => hasLink s a = true ∧ frees s a = false) boot
        [.create 1 (lua "TCP") (lua "a") (lua "80") none,
          .connect 2 (lua "UDP") (lua "b") (lua "53") none]) ∧
    (Along step CorrespondsButLeaving boot [.create 1 (lua "TCP") (lua "a") (lua "80") none,
        .connect 2 (lua "UDP") (lua "b") (lua "53") none] ↔
      Meets step (fun s a => hasLink s a = true) boot
        [.create 1 (lua "TCP") (lua "a") (lua "80") none,
          .connect 2 (lua "UDP") (lua "b") (lua "53") none]) := by
  apply tables_correspond
  intro a ha
  obtain rfl | ha := List.mem_cons.mp ha
  · exact Nat.le_refl 1
  · obtain rfl := List.mem_singleton.mp ha
    exact Nat.le_succ 1

/-- With all eight links taken by other modules `create` still makes an entry, without a link. -/
theorem created_without_link : ∃ s ∈ run step boot
    (List.replicate 8 (.link (.openlink (.other 0) false)) ++
      [.create 1 (lua "TCP") (lua "a") (lua "80") none]),
    entry 1 s = some none ∧ ¬Corresponds s := by
  have hsome : (run step boot (List.replicate 8 (.link (.openlink (.other 0) false)) ++
      [.create 1 (lua "TCP") (lua "a") (lua "80") none])).isSome = true := by decide +kernel
  have hall : (run step boot (List.replicate 8 (.link (.openlink (.other 0) false)) ++
      [.create 1 (lua "TCP") (lua "a") (lua "80") none])).all
        (fun s => decide (entry 1 s = some none)) = true := by decide +kernel
  obtain ⟨s, hs⟩ := Option.isSome_iff_exists.mp hsome
  rw [hs] at hall ⊢
  have he : entry 1 s = some none := by simpa using hall
  refine ⟨s, rfl, he, ?_⟩
  intro hc
  obtain ⟨k, hk, hnil⟩ := Option.map_eq_some_iff.mp he
  obtain ⟨id, hid, -⟩ := hc.owned 1 k hk (by simp)
  rw [hnil] at hid
  cases hid

end LuatAir200.Sockets
