import LuatAir200.SocketsslModel

/-!
# The certificate settings of an SSL socket

A socket should reconnect with the settings of its last successful `connect`. Only `connect` and
`create` change what is stored; everything else, callbacks included, passes it on.
-/
namespace LuatAir200.Socketssl
open Lua Machine
open Linkssl (Crtconfig)

/-- What is stored for a socket. -/
def certs (s : State) (idx : ℕ) : Option Certs := (s.scks idx).map Sock.certs

/-! ## What is claimed, and when it holds -/

/-- Each call of `linkssl.connect` used the settings of the last successful `connect`. -/
def Right (s : State) : Prop := ∀ r ∈ s.reconnects, ∀ c, r.last = some c → r.used = c

/-- And so would a call that is made now. -/
def Kept (s : State) : Prop :=
  Right s ∧ ∀ idx c d, certs s idx = some c → s.last idx = some d → c = d

/-- `linkssl.connect` accepts. -/
def accepts (id : Option ℕ) (s : State) : Prop :=
  ∃ i l, id = some i ∧ Linkssl.validaction s.link i .connect = true ∧ s.link.linklist i = some l ∧
    l.state ≠ .connected

/-- The condition. A connection to the same server must keep `chksvrcrt`; any other that succeeds
must be made without `crtconfig`; one that fails, with the `crtconfig` that is stored. -/
def Careful (s : State) : Act → Prop
  | .create idx _ _ _ chksvrcrt _ =>
      idx ≤ SCK_MAX_CNT → s.scks idx = none → ∀ c, s.last idx = some c → c = (chksvrcrt, none)
  | .connect idx prot addr port chksvrcrt crtconfig _ =>
      idx ≤ SCK_MAX_CNT →
      match s.scks idx with
      | none => (Linkssl.emptylink s.link).isSome → crtconfig = none
      | some k =>
          if lstate k.id s = lua "CONNECTED" then
            if k.addr = addr ∧ k.port = port ∧ k.prot = prot then chksvrcrt = k.chksvrcrt
            else crtconfig = none
          else (accepts k.id s → crtconfig = none) ∧
            (¬accepts k.id s → s.last idx ≠ none → crtconfig = k.crtconfig)
  | _ => True

/-! ## What passes the settings on -/

/-- From `s` to `t` no settings change, and `linkssl.connect` is called with those stored. -/
structure Keeps (s t : State) : Prop where
  certs : ∀ idx c, certs t idx = some c → certs s idx = some c
  last : t.last = s.last
  reconnects : ∃ l, t.reconnects = s.reconnects ++ l ∧
    ∀ r ∈ l, Socketssl.certs s r.idx = some r.used ∧ r.last = s.last r.idx

namespace Keeps
variable {s t u : State}

theorem trans (h : Keeps s t) (k : Keeps t u) : Keeps s u := by
  obtain ⟨l, hl, hs⟩ := h.reconnects
  obtain ⟨m, hm, ht⟩ := k.reconnects
  refine ⟨fun idx c hc => h.certs idx c (k.certs idx c hc), k.last.trans h.last, l ++ m, ?_, ?_⟩
  · rw [hm, hl, List.append_assoc]
  · intro r hr
    obtain hr | hr := List.mem_append.mp hr
    · exact hs r hr
    · obtain ⟨hused, hlast⟩ := ht r hr
      exact ⟨h.certs _ _ hused, by rw [hlast, h.last]⟩

theorem same (hk : t.scks = s.scks) (hl : t.last = s.last) (hr : t.reconnects = s.reconnects) :
    Keeps s t := by
  refine ⟨?_, hl, [], ?_, ?_⟩
  · intro idx c hc
    rwa [Socketssl.certs, hk] at hc
  · rw [hr, List.append_nil]
  · intro r hm
    cases hm

theorem refl (s : State) : Keeps s s := same rfl rfl rfl

theorem upd (idx : ℕ) {f : Sock → Sock} (hf : ∀ k, (f k).certs = k.certs) (s : State) :
    Keeps s (upd idx f s) := by
  refine ⟨?_, rfl, [], ?_, ?_⟩
  · intro i c hc
    by_cases hi : i = idx
    · subst hi
      simp only [Socketssl.certs, Socketssl.upd, Function.update_self, Option.map_map] at hc
      rwa [Socketssl.certs, ← show Sock.certs ∘ f = Sock.certs from funext hf]
    · simpa only [Socketssl.certs, Socketssl.upd, Function.update_of_ne hi] using hc
  · exact (List.append_nil _).symm
  · intro r hm
    cases hm

theorem call (c : Call) (f : Frame) (s : State) : Keeps s (call c f s) := same rfl rfl rfl

theorem drop (idx : ℕ) (s : State) :
    Keeps s { s with scks := Function.update s.scks idx none } := by
  refine ⟨?_, rfl, [], (List.append_nil _).symm, fun r hm => by cases hm⟩
  intro i c hc
  by_cases hi : i = idx
  · subst hi
    simp [Socketssl.certs] at hc
  · simpa only [Socketssl.certs, Function.update_of_ne hi] using hc

theorem linkConnect (id : Option ℕ) (addr port : LuaString) (c : Certs) (s : State) :
    Keeps s (linkConnect id addr port c s).1 := by
  cases id <;> exact same rfl rfl rfl

theorem linkDisconnect (id : Option ℕ) (s : State) : Keeps s (linkDisconnect id s).1 := by
  cases id <;> exact same rfl rfl rfl

theorem linkClose (id : Option ℕ) (s : State) : Keeps s (linkClose id s).1 := by
  cases id <;> exact same rfl rfl rfl

theorem linkSend (id : Option ℕ) (data : LuaString) (s : State) :
    Keeps s (linkSend id data s).1 := by
  cases id <;> exact same rfl rfl rfl

theorem reconnect {idx : ℕ} {k : Sock} (hk : Socketssl.certs s idx = some k.certs) :
    Keeps s (reconnect idx k s).1 := by
  have h := linkConnect k.id k.addr k.port k.certs s
  obtain ⟨l, hl, hr⟩ := h.reconnects
  refine ⟨h.certs, h.last, l ++ [⟨idx, k.certs, s.last idx⟩], ?_, ?_⟩
  · show (Socketssl.linkConnect _ _ _ _ s).1.reconnects ++ _ = _
    rw [hl, List.append_assoc]
  · intro r hm
    obtain hm | hm := List.mem_append.mp hm
    · exact hr r hm
    · obtain rfl := List.mem_singleton.mp hm
      exact ⟨hk, rfl⟩

theorem sndnxt (id : Option ℕ) (idx : ℕ) (s : State) : Keeps s (sndnxt id idx s) := by
  unfold Socketssl.sndnxt
  split
  · rename_i item rest hp
    have h1 : Keeps s (Socketssl.upd idx (fun k => { k with sndpending := rest }) s) :=
      upd idx (fun _ => by rfl) s
    have h2 := h1.trans (linkSend id item.data _)
    split
    · rename_i t ht
      rw [ht] at h2
      exact h2.trans (upd idx (fun _ => by rfl) t)
    · rename_i t ht
      rw [ht] at h2
      exact h2.trans (upd idx (fun _ => by rfl) t)
  · exact refl s

theorem rsumscksnd (idx : ℕ) (s : State) : Keeps s (rsumscksnd idx s) := by
  unfold Socketssl.rsumscksnd
  split
  · exact refl s
  · rename_i k hk
    split
    · exact reconnect (by rw [Socketssl.certs, hk]; rfl)
    · split
      · exact sndnxt k.id idx s
      · exact refl s

theorem failFirst (idx : ℕ) (f : Frame) {rest : State → State} (s : State)
    (hrest : Keeps s (rest s)) : Keeps s (failFirst idx f rest s) := by
  unfold Socketssl.failFirst
  split
  · exact (upd idx (fun _ => by rfl) s).trans (call _ f _)
  · exact hrest

theorem conackLoop (id idx : ℕ) (cause : Option ℕ) (s : State) :
    Keeps s (conackLoop id idx cause s) := failFirst idx _ s (call _ _ s)

theorem conack (id idx : ℕ) (cause : Option ℕ) (suc : Bool) (s : State) :
    Keeps s (conack id idx cause suc s) := by
  unfold Socketssl.conack
  split
  · exact call _ _ s
  · exact conackLoop id idx cause s

theorem sndack (id idx : ℕ) (suc : Bool) (item : Option Item) (s : State) :
    Keeps s (sndack id idx suc item s) := (upd idx (fun _ => by rfl) s).trans (call _ _ _)

theorem lostLoop (idx : ℕ) (val : LuaString) (s : State) : Keeps s (lostLoop idx val s) :=
  failFirst idx _ s (call _ _ s)

theorem sckrsp (id : ℕ) (evt : Links.Evt) (val : LuaString) (s : State) :
    Keeps s (sckrsp id evt val s) := by
  unfold Socketssl.sckrsp
  split
  · exact refl s
  rename_i idx hidx
  split
  · exact refl s
  rename_i k hk
  cases evt with
  | connect =>
      dsimp only
      split
      · rw [if_pos (Nat.le_add_left 1 k.conretry)]
        exact (upd idx (fun _ => by rfl) s).trans (conack id idx k.concause false _)
      · exact conack id idx k.concause true s
  | send =>
      dsimp only
      split
      · rw [if_pos (Nat.le_add_left 1 k.sndretry)]
        exact (upd idx (fun _ => by rfl) s).trans (sndack id idx false k.sndingitem _)
      · exact sndack id idx true k.sndingitem s
  | disconnect =>
      dsimp only
      have h1 : Keeps s (discrstpara idx s) := upd idx (fun _ => by rfl) s
      refine Keeps.trans ?_ (call _ _ _)
      split
      · exact h1.trans (upd idx (fun _ => by rfl) _)
      · exact h1
  | close => exact call _ _ s
  | state =>
      dsimp only
      split
      · exact lostLoop idx val s
      · exact call _ _ s

theorem resume (f : Frame) (s : State) : Keeps s (resume f s) := by
  cases f with
  | conack id idx cause => exact conackLoop id idx cause s
  | connected id idx suc =>
      have h1 : Keeps s (conrstpara idx suc s) := upd idx (fun k => by cases suc <;> rfl) s
      unfold Socketssl.resume
      dsimp only
      split
      · split
        · exact h1.trans (sndnxt (some id) idx _)
        · exact h1
      · exact h1
  | sndack id idx suc =>
      unfold Socketssl.resume
      dsimp only
      split
      · split
        · split
          · exact sndnxt (some id) idx s
          · exact refl s
        · exact refl s
      · refine failFirst idx _ s ?_
        exact refl s
  | flush idx =>
      unfold Socketssl.resume
      refine failFirst idx _ s ?_
      exact refl s
  | closed idx => exact drop idx s
  | lost idx val => exact lostLoop idx val s
  | done => exact refl s

theorem deliver (s : State) : Keeps s (deliver s) := by
  unfold Socketssl.deliver
  split
  · split
    · exact sckrsp _ _ _ s
    · exact refl s
  · exact refl s

theorem enqueue (idx : ℕ) (item : Item) (pos : Option ℕ) (s : State) :
    Keeps s (enqueue idx item pos s) := upd idx (fun _ => by rfl) s

theorem send (idx : ℕ) (data : LuaString) (para : ℕ) (pos : Option ℕ) (ins : Bool) (s : State) :
    Keeps s (send idx data para pos ins s).1 := by
  unfold Socketssl.send
  split
  · rename_i k _ hk
    split
    · exact refl s
    dsimp only
    split
    · have h1 : Keeps s (Socketssl.reconnect idx k s).1 :=
        reconnect (by rw [Socketssl.certs, hk]; rfl)
      split
      · exact h1.trans (enqueue idx _ pos _)
      · exact h1
    · split
      · exact enqueue idx _ pos s
      · have h1 := linkSend k.id data s
        split
        · rename_i t ht
          rw [ht] at h1
          exact h1.trans (upd idx (fun _ => by rfl) t)
        · rename_i t ht
          rw [ht] at h1
          exact h1
  · exact refl s

theorem disconnect (idx : ℕ) (cause : Option ℕ) (s : State) :
    Keeps s (disconnect idx cause s).1 := by
  unfold Socketssl.disconnect
  split
  · exact (upd idx (fun _ => by rfl) s).trans (linkDisconnect _ _)
  · exact refl s

theorem close (idx : ℕ) (s : State) : Keeps s (close idx s).1 := by
  unfold Socketssl.close
  split
  · exact linkClose _ s
  · exact refl s

theorem setwaitingrspitem (idx : ℕ) (item : Option LuaString) (s : State) :
    Keeps s (setwaitingrspitem idx item s) := by
  unfold Socketssl.setwaitingrspitem
  split
  · exact refl s
  · dsimp only
    have h1 : Keeps s (Socketssl.upd idx (fun k => { k with waitingrspitem := item }) s) :=
      upd idx (fun _ => by rfl) s
    split
    · exact h1.trans (rsumscksnd idx _)
    · exact h1

theorem ret {t : State} (h : ret s = some t) : Keeps s t := by
  have rest : ∀ u, Keeps s u → (if u.frame.isSome then some u
      else (Linkssl.step u.link .ret).map fun l => Socketssl.deliver { u with link := l }) = some t →
      Keeps s t := by
    intro u hu h
    split at h
    · exact Option.some.inj h ▸ hu
    · obtain ⟨l, -, rfl⟩ := Option.map_eq_some_iff.mp h
      exact (hu.trans (t := u) (u := { u with link := l }) (same rfl rfl rfl)).trans (deliver _)
  refine rest _ ?_ h
  split
  · rename_i f hf
    exact Keeps.trans (t := { s with frame := none }) (same rfl rfl rfl) (resume f _)
  · exact refl s

theorem linkEvent {a : Linkssl.Act Client} {t : State} (h : step s (.link a) = some t) :
    Keeps s t := by
  simp only [step] at h
  split at h
  · cases h
  · obtain ⟨l, -, rfl⟩ := Option.map_eq_some_iff.mp h
    split
    · exact Keeps.trans (t := { s with link := l }) (same rfl rfl rfl) (deliver _)
    · exact same rfl rfl rfl

theorem kept (h : Keeps s t) (hk : Kept s) : Kept t := by
  obtain ⟨l, hl, hr⟩ := h.reconnects
  refine ⟨?_, ?_⟩
  · intro r hm c hc
    rw [hl] at hm
    obtain hm | hm := List.mem_append.mp hm
    · exact hk.1 r hm c hc
    · obtain ⟨hused, hlast⟩ := hr r hm
      exact hk.2 r.idx r.used c hused (hlast.symm.trans hc)
  · intro idx c d hc hd
    exact hk.2 idx c d (h.certs idx c hc) (h.last ▸ hd)

end Keeps

/-! ## What changes them -/

section Changes

variable {s t : State} {idx : ℕ}

/-- The entry of one socket, or its last `connect`, has changed. -/
theorem kept_change {c : Certs} (hs : Kept s) (ho : ∀ i, i ≠ idx → certs t i = certs s i)
    (hl : ∀ i, i ≠ idx → t.last i = s.last i) (hr : t.reconnects = s.reconnects)
    (hc : certs t idx = some c) : Kept t ↔ ∀ d, t.last idx = some d → c = d := by
  constructor
  · exact fun h d hd => h.2 idx c d hc hd
  · intro h
    refine ⟨?_, ?_⟩
    · rw [Right, hr]
      exact hs.1
    · intro i a b ha hb
      by_cases hi : i = idx
      · subst hi
        obtain rfl : c = a := Option.some.inj (hc.symm.trans ha)
        exact h b hb
      · exact hs.2 i a b (ho i hi ▸ ha) (hl i hi ▸ hb)

theorem linkConnect_accepts (id : Option ℕ) (addr port : LuaString) (c : Certs) (s : State) :
    (linkConnect id addr port c s).2 = true ↔ accepts id s := by
  cases id with
  | none => simp [linkConnect, accepts]
  | some i =>
      simp only [linkConnect, accepts, Option.some.injEq]
      unfold Linkssl.connect
      cases hv : Linkssl.validaction s.link i .connect with
      | false => simp [hv]
      | true =>
          cases hl : s.link.linklist i with
          | none => simp [hv, hl]
          | some l =>
              by_cases hc : l.state = .connected
              · simp [hv, hl, hc]
              · simp [hv, hl, hc]
                split <;> rfl

theorem linkConnect_frame (id : Option ℕ) (addr port : LuaString) (c : Certs) (s : State) :
    (linkConnect id addr port c s).1.scks = s.scks ∧
      (linkConnect id addr port c s).1.last = s.last ∧
      (linkConnect id addr port c s).1.reconnects = s.reconnects := by
  cases id <;> exact ⟨rfl, rfl, rfl⟩

theorem linkDisconnect_frame (id : Option ℕ) (s : State) :
    (linkDisconnect id s).1.scks = s.scks ∧ (linkDisconnect id s).1.last = s.last ∧
      (linkDisconnect id s).1.reconnects = s.reconnects := by
  cases id <;> exact ⟨rfl, rfl, rfl⟩

/-- A new link can be connected. -/
theorem accepts_opened (s : State) :
    accepts (linkOpen s).2 (linkOpen s).1 ↔ (Linkssl.emptylink s.link).isSome = true := by
  unfold linkOpen Linkssl.openlink
  cases he : Linkssl.emptylink s.link with
  | none => simp [accepts]
  | some k =>
      have hn : s.link.linklist k = none := by simpa using List.find?_some he
      have hk : k ≤ Links.MAXLINKS := by
        have := List.mem_of_find?_eq_some he
        simp [Links.ids, Links.MAXLINKS] at this ⊢
        omega
      have hl : (Linkssl.openid k .sckrsp false s.link).1.linklist k =
          some ⟨.sckrsp, false, .initial, none⟩ := by
        unfold Linkssl.openid
        rw [if_neg (by simp [hn, hk])]
        dsimp only
        split <;> simp [Linkssl.setLink, Linkssl.setupIP]
      refine ⟨fun _ => rfl, fun _ => ⟨k, _, rfl, ?_, hl, ?_⟩⟩
      · unfold Linkssl.validaction
        rw [show ({ s with link := (Linkssl.openid k .sckrsp false s.link).1 } : State).link.linklist
          k = _ from hl]
        decide
      · intro hc
        cases hc

theorem create_kept (hs : Kept s) {prot addr port : LuaString} {chksvrcrt : Bool}
    {cause : Option ℕ} : Kept (create idx prot addr port chksvrcrt cause s).1 ↔
      Careful s (.create idx prot addr port chksvrcrt cause) := by
  unfold create Careful
  split
  · rename_i h
    refine ⟨?_, fun _ => hs⟩
    intro _ hle hn
    rw [hn] at h
    simp [hle] at h
  · rename_i h
    have h' : idx ≤ SCK_MAX_CNT ∧ s.scks idx = none := by simpa using h
    dsimp only
    rw [kept_change (c := (chksvrcrt, none)) hs ?_ ?_ ?_ ?_]
    · constructor
      · exact fun hk _ _ c hc => (hk c hc).symm
      · exact fun hk d hd => (hk h'.1 h'.2 d hd).symm
    · intro i hi
      simp [certs, init, linkOpen, Function.update_of_ne hi]
    · exact fun _ _ => rfl
    · rfl
    · simp [certs, init, Sock.certs]

/-- The call of `connect` with its record. -/
def connected (idx : ℕ) (c : Certs) (r : State × Bool) : State :=
  if r.2 then { r.1 with last := Function.update r.1.last idx (some c) } else r.1

/-- After `init` the settings are right if there is no `crtconfig`. -/
theorem kept_init {u : State} {id cause discause : Option ℕ} {prot addr port : LuaString}
    {c : Certs} (hs : Kept s) (ho : ∀ i, i ≠ idx → certs u i = certs s i) (hl : u.last = s.last)
    (hr : u.reconnects = s.reconnects) :
    Kept (connected idx c (init idx id cause prot addr port discause c.1 u, true)) ↔
      c.2 = none := by
  rw [@kept_change s _ idx (c.1, none) hs ?_ ?_ ?_ ?_]
  · obtain ⟨chksvrcrt, crtconfig⟩ := c
    simp [connected, init, eq_comm]
  · intro i hi
    rw [← ho i hi]
    simp [connected, init, certs, Function.update_of_ne hi]
  · intro i hi
    simp [connected, init, Function.update_of_ne hi, hl]
  · exact hr
  · simp [connected, init, certs, Sock.certs]

/-- `connect` for a socket that is not there. -/
theorem connect_new (hs : Kept s) (hidx : idx ≤ SCK_MAX_CNT) (hk : s.scks idx = none)
    {prot addr port : LuaString} {chksvrcrt : Bool} {crtconfig : Option Crtconfig}
    {cause : Option ℕ} :
    Kept (connected idx (chksvrcrt, crtconfig)
        (connect idx prot addr port chksvrcrt crtconfig cause s)) ↔
      ((Linkssl.emptylink s.link).isSome → crtconfig = none) := by
  rw [connect, if_neg (not_not_intro hidx), hk]
  dsimp only
  have hacc := linkConnect_accepts (linkOpen s).2 addr port (chksvrcrt, crtconfig) (linkOpen s).1
  rw [accepts_opened] at hacc
  have hframe := linkConnect_frame (linkOpen s).2 addr port (chksvrcrt, crtconfig) (linkOpen s).1
  generalize linkConnect (linkOpen s).2 addr port (chksvrcrt, crtconfig) (linkOpen s).1 = r
    at hacc hframe ⊢
  obtain ⟨t, b⟩ := r
  obtain ⟨hscks, hlast, hrec⟩ := hframe
  cases b with
  | true =>
      refine (@kept_init s idx t _ cause none prot addr port (chksvrcrt, crtconfig) hs
        (fun i _ => by rw [certs, hscks]; rfl) hlast hrec).trans ?_
      exact ⟨fun h _ => h, fun h => h (hacc.mp rfl)⟩
  | false =>
      refine ⟨fun _ h => absurd (hacc.mpr h) Bool.false_ne_true, fun _ => ?_⟩
      exact (Keeps.same hscks hlast hrec).kept hs

/-- The `crtconfig` of a call is stored before anything else. -/
theorem certs_stored {k : Sock} (hk : s.scks idx = some k) (crtconfig : Option Crtconfig) (i : ℕ) :
    certs (upd idx (fun k => { k with crtconfig := crtconfig }) s) i =
      if i = idx then some (k.chksvrcrt, crtconfig) else certs s i := by
  by_cases hi : i = idx
  · subst hi
    simp [certs, upd, hk, Sock.certs]
  · simp [certs, upd, hi]

/-- `connect` for a socket that is connected. -/
theorem connect_connected (hs : Kept s) (hidx : idx ≤ SCK_MAX_CNT) {k : Sock}
    (hk : s.scks idx = some k) (hc : lstate k.id s = lua "CONNECTED")
    {prot addr port : LuaString} {chksvrcrt : Bool} {crtconfig : Option Crtconfig}
    {cause : Option ℕ} :
    Kept (connected idx (chksvrcrt, crtconfig)
        (connect idx prot addr port chksvrcrt crtconfig cause s)) ↔
      if k.addr = addr ∧ k.port = port ∧ k.prot = prot then chksvrcrt = k.chksvrcrt
      else crtconfig = none := by
  have hst := certs_stored hk crtconfig
  have hc' : lstate k.id (upd idx (fun k => { k with crtconfig := crtconfig }) s) =
      lua "CONNECTED" := hc
  rw [connect, if_neg (not_not_intro hidx), hk]
  dsimp only
  rw [if_pos hc']
  split
  · rw [@kept_change s _ idx (k.chksvrcrt, crtconfig) hs ?_ ?_ ?_ ?_]
    · simp [connected, upd, eq_comm]
    · intro i hi
      exact (hst i).trans (if_neg hi)
    · intro i hi
      simp [connected, upd, hi]
    · rfl
    · exact (hst idx).trans (if_pos rfl)
  · obtain ⟨hscks, hlast, hrec⟩ := linkDisconnect_frame k.id
      (upd idx (fun k => { k with crtconfig := crtconfig }) s)
    refine @kept_init s idx _ _ cause _ prot addr port (chksvrcrt, crtconfig) hs ?_ hlast hrec
    intro i hi
    rw [certs, hscks]
    exact (hst i).trans (if_neg hi)

/-- `connect` for a socket that is not connected. -/
theorem connect_again (hs : Kept s) (hidx : idx ≤ SCK_MAX_CNT) {k : Sock}
    (hk : s.scks idx = some k) (hc : lstate k.id s ≠ lua "CONNECTED")
    {prot addr port : LuaString} {chksvrcrt : Bool} {crtconfig : Option Crtconfig}
    {cause : Option ℕ} :
    Kept (connected idx (chksvrcrt, crtconfig)
        (connect idx prot addr port chksvrcrt crtconfig cause s)) ↔
      (accepts k.id s → crtconfig = none) ∧
        (¬accepts k.id s → s.last idx ≠ none → crtconfig = k.crtconfig) := by
  have hst := certs_stored hk crtconfig
  have hc' : lstate k.id (upd idx (fun k => { k with crtconfig := crtconfig }) s) ≠
      lua "CONNECTED" := hc
  rw [connect, if_neg (not_not_intro hidx), hk]
  dsimp only
  rw [if_neg hc']
  have hacc := linkConnect_accepts k.id addr port (chksvrcrt, crtconfig)
    (upd idx (fun k => { k with crtconfig := crtconfig }) s)
  have hsame : accepts k.id (upd idx (fun k => { k with crtconfig := crtconfig }) s) ↔
      accepts k.id s := Iff.rfl
  rw [hsame] at hacc
  obtain ⟨hscks, hlast, hrec⟩ := linkConnect_frame k.id addr port (chksvrcrt, crtconfig)
    (upd idx (fun k => { k with crtconfig := crtconfig }) s)
  generalize linkConnect k.id addr port (chksvrcrt, crtconfig)
    (upd idx (fun k => { k with crtconfig := crtconfig }) s) = r at hacc hscks hlast hrec ⊢
  obtain ⟨t, b⟩ := r
  have hcerts : ∀ i, certs t i = if i = idx then some (k.chksvrcrt, crtconfig) else certs s i := by
    intro i
    rw [← hst i, certs, hscks]
    rfl
  cases b with
  | true =>
      refine (@kept_init s idx t _ cause none prot addr port (chksvrcrt, crtconfig) hs
        (fun i hi => (hcerts i).trans (if_neg hi)) hlast hrec).trans ?_
      exact ⟨fun h => ⟨fun _ => h, fun hn => absurd (hacc.mp rfl) hn⟩, fun h => h.1 (hacc.mp rfl)⟩
  | false =>
      have hno : ¬accepts k.id s := fun h => Bool.false_ne_true (hacc.mpr h)
      have hl : t.last = s.last := hlast
      show Kept t ↔ _
      rw [@kept_change s t idx (k.chksvrcrt, crtconfig) hs (fun i hi => (hcerts i).trans (if_neg hi))
        (fun i _ => by rw [hl]) hrec ((hcerts idx).trans (if_pos rfl)), hl]
      cases hd : s.last idx with
      | none => simp [hno]
      | some d =>
          -- the settings stored so far are those of the last successful call
          obtain rfl : k.certs = d := hs.2 idx k.certs d (by simp [certs, hk]) hd
          simp [hno, Sock.certs]

theorem connect_kept (hs : Kept s) {prot addr port : LuaString} {chksvrcrt : Bool}
    {crtconfig : Option Crtconfig} {cause : Option ℕ} :
    Kept (connected idx (chksvrcrt, crtconfig)
        (connect idx prot addr port chksvrcrt crtconfig cause s)) ↔
      Careful s (.connect idx prot addr port chksvrcrt crtconfig cause) := by
  by_cases hidx : idx ≤ SCK_MAX_CNT
  · cases hk : s.scks idx with
    | none =>
        rw [connect_new hs hidx hk]
        simp only [Careful, hidx, true_imp_iff, hk]
    | some k =>
        by_cases hc : lstate k.id s = lua "CONNECTED"
        · rw [connect_connected hs hidx hk hc]
          simp only [Careful, hidx, true_imp_iff, hk, if_pos hc]
        · rw [connect_again hs hidx hk hc]
          simp only [Careful, hidx, true_imp_iff, hk, if_neg hc]
  · rw [connect, if_pos hidx]
    exact ⟨fun _ h => absurd h hidx, fun _ => hs⟩

end Changes

/-! ## Runs -/

/-- What one step does to the settings. -/
theorem step_kept {s t : State} (hs : Kept s) {a : Act} (h : step s a = some t) :
    Kept t ↔ Careful s a := by
  cases a with
  | create idx prot addr port chksvrcrt cause =>
      obtain rfl := Option.some.inj h
      exact create_kept hs
  | connect idx prot addr port chksvrcrt crtconfig cause =>
      obtain rfl := Option.some.inj h
      exact connect_kept hs
  | send idx data para pos ins =>
      simp only [step] at h
      split at h
      · obtain rfl := Option.some.inj h
        exact ⟨fun _ => trivial, fun _ => (Keeps.send idx data para pos ins s).kept hs⟩
      · cases h
  | disconnect idx cause =>
      obtain rfl := Option.some.inj h
      exact ⟨fun _ => trivial, fun _ => (Keeps.disconnect idx cause s).kept hs⟩
  | close idx =>
      obtain rfl := Option.some.inj h
      exact ⟨fun _ => trivial, fun _ => (Keeps.close idx s).kept hs⟩
  | setwaitingrspitem idx item =>
      obtain rfl := Option.some.inj h
      exact ⟨fun _ => trivial, fun _ => (Keeps.setwaitingrspitem idx item s).kept hs⟩
  | link a => exact ⟨fun _ => trivial, fun _ => (Keeps.linkEvent h).kept hs⟩
  | ret => exact ⟨fun _ => trivial, fun _ => (Keeps.ret h).kept hs⟩

theorem boot_kept : Kept boot := by
  refine ⟨?_, ?_⟩
  · intro r hr
    cases hr
  · intro idx c d hc
    cases hc

/-- Every call of `linkssl.connect`, past or possible now, uses the settings of the last
successful `connect`, exactly if each `connect` and `create` is careful. -/
theorem settings_kept (acts : List Act) : Along step Kept boot acts ↔ Meets step Careful boot acts :=
  along_iff_meets (I := fun _ => True) (fun _ _ _ _ _ => trivial)
    (fun _ _ _ _ hs ht => step_kept hs ht) trivial boot_kept acts

/-- A client certificate, the connection, its loss, and data to be sent. -/
def lostCert : List Act :=
  [.connect 1 (lua "TCP") (lua "a") (lua "1") true (some ⟨none, some (lua "c"), none, none⟩) none,
    .link (.link (.urc (lua "SSL&0,CONNECT OK"))), .ret, .link (.link (.urc (lua "SSL&0,CLOSED"))),
    .ret, .send 1 (lua "x") 0 none false]

/-- The connection is made again, without the certificate. -/
theorem certificate_lost :
    (run step boot lostCert).map (fun s => s.reconnects) =
      some [⟨1, (true, none), some (true, some ⟨none, some (lua "c"), none, none⟩)⟩] ∧
    (run step boot lostCert).map (fun s => (s.link.linklist 0).map Linkssl.Link.pending) =
      some (some (some (Linkssl.joined (Linkssl.connectcmds 0 (lua "a") (lua "1") true none)))) ∧
    ¬Along step Right boot lostCert := by
  have hrun : (run step boot lostCert).map (fun s => s.reconnects) =
      some [⟨1, (true, none), some (true, some ⟨none, some (lua "c"), none, none⟩)⟩] := by
    decide +kernel
  refine ⟨hrun, by decide +kernel, ?_⟩
  intro h
  obtain ⟨t, ht, hr⟩ := Option.map_eq_some_iff.mp hrun
  have hright := h.last ht
  rw [Right, hr] at hright
  have := hright _ (List.mem_singleton_self _) _ rfl
  simp at this

end LuatAir200.Socketssl
