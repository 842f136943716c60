import LuatAir200.LinkQueue
import LuatAir200.LinkSignal
import LuatAir200.LinksslModel

/-!
# What the functions of `linkssl.lua` leave alone

`Keeps` holds of all functions but those that hear of the IP context and the one that parks
a connection request. Of these `Within` holds, which is about the queue of `ril.lua` and
the ids only.
-/
namespace LuatAir200.Linkssl
open Lua Machine Replica
open Links (LinkState Action Evt Notice Msg ids MAXLINKS)

variable {ν : Type}

def copy (s : State ν) : Bool × Bool := (s.ipstatus, s.shuting)

/-- A connection request of link `id` waits for the IP context. -/
def Parked (s : State ν) (id : ℕ) : Prop := ∃ l, s.linklist id = some l ∧ l.pending ≠ none

/-- From `s` to `t` requests are made, and only valid ids are given out. -/
structure Within (s t : State ν) : Prop where
  adds : Links.Adds s.link t.link
  low : ∀ id, t.linklist id ≠ none → s.linklist id ≠ none ∨ id ≤ MAXLINKS

theorem Within.trans {s t u : State ν} (h : Within s t) (k : Within t u) : Within s u where
  adds := h.adds.trans k.adds
  low id hl := by
    obtain hl | hl := k.low id hl
    · exact h.low id hl
    · exact .inr hl

theorem Within.setLink {s : State ν} {k : ℕ} {l : Link ν} (hl : s.linklist k = some l)
    (l' : Option (Link ν)) : Within s (setLink k l' s) := by
  refine ⟨Links.Adds.refl _, fun id h => .inl ?_⟩
  by_cases hi : id = k
  · rw [hi, hl]
    nofun
  · simpa only [Linkssl.setLink, Function.update_of_ne hi] using h

/-- Besides nothing is learnt or said about the IP context, and no connection is parked. -/
structure Keeps (s t : State ν) : Prop extends Within s t where
  copied : copy t = copy s
  signal : Links.signal t.link = Links.signal s.link
  parked : ∀ id, Parked t id → Parked s id

namespace Keeps
variable {s t u : State ν}

theorem trans (h : Keeps s t) (k : Keeps t u) : Keeps s u where
  toWithin := h.toWithin.trans k.toWithin
  copied := k.copied.trans h.copied
  signal := k.signal.trans h.signal
  parked id hp := h.parked id (k.parked id hp)

/-- The link table is left alone. -/
theorem same (ha : Links.Adds s.link t.link) (hs : Links.signal t.link = Links.signal s.link)
    (hc : copy t = copy s) (hl : t.linklist = s.linklist) : Keeps s t := by
  refine ⟨⟨ha, fun id h => .inl (hl ▸ h)⟩, hc, hs, fun id hp => ?_⟩
  rwa [Parked, ← hl]

/-- `link.lua` is left alone too. -/
theorem still (hs : t.link = s.link) (hc : copy t = copy s) (hl : t.linklist = s.linklist) :
    Keeps s t := same (by rw [hs]; exact Links.Adds.refl _) (by rw [hs]) hc hl

theorem refl (s : State ν) : Keeps s s := still rfl rfl rfl

theorem req (cmd : LuaString) (s : State ν) : Keeps s (req cmd s) :=
  same (Links.Adds.req _ _) (Links.signal_req s.link nofun) rfl rfl

theorem reqarg (item : LuaString × LuaString) (s : State ν) : Keeps s (reqarg item s) :=
  (req item.1 s).trans (still rfl rfl rfl)

theorem reqs (cmds : List LuaString) (s : State ν) : Keeps s (reqs cmds s) := by
  induction cmds generalizing s with
  | nil => exact refl s
  | cons cmd cmds ih => exact (req cmd s).trans (ih _)

theorem dispatch {m : Msg} (hm : m.isIp = false) (s : State ν) : Keeps s (dispatch m s) :=
  same (Links.Adds.same rfl rfl) (Links.signal_dispatch s.link hm) rfl rfl

theorem setupIP (s : State ν) : Keeps s (setupIP s) :=
  same (Links.Adds.setupIP s.link) (Links.signal_setupIP s.link) rfl rfl

theorem notify (l : Link ν) (id : ℕ) (evt : Evt) (val : LuaString) (rest : Rest) (s : State ν) :
    Keeps s (notify l id evt val rest s) := still rfl rfl rfl

theorem usersckntfy (l : Link ν) (s : State ν) : Keeps s (usersckntfy l s) := by
  unfold Linkssl.usersckntfy
  split
  · exact refl s
  · exact dispatch rfl s

/-- A link that is there is changed, and not parked. -/
theorem setLink {k : ℕ} {l l' : Link ν} (hl : s.linklist k = some l)
    (hp : l'.pending ≠ none → l.pending ≠ none) : Keeps s (setLink k (some l') s) := by
  refine ⟨Within.setLink hl _, rfl, rfl, fun id => ?_⟩
  rintro ⟨m, hm, hn⟩
  by_cases hi : id = k
  · subst hi
    simp only [Linkssl.setLink, Function.update_self, Option.some.injEq] at hm
    exact ⟨l, hl, hp (hm ▸ hn)⟩
  · simp only [Linkssl.setLink, Function.update_of_ne hi] at hm
    exact ⟨m, hm, hn⟩

theorem setState {k : ℕ} {l : Link ν} (hl : s.linklist k = some l) (st : LinkState) :
    Keeps s (Linkssl.setLink k (some { l with state := st }) s) := setLink hl (fun h => h)

/-- The request of a link is sent or withdrawn. -/
theorem clear {k : ℕ} {l : Link ν} (hl : s.linklist k = some l) (st : LinkState) :
    Keeps s (Linkssl.setLink k (some { l with pending := none, state := st }) s) :=
  setLink hl (fun h => absurd rfl h)

theorem foldl_reqarg (items : List (LuaString × LuaString)) (s : State ν) :
    Keeps s (items.foldl (fun s item => Linkssl.reqarg item s) s) := by
  induction items generalizing s with
  | nil => exact refl s
  | cons item items ih => exact (reqarg item s).trans (ih _)

theorem init (s : State ν) : Keeps s (init s) := by
  unfold Linkssl.init
  split
  · exact refl s
  · have h1 : Keeps s { s with inited := true } := still rfl rfl rfl
    exact ((h1.trans (req _ _)).trans (foldl_reqarg s.crtpending _)).trans (still rfl rfl rfl)

/-! ## The interface -/

theorem openid (id : ℕ) (n : ν) (tag : Bool) (s : State ν) : Keeps s (openid id n tag s).1 := by
  unfold Linkssl.openid
  split
  · exact refl s
  · rename_i h
    rw [not_or] at h
    have hn : Keeps s { Linkssl.setLink id (some ⟨n, tag, .initial, none⟩) s with
        urcs := Function.update s.urcs id true } := by
      refine ⟨⟨Links.Adds.refl _, fun k hk => ?_⟩, rfl, rfl, fun k => ?_⟩
      rotate_left
      · rintro ⟨m, hm, hp⟩
        by_cases hi : k = id
        · subst hi
          simp only [Linkssl.setLink, Function.update_self, Option.some.injEq] at hm
          exact absurd (by rw [← hm]) hp
        · simp only [Linkssl.setLink, Function.update_of_ne hi] at hm
          exact ⟨m, hm, hp⟩
      · by_cases hi : k = id
        · exact .inr (hi ▸ Nat.le_of_not_lt h.1)
        · simp only [Linkssl.setLink, Function.update_of_ne hi] at hk
          exact .inl hk
    dsimp only
    split
    · exact hn
    · exact hn.trans (setupIP _)

theorem openlink (n : ν) (tag : Bool) (s : State ν) : Keeps s (openlink n tag s).1 := by
  unfold Linkssl.openlink
  split
  · exact refl s
  · exact openid _ n tag s

theorem close (id : ℕ) (s : State ν) : Keeps s (close id s).1 := by
  unfold Linkssl.close
  split
  · rename_i l _ hl
    exact (setState hl .closing).trans (req _ _)
  · exact refl s

theorem disconnect (id : ℕ) (s : State ν) : Keeps s (disconnect id s).1 := by
  unfold Linkssl.disconnect
  split
  · rename_i l _ hl
    split
    · exact clear hl .disconnecting
    · exact (clear hl .disconnecting).trans (req _ _)
  · exact refl s

theorem send (id : ℕ) (data : LuaString) (s : State ν) : Keeps s (send id data s).1 := by
  unfold Linkssl.send
  split
  · exact refl s
  · split
    · exact refl s
    · exact reqarg _ s

/-! ## Events -/

theorem sendcnf {id : ℕ} {r : LuaString} (h : sendcnf id r s = some t) : Keeps s t := by
  obtain ⟨l, hl, rfl⟩ := Option.map_eq_some_iff.mp h
  refine (setLink hl ?_).trans (notify _ _ _ _ _ _)
  split <;> exact fun h => h

theorem closecnf (id : ℕ) (s : State ν) : Keeps s (closecnf id s) := by
  unfold Linkssl.closecnf
  split
  · exact refl s
  · rename_i l hl
    split
    · exact (setState hl .closed).trans (notify _ _ _ _ _ _)
    split
    · have hu := usersckntfy l s
      have he := (usersckntfy_frame l s).1
      refine ⟨⟨hu.adds, fun k hk => ?_⟩, hu.copied, hu.signal, fun k => ?_⟩
      rotate_left
      · rintro ⟨m, hm, hp⟩
        by_cases hi : k = id
        · subst hi
          simp [Linkssl.notify, Linkssl.setLink] at hm
        · simp only [Linkssl.notify, Linkssl.setLink, Function.update_of_ne hi, he] at hm
          exact ⟨m, hm, hp⟩
      · by_cases hi : k = id
        · subst hi
          simp [Linkssl.notify, Linkssl.setLink] at hk
        · simp only [Linkssl.notify, Linkssl.setLink, Function.update_of_ne hi, he] at hk
          exact .inl hk
    · exact refl s

theorem statusind (id : ℕ) (st : LuaString) (s : State ν) : Keeps s (statusind id st s) := by
  unfold Linkssl.statusind
  split
  · exact refl s
  · rename_i l hl
    exact ((setState hl _).trans (usersckntfy _ _)).trans (notify _ _ _ _ _ _)

theorem shutLoop (is : List ℕ) (s : State ν) : Keeps s (shutLoop is s) := by
  induction is with
  | nil => exact refl s
  | cons i is ih =>
      unfold Linkssl.shutLoop
      split
      · exact ih
      · rename_i l hl
        split
        · exact ih
        · exact (setState hl .closed).trans (notify _ _ _ _ _ _)

theorem resume (r : Rest) (s : State ν) : Keeps s (resume r s) := by
  cases r with
  | done => exact refl s
  | disconnected id =>
      unfold Linkssl.resume
      dsimp only
      split
      · exact usersckntfy _ s
      · exact refl s
  | shut i is =>
      unfold Linkssl.resume
      dsimp only
      split
      · exact (usersckntfy _ s).trans (shutLoop is _)
      · exact refl s

theorem rsp {cmd response : LuaString} (h : rsp cmd response s = some t) : Keeps s t := by
  unfold Linkssl.rsp at h
  dsimp only at h
  split at h
  · split at h
    · cases h
      split
      · exact statusind _ _ s
      · exact refl s
    · cases h
      exact refl s
  split at h
  · split at h
    · exact sendcnf h
    · cases h
  split at h
  · split at h
    · cases h
      exact closecnf _ s
    · cases h
      exact refl s
  · cases h
    exact refl s

theorem urc (data pfx : LuaString) (s : State ν) : Keeps s (urc data pfx s) := by
  unfold Linkssl.urc
  split
  · exact refl s
  split
  · exact statusind _ _ s
  · exact refl s

theorem gprsind (b : Bool) (s : State ν) : Keeps s (gprsind b s) := by
  unfold Linkssl.gprsind
  split
  · exact setupIP s
  · exact refl s

theorem connpend (is : List ℕ) (s : State ν) : Keeps s (connpend is s) := by
  induction is generalizing s with
  | nil => exact refl s
  | cons i is ih =>
      unfold Linkssl.connpend
      split
      · exact ih s
      · rename_i l hl
        split
        · exact ih s
        · rename_i p hp
          have hr : Keeps s (Linkssl.reqs (gmatch (lua "(.-)\r\n") p.length p) (Linkssl.init s)) :=
            (init s).trans (reqs _ _)
          have hk : (Linkssl.reqs (gmatch (lua "(.-)\r\n") p.length p)
              (Linkssl.init s)).linklist i = some l := by
            rw [(reqs_frame _ _).1, (init_frame s).1]
            exact hl
          exact (hr.trans (clear hk l.state)).trans (ih _)

end Keeps

theorem parked_connpend {id : ℕ} {is : List ℕ} {s : State ν} (h : Parked (connpend is s) id) :
    Parked s id ∧ id ∉ is := by
  induction is generalizing s with
  | nil => exact ⟨h, by simp⟩
  | cons i is ih =>
      -- a link without a request is passed over
      have skip (hs : Parked (connpend is s) id) (hi : ∀ l, s.linklist i = some l → l.pending = none) :
          Parked s id ∧ id ∉ i :: is := by
        obtain ⟨⟨l, hl, hp⟩, hm⟩ := ih hs
        refine ⟨⟨l, hl, hp⟩, ?_⟩
        rw [List.mem_cons, not_or]
        exact ⟨fun he => hp (hi l (he ▸ hl)), hm⟩
      unfold connpend at h
      split at h
      · rename_i hl
        exact skip h (by simp [hl])
      · rename_i l hl
        split at h
        · rename_i hp
          exact skip h (by simp [hl, hp])
        · rename_i p hp
          obtain ⟨⟨k, hk, hkp⟩, hm⟩ := ih h
          have hne : id ≠ i := by
            rintro rfl
            simp only [setLink, Function.update_self, Option.some.injEq] at hk
            exact hkp (by rw [← hk])
          simp only [setLink, Function.update_of_ne hne, (reqs_frame _ _).1, (init_frame s).1] at hk
          refine ⟨⟨k, hk, hkp⟩, ?_⟩
          rw [List.mem_cons, not_or]
          exact ⟨hne, hm⟩

theorem Within.connect (id : ℕ) (address port : LuaString) (chksvrcrt : Bool)
    (crtconfig : Option Crtconfig) (s : State ν) :
    Within s (connect id address port chksvrcrt crtconfig s).1 := by
  obtain he | ⟨l, -, hl, -, ⟨-, he⟩ | ⟨-, he⟩⟩ :=
    connect_cases id address port chksvrcrt crtconfig s <;> rw [he]
  · exact (Keeps.refl s).toWithin
  · exact Within.setLink hl _
  · exact (((Keeps.setState hl .connecting).trans (Keeps.init _)).trans (Keeps.reqs _ _)).toWithin

theorem Within.procer (m : Msg) (s : State ν) : Within s (procer m s) := by
  have same (b c : Bool) : Within s { s with ipstatus := b, shuting := c } :=
    ⟨Links.Adds.refl _, fun id h => .inl h⟩
  cases m with
  | ipStatusInd b =>
      unfold Linkssl.procer ipstatusind
      dsimp only
      split
      · exact (Keeps.refl s).toWithin
      split
      · exact (same b s.shuting).trans (Keeps.connpend ids _).toWithin
      · exact same b s.shuting
  | ipShutingInd b =>
      unfold Linkssl.procer ipshutingind
      dsimp only
      split
      · exact same s.ipstatus true
      · unfold shutcnf ipstatusind
        dsimp only
        rw [if_pos rfl]
        split
        · exact (same s.ipstatus false).trans (Keeps.shutLoop ids _).toWithin
        · exact (same false false).trans (Keeps.shutLoop ids _).toWithin
  | netGprsReady b => exact (Keeps.gprsind b s).toWithin
  | _ => exact (Keeps.refl s).toWithin

end LuatAir200.Linkssl
