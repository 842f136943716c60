import LuatAir200.DbgModel

/-!
# Which links `dbg.lua` uses

The timers outlive the link that they are about, and `lid` is not cleared when the link is
closed. The links are kept apart as long as the timers find the link that they expect, and an
error that is recorded without a connection finds no older debug link.
-/
namespace LuatAir200.Dbg
open Lua Machine

/-! ## What is claimed -/

/-- Link `id` was opened by this module and has not been freed since. -/
def Owns (id : ℕ) (s : State) : Prop := Links.owner id s.link = some .dbg

structure Tidy (s : State) : Prop where
  /-- Every call was for a link of this module. -/
  calls : ∀ c ∈ s.calls, c.2 = some Client.dbg
  one : ∀ i j, Owns i s → Owns j s → i = j
  /-- A debug link is the current one, or has been closed and freed. -/
  current : ∀ i, Owns i s → s.lid = some i

/-! ## When it holds -/

/-- The current link is still there. -/
def Held (s : State) : Prop := (s.lid.bind fun id => Links.owner id s.link) = some .dbg

/-- A link can be opened, and no debug link is open. -/
def Vacant (s : State) : Prop :=
  (Links.emptylink s.link).isSome = true ∧ ∀ id ∈ Links.ids, ¬Owns id s

/-- The condition on a call of `init`. -/
def Fresh (s : State) : Prop :=
  valid (getlasterr (initerr s)) = true → s.linksta = false → Vacant s

/-- The condition. -/
def Careful (s : State) : Act → Prop
  | .setup _ _ _ => Fresh s
  | .saverr v => Fresh (writerr true v s)
  | .expire .snd => 0 < (s.luaerr ++ s.inf).length → Held s
  | .expire .rcvtimeout => Held s
  | .expire .reconn => s.reconntimes < 3 → Held s
  | _ => True

/-! ## What the links are known by -/

structure Wires where
  lid : Option ℕ
  linksta : Bool
  calls : List (Option ℕ × Option Client)
  owner : ℕ → Option Client

def wires (s : State) : Wires where
  lid := s.lid
  linksta := s.linksta
  calls := s.calls
  owner id := Links.owner id s.link

theorem owns_congr {s t : State} (h : wires t = wires s) (id : ℕ) : Owns id t ↔ Owns id s := by
  have ho : Links.owner id t.link = Links.owner id s.link := congrFun (congrArg Wires.owner h) id
  rw [Owns, Owns, ho]

theorem held_congr {s t : State} (h : wires t = wires s) : Held t ↔ Held s := by
  have hl : t.lid = s.lid := congrArg Wires.lid h
  have ho : (fun id => Links.owner id t.link) = fun id => Links.owner id s.link :=
    congrArg Wires.owner h
  rw [Held, Held, hl, ho]

theorem tidy_congr {s t : State} (h : wires t = wires s) : Tidy t ↔ Tidy s := by
  have hc : t.calls = s.calls := congrArg Wires.calls h
  have hl : t.lid = s.lid := congrArg Wires.lid h
  constructor
  · intro ht
    refine ⟨hc ▸ ht.calls, ?_, ?_⟩
    · intro i j hi hj
      exact ht.one i j ((owns_congr h i).mpr hi) ((owns_congr h j).mpr hj)
    · intro i hi
      exact hl ▸ ht.current i ((owns_congr h i).mpr hi)
  · intro hs
    refine ⟨hc ▸ hs.calls, ?_, ?_⟩
    · intro i j hi hj
      exact hs.one i j ((owns_congr h i).mp hi) ((owns_congr h j).mp hj)
    · intro i hi
      exact hl ▸ hs.current i ((owns_congr h i).mp hi)

theorem held_iff {s : State} : Held s ↔ ∃ id, s.lid = some id ∧ Owns id s :=
  Option.bind_eq_some_iff

/-- A call is one of those that are claimed if the current link is there. -/
theorem tidy_called {s : State} : Tidy (called s) ↔ Tidy s ∧ Held s := by
  constructor
  · intro h
    refine ⟨⟨fun c hc => h.calls c (List.mem_append_left _ hc), h.one, h.current⟩, ?_⟩
    exact h.calls _ (List.mem_append_right _ (List.mem_singleton_self _))
  · rintro ⟨h, hh⟩
    refine ⟨?_, h.one, h.current⟩
    intro c hc
    obtain hc | hc := List.mem_append.mp hc
    · exact h.calls c hc
    · obtain rfl := List.mem_singleton.mp hc
      exact hh

theorem wires_called {s t : State} (h : wires t = wires s) :
    wires (called t) = wires (called s) := by
  simp only [wires, Wires.mk.injEq] at h
  obtain ⟨hl, hst, hc, ho⟩ := h
  have ho' (id : ℕ) : Links.owner id t.link = Links.owner id s.link := congrFun ho id
  simp only [wires, called, hl, hst, hc, ho']

@[simp] theorem wires_timer_start (k : Timer) (s : State) : wires (timer_start k s) = wires s := by
  simp only [wires, timer_start]

@[simp] theorem wires_timer_stop (k : Timer) (s : State) : wires (timer_stop k s) = wires s := by
  simp only [wires, timer_stop]

@[simp] theorem wires_dispatch (m : Ind) (s : State) : wires (dispatch m s) = wires s := by
  simp only [wires, dispatch]

@[simp] theorem wires_endntfy (s : State) : wires (endntfy s) = wires s := by
  rw [endntfy, wires_timer_stop, wires_dispatch]

@[simp] theorem wires_recorded (v : Option LuaString) (s : State) :
    wires (recorded v s) = wires s := by
  simp only [wires, recorded]

theorem wires_linkSend (data : LuaString) (s : State) :
    wires (linkSend data s) = wires (called s) := by
  unfold linkSend
  split
  · simp [wires, called]
  · rfl

theorem wires_linkClose (s : State) : wires (linkClose s) = wires (called s) := by
  unfold linkClose
  split
  · simp [wires, called]
  · rfl

theorem wires_linkConnect {s t : State} (h : linkConnect s = some t) :
    wires t = wires (called s) := by
  unfold linkConnect at h
  split at h
  · obtain rfl := Option.some.inj h
    simp [wires, called]
  · split at h
    · cases h
    · obtain rfl := Option.some.inj h
      simp [wires, called]
  · obtain rfl := Option.some.inj h
    rfl

theorem wires_snd {s : State} (h : 0 < (s.luaerr ++ s.inf).length) :
    wires (snd s) = wires (called s) := by
  unfold snd
  dsimp only
  rw [if_pos h]
  exact wires_linkSend _ s

theorem snd_nothing {s : State} (h : ¬0 < (s.luaerr ++ s.inf).length) : snd s = s := if_neg h

theorem wires_recvOk (s : State) : wires (recvOk s) = wires (called s) := by
  have h : wires (recvOk s) = wires (linkClose (timer_stop .snd s)) := by
    simp [wires, recvOk, writerr, timer_stop, endntfy, dispatch]
  exact h.trans (wires_linkClose _)

theorem link_recvOk (s : State) : (recvOk s).link = (linkClose (timer_stop .snd s)).link := by
  simp only [recvOk, writerr, timer_stop, endntfy, dispatch]

theorem wires_acknowledge (r : Report) (s : State) : wires (acknowledge r s) = wires s := by
  unfold acknowledge
  split <;> rfl

theorem wires_writerr (append : Bool) (v : Option LuaString) (s : State) :
    wires (writerr append v s) = wires s := by
  cases v <;> simp [wires, writerr]

/-! ## The link table keeps its shape -/

theorem shape_linkSend (data : LuaString) {s : State} (h : Links.Shape s.link) :
    Links.Shape (linkSend data s).link := by
  unfold linkSend
  split
  · exact Links.step_shape s.link (.send _ _) _ h rfl
  · exact h

theorem shape_linkClose {s : State} (h : Links.Shape s.link) : Links.Shape (linkClose s).link := by
  unfold linkClose
  split
  · exact Links.step_shape s.link (.close _) _ h rfl
  · exact h

theorem shape_linkConnect {s t : State} (h : Links.Shape s.link) (hc : linkConnect s = some t) :
    Links.Shape t.link := by
  unfold linkConnect at hc
  split at hc
  · obtain rfl := Option.some.inj hc
    exact Links.step_shape s.link (.connect _ _ _ _) _ h rfl
  · split at hc
    · cases hc
    · obtain rfl := Option.some.inj hc
      exact Links.step_shape s.link (.connect _ _ _ _) _ h rfl
  · obtain rfl := Option.some.inj hc
    exact h

theorem shape_snd {s : State} (h : Links.Shape s.link) : Links.Shape (snd s).link := by
  unfold snd
  dsimp only
  split
  · exact shape_linkSend _ h
  · exact h

theorem shape_linkOpen {s : State} (h : Links.Shape s.link) : Links.Shape (linkOpen s).link :=
  Links.step_shape s.link (.openlink .dbg true) _ h rfl

/-! ## Every step -/

/-- What holds in every run: a connection that is up is one of the current link. -/
structure Sound (s : State) : Prop where
  shape : Links.Shape s.link
  up : s.linksta = true → Held s

section Steps

variable {s t : State}

theorem Sound.of_wires (h : Sound s) (hw : wires t = wires s) (hs : Links.Shape t.link) :
    Sound t := by
  refine ⟨hs, ?_⟩
  intro hl
  have hst : t.linksta = s.linksta := congrArg Wires.linksta hw
  exact (held_congr hw).mpr (h.up (hst ▸ hl))

/-- A call changes nothing but the record of the calls. -/
theorem Sound.of_call (h : Sound s) (hw : wires t = wires (called s)) (hs : Links.Shape t.link) :
    Sound t :=
  Sound.of_wires (s := called s) ⟨h.shape, h.up⟩ hw hs

theorem sound_snd (h : Sound s) : Sound (snd s) := by
  by_cases hd : 0 < (s.luaerr ++ s.inf).length
  · exact h.of_call (wires_snd hd) (shape_snd h.shape)
  · rwa [snd_nothing hd]

theorem tidy_snd (ht : Tidy s) :
    Tidy (snd s) ↔ (0 < (s.luaerr ++ s.inf).length → Held s) := by
  by_cases hd : 0 < (s.luaerr ++ s.inf).length
  · rw [tidy_congr (wires_snd hd), tidy_called]
    exact ⟨fun h _ => h.2, fun h => ⟨ht, h hd⟩⟩
  · rw [snd_nothing hd]
    exact ⟨fun _ h => absurd h hd, fun _ => ht⟩

/-- The link that `init` opens. -/
theorem wires_linkOpen {k : ℕ} (hk : Links.emptylink s.link = some k) :
    wires (linkOpen s) = { wires s with
      lid := some k, owner := fun id => if id = k then some .dbg else Links.owner id s.link } := by
  have hlid : (linkOpen s).lid = some k := by
    simp only [linkOpen, Links.openlink, hk]
  have how : (fun id => Links.owner id (linkOpen s).link) =
      fun id => if id = k then some Client.dbg else Links.owner id s.link := by
    funext id
    exact Links.owner_openlink hk .dbg true id
  show (⟨(linkOpen s).lid, s.linksta, s.calls, fun id => Links.owner id (linkOpen s).link⟩ :
    Wires) = _
  rw [hlid, how]
  rfl

theorem owner_low {id : ℕ} (h : Links.Shape s.link) (ho : Owns id s) : id ∈ Links.ids := by
  obtain ⟨l, hl, -⟩ := Option.map_eq_some_iff.mp ho
  refine List.mem_range.mpr (Nat.lt_succ_of_le (Nat.le_of_not_lt fun hid => ?_))
  rw [h.low id hid] at hl
  cases hl

/-- Opening a link keeps the links apart if it is the only debug link. -/
theorem tidy_open (h : Sound s) (ht : Tidy s) (hc : linkConnect (linkOpen s) = some t) :
    Tidy t ↔ Vacant s := by
  rw [tidy_congr (wires_linkConnect hc), tidy_called]
  cases hk : Links.emptylink s.link with
  | none =>
      have hno : ¬Held (linkOpen s) := by
        have hlid : (linkOpen s).lid = none := by
          simp only [linkOpen, Links.openlink, hk]
        rw [Held, hlid]
        simp
      constructor
      · exact fun h => absurd h.2 hno
      · rintro ⟨h, -⟩
        rw [hk] at h
        cases h
  | some k =>
      have hw := wires_linkOpen hk
      have hfree := (Links.emptylink_free hk).1
      have hlid : (linkOpen s).lid = some k := congrArg Wires.lid hw
      have hown (id : ℕ) : Owns id (linkOpen s) ↔ id = k ∨ Owns id s := by
        have ho : Links.owner id (linkOpen s).link = if id = k then some .dbg else
            Links.owner id s.link := congrFun (congrArg Wires.owner hw) id
        rw [Owns, ho]
        split
        · simp [*]
        · simp [*, Owns]
      have hheld : Held (linkOpen s) := held_iff.mpr ⟨k, hlid, (hown k).mpr (.inl rfl)⟩
      constructor
      · rintro ⟨h', -⟩
        refine ⟨by rw [hk]; rfl, ?_⟩
        intro id _ ho
        obtain rfl := h'.one id k ((hown id).mpr (.inr ho)) ((hown k).mpr (.inl rfl))
        rw [Owns, Links.owner, hfree] at ho
        cases ho
      · rintro ⟨-, hv⟩
        have honly (id : ℕ) (ho : Owns id (linkOpen s)) : id = k :=
          ((hown id).mp ho).resolve_right fun ho => hv id (owner_low h.shape ho) ho
        refine ⟨⟨ht.calls, ?_, ?_⟩, hheld⟩
        · intro i j hi hj
          rw [honly i hi, honly j hj]
        · intro i hi
          rw [honly i hi, hlid]

theorem init_tidy (h : Sound s) (ht : Tidy s) (hi : init s = some t) : Tidy t ↔ Fresh s := by
  have hw : wires (getlasterr (initerr s)) = wires s := rfl
  have h' : Sound (getlasterr (initerr s)) := h.of_wires hw h.shape
  have ht' : Tidy (getlasterr (initerr s)) := (tidy_congr hw).mpr ht
  rw [init_eq] at hi
  split at hi
  · rename_i hv
    obtain ⟨u, hu, rfl⟩ := Option.map_eq_some_iff.mp hi
    have hwu : Tidy (timer_start .endind (dispatch .begins u)) ↔ Tidy u := tidy_congr rfl
    rw [hwu]
    split at hu
    · rename_i hup
      obtain rfl := Option.some.inj hu
      rw [tidy_snd ht']
      constructor
      · intro _ _ hdown
        rw [hup] at hdown
        cases hdown
      · exact fun _ _ => h'.up hup
    · rename_i hup
      rw [tidy_open h' ht' hu]
      exact ⟨fun hvac _ _ => hvac, fun hf => hf hv (by simpa using hup)⟩
  · rename_i hv
    obtain rfl := Option.some.inj hi
    exact ⟨fun _ hv' => absurd hv' hv, fun _ => ht'⟩

theorem init_sound (h : Sound s) (hi : init s = some t) : Sound t := by
  have h' : Sound (getlasterr (initerr s)) := h.of_wires rfl h.shape
  rw [init_eq] at hi
  split at hi
  · obtain ⟨u, hu, rfl⟩ := Option.map_eq_some_iff.mp hi
    have hsu : Sound u := by
      split at hu
      · obtain rfl := Option.some.inj hu
        exact sound_snd h'
      · rename_i hup
        refine ⟨shape_linkConnect (shape_linkOpen h'.shape) hu, ?_⟩
        intro hl
        have hst : u.linksta = s.linksta := congrArg Wires.linksta (wires_linkConnect hu)
        exact absurd (hst ▸ hl) hup
    exact hsu.of_wires rfl hsu.shape
  · obtain rfl := Option.some.inj hi
    exact h'

/-! ### Events of the links -/

variable {a : Links.Act Client} {l : Links.State Client}

/-- After the event, before `notify` is run. -/
theorem moved_tidy (h : Sound s) (ht : Tidy s) (hf : Links.foreign .dbg s.link a = true)
    (hl : Links.step s.link a = some l) : Tidy { s with link := l } := by
  have back (i : ℕ) (hi : Owns i { s with link := l }) : Owns i s :=
    Links.foreign_owner h.shape hf hl hi
  refine ⟨ht.calls, ?_, ?_⟩
  · intro i j hi hj
    exact ht.one i j (back i hi) (back j hj)
  · intro i hi
    exact ht.current i (back i hi)

theorem notify_tidy {id : ℕ} {evt : Links.Evt} {val : LuaString} (ht : Tidy s)
    (ho : evt ≠ .close → Owns id s) : Tidy (notify id evt val s) := by
  unfold notify
  split
  · exact ht
  rename_i hid
  have hheld (he : evt ≠ .close) : Held s :=
    held_iff.mpr ⟨id, (not_not.mp hid).symm, ho he⟩
  cases evt with
  | connect =>
      dsimp only
      split
      · refine (tidy_snd ?_).mpr fun _ => hheld (by decide)
        exact ⟨ht.calls, ht.one, ht.current⟩
      · exact (tidy_congr (wires_timer_start _ s)).mpr ht
  | disconnect | close => exact ⟨ht.calls, ht.one, ht.current⟩
  | state =>
      dsimp only
      split
      · exact (tidy_congr (wires_linkClose s)).mpr (tidy_called.mpr ⟨ht, hheld (by decide)⟩)
      · exact ht
  | send => exact ht

theorem deliver_tidy (h : Sound s) (ht : Tidy s) (hf : Links.foreign .dbg s.link a = true)
    (hl : Links.step s.link a = some l) : Tidy (deliver a l s) := by
  have hm := moved_tidy h ht hf hl
  unfold deliver
  split
  · rename_i n hn
    exact notify_tidy hm fun he => Links.notified_owner hl hn he
  · exact hm

/-- The connection stays with the current link, until the end is told. -/
theorem deliver_sound (h : Sound s) (hf : Links.foreign .dbg s.link a = true)
    (hl : Links.step s.link a = some l) : Sound (deliver a l s) := by
  have hsh : Links.Shape l := Links.step_shape _ _ _ h.shape hl
  have stays (hup : s.linksta = true) : Held { s with link := l } ∨
      ∃ n, Links.notified .dbg s.link a l = some n ∧ some n.id = s.lid ∧ n.evt ≠ .send := by
    obtain ⟨id, hid, ho⟩ := held_iff.mp (h.up hup)
    obtain ⟨st, hst⟩ := Option.isSome_iff_exists.mp (Links.stateOf_isSome.mpr ho)
    obtain hk | ⟨n, hn, rfl, he⟩ := Links.foreign_kept h.shape hf hl hst
    · refine .inl (held_iff.mpr ⟨id, hid, ?_⟩)
      exact Links.stateOf_isSome.mp (by rw [hk]; rfl)
    · exact .inr ⟨n, hn, hid.symm, he⟩
  unfold deliver
  split
  · rename_i n hn
    unfold notify
    split
    · rename_i hid
      refine ⟨hsh, ?_⟩
      intro hup
      obtain hh | ⟨m, hm, hmid, -⟩ := stays hup
      · exact hh
      · obtain rfl : n = m := Option.some.inj (hn.symm.trans hm)
        exact absurd hmid hid
    rename_i hid
    have hheld (he : n.evt ≠ .close) : Held { s with link := l } :=
      held_iff.mpr ⟨n.id, (not_not.mp hid).symm, Links.notified_owner hl hn he⟩
    cases he : n.evt with
    | connect =>
        dsimp only
        split
        · exact sound_snd ⟨hsh, fun _ => hheld (by rw [he]; decide)⟩
        · exact ⟨hsh, fun _ => hheld (by rw [he]; decide)⟩
    | disconnect | close =>
        refine ⟨hsh, ?_⟩
        intro hup
        cases hup
    | state =>
        have hs' : Sound { s with link := l } := ⟨hsh, fun _ => hheld (by rw [he]; decide)⟩
        dsimp only
        split
        · exact hs'.of_call (wires_linkClose _) (shape_linkClose hsh)
        · exact hs'
    | send => exact ⟨hsh, fun _ => hheld (by rw [he]; decide)⟩
  · rename_i hn
    refine ⟨hsh, ?_⟩
    intro hup
    obtain hh | ⟨m, hm, -⟩ := stays hup
    · exact hh
    · rw [hn] at hm
      cases hm

/-! ### Answers and timers -/

theorem recvOk_tidy {id : ℕ} (ht : Tidy s) (ho : Owns id s) (r : Report) :
    Tidy (recvOk (acknowledge r s)) := by
  have ht' : Tidy (acknowledge r s) := (tidy_congr (wires_acknowledge r s)).mpr ht
  have hheld : Held (acknowledge r s) :=
    (held_congr (wires_acknowledge r s)).mpr (held_iff.mpr ⟨id, ht.current id ho, ho⟩)
  exact (tidy_congr (wires_recvOk _)).mpr (tidy_called.mpr ⟨ht', hheld⟩)

theorem recvOk_sound (h : Sound s) (r : Report) : Sound (recvOk (acknowledge r s)) := by
  have hsh : Links.Shape (acknowledge r s).link := by
    unfold acknowledge
    split <;> exact h.shape
  have h' : Sound (acknowledge r s) := h.of_wires (wires_acknowledge r s) hsh
  refine h'.of_call (wires_recvOk _) ?_
  rw [link_recvOk]
  exact shape_linkClose (by exact hsh)

theorem rebooted (ht : Tidy s) : Tidy (reboot s) := by
  have hno (i : ℕ) : ¬Owns i (reboot s) := by
    simp [Owns, Links.owner, reboot, boot, Links.boot]
  exact ⟨ht.calls, fun i _ hi => absurd hi (hno i), fun i hi => absurd hi (hno i)⟩

theorem rebooted_sound (s : State) : Sound (reboot s) := by
  refine ⟨Links.boot_shape, ?_⟩
  intro h
  cases h

theorem fire_tidy {k : Timer} (ht : Tidy s) (hf : fire k (timer_stop k s) = some t) :
    Tidy t ↔ Careful s (.expire k) := by
  have hw := wires_timer_stop k s
  have ht' : Tidy (timer_stop k s) := (tidy_congr hw).mpr ht
  cases k with
  | snd =>
      obtain rfl := Option.some.inj hf
      exact (tidy_snd ht').trans (imp_congr_right fun _ => held_congr hw)
  | rcvtimeout =>
      obtain rfl := Option.some.inj hf
      have he : wires (endntfy (timer_stop .rcvtimeout s)) = wires s := by simp
      show Tidy (linkClose (endntfy (timer_stop .rcvtimeout s))) ↔ Held s
      rw [tidy_congr ((wires_linkClose _).trans (wires_called he)), tidy_called]
      exact ⟨fun h => h.2, fun h => ⟨ht, h⟩⟩
  | reconn =>
      simp only [fire, reconn] at hf
      split at hf
      · rename_i hlt
        have he : wires { timer_stop .reconn s with
            reconntimes := (timer_stop .reconn s).reconntimes + 1 } = wires s := by
          simp only [wires, timer_stop]
        rw [tidy_congr ((wires_linkConnect hf).trans (wires_called he)), tidy_called]
        exact ⟨fun h _ => h.2, fun h => ⟨ht, h hlt⟩⟩
      · rename_i hlt
        obtain rfl := Option.some.inj hf
        refine ⟨fun _ h => absurd h hlt, fun _ => ?_⟩
        exact (tidy_congr (by simp)).mpr ht
  | endind =>
      obtain rfl := Option.some.inj hf
      exact ⟨fun _ => trivial, fun _ => (tidy_congr (wires_dispatch _ _)).mpr ht'⟩

theorem fire_sound {k : Timer} (h : Sound s) (hf : fire k (timer_stop k s) = some t) :
    Sound t := by
  have h' : Sound (timer_stop k s) := h.of_wires (wires_timer_stop k s) h.shape
  cases k with
  | snd =>
      obtain rfl := Option.some.inj hf
      exact sound_snd h'
  | rcvtimeout =>
      obtain rfl := Option.some.inj hf
      have he : Sound (endntfy (timer_stop .rcvtimeout s)) := h'.of_wires (wires_endntfy _) h.shape
      exact he.of_call (wires_linkClose _) (shape_linkClose he.shape)
  | reconn =>
      simp only [fire, reconn] at hf
      split at hf
      · have he : wires { timer_stop .reconn s with
            reconntimes := (timer_stop .reconn s).reconntimes + 1 } = wires s := by
          simp only [wires, timer_stop]
        exact h.of_call ((wires_linkConnect hf).trans (wires_called he))
          (shape_linkConnect (by exact h.shape) hf)
      · obtain rfl := Option.some.inj hf
        exact h'.of_wires (wires_endntfy _) h.shape
  | endind =>
      obtain rfl := Option.some.inj hf
      exact h'.of_wires (wires_dispatch _ _) h.shape

theorem wires_saved (v : Option LuaString) (s : State) :
    wires (recorded v (writerr true v s)) = wires s := by
  rw [wires_recorded, wires_writerr]

theorem sound_saved (v : Option LuaString) (h : Sound s) :
    Sound (recorded v (writerr true v s)) := by
  refine h.of_wires (wires_saved v s) ?_
  cases v <;> exact h.shape

theorem step_sound {a : Act} (h : Sound s) (hst : step s a = some t) : Sound t := by
  cases a with
  | setup prot addr port =>
      exact init_sound (s := { s with server := some (prot, addr, port) }) ⟨h.shape, h.up⟩ hst
  | saverr v =>
      exact init_sound (sound_saved v h) hst
  | restart r =>
      obtain rfl := Option.some.inj hst
      exact rebooted_sound _
  | reboot luaerrinfo =>
      obtain rfl := Option.some.inj hst
      exact rebooted_sound _
  | liberr text | imei v =>
      obtain rfl := Option.some.inj hst
      exact ⟨h.shape, h.up⟩
  | link a =>
      obtain ⟨hf, hst⟩ := Option.ite_none_right_eq_some.mp hst
      obtain ⟨l, hl, rfl⟩ := Option.map_eq_some_iff.mp hst
      exact deliver_sound h hf hl
  | recv id data k =>
      obtain ⟨-, hst⟩ := Option.ite_none_right_eq_some.mp hst
      split at hst
      · split at hst
        · obtain ⟨-, hst⟩ := Option.ite_none_right_eq_some.mp hst
          obtain rfl := Option.some.inj hst
          exact recvOk_sound h _
        · cases hst
      · obtain rfl := Option.some.inj hst
        exact h
  | expire k =>
      obtain ⟨-, hst⟩ := Option.ite_none_right_eq_some.mp hst
      exact fire_sound h hst

theorem step_tidy {a : Act} (h : Sound s) (ht : Tidy s) (hst : step s a = some t) :
    Tidy t ↔ Careful s a := by
  cases a with
  | setup prot addr port =>
      exact init_tidy (s := { s with server := some (prot, addr, port) }) ⟨h.shape, h.up⟩
        ⟨ht.calls, ht.one, ht.current⟩ hst
  | saverr v =>
      rw [init_tidy (sound_saved v h) ((tidy_congr (wires_saved v s)).mpr ht) hst]
      exact Iff.rfl
  | restart r =>
      obtain rfl := Option.some.inj hst
      exact ⟨fun _ => trivial, fun _ => rebooted ⟨ht.calls, ht.one, ht.current⟩⟩
  | reboot luaerrinfo =>
      obtain rfl := Option.some.inj hst
      exact ⟨fun _ => trivial, fun _ => rebooted ⟨ht.calls, ht.one, ht.current⟩⟩
  | liberr text | imei v =>
      obtain rfl := Option.some.inj hst
      exact ⟨fun _ => trivial, fun _ => ⟨ht.calls, ht.one, ht.current⟩⟩
  | link a =>
      obtain ⟨hf, hst⟩ := Option.ite_none_right_eq_some.mp hst
      obtain ⟨l, hl, rfl⟩ := Option.map_eq_some_iff.mp hst
      exact ⟨fun _ => trivial, fun _ => deliver_tidy h ht hf hl⟩
  | recv id data k =>
      obtain ⟨⟨-, ho⟩, hst⟩ := Option.ite_none_right_eq_some.mp hst
      refine ⟨fun _ => trivial, fun _ => ?_⟩
      split at hst
      · split at hst
        · obtain ⟨-, hst⟩ := Option.ite_none_right_eq_some.mp hst
          obtain rfl := Option.some.inj hst
          exact recvOk_tidy ht ho _
        · cases hst
      · obtain rfl := Option.some.inj hst
        exact ht
  | expire k =>
      obtain ⟨-, hst⟩ := Option.ite_none_right_eq_some.mp hst
      exact fire_tidy ht hst

end Steps

/-! ## Runs -/

theorem boot_sound (project version : Option LuaString) (corever : LuaString) :
    Sound (boot project version corever) := by
  refine ⟨Links.boot_shape, ?_⟩
  intro h
  cases h

theorem boot_tidy (project version : Option LuaString) (corever : LuaString) :
    Tidy (boot project version corever) := by
  have hno (i : ℕ) : ¬Owns i (boot project version corever) := nofun
  refine ⟨?_, fun i _ hi => absurd hi (hno i), fun i hi => absurd hi (hno i)⟩
  intro c hc
  cases hc

/-- A run keeps to its own links exactly if the timers find the link that they are about, and
`init` finds no older one. -/
theorem links_kept (project version : Option LuaString) (corever : LuaString) (acts : List Act) :
    Along step Tidy (boot project version corever) acts ↔
      Meets step Careful (boot project version corever) acts :=
  along_iff_meets (I := Sound) (fun _ _ _ h hst => step_sound h hst)
    (fun _ _ _ h ht hst => step_tidy h ht hst) (boot_sound project version corever)
    (boot_tidy project version corever) acts

/-- The response to the next AT command. -/
def answer (response : LuaString) : List Act :=
  [.link .sendat, .link (.respond true response none)]

/-- A report is sent and not answered, and the link is closed after 20 seconds. -/
def unanswered : List Act :=
  [.setup (lua "TCP") (lua "host") (lua "9072"), .saverr (some (lua "e")),
    .link (.urc (lua "STATE: IP STATUS"))] ++ answer (lua "OK") ++
  [.link (.urc (lua "0, CONNECT OK")), .link .ret] ++ answer (lua "DATA ACCEPT:1") ++
  [.link .ret, .expire .rcvtimeout] ++ answer (lua "0, CLOSE OK") ++ [.link .ret]

/-- After half an hour `snd` sends over link 0, which another module has opened. -/
theorem sent_over_other_link :
    (run step (boot (some (lua "P")) none []) (unanswered ++
      [.link (.openlink (.other 1) false), .expire .snd])).map (fun s => s.calls.getLast?) =
        some (some (some 0, some (.other 1))) ∧
    ¬Along step Tidy (boot (some (lua "P")) none []) (unanswered ++
      [.link (.openlink (.other 1) false), .expire .snd]) := by
  have hrun : (run step (boot (some (lua "P")) none []) (unanswered ++
      [.link (.openlink (.other 1) false), .expire .snd])).map (fun s => s.calls.getLast?) =
        some (some (some 0, some (.other 1))) := by decide +kernel
  refine ⟨hrun, ?_⟩
  intro h
  obtain ⟨t, ht, hc⟩ := Option.map_eq_some_iff.mp hrun
  have hown := (h.last ht).calls _ (List.mem_of_getLast? hc)
  cases hown

end LuatAir200.Dbg
