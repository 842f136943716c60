import LuatAir200.MqttShared
import LuatAir200.OwnedList

/-!
# Whose packets the two modules touch

Nothing in `mqttdup.lua` tells the packets of the two modules apart. They stay apart exactly in
the runs in which what is selected first happens to be the client's own, and there each module
does what it does when it is loaded alone.
-/
namespace LuatAir200.MqttShared
open Lua Keyed Machine OwnedList
open MqttDup (Entry Msg DUP_TIME DUP_CNT)

variable {β : Type}

/-! ## Own packets -/

/-- The client that acts. -/
def Event.by : Event β → Client
  | .ind c _ _ | .fail c _ _ | .rsm c _ | .rmv c _ _ | .ackcb c _ _ _ _ => c

/-- A packet is touched by its own client only, and leaves the list for one of the named reasons:
that `CONNECT` is sent is none. -/
def Event.Proper : Event β → Prop
  | .ind c o _ | .fail c o _ | .ackcb c o _ _ _ => o = c
  | .rsm c x => client x = c
  | .rmv c why x => client x = c ∧ why ≠ .conn

def Own (s : State β) : Prop := ∀ v ∈ s.hist, v.Proper

/-- The entries of a client. -/
def of (c : Client) (x : Held β) : Bool := client x = c

/-- Both modules are loaded, `last` behind the other. -/
def loaded (last : Mod) : List Mod := [last.other, last]

/-- What is selected first is an entry of the client that selects; the list has no other entries
when its connection is lost; the last module handles messages of its own. -/
def Separate (last : Mod) (s : State β) : Act β → Prop
  | .create _ | .put _ _ _ _ _ _ | .tick => True
  | .conn c => s.tlist.find? (picks c CONN none none) = none
  | .connack c => Finds (of c) (picks c CONN none none) s.tlist
  | .ack c seq => Finds (of c) (picks c none none (some seq)) s.tlist
  | .lost c | .closed c => ∀ x ∈ s.tlist, client x = c
  | .resent c dat => Finds (of c) (matching c dat) s.tlist
  | .msg ok => ∀ x ∈ s.qmsg.head?, x.1 = last ∧
      (ok = false → ∀ sckidx dat, x.2 = .dupInd sckidx dat →
        Finds (of (last, sckidx)) (matching (last, sckidx) dat) s.tlist)

theorem handler_loaded (last : Mod) (m : Msg β) : handler (loaded last) m = some last := by
  cases last <;> cases m <;> rfl

theorem handler_single (m : Mod) (a : Msg β) : handler [m] a = some m := by
  cases m <;> cases a <;> rfl

/-! ## What the operations do -/

section
variable (c : Client) (why : Cause) (typ dat seq : Option LuaString) (s : State β)

@[simp] theorem timer_tclients (b : Bool) : (timer b s).tclients = s.tclients := by
  unfold timer
  split_ifs <;> rfl

@[simp] theorem timer_tlist (b : Bool) : (timer b s).tlist = s.tlist := by
  unfold timer
  split_ifs <;> rfl

@[simp] theorem timer_qmsg (b : Bool) : (timer b s).qmsg = s.qmsg := by
  unfold timer
  split_ifs <;> rfl

@[simp] theorem timer_hist (b : Bool) : (timer b s).hist = s.hist := by
  unfold timer
  split_ifs <;> rfl

@[simp] theorem rmv_tclients : (rmv c why typ dat seq s).tclients = s.tclients := by
  cases h : s.tlist.find? (picks c typ dat seq) <;> simp [rmv, h, record]

@[simp] theorem rmv_tlist : (rmv c why typ dat seq s).tlist = s.tlist.eraseP (picks c typ dat seq) := by
  cases h : s.tlist.find? (picks c typ dat seq) with
  | none =>
      rw [List.eraseP_of_forall_not (by simpa using h)]
      simp [rmv, h]
  | some x => simp [rmv, h, record]

@[simp] theorem rmv_qmsg : (rmv c why typ dat seq s).qmsg = s.qmsg := by
  cases h : s.tlist.find? (picks c typ dat seq) <;> simp [rmv, h, record]

@[simp] theorem rmv_hist : (rmv c why typ dat seq s).hist =
    s.hist ++ (s.tlist.find? (picks c typ dat seq)).toList.map (.rmv c why) := by
  cases h : s.tlist.find? (picks c typ dat seq) <;> simp [rmv, h, record]

end

theorem picks_matching (c : Client) (dat : LuaString) :
    (picks c none (some dat) none : Held β → Bool) = matching c dat := by
  funext x
  simp [picks, MqttDup.selects, matching, eq_comm]

theorem matching_recount (c : Client) (dat : LuaString) {f : Entry β → Entry β}
    (hi : ∀ e, (f e).sckidx = e.sckidx) (hd : ∀ e, (f e).dat = e.dat) (x : Held β) :
    matching c dat (recount f x) = matching c dat x := by
  simp [matching, recount, hi, hd]

/-! ## Who acts -/

theorem own_append {s t : State β} {l : List (Event β)} (hs : Own s) (ht : t.hist = s.hist ++ l) :
    Own t ↔ ∀ v ∈ l, v.Proper := by
  rw [Own, ht]
  constructor
  · intro h v hv
    exact h v (List.mem_append_right _ hv)
  · intro h v hv
    rcases List.mem_append.mp hv with hv | hv
    · exact hs v hv
    · exact h v hv

theorem own_rmv {s : State β} (hs : Own s) (c : Client) {why : Cause} (hw : why ≠ .conn)
    (typ dat seq : Option LuaString) :
    Own (rmv c why typ dat seq s) ↔ Finds (of c) (picks c typ dat seq) s.tlist := by
  rw [own_append hs (rmv_hist c why typ dat seq s), Finds]
  cases s.tlist.find? (picks c typ dat seq) <;> simp [Event.Proper, of, hw]

theorem own_conn {s : State β} (hs : Own s) (c : Client) (typ dat seq : Option LuaString) :
    Own (rmv c .conn typ dat seq s) ↔ s.tlist.find? (picks c typ dat seq) = none := by
  rw [own_append hs (rmv_hist c .conn typ dat seq s)]
  cases s.tlist.find? (picks c typ dat seq) <;> simp [Event.Proper]

theorem own_rmvall {s : State β} (hs : Own s) (c : Client) :
    Own (rmvall c s) ↔ ∀ x ∈ s.tlist, client x = c := by
  have hh : (rmvall c s).hist = s.hist ++ s.tlist.map (.rmv c .lost) := by simp [rmvall]
  rw [own_append hs hh, List.forall_mem_map]
  simp [Event.Proper]

theorem own_record {s : State β} (hs : Own s) (v : Event β) : Own (record v s) ↔ v.Proper := by
  rw [own_append hs (by rfl : (record v s).hist = s.hist ++ [v])]
  simp

/-- Nothing is taken back from the history. -/
theorem Own.of_append {s t : State β} {l : List (Event β)} (ht : Own t) (h : t.hist = s.hist ++ l) :
    Own s := fun v hv => ht v (h ▸ List.mem_append_left l hv)

theorem own_told {s : State β} (hs : Own s) (c : Client) (cb : Option β)
    (cbtag : Option LuaString) (suc : Bool) : Own (told c c cb cbtag suc s) := by
  cases cb with
  | none => exact hs
  | some f => exact (own_record hs _).mpr rfl

theorem told_hist (c o : Client) (cb : Option β) (cbtag : Option LuaString) (suc : Bool)
    (s : State β) : ∃ l, (told c o cb cbtag suc s).hist = s.hist ++ l := by
  cases cb with
  | none => exact ⟨[], (List.append_nil _).symm⟩
  | some f => exact ⟨_, rfl⟩

theorem getyp_eq (c : Client) (seq : LuaString) (s : State β) :
    getyp c seq s = s.tlist.find? (picks c none none (some seq)) := by
  have hp : (picks c none none (some seq) : Held β → Bool) =
      fun x => decide (some seq = x.2.seq ∧ c.2 = x.2.sckidx) := by
    funext x
    simp [picks, MqttDup.selects, and_comm]
  rw [hp, getyp]

theorem own_ack {s : State β} (hs : Own s) (c : Client) (seq : LuaString) :
    Own (ack c seq s) ↔ Finds (of c) (picks c none none (some seq)) s.tlist := by
  have hr := @own_rmv β s hs c .ack (by decide) none none (some seq)
  rw [← hr, ack, getyp_eq]
  cases hf : s.tlist.find? (picks c none none (some seq)) with
  | none => rfl
  | some x =>
      constructor
      · intro h
        obtain ⟨l, hl⟩ := told_hist c (client x) x.2.cb x.2.cbtag true
          (rmv c .ack none none (some seq) s)
        exact h.of_append hl
      · intro h
        have hx : client x = c := by simpa [of] using hr.mp h x hf
        simp only [hx]
        exact own_told h c _ _ _

theorem client_recount {f : Entry β → Entry β} (hf : ∀ e, (f e).sckidx = e.sckidx) (x : Held β) :
    client (recount f x) = client x := by
  rw [client, recount, hf, client]

/-- The entry that is given up is the one that `rmv` finds. -/
theorem giveup_find {c : Client} {dat : LuaString} {x : Held β} {s : State β}
    (h : s.tlist.find? (matching c dat) = some x) :
    (giveup c dat x s).tlist.find? (picks c none (some dat) none) =
      some (recount (fun e => { e with cnt := e.cnt - 1 }) x) := by
  rw [picks_matching, giveup, OwnedList.find_modify, h, Option.map_some]
  exact matching_recount c dat (by exact fun _ => rfl) (by exact fun _ => rfl)

theorem own_rsm {s : State β} (hs : Own s) (c : Client) (dat : LuaString) :
    Own (rsm c dat s) ↔ Finds (of c) (matching c dat) s.tlist := by
  rw [rsm, Finds]
  cases hf : s.tlist.find? (matching c dat) with
  | none => simpa using hs
  | some x =>
      have hrec := own_record hs (.rsm c x)
      simp only [Option.some.injEq, forall_eq', of, decide_eq_true_eq]
      split_ifs with hc
      · constructor
        · intro h
          have ho : Own (giveup c dat x s) := h.of_append (rmv_hist ..)
          exact hrec.mp ho
        · intro hx
          have ho : Own (giveup c dat x s) := hrec.mpr hx
          rw [own_rmv ho c (by decide), Finds, giveup_find hf]
          rintro y ⟨⟩
          simpa [of, client_recount] using hx
      · exact hrec

theorem rsm_hist (c : Client) (dat : LuaString) (s : State β) :
    ∃ l, (rsm c dat s).hist = s.hist ++ l := by
  rw [rsm]
  cases s.tlist.find? (matching c dat) with
  | none => exact ⟨[], (List.append_nil _).symm⟩
  | some x =>
      dsimp only
      split_ifs
      · rw [rmv_hist, giveup, record, List.append_assoc]
        exact ⟨_, rfl⟩
      · exact ⟨_, rfl⟩

theorem own_handle {s : State β} (hs : Own s) (h : Mod) (ok : Bool) (x : Sent β) :
    Own (handle h ok x s) ↔ x.1 = h ∧ (ok = false → ∀ sckidx dat, x.2 = .dupInd sckidx dat →
      Finds (of (h, sckidx)) (matching (h, sckidx) dat) s.tlist) := by
  obtain ⟨m, a⟩ := x
  cases a with
  | dupInd sckidx dat =>
      have hrec := own_record hs (.ind (h, sckidx) (m, sckidx) dat)
      cases ok with
      | true => simpa [handle, Event.Proper] using hrec
      | false =>
          have hm : (Event.ind (h, sckidx) (m, sckidx) dat : Event β).Proper ↔ m = h := by
            simp [Event.Proper]
          rw [hm] at hrec
          constructor
          · intro ht
            obtain ⟨l, hl⟩ := rsm_hist (h, sckidx) dat (record (.ind (h, sckidx) (m, sckidx) dat) s)
            have ho : Own (record (.ind (h, sckidx) (m, sckidx) dat) s) := ht.of_append hl
            refine ⟨hrec.mp ho, ?_⟩
            rintro - i d ⟨⟩
            exact (own_rsm ho (h, sckidx) dat).mp ht
          · rintro ⟨rfl, hf⟩
            exact (own_rsm (hrec.mpr rfl) _ dat).mpr (hf rfl sckidx dat rfl)
  | dupFail sckidx typ seq cb cbtag =>
      have hrec := own_record hs (.fail (h, sckidx) (m, sckidx) typ)
      have hm : (Event.fail (h, sckidx) (m, sckidx) typ : Event β).Proper ↔ m = h := by
        simp [Event.Proper]
      rw [hm] at hrec
      constructor
      · intro ht
        obtain ⟨l, hl⟩ := told_hist (h, sckidx) (m, sckidx) cb cbtag false
          (record (.fail (h, sckidx) (m, sckidx) typ) s)
        exact ⟨hrec.mp (ht.of_append hl), by rintro - i d ⟨⟩⟩
      · rintro ⟨rfl, -⟩
        exact own_told (hrec.mpr rfl) _ _ _ _

/-- A step touches only own packets exactly when it keeps the modules apart. -/
theorem own_step (last : Mod) {s t : State β} {a : Act β} (hs : Own s)
    (h : step (loaded last) s a = some t) : Own t ↔ Separate last s a := by
  cases a with
  | create m =>
      simp only [step] at h
      split_ifs at h
      cases h
      exact iff_of_true hs trivial
  | put c typ dat seq cb cbtag =>
      cases h
      have ht : (ins c typ dat seq cb cbtag s).hist = s.hist ++ [] := by simp [ins]
      exact iff_of_true ((own_append hs ht).mpr (by simp)) trivial
  | conn c =>
      simp only [step] at h
      split_ifs at h
      cases h
      exact own_conn hs c _ _ _
  | connack c =>
      simp only [step] at h
      split_ifs at h
      cases h
      exact own_rmv hs c (by decide) _ _ _
  | ack c seq =>
      simp only [step] at h
      split_ifs at h
      cases h
      exact own_ack hs c seq
  | lost c =>
      simp only [step] at h
      split_ifs at h
      cases h
      exact own_rmvall hs c
  | closed c =>
      simp only [step] at h
      split_ifs at h
      cases h
      exact own_rmvall (s := { s with tclients := _ }) hs c
  | resent c dat =>
      cases h
      exact own_rsm hs c dat
  | tick =>
      simp only [step] at h
      split_ifs at h
      cases h
      exact iff_of_true hs trivial
  | msg ok =>
      simp only [step] at h
      split at h
      · cases h
      · rename_i x qmsg hq
        rw [handler_loaded] at h
        cases h
        rw [own_handle (s := { s with qmsg := qmsg }) hs]
        simp [Separate, hq]

/-! ## One module alone -/

/-- What belongs to a module. -/
def mine {γ : Type} (m : Mod) (x : Mod × γ) : Bool := x.1 = m

def acts (m : Mod) (v : Event β) : Bool := v.by.1 = m

/-- The state of a module that is loaded alone. -/
def only (m : Mod) (s : State β) : State β where
  tclients k := if k = m then s.tclients k else []
  tlist := s.tlist.filter (mine m)
  active := s.tlist.filter (mine m) ≠ []
  qmsg := s.qmsg.filter (mine m)
  hist := s.hist.filter (acts m)

/-- Does an action concern the module? The timer does when it has entries. -/
def concerns (m : Mod) (s : State β) : Act β → Bool
  | .create k => k = m
  | .put c _ _ _ _ _ | .conn c | .connack c | .ack c _ | .lost c | .closed c | .resent c _ => c.1 = m
  | .tick => s.tlist.filter (mine m) ≠ []
  | .msg _ => s.qmsg.head?.any (mine m)

/-- The actions of a run that concern the module. -/
def alone (m : Mod) (l : List Mod) : State β → List (Act β) → List (Act β)
  | _, [] => []
  | s, a :: as =>
      match step l s a with
      | some t => if concerns m s a then a :: alone m l t as else alone m l t as
      | none => []

/-- The timer runs exactly while there are entries. -/
def Steady (s : State β) : Prop := s.active = decide (s.tlist ≠ [])

theorem steady_only (m : Mod) (s : State β) : Steady (only m s) := rfl

theorem steady_timer {s : State β} (h : s.tlist ≠ [] → s.active = true) : Steady (timer false s) := by
  rw [Steady, timer]
  by_cases hl : s.tlist = [] <;> simp [hl, h]

theorem eq_only {m : Mod} {s u : State β} (hs : Steady u)
    (hc : u.tclients = (only m s).tclients) (hl : u.tlist = (only m s).tlist)
    (hq : u.qmsg = (only m s).qmsg) (hh : u.hist = (only m s).hist) : u = only m s := by
  obtain ⟨_, _, _, _, _⟩ := u
  simp only at hc hl hq hh
  subst hc hl hq hh
  rw [Steady] at hs
  simp only at hs
  rw [hs]
  rfl

theorem steady_rmv {c : Client} {why : Cause} {typ dat seq : Option LuaString} {s : State β}
    (hs : s.tlist ≠ [] → s.active = true) : Steady (rmv c why typ dat seq s) := by
  apply steady_timer
  cases hf : s.tlist.find? (picks c typ dat seq) with
  | none => exact hs
  | some x => exact fun _ => hs (List.ne_nil_of_mem (List.mem_of_find?_eq_some hf))

/-- Nothing that belongs to the module is changed. -/
theorem only_eq {m : Mod} {s t : State β} (hc : ∀ k, k = m → t.tclients k = s.tclients k)
    (hl : t.tlist.filter (mine m) = s.tlist.filter (mine m))
    (hq : t.qmsg.filter (mine m) = s.qmsg.filter (mine m))
    (hh : t.hist.filter (acts m) = s.hist.filter (acts m)) :
    only m t = only m s := by
  have hk : (fun k => if k = m then t.tclients k else []) = fun k => if k = m then s.tclients k else [] := by
    funext k
    split_ifs with h
    · exact hc k h
    · rfl
  rw [only, hk, hl, hq, hh, only]

theorem filter_acts_own {c : Client} {l : List (Event β)} (h : ∀ v ∈ l, v.by = c)
    (hist : List (Event β)) : (hist ++ l).filter (acts c.1) = hist.filter (acts c.1) ++ l := by
  rw [List.filter_append]
  congr 1
  apply List.filter_eq_self.mpr
  intro v hv
  rw [acts, h v hv]
  exact decide_eq_true rfl

theorem filter_acts_other {m : Mod} {c : Client} (hm : c.1 ≠ m) {l : List (Event β)}
    (h : ∀ v ∈ l, v.by = c) (hist : List (Event β)) :
    (hist ++ l).filter (acts m) = hist.filter (acts m) := by
  have hl : l.filter (acts m) = [] := by
    apply List.filter_eq_nil_iff.mpr
    intro v hv
    rw [acts, h v hv, decide_eq_true_eq]
    exact hm
  rw [List.filter_append, hl, List.append_nil]

theorem mine_of {c : Client} (x : Held β) (h : of c x = true) : mine c.1 x = true := by
  rw [of, decide_eq_true_eq] at h
  rw [← h]
  exact decide_eq_true rfl

theorem not_mine_of {m : Mod} {c : Client} (hm : c.1 ≠ m) (x : Held β) (h : of c x = true) :
    mine m x = false := by
  rw [of, decide_eq_true_eq] at h
  rw [← h] at hm
  exact decide_eq_false hm

section
variable {c : Client} {s : State β}

theorem rmv_own {why : Cause} {typ dat seq : Option LuaString}
    (hf : Finds (of c) (picks c typ dat seq) s.tlist) :
    rmv c why typ dat seq (only c.1 s) = only c.1 (rmv c why typ dat seq s) := by
  have hf := hf.imp mine_of
  apply eq_only (steady_rmv (by simp [only]))
  · simp [only]
  · simp [only, hf.eraseP]
  · simp [only]
  · have hby : ∀ v ∈ (s.tlist.find? (picks c typ dat seq)).toList.map (Event.rmv c why), v.by = c :=
      List.forall_mem_map.mpr fun _ _ => rfl
    simp only [only, rmv_hist, hf.find, filter_acts_own hby]

theorem rmv_other {m : Mod} (hm : c.1 ≠ m) {why : Cause} {typ dat seq : Option LuaString}
    (hf : Finds (of c) (picks c typ dat seq) s.tlist) :
    only m (rmv c why typ dat seq s) = only m s := by
  apply only_eq
  · simp
  · rw [rmv_tlist, hf.eraseP_other (not_mine_of hm)]
  · simp
  · rw [rmv_hist, filter_acts_other hm]
    exact List.forall_mem_map.mpr fun _ _ => rfl

theorem rmvall_own (hf : ∀ x ∈ s.tlist, client x = c) :
    rmvall c (only c.1 s) = only c.1 (rmvall c s) := by
  have hl : s.tlist.filter (mine c.1) = s.tlist := by
    apply List.filter_eq_self.mpr
    intro x hx
    exact mine_of x (decide_eq_true (hf x hx))
  apply eq_only (steady_timer (by simp))
  · simp [rmvall, only]
  · simp [rmvall, only]
  · simp [rmvall, only]
  · have hby : ∀ v ∈ s.tlist.map (Event.rmv c .lost), v.by = c :=
      List.forall_mem_map.mpr fun _ _ => rfl
    simp only [rmvall, only, hl, timer_hist, filter_acts_own hby]

theorem rmvall_other {m : Mod} (hm : c.1 ≠ m) (hf : ∀ x ∈ s.tlist, client x = c) :
    only m (rmvall c s) = only m s := by
  have hl : s.tlist.filter (mine m) = [] := by
    apply List.filter_eq_nil_iff.mpr
    intro x hx
    rw [not_mine_of hm x (decide_eq_true (hf x hx))]
    decide
  apply only_eq
  · simp [rmvall]
  · simp [rmvall, hl]
  · simp [rmvall]
  · rw [rmvall, timer_hist, filter_acts_other hm]
    exact List.forall_mem_map.mpr fun _ _ => rfl

/-- A change of an entry in place. -/
theorem Steady.modify (hs : Steady s) {p : Held β → Bool} {f : Held β → Held β} {t : State β}
    (hl : t.tlist = Keyed.modify p f s.tlist) (ha : t.active = s.active) : Steady t := by
  rw [Steady, ha, hs, hl]
  simp only [ne_eq, modify_eq_nil]

theorem giveup_own {dat : LuaString} {x : Held β} (hx : client x = c)
    (hf : Finds (of c) (matching c dat) s.tlist) :
    giveup c dat x (only c.1 s) = only c.1 (giveup c dat x s) := by
  have hm := hf.imp mine_of
  apply eq_only
  · exact (steady_only c.1 s).modify rfl rfl
  · rfl
  · exact (hm.modify (by exact fun _ => rfl)).symm
  · have hmod : x.1 = c.1 := congrArg Prod.fst hx
    simp [giveup, only, mine, hmod]
  · exact (filter_acts_own (by simp [Event.by]) s.hist).symm

theorem giveup_finds {dat : LuaString} {x : Held β} (hx : client x = c)
    (h : s.tlist.find? (matching c dat) = some x) :
    Finds (of c) (picks c none (some dat) none) (giveup c dat x s).tlist := by
  rw [Finds, giveup_find h]
  rintro y ⟨⟩
  simpa [of, client_recount] using hx

theorem rsm_own {dat : LuaString} (hf : Finds (of c) (matching c dat) s.tlist) :
    rsm c dat (only c.1 s) = only c.1 (rsm c dat s) := by
  have hm := hf.imp mine_of
  have hfind : (only c.1 s).tlist.find? (matching c dat) = s.tlist.find? (matching c dat) := hm.find
  rw [rsm, rsm, hfind]
  cases h : s.tlist.find? (matching c dat) with
  | none => rfl
  | some x =>
      have hx : client x = c := of_decide_eq_true (hf x h)
      dsimp only
      split_ifs
      · rw [giveup_own hx hf, rmv_own (giveup_finds hx h)]
      · apply eq_only
        · exact (steady_only c.1 s).modify rfl rfl
        · rfl
        · exact (hm.modify (by exact fun _ => rfl)).symm
        · rfl
        · exact (filter_acts_own (by simp [Event.by]) s.hist).symm

theorem rsm_other {m : Mod} (hc : c.1 ≠ m) {dat : LuaString}
    (hf : Finds (of c) (matching c dat) s.tlist) : only m (rsm c dat s) = only m s := by
  rw [rsm]
  cases h : s.tlist.find? (matching c dat) with
  | none => rfl
  | some x =>
      have hx : client x = c := of_decide_eq_true (hf x h)
      dsimp only
      split_ifs
      · rw [rmv_other hc (giveup_finds hx h)]
        apply only_eq
        · exact fun _ _ => rfl
        · exact hf.modify_other (not_mine_of hc) (by exact fun _ => rfl)
        · have hmod : x.1 ≠ m := (congrArg Prod.fst hx).trans_ne hc
          simp [giveup, record, mine, hmod]
        · exact filter_acts_other hc (by simp [Event.by]) s.hist
      · apply only_eq
        · exact fun _ _ => rfl
        · exact hf.modify_other (not_mine_of hc) (by exact fun _ => rfl)
        · rfl
        · exact filter_acts_other hc (by simp [Event.by]) s.hist

theorem record_own {v : Event β} (hv : v.by = c) :
    record v (only c.1 s) = only c.1 (record v s) := by
  apply eq_only
  · exact steady_only c.1 s
  · rfl
  · rfl
  · rfl
  · exact (filter_acts_own (by simpa using hv) s.hist).symm

theorem record_other {m : Mod} (hc : c.1 ≠ m) {v : Event β} (hv : v.by = c) :
    only m (record v s) = only m s := by
  apply only_eq
  · exact fun _ _ => rfl
  · rfl
  · rfl
  · exact filter_acts_other hc (by simpa using hv) s.hist

theorem told_own (cb : Option β) (cbtag : Option LuaString) (suc : Bool) :
    told c c cb cbtag suc (only c.1 s) = only c.1 (told c c cb cbtag suc s) := by
  cases cb with
  | none => rfl
  | some f => exact record_own rfl

theorem told_other {m : Mod} (hc : c.1 ≠ m) (o : Client) (cb : Option β)
    (cbtag : Option LuaString) (suc : Bool) : only m (told c o cb cbtag suc s) = only m s := by
  cases cb with
  | none => rfl
  | some f => exact record_other hc rfl

theorem ack_own {seq : LuaString} (hf : Finds (of c) (picks c none none (some seq)) s.tlist) :
    ack c seq (only c.1 s) = only c.1 (ack c seq s) := by
  have hfind : (only c.1 s).tlist.find? (picks c none none (some seq)) =
      s.tlist.find? (picks c none none (some seq)) := (hf.imp mine_of).find
  rw [ack, ack, getyp_eq, getyp_eq, hfind, rmv_own hf]
  cases h : s.tlist.find? (picks c none none (some seq)) with
  | none => rfl
  | some x =>
      have hx : client x = c := of_decide_eq_true (hf x h)
      simp only [hx]
      exact told_own ..

theorem ack_other {m : Mod} (hc : c.1 ≠ m) {seq : LuaString}
    (hf : Finds (of c) (picks c none none (some seq)) s.tlist) :
    only m (ack c seq s) = only m s := by
  rw [ack]
  split
  · rw [told_other hc, rmv_other hc hf]
  · exact rmv_other hc hf

end

section
variable {h : Mod} {ok : Bool} {x : Sent β} {s : State β}

theorem handle_own (hx : x.1 = h) (hf : ok = false → ∀ sckidx dat, x.2 = .dupInd sckidx dat →
      Finds (of (h, sckidx)) (matching (h, sckidx) dat) s.tlist) :
    handle h ok x (only h s) = only h (handle h ok x s) := by
  obtain ⟨m, a⟩ := x
  obtain rfl : m = h := hx
  cases a with
  | dupInd sckidx dat =>
      have hr : record (.ind (m, sckidx) (m, sckidx) dat) (only m s) =
          only m (record (.ind (m, sckidx) (m, sckidx) dat) s) := @record_own β (m, sckidx) s _ rfl
      simp only [handle, hr]
      cases ok with
      | true => rfl
      | false => exact rsm_own (c := (m, sckidx)) (hf rfl sckidx dat rfl)
  | dupFail sckidx typ seq cb cbtag =>
      have hr : record (.fail (m, sckidx) (m, sckidx) typ) (only m s) =
          only m (record (.fail (m, sckidx) (m, sckidx) typ) s) := @record_own β (m, sckidx) s _ rfl
      simp only [handle, hr]
      exact @told_own β (m, sckidx) _ cb cbtag false

theorem handle_other {m : Mod} (hm : h ≠ m) (hf : ok = false → ∀ sckidx dat,
      x.2 = .dupInd sckidx dat → Finds (of (h, sckidx)) (matching (h, sckidx) dat) s.tlist) :
    only m (handle h ok x s) = only m s := by
  obtain ⟨k, a⟩ := x
  cases a with
  | dupInd sckidx dat =>
      have hr : only m (record (.ind (h, sckidx) (k, sckidx) dat) s) = only m s :=
        @record_other β (h, sckidx) s m hm _ rfl
      cases ok with
      | true => exact hr
      | false =>
          rw [← hr]
          exact rsm_other (c := (h, sckidx)) hm (hf rfl sckidx dat rfl)
  | dupFail sckidx typ seq cb cbtag =>
      have hr : only m (record (.fail (h, sckidx) (k, sckidx) typ) s) = only m s :=
        @record_other β (h, sckidx) s m hm _ rfl
      rw [← hr]
      exact @told_other β (h, sckidx) _ m hm (k, sckidx) cb cbtag false

end

theorem filter_map_mine {γ δ : Type} (m : Mod) {f : Mod × γ → Mod × δ} (hf : ∀ x, (f x).1 = x.1)
    (l : List (Mod × γ)) : (l.map f).filter (mine m) = (l.filter (mine m)).map f := by
  rw [List.filter_map]
  congr 2
  funext x
  simp [mine, hf]

theorem timerfnc_filter (m : Mod) (s : State β) :
    (timerfnc s).tlist.filter (mine m) = (timerfnc (only m s)).tlist ∧
      (timerfnc s).qmsg.filter (mine m) = (timerfnc (only m s)).qmsg := by
  constructor
  · exact filter_map_mine m (by exact fun _ => rfl) s.tlist
  · simp only [timerfnc, only, List.filter_append]
    rw [filter_map_mine m (by exact fun _ => rfl), List.filter_comm]

theorem timerfnc_own (m : Mod) (s : State β) : timerfnc (only m s) = only m (timerfnc s) := by
  apply eq_only
  · rw [Steady]
    simp only [timerfnc, ne_eq, List.map_eq_nil_iff]
    rfl
  · rfl
  · exact (timerfnc_filter m s).1.symm
  · exact (timerfnc_filter m s).2.symm
  · rfl

theorem timerfnc_other {m : Mod} {s : State β} (hm : s.tlist.filter (mine m) = []) :
    only m (timerfnc s) = only m s := by
  apply only_eq
  · exact fun _ _ => rfl
  · rw [(timerfnc_filter m s).1]
    simp [timerfnc, only, hm]
  · rw [(timerfnc_filter m s).2]
    simp [timerfnc, only, hm]
  · rfl

/-- A change of the clients of a module. -/
theorem tclients_own (m : Mod) (l : List ℕ) (s : State β) :
    { only m s with tclients := Function.update (only m s).tclients m l } =
      only m { s with tclients := Function.update s.tclients m l } := by
  apply eq_only
  · exact steady_only m s
  · funext k
    by_cases hk : k = m
    · subst hk
      simp [only]
    · simp [only, hk]
  · rfl
  · rfl
  · rfl

theorem tclients_other {m k : Mod} (hk : k ≠ m) (l : List ℕ) (s : State β) :
    only m { s with tclients := Function.update s.tclients k l } = only m s := by
  apply only_eq
  · rintro j rfl
    exact Function.update_of_ne hk.symm _ _
  · rfl
  · rfl
  · rfl

section
variable {c : Client} {s : State β}

theorem ins_own (typ dat : LuaString) (seq : Option LuaString) (cb : Option β)
    (cbtag : Option LuaString) :
    ins c typ dat seq cb cbtag (only c.1 s) = only c.1 (ins c typ dat seq cb cbtag s) := by
  apply eq_only
  · simp [Steady, ins, timer]
  · simp [ins, only]
  · simp [ins, only, mine]
  · simp [ins, only]
  · simp [ins, only]

theorem ins_other {m : Mod} (hc : c.1 ≠ m) (typ dat : LuaString) (seq : Option LuaString)
    (cb : Option β) (cbtag : Option LuaString) :
    only m (ins c typ dat seq cb cbtag s) = only m s := by
  apply only_eq
  · simp [ins]
  · simp [ins, mine, hc]
  · simp [ins]
  · simp [ins]

/-- A call of `c`, which is its module's own or leaves the module as it is. -/
theorem client_only {m : Mod} {f : State β → State β} (hown : f (only c.1 s) = only c.1 (f s))
    (hother : c.1 ≠ m → only m (f s) = only m s) (hc : c.2 ∈ s.tclients c.1) :
    if decide (c.1 = m) then
      (if c.2 ∈ (only m s).tclients c.1 then some (f (only m s)) else none) = some (only m (f s))
    else only m (f s) = only m s := by
  by_cases hm : c.1 = m
  · subst hm
    have hmem : c.2 ∈ (only c.1 s).tclients c.1 := by simpa [only] using hc
    simp [hmem, hown]
  · simp [hm, hother hm]

end

/-- What a step that keeps the modules apart does to one of them is its own step, or nothing. -/
theorem step_only (last m : Mod) {s t : State β} {a : Act β} (hg : Separate last s a)
    (h : step (loaded last) s a = some t) :
    if concerns m s a then step [m] (only m s) a = some (only m t) else only m t = only m s := by
  cases a with
  | create k =>
      simp only [step] at h
      split_ifs at h with hk
      cases h
      by_cases hm : k = m
      · subst hm
        have hsame : (only k s).tclients k = s.tclients k := if_pos rfl
        simp only [concerns, decide_true, if_true, step, hsame, if_neg hk, tclients_own]
      · simpa [concerns, hm] using tclients_other hm _ s
  | put c typ dat seq cb cbtag =>
      cases h
      by_cases hm : c.1 = m
      · subst hm
        simp [concerns, step, ins_own]
      · simpa [concerns, hm] using ins_other hm typ dat seq cb cbtag
  | conn c =>
      simp only [step] at h
      split_ifs at h with hc
      cases h
      have hf : Finds (of c) (picks c CONN none none) s.tlist := by
        intro x hx
        rw [show s.tlist.find? _ = none from hg] at hx
        cases hx
      exact client_only (rmv_own hf) (fun hm => rmv_other hm hf) hc
  | connack c =>
      simp only [step] at h
      split_ifs at h with hc
      cases h
      exact client_only (rmv_own hg) (fun hm => rmv_other hm hg) hc
  | ack c seq =>
      simp only [step] at h
      split_ifs at h with hc
      cases h
      exact client_only (ack_own hg) (fun hm => ack_other hm hg) hc
  | lost c =>
      simp only [step] at h
      split_ifs at h with hc
      cases h
      exact client_only (rmvall_own hg) (fun hm => rmvall_other hm hg) hc
  | closed c =>
      simp only [step] at h
      split_ifs at h with hc
      cases h
      by_cases hm : c.1 = m
      · subst hm
        have hsame : (only c.1 s).tclients c.1 = s.tclients c.1 := if_pos rfl
        simp only [concerns, decide_true, if_true, step, hsame, if_pos hc, tclients_own]
        rw [rmvall_own (by exact hg)]
      · have hr := rmvall_other (s := { s with
          tclients := Function.update s.tclients c.1 ((s.tclients c.1).erase c.2) }) hm hg
        simpa [concerns, hm, hr] using tclients_other hm _ s
  | resent c dat =>
      cases h
      by_cases hm : c.1 = m
      · subst hm
        simp [concerns, step, rsm_own hg]
      · simpa [concerns, hm] using rsm_other hm hg
  | tick =>
      simp only [step] at h
      split_ifs at h with hc
      cases h
      by_cases hm : s.tlist.filter (mine m) = []
      · rw [if_neg (by simpa [concerns] using hm)]
        exact timerfnc_other hm
      · have hact : (only m s).active = true := decide_eq_true hm
        have hcon : concerns m s (.tick : Act β) = true := decide_eq_true hm
        rw [if_pos hcon, step, if_pos hact, timerfnc_own]
  | msg ok =>
      simp only [step] at h
      split at h
      · cases h
      rename_i x qmsg hq
      rw [handler_loaded] at h
      cases h
      obtain ⟨hx, hf⟩ := hg x (by rw [hq]; rfl)
      have hhead : concerns m s (.msg ok) = mine m x := by
        rw [concerns, hq, List.head?_cons, Option.any_some]
      rw [hhead]
      by_cases hm : x.1 = m
      · subst hm
        have hmine : mine x.1 x = true := decide_eq_true rfl
        have hown : (only x.1 s).qmsg = x :: qmsg.filter (mine x.1) := by
          simp [only, hq, hmine]
        rw [if_pos hmine, step, hown]
        simp only [handler_single, ← hx]
        exact congrArg some (handle_own (s := { s with qmsg := qmsg }) rfl (hx ▸ hf))
      · have hmine : mine m x = false := decide_eq_false hm
        have hr := handle_other (s := { s with qmsg := qmsg }) (hx ▸ hm) hf
        simp only [hmine, Bool.false_eq_true, if_false, hr]
        apply only_eq
        · exact fun _ _ => rfl
        · rfl
        · simp [hq, hmine]
        · rfl

/-- Each of the modules runs as if it were loaded alone. -/
theorem run_alone (last m : Mod) {as : List (Act β)} {s t : State β}
    (hg : Meets (step (loaded last)) (Separate last) s as)
    (h : run (step (loaded last)) s as = some t) :
    run (step [m]) (only m s) (alone m (loaded last) s as) = some (only m t) := by
  induction as generalizing s with
  | nil =>
      cases h
      rfl
  | cons a as ih =>
      obtain ⟨u, hu, h⟩ := run_cons_eq_some.mp h
      have hone := step_only last m (hg u hu).1 hu
      have hrest := ih (hg u hu).2 h
      rw [alone, hu]
      dsimp only
      split_ifs at hone ⊢
      · exact run_cons_eq_some.mpr ⟨only m u, hone, hrest⟩
      · rw [← hone]
        exact hrest

/-- Each module does with its packets what it would do alone. -/
def Independent (last : Mod) (as : List (Act β)) : Prop :=
  ∀ m s, run (step (loaded last)) boot as = some s →
    run (step [m]) boot (alone m (loaded last) boot as) = some (only m s)

/-- The packets of the two modules stay apart exactly in the runs in which what is selected first
is always the client's own. -/
theorem apart (last : Mod) (as : List (Act β)) :
    (Along (step (loaded last)) Own boot as ∧ Independent last as) ↔
      Meets (step (loaded last)) (Separate last) boot as := by
  have hiff : Along (step (loaded last)) Own boot as ↔
      Meets (step (loaded last)) (Separate last) boot as := by
    apply along_iff_meets (I := fun _ : State β => True)
    · exact fun _ _ _ _ _ => trivial
    · exact fun s a t _ hs h => own_step last hs h
    · trivial
    · exact fun v hv => absurd hv List.not_mem_nil
  have hboot (m : Mod) : only m (boot : State β) = boot := by
    simp [only, boot]
  constructor
  · exact fun h => hiff.mp h.1
  · intro hg
    refine ⟨hiff.mpr hg, fun m s h => ?_⟩
    have hr := run_alone last m hg h
    rwa [hboot] at hr

/-- A client of each module, and a packet of the plain one that is not acknowledged in ten seconds. -/
def crossed : List (Act ℕ) :=
  [.create .mqtt, .create .mqttssl,
    .put (.mqtt, 5) (lua "MQTTPUB") (lua "dat") (some [0, 1]) (some 0) none] ++
    List.replicate 10 .tick ++ [.msg true, .lost (.mqttssl, 5)]

/-- The SSL client sends it over its own socket, and takes it out when it loses its connection. -/
theorem packet_crossed :
    ((run (step (loaded .mqttssl)) boot crossed).map fun s => (s.tclients .mqtt, s.tclients .mqttssl)) =
        some ([5], [5]) ∧
      ((run (step (loaded .mqttssl)) boot crossed).map fun s => (s.tlist, s.hist)) =
        some ([], [.ind (.mqttssl, 5) (.mqtt, 5) (lua "dat"), .rmv (.mqttssl, 5) .lost
          (.mqtt, ⟨5, lua "MQTTPUB", lua "dat", some [0, 1], some 0, none, 3, 0⟩)]) ∧
      ¬Along (step (loaded .mqttssl)) Own boot crossed := by
  have hrun : ((run (step (loaded .mqttssl)) boot crossed).map fun s => (s.tlist, s.hist)) =
      some ([], [.ind (.mqttssl, 5) (.mqtt, 5) (lua "dat"), .rmv (.mqttssl, 5) .lost
        (.mqtt, ⟨5, lua "MQTTPUB", lua "dat", some [0, 1], some 0, none, 3, 0⟩)]) := by decide
  refine ⟨by decide, hrun, fun h => ?_⟩
  obtain ⟨s, hs, hv⟩ := Option.map_eq_some_iff.mp hrun
  have hmem : .ind (.mqttssl, 5) (.mqtt, 5) (lua "dat") ∈ s.hist := by
    rw [(Prod.mk.inj hv).2]
    exact List.mem_cons_self
  cases h.last hs _ hmem

end LuatAir200.MqttShared
