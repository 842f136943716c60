import LuatAir200.AgpsModel
import LuatAir200.History

/-!
# The downloaded ephemerides

While packs are fetched, `eph` is made of the packs that have been accepted since the
announcement, which are numbered from one and have the announced sums. Two things can break
this: `eph` is shared with `writecmd`, which still writes the ephemerides of the download
before, and `rcv` does not look at the link that a datagram came over.
-/
namespace LuatAir200.Agps
open Lua Machine

/-- The payloads in order. -/
def image (ds : List LuaString) : LuaString := (ds.map (·.drop 2)).flatten

/-- Numbered from one, with the sums that the table has for them. -/
def Checked (checksum : ℕ → Option ℕ) (ds : List LuaString) : Prop :=
  ∀ (i : ℕ) (h : i < ds.length), index ds[i] = i + 1 ∧
    checksum (i + 1) = some (calsum (ds[i].drop 2))

/-- The sums of an announcement are in the table. -/
def Announced (s : State) (sums : List ℕ) : Prop :=
  sums.length = sumcount s.total ∧
    ∀ i < sums.length, s.checksum (i + 1) = sums[i]?

/-- `ds` have been fetched since the last announcement. -/
def Fetched (s : State) (ds : List LuaString) : Prop :=
  (∃ pre sums, s.hist = pre ++ .upbegin s.announcer s.total s.last sums ::
      ds.map (.accept s.announcer) ∧ Announced s sums) ∧
    s.eph = image ds ∧ Checked s.checksum ds

/-- The packs of a download that is complete, with the sums of its announcement. -/
def Downloaded (pre : List Event) (eph : LuaString) : Prop :=
  ∃ pre' conn total last sums ds,
    pre = pre' ++ .upbegin conn total last sums :: ds.map (.accept conn) ∧
      ds.length = total ∧ sums.length = total + 1 ∧ eph = image ds ∧
      (∀ (i : ℕ) (h : i < ds.length), index ds[i] = i + 1 ∧
        sums[i]? = some (calsum (ds[i].drop 2))) ∧
      sums[total]? = some (calsum eph)

/-- Only complete downloads need a reason. -/
def Complete (pre : List Event) (v : Event) : Prop := ∀ eph, v = .complete eph → Downloaded pre eph

structure Inv (s : State) : Prop where
  fetching : s.state = .UPDATE → ∃ ds, Fetched s ds ∧ s.packid = ds.length + 1
  complete : Justified Complete s.hist

/-- What the invariant reads besides the state of the download. -/
def view (s : State) : ℕ × ℕ × (ℕ → Option ℕ) × ℕ × Option ℕ × LuaString × List Event :=
  (s.total, s.last, s.checksum, s.packid, s.announcer, s.eph, s.hist)

theorem Inv.keep {s t : State} (hi : Inv s) (hv : view t = view s)
    (hs : t.state = .UPDATE → s.state = .UPDATE) : Inv t := by
  simp only [view, Prod.mk.injEq] at hv
  obtain ⟨ht, hl, hc, hp, ha, he, hh⟩ := hv
  constructor
  · intro h
    obtain ⟨ds, ⟨⟨pre, sums, hhist, hsums⟩, heph, hds⟩, hpack⟩ := hi.fetching (hs h)
    refine ⟨ds, ⟨⟨pre, sums, ?_, ?_⟩, ?_, ?_⟩, ?_⟩
    · rw [hh, ha, ht, hl, hhist]
    · simpa only [Announced, ht, hc] using hsums
    · rw [he, heph]
    · rw [hc]
      exact hds
    · rw [hp, hpack]
  · rw [hh]
    exact hi.complete

/-- A state in which no packs are fetched. -/
theorem Inv.quiet {s : State} (hc : Justified Complete s.hist) (hs : s.state ≠ .UPDATE) :
    Inv s := ⟨fun h => absurd h hs, hc⟩

theorem Justified.other {hist : List Event} {v : Event} (h : Justified Complete hist)
    (hv : ∀ eph, v ≠ .complete eph) : Justified Complete (hist ++ [v]) :=
  h.snoc fun eph he => absurd he (hv eph)

/-! ## The functions -/

@[simp] theorem reqget_view (i : ℕ) (s : State) : view (reqget i s) = view s := rfl

@[simp] theorem reqget_state (i : ℕ) (s : State) : (reqget i s).state = s.state := rfl

@[simp] theorem startupdatetimer_hist (s : State) : (startupdatetimer s).hist = s.hist := by
  unfold startupdatetimer
  split <;> rfl

@[simp] theorem startupdatetimer_state (s : State) : (startupdatetimer s).state = s.state := by
  unfold startupdatetimer
  split <;> rfl

@[simp] theorem startupdatetimer_view (s : State) : view (startupdatetimer s) = view s := by
  unfold startupdatetimer
  split <;> rfl

@[simp] theorem startwrite_hist (s : State) : (startwrite s).hist = s.hist := by
  unfold startwrite
  split_ifs <;> rfl

@[simp] theorem startwrite_state (s : State) : (startwrite s).state = s.state := by
  unfold startwrite
  split_ifs <;> rfl

@[simp] theorem endind_hist (succ : Bool) (s : State) : (endind succ s).hist = s.hist := by
  unfold endind
  split <;> rfl

@[simp] theorem endind_state (succ : Bool) (s : State) : (endind succ s).state = s.state := by
  unfold endind
  split <;> rfl

theorem upend_hist (succ : Bool) (s : State) : (upend succ s).hist = s.hist ++ [.upend succ] := by
  unfold upend
  simp only
  split_ifs <;> simp [affect, record, call]

theorem upend_state (succ : Bool) (s : State) : (upend succ s).state = .IDLE := by
  unfold upend
  simp only
  split_ifs <;> simp [affect, record, call]

theorem Inv.upend {s : State} (hi : Inv s) (succ : Bool) : Inv (upend succ s) := by
  apply Inv.quiet
  · rw [upend_hist]
    exact Justified.other hi.complete (by simp)
  · simp [upend_state]

theorem Inv.reqcheck {s : State} (hi : Inv s) : Inv (reqcheck s) :=
  hi.keep rfl fun h => by cases h

theorem Inv.retry {s : State} (hi : Inv s) (para : Option Param) : Inv (retry para s) := by
  unfold Agps.retry
  split
  · exact hi
  rcases para with _ | _ | _
  · have hi' : Inv { s with getretries := s.getretries + 1 } := hi.keep rfl id
    simp only
    split_ifs
    · exact hi'.keep rfl id
    · exact hi'.reqcheck
    · exact hi'.upend false
  · exact hi.keep rfl id
  · exact hi.keep rfl id

/-! ## The announcement -/

theorem sums_length {n : ℕ} {rest : LuaString} (h : (sums n rest).1 = true) :
    (sums n rest).2.length = n := by
  induction n generalizing rest with
  | zero => rfl
  | succ n ih =>
      unfold sums at h ⊢
      split
      · simp_all
      · rename_i hl
        rw [if_neg hl] at h
        cases hn : number rest.tail with
        | none => simp [hn] at h
        | some r =>
            rw [hn] at h
            simp [ih h]

theorem store_getElem {xs : List ℕ} {f : ℕ → Option ℕ} {i : ℕ} (h : i < xs.length) :
    store xs f (i + 1) = xs[i]? := by
  rw [store, if_pos (by omega), Nat.add_sub_cancel]

theorem Inv.upbegin {s : State} (hi : Inv s) (hs : s.state ≠ .UPDATE) (data : LuaString) :
    Inv (upbegin data s) := by
  unfold Agps.upbegin
  split
  · exact hi.upend false
  rename_i p1 p2 rest _
  simp only
  split
  · rename_i hsums
    constructor
    · intro _
      refine ⟨[], ⟨⟨s.hist, _, rfl, ?_, ?_⟩, rfl, ?_⟩, rfl⟩
      · exact sums_length hsums
      · intro i h
        exact store_getElem h
      · intro i h
        simp at h
    · exact Justified.other hi.complete (by simp)
  · apply Inv.upend
    exact Inv.quiet hi.complete hs

/-! ## The packs -/

/-- What `getpack` asks of a datagram. -/
def Passes (data : LuaString) (s : State) : Prop :=
  ¬lenMismatch data s ∧ index data = s.packid ∧
    s.checksum (index data) = some (calsum (data.drop 2))

instance (data : LuaString) (s : State) : Decidable (Passes data s) :=
  inferInstanceAs (Decidable (_ ∧ _ ∧ _))

theorem Checked.snoc {checksum : ℕ → Option ℕ} {ds : List LuaString} {data : LuaString}
    (h : Checked checksum ds) (hid : index data = ds.length + 1)
    (hsum : checksum (index data) = some (calsum (data.drop 2))) :
    Checked checksum (ds ++ [data]) := by
  intro i hi
  rw [List.length_append, List.length_singleton] at hi
  rcases Nat.lt_or_ge i ds.length with hlt | hge
  · rw [List.getElem_append_left hlt]
    exact h i hlt
  · have hieq : i = ds.length := by omega
    subst hieq
    rw [List.getElem_concat_length rfl]
    exact ⟨hid, hid ▸ hsum⟩

theorem image_snoc (ds : List LuaString) (data : LuaString) :
    image (ds ++ [data]) = image ds ++ data.drop 2 := by
  simp [image]

/-- The packs since the last announcement are determined by the history. -/
theorem packs_unique {pre pre' : List Event} {conn conn' : Option ℕ} {n n' last last' : ℕ}
    {xs xs' : List ℕ} {ds ds' : List LuaString}
    (h : pre ++ .upbegin conn n last xs :: ds.map (.accept conn) =
      pre' ++ .upbegin conn' n' last' xs' :: ds'.map (.accept conn')) : ds = ds' := by
  have inside {c d : Option ℕ} {m l : ℕ} {ys : List ℕ} {es fs : List LuaString} {w : Event}
      {ws : List Event} (hw : w :: es.map (.accept c) = ws ++ .upbegin d m l ys :: fs.map (.accept d)) :
      ws = [] := by
    rcases ws with _ | ⟨v, ws⟩
    · rfl
    · have htail : es.map (.accept c) = ws ++ .upbegin d m l ys :: fs.map (.accept d) :=
        (List.cons.inj hw).2
      have hmem : Event.upbegin d m l ys ∈ es.map (.accept c) := by
        rw [htail]
        simp
      simp at hmem
  have hinj (c : Option ℕ) : Function.Injective (Event.accept c) := by
    intro d e hde
    cases hde
    rfl
  rcases List.append_eq_append_iff.mp h with ⟨ws, -, hw⟩ | ⟨ws, -, hw⟩
  · rw [inside hw, List.nil_append] at hw
    obtain ⟨hu, hmap⟩ := List.cons.inj hw
    cases hu
    exact List.map_injective_iff.mpr (hinj conn) hmap
  · rw [inside hw, List.nil_append] at hw
    obtain ⟨hu, hmap⟩ := List.cons.inj hw
    cases hu
    exact (List.map_injective_iff.mpr (hinj _) hmap).symm

/-- When the last pack is there and the sum of all is right, the download is complete. -/
theorem Fetched.downloaded {s : State} {ds : List LuaString} (h : Fetched s ds)
    (htotal : ds.length = s.total) (hlast : lastsum s = some (calsum s.eph)) :
    Downloaded s.hist s.eph := by
  obtain ⟨⟨pre, sums, hhist, hlen, hsums⟩, heph, hds⟩ := h
  obtain ⟨hlt, hlast⟩ := Option.ite_none_right_eq_some.mp hlast
  rw [sumcount, if_pos hlt] at hlen
  refine ⟨pre, s.announcer, s.total, s.last, sums, ds, hhist, htotal, hlen, heph, ?_, ?_⟩
  · intro i hi
    refine ⟨(hds i hi).1, ?_⟩
    rw [← hsums i (by omega)]
    exact (hds i hi).2
  · rw [← hsums s.total (by omega)]
    exact hlast

theorem nextpack_inv {s : State} {ds : List LuaString} (hc : Justified Complete s.hist)
    (hf : Fetched s ds) (hpack : s.packid = ds.length) : Inv (nextpack s) := by
  unfold nextpack
  split
  · rename_i htotal
    split
    · apply Inv.quiet
      · rw [upend_hist]
        exact Justified.other hc (by simp)
      · simp [upend_state]
    · rename_i hlast
      rw [not_not] at hlast
      have hdone : Justified Complete (s.hist ++ [.complete s.eph]) := by
        apply hc.snoc
        intro eph he
        cases he
        exact hf.downloaded (hpack ▸ htotal) hlast
      apply Inv.quiet
      · rw [upend_hist]
        exact Justified.other hdone (by simp)
      · simp [upend_state]
  · refine ⟨fun _ => ⟨ds, hf, ?_⟩, hc⟩
    show s.packid + 1 = _
    rw [hpack]

/-- A datagram that passes comes over the connection of the announcement. -/
theorem Inv.getpack {s : State} {data : LuaString} (hi : Inv s) (hu : s.state = .UPDATE)
    (hfrom : Passes data s → s.sender = s.announcer) : Inv (getpack data s) := by
  unfold Agps.getpack
  split
  · exact hi.retry _
  split
  · exact hi.retry _
  split
  · exact hi.retry _
  rename_i hlen hid hsum
  rw [not_not] at hid hsum
  have hstop : Agps.retry (some .STOP) s =
      { s with getretries := 0, errpacktm := none, retrytm := none } := by
    simp [Agps.retry, hu]
  rw [hstop]
  obtain ⟨ds, ⟨⟨pre, sums, hhist, hsums⟩, heph, hds⟩, hpack⟩ := hi.fetching hu
  refine @nextpack_inv _ (ds ++ [data]) ?_ ?_ ?_
  · exact Justified.other hi.complete (by simp)
  · refine ⟨⟨pre, sums, ?_, hsums⟩, ?_, hds.snoc (by rw [hid, hpack]) hsum⟩
    · show s.hist ++ [.accept s.sender data] = _
      rw [hfrom ⟨hlen, hid, hsum⟩, hhist, List.append_assoc, List.cons_append, List.map_append,
        List.map_singleton]
      rfl
    · show s.eph ++ data.drop 2 = _
      rw [image_snoc, heph]
  · show s.packid = _
    rw [hpack, List.length_append, List.length_singleton]

/-! ## Runs -/

/-- While packs are fetched, `writecmd` has nothing left to write, and packs are accepted only
from the connection of the announcement. -/
def Undisturbed (s : State) : Act → Prop
  | .writetm => s.state = .UPDATE → s.eph = []
  | .rcv id data => s.state = .UPDATE → s.isfix = false → s.gpssupport = true →
      data ≠ lua "ERR" → Passes data s → s.links id = s.announcer
  | _ => True

instance (s : State) : (a : Act) → Decidable (Undisturbed s a)
  | .writetm => inferInstanceAs (Decidable (s.state = .UPDATE → s.eph = []))
  | .rcv id data => inferInstanceAs (Decidable (s.state = .UPDATE → s.isfix = false →
      s.gpssupport = true → data ≠ lua "ERR" → Passes data s → s.links id = s.announcer))
  | .nofity _ _ _ _ => .isTrue trivial
  | .connecttm _ => .isTrue trivial
  | .retrytm => .isTrue trivial
  | .errpacktm => .isTrue trivial
  | .gps _ => .isTrue trivial
  | .connectcb _ => .isTrue trivial
  | .init _ _ => .isTrue trivial
  | .setspt _ => .isTrue trivial

theorem Inv.rcv {s : State} {id : ℕ} {data : LuaString} (hi : Inv s)
    (hd : Undisturbed s (.rcv id data)) : Inv (rcv id data s) := by
  have hi' : Inv { s with retrytm := none, sender := s.links id } := hi.keep rfl fun h => h
  unfold Agps.rcv
  simp only
  split
  · exact hi'.upend true
  rename_i hfix
  rw [not_or, Bool.not_eq_true, Bool.not_eq_false] at hfix
  split
  · rename_i hstate
    split
    · exact hi'.upbegin (by simp [hstate]) data
    · exact hi'.upend false
  · rename_i hstate
    split
    · rename_i herr
      apply hi'.getpack hstate
      exact hd hstate hfix.1 hfix.2 herr
    · exact hi'.upend false
  · exact hi'.upend false

theorem Inv.connect {s : State} (hi : Inv s) (id : Option ℕ) : Inv (connect id s) := by
  unfold Agps.connect
  split
  · split <;> exact hi.keep rfl fun h => h
  · exact hi

theorem Inv.leave {s : State} (hi : Inv s) (id : ℕ) (evt : LuaString) : Inv (leave id evt s) := by
  unfold Agps.leave
  split
  · exact hi.keep rfl fun h => h
  · exact hi

theorem Inv.nofity {s : State} (hi : Inv s) (id : ℕ) (evt val : LuaString) (next : Option ℕ) :
    Inv (nofity id evt val next s) := by
  unfold Agps.nofity
  split_ifs
  · exact hi
  · exact hi.upend true
  · exact hi.reqcheck
  · exact hi.upend false
  · exact hi.connect next
  · exact hi.upend false
  · exact hi

/-- Without ephemerides to write, `writecmd` leaves the download as it is. -/
theorem Inv.writecmd {s : State} (hi : Inv s) (hd : s.state = .UPDATE → s.eph = []) :
    Inv (writecmd s) := by
  by_cases hu : s.state = .UPDATE
  · have heph : s.eph = [] := hd hu
    unfold Agps.writecmd
    simp only [heph, ne_eq, not_true_eq_false, false_and, if_false]
    exact hi.keep (by simp [view, heph, call]) fun h => h
  · unfold Agps.writecmd
    split <;> exact Inv.quiet hi.complete hu

theorem Inv.startupdatetimer {s : State} (hi : Inv s) : Inv (startupdatetimer s) :=
  hi.keep (startupdatetimer_view s) (by simp)

theorem Inv.gpsstateind {s : State} (hi : Inv s) (data : GpsEvt) : Inv (gpsstateind data s) := by
  have hfix : Inv { Agps.startupdatetimer (call (.dispatch .AGPS_UPDATE_SUC) s) with
      isfix := true } := by
    have hi' : Inv (call (.dispatch .AGPS_UPDATE_SUC) s) := hi.keep rfl id
    exact hi'.startupdatetimer.keep rfl id
  cases data with
  | LOCATION_SUC => exact hfix
  | LOCATION_UNFILTER_SUC => exact hfix
  | LOCATION_FAIL => exact hi.keep rfl id
  | CLOSE => exact hi.keep rfl id
  | NO_CHIP => exact hi.keep rfl id
  | HAS_CHIP => exact hi

theorem Inv.setspt {s : State} (hi : Inv s) (spt : Bool) : Inv (setspt spt s) := by
  have hi' : Inv { s with ispt := spt } := hi.keep rfl id
  unfold Agps.setspt
  split
  · simp only
    split
    · exact hi'.startupdatetimer
    · exact hi'
  · exact hi

theorem Inv.step {s t : State} {a : Act} (hi : Inv s) (hd : Undisturbed s a)
    (h : step s a = some t) : Inv t := by
  cases a with
  | nofity id evt val next =>
      obtain ⟨-, ⟨⟩⟩ := Option.ite_none_right_eq_some.mp h
      exact (hi.leave id evt).nofity id evt val next
  | rcv id data =>
      obtain ⟨-, ⟨⟩⟩ := Option.ite_none_right_eq_some.mp h
      exact hi.rcv hd
  | connecttm id =>
      obtain ⟨-, ⟨⟩⟩ := Option.ite_none_right_eq_some.mp h
      exact (hi.keep (t := { s with connecttm := none }) rfl fun h => h).connect id
  | retrytm =>
      obtain ⟨-, ⟨⟩⟩ := Option.ite_none_right_eq_some.mp h
      exact (hi.keep (t := { s with retrytm := none }) rfl fun h => h).retry none
  | errpacktm =>
      obtain ⟨-, ⟨⟩⟩ := Option.ite_none_right_eq_some.mp h
      exact (hi.keep (t := { s with errpacktm := none }) rfl fun h => h).upend false
  | writetm =>
      obtain ⟨-, ⟨⟩⟩ := Option.ite_none_right_eq_some.mp h
      exact (hi.keep (t := { s with writetm := none }) rfl fun h => h).writecmd hd
  | gps data =>
      cases h
      exact hi.gpsstateind data
  | connectcb id =>
      obtain ⟨-, ⟨⟩⟩ := Option.ite_none_right_eq_some.mp h
      exact hi.keep rfl fun h => h
  | init inv md =>
      cases h
      apply Inv.startupdatetimer
      exact hi.keep rfl fun h => h
  | setspt spt =>
      cases h
      exact hi.setspt spt

theorem Inv.initial : Inv initial := Inv.quiet justified_nil (by simp [Agps.initial])

theorem Inv.load (poweron : Bool) (id : Option ℕ) : Inv (load poweron id Agps.initial) := by
  unfold Agps.load
  split
  · exact Inv.initial.connect id
  · exact Inv.initial.startupdatetimer

/-- In an undisturbed run, when `getpack` calls `upend(true)`, `eph` is the concatenation of one
accepted datagram for each number from 1 to `total`, in order, all of them from the connection
of the announcement and after it, each with its announced sum and the whole with the last
announced sum. -/
theorem ephemerides_complete {poweron : Bool} {id : Option ℕ} {acts : List Act} {s : State}
    (hr : run step (load poweron id initial) acts = some s)
    (hm : Meets step Undisturbed (load poweron id initial) acts)
    {pre post : List Event} {eph : LuaString} (h : s.hist = pre ++ .complete eph :: post) :
    ∃ (pre' : List Event) (conn : Option ℕ) (total last : ℕ) (sums : List ℕ)
        (ds : List LuaString),
      pre = pre' ++ .upbegin conn total last sums :: ds.map (.accept conn) ∧
      ds.length = total ∧ sums.length = total + 1 ∧ eph = (ds.map (·.drop 2)).flatten ∧
      (∀ (i : ℕ) (h : i < ds.length), index ds[i] = i + 1 ∧
        sums[i]? = some (calsum (ds[i].drop 2))) ∧
      sums[total]? = some (calsum eph) := by
  have hi : Inv s := guarded_run (fun _ _ _ hi hd ht => hi.step hd ht) (Inv.load poweron id) hm hr
  exact hi.complete pre (.complete eph) post h eph rfl

/-- An empty message of the GPS module. -/
def empty : LuaString := [181, 98, 0, 0, 0, 0, 0, 0]

/-- With an interval of a second, a download of thirty messages, and twenty of them have been
written when the next download has its first pack. -/
def overlap : List Act :=
  [.init (some 1) none, .connecttm (some 0), .nofity 0 (lua "CONNECT") (lua "CONNECT OK") none,
    .rcv 0 (lua "AGPSUPDATE,1,240,8370,8370"),
    .rcv 0 ([0, 1] ++ (List.replicate 30 empty).flatten), .nofity 0 (lua "CLOSE") [] none] ++
  List.replicate 19 .writetm ++
  [.connecttm (some 0), .nofity 0 (lua "CONNECT") (lua "CONNECT OK") none,
    .rcv 0 (lua "AGPSUPDATE,2,1,0,7,7"), .rcv 0 ([0, 1] ++ List.replicate 1022 0), .writetm,
    .rcv 0 [0, 2, 7]]

theorem ephemerides_complete_one : ∃ (s : State) (pre post : List Event) (eph : LuaString),
    run step (load false none initial) (overlap.take 6) = some s ∧
    s.hist = pre ++ .complete eph :: post ∧ eph.length = 240 ∧
    ∃ (pre' : List Event) (conn : Option ℕ) (total last : ℕ) (sums : List ℕ)
        (ds : List LuaString),
      pre = pre' ++ .upbegin conn total last sums :: ds.map (.accept conn) ∧
      ds.length = total ∧ sums.length = total + 1 ∧ eph = (ds.map (·.drop 2)).flatten ∧
      (∀ (i : ℕ) (h : i < ds.length), index ds[i] = i + 1 ∧
        sums[i]? = some (calsum (ds[i].drop 2))) ∧
      sums[total]? = some (calsum eph) := by
  have hh : (run step (load false none initial) (overlap.take 6)).map (·.hist) =
      some ([.upbegin (some 1) 1 240 [8370, 8370],
        .accept (some 1) ([0, 1] ++ (List.replicate 30 empty).flatten)] ++
        .complete (List.replicate 30 empty).flatten :: [.upend true]) := by decide +kernel
  obtain ⟨s, hs, hhist⟩ := Option.map_eq_some_iff.mp hh
  have hm : Meets step Undisturbed (load false none initial) (overlap.take 6) := by
    decide +kernel
  exact ⟨s, _, _, _, hs, hhist, rfl, ephemerides_complete hs hm hhist⟩

/-- The rest of the first download is still being written when the second one has its first
pack: `writecmd` finds no message in it and drops it. The second pack completes the download,
which then lacks the first one. -/
theorem first_pack_dropped : ∃ (s : State) (pre post : List Event) (eph : LuaString),
    run step (load false none initial) overlap = some s ∧
    s.hist = pre ++ .complete eph :: post ∧ eph = [7] ∧
    ¬∃ (pre' : List Event) (conn : Option ℕ) (total last : ℕ) (sums : List ℕ)
        (ds : List LuaString),
      pre = pre' ++ .upbegin conn total last sums :: ds.map (.accept conn) ∧
      ds.length = total ∧ eph = (ds.map (·.drop 2)).flatten := by
  have hh : (run step (load false none initial) overlap).map (·.hist) =
      some ([.upbegin (some 1) 1 240 [8370, 8370],
        .accept (some 1) ([0, 1] ++ (List.replicate 30 empty).flatten),
        .complete (List.replicate 30 empty).flatten, .upend true,
        .upbegin (some 2) 2 1 [0, 7, 7], .accept (some 2) ([0, 1] ++ List.replicate 1022 0),
        .accept (some 2) [0, 2, 7]] ++ .complete [7] :: [.upend true]) := by decide +kernel
  obtain ⟨s, hs, hhist⟩ := Option.map_eq_some_iff.mp hh
  refine ⟨s, _, _, _, hs, hhist, rfl, ?_⟩
  rintro ⟨pre', conn, total, last, sums, ds, hpre, -, heph⟩
  have hsplit : [.upbegin (some 1) 1 240 [8370, 8370],
      .accept (some 1) ([0, 1] ++ (List.replicate 30 empty).flatten),
      .complete (List.replicate 30 empty).flatten, .upend true] ++
      .upbegin (some 2) 2 1 [0, 7, 7] ::
        [[0, 1] ++ List.replicate 1022 0, [0, 2, 7]].map (.accept (some 2)) =
      pre' ++ .upbegin conn total last sums :: ds.map (.accept conn) := hpre
  have hds := packs_unique hsplit
  have hlen : ((ds.map (·.drop 2)).flatten).length = 1023 := by
    rw [← hds]
    decide +kernel
  rw [← heph] at hlen
  cases hlen

end LuatAir200.Agps
