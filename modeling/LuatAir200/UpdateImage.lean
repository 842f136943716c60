import LuatAir200.UpdateModel

/-!
# The downloaded image

While packs are fetched, the file is made of the accepted datagrams of the session, which
are numbered from one and of which the next one is `packid`. So a download that ends
with success leaves the whole image and nothing else.
-/
namespace LuatAir200.Update
open Lua Machine

variable {c : Config}

/-- The payloads in order. -/
def image (ds : List LuaString) : LuaString := (ds.map (·.drop 2)).flatten

/-- Numbered from one, and all but the last pack of full size. -/
def Numbered (total last : ℕ) (ds : List LuaString) : Prop :=
  ∀ (i : ℕ) (h : i < ds.length), index ds[i] = i + 1 ∧
    (ds[i].drop 2).length = if i + 1 < total then 1022 else last

/-- The packs up to `packid` have been fetched since the session began. -/
def Fetching (s : State) : Prop :=
  ∃ pre ds, s.hist = pre ++ .upbegin s.projectid s.total s.last :: ds.map .accept ∧
    s.packid = ds.length + 1 ∧ Numbered s.total s.last ds ∧ (ds ≠ [] → s.file = image ds)

/-- A session that ended with success has fetched the image. -/
def Complete (hist : List Event) : Prop :=
  ∀ pre file post, hist = pre ++ .upend true file :: post →
    ∃ pre' projectid total last ds,
      pre = pre' ++ .upbegin projectid total last :: ds.map .accept ∧ ds.length = total ∧
        file = image ds ∧ Numbered total last ds

structure Inv (s : State) : Prop where
  fetching : s.state = .UPDATE → Fetching s
  complete : Complete s.hist

/-- What the invariant reads besides the state of the download. -/
def view (s : State) : ℕ × ℕ × ℕ × ℕ × LuaString × List Event :=
  (s.projectid, s.total, s.last, s.packid, s.file, s.hist)

theorem Inv.keep {s t : State} (hi : Inv s) (hv : view t = view s)
    (hs : t.state = .UPDATE → s.state = .UPDATE) : Inv t := by
  simp only [view, Prod.mk.injEq] at hv
  obtain ⟨hp, ht, hl, hid, hf, hh⟩ := hv
  refine ⟨fun h => ?_, hh ▸ hi.complete⟩
  obtain ⟨pre, ds, h₁, h₂, h₃, h₄⟩ := hi.fetching (hs h)
  exact ⟨pre, ds, by rw [hh, hp, ht, hl, h₁], by rw [hid, h₂], by rw [ht, hl]; exact h₃,
    by rw [hf]; exact h₄⟩

/-- The last event of a history is new, the others were there before. -/
theorem Complete.snoc {hist : List Event} {v : Event} (h : Complete hist)
    (hv : ∀ file, v = .upend true file → ∃ pre projectid total last ds,
      hist = pre ++ .upbegin projectid total last :: ds.map .accept ∧ ds.length = total ∧
        file = image ds ∧ Numbered total last ds) : Complete (hist ++ [v]) := by
  intro pre file post heq
  rcases List.eq_nil_or_concat post with rfl | ⟨post', w, rfl⟩
  · obtain ⟨rfl, hvw⟩ := List.append_inj' heq rfl
    exact hv file (List.singleton_inj.mp hvw)
  · rw [List.concat_eq_append, ← List.cons_append, ← List.append_assoc] at heq
    obtain ⟨hh, -⟩ := List.append_inj' heq rfl
    exact h pre file post' hh

theorem Complete.other {hist : List Event} {v : Event} (h : Complete hist)
    (hv : ∀ file, v ≠ .upend true file) : Complete (hist ++ [v]) :=
  h.snoc fun file hf => absurd hf (hv file)

/-! ## The functions -/

@[simp] theorem reqget_state (i : ℕ) (s : State) : (reqget c i s).state = s.state := rfl

@[simp] theorem reqget_view (i : ℕ) (s : State) : view (reqget c i s) = view s := rfl

theorem Inv.reqcheck {s : State} (hi : Inv s) : Inv (reqcheck c s) :=
  hi.keep rfl fun h => by cases h

theorem upend_hist (succ : Bool) (s : State) :
    (upend c succ s).hist = s.hist ++ [.upend succ s.file] := by
  unfold upend
  simp only [call, record]
  split_ifs <;> rfl

theorem upend_state (succ : Bool) (s : State) : (upend c succ s).state = .IDLE := by
  unfold upend
  simp only [call, record]
  split_ifs <;> rfl

/-- A session that fails. -/
theorem Inv.upend {s : State} (hi : Inv s) : Inv (upend c false s) := by
  refine ⟨fun h => ?_, ?_⟩
  · rw [upend_state] at h
    cases h
  · rw [upend_hist]
    exact hi.complete.other (by simp)

theorem Inv.retry {s : State} (hi : Inv s) (param : Option Param) : Inv (retry c param s) := by
  unfold Update.retry
  split
  · exact hi
  · rcases param with _ | _ | _
    · simp only
      split
      · split
        · exact hi.keep rfl id
        · exact (hi.keep (t := { s with getretries := s.getretries + 1 }) rfl id).reqcheck
      · exact (hi.keep (t := { s with getretries := s.getretries + 1 }) rfl id).upend
    · exact hi.keep rfl id
    · exact hi.keep rfl id

theorem Inv.upbegin {s : State} (hi : Inv s) (data : LuaString) : Inv (upbegin c data s) := by
  unfold Update.upbegin
  split
  · refine ⟨fun _ => ⟨s.hist, [], rfl, rfl, ?_, fun h => absurd rfl h⟩, ?_⟩
    · intro i h
      cases h
    · exact hi.complete.other (by simp)
  · exact hi.upend

/-- A datagram that passes the checks of `getpack` is the next one. -/
theorem Numbered.snoc {total last : ℕ} {ds : List LuaString} {data : LuaString}
    (h : Numbered total last ds) (hlen : (data.drop 2).length =
      if ds.length + 1 < total then 1022 else last) (hid : index data = ds.length + 1) :
    Numbered total last (ds ++ [data]) := by
  intro i hi
  rw [List.length_append, List.length_singleton] at hi
  rcases Nat.lt_or_ge i ds.length with hlt | hge
  · rw [List.getElem_append_left hlt]
    exact h i hlt
  · have hieq : i = ds.length := by omega
    subst hieq
    rw [List.getElem_concat_length rfl]
    exact ⟨hid, hlen⟩

theorem image_snoc (ds : List LuaString) (data : LuaString) :
    image (ds ++ [data]) = image ds ++ data.drop 2 := by
  simp [image]

theorem nextpack_inv {s : State} (hc : Complete s.hist)
    (hf : ∃ pre ds, s.hist = pre ++ .upbegin s.projectid s.total s.last :: ds.map .accept ∧
      s.packid = ds.length ∧ Numbered s.total s.last ds ∧ s.file = image ds) :
    Inv (nextpack c s) := by
  obtain ⟨pre, ds, hh, hid, hn, hfile⟩ := hf
  unfold nextpack
  split
  · rename_i htotal
    refine ⟨fun h => ?_, ?_⟩
    · rw [upend_state] at h
      cases h
    · rw [upend_hist]
      refine hc.snoc fun file hv => ?_
      cases hv
      exact ⟨pre, s.projectid, s.total, s.last, ds, hh, by rw [← hid, htotal], hfile, hn⟩
  · exact ⟨fun _ => ⟨pre, ds, hh, by show s.packid + 1 = _; rw [hid], hn, fun _ => hfile⟩, hc⟩

theorem Inv.getpack {s t : State} {data : LuaString} (hi : Inv s) (hu : s.state = .UPDATE)
    (h : getpack c data s = some t) : Inv t := by
  unfold Update.getpack at h
  split at h
  · cases h
    exact hi.retry _
  rename_i hlen
  split at h
  · cases h
    exact hi.retry _
  rename_i hid
  rw [not_not] at hid
  have hstop : Update.retry c (some .STOP) s = { s with getretries := 0, retrytm := none } := by
    simp [Update.retry, hu]
  rw [hstop] at h
  obtain ⟨pre, ds, hh, hpack, hn, hfile⟩ := hi.fetching hu
  -- the datagram has the length and the number that the checks ask for
  have hsize : (data.drop 2).length = if ds.length + 1 < s.total then 1022 else s.last := by
    rw [lenMismatch, not_or, not_and_not_right, not_and_not_right] at hlen
    rw [List.length_drop]
    split
    · have := hlen.1 (by omega)
      omega
    · have := hlen.2 (by omega)
      omega
  have hds := hn.snoc hsize (by rw [hid, hpack])
  have hnext (calls : List Call) : Inv (nextpack c { save (data.drop 2) (record (.accept data)
      { s with getretries := 0, retrytm := none }) with calls := calls }) := by
    refine nextpack_inv ?_ ⟨pre, ds ++ [data], ?_, ?_, hds, ?_⟩
    · exact hi.complete.other (by simp)
    · show s.hist ++ [.accept data] = _
      rw [hh]
      simp [save, record]
    · show s.packid = _
      rw [hpack, List.length_append, List.length_singleton]
    · show (if s.packid = 1 then data.drop 2 else s.file ++ data.drop 2) = _
      rw [image_snoc]
      split
      · have hnil : ds = [] := List.length_eq_zero_iff.mp (by omega)
        rw [hnil]
        rfl
      · have hne : ds ≠ [] := by
          rintro rfl
          contradiction
        rw [hfile hne]
  split at h
  · simp only at h
    split at h
    · cases h
    · cases h
      exact hnext _
  · cases h
    exact hnext _

theorem setclock_view (data : LuaString) (s : State) :
    view (setclock data s) = view s ∧ (setclock data s).state = s.state := by
  unfold setclock
  split <;> exact ⟨rfl, rfl⟩

theorem Inv.recv {s t : State} {data : LuaString} (hi : Inv s) (h : recv c data s = some t) :
    Inv t := by
  have hi' : Inv { s with retrytm := none } := hi.keep rfl id
  unfold Update.recv at h
  simp only at h
  split at h
  · cases h
    obtain ⟨hv, hs⟩ := setclock_view data (if foundAtFront data (lua "LUAUPDATE") then
      if c.updmode = 0 then Update.upbegin c data { s with retrytm := none }
      else if c.updmode = 1 then
        call (.dispatch .NEW_VER_IND) { s with retrytm := none, chkrspdat := some data }
      else Update.upend c false { s with retrytm := none }
    else Update.upend c false { s with retrytm := none })
    refine Inv.keep ?_ hv fun h => hs ▸ h
    split_ifs
    · exact hi'.upbegin data
    · exact hi'.keep rfl id
    · exact hi'.upend
    · exact hi'.upend
  · rename_i hu
    split at h
    · cases h
      exact hi'.upend
    · exact hi'.getpack hu h
  · cases h
    exact hi'.upend

theorem Inv.nofity {s : State} (hi : Inv s) (evt val : LuaString) :
    Inv (nofity c evt val s) := by
  have hi' : Inv (call (.dispatch .UPDATE_BEGIN_IND) s) := hi.keep rfl id
  unfold Update.nofity
  split_ifs
  · exact hi'.reqcheck
  · exact hi'.upend
  · exact hi.upend
  · exact hi

theorem Inv.connect {s : State} (hi : Inv s) (id : Option ℕ) : Inv (connect id s) := by
  unfold Update.connect
  split
  · exact hi.keep rfl fun h => h
  · exact hi

theorem Inv.step {s t : State} {a : Act} (hi : Inv s) (h : step c s a = some t) : Inv t := by
  cases a with
  | nofity evt val =>
      cases h
      exact hi.nofity evt val
  | recv data => exact hi.recv h
  | retry =>
      obtain ⟨_, _, rfl⟩ := Option.map_eq_some_iff.mp h
      exact (hi.keep (t := { s with retrytm := none }) rfl id).retry none
  | period id =>
      obtain ⟨_, _, rfl⟩ := Option.map_eq_some_iff.mp h
      exact (hi.keep (t := { s with periodtm := none }) rfl fun h => h).connect id
  | defaultbgn id =>
      obtain ⟨_, _, h⟩ := Option.bind_eq_some_iff.mp h
      have hi' : Inv { s with defaultbgntm := none } := hi.keep rfl fun h => h
      unfold defaultbgn at h
      split at h
      · cases h
        exact hi'
      · split at h
        · cases h
        · split at h
          · cases h
          · cases h
            exact hi'.connect id
  | upselcb sel =>
      obtain ⟨data, _, rfl⟩ := Option.map_eq_some_iff.mp h
      unfold upselcb
      split
      · exact hi.upbegin data
      · exact hi.keep rfl id
  | request id =>
      cases h
      exact hi.connect id
  | setup prot server port id =>
      cases h
      exact (hi.keep (t := { s with prot := prot, server := server, port := port, usersvr := true })
        rfl fun h => h).connect id
  | setperiod prd =>
      have h : setperiod prd s = some t := h
      unfold setperiod at h
      split at h
      · cases h
        exact hi.keep rfl id
      · cases h
  | settimezone zone =>
      cases h
      exact hi.keep rfl id
  | device imei sn snvalid =>
      cases h
      exact hi.keep rfl id

theorem Inv.boot (file : LuaString) : Inv (boot file) := by
  refine ⟨?_, ?_⟩
  · intro h
    cases h
  intro pre f post h
  have hlen := congrArg List.length h
  simp [Update.boot] at hlen

/-- Whatever happens, a download that ends with success leaves the concatenation of one
accepted datagram for each number from 1 to `total`, in order and of the announced sizes. -/
theorem download_complete {file : LuaString} {acts : List Act} {s : State}
    (hr : run (step c) (boot file) acts = some s) {pre post : List Event} {content : LuaString}
    (h : s.hist = pre ++ .upend true content :: post) :
    ∃ (pre' : List Event) (projectid total last : ℕ) (ds : List LuaString),
      pre = pre' ++ .upbegin projectid total last :: ds.map .accept ∧ ds.length = total ∧
      content = (ds.map (·.drop 2)).flatten ∧
      ∀ (i : ℕ) (hi : i < ds.length), index ds[i] = i + 1 ∧
        (ds[i].drop 2).length = if i + 1 < total then 1022 else last :=
  (invariant_run (fun _ _ _ hi ht => hi.step ht) (Inv.boot file) hr).complete pre content post h

/-- A download of two packs, the first one of which comes twice. -/
def session : List Act :=
  [.request (some 0), .nofity (lua "CONNECT") (lua "CONNECT OK"), .recv (lua "LUAUPDATE,7,2,3"),
    .recv ([0, 1] ++ List.replicate 1022 65), .recv ([0, 1] ++ List.replicate 1022 65), .retry,
    .recv [0, 2, 66, 67, 68]]

theorem download_complete_two : ∃ (s : State) (content : LuaString) (ds : List LuaString),
    run (step ⟨lua "K", lua "P", lua "1.0.0", 0, lua "V1"⟩) (boot (lua "old")) session = some s ∧
    s.file = content ∧ ds.length = 2 ∧ content = image ds ∧
    s.hist = .upbegin 7 2 3 :: ds.map .accept ++ [.upend true content] := by
  have hh : (run (step ⟨lua "K", lua "P", lua "1.0.0", 0, lua "V1"⟩) (boot (lua "old"))
      session).map (fun s => (s.file, s.hist)) =
      some (List.replicate 1022 65 ++ [66, 67, 68],
        [.upbegin 7 2 3, .accept ([0, 1] ++ List.replicate 1022 65), .accept [0, 2, 66, 67, 68],
          .upend true (List.replicate 1022 65 ++ [66, 67, 68])]) := by decide +kernel
  obtain ⟨s, hs, heq⟩ := Option.map_eq_some_iff.mp hh
  simp only [Prod.mk.injEq] at heq
  obtain ⟨hfile, hhist⟩ := heq
  have hsplit : s.hist = [.upbegin 7 2 3, .accept ([0, 1] ++ List.replicate 1022 65),
      .accept [0, 2, 66, 67, 68]] ++ .upend true (List.replicate 1022 65 ++ [66, 67, 68]) :: [] := hhist
  obtain ⟨pre', p, t, l, ds, hpre, hlen, himage, -⟩ := download_complete hs hsplit
  have hpre' : pre' = [] := by
    rcases pre' with _ | ⟨v, pre'⟩
    · rfl
    · have htail : [Event.accept ([0, 1] ++ List.replicate 1022 65), .accept [0, 2, 66, 67, 68]] =
          pre' ++ .upbegin p t l :: ds.map .accept := (List.cons.inj hpre).2
      have hmem : Event.upbegin p t l ∈
          [Event.accept ([0, 1] ++ List.replicate 1022 65), .accept [0, 2, 66, 67, 68]] :=
        htail ▸ List.mem_append_right _ List.mem_cons_self
      rcases List.mem_cons.mp hmem with h | hmem
      · cases h
      rcases List.mem_cons.mp hmem with h | h <;> cases h
  subst hpre'
  have hpre₂ := List.cons.inj hpre
  obtain ⟨hbegin, htail⟩ := hpre₂
  cases hbegin
  refine ⟨s, _, ds, hs, hfile, hlen, himage, ?_⟩
  rw [hhist, ← htail]
  rfl

end LuatAir200.Update
