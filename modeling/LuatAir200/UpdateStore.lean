import LuatAir200.UpdateSessions

/-!
# Packs that cannot be stored

`save` tells nobody that `io.open` has failed, so the download goes on as if the pack were in the file.
Here every datagram comes with the result of `io.open`.
-/
namespace LuatAir200.Update
open Lua Machine

variable (c : Config)

/-- `save`, when `io.open` succeeds or not. -/
def saveAt (opened : Bool) (data : LuaString) (s : State) : State := if opened then save data s else s

def getpackAt (opened : Bool) (data : LuaString) (s : State) : Option State :=
  if lenMismatch data s then some (retry c (some .ERROR_PACK) s)
  else if index data ≠ s.packid then some (retry c (some .ERROR_PACK) s)
  else
    let s := saveAt opened (data.drop 2) (record (.accept data) (retry c (some .STOP) s))
    if c.updmode = 1 then
      if s.total = 0 then none
      else some (nextpack c (call (.dispatch (.UP_PROGRESS_IND (s.packid * 100 / s.total))) s))
    else some (nextpack c s)

def recvAt (opened : Bool) (data : LuaString) (s : State) : Option State :=
  if s.state = .UPDATE ∧ data ≠ lua "ERR" then getpackAt c opened data { s with retrytm := none }
  else recv c data s

def stepAt (s : State) (a : Bool × Act) : Option State :=
  match a.2 with
  | .recv data => recvAt c a.1 data s
  | _ => step c s a.2

/-- Where `io.open` succeeds the steps are those of the download. -/
theorem stepAt_opened (s : State) (a : Act) : stepAt c s (true, a) = step c s a := by
  cases a with
  | recv data =>
      simp only [stepAt, step, recvAt]
      split
      · rename_i h
        simp only [recv, h.1, h.2, if_false]
        rfl
      · rfl
  | _ => rfl

/-- The download waits, with the same pack, to ask for it again or to give up. -/
structure Repeats (s t : State) : Prop where
  state : t.state = .UPDATE
  packid : t.packid = s.packid
  hist : t.hist = s.hist
  retrytm : t.retrytm = some ERROR_PACK_TIMEOUT
  retry : ∀ u, step c t .retry = some u →
    u = reqget c s.packid { t with retrytm := none, getretries := t.getretries + 1 } ∨
    u = upend c false { t with retrytm := none, getretries := t.getretries + 1 }

/-- The datagram is the pack that is waited for. -/
def Expected (data : LuaString) (s : State) : Prop :=
  data ≠ lua "ERR" ∧ ¬lenMismatch data s ∧ index data = s.packid

variable {c}

/-- A datagram of the wrong length or number. -/
theorem errorPack_repeats {s : State} (hs : s.state = .UPDATE) :
    Repeats c s (retry c (some .ERROR_PACK) { s with retrytm := none }) := by
  have he : retry c (some .ERROR_PACK) { s with retrytm := none } =
      { s with retrytm := some ERROR_PACK_TIMEOUT } := by
    simp [retry, hs]
  rw [he]
  refine ⟨hs, rfl, rfl, rfl, ?_⟩
  intro u hu
  simp only [step, Option.map_some, Option.some.injEq] at hu
  rw [← hu, retry, if_neg (by simp [hs])]
  dsimp only
  split
  · exact .inl rfl
  · exact .inr rfl

/-- The download goes on behind the pack, or ends with success. -/
theorem nextpack_goes {s u : State} (hid : u.packid = s.packid) (hu : u.state = .UPDATE) :
    ¬(Repeats c s (nextpack c u) ∨ nextpack c u = upend c false { s with retrytm := none }) := by
  have hend := @upend_ended c false { s with retrytm := none }
  rw [nextpack]
  split
  · have hsuc := @upend_ended c true u
    rintro (h | h)
    · have hstate := h.state
      rw [hsuc.state] at hstate
      cases hstate
    · have hfail := hend.updsuc
      rw [← h, hsuc.updsuc] at hfail
      cases hfail
  · rintro (h | h)
    · have hnext : u.packid + 1 = s.packid := h.packid
      omega
    · have hstate : u.state = .IDLE := by
        rw [← hend.state, ← h]
        rfl
      rw [hu] at hstate
      cases hstate

/-- A pack that is taken but not written. -/
theorem getpackAt_taken {r t : State} {data : LuaString} (hr : r.state = .UPDATE)
    (hlen : ¬lenMismatch data r) (hid : index data = r.packid)
    (h : getpackAt c false data r = some t) :
    ∃ u, u.packid = r.packid ∧ u.state = .UPDATE ∧ t = nextpack c u := by
  have hstop : retry c (some .STOP) r = { r with getretries := 0, retrytm := none } := by
    simp [retry, hr]
  rw [getpackAt, if_neg hlen, if_neg (not_not.mpr hid), hstop] at h
  dsimp only at h
  split at h
  · split at h
    · cases h
    · cases h
      refine ⟨_, ?_, ?_, rfl⟩
      · rfl
      · exact hr
  · cases h
    refine ⟨_, ?_, ?_, rfl⟩
    · rfl
    · exact hr

/-- The pack that is waited for is lost. -/
theorem expected_lost {s : State} (hs : s.state = .UPDATE) {data : LuaString} (h : Expected data s) :
    ¬∃ t, stepAt c s (false, .recv data) = some t ∧
      (Repeats c s t ∨ t = upend c false { s with retrytm := none }) := by
  rintro ⟨t, ht, hagain⟩
  have hrecv : recvAt c false data s = some t := ht
  rw [recvAt, if_pos ⟨hs, h.1⟩] at hrecv
  obtain ⟨u, hpack, hu, rfl⟩ := @getpackAt_taken c { s with retrytm := none } t data hs h.2.1 h.2.2 hrecv
  have hid : u.packid = s.packid := hpack
  exact nextpack_goes hid hu hagain

/-- When a datagram cannot be written to the file, its pack is asked for again, or the session ends
without success, exactly if the datagram is not the pack that is waited for, so that nothing was
to be written. -/
theorem unstored_pack (c : Config) {s : State} (hs : s.state = .UPDATE) (data : LuaString) :
    (∃ t, stepAt c s (false, .recv data) = some t ∧
      (Repeats c s t ∨ t = upend c false { s with retrytm := none })) ↔ ¬Expected data s := by
  refine ⟨fun h hexp => expected_lost hs hexp h, fun hnot => ?_⟩
  have hstep : stepAt c s (false, .recv data) = recvAt c false data s := rfl
  rw [hstep, recvAt]
  by_cases hdata : data = lua "ERR"
  · rw [if_neg (by simp [hdata])]
    have hrecv : recv c data s = some (upend c false { s with retrytm := none }) := by
      simp [recv, hs, hdata]
    exact ⟨_, hrecv, .inr rfl⟩
  · rw [if_pos ⟨hs, hdata⟩, getpackAt]
    by_cases hlen : lenMismatch data { s with retrytm := none }
    · rw [if_pos hlen]
      exact ⟨_, rfl, .inl (errorPack_repeats hs)⟩
    · have hid : index data ≠ s.packid := fun hid => hnot ⟨hdata, hlen, hid⟩
      rw [if_neg hlen, if_pos hid]
      exact ⟨_, rfl, .inl (errorPack_repeats hs)⟩

/-- The announcement of one pack of three bytes, and a datagram with the wrong number. -/
def announced : List (Bool × Act) :=
  [(true, .request (some 0)), (true, .nofity (lua "CONNECT") (lua "CONNECT OK")),
    (true, .recv (lua "LUAUPDATE,1,1,3"))]

def factory : Config := ⟨lua "key", lua "demo", lua "1.0.0", 0, lua "V1"⟩

/-- A pack with the wrong number is asked for again. -/
theorem unstored_pack_other : ∃ s t, run (stepAt factory) (boot []) announced = some s ∧
    stepAt factory s (false, .recv [0, 7, 97, 98, 99]) = some t ∧
    (Repeats factory s t ∨ t = upend factory false { s with retrytm := none }) := by
  have hrun : ∃ s, run (stepAt factory) (boot []) announced = some s ∧ s.state = .UPDATE ∧
      ¬Expected [0, 7, 97, 98, 99] s := by
    refine ⟨_, rfl, rfl, ?_⟩
    rintro ⟨-, -, hid⟩
    exact absurd hid (by decide)
  obtain ⟨s, hs, hstate, hnot⟩ := hrun
  obtain ⟨t, ht, h⟩ := (unstored_pack factory hstate [0, 7, 97, 98, 99]).mpr hnot
  exact ⟨s, t, hs, ht, h⟩

/-- The only pack of the image is not stored: the session ends with success and the device is
restarted, but the file is empty. -/
theorem unstored_success : ∃ s t, run (stepAt factory) (boot []) announced = some s ∧
    stepAt factory s (false, .recv [0, 1, 97, 98, 99]) = some t ∧
    t.hist.getLast? = some (.upend true []) ∧ .restart ∈ t.calls ∧
    ¬∃ t, stepAt factory s (false, .recv [0, 1, 97, 98, 99]) = some t ∧
      (Repeats factory s t ∨ t = upend factory false { s with retrytm := none }) := by
  have hrun : ∃ s, run (stepAt factory) (boot []) announced = some s ∧ s.state = .UPDATE ∧
      Expected [0, 1, 97, 98, 99] s ∧
      (stepAt factory s (false, .recv [0, 1, 97, 98, 99])).map
        (fun t => (t.hist.getLast?, decide (.restart ∈ t.calls))) = some (some (.upend true []), true) := by
    refine ⟨_, rfl, rfl, ⟨by decide, ?_, by decide⟩, by decide⟩
    rintro (⟨hlt, -⟩ | ⟨-, hlen⟩)
    · exact absurd hlt (by decide)
    · exact hlen rfl
  obtain ⟨s, hs, hstate, hexp, hmap⟩ := hrun
  obtain ⟨t, ht, hlast⟩ := Option.map_eq_some_iff.mp hmap
  obtain ⟨hhist, hrestart⟩ := Prod.mk.inj hlast
  exact ⟨s, t, hs, ht, hhist, of_decide_eq_true hrestart, expected_lost hstate hexp⟩

end LuatAir200.Update
