import LuatAir200.AgpsModel

/-!
# Writing the ephemerides

The timer of `writecmd` cuts the ephemerides into messages of the receiver's protocol, one for
each time it expires, and closes the GPS when it finds none. Between two of them the GPS may tell
of its state and the user may change the settings.
-/
namespace LuatAir200.Agps
open Lua Machine

/-- A message of the UBX protocol. -/
structure Ubx where
  cls : UInt8
  id : UInt8
  payload : LuaString
  ckA : UInt8
  ckB : UInt8
  short : payload.length < 2 ^ 16

def Ubx.bytes (f : Ubx) : LuaString :=
  [181, 98, f.cls, f.id, (f.payload.length % 256).toUInt8, (f.payload.length / 256).toUInt8] ++
    f.payload ++ [f.ckA, f.ckB]

/-- Messages without gaps. -/
def stream (fs : List Ubx) : LuaString := (fs.map Ubx.bytes).flatten

/-! ## Cutting off a message -/

theorem sync_length {eph cmd : LuaString} (h : sync eph = some cmd) : cmd.length ≤ eph.length := by
  induction eph with
  | nil => cases h
  | cons c t ih =>
      rw [sync] at h
      split at h
      · obtain rfl := Option.some.inj h
        exact le_refl _
      · have := ih h
        rw [List.length_cons]
        omega

/-- A message has at least eight bytes. -/
theorem frame_length {eph cmd rest : LuaString} (h : frame eph = some (cmd, rest)) :
    rest.length + 8 ≤ eph.length := by
  obtain ⟨s, hs, h⟩ := Option.bind_eq_some_iff.mp h
  obtain ⟨llow, -, h⟩ := Option.bind_eq_some_iff.mp h
  obtain ⟨lhigh, -, h⟩ := Option.bind_eq_some_iff.mp h
  obtain ⟨hle, h⟩ := Option.ite_none_right_eq_some.mp h
  obtain ⟨-, rfl⟩ := Prod.mk.inj (Option.some.inj h)
  have := sync_length hs
  rw [List.length_drop]
  omega

theorem bytes_length (f : Ubx) : f.bytes.length = 8 + f.payload.length := by
  simp [Ubx.bytes]
  omega

theorem frame_bytes (f : Ubx) (rest : LuaString) : frame (f.bytes ++ rest) = some (f.bytes, rest) := by
  have hsync : sync (f.bytes ++ rest) = some (f.bytes ++ rest) := by
    simp [Ubx.bytes, sync]
  have hlow : (f.bytes ++ rest)[4]? = some (f.payload.length % 256).toUInt8 := by
    simp [Ubx.bytes]
  have hhigh : (f.bytes ++ rest)[5]? = some (f.payload.length / 256).toUInt8 := by
    simp [Ubx.bytes]
  have hshort := f.short
  have hlen : (f.payload.length / 256).toUInt8.toNat * 256 +
      (f.payload.length % 256).toUInt8.toNat = f.payload.length := by
    simp only [Nat.toUInt8, UInt8.toNat_ofNat']
    omega
  simp only [frame, hsync, hlow, hhigh, hlen, Option.bind_eq_bind, Option.bind_some,
    ← bytes_length, List.length_append]
  rw [if_pos (Nat.le_add_right _ _), List.take_left, List.drop_left]

/-! ## The chain of ticks -/

/-- Is it a command for the GPS? -/
def Call.isGps : Call → Bool
  | .opengps | .closegps | .writegpscmd _ => true
  | _ => false

def gpsCalls (s : State) : List Call := s.calls.filter Call.isGps

/-- The timer of `writecmd`. -/
def Act.isTick : Act → Bool
  | .writetm => true
  | _ => false

/-- What goes on besides: the GPS tells of its state, and the user changes the settings. -/
def Act.aside : Act → Bool
  | .gps _ | .init _ _ | .setspt _ => true
  | _ => false

/-- Does the GPS tell of a fix? -/
def Act.fixes : Act → Bool
  | .gps .LOCATION_SUC | .gps .LOCATION_UNFILTER_SUC => true
  | _ => false

def ticks (acts : List Act) : ℕ := acts.countP Act.isTick

/-- Nothing but the chain and what goes on besides. -/
def Chain (acts : List Act) : Prop := ∀ a ∈ acts, a.isTick ∨ a.aside

theorem gpsCalls_call (v : Call) (s : State) :
    gpsCalls (call v s) = if v.isGps then gpsCalls s ++ [v] else gpsCalls s := by
  cases h : v.isGps
  · simp [gpsCalls, call, h]
  · simp [gpsCalls, call, h]

/-- The fields of the chain. -/
structure Same (s t : State) : Prop where
  eph : t.eph = s.eph
  writetm : t.writetm = s.writetm
  gpsCalls : gpsCalls t = gpsCalls s

theorem startupdatetimer_same (s : State) : Same s (startupdatetimer s) := by
  rw [startupdatetimer]
  split
  · exact ⟨rfl, rfl, rfl⟩
  · exact ⟨rfl, rfl, rfl⟩

theorem aside_same {s t : State} {a : Act} (ha : a.aside) (h : step s a = some t) : Same s t := by
  cases a with
  | gps data =>
      obtain rfl := Option.some.inj h
      have hsuc := startupdatetimer_same (call (.dispatch .AGPS_UPDATE_SUC) s)
      have hcall := gpsCalls_call (.dispatch .AGPS_UPDATE_SUC) s
      cases data with
      | LOCATION_SUC => exact ⟨hsuc.eph, hsuc.writetm, hsuc.gpsCalls.trans hcall⟩
      | LOCATION_UNFILTER_SUC => exact ⟨hsuc.eph, hsuc.writetm, hsuc.gpsCalls.trans hcall⟩
      | _ => exact ⟨rfl, rfl, rfl⟩
  | init inv md =>
      obtain rfl := Option.some.inj h
      have hsame := startupdatetimer_same { s with itv := inv.getD s.itv, mode := md.getD 0 }
      exact ⟨hsame.eph, hsame.writetm, hsame.gpsCalls⟩
  | setspt spt =>
      obtain rfl := Option.some.inj h
      rw [setspt]
      split
      · split
        · have hsame := startupdatetimer_same { s with ispt := spt }
          exact ⟨hsame.eph, hsame.writetm, hsame.gpsCalls⟩
        · exact ⟨rfl, rfl, rfl⟩
      · exact ⟨rfl, rfl, rfl⟩
  | _ => cases ha

/-- Without a fix there is none afterwards. -/
theorem aside_isfix {s t : State} {a : Act} (ha : a.aside) (hf : a.fixes = false)
    (h : step s a = some t) (hs : s.isfix = false) : t.isfix = false := by
  cases a with
  | gps data =>
      obtain rfl := Option.some.inj h
      cases data with
      | LOCATION_SUC => cases hf
      | LOCATION_UNFILTER_SUC => cases hf
      | LOCATION_FAIL => rfl
      | CLOSE => rfl
      | NO_CHIP => exact hs
      | HAS_CHIP => exact hs
  | init inv md =>
      obtain rfl := Option.some.inj h
      rw [init, startupdatetimer]
      split <;> exact hs
  | setspt spt =>
      obtain rfl := Option.some.inj h
      rw [setspt]
      split
      · split
        · rw [startupdatetimer]
          split <;> exact hs
        · exact hs
      · exact hs
  | _ => cases ha

/-- What a tick does: it writes a message, or it closes the GPS and ends the chain. -/
inductive Tick (s t : State) : Prop
  | write (cmd rest : LuaString) : s.isfix = false → frame s.eph = some (cmd, rest) →
      t.eph = rest → t.writetm ≠ none → gpsCalls t = gpsCalls s ++ [.writegpscmd cmd] →
      t.isfix = s.isfix → Tick s t
  | close : (s.isfix = true ∨ frame s.eph = none) → t.eph = [] → t.writetm = none →
      gpsCalls t = gpsCalls s ++ [.closegps] → t.isfix = s.isfix → Tick s t

theorem writecmd_write {s : State} {cmd rest : LuaString} (hfix : s.isfix = false)
    (h : frame s.eph = some (cmd, rest)) : writecmd s =
      { call (.writegpscmd cmd) s with eph := rest, writetm := some WRITE_INTERVAL } := by
  have hne : s.eph ≠ [] := by
    intro he
    rw [he] at h
    cases h
  rw [writecmd, if_pos ⟨hne, hfix⟩, h]

theorem writecmd_close {s : State} (h : s.isfix = true ∨ frame s.eph = none) :
    writecmd s = call (.dispatch .AGPS_UPDATE_SUC) { call .closegps s with eph := [] } := by
  have hnone : (if s.eph ≠ [] ∧ s.isfix = false then frame s.eph else none) = none := by
    split
    · rename_i hs
      obtain hfix | hframe := h
      · rw [hs.2] at hfix
        cases hfix
      · exact hframe
    · rfl
  rw [writecmd, hnone]

theorem tick_writecmd {s : State} (htm : s.writetm = none) : Tick s (writecmd s) := by
  have close (hc : s.isfix = true ∨ frame s.eph = none) : Tick s (writecmd s) := by
    rw [writecmd_close hc]
    apply Tick.close hc
    · rfl
    · exact htm
    · rw [gpsCalls_call]
      exact gpsCalls_call .closegps s
    · rfl
  obtain hfix | hfix := Bool.eq_false_or_eq_true s.isfix
  · exact close (.inl hfix)
  · cases hframe : frame s.eph with
    | none => exact close (.inr hframe)
    | some r =>
        rw [writecmd_write hfix hframe]
        apply Tick.write r.1 r.2 hfix hframe rfl
        · simp
        · exact gpsCalls_call (.writegpscmd r.1) s
        · rfl

theorem tick_cases {s t : State} (h : step s .writetm = some t) : s.writetm ≠ none ∧ Tick s t := by
  obtain ⟨htm, h⟩ := Option.ite_none_right_eq_some.mp h
  obtain rfl := Option.some.inj h
  refine ⟨htm, ?_⟩
  obtain ⟨cmd, rest, hfix, hframe, heph, hnext, hcalls, hsame⟩ | ⟨hend, heph, hnext, hcalls, hsame⟩ :=
    tick_writecmd (s := { s with writetm := none }) rfl
  · exact Tick.write cmd rest hfix hframe heph hnext hcalls hsame
  · exact Tick.close hend heph hnext hcalls hsame

/-- The timer is answered as long as it runs. -/
theorem tick_enabled {s : State} (h : s.writetm ≠ none) : ∃ t, step s .writetm = some t :=
  ⟨_, if_pos h⟩

/-! ## Every string -/

/-- After `n` ticks of a chain that began with `len` bytes and the commands `before`: the chain
still runs, or it has closed the GPS. -/
inductive Progress (len : ℕ) (before : List Call) (n : ℕ) (t : State) : Prop
  | runs : t.writetm ≠ none → 8 * n + t.eph.length ≤ len →
      (gpsCalls t).count .closegps = before.count .closegps → Progress len before n t
  | closed : t.writetm = none → t.eph = [] → 8 * n ≤ len + 8 →
      (gpsCalls t).count .closegps = before.count .closegps + 1 → Progress len before n t

theorem progress_step {len n : ℕ} {before : List Call} {s t : State} {a : Act}
    (hs : Progress len before n s) (ha : a.isTick ∨ a.aside) (h : step s a = some t) :
    Progress len before (n + if a.isTick then 1 else 0) t := by
  by_cases htick : a.isTick
  · rw [if_pos htick]
    cases a with
    | writetm =>
        obtain ⟨htm, hcase⟩ := tick_cases h
        obtain ⟨-, hlen, hcount⟩ | ⟨hnone, -⟩ := hs
        · obtain ⟨cmd, rest, -, hframe, heph, hnext, hcalls, -⟩ | ⟨-, heph, hnext, hcalls, -⟩ := hcase
          · have hcut := frame_length hframe
            apply Progress.runs hnext
            · rw [heph]
              omega
            · simp [hcalls, hcount]
          · apply Progress.closed hnext heph
            · omega
            · simp [hcalls, hcount]
        · exact absurd hnone htm
    | _ => cases htick
  · rw [if_neg htick]
    have hsame := aside_same (ha.resolve_left htick) h
    obtain ⟨htm, hlen, hcount⟩ | ⟨htm, heph, hlen, hcount⟩ := hs
    · apply Progress.runs
      · rwa [hsame.writetm]
      · rwa [hsame.eph]
      · rwa [hsame.gpsCalls]
    · apply Progress.closed
      · rwa [hsame.writetm]
      · rwa [hsame.eph]
      · exact hlen
      · rwa [hsame.gpsCalls]

theorem ticks_cons (a : Act) (acts : List Act) :
    ticks (a :: acts) = ticks acts + if a.isTick then 1 else 0 := List.countP_cons

theorem progress_run {len n : ℕ} {before : List Call} {s t : State} {acts : List Act}
    (hs : Progress len before n s) (ha : Chain acts) (h : run step s acts = some t) :
    Progress len before (n + ticks acts) t := by
  induction acts generalizing s n with
  | nil =>
      obtain rfl := Option.some.inj h
      exact hs
  | cons a acts ih =>
      obtain ⟨u, hu, hrun⟩ := run_cons_eq_some.mp h
      have hstep := progress_step hs (ha a List.mem_cons_self) hu
      have hrest := ih hstep (fun b hb => ha b (List.mem_cons_of_mem a hb)) hrun
      rw [ticks_cons]
      rwa [Nat.add_assoc, Nat.add_comm (if a.isTick then 1 else 0)] at hrest

/-- The timer alone brings the chain to its end. -/
theorem ticks_end (s : State) (hs : s.writetm ≠ none) :
    ∃ n t, run step s (List.replicate n .writetm) = some t ∧ t.writetm = none := by
  induction hlen : s.eph.length using Nat.strong_induction_on generalizing s with
  | _ len ih =>
      obtain ⟨t, ht⟩ := tick_enabled hs
      obtain ⟨cmd, rest, -, hframe, heph, hnext, -, -⟩ | ⟨-, -, hnext, -⟩ := (tick_cases ht).2
      · have hcut := frame_length hframe
        obtain ⟨n, u, hu, hend⟩ := ih t.eph.length (by rw [heph]; omega) t hnext rfl
        exact ⟨n + 1, u, run_cons_eq_some.mpr ⟨t, ht, hu⟩, hend⟩
      · exact ⟨1, t, run_cons_eq_some.mpr ⟨t, ht, rfl⟩, hnext⟩

/-! ## Messages without gaps -/

/-- After `n` ticks of a chain that began with the messages `fs` and the commands `before`. -/
structure Written (fs : List Ubx) (before : List Call) (n : ℕ) (t : State) : Prop where
  calls : gpsCalls t = before ++ (fs.take n).map (fun f => .writegpscmd f.bytes) ++
    if n ≤ fs.length then [] else [.closegps]
  eph : t.eph = stream (fs.drop n)
  running : t.writetm ≠ none ↔ n ≤ fs.length

theorem frame_stream (fs : List Ubx) {n : ℕ} (h : n < fs.length) :
    frame (stream (fs.drop n)) = some (fs[n].bytes, stream (fs.drop (n + 1))) := by
  rw [List.drop_eq_getElem_cons h, stream, List.map_cons, List.flatten_cons, frame_bytes]
  rfl

theorem written_tick {fs : List Ubx} {before : List Call} {n : ℕ} {s t : State}
    (hs : Written fs before n s) (hfix : s.isfix = false) (h : step s .writetm = some t) :
    Written fs before (n + 1) t ∧ t.isfix = false := by
  obtain ⟨htm, hcase⟩ := tick_cases h
  have hn := hs.running.mp htm
  have hcalls := hs.calls
  rw [if_pos hn, List.append_nil] at hcalls
  obtain hlt | rfl := Nat.lt_or_eq_of_le hn
  · -- a message is left
    have hframe := frame_stream fs hlt
    rw [← hs.eph] at hframe
    obtain ⟨cmd, rest, -, hframe', heph, hnext, hwrite, hsame⟩ | ⟨hend, -⟩ := hcase
    · obtain ⟨rfl, rfl⟩ := Prod.mk.inj (Option.some.inj (hframe'.symm.trans hframe))
      refine ⟨⟨?_, heph, ?_⟩, hsame.trans hfix⟩
      · rw [hwrite, hcalls, List.take_add_one, List.getElem?_eq_getElem hlt,
          if_pos (Nat.succ_le_of_lt hlt)]
        simp only [List.map_append, Option.toList_some, List.map_cons, List.map_nil,
          List.append_nil, List.append_assoc]
      · simp [hnext, Nat.succ_le_of_lt hlt]
    · rw [hfix, hframe] at hend
      simp at hend
  · -- the end
    have hempty : s.eph = [] := by rw [hs.eph, List.drop_length]; rfl
    obtain ⟨cmd, rest, -, hframe, -⟩ | ⟨-, heph, hnext, hclose, hsame⟩ := hcase
    · rw [hempty] at hframe
      cases hframe
    · refine ⟨⟨?_, ?_, ?_⟩, hsame.trans hfix⟩
      · rw [hclose, hcalls, if_neg (Nat.not_succ_le_self _), List.take_length,
          List.take_of_length_le (Nat.le_succ _)]
      · rw [heph, List.drop_of_length_le (Nat.le_succ _)]
        rfl
      · simp [hnext]

theorem written_run {fs : List Ubx} {before : List Call} {n : ℕ} {s t : State} {acts : List Act}
    (hs : Written fs before n s) (hfix : s.isfix = false) (ha : Chain acts)
    (hf : ∀ a ∈ acts, a.fixes = false) (h : run step s acts = some t) :
    Written fs before (n + ticks acts) t := by
  induction acts generalizing s n with
  | nil =>
      obtain rfl := Option.some.inj h
      exact hs
  | cons a acts ih =>
      obtain ⟨u, hu, hrun⟩ := run_cons_eq_some.mp h
      have hrest {m : ℕ} (hm : Written fs before m u) (hufix : u.isfix = false) :=
        ih hm hufix (fun b hb => ha b (List.mem_cons_of_mem a hb))
          (fun b hb => hf b (List.mem_cons_of_mem a hb)) hrun
      rw [ticks_cons]
      obtain htick | haside := ha a List.mem_cons_self
      · rw [if_pos htick, Nat.add_comm (ticks acts), ← Nat.add_assoc]
        cases a with
        | writetm =>
            obtain ⟨hwritten, hufix⟩ := written_tick hs hfix hu
            exact hrest hwritten hufix
        | _ => cases htick
      · have hsame := aside_same haside hu
        have hufix := aside_isfix haside (hf a List.mem_cons_self) hu hfix
        have htick : a.isTick = false := by cases a <;> first | rfl | cases haside
        rw [htick, if_neg Bool.false_ne_true, Nat.add_zero]
        apply hrest _ hufix
        constructor
        · rw [hsame.gpsCalls, hs.calls]
        · rw [hsame.eph, hs.eph]
        · rw [hsame.writetm, hs.running]

/-! ## Both -/

/-- `startwrite` opens the GPS and starts the timer. -/
theorem startwrite_starts {s : State} (hfix : s.isfix = false) (hsup : s.gpssupport = true)
    (hne : s.eph ≠ []) : (startwrite s).writetm ≠ none ∧ (startwrite s).eph = s.eph ∧
      (startwrite s).isfix = false ∧ gpsCalls (startwrite s) = gpsCalls s ++ [.opengps] := by
  have hstart : startwrite s = { call .opengps s with writetm := some WRITE_INTERVAL } := by
    simp [startwrite, hfix, hsup, hne]
  rw [hstart]
  exact ⟨by simp, rfl, hfix, gpsCalls_call .opengps s⟩

/-- The chain from a state in which its timer runs, as `startwrite` leaves it. Messages without
gaps are written whole and in order, one a tick, and then the GPS is closed, if there is no fix
meanwhile. Of any bytes there are at most as many ticks as there are messages of eight bytes,
and one more; the timer alone brings the chain to its end; and where it is not running any more,
the GPS has been closed once and nothing is left. -/
theorem ephemerides_written (s : State) (hs : s.writetm ≠ none) :
    (∀ (fs : List Ubx) (acts : List Act) (t : State), s.eph = stream fs → s.isfix = false →
      Chain acts → (∀ a ∈ acts, a.fixes = false) → run step s acts = some t →
      Written fs (gpsCalls s) (ticks acts) t) ∧
    (∀ (acts : List Act) (t : State), Chain acts → run step s acts = some t →
      8 * ticks acts ≤ s.eph.length + 8 ∧
      (gpsCalls t).count .closegps =
        (gpsCalls s).count .closegps + (if t.writetm = none then 1 else 0) ∧
      (t.writetm = none → t.eph = []) ∧
      ∃ n u, run step t (List.replicate n .writetm) = some u ∧ u.writetm = none) := by
  constructor
  · intro fs acts t heph hfix ha hf hrun
    have hstart : Written fs (gpsCalls s) 0 s := by
      constructor
      · simp
      · exact heph
      · simp [hs]
    have hend := written_run hstart hfix ha hf hrun
    rwa [Nat.zero_add] at hend
  · intro acts t ha hrun
    have hstart : Progress s.eph.length (gpsCalls s) 0 s := by
      apply Progress.runs hs
      · omega
      · rfl
    have hend := progress_run hstart ha hrun
    rw [Nat.zero_add] at hend
    obtain ⟨htm, hlen, hcount⟩ | ⟨htm, heph, hlen, hcount⟩ := hend
    · refine ⟨by omega, ?_, fun h => absurd h htm, ticks_end t htm⟩
      rw [if_neg htm, hcount, Nat.add_zero]
    · refine ⟨hlen, ?_, fun _ => heph, 0, t, rfl, htm⟩
      rw [if_pos htm, hcount]

def two : List Ubx := [⟨11, 49, [1, 2, 3], 7, 9, by decide⟩, ⟨11, 48, [], 5, 6, by decide⟩]

theorem ephemerides_written_two :
    ∃ t, run step (startwrite { initial with eph := stream two }) (List.replicate 3 .writetm) =
      some t ∧ Written two [.opengps] 3 t ∧ 8 * 3 ≤ (stream two).length + 8 := by
  have hmain := ephemerides_written (startwrite { initial with eph := stream two })
    (startwrite_starts rfl rfl (by decide)).1
  have hchain : Chain (List.replicate 3 .writetm) := by
    intro a ha
    rw [List.eq_of_mem_replicate ha]
    exact .inl rfl
  have hfixes : ∀ a ∈ List.replicate 3 Act.writetm, a.fixes = false := by
    intro a ha
    rw [List.eq_of_mem_replicate ha]
    rfl
  obtain ⟨t, ht⟩ : ∃ t, run step (startwrite { initial with eph := stream two })
      (List.replicate 3 .writetm) = some t := ⟨_, rfl⟩
  exact ⟨t, ht, hmain.1 two _ t rfl rfl hchain hfixes ht, (hmain.2 _ t hchain ht).1⟩

end LuatAir200.Agps
