import LuatAir200.UpdateSessions

/-!
# The retries of the firmware download

The counter `getretries` is shared by all requests. It is set back for each pack, but not for the
request for a new version. Here the requests that are sent are counted, from one request that is not
a repetition to the next.
-/
namespace LuatAir200.Update
open Lua Machine

def isSend : Call → Bool
  | .send _ _ => true
  | _ => false

def sends (s : State) : ℕ := s.calls.countP isSend

structure Counted where
  core : State
  /-- How often the current request has been sent. -/
  sent : ℕ
  /-- How often the requests had been sent whose timer ended a session. -/
  ends : List ℕ

def isRetry : Act → Bool
  | .retry => true
  | _ => false

/-- The step of `update.lua` to `t`. -/
def tally (s : Counted) (a : Act) (t : State) : Counted where
  core := t
  sent := if sends t = sends s.core then s.sent else if isRetry a then s.sent + 1 else 1
  ends := if isRetry a ∧ upends t ≠ upends s.core then s.ends ++ [s.sent] else s.ends

variable (c : Config)

def Counted.step (s : Counted) (a : Act) : Option Counted := (Update.step c s.core a).map (tally s a)

def Counted.boot (file : LuaString) : Counted := ⟨Update.boot file, 0, []⟩

/-- The announcement that `upbegin` is called with. -/
def announces (s : State) : Act → Option LuaString
  | .recv data =>
      if s.state = .CHECK ∧ foundAtFront data (lua "LUAUPDATE") = true ∧ c.updmode = 0 then some data
      else none
  | .upselcb true => s.chkrspdat
  | _ => none

/-- The number of packs of an announcement. -/
def packs (data : LuaString) : Option ℕ :=
  match smatch data (lua "LUAUPDATE,(%d+),(%d+),(%d+)") with
  | some [_, p2, _] => some (tolong p2)
  | _ => none

/-- A version check begins with the counter at one or less, and an accepted announcement is of one
pack at least. -/
structure Provided (s : Counted) (a : Act) : Prop where
  retries : a = .nofity (lua "CONNECT") (lua "CONNECT OK") → s.core.getretries ≤ 1
  total : ∀ data ∈ announces c s.core a, ∀ n ∈ packs data, 1 ≤ n

variable {c}

/-! ## One step -/

/-- Nothing that matters for the counter or the packs. -/
structure Same (s t : State) : Prop where
  state : t.state = s.state
  getretries : t.getretries = s.getretries
  packid : t.packid = s.packid
  total : t.total = s.total
  sends : sends t = sends s

/-- What a step does that is not an expiry of the timer. -/
inductive Kind (c : Config) (s : State) (a : Act) (t : State) : Prop
  | idle (ht : t.state = .IDLE)
  | same (h : Same s t)
  | check (ha : a = .nofity (lua "CONNECT") (lua "CONNECT OK")) (ht : t.state = .CHECK)
      (hg : t.getretries = s.getretries) (hn : sends t = sends s + 1)
  | first (data : LuaString) (ha : announces c s a = some data) (hn : packs data = some t.total)
      (ht : t.state = .UPDATE) (hg : t.getretries = 0) (hp : t.packid = 1)
  | next (hs : s.state = .UPDATE) (ht : t.state = .UPDATE) (hg : t.getretries = 0)
      (hp : t.packid = s.packid + 1) (hne : s.packid ≠ s.total) (htotal : t.total = s.total)

theorem Same.refl (s : State) : Same s s := ⟨rfl, rfl, rfl, rfl, rfl⟩

theorem sends_call {v : Call} (hv : isSend v = false) (s : State) : sends (call v s) = sends s := by
  rw [sends, call, List.countP_append, List.countP_singleton, if_neg (by simp [hv])]
  rfl

theorem Same.call {s t : State} (h : Same s t) {v : Call} (hv : isSend v = false) :
    Same s (call v t) :=
  ⟨h.state, h.getretries, h.packid, h.total, (sends_call hv t).trans h.sends⟩

theorem Kind.call {s t : State} {a : Act} (h : Kind c s a t) {v : Call} (hv : isSend v = false) :
    Kind c s a (call v t) := by
  cases h with
  | idle ht => exact .idle ht
  | same h => exact .same (h.call hv)
  | check ha ht hg hn => exact .check ha ht hg ((sends_call hv t).trans hn)
  | first data ha hn ht hg hp => exact .first data ha hn ht hg hp
  | next hs ht hg hp hne htotal => exact .next hs ht hg hp hne htotal

theorem Kind.upend {s : State} {a : Act} (succ : Bool) (u : State) : Kind c s a (upend c succ u) :=
  .idle (upend_ended succ u).state

/-- The announcement is the one that the action brings. -/
theorem Kind.upbegin {s u : State} {a : Act} {data : LuaString} (ha : announces c s a = some data) :
    Kind c s a (upbegin c data u) := by
  rw [Update.upbegin]
  split
  · rename_i p1 p2 p3 hm
    refine .first data ha ?_ rfl rfl rfl
    rw [packs, hm]
    rfl
  · exact .upend false u

theorem Kind.nofity (s : State) (evt val : LuaString) :
    Kind c s (.nofity evt val) (nofity c evt val s) := by
  rw [Update.nofity]
  split
  · rename_i hevt
    dsimp only
    split
    · rename_i hval
      have hcall : sends (Update.call (.dispatch .UPDATE_BEGIN_IND) s) = sends s := sends_call rfl s
      refine .check (by rw [hevt, hval]) rfl rfl ?_
      rw [← hcall]
      simp [sends, reqcheck, Update.call, isSend]
    · exact .upend false _
  · split
    · exact .upend false s
    · exact .same (.refl s)

theorem Kind.nextpack {s u : State} {a : Act} (hs : s.state = .UPDATE) (hu : u.state = .UPDATE)
    (hg : u.getretries = 0) (hp : u.packid = s.packid) (ht : u.total = s.total) :
    Kind c s a (nextpack c u) := by
  rw [Update.nextpack]
  split
  · exact .upend true u
  · rename_i hne
    refine .next hs hu hg ?_ ?_ ht
    · show u.packid + 1 = s.packid + 1
      rw [hp]
    · rwa [hp, ht] at hne

theorem Kind.getpack {s r t : State} {a : Act} {data : LuaString} (hs : s.state = .UPDATE)
    (hr : Same s r) (h : getpack c data r = some t) : Kind c s a t := by
  have hru : r.state = .UPDATE := hr.state.trans hs
  have hwait : Kind c s a (Update.retry c (some .ERROR_PACK) r) := by
    have he : Update.retry c (some .ERROR_PACK) r = { r with retrytm := some ERROR_PACK_TIMEOUT } := by
      simp [Update.retry, hru]
    rw [he]
    exact .same ⟨hr.state, hr.getretries, hr.packid, hr.total, hr.sends⟩
  have hstop : Update.retry c (some .STOP) r = { r with getretries := 0, retrytm := none } := by
    simp [Update.retry, hru]
  rw [Update.getpack] at h
  split at h
  · cases h
    exact hwait
  · split at h
    · cases h
      exact hwait
    · rw [hstop] at h
      dsimp only at h
      split at h
      · split at h
        · cases h
        · cases h
          exact .nextpack hs hru rfl hr.packid hr.total
      · cases h
        exact .nextpack hs hru rfl hr.packid hr.total

theorem Kind.setclock {s t : State} {a : Act} (h : Kind c s a t) (data : LuaString) :
    Kind c s a (setclock data t) := by
  obtain he | ⟨time, zone, he⟩ := setclock_calls data t
  · rwa [he]
  · rw [he]
    exact h.call rfl

theorem Kind.recv {s t : State} {data : LuaString} (h : recv c data s = some t) :
    Kind c s (.recv data) t := by
  have hr : Same s { s with retrytm := none } := ⟨rfl, rfl, rfl, rfl, rfl⟩
  rw [Update.recv] at h
  dsimp only at h
  split at h
  · rename_i hs
    cases h
    apply Kind.setclock
    split
    · rename_i hf
      split
      · rename_i hm
        apply Kind.upbegin
        rw [announces, if_pos ⟨hs, hf, hm⟩]
      · split
        · apply Kind.call (v := .dispatch .NEW_VER_IND) ?_ rfl
          exact .same ⟨rfl, rfl, rfl, rfl, rfl⟩
        · exact .upend false _
    · exact .upend false _
  · rename_i hs
    split at h
    · cases h
      exact .upend false _
    · exact .getpack hs hr h
  · cases h
    exact .upend false _

theorem Same.connect {s r : State} (h : Same s r) (id : Option ℕ) : Same s (connect id r) := by
  rw [Update.connect]
  split
  · have hopen : Same s { Update.call .open r with lid := id } := by
      have hc := h.call (v := .open) rfl
      exact ⟨hc.state, hc.getretries, hc.packid, hc.total, hc.sends⟩
    exact hopen.call rfl
  · exact h

/-- Every step that is not an expiry of the timer. -/
theorem step_kind {s t : State} {a : Act} (ha : isRetry a = false) (h : step c s a = some t) :
    Kind c s a t := by
  cases a with
  | nofity evt val =>
      cases h
      exact .nofity s evt val
  | recv data => exact .recv h
  | retry => cases ha
  | period id =>
      obtain ⟨_, -, rfl⟩ := Option.map_eq_some_iff.mp h
      apply Kind.same
      apply Same.connect
      exact ⟨rfl, rfl, rfl, rfl, rfl⟩
  | defaultbgn id =>
      obtain ⟨_, -, h⟩ := Option.bind_eq_some_iff.mp h
      rw [defaultbgn] at h
      split at h
      · cases h
        exact .same ⟨rfl, rfl, rfl, rfl, rfl⟩
      · split at h
        · cases h
        · split at h
          · cases h
          · cases h
            apply Kind.same
            apply Same.connect
            exact ⟨rfl, rfl, rfl, rfl, rfl⟩
  | upselcb sel =>
      obtain ⟨data, hd, rfl⟩ := Option.map_eq_some_iff.mp h
      rw [upselcb]
      split
      · rename_i hsel
        subst hsel
        exact .upbegin hd
      · have hclose := (Same.refl s).call (v := .close s.lid) rfl
        apply Kind.same
        apply Same.call (v := .dispatch .UPDATE_END_IND) ?_ rfl
        exact ⟨hclose.state, hclose.getretries, hclose.packid, hclose.total, hclose.sends⟩
  | request id =>
      cases h
      exact .same (Same.connect (.refl s) id)
  | setup prot server port id =>
      cases h
      apply Kind.same
      apply Same.connect
      exact ⟨rfl, rfl, rfl, rfl, rfl⟩
  | setperiod prd =>
      obtain ⟨-, ⟨⟩⟩ := Option.ite_none_right_eq_some.mp h
      exact .same ⟨rfl, rfl, rfl, rfl, rfl⟩
  | settimezone zone | device imei sn snvalid =>
      cases h
      exact .same ⟨rfl, rfl, rfl, rfl, rfl⟩

/-! ## Runs -/

/-- The counter is at most the number of requests that were sent, and the pack is in the image. -/
structure Budget (s : Counted) : Prop where
  sent : s.core.state ≠ .IDLE → s.core.getretries ≤ s.sent
  ends : ∀ n ∈ s.ends, CMD_GET_RETRY_TIMES - 1 ≤ n
  packid : s.core.state = .UPDATE → 1 ≤ s.core.packid ∧ s.core.packid ≤ s.core.total

theorem Budget.kind {s : Counted} {t : State} {a : Act} (hs : Budget s) (ha : isRetry a = false)
    (hp : Provided c s a) (h : Kind c s.core a t) : Budget (tally s a t) := by
  have hends : (tally s a t).ends = s.ends := by
    rw [tally]
    simp [ha]
  have hsent (hn : sends t = sends s.core) : (tally s a t).sent = s.sent := by
    simp [tally, hn]
  refine ⟨?_, by rw [hends]; exact hs.ends, ?_⟩
  · intro hne
    have hne : t.state ≠ .IDLE := hne
    show t.getretries ≤ _
    cases h with
    | idle ht => exact absurd ht hne
    | same h =>
        rw [h.getretries, hsent h.sends]
        apply hs.sent
        rwa [← h.state]
    | check hact ht hg hn =>
        have hone : (tally s a t).sent = 1 := by
          rw [tally]
          simp [hn, ha]
        rw [hg, hone]
        exact hp.retries hact
    | first data hd hn ht hg hpk => omega
    | next hst ht hg hpk hne' htotal => omega
  · intro hu
    have hu : t.state = .UPDATE := hu
    show 1 ≤ t.packid ∧ t.packid ≤ t.total
    cases h with
    | idle ht =>
        rw [hu] at ht
        cases ht
    | same h =>
        rw [h.packid, h.total]
        apply hs.packid
        rwa [← h.state]
    | check hact ht hg hn =>
        rw [hu] at ht
        cases ht
    | first data hd hn ht hg hpk =>
        have hpos := hp.total data hd t.total hn
        omega
    | next hst ht hg hpk hne' htotal =>
        obtain ⟨h1, h2⟩ := hs.packid hst
        omega

/-- What an expiry of the timer does. -/
inductive Expiry (c : Config) (s t : State) : Prop
  | idle (hs : s.state = .IDLE) (ht : t.state = .IDLE) (hu : upends t = upends s)
  | again (hs : s.state ≠ .IDLE) (ht : t.state = s.state) (hg : t.getretries = s.getretries + 1)
      (hp : t.packid = s.packid) (htotal : t.total = s.total) (hn : sends t = sends s + 1)
      (hu : upends t = upends s)
  | spent (hs : s.state ≠ .IDLE) (hg : CMD_GET_RETRY_TIMES ≤ s.getretries + 1) (ht : t.state = .IDLE)

theorem step_expiry {s t : State} (h : step c s .retry = some t) : Expiry c s t := by
  obtain ⟨_, -, rfl⟩ := Option.map_eq_some_iff.mp h
  rw [retry]
  split
  · rename_i hs
    have hidle : s.state = .IDLE := by
      cases hp : s.state with
      | IDLE => rfl
      | CHECK => exact absurd hp hs.2
      | UPDATE => exact absurd hp hs.1
    exact .idle hidle hidle rfl
  · rename_i hs
    have hbusy : s.state ≠ .IDLE := by
      intro hidle
      apply hs
      simp [hidle]
    dsimp only
    split
    · split
      · refine .again hbusy rfl rfl rfl rfl ?_ rfl
        simp [sends, reqget, call, isSend]
      · rename_i hu
        have hcheck : s.state = .CHECK := by
          cases hp : s.state with
          | IDLE => exact absurd hp hbusy
          | CHECK => rfl
          | UPDATE => exact absurd hp hu
        refine .again hbusy hcheck.symm rfl rfl rfl ?_ rfl
        simp [sends, reqcheck, call, isSend]
    · rename_i hg
      exact .spent hbusy (Nat.le_of_not_lt hg) (upend_ended false _).state

/-- The timer expires. -/
theorem Budget.retry {s : Counted} {t : State} (hs : Budget s) (h : Expiry c s.core t) :
    Budget (tally s .retry t) := by
  have hidle (ht : t.state = .IDLE) {ends : List ℕ} (hends : (tally s .retry t).ends = ends)
      (hall : ∀ n ∈ ends, CMD_GET_RETRY_TIMES - 1 ≤ n) : Budget (tally s .retry t) := by
    refine ⟨fun hne => absurd ht hne, by rw [hends]; exact hall, fun hu => ?_⟩
    have hu : t.state = .UPDATE := hu
    rw [ht] at hu
    cases hu
  cases h with
  | idle hst ht hu =>
      apply hidle ht _ hs.ends
      simp [tally, hu]
  | again hst ht hg hp htotal hn hu =>
      refine ⟨fun _ => ?_, ?_, fun hup => ?_⟩
      · have hsent : (tally s .retry t).sent = s.sent + 1 := by
          simp [tally, hn, isRetry]
        have hle := hs.sent hst
        show t.getretries ≤ _
        rw [hsent]
        omega
      · have hends : (tally s .retry t).ends = s.ends := by
          simp [tally, hu]
        rw [hends]
        exact hs.ends
      · have hup : t.state = .UPDATE := hup
        show 1 ≤ t.packid ∧ t.packid ≤ t.total
        rw [hp, htotal]
        apply hs.packid
        rwa [← ht]
  | spent hst hg ht =>
      have hle := hs.sent hst
      apply hidle ht rfl
      intro n hn
      rw [tally] at hn
      dsimp only at hn
      split at hn
      · obtain hn | hn := List.mem_append.mp hn
        · exact hs.ends n hn
        · obtain rfl := List.mem_singleton.mp hn
          omega
      · exact hs.ends n hn

theorem Budget.step {s t : Counted} {a : Act} (hs : Budget s) (hp : Provided c s a)
    (h : s.step c a = some t) : Budget t := by
  obtain ⟨u, hu, rfl⟩ := Option.map_eq_some_iff.mp h
  cases ha : isRetry a with
  | true =>
      obtain rfl : a = .retry := by
        cases a with
        | retry => rfl
        | _ => cases ha
      exact hs.retry (step_expiry hu)
  | false => exact hs.kind ha hp (step_kind ha hu)

theorem Budget.boot (file : LuaString) : Budget (Counted.boot file) := by
  refine ⟨fun h => absurd rfl h, ?_, fun h => by cases h⟩
  intro n hn
  cases hn

/-- In every run in which a version check begins with the counter at one or less, and every
announcement is of one pack at least, no timer ends a session before its request has been sent
often enough, and the pack that is asked for is one of the image. -/
theorem retry_budget (c : Config) (file : LuaString) {acts : List Act} {s : Counted}
    (hm : Meets (Counted.step c) (Provided c) (Counted.boot file) acts)
    (hr : run (Counted.step c) (Counted.boot file) acts = some s) :
    (∀ n ∈ s.ends, CMD_GET_RETRY_TIMES - 1 ≤ n) ∧
    (s.core.state = .UPDATE → 1 ≤ s.core.packid ∧ s.core.packid ≤ s.core.total) := by
  have hb : Budget s := guarded_run (fun _ _ _ hs hp ht => hs.step hp ht) (Budget.boot file) hm hr
  exact ⟨hb.ends, hb.packid⟩

deriving instance DecidableEq for Act

instance (s : Counted) (a : Act) : Decidable (Provided c s a) :=
  decidable_of_iff ((a = .nofity (lua "CONNECT") (lua "CONNECT OK") → s.core.getretries ≤ 1) ∧
      ∀ data ∈ announces c s.core a, ∀ n ∈ packs data, 1 ≤ n)
    ⟨fun h => ⟨h.1, h.2⟩, fun h => ⟨h.retries, h.total⟩⟩

def product : Config := ⟨lua "key", lua "demo", lua "1.0.0", 0, lua "V1"⟩

/-- A version check that is never answered. -/
def unanswered : List Act :=
  [.setperiod 60, .request (some 0), .nofity (lua "CONNECT") (lua "CONNECT OK"), .retry, .retry, .retry,
    .retry]

theorem retry_budget_unanswered :
    ∃ s, run (Counted.step product) (Counted.boot []) unanswered = some s ∧ s.ends = [4] ∧
      ∀ n ∈ s.ends, CMD_GET_RETRY_TIMES - 1 ≤ n := by
  have hm : Meets (Counted.step product) (Provided product) (Counted.boot []) unanswered := by decide
  have hr : (run (Counted.step product) (Counted.boot []) unanswered).map Counted.ends = some [4] := by
    decide
  obtain ⟨s, hs, hends⟩ := Option.map_eq_some_iff.mp hr
  exact ⟨s, hs, hends, (retry_budget product [] hm hs).1⟩

/-- The check of the next session is sent only once; and an announcement of no packs is accepted. -/
theorem retries_spent :
    (run (Counted.step product) (Counted.boot []) (unanswered ++
      [.period (some 1), .nofity (lua "CONNECT") (lua "CONNECT OK"), .retry])).map Counted.ends =
        some [4, 1] ∧
    (run (Counted.step product) (Counted.boot [])
      [.request (some 0), .nofity (lua "CONNECT") (lua "CONNECT OK"), .recv (lua "LUAUPDATE,1,0,3")]).map
        (fun s => (s.core.state, s.core.packid, s.core.total)) = some (.UPDATE, 1, 0) := by
  decide

end LuatAir200.Update
