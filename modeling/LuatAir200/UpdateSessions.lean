import LuatAir200.UpdateModel
import Mathlib.Data.List.Nodup
import Mathlib.Logic.Function.Basic

/-!
# The sessions of the firmware download

A session begins with its link and ends with `upend` or when the user does not want the new
version. The functions of `update.lua` are given the id of a link and do not look at it, so here
the links are put back: which session each of them belongs to, until its event CLOSE. What is
left of an old session is told apart from the last one only if it stays silent: its link, and
the answer of the user to the version that it has found.
-/
namespace LuatAir200.Update
open Lua Machine

structure World where
  core : State
  /-- The number of sessions so far, and the session of each link. -/
  conns : ℕ
  links : ℕ → Option ℕ
  /-- The sessions that were the last one when `upend` was called. -/
  ends : List ℕ
  /-- The session that has found a new version. -/
  asker : Option ℕ

def isUpend : Event → Bool
  | .upend _ _ => true
  | _ => false

/-- How often `upend`, `link.open` and the message `NEW_VER_IND` have been there. -/
def upends (s : State) : ℕ := s.hist.countP isUpend

def opens (s : State) : ℕ := s.calls.count .open

def asks (s : State) : ℕ := s.calls.count (.dispatch .NEW_VER_IND)

inductive WorldAct
  /-- An event of the link `id`; CLOSE is its last one. -/
  | nofity (id : ℕ) (evt val : LuaString)
  | recv (id : ℕ) (data : LuaString)
  /-- Any other action. -/
  | own (a : Act)

/-- The link that an action is an event of. -/
def WorldAct.link : WorldAct → Option ℕ
  | .nofity id _ _ => some id
  | .recv id _ => some id
  | .own _ => none

def WorldAct.act : WorldAct → Act
  | .nofity _ evt val => .nofity evt val
  | .recv _ data => .recv data
  | .own a => a

def Act.own : Act → Bool
  | .nofity _ _ | .recv _ => false
  | _ => true

/-- The id that `link.open` gives; it is not in use. -/
def Act.opening : Act → Option ℕ
  | .period id | .defaultbgn id | .request id | .setup _ _ _ id => id
  | _ => none

/-- What the links allow. -/
def Possible (s : World) : WorldAct → Prop
  | .own a => a.own = true ∧ ∀ i ∈ a.opening, s.links i = none
  | a => ∀ i ∈ a.link, s.links i ≠ none

instance (s : World) (a : WorldAct) : Decidable (Possible s a) := by
  unfold Possible
  cases a <;> infer_instance

/-- Before it tells of CLOSE, `link.lua` has given up the link. -/
def leave (s : World) : WorldAct → ℕ → Option ℕ
  | .nofity id evt _ => if evt = lua "CLOSE" then Function.update s.links id none else s.links
  | _ => s.links

/-- The step of `update.lua` to `t`. -/
def follow (s : World) (a : WorldAct) (t : State) : World where
  core := t
  conns := if opens t = opens s.core then s.conns else s.conns + 1
  links := if opens t = opens s.core then leave s a
    else match t.lid with
      | some i => Function.update s.links i (some (s.conns + 1))
      | none => s.links
  ends := s.ends ++ List.replicate (upends t - upends s.core) s.conns
  asker := if asks t = asks s.core then s.asker else a.link.bind s.links

variable (c : Config)

def World.step (s : World) (a : WorldAct) : Option World :=
  if Possible s a then (Update.step c s.core a.act).map (follow s a) else none

def World.boot (file : LuaString) : World where
  core := Update.boot file
  conns := 0
  links _ := none
  ends := []
  asker := none

/-! ## What the functions do with a session -/

/-- Neither a link nor an end. -/
structure Quiet (s t : State) : Prop where
  lid : t.lid = s.lid
  updsuc : t.updsuc = s.updsuc
  chkrspdat : t.chkrspdat = s.chkrspdat
  opens : opens t = opens s
  hist : ∃ mid, t.hist = s.hist ++ mid ∧ ∀ v ∈ mid, isUpend v = false

/-- The session is ended. -/
structure Ended (succ : Bool) (s t : State) : Prop where
  state : t.state = .IDLE
  retrytm : t.retrytm = none
  lid : t.lid = none
  updsuc : t.updsuc = succ
  chkrspdat : t.chkrspdat = s.chkrspdat
  opens : opens t = opens s
  hist : ∃ mid file, t.hist = s.hist ++ mid ++ [.upend succ file] ∧ ∀ v ∈ mid, isUpend v = false

variable {c}

theorem Quiet.refl (s : State) : Quiet s s := ⟨rfl, rfl, rfl, rfl, [], by simp, by simp⟩

theorem Quiet.trans {s t u : State} (h : Quiet s t) (h' : Quiet t u) : Quiet s u := by
  obtain ⟨mid, hm, hn⟩ := h.hist
  obtain ⟨mid', hm', hn'⟩ := h'.hist
  refine ⟨h'.lid.trans h.lid, h'.updsuc.trans h.updsuc, h'.chkrspdat.trans h.chkrspdat,
    h'.opens.trans h.opens, mid ++ mid', ?_, ?_⟩
  · rw [hm', hm, List.append_assoc]
  · intro v hv
    rcases List.mem_append.mp hv with hv | hv
    · exact hn v hv
    · exact hn' v hv

theorem Quiet.ended {s t u : State} {succ : Bool} (h : Quiet s t) (h' : Ended succ t u) :
    Ended succ s u := by
  obtain ⟨mid, hm, hn⟩ := h.hist
  obtain ⟨mid', file, hm', hn'⟩ := h'.hist
  refine ⟨h'.state, h'.retrytm, h'.lid, h'.updsuc, h'.chkrspdat.trans h.chkrspdat,
    h'.opens.trans h.opens, mid ++ mid', file, ?_, ?_⟩
  · rw [hm', hm, List.append_assoc s.hist]
  · intro v hv
    rcases List.mem_append.mp hv with hv | hv
    · exact hn v hv
    · exact hn' v hv

theorem Ended.quiet {s t u : State} {succ : Bool} (h : Ended succ s t) (hl : u.lid = t.lid)
    (hu : u.updsuc = t.updsuc) (ho : Update.opens u = Update.opens t) (hh : u.hist = t.hist)
    (hs : u.state = t.state) (hr : u.retrytm = t.retrytm) (hc : u.chkrspdat = t.chkrspdat) :
    Ended succ s u := by
  obtain ⟨mid, file, hm, hn⟩ := h.hist
  exact ⟨hs.trans h.state, hr.trans h.retrytm, hl.trans h.lid, hu.trans h.updsuc,
    hc.trans h.chkrspdat, ho.trans h.opens, mid, file, hh.trans hm, hn⟩

/-- A call that opens no link. -/
theorem opens_call {v : Call} (hv : v ≠ .open) (s : State) : opens (call v s) = opens s := by
  unfold opens call
  rw [List.count_append, List.count_singleton, if_neg (by simpa using hv), Nat.add_zero]

theorem quiet_call {v : Call} (hv : v ≠ .open) (s : State) : Quiet s (call v s) :=
  ⟨rfl, rfl, rfl, opens_call hv s, [], by simp [call], by simp⟩

theorem quiet_reqget (i : ℕ) (s : State) : Quiet s (reqget c i s) :=
  ⟨rfl, rfl, rfl, opens_call (by simp) s, [], by simp [reqget, call], by simp⟩

theorem quiet_reqcheck (s : State) : Quiet s (reqcheck c s) :=
  ⟨rfl, rfl, rfl, opens_call (by simp) s, [], by simp [reqcheck, call], by simp⟩

theorem Ended.call {s t : State} {succ : Bool} (h : Ended succ s t) {v : Call} (hv : v ≠ .open) :
    Ended succ s (call v t) := h.quiet rfl rfl (opens_call hv t) rfl rfl rfl rfl

theorem Ended.callIf {s t : State} {succ : Bool} (h : Ended succ s t) (p : Prop) [Decidable p]
    {v : Call} (hv : v ≠ .open) : Ended succ s (if p then Update.call v t else t) := by
  split
  · exact h.call hv
  · exact h

theorem Ended.period {s t : State} {succ : Bool} (h : Ended succ s t) :
    Ended succ s (if t.period ≠ 0 then { t with periodtm := some (t.period * 1000) } else t) := by
  split
  · exact h.quiet rfl rfl rfl rfl rfl rfl rfl
  · exact h

theorem upend_ended (succ : Bool) (s : State) : Ended succ s (upend c succ s) := by
  have hclose : Ended succ s { Update.call (.close s.lid) { record (.upend succ s.file) s with
      updsuc := succ, state := .IDLE, retrytm := none } with lid := none } := by
    refine ⟨rfl, rfl, rfl, rfl, rfl, opens_call (by simp) _, [], s.file, ?_, by simp⟩
    simp [Update.call, record]
  have hrestart := hclose.callIf (succ = true ∧ c.updmode = 0) (v := .restart) (by simp)
  have hupend := hrestart.callIf (c.updmode = 1 ∧ s.state ≠ .IDLE)
    (v := .dispatch (.UP_END_IND succ)) (by simp)
  have hend := hupend.call (v := .dispatch .UPDATE_END_IND) (by simp)
  exact hend.period

/-! ## The outcomes -/

/-- A link is given up without `upend` only together with the timer and the download. -/
def Calm (c : Config) (s : State) : Prop :=
  s.lid = none → s.retrytm = none ∧ s.state ≠ .UPDATE ∧ (s.state = .CHECK → c.updmode = 1)

/-- What the functions of a session do: it goes on or it ends. -/
def Outcome (c : Config) (s t : State) : Prop :=
  Ended false s t ∨ Ended true s t ∨ (Quiet s t ∧ Calm c t)

theorem Outcome.upend (succ : Bool) (s : State) : Outcome c s (upend c succ s) := by
  cases succ with
  | false => exact .inl (upend_ended false s)
  | true => exact .inr (.inl (upend_ended true s))

/-- While there is a link, the session may go on as it likes. -/
theorem Outcome.goes {s t : State} (hlid : s.lid ≠ none) (h : Quiet s t) : Outcome c s t :=
  .inr (.inr ⟨h, fun hn => absurd (h.lid.symm.trans hn) hlid⟩)

theorem Outcome.after {s t u : State} (h : Quiet s t) (h' : Outcome c t u) : Outcome c s u := by
  rcases h' with h' | h' | ⟨h', hcalm⟩
  · exact .inl (h.ended h')
  · exact .inr (.inl (h.ended h'))
  · exact .inr (.inr ⟨h.trans h', hcalm⟩)

/-- Something that no session notices. -/
theorem quiet_of_eq {s t : State} (hl : t.lid = s.lid) (hu : t.updsuc = s.updsuc)
    (hc : t.chkrspdat = s.chkrspdat) (ho : t.calls = s.calls) (hh : t.hist = s.hist) : Quiet s t :=
  ⟨hl, hu, hc, by rw [opens, opens, ho], [], by rw [hh, List.append_nil], by simp⟩

theorem retry_outcome {s : State} (hlid : s.lid ≠ none) (param : Option Param) :
    Outcome c s (retry c param s) := by
  unfold retry
  split
  · exact .goes hlid (.refl s)
  rcases param with _ | _ | _
  · have hq : Quiet s { s with getretries := s.getretries + 1 } := quiet_of_eq rfl rfl rfl rfl rfl
    simp only
    split_ifs
    · exact .goes hlid (hq.trans (quiet_reqget _ _))
    · exact .goes hlid (hq.trans (quiet_reqcheck _))
    · exact .after hq (.upend false _)
  · exact .goes hlid (quiet_of_eq rfl rfl rfl rfl rfl)
  · exact .goes hlid (quiet_of_eq rfl rfl rfl rfl rfl)

theorem upbegin_outcome {s : State} (hlid : s.lid ≠ none) (data : LuaString) :
    Outcome c s (upbegin c data s) := by
  unfold upbegin
  split
  · rename_i p1 p2 p3 _
    refine .goes hlid (Quiet.trans ?_ (quiet_reqget _ _))
    exact ⟨rfl, rfl, rfl, rfl, [.upbegin (tolong p1) (tolong p2) (tolong p3)], rfl, by simp [isUpend]⟩
  · exact .upend false s

theorem nextpack_outcome {s : State} (hlid : s.lid ≠ none) : Outcome c s (nextpack c s) := by
  unfold nextpack
  split
  · exact .upend true s
  · have hq : Quiet s { s with packid := s.packid + 1 } := quiet_of_eq rfl rfl rfl rfl rfl
    exact .goes hlid (hq.trans (quiet_reqget _ _))

theorem getpack_outcome {s t : State} {data : LuaString} (hlid : s.lid ≠ none)
    (h : getpack c data s = some t) : Outcome c s t := by
  unfold getpack at h
  split at h
  · cases h
    exact retry_outcome hlid _
  split at h
  · cases h
    exact retry_outcome hlid _
  -- the pack is accepted
  have hstop : Quiet s (retry c (some .STOP) s) := by
    unfold retry
    split
    · exact .refl s
    · exact quiet_of_eq rfl rfl rfl rfl rfl
  have hsave : Quiet (retry c (some .STOP) s)
      (save (data.drop 2) (record (.accept data) (retry c (some .STOP) s))) :=
    ⟨rfl, rfl, rfl, rfl, [.accept data], rfl, by simp [isUpend]⟩
  have hq := hstop.trans hsave
  have hlid' := hq.lid.symm ▸ hlid
  have hcall (v : Call) (hv : v ≠ .open) : Outcome c s (nextpack c (Update.call v
      (save (data.drop 2) (record (.accept data) (retry c (some .STOP) s))))) :=
    .after (hq.trans (quiet_call hv _)) (nextpack_outcome hlid')
  simp only at h
  split at h
  · split at h
    · cases h
    · cases h
      exact hcall _ (by simp)
  · cases h
    exact .after hq (nextpack_outcome hlid')

theorem nofity_outcome {s : State} {evt val : LuaString}
    (hlid : evt = lua "CONNECT" → s.lid ≠ none) :
    nofity c evt val s = s ∨ Outcome c s (nofity c evt val s) := by
  unfold nofity
  split
  · rename_i hevt
    have hq : Quiet s (call (.dispatch .UPDATE_BEGIN_IND) s) := quiet_call (by simp) s
    simp only
    split
    · exact .inr (.goes (hlid hevt) (hq.trans (quiet_reqcheck _)))
    · exact .inr (.after hq (.upend false _))
  · split
    · exact .inr (.upend false s)
    · exact .inl rfl

/-- The events that `nofity` looks at. -/
def heeds (evt val : LuaString) : Bool :=
  evt == lua "CONNECT" || (evt == lua "STATE" && val == lua "CLOSED")

theorem nofity_other {s : State} {evt val : LuaString} (h : heeds evt val = false) :
    nofity c evt val s = s := by
  rw [heeds, Bool.or_eq_false_iff, Bool.and_eq_false_iff] at h
  unfold nofity
  rw [if_neg (by simpa using h.1), if_neg (by simpa [imp_iff_not_or] using h.2)]

theorem setclock_calls (data : LuaString) (s : State) :
    setclock data s = s ∨ ∃ time zone, setclock data s =
      call (.setclock time BEIJING_TIME zone) s := by
  unfold setclock
  split
  · rename_i timezone time _ _
    exact .inr ⟨time, timezone, rfl⟩
  · exact .inl rfl

/-- A reply that tells of a new version in the mode of the user. -/
structure Found (c : Config) (s t : State) : Prop where
  state : s.state = .CHECK ∧ t.state = .CHECK
  updmode : c.updmode = 1
  retrytm : t.retrytm = none
  lid : t.lid = s.lid
  updsuc : t.updsuc = s.updsuc
  opens : opens t = opens s
  hist : t.hist = s.hist

theorem Found.call {s t : State} (h : Found c s t) {v : Call} (hv : v ≠ .open) :
    Found c s (call v t) :=
  ⟨h.state, h.updmode, h.retrytm, h.lid, h.updsuc, (opens_call hv t).trans h.opens, h.hist⟩

theorem Outcome.call {s t : State} (h : Outcome c s t) {v : Call} (hv : v ≠ .open) :
    Outcome c s (call v t) := by
  rcases h with h | h | ⟨h, hcalm⟩
  · exact .inl (h.call hv)
  · exact .inr (.inl (h.call hv))
  · exact .inr (.inr ⟨h.trans (quiet_call hv t), hcalm⟩)

/-- What `recv` does with a reply before it sets the clock. -/
def reply (c : Config) (data : LuaString) (s : State) : State :=
  if foundAtFront data (lua "LUAUPDATE") then
    if c.updmode = 0 then upbegin c data s
    else if c.updmode = 1 then call (.dispatch .NEW_VER_IND) { s with chkrspdat := some data }
    else upend c false s
  else upend c false s

theorem reply_outcome {s : State} (hcalm : Calm c s) (hstate : s.state = .CHECK)
    (hretry : s.retrytm = none) (data : LuaString) :
    Outcome c s (reply c data s) ∨ Found c s (reply c data s) := by
  unfold reply
  split_ifs with hfound hmode hmode₁
  · left
    apply upbegin_outcome
    intro hlid
    have hone := (hcalm hlid).2.2 hstate
    rw [hmode] at hone
    cases hone
  · right
    exact ⟨⟨hstate, hstate⟩, hmode₁, hretry, rfl, rfl, opens_call (by simp) _, rfl⟩
  · exact .inl (.upend false s)
  · exact .inl (.upend false s)

theorem recv_outcome {s t : State} {data : LuaString} (hcalm : Calm c s)
    (h : recv c data s = some t) : Outcome c s t ∨ Found c s t := by
  have hq : Quiet s { s with retrytm := none } := quiet_of_eq rfl rfl rfl rfl rfl
  unfold recv at h
  simp only at h
  split at h
  · rename_i hstate
    cases h
    have hreply : Outcome c s (reply c data { s with retrytm := none }) ∨
        Found c s (reply c data { s with retrytm := none }) := by
      have hcalm' : Calm c { s with retrytm := none } := fun hl => ⟨rfl, (hcalm hl).2⟩
      rcases reply_outcome hcalm' hstate rfl data with ho | hf
      · exact .inl (.after hq ho)
      · exact .inr ⟨hf.state, hf.updmode, hf.retrytm, hf.lid, hf.updsuc, hf.opens, hf.hist⟩
    rcases setclock_calls data (reply c data { s with retrytm := none }) with
      hsame | ⟨time, zone, hclock⟩
    · exact hsame.symm ▸ hreply
    · exact hclock.symm ▸ hreply.imp (fun h => h.call (by simp)) fun h => h.call (by simp)
  · rename_i hstate
    have hlid : s.lid ≠ none := fun hn => (hcalm hn).2.1 hstate
    left
    split at h
    · cases h
      exact .after hq (.upend false _)
    · exact .after hq (getpack_outcome (s := { s with retrytm := none }) hlid h)
  · cases h
    exact .inl (.after hq (.upend false _))

/-- What a session consists of. -/
def sessionState (s : State) :
    Phase × Option ℕ × Option ℕ × Bool × Option LuaString × ℕ × List Event :=
  (s.state, s.retrytm, s.lid, s.updsuc, s.chkrspdat, opens s, s.hist)

/-- A link is opened for a new session. -/
structure Opened (s t : State) : Prop where
  state : t.state = s.state
  retrytm : t.retrytm = s.retrytm
  chkrspdat : t.chkrspdat = s.chkrspdat
  updsuc : s.updsuc = false ∧ t.updsuc = false
  lid : s.lid = none
  opens : opens t = opens s + 1
  hist : t.hist = s.hist

theorem connect_outcome (id : Option ℕ) (s : State) :
    sessionState (connect id s) = sessionState s ∨ Opened s (connect id s) := by
  unfold connect
  split
  · rename_i h
    refine .inr ⟨rfl, rfl, rfl, ⟨h.2, h.2⟩, h.1, ?_, rfl⟩
    refine (opens_call (by simp) _).trans ?_
    simp [opens, call]
  · exact .inl rfl

theorem Opened.of_session {s s' t : State} (hs : sessionState s' = sessionState s) (h : Opened s' t) :
    Opened s t := by
  simp only [sessionState, Prod.mk.injEq] at hs
  obtain ⟨h₁, h₂, h₃, h₄, h₅, h₆, h₇⟩ := hs
  exact ⟨h.state.trans h₁, h.retrytm.trans h₂, h.chkrspdat.trans h₅, h₄ ▸ h.updsuc, h₃ ▸ h.lid,
    by rw [h.opens, h₆], h.hist.trans h₇⟩

/-! ## Runs -/

/-- The session that an action stems from. -/
def origin (s : World) : WorldAct → Option ℕ
  | .own (.upselcb _) => s.asker
  | a => a.link.bind s.links

/-- The events that `nofity` looks at and the datagrams come over the link of the last session
before its `upend`. The user answers for the last session while it has its link, and does not
refuse a version that is fetched already. -/
def Proper (s : World) : WorldAct → Prop
  | .nofity id evt val => heeds evt val → s.links id = some s.conns ∧ s.conns ∉ s.ends ∧
      (evt = lua "CONNECT" → s.core.lid ≠ none)
  | .recv id _ => s.links id = some s.conns ∧ s.conns ∉ s.ends
  | .own (.upselcb sel) => s.core.lid ≠ none ∧ s.asker = some s.conns ∧
      (sel = false → s.core.state = .CHECK ∧ s.core.retrytm = none)
  | .own _ => True

instance (s : World) (a : WorldAct) : Decidable (Proper s a) := by
  unfold Proper
  cases a with
  | own a => cases a <;> infer_instance
  | _ => infer_instance

structure Tidy (c : Config) (s : World) : Prop where
  nodup : s.ends.Nodup
  known : ∀ k ∈ s.ends, k ≤ s.conns
  shut : s.conns ∈ s.ends → s.core.state = .IDLE ∧ s.core.retrytm = none ∧ s.core.lid = none
  calm : Calm c s.core
  mode : s.core.chkrspdat ≠ none → c.updmode = 1
  kept : s.core.updsuc = true → s.conns ∈ s.ends
  success : ∀ file, .upend true file ∈ s.core.hist → s.core.updsuc = true

theorem no_upend {mid : List Event} (hmid : ∀ v ∈ mid, isUpend v = false) :
    mid.countP isUpend = 0 := List.countP_eq_zero.mpr fun v hv => by simp [hmid v hv]

theorem upends_append (s t : State) {m : List Event} (h : t.hist = s.hist ++ m)
    (hmid : ∀ v ∈ m, isUpend v = false) : upends t = upends s := by
  rw [upends, h, List.countP_append, no_upend hmid, Nat.add_zero]
  rfl

/-- A step without an end and without a new link. -/
theorem Tidy.quiet {s : World} {a : WorldAct} {t : State} (hi : Tidy c s) {m : List Event}
    (ho : opens t = opens s.core) (hh : t.hist = s.core.hist ++ m)
    (hmid : ∀ v ∈ m, isUpend v = false) (hu : t.updsuc = s.core.updsuc) (hcalm : Calm c t)
    (hmode : t.chkrspdat ≠ none → c.updmode = 1)
    (hover : s.conns ∈ s.ends → t.state = .IDLE ∧ t.retrytm = none ∧ t.lid = none) :
    Tidy c (follow s a t) := by
  have hends : (follow s a t).ends = s.ends := by
    rw [follow, upends_append s.core t hh hmid, Nat.sub_self, List.replicate_zero,
      List.append_nil]
  have hconns : (follow s a t).conns = s.conns := by
    rw [follow, if_pos ho]
  constructor
  · rw [hends]
    exact hi.nodup
  · rw [hends, hconns]
    exact hi.known
  · rw [hends, hconns]
    exact hover
  · exact hcalm
  · exact hmode
  · rw [hends, hconns]
    exact fun h => hi.kept (hu ▸ h)
  · intro file hmem
    have hmem : Event.upend true file ∈ t.hist := hmem
    rw [hh] at hmem
    rcases List.mem_append.mp hmem with hmem | hmem
    · exact hu.trans (hi.success file hmem)
    · have hno := hmid _ hmem
      cases hno

theorem Tidy.ended {s : World} {a : WorldAct} {t : State} {succ : Bool} (hi : Tidy c s)
    (hlast : s.conns ∉ s.ends) (h : Ended succ s.core t) : Tidy c (follow s a t) := by
  obtain ⟨mid, file, hh, hmid⟩ := h.hist
  have hgrow : upends t = upends s.core + 1 := by
    rw [upends, hh, List.countP_append, List.countP_append, no_upend hmid]
    rfl
  have hends : (follow s a t).ends = s.ends ++ [s.conns] := by
    rw [follow, hgrow, Nat.add_sub_cancel_left, List.replicate_one]
  have hconns : (follow s a t).conns = s.conns := by
    rw [follow, if_pos h.opens]
  constructor
  · rw [hends, ← List.concat_eq_append]
    exact hi.nodup.concat hlast
  · rw [hends, hconns]
    intro k hk
    rcases List.mem_append.mp hk with hk | hk
    · exact hi.known k hk
    · exact (List.mem_singleton.mp hk).le
  · exact fun _ => ⟨h.state, h.retrytm, h.lid⟩
  · intro _
    exact ⟨h.retrytm, by rw [show (follow s a t).core = t from rfl, h.state]; simp,
      by rw [show (follow s a t).core = t from rfl, h.state]; simp⟩
  · exact fun hn => hi.mode (h.chkrspdat ▸ hn)
  · rw [hends, hconns]
    simp
  · intro file' hmem
    have hmem : Event.upend true file' ∈ t.hist := hmem
    show t.updsuc = true
    rw [hh] at hmem
    rcases List.mem_append.mp hmem with hmem | hmem
    · rcases List.mem_append.mp hmem with hmem | hmem
      · exact absurd (hi.kept (hi.success file' hmem)) hlast
      · have hno := hmid _ hmem
        cases hno
    · cases List.mem_singleton.mp hmem
      exact h.updsuc

theorem Tidy.outcome {s : World} {a : WorldAct} {t : State} (hi : Tidy c s)
    (hlast : s.conns ∉ s.ends) (h : Outcome c s.core t) : Tidy c (follow s a t) := by
  rcases h with h | h | ⟨h, hcalm⟩
  · exact hi.ended hlast h
  · exact hi.ended hlast h
  · obtain ⟨mid, hh, hmid⟩ := h.hist
    exact hi.quiet h.opens hh hmid h.updsuc hcalm (fun hn => hi.mode (h.chkrspdat ▸ hn))
      fun hmem => absurd hmem hlast

theorem Tidy.found {s : World} {a : WorldAct} {t : State} (hi : Tidy c s)
    (hlast : s.conns ∉ s.ends) (h : Found c s.core t) : Tidy c (follow s a t) := by
  refine hi.quiet (m := []) h.opens (by rw [h.hist, List.append_nil]) (by simp) h.updsuc ?_
    (fun _ => h.updmode) fun hmem => absurd hmem hlast
  intro _
  exact ⟨h.retrytm, by rw [h.state.2]; simp, fun _ => h.updmode⟩

theorem Tidy.still {s : World} {a : WorldAct} {t : State} (hi : Tidy c s)
    (h : sessionState t = sessionState s.core) : Tidy c (follow s a t) := by
  simp only [sessionState, Prod.mk.injEq] at h
  obtain ⟨hs, hr, hl, hu, hc, ho, hh⟩ := h
  refine hi.quiet (m := []) ho (by rw [hh, List.append_nil]) (by simp) hu ?_ ?_ ?_
  · rw [Calm, hl, hr, hs]
    exact hi.calm
  · rw [hc]
    exact hi.mode
  · rw [hs, hr, hl]
    exact hi.shut

theorem Tidy.opened {s : World} {a : WorldAct} {t : State} (hi : Tidy c s)
    (h : Opened s.core t) : Tidy c (follow s a t) := by
  have hends : (follow s a t).ends = s.ends := by
    rw [follow, upends_append s.core t (m := []) (by rw [h.hist, List.append_nil]) (by simp),
      Nat.sub_self, List.replicate_zero, List.append_nil]
  have hconns : (follow s a t).conns = s.conns + 1 := by
    rw [follow, if_neg (by rw [h.opens]; omega)]
  constructor
  · rw [hends]
    exact hi.nodup
  · rw [hends, hconns]
    exact fun k hk => Nat.le_succ_of_le (hi.known k hk)
  · rw [hends, hconns]
    intro hmem
    have hle := hi.known _ hmem
    omega
  · intro _
    have hcalm := hi.calm h.lid
    show t.retrytm = none ∧ t.state ≠ .UPDATE ∧ (t.state = .CHECK → c.updmode = 1)
    rw [h.retrytm, h.state]
    exact hcalm
  · show t.chkrspdat ≠ none → _
    rw [h.chkrspdat]
    exact hi.mode
  · intro hsuc
    have hsuc : t.updsuc = true := hsuc
    rw [h.updsuc.2] at hsuc
    cases hsuc
  · intro file hmem
    have hmem : Event.upend true file ∈ t.hist := hmem
    rw [h.hist] at hmem
    have hsuc := hi.success file hmem
    rw [h.updsuc.1] at hsuc
    cases hsuc

theorem Tidy.connect {s : World} {a : WorldAct} {u : State} (hi : Tidy c s)
    (hu : sessionState u = sessionState s.core) (id : Option ℕ) : Tidy c (follow s a (connect id u)) := by
  rcases connect_outcome id u with h | h
  · exact hi.still (h.trans hu)
  · exact hi.opened (h.of_session hu)

theorem Tidy.nofity {s : World} {id : ℕ} {evt val : LuaString} (hi : Tidy c s)
    (hd : Proper s (.nofity id evt val)) :
    Tidy c (follow s (.nofity id evt val) (nofity c evt val s.core)) := by
  cases hh : heeds evt val with
  | false => exact hi.still (congrArg sessionState (nofity_other hh))
  | true =>
      obtain ⟨-, hlast, hconnect⟩ := hd hh
      have hout : Update.nofity c evt val s.core = s.core ∨
          Outcome c s.core (Update.nofity c evt val s.core) := nofity_outcome hconnect
      rcases hout with heq | ho
      · exact hi.still (congrArg sessionState heq)
      · exact hi.outcome hlast ho

theorem Tidy.upselcb {s : World} {sel : Bool} {data : LuaString} (hi : Tidy c s)
    (hd : Proper s (.own (.upselcb sel))) (hchk : s.core.chkrspdat = some data) :
    Tidy c (follow s (.own (.upselcb sel)) (upselcb c sel data s.core)) := by
  obtain ⟨hlid, -, hrefuse⟩ := hd
  have hlast : s.conns ∉ s.ends := fun hmem => hlid (hi.shut hmem).2.2
  unfold Update.upselcb
  split
  · exact hi.outcome hlast (upbegin_outcome hlid data)
  · rename_i hsel
    rw [Bool.not_eq_true] at hsel
    obtain ⟨hstate, hretry⟩ := hrefuse hsel
    have hmode := hi.mode (by rw [hchk]; simp)
    refine hi.quiet (m := []) ?_ (by simp [call]) (by simp) rfl ?_ (fun _ => hmode)
      fun hmem => absurd hmem hlast
    · exact (opens_call (by simp) _).trans (opens_call (v := .close s.core.lid) (by simp) s.core)
    · exact fun _ => ⟨hretry, by simp [call, hstate], fun _ => hmode⟩

theorem Tidy.step {s t : World} {a : WorldAct} (hi : Tidy c s) (hd : Proper s a)
    (h : World.step c s a = some t) : Tidy c t := by
  obtain ⟨hpos, h⟩ := Option.ite_none_right_eq_some.mp h
  obtain ⟨u, hu, rfl⟩ := Option.map_eq_some_iff.mp h
  cases a with
  | nofity id evt val =>
      cases hu
      exact hi.nofity hd
  | recv id data =>
      rcases recv_outcome hi.calm hu with ho | hf
      · exact hi.outcome hd.2 ho
      · exact hi.found hd.2 hf
  | own a =>
      cases a with
      | nofity evt val => cases hpos.1
      | recv data => cases hpos.1
      | retry =>
          obtain ⟨ms, htm, rfl⟩ := Option.map_eq_some_iff.mp hu
          have hlid : s.core.lid ≠ none := by
            intro hl
            have hnone := (hi.calm hl).1
            rw [htm] at hnone
            cases hnone
          have hlast : s.conns ∉ s.ends := fun hmem => hlid (hi.shut hmem).2.2
          have hq : Quiet s.core { s.core with retrytm := none } := quiet_of_eq rfl rfl rfl rfl rfl
          exact hi.outcome hlast (.after hq (retry_outcome (s := { s.core with retrytm := none })
            hlid none))
      | period id =>
          obtain ⟨_, _, rfl⟩ := Option.map_eq_some_iff.mp hu
          exact hi.connect (u := { s.core with periodtm := none }) rfl id
      | defaultbgn id =>
          obtain ⟨_, _, hu⟩ := Option.bind_eq_some_iff.mp hu
          unfold defaultbgn at hu
          split at hu
          · cases hu
            exact hi.still rfl
          · split at hu
            · cases hu
            · split at hu
              · cases hu
              · cases hu
                exact hi.connect (u := { s.core with defaultbgntm := none }) rfl id
      | upselcb sel =>
          obtain ⟨data, hchk, rfl⟩ := Option.map_eq_some_iff.mp hu
          exact hi.upselcb hd hchk
      | request id =>
          cases hu
          exact hi.connect rfl id
      | setup prot server port id =>
          cases hu
          exact hi.connect (u := { s.core with
            prot := prot, server := server, port := port, usersvr := true }) rfl id
      | setperiod prd =>
          have hu : setperiod prd s.core = some u := hu
          unfold setperiod at hu
          split at hu
          · cases hu
            exact hi.still rfl
          · cases hu
      | settimezone zone =>
          cases hu
          exact hi.still rfl
      | device imei sn snvalid =>
          cases hu
          exact hi.still rfl

theorem Tidy.boot (file : LuaString) : Tidy c (World.boot file) := by
  constructor <;> simp [World.boot, Update.boot, Calm]

/-- What stems from an old session is not noticed. -/
theorem Tidy.foreign {s t : World} {a : WorldAct} {k : ℕ} (hi : Tidy c s) (hd : Proper s a)
    (hk : origin s a = some k) (hold : k < s.conns ∨ k ∈ s.ends)
    (h : World.step c s a = some t) : t.core = s.core := by
  have hne (hlast : k = s.conns) (hopen : s.conns ∉ s.ends) : False := by
    rcases hold with hlt | hmem
    · omega
    · exact hopen (hlast ▸ hmem)
  obtain ⟨-, h⟩ := Option.ite_none_right_eq_some.mp h
  obtain ⟨u, hu, rfl⟩ := Option.map_eq_some_iff.mp h
  cases a with
  | nofity id evt val =>
      cases hu
      cases hh : heeds evt val with
      | false => exact nofity_other hh
      | true =>
          obtain ⟨hlink, hlast, -⟩ := hd hh
          have hk : s.links id = some k := hk
          rw [hlink, Option.some.injEq] at hk
          exact (hne hk.symm hlast).elim
  | recv id data =>
      have hk : s.links id = some k := hk
      rw [hd.1, Option.some.injEq] at hk
      exact (hne hk.symm hd.2).elim
  | own a =>
      cases a with
      | upselcb sel =>
          obtain ⟨hlid, hasker, -⟩ := hd
          have hk : s.asker = some k := hk
          rw [hasker, Option.some.injEq] at hk
          exact (hne hk.symm fun hmem => hlid (hi.shut hmem).2.2).elim
      | _ => cases hk

/-- In a proper run `upend` is called at most once for each session; after a success `updsuc`
stays true, and the session that has succeeded stays the last one and ended; and what stems
from a session that is over (events, datagrams, the answer of the user) changes nothing. -/
theorem sessions_apart {file : LuaString} {acts : List WorldAct} {s : World}
    (hr : run (World.step c) (World.boot file) acts = some s)
    (hm : Meets (World.step c) Proper (World.boot file) acts) :
    (∀ k, s.ends.count k ≤ 1) ∧
    (∀ image, .upend true image ∈ s.core.hist →
      s.core.updsuc = true ∧ s.conns ∈ s.ends ∧ s.core.state = .IDLE) ∧
    ∀ (a : WorldAct) (t : World) (k : ℕ), origin s a = some k → k < s.conns ∨ k ∈ s.ends →
      Proper s a → World.step c s a = some t → t.core = s.core := by
  have hi : Tidy c s := guarded_run (fun _ _ _ hi hd ht => hi.step hd ht) (Tidy.boot file) hm hr
  refine ⟨List.nodup_iff_count_le_one.mp hi.nodup, ?_, ?_⟩
  · intro image hmem
    have hsuc := hi.success image hmem
    exact ⟨hsuc, hi.kept hsuc, (hi.shut (hi.kept hsuc)).1⟩
  · intro a t k hk hold hd ht
    exact hi.foreign hd hk hold ht

/-- The mode in which the user answers. -/
def asking : Config := ⟨lua "K", lua "P", lua "1.0.0", 1, lua "V1"⟩

/-- The first connection fails, the second one fetches one pack; the link of the first is
closed in between. -/
def second : List WorldAct :=
  [.own (.request (some 0)), .nofity 0 (lua "CONNECT") (lua "CONNECT FAIL"),
    .own (.request (some 1)), .nofity 0 (lua "CLOSE") (lua "OK"),
    .nofity 1 (lua "CONNECT") (lua "CONNECT OK"), .recv 1 (lua "LUAUPDATE,7,1,3"),
    .own (.upselcb true), .recv 1 [0, 1, 65, 66, 67], .own (.request (some 2))]

theorem sessions_apart_second : ∃ s, run (World.step asking) (World.boot []) second = some s ∧
    s.ends = [1, 2] ∧ s.conns = 2 ∧
    (∀ k, s.ends.count k ≤ 1) ∧
    (∀ image, .upend true image ∈ s.core.hist →
      s.core.updsuc = true ∧ s.conns ∈ s.ends ∧ s.core.state = .IDLE) ∧
    ∀ (a : WorldAct) (t : World) (k : ℕ), origin s a = some k → k < s.conns ∨ k ∈ s.ends →
      Proper s a → World.step asking s a = some t → t.core = s.core := by
  have hh : (run (World.step asking) (World.boot []) second).map (fun s => (s.ends, s.conns)) =
      some ([1, 2], 2) := by decide +kernel
  obtain ⟨s, hs, heq⟩ := Option.map_eq_some_iff.mp hh
  have hm : Meets (World.step asking) Proper (World.boot []) second := by decide +kernel
  exact ⟨s, hs, (Prod.mk.inj heq).1, (Prod.mk.inj heq).2, sessions_apart hs hm⟩

/-- The last pack comes twice, the second time after `upend` has asked for the link to be closed:
the session ends again, without success, and the next request opens a link. -/
theorem success_undone : ∃ s, run (World.step asking) (World.boot [])
    [.own (.request (some 0)), .nofity 0 (lua "CONNECT") (lua "CONNECT OK"),
      .recv 0 (lua "LUAUPDATE,7,1,3"), .own (.upselcb true), .recv 0 [0, 1, 65, 66, 67],
      .recv 0 [0, 1, 65, 66, 67], .own (.request (some 1))] = some s ∧
    s.ends = [1, 1] ∧ .upend true [65, 66, 67] ∈ s.core.hist ∧ s.core.updsuc = false ∧
    s.conns = 2 := by
  have hh : (run (World.step asking) (World.boot [])
      [.own (.request (some 0)), .nofity 0 (lua "CONNECT") (lua "CONNECT OK"),
        .recv 0 (lua "LUAUPDATE,7,1,3"), .own (.upselcb true), .recv 0 [0, 1, 65, 66, 67],
        .recv 0 [0, 1, 65, 66, 67], .own (.request (some 1))]).map
      (fun s => (s.ends, decide (.upend true [65, 66, 67] ∈ s.core.hist), s.core.updsuc, s.conns)) =
      some ([1, 1], true, false, 2) := by decide +kernel
  obtain ⟨s, hs, heq⟩ := Option.map_eq_some_iff.mp hh
  simp only [Prod.mk.injEq, decide_eq_true_eq] at heq
  exact ⟨s, hs, heq⟩

end LuatAir200.Update
