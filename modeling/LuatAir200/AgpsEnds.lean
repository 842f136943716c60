import LuatAir200.AgpsModel
import Mathlib.Data.List.Nodup

/-!
# The ends of the sessions

`upend` may take effect once for each connection. It stops both timers of the session, so only
an event of a link can end a connection again: `rcv` does not ask for the link or whether the
session is over, and with a fix or without GPS support `nofity` calls `upend` for every event of
`lid`, also for the event CLOSE that its own `link.close` has caused.
-/
namespace LuatAir200.Agps
open Lua Machine

/-- The last connection has been ended. -/
def Ended (s : State) : Prop := s.conns ∈ s.effects.map Prod.fst

instance (s : State) : Decidable (Ended s) := inferInstanceAs (Decidable (_ ∈ _))

/-- Nothing of a session is left. -/
def Idle (s : State) : Prop := s.state = .IDLE ∧ s.retrytm = none ∧ s.errpacktm = none

/-- Every effect is there once, and the end of a connection leaves nothing of its session. -/
structure Once (s : State) : Prop where
  nodup : s.effects.Nodup
  known : ∀ e ∈ s.effects, e.1 ≤ s.conns
  idle : Ended s → Idle s
  current : ∀ id c, s.lid = some id → s.links id = some c → c = s.conns

/-- What `Once` reads besides the session. -/
def ledger (s : State) : ℕ × List (ℕ × Effect) × Option ℕ × (ℕ → Option ℕ) :=
  (s.conns, s.effects, s.lid, s.links)

theorem Once.keep {s t : State} (hi : Once s) (hl : ledger t = ledger s)
    (hidle : Ended s → Idle t) : Once t := by
  simp only [ledger, Prod.mk.injEq] at hl
  obtain ⟨hc, he, hlid, hlinks⟩ := hl
  constructor
  · rw [he]
    exact hi.nodup
  · rw [he, hc]
    exact hi.known
  · rw [Ended, he, hc]
    exact hidle
  · rw [hlid, hlinks, hc]
    exact hi.current

theorem ended_congr {s t : State} (hl : ledger t = ledger s) : Ended t ↔ Ended s := by
  simp only [ledger, Prod.mk.injEq] at hl
  rw [Ended, Ended, hl.1, hl.2.1]

/-! ## The end of a session -/

@[simp] theorem startupdatetimer_ledger (s : State) : ledger (startupdatetimer s) = ledger s := by
  unfold startupdatetimer
  split <;> rfl

theorem startupdatetimer_idle {s : State} (h : Idle s) : Idle (startupdatetimer s) := by
  unfold startupdatetimer
  split <;> exact h

@[simp] theorem startwrite_ledger (s : State) : ledger (startwrite s) = ledger s := by
  unfold startwrite
  split_ifs <;> rfl

theorem startwrite_idle {s : State} (h : Idle s) : Idle (startwrite s) := by
  unfold startwrite
  split_ifs <;> exact h

/-- `t` is the end of the last connection of `s`, with the effects `vs` so far. -/
structure Ends (s t : State) (vs : List Effect) : Prop where
  conns : t.conns = s.conns
  lid : t.lid = s.lid
  links : t.links = s.links
  idle : Idle t
  effects : t.effects = s.effects ++ vs.map (s.conns, ·)

theorem Ends.keep {s t u : State} {vs : List Effect} (h : Ends s t vs) (hl : ledger u = ledger t)
    (hidle : Idle u) : Ends s u vs := by
  simp only [ledger, Prod.mk.injEq] at hl
  obtain ⟨hc, he, hlid, hlinks⟩ := hl
  exact ⟨hc.trans h.conns, hlid.trans h.lid, hlinks.trans h.links, hidle, he.trans h.effects⟩

theorem Ends.affect {s t : State} {l : List Effect} (h : Ends s t l) (v : Effect) :
    Ends s (affect v t) (l ++ [v]) := by
  refine ⟨h.conns, h.lid, h.links, h.idle, ?_⟩
  show t.effects ++ [(t.conns, v)] = _
  rw [h.effects, h.conns, List.map_append, List.append_assoc]
  rfl

theorem Ends.endind {s t : State} {l : List Effect} (h : Ends s t l) (succ : Bool)
    (hl : l.Nodup) (hv : .endInd ∉ l) :
    ∃ ws, ws.Nodup ∧ Ends s (endind succ t) ws := by
  unfold Agps.endind
  split
  · refine ⟨l ++ [.endInd], ?_, ?_⟩
    · rw [← List.concat_eq_append]
      exact hl.concat hv
    · apply Ends.affect
      exact h.keep rfl h.idle
  · exact ⟨l, hl, h⟩

theorem upend_ends (succ : Bool) (s : State) :
    ∃ vs, vs.Nodup ∧ Ends s (upend succ s) vs := by
  unfold upend
  -- what both branches begin with
  have hclose : Ends s { affect .close (call (.close s.lid) (affect .upend (record (.upend succ)
      { s with state := .IDLE, retrytm := none, errpacktm := none }))) with getretries := 0 }
      [.upend, .close] := by
    refine ⟨rfl, rfl, rfl, ⟨rfl, rfl, rfl⟩, ?_⟩
    show (s.effects ++ [_]) ++ [_] = _
    rw [List.append_assoc]
    rfl
  simp only
  split_ifs
  · refine Ends.endind (l := [.upend, .close]) ?_ true (by decide) (by decide)
    have h' := hclose.keep (u := { affect .close (call (.close s.lid) (affect .upend
      (record (.upend succ) { s with state := .IDLE, retrytm := none, errpacktm := none }))) with
        getretries := 0, reconnect := false, retries := 0 }) rfl hclose.idle
    refine h'.keep ?_ (startupdatetimer_idle (startwrite_idle h'.idle))
    rw [startupdatetimer_ledger, startwrite_ledger]
    rfl
  · refine Ends.endind (l := [.upend, .close]) ?_ false (by decide) (by decide)
    have h' := hclose.keep (u := { affect .close (call (.close s.lid) (affect .upend
      (record (.upend succ) { s with state := .IDLE, retrytm := none, errpacktm := none }))) with
        getretries := 0, reconnect := false, retries := 0 }) rfl hclose.idle
    refine h'.keep ?_ (startupdatetimer_idle h'.idle)
    rw [startupdatetimer_ledger]
    rfl
  · refine ⟨[.upend, .close, .retry], by decide, ?_⟩
    apply Ends.affect (l := [.upend, .close])
    exact hclose.keep rfl hclose.idle

theorem Once.free {s t : State} (hi : Once s) (hn : ¬Ended s) (hl : ledger t = ledger s) :
    Once t := hi.keep hl fun h => absurd h hn

theorem Once.upend {s : State} (hi : Once s) (hn : ¬Ended s) (succ : Bool) :
    Once (upend succ s) := by
  obtain ⟨vs, hvs, h⟩ := upend_ends succ s
  constructor
  · rw [h.effects]
    apply hi.nodup.append
    · exact hvs.map fun v w hvw => (Prod.mk.inj hvw).2
    · intro e he hmem
      obtain ⟨v, -, rfl⟩ := List.mem_map.mp hmem
      exact hn (List.mem_map_of_mem (f := Prod.fst) he)
  · rw [h.effects, h.conns]
    intro e he
    rcases List.mem_append.mp he with he | he
    · exact hi.known e he
    · obtain ⟨v, -, rfl⟩ := List.mem_map.mp he
      exact le_rfl
  · intro _
    exact h.idle
  · rw [h.lid, h.links, h.conns]
    exact hi.current

theorem Once.free_upend {s t : State} (hi : Once s) (hn : ¬Ended s) (hl : ledger t = ledger s)
    (succ : Bool) : Once (Agps.upend succ t) :=
  (hi.free hn hl).upend (mt (ended_congr hl).mp hn) succ

/-! ## The functions of a session that has not ended -/

theorem Once.retry {s : State} (hi : Once s) (hn : ¬Ended s) (para : Option Param) :
    Once (retry para s) := by
  unfold Agps.retry
  split
  · exact hi
  rcases para with _ | _ | _
  · simp only
    split_ifs
    · exact hi.free hn rfl
    · exact hi.free hn rfl
    · exact hi.free_upend hn rfl false
  · exact hi.free hn rfl
  · exact hi.free hn rfl

theorem retry_stop_ledger (s : State) : ledger (retry (some .STOP) s) = ledger s := by
  unfold Agps.retry
  split <;> rfl

theorem Once.nextpack {s : State} (hi : Once s) (hn : ¬Ended s) : Once (nextpack s) := by
  unfold Agps.nextpack
  split_ifs
  · exact hi.upend hn false
  · refine hi.free_upend hn ?_ true
    rfl
  · exact hi.free hn rfl

theorem Once.getpack {s : State} (hi : Once s) (hn : ¬Ended s) (data : LuaString) :
    Once (getpack data s) := by
  unfold Agps.getpack
  split
  · exact hi.retry hn _
  split
  · exact hi.retry hn _
  split
  · exact hi.retry hn _
  have hl : ledger { record (.accept s.sender data) (Agps.retry (some .STOP) s) with
      eph := (record (.accept s.sender data) (Agps.retry (some .STOP) s)).eph ++ data.drop 2 } =
      ledger s := retry_stop_ledger s
  exact Once.nextpack (hi.free hn hl) (mt (ended_congr hl).mp hn)

theorem Once.upbegin {s : State} (hi : Once s) (hn : ¬Ended s) (data : LuaString) :
    Once (upbegin data s) := by
  unfold Agps.upbegin
  split
  · exact hi.upend hn false
  simp only
  split
  · exact hi.free hn rfl
  · refine hi.free_upend hn ?_ false
    rfl

theorem Once.rcv {s : State} (hi : Once s) (hn : ¬Ended s) (id : ℕ) (data : LuaString) :
    Once (rcv id data s) := by
  have hi' : Once { s with retrytm := none, sender := s.links id } := hi.free hn rfl
  have hn' : ¬Ended { s with retrytm := none, sender := s.links id } := hn
  unfold Agps.rcv
  simp only
  split
  · exact hi'.upend hn' true
  split
  · split
    · exact hi'.upbegin hn' data
    · exact hi'.upend hn' false
  · split
    · exact hi'.getpack hn' data
    · exact hi'.upend hn' false
  · exact hi'.upend hn' false

/-! ## Runs -/

/-- Datagrams come over the last connection before its end. After the end its link tells
nothing but CLOSE and states that are not CLOSED, and there is no fix then. -/
def Orderly (s : State) : Act → Prop
  | .rcv id _ => s.links id = some s.conns ∧ ¬Ended s
  | .nofity id evt val _ => some id = s.lid → Ended s →
      s.isfix = false ∧ s.gpssupport = true ∧ evt ≠ lua "CONNECT" ∧
        ¬(evt = lua "STATE" ∧ val = lua "CLOSED")
  | _ => True

instance (s : State) (a : Act) : Decidable (Orderly s a) := by
  unfold Orderly
  cases a <;> infer_instance

theorem Once.connectcb {s : State} {id : Option ℕ} (hi : Once s) (hfree : Agps.free id s) :
    Once (connectcb id s) := by
  constructor
  · exact hi.nodup
  · intro e he
    exact Nat.le_succ_of_le (hi.known e he)
  · intro h
    obtain ⟨e, he, heq⟩ := List.mem_map.mp h
    have hle := hi.known e he
    have heq : e.1 = s.conns + 1 := heq
    omega
  · intro i c hlid hlink
    have hlid : id = some i := hlid
    subst hlid
    have hlink : Function.update s.links i (some (s.conns + 1)) i = some c := hlink
    rw [Function.update_self, Option.some.injEq] at hlink
    exact hlink.symm

theorem Once.connect {s : State} {id : Option ℕ} (hi : Once s) (hfree : Agps.free id s) :
    Once (connect id s) := by
  unfold Agps.connect
  split
  · split
    · exact hi.connectcb hfree
    · exact hi.keep rfl hi.idle
  · exact hi

theorem Once.leave {s : State} (hi : Once s) (id : ℕ) (evt : LuaString) :
    Once (leave id evt s) := by
  unfold Agps.leave
  split
  · refine ⟨hi.nodup, hi.known, hi.idle, ?_⟩
    intro i c hlid hlink
    have hlink : Function.update s.links id none i = some c := hlink
    rw [Function.update_apply] at hlink
    split at hlink
    · cases hlink
    · exact hi.current i c hlid hlink
  · exact hi

theorem orderly_leave {s : State} {id : ℕ} {evt val : LuaString} {next : Option ℕ}
    (hd : Orderly s (.nofity id evt val next)) :
    Orderly (leave id evt s) (.nofity id evt val next) := by
  unfold leave
  split <;> exact hd

theorem Once.nofity {s : State} {id : ℕ} {evt val : LuaString} {next : Option ℕ} (hi : Once s)
    (hd : Orderly s (.nofity id evt val next)) (hfree : Agps.free next s) :
    Once (nofity id evt val next s) := by
  unfold Agps.nofity
  split
  · exact hi
  rename_i hlid
  rw [ne_eq, not_not] at hlid
  by_cases he : Ended s
  · obtain ⟨hfix, hgps, hconnect, hclosed⟩ := hd hlid he
    rw [if_neg (by simp [hfix, hgps]), if_neg hconnect]
    split
    · exact hi.connect hfree
    · exact hi
  · split_ifs
    · exact hi.upend he true
    · exact hi.free he rfl
    · exact hi.upend he false
    · exact hi.connect hfree
    · exact hi.upend he false
    · exact hi

@[simp] theorem writecmd_ledger (s : State) : ledger (writecmd s) = ledger s := by
  unfold writecmd
  split <;> rfl

theorem writecmd_idle {s : State} (h : Idle s) : Idle (writecmd s) := by
  unfold writecmd
  split <;> exact h

theorem Once.startupdatetimer {s : State} (hi : Once s) : Once (startupdatetimer s) :=
  hi.keep (startupdatetimer_ledger s) fun h => startupdatetimer_idle (hi.idle h)

theorem Once.gpsstateind {s : State} (hi : Once s) (data : GpsEvt) :
    Once (gpsstateind data s) := by
  have hfix : Once { Agps.startupdatetimer (call (.dispatch .AGPS_UPDATE_SUC) s) with
      isfix := true } := by
    have hi' : Once (call (.dispatch .AGPS_UPDATE_SUC) s) := hi.keep rfl hi.idle
    exact hi'.startupdatetimer.keep rfl hi'.startupdatetimer.idle
  cases data with
  | LOCATION_SUC => exact hfix
  | LOCATION_UNFILTER_SUC => exact hfix
  | LOCATION_FAIL => exact hi.keep rfl hi.idle
  | CLOSE => exact hi.keep rfl hi.idle
  | NO_CHIP => exact hi.keep rfl hi.idle
  | HAS_CHIP => exact hi

theorem Once.setspt {s : State} (hi : Once s) (spt : Bool) : Once (setspt spt s) := by
  have hi' : Once { s with ispt := spt } := hi.keep rfl hi.idle
  unfold Agps.setspt
  split
  · simp only
    split
    · exact hi'.startupdatetimer
    · exact hi'
  · exact hi

theorem Once.step {s t : State} {a : Act} (hi : Once s) (hd : Orderly s a)
    (h : step s a = some t) : Once t := by
  cases a with
  | nofity id evt val next =>
      obtain ⟨⟨-, hfree⟩, ⟨⟩⟩ := Option.ite_none_right_eq_some.mp h
      exact (hi.leave id evt).nofity (orderly_leave hd) hfree
  | rcv id data =>
      obtain ⟨-, ⟨⟩⟩ := Option.ite_none_right_eq_some.mp h
      exact hi.rcv hd.2 id data
  | connecttm id =>
      obtain ⟨⟨-, hfree⟩, ⟨⟩⟩ := Option.ite_none_right_eq_some.mp h
      refine Once.connect ?_ hfree
      exact hi.keep rfl hi.idle
  | retrytm =>
      obtain ⟨htm, ⟨⟩⟩ := Option.ite_none_right_eq_some.mp h
      have hn : ¬Ended s := fun he => htm (hi.idle he).2.1
      have hi' : Once { s with retrytm := none } := hi.free hn rfl
      exact hi'.retry hn none
  | errpacktm =>
      obtain ⟨htm, ⟨⟩⟩ := Option.ite_none_right_eq_some.mp h
      have hn : ¬Ended s := fun he => htm (hi.idle he).2.2
      have hi' : Once { s with errpacktm := none } := hi.free hn rfl
      exact hi'.upend hn false
  | writetm =>
      obtain ⟨-, ⟨⟩⟩ := Option.ite_none_right_eq_some.mp h
      have hi' : Once { s with writetm := none } := hi.keep rfl hi.idle
      exact hi'.keep (writecmd_ledger _) fun he => writecmd_idle (hi'.idle he)
  | gps data =>
      cases h
      exact hi.gpsstateind data
  | connectcb id =>
      obtain ⟨⟨-, hfree⟩, ⟨⟩⟩ := Option.ite_none_right_eq_some.mp h
      exact hi.connectcb hfree
  | init inv md =>
      cases h
      refine Once.startupdatetimer ?_
      exact hi.keep rfl hi.idle
  | setspt spt =>
      cases h
      exact hi.setspt spt

theorem Once.load (poweron : Bool) {id : Option ℕ} : Once (load poweron id initial) := by
  have hi : Once initial := by
    refine ⟨List.nodup_nil, ?_, ?_, ?_⟩
    · intro e he
      cases he
    · intro he
      cases he
    · intro i c h
      cases h
  unfold Agps.load
  split
  · apply hi.connect
    intro i _
    rfl
  · exact hi.startupdatetimer

/-- The link that an action is an event of. -/
def Act.link : Act → Option ℕ
  | .nofity id _ _ _ => some id
  | .rcv id _ => some id
  | _ => none

/-- A state without the bookkeeping about the links. -/
def core (s : State) : State := { s with links := fun _ => none, sender := none }

theorem core_leave (id : ℕ) (evt : LuaString) (s : State) : core (leave id evt s) = core s := by
  unfold leave
  split <;> rfl

/-- An event of a link that is not the last one's. -/
theorem Once.foreign {s t : State} {a : Act} {i c : ℕ} (hi : Once s) (hd : Orderly s a)
    (hlink : a.link = some i) (hc : s.links i = some c) (hlt : c < s.conns)
    (h : Agps.step s a = some t) : core t = core s := by
  cases a with
  | nofity id evt val next =>
      cases hlink
      obtain ⟨-, ⟨⟩⟩ := Option.ite_none_right_eq_some.mp h
      have hne : some i ≠ s.lid := by
        intro hlid
        have heq := hi.current i c hlid.symm hc
        omega
      have hlid : (Agps.leave i evt s).lid = s.lid := by
        unfold Agps.leave
        split <;> rfl
      rw [Agps.nofity, if_pos (hlid ▸ hne), core_leave]
  | rcv id data =>
      cases hlink
      have hlast : s.links i = some s.conns := hd.1
      rw [hc, Option.some.injEq] at hlast
      omega
  | _ => cases hlink

/-- In an orderly run `upend` takes effect at most once for each connection: one END_IND, one
increment of `retries` and one `link.close` at most. And an event of a connection that is not
the last one changes nothing. -/
theorem one_end {poweron : Bool} {id : Option ℕ} {acts : List Act} {s : State}
    (hr : run step (load poweron id initial) acts = some s)
    (hm : Meets step Orderly (load poweron id initial) acts) :
    (∀ c v, s.effects.count (c, v) ≤ 1) ∧
    ∀ (a : Act) (t : State) (i c : ℕ), a.link = some i → s.links i = some c → c < s.conns →
      Orderly s a → step s a = some t → core t = core s := by
  have hi : Once s := guarded_run (fun _ _ _ hi hd ht => hi.step hd ht) (Once.load poweron) hm hr
  constructor
  · intro c v
    exact List.nodup_iff_count_le_one.mp hi.nodup (c, v)
  · intro a t i c hlink hc hlt hd ht
    exact hi.foreign hd hlink hc hlt ht

/-- The first connection fails and is followed by another one before its link is gone. -/
def twice : List Act :=
  [.nofity 0 (lua "CONNECT") (lua "CONNECT OK") none, .init (some 60) (some 1),
    .rcv 0 (lua "ERR"), .connecttm none, .connectcb (some 1),
    .nofity 1 (lua "CONNECT") (lua "CONNECT OK") none, .nofity 0 (lua "CLOSE") [] none,
    .rcv 1 (lua "AGPSUPDATE,1,1,7,7"), .rcv 1 [0, 1, 7], .nofity 1 (lua "CLOSE") [] none]

theorem one_end_twice : ∃ s, run step (load true (some 0) initial) twice = some s ∧
    s.effects = [(1, .upend), (1, .close), (1, .retry), (2, .upend), (2, .close), (2, .endInd)] ∧
    (∀ c v, s.effects.count (c, v) ≤ 1) ∧
    ∀ (a : Act) (t : State) (i c : ℕ), a.link = some i → s.links i = some c → c < s.conns →
      Orderly s a → step s a = some t → core t = core s := by
  have hh : (run step (load true (some 0) initial) twice).map (·.effects) =
      some [(1, .upend), (1, .close), (1, .retry), (2, .upend), (2, .close), (2, .endInd)] := by
    decide +kernel
  obtain ⟨s, hs, heff⟩ := Option.map_eq_some_iff.mp hh
  have hm : Meets step Orderly (load true (some 0) initial) twice := by decide +kernel
  exact ⟨s, hs, heff, one_end hs hm⟩

/-- A fix is gained during the session. The next datagram ends it, and the event CLOSE of
`link.close` ends it once more. -/
theorem ended_twice : ∃ s, run step (load false none initial)
    [.init none (some 1), .connecttm none, .connectcb (some 0),
      .nofity 0 (lua "CONNECT") (lua "CONNECT OK") none, .gps .LOCATION_SUC,
      .rcv 0 (lua "AGPSUPDATE,1,1,7,7"), .nofity 0 (lua "CLOSE") [] none] = some s ∧
    s.effects.count (1, .endInd) = 2 ∧ s.effects.count (1, .close) = 2 := by
  have hh : (run step (load false none initial)
      [.init none (some 1), .connecttm none, .connectcb (some 0),
        .nofity 0 (lua "CONNECT") (lua "CONNECT OK") none, .gps .LOCATION_SUC,
        .rcv 0 (lua "AGPSUPDATE,1,1,7,7"), .nofity 0 (lua "CLOSE") [] none]).map
      (fun s => (s.effects.count (1, .endInd), s.effects.count (1, .close))) = some (2, 2) := by
    decide +kernel
  obtain ⟨s, hs, heq⟩ := Option.map_eq_some_iff.mp hh
  exact ⟨s, hs, (Prod.mk.inj heq).1, (Prod.mk.inj heq).2⟩

end LuatAir200.Agps
