import LuatAir200.NtpModel
import Mathlib.Data.List.Range

/-!
# The synchronisation ends exactly once

Each event that ends an attempt must come while the attempt is still going on: not when the
clock is being set, nor after the end. The clock of the device may not be set by others at the
same time, and a link must be free for each attempt.
-/
namespace LuatAir200.Ntp
open Lua Machine

/-! ## What is claimed -/

def Event.contactOf : Event → Option ℕ
  | .contact idx => some idx
  | _ => none

def Event.upendOf : Event → Option ℕ
  | .upend conn => some conn
  | _ => none

def Event.isEnd : Event → Bool
  | .endInd _ => true
  | _ => false

/-- The connection of this module is being made. -/
def Connecting (s : State) : Prop :=
  ∃ id, s.lid = some id ∧ Links.owner id s.link = some .ntp ∧ Links.Waits id s.link

/-- A connect result, a retry or an answer that leads to `upend` is pending. -/
def Due (s : State) : Prop :=
  s.retrytm = true ∨ Connecting s ∨ s.clks ≠ [] ∧ s.setclkcb = some .ntp

def Over (s : State) : Prop := ∃ e ∈ s.log, e.isEnd = true

structure Ok (s : State) : Prop where
  /-- Each connection is ended at most once. -/
  once : (s.log.filterMap Event.upendOf).Nodup
  /-- The servers are tried in the order of the list. -/
  order : ∃ k, k ≤ tserver.length ∧ s.log.filterMap Event.contactOf = List.range' 1 k
  /-- There is no second `NTP_END_IND`, and no server is contacted after the first. -/
  last : s.log.Pairwise fun e f => e.isEnd = true → f.isEnd = false ∧ f.contactOf = none
  honest : .endInd true ∈ s.log → s.clockset = true
  due : s.loaded = true → ¬Over s → Due s

/-! ## When it holds -/

/-- Neither the clock is being set for this module, nor is all over. -/
def Going (s : State) : Prop := ¬Over s ∧ .ntp ∉ s.clks

/-- There is a link for the next server, if there is one. -/
def Room (s : State) (l : Links.State Client) : Prop :=
  s.tserveridx < tserver.length → (Links.emptylink l).isSome = true

/-- The condition on what `nofity` is told. -/
def Timely (s : State) (l : Links.State Client) (n : Links.Notice Client) : Prop :=
  (n.evt = .connect ∨ n.evt = .state ∧ n.val = lua "CLOSED" → Going s) ∧
  (n.evt = .connect ∧ n.val ≠ lua "CONNECT OK" ∨ n.evt = .state ∧ n.val = lua "CLOSED" → Room s l) ∧
  (n.evt = .state ∧ n.val = lua "SHUTED" → s.lid = some n.id → Going s → s.retrytm = true)

/-- The condition. -/
def Careful (s : State) : Act → Prop
  | .load => (Links.emptylink s.link).isSome = true
  | .link a => ∀ l ∈ Links.step s.link a, ∀ n ∈ told s.link a l, Timely s l n
  | .recv _ data _ => Going s ∧ (data.length = 48 → s.clks = []) ∧ (data.length ≠ 48 → Room s s.link)
  | .expire => REQUEST_RETRY_TIMES ≤ s.retries + 1 → Room s s.link
  | .respond success => s.setclkcb = some .ntp → success = false → Room s s.link
  | .setclock _ _ _ => .ntp ∉ s.clks

instance (s : State) : Decidable (Over s) := inferInstanceAs (Decidable (∃ e ∈ s.log, _))

instance (s : State) : Decidable (Going s) := inferInstanceAs (Decidable (_ ∧ _))

instance (s : State) (l : Links.State Client) : Decidable (Room s l) :=
  inferInstanceAs (Decidable (_ → _))

instance (s : State) (l : Links.State Client) (n : Links.Notice Client) : Decidable (Timely s l n) :=
  inferInstanceAs (Decidable ((_ → _) ∧ (_ → _) ∧ (_ → _ → _ → _)))

instance (s : State) : (a : Act) → Decidable (Careful s a)
  | .load => inferInstanceAs (Decidable (_ = _))
  | .link a => inferInstanceAs (Decidable (∀ l ∈ Links.step s.link a, ∀ n ∈ told s.link a l, _))
  | .recv _ _ _ => inferInstanceAs (Decidable (_ ∧ (_ → _) ∧ (_ → _)))
  | .expire => inferInstanceAs (Decidable (_ → _))
  | .respond _ => inferInstanceAs (Decidable (_ → _ → _))
  | .setclock _ _ _ => inferInstanceAs (Decidable (¬_))

/-! ## The invariant -/

/-- What the log says after `n` connections of which the last is under way. -/
structure History (s : State) (n : ℕ) : Prop where
  conns : s.conns = n
  idx : s.tserveridx = n
  pos : 1 ≤ n
  le : n ≤ tserver.length
  contacts : s.log.filterMap Event.contactOf = List.range' 1 n
  upends : s.log.filterMap Event.upendOf = List.range' 1 (n - 1)
  going : ¬Over s

/-- What holds in every phase. -/
structure Base (s : State) : Prop where
  shape : Links.Shape s.link
  /-- The callback of this module belongs to its own `AT+CCLK`. -/
  slot : s.clks ≠ [] → .ntp ∉ s.clks → s.setclkcb ≠ some .ntp

/-- `upend` has not ended all. -/
structure Active (s : State) : Prop where
  loaded : s.loaded = true
  history : ∃ n, History s n
  clks : .ntp ∉ s.clks
  due : s.retrytm = true ∨ Connecting s

structure Setting (s : State) : Prop where
  loaded : s.loaded = true
  history : ∃ n, History s n
  clks : s.clks = [.ntp]
  slot : s.setclkcb = some .ntp
  retrytm : s.retrytm = false

structure Ended (s : State) : Prop where
  loaded : s.loaded = true
  once : (s.log.filterMap Event.upendOf).Nodup
  order : ∃ k, k ≤ tserver.length ∧ s.log.filterMap Event.contactOf = List.range' 1 k
  clks : .ntp ∉ s.clks
  retrytm : s.retrytm = false
  log : ∃ l b, s.log = l ++ [.endInd b] ∧ (∀ e ∈ l, e.isEnd = false) ∧ (b = true → s.clockset = true)

structure Unloaded (s : State) : Prop where
  loaded : s.loaded = false
  conns : s.conns = 0
  idx : s.tserveridx = 1
  log : s.log = []
  clks : .ntp ∉ s.clks
  retrytm : s.retrytm = false

def Inv (s : State) : Prop := Base s ∧ (Unloaded s ∨ Active s ∨ Setting s ∨ Ended s)

theorem not_over {s : State} : ¬Over s ↔ ∀ e ∈ s.log, e.isEnd = false := by
  simp [Over]

theorem History.ok {s : State} {n : ℕ} (h : History s n) (hd : Due s) : Ok s := by
  have hno := not_over.mp h.going
  refine ⟨?_, ⟨n, h.le, h.contacts⟩, ?_, ?_, fun _ _ => hd⟩
  · rw [h.upends]
    exact List.nodup_range'
  · apply List.pairwise_of_forall_mem_list
    intro e he f _ hend
    rw [hno e he] at hend
    cases hend
  · intro hm
    exact absurd (hno _ hm) (by simp [Event.isEnd])

theorem Inv.ok {s : State} (h : Inv s) : Ok s := by
  obtain ⟨-, h | h | h | h⟩ := h
  · refine ⟨?_, ⟨0, Nat.zero_le _, ?_⟩, ?_, ?_, ?_⟩
    all_goals simp [h.log, h.loaded]
  · obtain ⟨n, hn⟩ := h.history
    obtain hd | hd := h.due
    · exact hn.ok (.inl hd)
    · exact hn.ok (.inr (.inl hd))
  · obtain ⟨n, hn⟩ := h.history
    exact hn.ok (.inr (.inr ⟨by simp [h.clks], h.slot⟩))
  · obtain ⟨l, b, hl, hno, hb⟩ := h.log
    refine ⟨h.once, h.order, ?_, ?_, ?_⟩
    · rw [hl, List.pairwise_append]
      refine ⟨?_, List.pairwise_singleton _ _, ?_⟩
      · apply List.pairwise_of_forall_mem_list
        intro e he f _ hend
        rw [hno e he] at hend
        cases hend
      · intro e he f _ hend
        rw [hno e he] at hend
        cases hend
    · intro hm
      rw [hl] at hm
      obtain hm | hm := List.mem_append.mp hm
      · exact absurd (hno _ hm) (by simp [Event.isEnd])
      · obtain rfl : true = b := by simpa using hm
        exact hb rfl
    · intro _ hover
      exact absurd ⟨_, hl ▸ List.mem_append_right l (List.mem_singleton_self _), rfl⟩ hover

/-! ## The functions -/

theorem emptylink_close (id : ℕ) (l : Links.State Client) :
    Links.emptylink (Links.close id l).1 = Links.emptylink l := by
  unfold Links.close
  split
  · rename_i k _ hk
    unfold Links.emptylink
    congr 1
    funext i
    by_cases hi : i = id
    · subst hi
      simp [Links.setLink, Links.req, hk]
    · simp [Links.setLink, Links.req, hi]
  · rfl

theorem shape_openlink {l : Links.State Client} (h : Links.Shape l) (n : Client) (tag : Bool) :
    Links.Shape (Links.openlink n tag l).1 :=
  Links.step_shape l (.openlink n tag) _ h rfl

theorem shape_connect {l : Links.State Client} (h : Links.Shape l) (id : ℕ)
    (prot addr port : LuaString) : Links.Shape (Links.connect id prot addr port l).1 :=
  Links.step_shape l (.connect id prot addr port) _ h rfl

theorem shape_close {l : Links.State Client} (h : Links.Shape l) (id : ℕ) :
    Links.Shape (Links.close id l).1 := Links.step_shape l (.close id) _ h rfl

theorem shape_send {l : Links.State Client} (h : Links.Shape l) (id : ℕ) (data : LuaString) :
    Links.Shape (Links.send id data l).1 := Links.step_shape l (.send id data) _ h rfl

section Functions

variable {s : State} {n : ℕ}

/-- `connect` with a free link begins the next attempt. -/
theorem connect_active (hb : Base s) (hl : s.loaded = true) (hclks : .ntp ∉ s.clks)
    (hroom : (Links.emptylink s.link).isSome = true) (hconns : s.conns + 1 = n)
    (hidx : s.tserveridx = n) (hle : n ≤ tserver.length)
    (hc : s.log.filterMap Event.contactOf = List.range' 1 (n - 1))
    (hu : s.log.filterMap Event.upendOf = List.range' 1 (n - 1)) (hgo : ¬Over s) :
    Base (connect s) ∧ Active (connect s) := by
  obtain ⟨k, hk⟩ := Option.isSome_iff_exists.mp hroom
  obtain ⟨m, rfl⟩ : ∃ m, n = m + 1 := ⟨s.conns, hconns.symm⟩
  have hopen : (Links.openlink .ntp true s.link).2 = some k := by
    simp only [Links.openlink, hk]
  have hs : connect s = { s with
      link := (Links.connect k (lua "UDP") (tserver.getD (s.tserveridx - 1) []) (lua "123")
        (Links.openlink .ntp true s.link).1).1
      lid := some k, conns := s.conns + 1, log := s.log ++ [.contact s.tserveridx] } := by
    simp [connect, hopen, linkConnect, record]
  rw [hs]
  refine ⟨⟨shape_connect (shape_openlink hb.shape _ _) _ _ _ _, hb.slot⟩, hl, ⟨m + 1, ?_⟩, hclks,
    .inr ⟨k, rfl, ?_, ?_⟩⟩
  · refine ⟨hconns, hidx, Nat.succ_le_succ (Nat.zero_le m), hle, ?_, ?_, ?_⟩
    · rw [List.filterMap_append, hc, hidx]
      simp [Event.contactOf, List.range'_concat, Nat.add_comm]
    · rw [List.filterMap_append, hu]
      simp [Event.upendOf]
    · rw [not_over] at hgo ⊢
      intro e he
      obtain he | he := List.mem_append.mp he
      · exact hgo e he
      · obtain rfl := List.mem_singleton.mp he
        rfl
  · rw [Links.owner_connect, Links.owner_openlink hk, if_pos rfl]
  · exact Links.connect_waits (Links.openlink_connects hk _ _ _ _ _)

/-- After the old link has been closed. -/
def closed (s : State) (l : Links.State Client) : State :=
  { s with link := l, retrytm := false, retries := 0, log := s.log ++ [Event.upend s.conns] }

theorem upend_eq (suc : Bool) (s : State) : ∃ l,
    (upend suc s = if suc ∨ tserver.length ≤ s.tserveridx then record (.endInd suc) (closed s l)
      else connect { closed s l with tserveridx := s.tserveridx + 1 }) ∧
    Links.emptylink l = Links.emptylink s.link ∧ (Links.Shape s.link → Links.Shape l) := by
  cases h : s.lid with
  | none =>
      refine ⟨s.link, ?_, rfl, fun h => h⟩
      simp [upend, linkClose, record, closed, h]
  | some id =>
      refine ⟨(Links.close id s.link).1, ?_, emptylink_close id s.link, fun h => shape_close h id⟩
      simp [upend, linkClose, record, closed, h]

/-- `upend` ends all or begins the next attempt. -/
theorem upend_ends (hb : Base s) (hl : s.loaded = true) (h : History s n) (hclks : .ntp ∉ s.clks)
    {b : Bool} (hsuc : b = true → s.clockset = true)
    (hroom : b = false → Room s s.link) :
    Base (upend b s) ∧ (Active (upend b s) ∨ Ended (upend b s)) := by
  obtain ⟨l, hs, he, hsh⟩ := upend_eq b s
  have hups : (closed s l).log.filterMap Event.upendOf = List.range' 1 n := by
    obtain ⟨m, rfl⟩ : ∃ m, n = m + 1 := ⟨n - 1, (Nat.sub_add_cancel h.pos).symm⟩
    rw [closed, List.filterMap_append, h.upends, h.conns]
    simp [Event.upendOf, List.range'_concat, Nat.add_comm]
  have hcons : (closed s l).log.filterMap Event.contactOf = List.range' 1 n := by
    rw [closed, List.filterMap_append, h.contacts]
    simp [Event.contactOf]
  have hgo : ∀ e ∈ (closed s l).log, e.isEnd = false := by
    intro e hm
    obtain hm | hm := List.mem_append.mp hm
    · exact not_over.mp h.going e hm
    · obtain rfl := List.mem_singleton.mp hm
      rfl
  have hbase : Base (closed s l) := ⟨hsh hb.shape, hb.slot⟩
  by_cases hend : b = true ∨ tserver.length ≤ s.tserveridx
  · rw [hs, if_pos hend]
    refine ⟨⟨hbase.shape, hbase.slot⟩, .inr ⟨hl, ?_, ⟨n, h.le, ?_⟩, hclks, rfl, ?_⟩⟩
    · rw [record, List.filterMap_append, hups]
      show (List.range' 1 n ++ []).Nodup
      rw [List.append_nil]
      exact List.nodup_range'
    · rw [record, List.filterMap_append, hcons]
      simp [Event.contactOf]
    · exact ⟨_, b, rfl, hgo, hsuc⟩
  · obtain ⟨hnot, hlt⟩ := not_or.mp hend
    rw [Nat.not_le] at hlt
    have hfree : (Links.emptylink l).isSome = true := by
      rw [he]
      exact hroom (by simpa using hnot) hlt
    have hidx := h.idx
    rw [hs, if_neg hend]
    obtain ⟨h1, h2⟩ := connect_active (n := n + 1)
      (s := { closed s l with tserveridx := s.tserveridx + 1 })
      ⟨hbase.shape, hbase.slot⟩ hl hclks hfree (congrArg (· + 1) h.conns)
      (congrArg (· + 1) h.idx) (by omega) hcons hups (not_over.mpr hgo)
    exact ⟨h1, .inl h2⟩

/-- Only the log matters. -/
theorem History.congr {t : State} (h : History s n) (hc : t.conns = s.conns)
    (hi : t.tserveridx = s.tserveridx) (hl : t.log = s.log) : History t n := by
  refine ⟨hc.trans h.conns, hi.trans h.idx, h.pos, h.le, ?_, ?_, ?_⟩
  · rw [hl, h.contacts]
  · rw [hl, h.upends]
  · rw [Over, hl]
    exact h.going

/-- `NTP_BEGIN_IND` does not count. -/
theorem History.begins (h : History s n) : History (record .beginInd s) n := by
  refine ⟨h.conns, h.idx, h.pos, h.le, ?_, ?_, ?_⟩
  · simp [record, Event.contactOf, h.contacts]
  · simp [record, Event.upendOf, h.upends]
  · have hgo := not_over.mp h.going
    rw [not_over]
    intro e hm
    obtain hm | hm := List.mem_append.mp hm
    · exact hgo e hm
    · obtain rfl := List.mem_singleton.mp hm
      rfl

theorem request_active (hb : Base s) (hl : s.loaded = true) (h : History s n)
    (hclks : .ntp ∉ s.clks) : Base (request s) ∧ Active (request s) := by
  have hs : ∃ l, request s = { s with link := l, retrytm := true } ∧ Links.Shape l := by
    cases h : s.lid with
    | none =>
        refine ⟨s.link, ?_, hb.shape⟩
        simp [request, linkSend, h]
    | some id =>
        refine ⟨_, ?_, shape_send hb.shape id requestdata⟩
        simp [request, linkSend, h]
  obtain ⟨l, hs, hshape⟩ := hs
  rw [hs]
  exact ⟨⟨hshape, hb.slot⟩, hl, ⟨n, h.congr rfl rfl rfl⟩, hclks, .inl rfl⟩

theorem retry_active (hb : Base s) (hl : s.loaded = true) (h : History s n) (hclks : .ntp ∉ s.clks)
    (hroom : REQUEST_RETRY_TIMES ≤ s.retries + 1 → Room s s.link) :
    Base (retry s) ∧ (Active (retry s) ∨ Ended (retry s)) := by
  unfold retry
  dsimp only
  split
  · obtain ⟨h1, h2⟩ := request_active (s := { s with retrytm := false, retries := s.retries + 1 })
      ⟨hb.shape, hb.slot⟩ hl (h.congr rfl rfl rfl) hclks
    exact ⟨h1, .inl h2⟩
  · rename_i hlt
    refine upend_ends (n := n) ⟨hb.shape, hb.slot⟩ hl (h.congr rfl rfl rfl) hclks ?_ ?_
    · intro hf
      cases hf
    · exact fun _ => hroom (Nat.not_lt.mp hlt)

/-- What `nofity` does with a timely event. -/
theorem nofity_ends (hb : Base s) (hl : s.loaded = true) (hn : History s n) (hclks : .ntp ∉ s.clks)
    {evt : Links.Evt} {val : LuaString}
    (hroom : evt = .connect ∧ val ≠ lua "CONNECT OK" ∨ evt = .state ∧ val = lua "CLOSED" →
      Room s s.link)
    (hact : evt = .connect ∨ evt = .state ∧ val = lua "CLOSED") :
    Base (nofity evt val s) ∧ (Active (nofity evt val s) ∨ Ended (nofity evt val s)) := by
  have hfalse : false = true → s.clockset = true := by
    intro hf
    cases hf
  obtain rfl | ⟨rfl, rfl⟩ := hact
  · by_cases hok : val = lua "CONNECT OK"
    · have hs : nofity .connect val s = request (record .beginInd s) := if_pos hok
      rw [hs]
      obtain ⟨h1, h2⟩ := request_active (s := record .beginInd s) ⟨hb.shape, hb.slot⟩ hl
        hn.begins hclks
      exact ⟨h1, .inl h2⟩
    · have hs : nofity .connect val s = upend false (record .beginInd s) := if_neg hok
      rw [hs]
      exact upend_ends (s := record .beginInd s) ⟨hb.shape, hb.slot⟩ hl hn.begins hclks
        hfalse fun _ => hroom (.inl ⟨rfl, hok⟩)
  · have hs : nofity .state (lua "CLOSED") s = upend false s := by simp [nofity]
    rw [hs]
    exact upend_ends hb hl hn hclks hfalse fun _ => hroom (.inr ⟨rfl, rfl⟩)

theorem nofity_other {evt : Links.Evt} {val : LuaString}
    (hact : ¬(evt = .connect ∨ evt = .state ∧ val = lua "CLOSED")) : nofity evt val s = s := by
  cases evt with
  | connect => exact absurd (.inl rfl) hact
  | state => exact if_neg fun h => hact (.inr ⟨rfl, h⟩)
  | send | disconnect | close => rfl

/-- A datagram while the attempt goes on: the clock is set, or the server has failed. -/
theorem recv_sets (hb : Base s) (ha : Active s) {data : LuaString} {year : ℤ}
    (hy : year ≤ 2038) (hclks : data.length = 48 → s.clks = [])
    (hroom : data.length ≠ 48 → Room s s.link) :
    Inv (recv data year s) := by
  obtain ⟨n, hn⟩ := ha.history
  by_cases hlen : data.length = 48
  · have hs : recv data year s =
        { s with retrytm := false, setclkcb := some .ntp, clks := s.clks ++ [.ntp] } := by
      have hyear : ¬year - 2000 > 38 := by omega
      simp only [recv, hlen, setclock, if_neg hyear]
      rfl
    rw [hs]
    refine ⟨⟨hb.shape, ?_⟩, .inr (.inr (.inl ⟨ha.loaded, ⟨n, hn.congr rfl rfl rfl⟩, ?_, rfl, rfl⟩))⟩
    · intro _ hno
      simp at hno
    · rw [hclks hlen]
      rfl
  · have hs : recv data year s = upend false { s with retrytm := false } := if_pos hlen
    rw [hs]
    obtain ⟨h1, h2⟩ := upend_ends (s := { s with retrytm := false }) (b := false)
      ⟨hb.shape, hb.slot⟩ ha.loaded (hn.congr rfl rfl rfl) ha.clks
      (fun hf => by cases hf) fun _ => hroom hlen
    obtain h2 | h2 := h2
    · exact ⟨h1, .inr (.inl h2)⟩
    · exact ⟨h1, .inr (.inr (.inr h2))⟩

end Functions

/-! ## Steps -/

section Steps

variable {s t : State}

theorem Inv.active (h : Inv s) (hl : s.loaded = true) (hg : Going s) : Active s := by
  obtain ⟨-, h | h | h | h⟩ := h
  · exact absurd (h.loaded.symm.trans hl) Bool.false_ne_true
  · exact h
  · have := hg.2
    rw [h.clks] at this
    simp at this
  · obtain ⟨l, b, hlog, -⟩ := h.log
    exact absurd ⟨_, hlog ▸ List.mem_append_right l (List.mem_singleton_self _), rfl⟩ hg.1

/-- The connection of this module goes on being made, unless `nofity` is told. -/
theorem link_connecting (hsh : Links.Shape s.link) (hc : Connecting s) {a : Links.Act Client}
    (hf : foreign s a = true) {l : Links.State Client} (h : Links.step s.link a = some l) :
    Connecting { s with link := l } ∨ ∃ n, told s.link a l = some n ∧ s.lid = some n.id ∧
      (n.evt = .connect ∨ n.evt = .state ∧ n.val = lua "SHUTED") := by
  obtain ⟨id, hid, how, hw⟩ := hc
  have hown : Links.owner id l = some .ntp := by
    obtain he | ⟨ho, hn⟩ | ⟨-, k, hk, hst, -⟩ := Links.step_owner hsh h id
    · exact he.trans how
    · rw [Links.owner, hn] at how
      cases how
    · obtain ⟨m, hm, hms⟩ := hw
      obtain rfl : k = m := Option.some.inj (hk.symm.trans hm)
      rw [hms] at hst
      cases hst
  obtain hw' | rfl | rfl | ⟨ha, m, evt, val, rest, hm, hfr, hev⟩ := Links.step_waits hsh hw h
  · exact .inl ⟨id, hid, hown, hw'⟩
  · simp [foreign, how] at hf
  · simp [foreign, how] at hf
  · right
    have hm' : m.notify = .ntp := by
      rw [Links.owner, hm] at how
      exact Option.some.inj how
    refine ⟨⟨m.notify, id, evt, val⟩, ?_, hid, hev.imp_right And.left⟩
    have hcond : s.link.frame.isNone = true ∨ isRet a = true := by
      obtain rfl | hn := ha
      · exact .inr rfl
      · exact .inl (by simp [hn])
    rw [told, if_pos hcond]
    simp [hfr, hm']

/-- A step of `link.lua`, with the call of `nofity` that it may bring. -/
theorem link_inv (h : Inv s) (hload : s.loaded = true) {a : Links.Act Client}
    (hf : foreign s a = true) {l : Links.State Client} (hl : Links.step s.link a = some l)
    (hg : ∀ n, told s.link a l = some n → Timely s l n) : Inv (deliver a l s) := by
  have hsh : Links.Shape l := Links.step_shape s.link a l h.1.shape hl
  have hb : Base { s with link := l } := ⟨hsh, h.1.slot⟩
  by_cases hact : ∃ n, told s.link a l = some n ∧
      (n.evt = .connect ∨ n.evt = .state ∧ n.val = lua "CLOSED")
  · obtain ⟨m, htold, hact⟩ := hact
    obtain ⟨hgo, hroom, -⟩ := hg m htold
    have ha := h.active hload (hgo hact)
    obtain ⟨n, hn⟩ := ha.history
    have hd : deliver a l s = nofity m.evt m.val { s with link := l } := by
      simp only [deliver, htold]
    rw [hd]
    obtain ⟨h1, h2 | h2⟩ := nofity_ends (s := { s with link := l }) hb ha.loaded
      (hn.congr rfl rfl rfl) ha.clks hroom hact
    · exact ⟨h1, .inr (.inl h2)⟩
    · exact ⟨h1, .inr (.inr (.inr h2))⟩
  · -- nothing that counts is told
    have hd : deliver a l s = { s with link := l } := by
      unfold deliver
      split
      · rename_i n htold
        exact nofity_other fun hc => hact ⟨n, htold, hc⟩
      · rfl
    rw [hd]
    refine ⟨hb, ?_⟩
    have hsh' := h.1.shape
    obtain ⟨-, h | h | h | h⟩ := h
    · exact absurd (h.loaded.symm.trans hload) Bool.false_ne_true
    · refine .inr (.inl ⟨h.loaded, ?_, h.clks, ?_⟩)
      · obtain ⟨n, hn⟩ := h.history
        exact ⟨n, hn.congr rfl rfl rfl⟩
      · obtain hd | hd := h.due
        · exact .inl hd
        · obtain hc | ⟨n, htold, hid, hev | hev⟩ := link_connecting hsh' hd hf hl
          · exact .inr hc
          · exact absurd ⟨n, htold, .inl hev⟩ hact
          · obtain ⟨m, hm⟩ := h.history
            exact .inl ((hg n htold).2.2 hev hid ⟨hm.going, h.clks⟩)
    · obtain ⟨n, hn⟩ := h.history
      exact .inr (.inr (.inl ⟨h.loaded, ⟨n, hn.congr rfl rfl rfl⟩, h.clks, h.slot, h.retrytm⟩))
    · exact .inr (.inr (.inr ⟨h.loaded, h.once, h.order, h.clks, h.retrytm, h.log⟩))

/-- Others may set the clock when it is not being set for this module. -/
theorem setclock_inv (h : Inv s) (hno : .ntp ∉ s.clks) (year : ℤ) (k : ℕ) (cb : Bool) :
    Inv (setclock year (.other k) cb s) := by
  unfold setclock
  split
  · exact h
  have hclks : .ntp ∉ s.clks ++ [.other k] := by
    intro hm
    obtain hm | hm := List.mem_append.mp hm
    · exact hno hm
    · simp at hm
  obtain ⟨hb, h⟩ := h
  refine ⟨⟨hb.shape, ?_⟩, ?_⟩
  · intro _ _
    cases cb <;> simp
  · obtain h | h | h | h := h
    · exact .inl ⟨h.loaded, h.conns, h.idx, h.log, hclks, h.retrytm⟩
    · obtain ⟨n, hn⟩ := h.history
      exact .inr (.inl ⟨h.loaded, ⟨n, hn.congr rfl rfl rfl⟩, hclks, h.due⟩)
    · rw [h.clks] at hno
      simp at hno
    · exact .inr (.inr (.inr ⟨h.loaded, h.once, h.order, hclks, h.retrytm, h.log⟩))

/-- The oldest `AT+CCLK` is answered. -/
theorem respond_inv (h : Inv s) {who : Client} {clks : List Client} (hc : s.clks = who :: clks)
    {success : Bool} (hroom : s.setclkcb = some .ntp → success = false → Room s s.link) :
    Inv (rsp who success { s with clks := clks }) := by
  obtain ⟨hb, h⟩ := h
  by_cases hno : .ntp ∈ s.clks
  · -- this module's own, and there is no other
    have hs : Setting s := by
      obtain h | h | h | h := h
      · exact absurd hno h.clks
      · exact absurd hno h.clks
      · exact h
      · exact absurd hno h.clks
    obtain ⟨n, hn⟩ := hs.history
    obtain ⟨rfl, rfl⟩ : who = .ntp ∧ clks = [] := by simpa [hs.clks, eq_comm] using hc
    have hr : rsp .ntp success { s with clks := [] } =
        upend success { s with clks := [], clockset := s.clockset || success } := by
      simp [rsp, hs.slot]
    rw [hr]
    obtain ⟨h1, h2 | h2⟩ := upend_ends
      (s := { s with clks := [], clockset := s.clockset || success }) (b := success)
      ⟨hb.shape, fun hne => absurd rfl hne⟩ hs.loaded (hn.congr rfl rfl rfl) (by simp)
      (fun hsuc => by simp [hsuc]) (hroom hs.slot)
    · exact ⟨h1, .inr (.inl h2)⟩
    · exact ⟨h1, .inr (.inr (.inr h2))⟩
  · -- another module's: the callback is not the one of this module
    have hslot : s.setclkcb ≠ some .ntp := hb.slot (by simp [hc]) hno
    have hwho : who ≠ .ntp := fun he => hno (by simp [hc, he])
    have hclks : .ntp ∉ clks := fun hm => hno (by simp [hc, hm])
    have hr : rsp who success { s with clks := clks } = { s with clks := clks } := by
      simp [rsp, hslot, hwho]
    rw [hr]
    refine ⟨⟨hb.shape, fun _ _ => hslot⟩, ?_⟩
    obtain h | h | h | h := h
    · exact .inl ⟨h.loaded, h.conns, h.idx, h.log, hclks, h.retrytm⟩
    · obtain ⟨n, hn⟩ := h.history
      exact .inr (.inl ⟨h.loaded, ⟨n, hn.congr rfl rfl rfl⟩, hclks, h.due⟩)
    · rw [h.clks] at hno
      simp at hno
    · exact .inr (.inr (.inr ⟨h.loaded, h.once, h.order, hclks, h.retrytm, h.log⟩))

theorem step_inv (h : Inv s) {a : Act} (hg : Careful s a) (hst : step s a = some t) : Inv t := by
  cases a with
  | load =>
      simp only [step] at hst
      split at hst
      · cases hst
      rename_i hload
      obtain rfl := Option.some.inj hst
      obtain ⟨hb, h | h | h | h⟩ := h
      · obtain ⟨h1, h2⟩ := connect_active (s := { s with loaded := true }) (n := 1)
          ⟨hb.shape, hb.slot⟩ rfl h.clks hg (by simp [h.conns]) h.idx (by decide)
          (by simp [h.log]) (by simp [h.log]) (by simp [Over, h.log])
        exact ⟨h1, .inr (.inl h2)⟩
      · exact absurd h.loaded hload
      · exact absurd h.loaded hload
      · exact absurd h.loaded hload
  | link a =>
      simp only [step] at hst
      split at hst
      · rename_i hf
        obtain ⟨l, hl, rfl⟩ := Option.map_eq_some_iff.mp hst
        cases hload : s.loaded with
        | true => exact link_inv h hload hf hl fun n hn => hg l hl n hn
        | false =>
            rw [if_neg Bool.false_ne_true]
            obtain ⟨hb, h | h | h | h⟩ := h
            · exact ⟨⟨Links.step_shape _ _ _ hb.shape hl, hb.slot⟩,
                .inl ⟨rfl, h.conns, h.idx, h.log, h.clks, h.retrytm⟩⟩
            all_goals exact absurd (hload.symm.trans h.loaded) Bool.false_ne_true
      · cases hst
  | recv id data year =>
      simp only [step] at hst
      split at hst
      · rename_i hc
        obtain rfl := Option.some.inj hst
        have hy : year ≤ 2038 := by
          have := hc.2.2.2
          simp only [isYear, decide_eq_true_eq] at this
          exact this (seconds_lt data)
        exact recv_sets h.1 (h.active hc.1 hg.1) hy hg.2.1 hg.2.2
      · cases hst
  | expire =>
      simp only [step] at hst
      split at hst
      · rename_i htm
        obtain rfl := Option.some.inj hst
        obtain ⟨hb, h | h | h | h⟩ := h
        · exact absurd (h.retrytm.symm.trans htm) Bool.false_ne_true
        · obtain ⟨n, hn⟩ := h.history
          obtain ⟨h1, h2 | h2⟩ := retry_active (s := { s with retrytm := false })
            ⟨hb.shape, hb.slot⟩ h.loaded (hn.congr rfl rfl rfl) h.clks hg
          · exact ⟨h1, .inr (.inl h2)⟩
          · exact ⟨h1, .inr (.inr (.inr h2))⟩
        · exact absurd (h.retrytm.symm.trans htm) Bool.false_ne_true
        · exact absurd (h.retrytm.symm.trans htm) Bool.false_ne_true
      · cases hst
  | respond success =>
      simp only [step] at hst
      split at hst
      · cases hst
      · rename_i who clks hc
        obtain rfl := Option.some.inj hst
        exact respond_inv h hc hg
  | setclock k year cb =>
      obtain rfl := Option.some.inj hst
      exact setclock_inv h hg year k cb

end Steps

/-! ## Runs -/

end LuatAir200.Ntp
