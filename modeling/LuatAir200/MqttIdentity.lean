import LuatAir200.MqttKept
import Mathlib.Data.List.InsertIdx
import Mathlib.Data.List.Nodup

/-!
# Who owns the socket of an MQTT client

A client takes its socket index from the number of clients that exist. All events and all
received data are mapped to clients by this index.
-/
namespace LuatAir200.MqttClients
open Lua Machine Mqtt

variable {conv : Conv}

/-- The socket indexes of the clients in `tclients`. -/
def ids (s : State) : List ℕ := s.tclients.map fun r => (s.objs r).sckidx

theorem Same.ids {s t : State} (h : Same s t) : ids t = ids s := by
  rw [MqttClients.ids, h.tclients]
  exact List.map_congr_left fun r _ => h.sckidx r

/-! ## One step -/

/-- What a step does to the clients. -/
inductive Shift (s : State) (a : Act) (t : State) : Prop
  | same (h : Same s t)
  /-- The client that calls `connect` takes the place of the one with its index. -/
  | replaced (k r : ℕ) (hk : getclient (s.objs r).sckidx s = some k) (hr : r < s.count)
      (ht : t.tclients = s.tclients.set k r) (hc : t.count = s.count)
      (hi : ∀ i, (t.objs i).sckidx = (s.objs i).sckidx)
  | created (prot host port : LuaString) (ver : Option LuaString)
      (ha : a = .create prot host port ver) (hl : s.tclients.length < 2)
      (ht : t.tclients = s.tclients ++ [s.count]) (hc : t.count = s.count + 1)
      (hi : (t.objs s.count).sckidx = Sockets.SCK_MAX_CNT - s.tclients.length)
      (ho : ∀ i < s.count, t.objs i = s.objs i)
  | removed (k : ℕ) (ht : t.tclients = s.tclients.eraseIdx k) (hc : t.count = s.count)
      (hi : ∀ i, (t.objs i).sckidx = (s.objs i).sckidx)

theorem create_shift {s t : State} {prot host port : LuaString} {ver : Option LuaString}
    (h : create prot host port ver s = some t) :
    s.tclients.length < 2 ∧ t.tclients = s.tclients ++ [s.count] ∧ t.count = s.count + 1 ∧
      (t.objs s.count).sckidx = Sockets.SCK_MAX_CNT - s.tclients.length ∧
      ∀ i < s.count, t.objs i = s.objs i := by
  unfold create at h
  split at h
  · cases h
  · rename_i hl
    rw [not_le] at hl
    cases h
    refine ⟨hl, rfl, rfl, ?_, fun i hi => ?_⟩
    · simp [newClient]
    · simp [Nat.ne_of_lt hi]

theorem step_shift {s t : State} {a : Act} (h : step conv s a = some t) : Shift s a t := by
  cases same_kept.of_step h with
  | kept hs => exact .same hs
  | created prot host port ver ha hc =>
      obtain ⟨hl, ht, hn, hi, ho⟩ := create_shift hc
      exact .created prot host port ver ha hl ht hn hi ho
  | replaced k r v hr hs hv hk ht =>
      refine .replaced k r ?_ hr ?_ (ht.count.trans hs.count) fun i => ?_
      · rwa [hs.sckidx, hs.getclient] at hk
      · rw [ht.tclients, ← hs.tclients]
      · exact (ht.sckidx i).trans (hs.sckidx i)
  | served b u ha hu ht =>
      have quiet : Same s { s with sock := u } := ⟨rfl, rfl, fun _ => rfl⟩
      obtain hs | ⟨idx, k, -, -, hs⟩ := same_kept.of_serve ht
      · exact .same (quiet.trans hs)
      · exact .removed k hs.tclients hs.count hs.sckidx

/-! ## The tables -/

/-- The clients in `tclients` have been created, and use the last two socket indexes. -/
structure Tabled (s : State) : Prop where
  exist : ∀ r ∈ s.tclients, r < s.count
  few : s.tclients.length ≤ 2
  index : ∀ i ∈ ids s, i + 1 = Sockets.SCK_MAX_CNT ∨ i = Sockets.SCK_MAX_CNT

theorem boot_tabled : Tabled boot := ⟨nofun, Nat.zero_le 2, nofun⟩

theorem getclient_ids (sckidx : ℕ) (s : State) :
    getclient sckidx s = (ids s).findIdx? (· = sckidx) := by
  rw [ids, List.findIdx?_map]
  rfl

/-- What `getclient` finds has the index. -/
theorem getclient_sckidx {sckidx k : ℕ} {s : State} (h : getclient sckidx s = some k) :
    ∃ r, s.tclients[k]? = some r ∧ (s.objs r).sckidx = sckidx := by
  obtain ⟨hk, hp, -⟩ := List.findIdx?_eq_some_iff_getElem.mp h
  exact ⟨s.tclients[k], List.getElem?_eq_getElem hk, by simpa using hp⟩

theorem client_sckidx {sckidx r : ℕ} {s : State} (h : client sckidx s = some r) :
    r ∈ s.tclients ∧ (s.objs r).sckidx = sckidx := by
  obtain ⟨k, hk, hr⟩ := Option.bind_eq_some_iff.mp h
  obtain ⟨q, hq, he⟩ := getclient_sckidx hk
  rw [hr] at hq
  cases hq
  exact ⟨List.mem_of_getElem? hr, he⟩

theorem ids_set {s t : State} {k r : ℕ} (hk : getclient (s.objs r).sckidx s = some k)
    (ht : t.tclients = s.tclients.set k r) (hi : ∀ i, (t.objs i).sckidx = (s.objs i).sckidx) :
    ids t = ids s := by
  obtain ⟨q, hq, he⟩ := getclient_sckidx hk
  have hmap : ids t = (ids s).set k (s.objs r).sckidx := by
    rw [ids, ids, ht, ← List.map_set]
    exact List.map_congr_left fun i _ => hi i
  have hget : (ids s)[k]? = some (s.objs r).sckidx := by
    rw [ids, List.getElem?_map, hq, Option.map_some, he]
  obtain ⟨hlt, hval⟩ := List.getElem?_eq_some_iff.mp hget
  rw [hmap, ← hval, List.set_getElem_self]

/-- The client that takes a place is the one that its index finds. -/
theorem replaced_client {k r : ℕ} {s : State}
    (hk : getclient (s.objs r).sckidx s = some k) :
    client (s.objs r).sckidx { s with tclients := s.tclients.set k r } = some r := by
  have hids : ids { s with tclients := s.tclients.set k r } = ids s :=
    ids_set hk rfl (by exact fun _ => rfl)
  have hk' : getclient (s.objs r).sckidx { s with tclients := s.tclients.set k r } = some k := by
    rw [getclient_ids, hids, ← getclient_ids, hk]
  obtain ⟨q, hq, -⟩ := getclient_sckidx hk
  rw [client, hk', Option.bind_some, List.getElem?_set_self (List.getElem?_eq_some_iff.mp hq).1]

/-- A client that takes a place does not change which one has another index. -/
theorem set_client {j k r : ℕ} {s : State} (hk : getclient (s.objs r).sckidx s = some k)
    (hj : (s.objs r).sckidx ≠ j) :
    client j { s with tclients := s.tclients.set k r } = client j s := by
  have hids : ids { s with tclients := s.tclients.set k r } = ids s :=
    ids_set hk rfl (by exact fun _ => rfl)
  rw [client, getclient_ids, hids, ← getclient_ids, client]
  cases hm : getclient j s with
  | none => rfl
  | some m =>
      obtain ⟨q, hq, he⟩ := getclient_sckidx hk
      obtain ⟨p, hp, hpj⟩ := getclient_sckidx hm
      have hne : k ≠ m := by
        rintro rfl
        rw [hq] at hp
        cases hp
        exact hj (he.symm.trans hpj)
      simp only [Option.bind_some, List.getElem?_set_ne hne]

theorem client_find (i : ℕ) (s : State) :
    client i s = s.tclients.find? fun r => (s.objs r).sckidx = i :=
  List.find?_eq_bind_findIdx?_getElem?.symm

/-- Taking out the first client with an index does not change which one has another. -/
theorem eraseIdx_client {i j k : ℕ} {s : State} (hk : getclient i s = some k) (hij : i ≠ j) :
    client j { s with tclients := s.tclients.eraseIdx k } = client j s := by
  obtain ⟨q, hq, he⟩ := getclient_sckidx hk
  obtain ⟨hlt, hget⟩ := List.getElem?_eq_some_iff.mp hq
  have hsplit : s.tclients = s.tclients.take k ++ q :: s.tclients.drop (k + 1) := by
    rw [← hget, List.getElem_cons_drop, List.take_append_drop]
  rw [client_find, client_find, List.eraseIdx_eq_take_drop_succ]
  conv_rhs => rw [hsplit]
  rw [List.find?_append, List.find?_append, List.find?_cons_of_neg (by simp [he, hij])]

theorem ids_append {s t : State} {n : ℕ} (hs : Tabled s) (ht : t.tclients = s.tclients ++ [s.count])
    (hi : (t.objs s.count).sckidx = n) (ho : ∀ i < s.count, t.objs i = s.objs i) :
    ids t = ids s ++ [n] := by
  rw [ids, ids, ht, List.map_append, List.map_singleton, hi]
  congr 1
  exact List.map_congr_left fun r hr => by rw [ho r (hs.exist r hr)]

theorem ids_eraseIdx {s t : State} {k : ℕ} (ht : t.tclients = s.tclients.eraseIdx k)
    (hi : ∀ i, (t.objs i).sckidx = (s.objs i).sckidx) : ids t = (ids s).eraseIdx k := by
  rw [ids, ids, ht, List.eraseIdx_map]
  exact List.map_congr_left fun r _ => hi r

theorem Same.tabled {s t : State} (h : Same s t) (hs : Tabled s) : Tabled t :=
  ⟨by rw [h.tclients, h.count]; exact hs.exist, h.tclients ▸ hs.few, h.ids ▸ hs.index⟩

theorem step_tabled (s : State) (a : Act) (t : State) (hs : Tabled s)
    (h : step conv s a = some t) : Tabled t := by
  cases step_shift h with
  | same hsame => exact hsame.tabled hs
  | replaced k r hk hr ht hc hi =>
      refine ⟨fun q hq => ?_, by rw [ht, List.length_set]; exact hs.few, ids_set hk ht hi ▸ hs.index⟩
      rw [ht] at hq
      rw [hc]
      obtain hq | rfl := List.mem_or_eq_of_mem_set hq
      · exact hs.exist q hq
      · exact hr
  | created prot host port ver ha hl ht hc hi ho =>
      refine ⟨fun q hq => ?_, by rw [ht, List.length_append]; exact hl, fun i hmem => ?_⟩
      · rw [ht] at hq
        rw [hc]
        obtain hq | hq := List.mem_append.mp hq
        · exact Nat.lt_succ_of_lt (hs.exist q hq)
        · rw [List.mem_singleton.mp hq]
          exact Nat.lt_succ_self s.count
      · rw [ids_append hs ht hi ho] at hmem
        obtain hmem | hmem := List.mem_append.mp hmem
        · exact hs.index i hmem
        · rw [List.mem_singleton.mp hmem]
          simp only [Sockets.SCK_MAX_CNT]
          omega
  | removed k ht hc hi =>
      refine ⟨fun q hq => ?_, ?_, fun i hmem => ?_⟩
      · rw [ht] at hq
        exact hc ▸ hs.exist q (List.mem_of_mem_eraseIdx hq)
      · rw [ht]
        exact (List.length_eraseIdx_le s.tclients k).trans hs.few
      · rw [ids_eraseIdx ht hi] at hmem
        exact hs.index i (List.mem_of_mem_eraseIdx hmem)

theorem step_count {s t : State} {a : Act} (h : step conv s a = some t) : s.count ≤ t.count := by
  cases step_shift h with
  | same hs => exact hs.count.ge
  | replaced k r hk hr ht hc hi => exact hc.ge
  | created prot host port ver ha hl ht hc hi ho => omega
  | removed k ht hc hi => exact hc.ge

/-! ## Identity -/

/-- The clients have different sockets in the range of the indexes, and `getclient` finds
each of them. -/
structure Identified (s : State) : Prop where
  range : ∀ r ∈ s.tclients, 1 ≤ (s.objs r).sckidx ∧ (s.objs r).sckidx ≤ Sockets.SCK_MAX_CNT
  distinct : (ids s).Nodup
  owner : ∀ r ∈ s.tclients, client (s.objs r).sckidx s = some r

/-- `getclient` finds every client when the indexes are all different. -/
theorem client_owner {s : State} (h : (ids s).Nodup) {r : ℕ} (hr : r ∈ s.tclients) :
    client (s.objs r).sckidx s = some r := by
  cases hg : getclient (s.objs r).sckidx s with
  | none =>
      have hno := List.findIdx?_eq_none_iff.mp hg r hr
      simp at hno
  | some k =>
      obtain ⟨q, hq, he⟩ := getclient_sckidx hg
      have hmem : q ∈ s.tclients := List.mem_of_getElem? hq
      rw [client, hg, Option.bind_some, hq, List.inj_on_of_nodup_map h hmem hr he]

theorem identified_iff {s : State} (hs : Tabled s) : Identified s ↔ (ids s).Nodup := by
  refine ⟨Identified.distinct, fun h => ⟨fun r hr => ?_, h, fun r => client_owner h⟩⟩
  have hi := hs.index (s.objs r).sckidx (List.mem_map_of_mem hr)
  simp only [Sockets.SCK_MAX_CNT] at hi ⊢
  omega

/-- A client is created only when the others leave the index that it will get: there is
none, or one that was created when there was none. -/
def FirstIndex (s : State) : Act → Prop
  | .create _ _ _ _ => ∀ r ∈ s.tclients, (s.objs r).sckidx = Sockets.SCK_MAX_CNT
  | _ => True

theorem created_nodup {s t : State} (hs : Tabled s) (hn : (ids s).Nodup)
    (hl : s.tclients.length < 2)
    (hi : ids t = ids s ++ [Sockets.SCK_MAX_CNT - s.tclients.length]) :
    (ids t).Nodup ↔ ∀ r ∈ s.tclients, (s.objs r).sckidx = Sockets.SCK_MAX_CNT := by
  have hidx (r : ℕ) (hr : r ∈ s.tclients) := hs.index (s.objs r).sckidx (List.mem_map_of_mem hr)
  have hlen (r : ℕ) (hr : r ∈ s.tclients) : s.tclients.length = 1 := by
    have := List.length_pos_of_mem hr
    omega
  rw [hi, List.nodup_append]
  constructor
  · rintro ⟨-, -, hd⟩ r hr
    have hne := hd (s.objs r).sckidx (List.mem_map_of_mem hr) _ (List.mem_singleton_self _)
    have := hlen r hr
    have := hidx r hr
    simp only [Sockets.SCK_MAX_CNT] at *
    omega
  · intro h
    refine ⟨hn, List.nodup_singleton _, fun i hmem j hj => ?_⟩
    obtain ⟨r, hr, rfl⟩ := List.mem_map.mp hmem
    have := hlen r hr
    rw [h r hr, List.mem_singleton.mp hj]
    simp only [Sockets.SCK_MAX_CNT]
    omega

/-- Without a creation the clients stay as they are, or become fewer. -/
theorem Shift.nodup {s t : State} {a : Act} (h : Shift s a t) (hs : (ids s).Nodup)
    (ha : ∀ prot host port ver, a ≠ .create prot host port ver) : (ids t).Nodup := by
  cases h with
  | same hsame => exact hsame.ids ▸ hs
  | replaced k r hk hr ht hc hi => exact ids_set hk ht hi ▸ hs
  | created prot host port ver he => exact absurd he (ha prot host port ver)
  | removed k ht hc hi => exact ids_eraseIdx ht hi ▸ hs.eraseIdx k

theorem step_identified (s : State) (a : Act) (t : State) (hs : Tabled s) (hp : Identified s)
    (h : step conv s a = some t) : Identified t ↔ FirstIndex s a := by
  rw [identified_iff (step_tabled s a t hs h)]
  have hn := hp.distinct
  cases a with
  | create prot host port ver =>
      obtain ⟨hl, ht, -, hi, ho⟩ := create_shift h
      exact created_nodup hs hn hl (ids_append hs ht hi ho)
  | _ => exact iff_of_true ((step_shift h).nodup hn (by simp)) trivial

/-- The clients have different sockets, and every event and all data of a socket find its
client, along exactly those runs in which a client is created when there is none, or when
the only one has the last index. -/
theorem identified_iff_created (as : List Act) :
    Along (step conv) Identified boot as ↔ Meets (step conv) FirstIndex boot as := by
  refine along_iff_meets (I := Tabled) step_tabled step_identified boot_tabled ?_ as
  exact ⟨nofun, List.nodup_nil, nofun⟩

/-- The answer to a command. -/
def answer (response : LuaString) : List Act :=
  [.sock (.link .sendat), .sock (.link (.respond true response none))]

/-- Of two clients the older one is destroyed, and a third one is created. -/
def recreate : List Act :=
  let new := .create (lua "TCP") (lua "a.b") (lua "1883") none
  [new, new, .connect 0 none none none none ⟨false, false, false⟩, .destroy 0 false,
    .sock (.link .sendat), .sock (.link (.respond true [] none)), .ret, new]

theorem recreate_collides : ∃ s : State,
    run (step ⟨id, id⟩) boot recreate = some s ∧ ids s = [4, 4] ∧ ¬Identified s := by
  have h : (run (step ⟨id, id⟩) boot recreate).map ids = some [4, 4] := by decide +kernel
  obtain ⟨s, hr, hs⟩ := Option.map_eq_some_iff.mp h
  refine ⟨s, hr, hs, fun hi => ?_⟩
  have hn := hi.distinct
  rw [hs] at hn
  simp at hn

end LuatAir200.MqttClients
