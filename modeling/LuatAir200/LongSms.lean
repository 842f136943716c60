import LuatAir200.LuaString
import LuatAir200.Machine
import LuatAir200.SparseTable

/-!
# Long messages

How `sms.lua` puts the parts of a long message together. A part is stored in
`tlongsms` at its own index, and everything else is decided by the length of that
table. Each action carries the length operator that is in force while it runs: a
table with holes may have another length the next time.
-/
namespace LuatAir200.LongSms
open Lua Sparse Sparse.Table Machine

/-- The arguments of the message `LONG_SMS_MERGE`. -/
structure Merge where
  num : LuaString
  data : LuaString
  datetime : LuaString
  name : LuaString
  total : ℕ
  idx : ℕ
  isn : ℕ
deriving DecidableEq

/-- An item of `tlongsms`. -/
structure Item where
  dat : LuaString
  udhi : LuaString
  num : LuaString
  t : LuaString
  nam : LuaString
deriving DecidableEq

/-- The arguments of `LONG_SMS_MERGR_CNF`. -/
structure Cnf where
  result : Bool
  num : Option LuaString
  data : LuaString
  t : Option LuaString
  alpha : Option LuaString
deriving DecidableEq

structure State where
  tlongsms : Table Item
  /-- The timer of `mergelongsms`, with its duration. -/
  timer : Option ℕ
  /-- The confirmations that have been dispatched, and the parts that have come. -/
  log : List Cnf
  hist : List Merge

def boot : State := ⟨empty, none, [], []⟩

/-- `total .. isn`. -/
def Merge.udhi (m : Merge) : LuaString := lua (toString m.total) ++ lua (toString m.isn)

def Merge.item (m : Merge) : Item := ⟨m.data, m.udhi, m.num, m.datetime, m.name⟩

/-- The items that a loop from 1 to `n` visits. -/
def items (n : ℕ) (t : Table Item) : List Item := (List.range' 1 n).filterMap t.get

def mergelongsms (b : Border Item) (s : State) : State :=
  let n := b.getn s.tlongsms
  let its := (items n s.tlongsms).filter fun x => x.dat ≠ []
  let last := its.getLast?
  { s with
    tlongsms := removes b n s.tlongsms
    log := s.log ++ [⟨true, last.map Item.num, its.flatMap Item.dat, last.map Item.t,
      last.map Item.nam⟩] }

/-- The `udhi` of the first item that has one. -/
def oldudhi (n : ℕ) (t : Table Item) : LuaString :=
  (((items n t).find? fun x => x.udhi ≠ []).map Item.udhi).getD []

def insert (m : Merge) (s : State) : State :=
  { s with tlongsms := s.tlongsms.set m.idx (some m.item) }

/-- Everything before the test for completeness. -/
def store (b : Border Item) (m : Merge) (s : State) : State :=
  if b.getn s.tlongsms = 0 then insert m s
  else if oldudhi (b.getn s.tlongsms) s.tlongsms = m.udhi then insert m s
  else insert m (mergelongsms b { s with timer := none })

/-- The test for completeness. -/
def complete (b : Border Item) (m : Merge) (s : State) : State :=
  if m.total = b.getn s.tlongsms then mergelongsms b { s with timer := none }
  else { s with timer := some 120000 }

def longsmsind (b : Border Item) (m : Merge) (s : State) : State :=
  complete b m (store b m { s with hist := s.hist ++ [m] })

inductive Act
  | merge (b : Border Item) (m : Merge)
  | timeout (b : Border Item)

def step (s : State) : Act → Option State
  | .merge b m => some (longsmsind b m s)
  | .timeout b => s.timer.map fun _ => mergelongsms b { s with timer := none }

/-! ## Merging a table without holes -/

/-- A part under its index. -/
def Merge.entry (m : Merge) : ℕ × Item := (m.idx, m.item)

/-- The text of some parts. -/
def text (g : List (ℕ × Item)) : LuaString := g.flatMap fun p => p.2.dat

/-- The keys of a table are 1 to the number of its entries. -/
def Contiguous (t : Table Item) : Prop := t.Dense t.entries.length

instance (t : Table Item) : Decidable (Contiguous t) :=
  inferInstanceAs (Decidable (t.Dense _))

theorem flatMap_filter_dat (l : List Item) :
    (l.filter fun x => x.dat ≠ []).flatMap Item.dat = l.flatMap Item.dat := by
  induction l with
  | nil => rfl
  | cons x l ih =>
      by_cases hx : x.dat = []
      · rw [List.filter_cons_of_neg (by simp [hx]), List.flatMap_cons, hx, ih, List.nil_append]
      · rw [List.filter_cons_of_pos (by simp [hx]), List.flatMap_cons, List.flatMap_cons, ih]

theorem items_dense {t : Table Item} {k : ℕ} (h : t.Dense k) :
    items k t = t.entries.map Prod.snd := by
  rw [h.entries_eq, List.map_filterMap, items]
  apply List.filterMap_congr
  intro i _
  cases t.get i <;> rfl

/-- All items of a table without holes are merged, and the table is emptied. -/
theorem mergelongsms_dense (b : Border Item) {s : State} {k : ℕ} (h : s.tlongsms.Dense k) :
    (∃ c, (mergelongsms b s).log = s.log ++ [c] ∧ c.data = text s.tlongsms.entries) ∧
      (mergelongsms b s).tlongsms.entries = [] ∧ (mergelongsms b s).hist = s.hist ∧
      (mergelongsms b s).timer = s.timer := by
  have hb : b.getn s.tlongsms = k := h.border (b.border s.tlongsms)
  refine ⟨⟨_, rfl, ?_⟩, ?_, rfl, rfl⟩
  · show List.flatMap Item.dat (List.filter _ (items (b.getn s.tlongsms) s.tlongsms)) = _
    rw [flatMap_filter_dat, hb, items_dense h, text, List.flatMap_map]
  · show (removes b (b.getn s.tlongsms) s.tlongsms).entries = []
    rw [hb]
    exact removes_dense b k s.tlongsms h

/-! ## One part -/

/-- The parts in the table belong to the message of `m`. -/
def Fits (m : Merge) (t : Table Item) : Prop := ∀ p ∈ t.entries, p.2.udhi = m.udhi

instance (m : Merge) (t : Table Item) : Decidable (Fits m t) :=
  inferInstanceAs (Decidable (∀ p ∈ t.entries, p.2.udhi = m.udhi))

theorem udhi_ne_nil (m : Merge) : m.udhi ≠ [] := by
  intro h
  obtain ⟨ht, -⟩ := List.append_eq_nil_iff.mp h
  have hr : (toString m.total).toList = [] := List.map_eq_nil_iff.mp ht
  rw [show toString m.total = m.total.repr from rfl, Nat.toList_repr] at hr
  exact Nat.toDigits_ne_nil hr

theorem mem_items {n : ℕ} {t : Table Item} {x : Item} (h : x ∈ items n t) :
    ∃ i, (i, x) ∈ t.entries := by
  obtain ⟨i, hi, hx⟩ := List.mem_filterMap.mp h
  exact ⟨i, mem_entries.mpr ⟨(List.mem_range'_1.mp hi).1, hx⟩⟩

/-- The loop finds the message that the items belong to. -/
theorem oldudhi_eq (b : Border Item) {t : Table Item} {u : LuaString} (hu : u ≠ [])
    (h : ∀ p ∈ t.entries, p.2.udhi = u) (hn : b.getn t ≠ 0) : oldudhi (b.getn t) t = u := by
  obtain ⟨hb, -⟩ := b.border t
  obtain ⟨x, hx⟩ := Option.isSome_iff_exists.mp (hb.resolve_left hn)
  have hi : x ∈ items (b.getn t) t :=
    List.mem_filterMap.mpr ⟨b.getn t, List.mem_range'_1.mpr (by omega), hx⟩
  have hall : ∀ y ∈ items (b.getn t) t, y.udhi = u := by
    intro y hy
    obtain ⟨i, hm⟩ := mem_items hy
    exact h _ hm
  cases hf : (items (b.getn t) t).find? fun x => x.udhi ≠ [] with
  | none =>
      have hne := List.find?_eq_none.mp hf x hi
      rw [hall x hi] at hne
      exact absurd hu (by simpa using hne)
  | some y =>
      rw [oldudhi, hf]
      exact hall y (List.mem_of_find?_eq_some hf)

/-- A part of the message in the table is put beside the others. -/
theorem store_fits (b : Border Item) {m : Merge} {s : State} (h : Fits m s.tlongsms) :
    store b m s = insert m s := by
  rw [store]
  split
  · rfl
  · rename_i hn
    rw [if_pos (oldudhi_eq b (udhi_ne_nil m) h hn)]

/-- A part of another message first closes the one in the table. -/
theorem store_other (b : Border Item) {m : Merge} {s : State} {u : LuaString} {k : ℕ}
    (hu : u ≠ []) (hs : ∀ p ∈ s.tlongsms.entries, p.2.udhi = u) (hne : u ≠ m.udhi)
    (hd : s.tlongsms.Dense k) (hk : k ≠ 0) :
    store b m s = insert m (mergelongsms b { s with timer := none }) := by
  have hb : b.getn s.tlongsms = k := hd.border (b.border s.tlongsms)
  have hn : b.getn s.tlongsms ≠ 0 := by rw [hb]; exact hk
  rw [store, if_neg hn, oldudhi_eq b hu hs hn, if_neg hne]

/-- While the last part is missing, the length is not the number of parts. -/
theorem getn_ne_total (b : Border Item) {t : Table Item} {n : ℕ} (hn : n ≠ 0)
    (h : t.get n = none) : n ≠ b.getn t := by
  intro he
  obtain ⟨hb, -⟩ := b.border t
  have hs := hb.resolve_left (he ▸ hn)
  rw [← he, h] at hs
  cases hs

theorem dense_insert {t : Table Item} {k : ℕ} (h : t.Dense k) (x : Item) :
    (t.set (k + 1) (some x)).Dense (k + 1) := by
  intro i hi
  by_cases hk : i = k + 1
  · subst hk
    rw [get_set_self]
    simp
  · rw [get_set_of_ne hk, h i hi]
    omega

/-- May `m` be stored in a table of its own message `t`? Its index is free, and the part
with the highest index comes after all the others. -/
def InTurn (m : Merge) (t : Table Item) : Prop :=
  t.get m.idx = none ∧ if m.idx = m.total then t.Dense (m.total - 1) else t.get m.total = none

instance (m : Merge) (t : Table Item) : Decidable (InTurn m t) := by
  unfold InTurn
  infer_instance

/-- What the test for completeness finds when a part comes in its turn. -/
theorem complete_cases (b : Border Item) {m : Merge} {s : State} (hi : 1 ≤ m.idx)
    (ht : m.idx ≤ m.total) (h : InTurn m s.tlongsms) :
    (m.idx ≠ m.total ∧ m.total ≠ b.getn (insert m s).tlongsms) ∨
      (m.idx = m.total ∧ m.total = b.getn (insert m s).tlongsms ∧
        (insert m s).tlongsms.Dense m.total) := by
  obtain ⟨-, hl⟩ := h
  by_cases he : m.idx = m.total
  · rw [if_pos he] at hl
    have hd : (insert m s).tlongsms.Dense m.total := by
      have hset := dense_insert hl m.item
      rw [show m.total - 1 + 1 = m.idx by omega] at hset
      rw [← he]
      exact hset
    exact .inr ⟨he, (hd.border (b.border _)).symm, hd⟩
  · rw [if_neg he] at hl
    refine .inl ⟨he, getn_ne_total b (by omega) ?_⟩
    show (s.tlongsms.set m.idx _).get m.total = none
    rw [get_set_of_ne (Ne.symm he)]
    exact hl

/-! ## Accounts of a run -/

/-- Parts of one message in the order of their indices. -/
structure Whole (g : List (ℕ × Item)) : Prop where
  nonempty : g ≠ []
  sorted : g.Pairwise fun p q => p.1 < q.1
  same : ∀ p ∈ g, ∀ q ∈ g, p.2.udhi = q.2.udhi

/-- Every confirmation has the text of parts of one message, and every part that has come
is in one confirmation or still in the table. -/
def Accounted (s : State) : Prop :=
  ∃ groups : List (List (ℕ × Item)), s.log.map Cnf.data = groups.map text ∧
    (∀ g ∈ groups, Whole g) ∧ (groups.flatten ++ s.tlongsms.entries).Perm (s.hist.map Merge.entry)

/-- The table holds one message, and while the timer runs it is not empty. -/
structure Tidy (s : State) : Prop where
  same : ∀ p ∈ s.tlongsms.entries, ∀ q ∈ s.tlongsms.entries, p.2.udhi = q.2.udhi
  named : ∀ p ∈ s.tlongsms.entries, p.2.udhi ≠ []
  armed : s.timer.isSome → s.tlongsms.entries ≠ []
  accounted : Accounted s

/-- The parts of a message come once, and the one with the highest index last; a message
that is interrupted, by another one or by the timer, has no holes. -/
def Orderly (s : State) : Act → Prop
  | .merge _ m =>
      if Fits m s.tlongsms then InTurn m s.tlongsms
      else Contiguous s.tlongsms ∧ InTurn m empty
  | .timeout _ => Contiguous s.tlongsms

instance (s : State) : (a : Act) → Decidable (Orderly s a)
  | .merge _ m => by
      unfold Orderly
      infer_instance
  | .timeout _ => inferInstanceAs (Decidable (Contiguous s.tlongsms))

/-- A part of a long message. -/
structure Merge.Valid (m : Merge) : Prop where
  two_le : 2 ≤ m.total
  one_le : 1 ≤ m.idx
  le_total : m.idx ≤ m.total
  nonempty : m.data ≠ []

def Act.Valid : Act → Prop
  | .merge _ m => m.Valid
  | .timeout _ => True

theorem tidy_boot : Tidy boot where
  same := by rintro p ⟨⟩
  named := by rintro p ⟨⟩
  armed := by rintro ⟨⟩
  accounted := ⟨[], rfl, by rintro g ⟨⟩, List.Perm.nil⟩

/-- Closing a table without holes adds one group. -/
theorem tidy_merge (b : Border Item) {s : State} {k : ℕ} (h : Tidy s) (hd : s.tlongsms.Dense k)
    (hne : s.tlongsms.entries ≠ []) : Tidy (mergelongsms b { s with timer := none }) := by
  obtain ⟨⟨c, hlog, hc⟩, hent, hhist, htm⟩ :=
    mergelongsms_dense b (s := { s with timer := none }) hd
  obtain ⟨groups, hmap, hw, hp⟩ := h.accounted
  refine ⟨?_, ?_, ?_, groups ++ [s.tlongsms.entries], ?_, ?_, ?_⟩
  · rw [hent]
    rintro p ⟨⟩
  · rw [hent]
    rintro p ⟨⟩
  · rw [htm]
    rintro ⟨⟩
  · rw [hlog, List.map_append, List.map_append, hmap]
    exact congrArg _ (congrArg (fun d => [d]) hc)
  · intro g hg
    obtain hg | hg := List.mem_append.mp hg
    · exact hw g hg
    · rw [List.mem_singleton.mp hg]
      exact ⟨hne, entries_sorted _, h.same⟩
  · rw [hent, hhist, List.append_nil, List.flatten_append, List.flatten_singleton]
    exact hp

/-- Storing a part in its turn adds it to the table. -/
theorem tidy_insert {m : Merge} {s : State} (tm : Option ℕ) (h : Tidy s) (hm : Fits m s.tlongsms)
    (hi : 1 ≤ m.idx) (hfree : s.tlongsms.get m.idx = none) :
    Tidy { insert m s with hist := s.hist ++ [m], timer := tm } := by
  have hperm : (insert m s).tlongsms.entries.Perm (m.entry :: s.tlongsms.entries) :=
    entries_set hi hfree m.item
  have hall : ∀ p ∈ (insert m s).tlongsms.entries, p.2.udhi = m.udhi := by
    intro p hp
    obtain rfl | hp := List.mem_cons.mp (hperm.mem_iff.mp hp)
    · rfl
    · exact hm p hp
  obtain ⟨groups, hmap, hw, hp⟩ := h.accounted
  refine ⟨?_, ?_, ?_, groups, hmap, hw, ?_⟩
  · intro p hp q hq
    rw [hall p hp, hall q hq]
  · intro p hp
    rw [hall p hp]
    exact udhi_ne_nil m
  · intro _ hnil
    have hx := hperm.mem_iff.mpr List.mem_cons_self
    rw [show (insert m s).tlongsms.entries = [] from hnil] at hx
    cases hx
  · show (groups.flatten ++ (insert m s).tlongsms.entries).Perm ((s.hist ++ [m]).map Merge.entry)
    rw [List.map_append, List.map_singleton]
    have hmid := (hperm.append_left groups.flatten).trans List.perm_middle
    exact (hmid.trans (hp.cons m.entry)).trans (List.perm_append_singleton _ _).symm

/-- A part that comes in its turn is kept, or completes its message. -/
theorem tidy_complete (b : Border Item) {m : Merge} {s : State} (h : Tidy s) (hv : m.Valid)
    (hm : Fits m s.tlongsms) (ht : InTurn m s.tlongsms) :
    Tidy (complete b m (insert m { s with hist := s.hist ++ [m] })) := by
  have hins (tm : Option ℕ) := tidy_insert tm h hm hv.one_le ht.1
  obtain ⟨-, hb⟩ | ⟨-, hb, hd⟩ :=
    complete_cases b (s := { s with hist := s.hist ++ [m] }) hv.one_le hv.le_total ht
  · rw [complete, if_neg hb]
    exact hins (some 120000)
  · rw [complete, if_pos hb]
    apply tidy_merge b (hins s.timer) hd
    intro hnil
    have hmem : m.entry ∈ (insert m s).tlongsms.entries :=
      (entries_set hv.one_le ht.1 m.item).mem_iff.mpr List.mem_cons_self
    rw [hnil] at hmem
    cases hmem

theorem inTurn_of_empty {m : Merge} {t : Table Item} (hv : m.Valid) (h : InTurn m empty)
    (ht : t.entries = []) : InTurn m t := by
  obtain ⟨-, hl⟩ := h
  have hne : m.idx ≠ m.total := by
    intro he
    rw [if_pos he] at hl
    have h1 := (hl 1 (Nat.le_refl 1)).mpr (by have := hv.two_le; omega)
    cases h1
  refine ⟨entries_eq_nil.mp ht m.idx hv.one_le, ?_⟩
  rw [if_neg hne]
  exact entries_eq_nil.mp ht m.total (by have := hv.two_le; omega)

theorem tidy_step (s : State) (a : Act) (t : State) (hv : a.Valid) (h : Tidy s)
    (ho : Orderly s a) (ht : step s a = some t) : Tidy t := by
  cases a with
  | timeout b =>
      obtain ⟨tm, htm, rfl⟩ := Option.map_eq_some_iff.mp ht
      exact tidy_merge b h ho (h.armed (by rw [htm]; rfl))
  | merge b m =>
      cases ht
      rw [longsmsind]
      by_cases hm : Fits m s.tlongsms
      · have hin : InTurn m s.tlongsms := by
          rw [Orderly, if_pos hm] at ho
          exact ho
        rw [store_fits b (s := { s with hist := s.hist ++ [m] }) hm]
        exact tidy_complete b h hv hm hin
      · rw [Orderly, if_neg hm] at ho
        obtain ⟨hd, he⟩ := ho
        -- some part of another message is in the table, so all its parts are of that message
        obtain ⟨p, hp, hne⟩ : ∃ p ∈ s.tlongsms.entries, p.2.udhi ≠ m.udhi := by
          simpa only [Fits, not_forall, exists_prop] using hm
        have hlen : s.tlongsms.entries.length ≠ 0 := by
          intro h0
          rw [List.eq_nil_of_length_eq_zero h0] at hp
          cases hp
        have hmerged := tidy_merge b h hd (List.ne_nil_of_mem hp)
        obtain ⟨-, hent, -, -⟩ := mergelongsms_dense b (s := { s with timer := none }) hd
        rw [store_other b (s := { s with hist := s.hist ++ [m] }) (h.named p hp)
          (fun q hq => h.same q hq p hp) hne hd hlen]
        apply tidy_complete b hmerged hv
        · intro q hq
          rw [hent] at hq
          cases hq
        · exact inTurn_of_empty hv he hent

/-! ## One message -/

/-- A long message with its parts in order. -/
structure Long where
  parts : List Merge
  isn : ℕ
  two_le : 2 ≤ parts.length
  part : ∀ (i : ℕ) (h : i < parts.length), parts[i].idx = i + 1 ∧
    parts[i].total = parts.length ∧ parts[i].isn = isn ∧ parts[i].data ≠ []

def Long.text (L : Long) : LuaString := L.parts.flatMap Merge.data

/-- The arrivals of some parts, each with the length operator then in force. -/
def arrive (as : List (Border Item × Merge)) : List Act := as.map fun a => .merge a.1 a.2

/-- One confirmation with the whole text when the last part arrives, none before, and
nothing is left. -/
def Reassembled (L : Long) (as : List (Border Item × Merge)) : Prop :=
  (∃ s, run step boot (arrive as) = some s ∧ s.log.map Cnf.data = [L.text] ∧
    s.tlongsms.entries = []) ∧
  ∀ bs, bs <+: as → bs ≠ as → ∃ t, run step boot (arrive bs) = some t ∧ t.log = []

theorem Long.mem {L : Long} {m : Merge} (h : m ∈ L.parts) :
    m.Valid ∧ m.total = L.parts.length ∧ m.isn = L.isn := by
  obtain ⟨i, hi, rfl⟩ := List.mem_iff_getElem.mp h
  obtain ⟨hx, ht, hs, hd⟩ := L.part i hi
  exact ⟨⟨by rw [ht]; exact L.two_le, by omega, by omega, hd⟩, ht, hs⟩

theorem Long.udhi_eq {L : Long} {m n : Merge} (hm : m ∈ L.parts) (hn : n ∈ L.parts) :
    m.udhi = n.udhi := by
  obtain ⟨-, ht, hs⟩ := Long.mem hm
  obtain ⟨-, ht', hs'⟩ := Long.mem hn
  rw [Merge.udhi, Merge.udhi, ht, ht', hs, hs']

theorem Long.sorted (L : Long) : L.parts.Pairwise fun m n => m.idx < n.idx := by
  rw [List.pairwise_iff_getElem]
  intro i j hi hj hij
  rw [(L.part i hi).1, (L.part j hj).1]
  omega

/-- The part with a given index. -/
theorem Long.idx_mem (L : Long) (i : ℕ) :
    (∃ m ∈ L.parts, m.idx = i) ↔ 1 ≤ i ∧ i ≤ L.parts.length := by
  constructor
  · rintro ⟨m, hm, rfl⟩
    obtain ⟨hv, ht, -⟩ := Long.mem hm
    exact ⟨hv.one_le, ht ▸ hv.le_total⟩
  · rintro ⟨h1, h2⟩
    exact ⟨L.parts[i - 1], List.getElem_mem _, by rw [(L.part (i - 1) (by omega)).1]; omega⟩

theorem Long.getLast (L : Long) {z : Merge} (h : L.parts.getLast? = some z) :
    z ∈ L.parts ∧ z.idx = L.parts.length := by
  rw [List.getLast?_eq_getElem?] at h
  obtain ⟨hlt, rfl⟩ := List.getElem?_eq_some_iff.mp h
  exact ⟨List.getElem_mem _, by rw [(L.part _ hlt).1]; have := L.two_le; omega⟩

/-- The parts `done` have come and wait in the table. -/
structure Gathered (done : List Merge) (s : State) : Prop where
  log : s.log = []
  entries : s.tlongsms.entries.Perm (done.map Merge.entry)

theorem Gathered.mem {done : List Merge} {s : State} (h : Gathered done s) {i : ℕ} :
    (s.tlongsms.get i).isSome ∧ 1 ≤ i ↔ 1 ≤ i ∧ ∃ x ∈ done, x.idx = i := by
  rw [and_comm]
  apply and_congr_right
  intro hi
  constructor
  · intro hs
    obtain ⟨x, hx⟩ := Option.isSome_iff_exists.mp hs
    obtain ⟨y, hy, he⟩ := List.mem_map.mp (h.entries.mem_iff.mp (mem_entries.mpr ⟨hi, hx⟩))
    exact ⟨y, hy, congrArg Prod.fst he⟩
  · rintro ⟨y, hy, rfl⟩
    have hm := h.entries.mem_iff.mpr (List.mem_map_of_mem (f := Merge.entry) hy)
    rw [(mem_entries.mp hm).2]
    rfl

/-- What has come of a message and what is to come have different indices. -/
theorem idx_ne {L : Long} {done rest : List Merge} {m : Merge}
    (hp : (done ++ m :: rest).Perm L.parts) : ∀ x ∈ done, x.idx ≠ m.idx := by
  have hnd : ((done ++ m :: rest).map Merge.idx).Nodup := by
    rw [(hp.map Merge.idx).nodup_iff]
    exact (List.pairwise_map.mpr L.sorted).imp fun h => Nat.ne_of_lt h
  rw [List.map_append, List.nodup_append] at hnd
  intro x hx
  exact hnd.2.2 x.idx (List.mem_map_of_mem hx) m.idx
    (List.mem_map_of_mem List.mem_cons_self)

theorem Gathered.fits {L : Long} {done rest : List Merge} {m : Merge} {s : State}
    (h : Gathered done s) (hp : (done ++ m :: rest).Perm L.parts) : Fits m s.tlongsms := by
  intro p hm
  obtain ⟨y, hy, rfl⟩ := List.mem_map.mp (h.entries.mem_iff.mp hm)
  exact Long.udhi_eq (hp.mem_iff.mp (List.mem_append_left _ hy))
    (hp.mem_iff.mp (List.mem_append_right _ List.mem_cons_self))

theorem Gathered.get_eq_none {done : List Merge} {s : State} (h : Gathered done s) {i : ℕ}
    (hi : 1 ≤ i) (hn : ∀ x ∈ done, x.idx ≠ i) : s.tlongsms.get i = none := by
  by_contra hs
  obtain ⟨-, x, hx, he⟩ := h.mem.mp ⟨Option.isSome_iff_ne_none.mpr hs, hi⟩
  exact hn x hx he

/-- A part that is not the last one waits in the table. -/
theorem gathered_step {L : Long} (b : Border Item) {done rest : List Merge} {m : Merge}
    {s : State} (h : Gathered done s) (hp : (done ++ m :: rest).Perm L.parts)
    (hn : ∀ x ∈ done ++ [m], x.idx ≠ L.parts.length) :
    Gathered (done ++ [m]) (longsmsind b m s) := by
  obtain ⟨hv, ht, -⟩ := Long.mem (hp.mem_iff.mp (List.mem_append_right _ List.mem_cons_self))
  have hfree := h.get_eq_none hv.one_le (idx_ne hp)
  have hne : m.idx ≠ m.total := by
    rw [ht]
    exact hn m (List.mem_append_right _ (List.mem_singleton_self m))
  have hin : InTurn m s.tlongsms := by
    refine ⟨hfree, ?_⟩
    rw [if_neg hne]
    apply h.get_eq_none (by have := hv.two_le; omega)
    intro x hx
    rw [ht]
    exact hn x (List.mem_append_left _ hx)
  obtain ⟨-, hb⟩ | ⟨he, -, -⟩ :=
    complete_cases b (s := { s with hist := s.hist ++ [m] }) hv.one_le hv.le_total hin
  · rw [longsmsind, store_fits b (s := { s with hist := s.hist ++ [m] }) (h.fits hp), complete,
      if_neg hb]
    refine ⟨h.log, (entries_set hv.one_le hfree m.item).trans ?_⟩
    rw [List.map_append, List.map_singleton]
    exact (h.entries.cons m.entry).trans (List.perm_append_singleton _ _).symm
  · exact absurd he hne

/-- As long as the last part is missing, every part waits. -/
theorem gathered_run {L : Long} {as : List (Border Item × Merge)} {rest : List Merge}
    (hp : (as.map Prod.snd ++ rest).Perm L.parts)
    (hn : ∀ x ∈ as.map Prod.snd, x.idx ≠ L.parts.length) :
    ∃ t, run step boot (arrive as) = some t ∧ Gathered (as.map Prod.snd) t := by
  induction as using List.reverseRecOn generalizing rest with
  | nil => exact ⟨boot, rfl, rfl, List.Perm.nil⟩
  | append_singleton as a ih =>
      rw [List.map_append, List.map_singleton] at hp hn ⊢
      rw [List.append_assoc, List.singleton_append] at hp
      obtain ⟨s, hs, hg⟩ := ih hp fun x hx => hn x (List.mem_append_left _ hx)
      refine ⟨longsmsind a.1 a.2 s, ?_, gathered_step a.1 hg hp hn⟩
      rw [arrive, List.map_append, run_append]
      exact ⟨s, hs, rfl⟩

/-- The last part completes the message. -/
theorem gathered_last {L : Long} (b : Border Item) {done : List Merge} {z : Merge} {s : State}
    (h : Gathered done s) (hp : (done ++ [z]).Perm L.parts) (hz : z.idx = L.parts.length) :
    (longsmsind b z s).log.map Cnf.data = [L.text] ∧
      (longsmsind b z s).tlongsms.entries = [] := by
  obtain ⟨hv, ht, -⟩ := Long.mem (hp.mem_iff.mp (List.mem_append_right _ List.mem_cons_self))
  have hfree := h.get_eq_none hv.one_le (idx_ne hp)
  have hin : InTurn z s.tlongsms := by
    refine ⟨hfree, ?_⟩
    rw [if_pos (by rw [hz, ht])]
    intro i hi
    -- the parts that have come are all but the last
    have hone : (∃ x ∈ done, x.idx = i) ↔ i ≤ z.total - 1 := by
      have hall := L.idx_mem i
      constructor
      · rintro ⟨x, hx, rfl⟩
        have hle := (hall.mp ⟨x, hp.mem_iff.mp (List.mem_append_left _ hx), rfl⟩).2
        have hne := idx_ne hp x hx
        omega
      · intro hle
        obtain ⟨x, hx, rfl⟩ := hall.mpr ⟨hi, by omega⟩
        obtain hx | hx := List.mem_append.mp (hp.mem_iff.mpr hx)
        · exact ⟨x, hx, rfl⟩
        · have hpos := hv.one_le
          rw [List.mem_singleton.mp hx] at hle
          omega
    rw [← hone]
    constructor
    · intro hs
      exact (h.mem.mp ⟨hs, hi⟩).2
    · intro hx
      exact (h.mem.mpr ⟨hi, hx⟩).1
  have hents : (insert z s).tlongsms.entries = L.parts.map Merge.entry := by
    refine List.Perm.eq_of_pairwise ?_ (entries_sorted _) ?_ ?_
    · rintro p q - - h1 h2
      omega
    · exact List.pairwise_map.mpr L.sorted
    · apply (entries_set hv.one_le hfree z.item).trans
      apply ((h.entries.cons z.entry).trans (List.perm_append_singleton _ _).symm).trans
      have hmap := hp.map Merge.entry
      rw [List.map_append, List.map_singleton] at hmap
      exact hmap
  obtain ⟨hne, -⟩ | ⟨-, hb, hd⟩ :=
    complete_cases b (s := { s with hist := s.hist ++ [z] }) hv.one_le hv.le_total hin
  · exact absurd (by rw [hz, ht]) hne
  · obtain ⟨⟨c, hlog, hc⟩, hent, -, -⟩ := mergelongsms_dense b
      (s := { insert z s with hist := s.hist ++ [z], timer := none }) hd
    rw [longsmsind, store_fits b (s := { s with hist := s.hist ++ [z] }) (h.fits hp), complete,
      if_pos hb]
    refine ⟨?_, hent⟩
    rw [show (insert z { s with hist := s.hist ++ [z] }) =
      { insert z s with hist := s.hist ++ [z] } from rfl]
    rw [hlog, show (insert z s).log = [] from h.log, List.nil_append, List.map_singleton, hc]
    show [text (insert z s).tlongsms.entries] = _
    rw [hents, text, List.flatMap_map]
    rfl

/-! ## A length above the missing parts -/

theorem removes_get {b : Border Item} {t : Table Item} {i : ℕ} (h : t.get i = none) (n : ℕ) :
    (removes b n t).get i = none := by
  induction n generalizing t with
  | zero => exact h
  | succ n ih =>
      apply ih
      rw [remove]
      split
      · by_cases hi : i = b.getn t
        · rw [hi, get_set_self]
        · rw [get_set_of_ne hi, h]
      · exact h

/-- No key is above `n`. -/
def Below (n : ℕ) (s : State) : Prop := ∀ i, n < i → s.tlongsms.get i = none

theorem below_mergelongsms {n : ℕ} {s : State} (b : Border Item) (h : Below n s) :
    Below n (mergelongsms b s) := fun i hi => removes_get (h i hi) _

theorem below_insert {n : ℕ} {s : State} {m : Merge} (h : Below n s) (hm : m.idx ≤ n) :
    Below n (insert m s) := by
  intro i hi
  rw [insert, get_set_of_ne (by omega)]
  exact h i hi

theorem below_store {n : ℕ} {s : State} (b : Border Item) {m : Merge} (h : Below n s)
    (hm : m.idx ≤ n) : Below n (store b m s) := by
  rw [store]
  split
  · exact below_insert h hm
  · split
    · exact below_insert h hm
    · exact below_insert (below_mergelongsms b (s := { s with timer := none }) h) hm

theorem below_run {n : ℕ} {l : List (Border Item × Merge)} (hm : ∀ a ∈ l, a.2.idx ≤ n)
    {s t : State} (h : Below n s) (ht : run step s (arrive l) = some t) : Below n t := by
  induction l generalizing s with
  | nil =>
      cases ht
      exact h
  | cons a l ih =>
      apply ih (fun x hx => hm x (List.mem_cons_of_mem a hx)) _ ht
      have hst := below_store a.1 (s := { s with hist := s.hist ++ [a.2] }) (m := a.2) h
        (hm a List.mem_cons_self)
      rw [longsmsind, complete]
      split
      · exact below_mergelongsms a.1 (s := { store a.1 a.2 { s with hist := s.hist ++ [a.2] } with
          timer := none }) hst
      · exact hst

theorem store_get (b : Border Item) (m : Merge) (s : State) :
    (store b m s).tlongsms.get m.idx = some m.item := by
  rw [store]
  split
  · exact get_set_self _ _ _
  · split <;> exact get_set_self _ _ _

/-- The part with the highest index may be taken for the last one when it comes. -/
theorem premature {m : Merge} {s : State} (hm : m.idx = m.total) (h : Below m.total s) :
    (longsmsind Border.last m s).log ≠ [] := by
  have hb := below_store Border.last (s := { s with hist := s.hist ++ [m] }) (m := m) h
    (Nat.le_of_eq hm)
  have hl : Border.last.getn (store Border.last m { s with hist := s.hist ++ [m] }).tlongsms =
      m.total := by
    apply Border.last_getn _ hb
    rw [← hm, store_get]
    rfl
  rw [longsmsind, complete, if_pos hl.symm]
  exact List.append_ne_nil_of_right_ne_nil _ (List.cons_ne_nil _ _)

/-- If a message is put together whatever lengths the table has, its last part comes last:
otherwise the length may already count up to it. -/
theorem last_of_reassembled {L : Long} {order : List Merge} {z : Merge} (hp : order.Perm L.parts)
    (hz : L.parts.getLast? = some z) (h : ∀ as, as.map Prod.snd = order → Reassembled L as) :
    order.getLast? = some z := by
  obtain ⟨hmem, hidx⟩ := L.getLast hz
  obtain ⟨-, htot, -⟩ := Long.mem hmem
  obtain ⟨pre, post, rfl⟩ := List.append_of_mem (hp.mem_iff.mpr hmem)
  rcases List.eq_nil_or_concat post with rfl | ⟨post, y, rfl⟩
  · rw [List.getLast?_append, List.getLast?_singleton, Option.some_or]
  · exfalso
    let lift (l : List Merge) : List (Border Item × Merge) := l.map fun m => (Border.last, m)
    have hsnd (l : List Merge) : (lift l).map Prod.snd = l := by
      rw [List.map_map]
      exact List.map_id' l
    obtain ⟨-, hpre⟩ := h (lift _) (hsnd _)
    obtain ⟨t, ht, hlog⟩ := hpre (lift (pre ++ [z]))
      ⟨lift (post ++ [y]), by simp [lift]⟩
      (by intro he; have hlen := congrArg List.length he; simp [lift] at hlen)
    rw [arrive, List.map_map, List.map_append, run_append] at ht
    obtain ⟨s, hs, hlast⟩ := ht
    have hbelow : Below z.total s := by
      apply below_run (l := lift pre) _ (fun i _ => get_empty i)
        (by rw [arrive, List.map_map]; exact hs)
      intro a ha
      obtain ⟨m, hm, rfl⟩ := List.mem_map.mp ha
      obtain ⟨hv, ht, -⟩ := Long.mem (hp.mem_iff.mp (List.mem_append_left _ hm))
      rw [htot, ← ht]
      exact hv.le_total
    cases hlast
    exact premature (by rw [hidx, htot]) hbelow hlog

theorem reassembled_of_last {L : Long} {z : Merge} {as : List (Border Item × Merge)}
    (hp : (as.map Prod.snd).Perm L.parts) (hz : L.parts.getLast? = some z)
    (h : (as.map Prod.snd).getLast? = some z) : Reassembled L as := by
  obtain ⟨-, hidx⟩ := L.getLast hz
  rcases List.eq_nil_or_concat as with rfl | ⟨init, a, rfl⟩
  · cases h
  · rw [List.concat_eq_append] at hp h ⊢
    have hz : a.2 = z := by simpa using h
    subst hz
    rw [List.map_append, List.map_singleton] at hp
    have hn : ∀ x ∈ init.map Prod.snd, x.idx ≠ L.parts.length := by
      rw [← hidx]
      exact idx_ne hp
    obtain ⟨s, hs, hg⟩ := gathered_run hp hn
    obtain ⟨hlog, hent⟩ := gathered_last a.1 hg hp hidx
    refine ⟨⟨longsmsind a.1 a.2 s, ?_, hlog, hent⟩, ?_⟩
    · rw [arrive, List.map_append, run_append]
      exact ⟨s, hs, rfl⟩
    · intro bs hbs hne
      obtain ⟨rest, rfl⟩ : bs <+: init := (List.prefix_concat_iff.mp hbs).resolve_left hne
      rw [List.map_append] at hn
      rw [List.map_append, List.append_assoc] at hp
      obtain ⟨t, ht, hgt⟩ := gathered_run hp fun x hx => hn x (List.mem_append_left _ hx)
      exact ⟨t, ht, hgt.log⟩

theorem accounted_run {acts : List Act} (hv : ∀ a ∈ acts, a.Valid)
    (hm : Meets step Orderly boot acts) : Along step Accounted boot acts := by
  have hboth := (meets_of_forall (G := fun _ a => a.Valid) (fun a ha _ => hv a ha) boot).and hm
  apply Along.imp fun _ => Tidy.accounted
  exact along_of_meets (I := fun _ => True) (fun _ _ _ _ _ => trivial)
    (fun s a t _ h hg ht => tidy_step s a t hg.1 h hg.2 ht) trivial tidy_boot hboth

/-- A message is put together whatever lengths the table has exactly if the part with the
highest index comes last. For runs with several messages and with the timer it is enough
that this holds of every message, and that none is interrupted while it has a hole. -/
theorem reassembled_iff_last (L : Long) (order : List Merge) (acts : List Act)
    (hp : order.Perm L.parts) :
    ((∀ as, as.map Prod.snd = order → Reassembled L as) ↔
        order.getLast? = L.parts.getLast?) ∧
      ((∀ a ∈ acts, a.Valid) → Meets step Orderly boot acts →
        Along step Accounted boot acts) := by
  refine ⟨?_, accounted_run⟩
  have hne : L.parts ≠ [] := List.length_pos_iff.mp (by have := L.two_le; omega)
  have hz := List.getLast?_eq_some_getLast hne
  rw [hz]
  constructor
  · exact last_of_reassembled hp hz
  · rintro h as rfl
    exact reassembled_of_last hp hz h

section Examples

/-- The part `i` of `n` with the text `d`. -/
def part (d : String) (n i : ℕ) : Merge := ⟨lua "10086", lua d, [], [], n, i, 7⟩

def pair : Long where
  parts := [part "4F60" 2 1, part "597D" 2 2]
  isn := 7
  two_le := by decide
  part := by decide

def quad : Long where
  parts := [part "0041" 4 1, part "0042" 4 2, part "0043" 4 3, part "0044" 4 4]
  isn := 7
  two_le := by decide
  part := by decide

/-- Two parts in order, for all lengths; and a message that the timer closes before another
one comes. -/
theorem reassembled_pair :
    (∀ as, as.map Prod.snd = pair.parts → Reassembled pair as) ∧
    Along step Accounted boot [.merge Border.last (part "0041" 4 1),
      .merge Border.last (part "0042" 4 2), .timeout Border.last,
      .merge Border.last (part "4F60" 2 1), .merge Border.last (part "597D" 2 2)] :=
  ⟨(reassembled_iff_last pair pair.parts [] (List.Perm.refl _)).1.mpr rfl,
    (reassembled_iff_last pair pair.parts _ (List.Perm.refl _)).2
      (by
        simp only [List.forall_mem_cons, List.not_mem_nil, false_implies, implies_true, and_true,
          Act.Valid]
        exact ⟨⟨by decide, by decide, by decide, by decide⟩, ⟨by decide, by decide, by decide,
          by decide⟩, trivial, ⟨by decide, by decide, by decide, by decide⟩,
          ⟨by decide, by decide, by decide, by decide⟩⟩)
      (by decide +kernel)⟩

/-- With the order 1, 2, 4, 3 the table is `{A,B,nil,D}` after three parts; its length is 4,
and the message goes out without its third part. -/
theorem fourth_before_third :
    [part "0041" 4 1, part "0042" 4 2, part "0044" 4 4, part "0043" 4 3].Perm quad.parts ∧
      ¬ Reassembled quad [(Border.last, part "0041" 4 1), (Border.last, part "0042" 4 2),
        (Border.last, part "0044" 4 4), (Border.last, part "0043" 4 3)] := by
  refine ⟨by decide, ?_⟩
  rintro ⟨⟨s, hs, hlog, -⟩, -⟩
  have hrun : (run step boot (arrive [(Border.last, part "0041" 4 1),
      (Border.last, part "0042" 4 2), (Border.last, part "0044" 4 4),
      (Border.last, part "0043" 4 3)])).map (fun s => s.log.map Cnf.data) =
      some [lua "004100420044"] := by decide +kernel
  rw [hs, Option.map_some, hlog] at hrun
  exact absurd hrun (by decide)

end Examples

end LuatAir200.LongSms
