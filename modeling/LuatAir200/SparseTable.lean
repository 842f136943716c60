import Mathlib.Data.List.Range
import Mathlib.Data.List.Basic
import Mathlib.Algebra.Order.Ring.Nat

/-!
# Tables with holes

A Lua table with integer keys, some of which may be missing. The length operator
may return any border of such a table: a key whose successor is missing, or zero
when the key 1 is missing. Only a table whose keys are 1 to `k` has one border.
-/
namespace LuatAir200.Sparse

variable {α : Type*}

structure Table (α : Type*) where
  get : ℕ → Option α
  size : ℕ
  bounded : ∀ i, size < i → get i = none

namespace Table

def empty : Table α := ⟨fun _ => none, 0, fun _ _ => rfl⟩

/-- The assignment `t[i] = x`, where `none` is `nil`. -/
def set (i : ℕ) (x : Option α) (t : Table α) : Table α where
  get := Function.update t.get i x
  size := max t.size i
  bounded := by
    intro j hj
    rw [Function.update_of_ne (by omega)]
    exact t.bounded j (by omega)

/-- The pairs of the table in the order of their keys, from the key 1 on. -/
def entries (t : Table α) : List (ℕ × α) :=
  (List.range' 1 t.size).filterMap fun i => (t.get i).map fun x => (i, x)

/-- A value that the length operator may have. -/
def IsBorder (t : Table α) (n : ℕ) : Prop := (n = 0 ∨ (t.get n).isSome) ∧ t.get (n + 1) = none

/-- The keys from 1 on are exactly 1 to `k`. -/
def Dense (t : Table α) (k : ℕ) : Prop := ∀ i, 1 ≤ i → ((t.get i).isSome ↔ i ≤ k)

instance (t : Table α) (k : ℕ) : Decidable (t.Dense k) :=
  decidable_of_iff (∀ i ∈ List.range' 1 (max t.size k), ((t.get i).isSome ↔ i ≤ k)) <| by
    constructor
    · intro h i hi
      by_cases hle : i ≤ max t.size k
      · exact h i (List.mem_range'_1.mpr (by omega))
      · rw [t.bounded i (by omega)]
        constructor
        · intro hs
          cases hs
        · intro hk
          omega
    · intro h i hi
      exact h i (List.mem_range'_1.mp hi).1

@[simp] theorem get_empty (i : ℕ) : (empty : Table α).get i = none := rfl

@[simp] theorem get_set_self (i : ℕ) (x : Option α) (t : Table α) : (t.set i x).get i = x := by
  simp [set]

theorem get_set_of_ne {i j : ℕ} (h : j ≠ i) (x : Option α) (t : Table α) :
    (t.set i x).get j = t.get j := by
  simp [set, h]

theorem mem_entries {t : Table α} {i : ℕ} {x : α} :
    (i, x) ∈ t.entries ↔ 1 ≤ i ∧ t.get i = some x := by
  rw [entries, List.mem_filterMap]
  constructor
  · rintro ⟨j, hj, hx⟩
    obtain ⟨y, hy, he⟩ := Option.map_eq_some_iff.mp hx
    cases he
    exact ⟨(List.mem_range'_1.mp hj).1, hy⟩
  · rintro ⟨hi, hx⟩
    have hs : i ≤ t.size := by
      by_contra hn
      rw [t.bounded i (by omega)] at hx
      cases hx
    exact ⟨i, List.mem_range'_1.mpr ⟨hi, by omega⟩, by rw [hx]; rfl⟩

theorem entries_sorted (t : Table α) : t.entries.Pairwise fun p q => p.1 < q.1 := by
  rw [entries, List.pairwise_filterMap]
  apply List.Pairwise.imp _ (List.pairwise_lt_range' (s := 1) (n := t.size))
  intro i j hij p hp q hq
  obtain ⟨x, -, rfl⟩ := Option.map_eq_some_iff.mp hp
  obtain ⟨y, -, rfl⟩ := Option.map_eq_some_iff.mp hq
  exact hij

theorem nodup_entries (t : Table α) : t.entries.Nodup :=
  t.entries_sorted.imp fun h he => by rw [he] at h; exact Nat.lt_irrefl _ h

theorem entries_eq_nil {t : Table α} : t.entries = [] ↔ ∀ i, 1 ≤ i → t.get i = none := by
  rw [List.eq_nil_iff_forall_not_mem]
  constructor
  · intro h i hi
    cases hx : t.get i with
    | none => rfl
    | some x => exact absurd (mem_entries.mpr ⟨hi, hx⟩) (h (i, x))
  · rintro h ⟨i, x⟩ hm
    obtain ⟨hi, hx⟩ := mem_entries.mp hm
    rw [h i hi] at hx
    cases hx

/-- A new key adds its pair. -/
theorem entries_set {t : Table α} {i : ℕ} (hi : 1 ≤ i) (hn : t.get i = none) (x : α) :
    (t.set i (some x)).entries.Perm ((i, x) :: t.entries) := by
  have hnot : (i, x) ∉ t.entries := by
    intro hm
    rw [(mem_entries.mp hm).2] at hn
    cases hn
  rw [List.perm_ext_iff_of_nodup (nodup_entries _) (List.nodup_cons.mpr ⟨hnot, t.nodup_entries⟩)]
  rintro ⟨j, y⟩
  rw [List.mem_cons, mem_entries, mem_entries, Prod.mk.injEq]
  by_cases hj : j = i
  · subst hj
    rw [get_set_self, hn]
    simp [hi, eq_comm]
  · rw [get_set_of_ne hj]
    simp [hj]

/-- The pairs depend on the entries alone, not on the size. -/
theorem entries_congr {t u : Table α} (h : ∀ i, 1 ≤ i → t.get i = u.get i) :
    t.entries = u.entries := by
  refine List.Perm.eq_of_pairwise ?_ t.entries_sorted u.entries_sorted ?_
  · rintro p q - - hp hq
    omega
  · rw [List.perm_ext_iff_of_nodup t.nodup_entries u.nodup_entries]
    rintro ⟨i, x⟩
    rw [mem_entries, mem_entries]
    exact and_congr_right fun hi => by rw [h i hi]

theorem dense_zero {t : Table α} : t.Dense 0 ↔ t.entries = [] := by
  rw [entries_eq_nil]
  constructor
  · intro h i hi
    have hx := (h i hi).not.mpr (by omega)
    simpa using hx
  · intro h i hi
    rw [h i hi]
    constructor
    · intro hf
      cases hf
    · intro hle
      omega

/-- A table without holes has one border. -/
theorem Dense.border {t : Table α} {k n : ℕ} (h : t.Dense k) (hn : t.IsBorder n) : n = k := by
  obtain ⟨hn, hs⟩ := hn
  have hle : n ≤ k := by
    obtain rfl | hx := hn
    · exact Nat.zero_le k
    · rcases Nat.eq_zero_or_pos n with rfl | hpos
      · exact Nat.zero_le k
      · exact (h n hpos).mp hx
  have hge : ¬ n + 1 ≤ k := by
    intro hk
    have hx := (h (n + 1) (by omega)).mpr hk
    rw [hs] at hx
    cases hx
  omega

theorem Dense.set_none {t : Table α} {k : ℕ} (h : t.Dense (k + 1)) :
    (t.set (k + 1) none).Dense k := by
  intro i hi
  by_cases hk : i = k + 1
  · subst hk
    rw [get_set_self]
    simp
  · rw [get_set_of_ne hk, h i hi]
    omega

theorem Dense.entries_eq {t : Table α} {k : ℕ} (h : t.Dense k) :
    t.entries = (List.range' 1 k).filterMap fun i => (t.get i).map fun x => (i, x) := by
  have hb : ∀ i, k < i → (t.get i) = none ∨ i = 0 := by
    intro i hi
    rcases Nat.eq_zero_or_pos i with rfl | hpos
    · exact .inr rfl
    · have hx := (h i hpos).not.mpr (by omega)
      exact .inl (by simpa using hx)
  let u : Table α := ⟨fun i => if i = 0 then none else t.get i, k, by
    intro i hi
    obtain hn | rfl := hb i hi
    · simp [hn]
    · simp⟩
  have hu : t.entries = u.entries := by
    apply entries_congr
    intro i hi
    show t.get i = if i = 0 then none else t.get i
    rw [if_neg (by omega)]
  rw [hu, entries]
  apply List.filterMap_congr
  intro i hi
  show ((if i = 0 then none else t.get i).map fun x => (i, x)) = _
  rw [if_neg (by have := (List.mem_range'_1.mp hi).1; omega)]

end Table

/-- The length operator: on every table it gives one of its borders. -/
structure Border (α : Type*) where
  getn : Table α → ℕ
  border : ∀ t : Table α, t.IsBorder (getn t)

/-- `table.remove(t)`. -/
def remove (b : Border α) (t : Table α) : Table α :=
  if 1 ≤ b.getn t then t.set (b.getn t) none else t

/-- The loop `for i=1,n do table.remove(t) end`. -/
def removes (b : Border α) : ℕ → Table α → Table α
  | 0, t => t
  | n + 1, t => removes b n (remove b t)

theorem removes_dense (b : Border α) (k : ℕ) (t : Table α) (h : t.Dense k) :
    (removes b k t).entries = [] := by
  induction k generalizing t with
  | zero => exact Table.dense_zero.mp h
  | succ k ih =>
      have hb : b.getn t = k + 1 := h.border (b.border t)
      apply ih
      rw [remove, hb, if_pos (by omega)]
      exact h.set_none

/-- The largest key not above `n`, or zero. -/
def lastKey (t : Table α) : ℕ → ℕ
  | 0 => 0
  | n + 1 => if (t.get (n + 1)).isSome then n + 1 else lastKey t n

theorem lastKey_border (t : Table α) (n : ℕ) (h : t.get (n + 1) = none) :
    t.IsBorder (lastKey t n) := by
  induction n with
  | zero => exact ⟨.inl rfl, h⟩
  | succ n ih =>
      rw [lastKey]
      split
      · rename_i hs
        exact ⟨.inr hs, h⟩
      · rename_i hs
        exact ih (by simpa using hs)

/-- The length operator of a table that is all array: its last key. -/
def Border.last : Border α := ⟨fun t => lastKey t t.size, fun t =>
  lastKey_border t t.size (t.bounded (t.size + 1) (Nat.lt_succ_self t.size))⟩

theorem lastKey_eq {t : Table α} {k n : ℕ} (hk : (t.get k).isSome) (hn : ∀ i, k < i → t.get i = none)
    (h : k ≤ n) : lastKey t n = k := by
  induction n with
  | zero => rw [lastKey]; omega
  | succ n ih =>
      rw [lastKey]
      by_cases hkn : k = n + 1
      · rw [if_pos (hkn ▸ hk), hkn]
      · rw [hn (n + 1) (by omega), if_neg (by simp)]
        exact ih (by omega)

theorem Border.last_getn {t : Table α} {k : ℕ} (hk : (t.get k).isSome)
    (hn : ∀ i, k < i → t.get i = none) : Border.last.getn t = k := by
  apply lastKey_eq hk hn
  by_contra hs
  rw [t.bounded k (by omega)] at hk
  cases hk

/-! ## Tables that hold a list -/

/-- `table.insert(t,pos,x)`: the items from `pos` on move up. -/
def insert (b : Border α) (pos : ℕ) (x : α) (t : Table α) : Table α where
  get i :=
    if i = pos then some x
    else if pos < i ∧ i ≤ b.getn t + 1 then t.get (i - 1) else t.get i
  size := max pos (t.size + 1)
  bounded := by
    intro i hi
    rw [if_neg (by omega)]
    split
    · exact t.bounded (i - 1) (by omega)
    · exact t.bounded i (by omega)

/-- `table.remove(t,1)`: the items behind the first one move down. -/
def removeFirst (b : Border α) (t : Table α) : Table α where
  get i :=
    if 1 ≤ i ∧ i < b.getn t then t.get (i + 1)
    else if 1 ≤ i ∧ i = b.getn t then none else t.get i
  size := t.size
  bounded := by
    intro i hi
    split
    · exact t.bounded (i + 1) (by omega)
    · split
      · rfl
      · exact t.bounded i hi

/-- The items from the key 1 on are those of a list. -/
def Holds (t : Table α) (l : List α) : Prop := ∀ i, t.get (i + 1) = l[i]?

theorem holds_empty : Holds (Table.empty : Table α) [] := fun _ => rfl

theorem Holds.getn {t : Table α} {l : List α} (h : Holds t l) (b : Border α) :
    b.getn t = l.length := by
  apply Table.Dense.border _ (b.border t)
  intro i hi
  obtain ⟨j, rfl⟩ := Nat.exists_eq_add_of_le' hi
  rw [h j, Option.isSome_iff_ne_none, ne_eq, List.getElem?_eq_none_iff]
  omega

theorem Holds.first {t : Table α} {l : List α} (h : Holds t l) : t.get 1 = l.head? := by
  rw [h 0, List.head?_eq_getElem?]

theorem Holds.insert {t : Table α} {l : List α} (h : Holds t l) (b : Border α) {pos : ℕ} (x : α)
    (h1 : 1 ≤ pos) (hle : pos ≤ l.length + 1) :
    Holds (insert b pos x t) (l.insertIdx (pos - 1) x) := by
  intro i
  obtain ⟨j, rfl⟩ := Nat.exists_eq_add_of_le' h1
  rw [Nat.add_sub_cancel, List.getElem?_insertIdx]
  show (if i + 1 = j + 1 then some x
    else if j + 1 < i + 1 ∧ i + 1 ≤ b.getn t + 1 then t.get (i + 1 - 1) else t.get (i + 1)) = _
  rw [h.getn b]
  rcases Nat.lt_trichotomy i j with hij | rfl | hij
  · rw [if_neg (by omega), if_neg (by omega), h i, if_pos hij]
  · rw [if_pos rfl, if_neg (Nat.lt_irrefl i), if_pos rfl, if_pos (by omega)]
  · obtain ⟨k, rfl⟩ := Nat.exists_eq_add_of_lt hij
    rw [if_neg (show ¬ j + k + 1 + 1 = j + 1 by omega), if_neg (show ¬ j + k + 1 < j by omega),
      if_neg (show ¬ j + k + 1 = j by omega), Nat.add_sub_cancel, Nat.add_sub_cancel]
    split
    · exact h (j + k)
    · rw [h (j + k + 1), List.getElem?_eq_none (by omega), List.getElem?_eq_none (by omega)]

theorem Holds.removeFirst {t : Table α} {l : List α} (h : Holds t l) (b : Border α) :
    Holds (removeFirst b t) l.tail := by
  intro i
  show (if 1 ≤ i + 1 ∧ i + 1 < b.getn t then t.get (i + 1 + 1)
    else if 1 ≤ i + 1 ∧ i + 1 = b.getn t then none else t.get (i + 1)) = _
  rw [h.getn b, List.getElem?_tail, h (i + 1), h i]
  split
  · rfl
  · rename_i hlt
    rw [List.getElem?_eq_none (show l.length ≤ i + 1 by omega)]
    split
    · rfl
    · exact List.getElem?_eq_none (by omega)

end LuatAir200.Sparse
