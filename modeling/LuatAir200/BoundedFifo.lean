import Mathlib.Data.List.Basic

/-!
# A queue that drops its oldest elements

Lists of at most so many elements: what is inserted pushes out what is at the front.
-/
namespace LuatAir200.BoundedFifo

variable {α : Type*}

/-- The last `n` elements. -/
def keep (n : ℕ) (l : List α) : List α := l.drop (l.length - n)

def insert (n : ℕ) (l data : List α) : List α := keep n (l ++ data)

theorem keep_of_le {n : ℕ} {l : List α} (h : l.length ≤ n) : keep n l = l := by
  rw [keep, Nat.sub_eq_zero_of_le h, List.drop_zero]

theorem keep_append (n : ℕ) (l data : List α) : keep n (keep n l ++ data) = keep n (l ++ data) := by
  rw [keep, keep, keep, List.length_append, List.length_append, List.length_drop]
  by_cases h : l.length ≤ n
  · have hz : l.length - n = 0 := by omega
    rw [hz, List.drop_zero, Nat.sub_zero]
  · have hl : l.length - (l.length - n) = n := by omega
    have hk : l.length + data.length - n = l.length - n + (n + data.length - n) := by omega
    have hle : l.length - n ≤ l.length := Nat.sub_le _ _
    rw [hl, hk, ← List.drop_drop, List.drop_append_of_le_length hle]

theorem insert_cons (n : ℕ) (l data : List α) (a : α) :
    insert n (insert n l [a]) data = insert n l (a :: data) := by
  rw [insert, insert, insert, keep_append, List.append_assoc, List.singleton_append]

/-- A full list gives up its first element for a new one. -/
theorem insert_full {n : ℕ} {l : List α} (h : l.length = n) (hn : 0 < n) (a : α) :
    insert n l [a] = l.drop 1 ++ [a] := by
  have hone : (l ++ [a]).length - n = 1 := by
    rw [List.length_append, List.length_singleton]
    omega
  rw [insert, keep, hone, List.drop_append_of_le_length]
  omega

theorem insert_room {n : ℕ} {l : List α} (h : l.length < n) (a : α) : insert n l [a] = l ++ [a] := by
  apply keep_of_le
  rw [List.length_append, List.length_singleton]
  omega

end LuatAir200.BoundedFifo
