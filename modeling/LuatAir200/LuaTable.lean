import Mathlib.Data.List.Basic
import Mathlib.Data.Nat.Find

/-!
# Argument tables

The table `arg` of a variadic Lua function holds the arguments in its array
part, `nil` included, and their number under `n`. Its length operator is the
search of `luaH_getn`: the whole array when its last entry is not `nil`, and
otherwise a border found by bisection. `unpack` returns the entries up to it.
-/
namespace LuatAir200.Lua

/-- The arguments of a call; `none` is `nil`. -/
abbrev Args (α : Type*) := List (Option α)

variable {α : Type*}

/-- The bisection of `luaH_getn` between `i` and `j`, in at most `fuel` rounds. -/
def bisect (t : Args α) : ℕ → ℕ → ℕ → ℕ
  | 0, i, _ => i
  | fuel + 1, i, j =>
      if j - i > 1 then
        let m := (i + j) / 2
        if (t[m - 1]?.join).isNone then bisect t fuel i m else bisect t fuel m j
      else i

/-- The length operator `#` on an argument table. -/
def len (t : Args α) : ℕ :=
  if (t.getLast?.join).isSome then t.length else bisect t t.length 0 t.length

/-- The values `unpack(t)` returns. -/
def unpack (t : Args α) : Args α := t.take (len t)

/-- An argument list without `nil`. -/
def NilFree (t : Args α) : Prop := ∀ x ∈ t, x.isSome

theorem bisect_le (t : Args α) (fuel i j : ℕ) (h : i ≤ j) : bisect t fuel i j ≤ j := by
  induction fuel generalizing i j with
  | zero => exact h
  | succ fuel ih =>
      simp only [bisect]
      split
      · split
        · exact Nat.le_trans (ih i ((i + j) / 2) (by omega)) (by omega)
        · exact ih ((i + j) / 2) j (by omega)
      · exact h

/-- The bisection ends at its start or behind an entry that is not `nil`. -/
theorem bisect_border (t : Args α) (fuel i j : ℕ) :
    bisect t fuel i j = i ∨ (t[bisect t fuel i j - 1]?.join).isSome := by
  induction fuel generalizing i j with
  | zero => exact .inl rfl
  | succ fuel ih =>
      simp only [bisect]
      split
      · split
        · exact ih i ((i + j) / 2)
        · rename_i hm
          have hs : (t[(i + j) / 2 - 1]?.join).isSome := by
            simpa using Option.isSome_iff_ne_none.mpr (by simpa using hm)
          obtain he | hb := ih ((i + j) / 2) j
          · exact .inr (by rw [he]; exact hs)
          · exact .inr hb
      · exact .inl rfl

theorem len_le (t : Args α) : len t ≤ t.length := by
  unfold len
  split
  · exact Nat.le_refl _
  · exact bisect_le t t.length 0 t.length (Nat.zero_le _)

/-- The last entry below the length is not `nil`. -/
theorem len_border (t : Args α) : len t = 0 ∨ (t[len t - 1]?.join).isSome := by
  unfold len
  split
  · rename_i h
    rw [List.getLast?_eq_getElem?] at h
    exact .inr h
  · exact bisect_border t t.length 0 t.length

@[simp] theorem length_unpack (t : Args α) : (unpack t).length = len t := by
  simp [unpack, len_le]

/-- Unpacking once more changes nothing. -/
@[simp] theorem len_unpack (t : Args α) : len (unpack t) = len t := by
  obtain h | h := len_border t
  · have hz : unpack t = [] := by rw [unpack, h]; rfl
    rw [hz, h]; rfl
  · by_cases hz : len t = 0
    · have he : unpack t = [] := by rw [unpack, hz]; rfl
      rw [he, hz]; rfl
    · have hl : ((unpack t).getLast?.join).isSome := by
        rw [List.getLast?_eq_getElem?, length_unpack, unpack, List.getElem?_take_of_lt (by omega)]
        exact h
      rw [len, if_pos hl, length_unpack]

@[simp] theorem unpack_unpack (t : Args α) : unpack (unpack t) = unpack t := by
  rw [unpack, len_unpack, ← length_unpack, List.take_length]

theorem NilFree.len_eq {t : Args α} (h : NilFree t) : len t = t.length := by
  unfold len
  split
  · rfl
  · rename_i hn
    cases t with
    | nil => rfl
    | cons x t =>
        have hl : ((x :: t).getLast (List.cons_ne_nil x t)).isSome := h _ (List.getLast_mem _)
        rw [List.getLast?_eq_some_getLast (List.cons_ne_nil x t)] at hn
        exact absurd hl hn

theorem NilFree.unpack_eq {t : Args α} (h : NilFree t) : unpack t = t := by
  rw [unpack, h.len_eq, List.take_length]

@[simp] theorem unpack_nil : unpack ([] : Args α) = [] := rfl

/-! ## Borders -/

/-- What the length operator may give: an index with `nil` behind it and, unless it is zero, a
value at it. -/
def IsBorder (t : Args α) (n : ℕ) : Prop := (n = 0 ∨ (t[n - 1]?.join).isSome) ∧ t[n]?.join = none

/-- The same values at the same positions, up to `nil` at the end. -/
def Agree (s t : Args α) : Prop := ∀ i : ℕ, s[i]?.join = t[i]?.join

/-- No value stands behind a `nil`. -/
def NoHole (t : Args α) : Prop :=
  ∀ i j : ℕ, i < j → (t[j]?.join).isSome → (t[i]?.join).isSome

theorem Agree.tail {s t : Args α} (h : Agree s t) : Agree s.tail t.tail := by
  intro i
  rw [List.getElem?_tail, List.getElem?_tail]
  exact h (i + 1)

/-- The entry behind the result of the bisection is `nil`. -/
theorem bisect_nil (t : Args α) {fuel i j : ℕ} (hij : i < j) (hf : j - i ≤ fuel + 1)
    (hj : t[j - 1]?.join = none) : t[bisect t fuel i j]?.join = none := by
  induction fuel generalizing i j with
  | zero =>
      have he : j - 1 = i := by omega
      rwa [bisect, ← he]
  | succ fuel ih =>
      simp only [bisect]
      split
      · split
        · rename_i hm
          exact ih (by omega) (by omega) (Option.isNone_iff_eq_none.mp hm)
        · exact ih (by omega) (by omega) hj
      · have he : j - 1 = i := by omega
        rwa [← he]

theorem len_isBorder (t : Args α) : IsBorder t (len t) := by
  refine ⟨len_border t, ?_⟩
  rw [len]
  split
  · rw [List.getElem?_eq_none (Nat.le_refl _)]
    rfl
  · rename_i hlast
    by_cases hpos : 0 < t.length
    · apply bisect_nil t hpos (by omega)
      rw [List.getLast?_eq_getElem?] at hlast
      exact Option.not_isSome_iff_eq_none.mp hlast
    · obtain rfl : t = [] := List.length_eq_zero_iff.mp (by omega)
      rfl

theorem take_agree {t : Args α} {n : ℕ} (hn : IsBorder t n) (ht : NoHole t) : Agree (t.take n) t := by
  intro i
  by_cases hi : i < n
  · rw [List.getElem?_take_of_lt hi]
  · have hnone : t[i]?.join = none := by
      by_contra hsome
      obtain hlt | rfl := Nat.lt_or_eq_of_le (Nat.le_of_not_lt hi)
      · have hs := ht n i hlt (Option.isSome_iff_ne_none.mpr hsome)
        rw [hn.2] at hs
        cases hs
      · exact hsome hn.2
    rw [hnone, List.getElem?_take_eq_none (Nat.le_of_not_lt hi)]
    rfl

/-- Behind a hole values are lost with the border in front of it. -/
theorem border_hole {t : Args α} (ht : ¬NoHole t) :
    ∃ n, IsBorder t n ∧ ∃ j, n < j ∧ (t[j]?.join).isSome := by
  rw [NoHole] at ht
  push Not at ht
  obtain ⟨i, j, hij, hj, hi⟩ := ht
  have hex : ∃ i : ℕ, t[i]?.join = none := ⟨i, Option.not_isSome_iff_eq_none.mp (by simpa using hi)⟩
  classical
  refine ⟨Nat.find hex, ⟨?_, Nat.find_spec hex⟩, j, ?_, hj⟩
  · by_cases hz : Nat.find hex = 0
    · exact .inl hz
    · have hprev := Nat.find_min hex (show Nat.find hex - 1 < Nat.find hex by omega)
      exact .inr (Option.isSome_iff_ne_none.mpr hprev)
  · have hle := Nat.find_min' hex (Option.not_isSome_iff_eq_none.mp (by simpa using hi))
    omega

end LuatAir200.Lua
