import Mathlib.Data.List.Basic
import Mathlib.Data.List.Infix
import Mathlib.Data.List.Chain

/-!
# Removing from a list while iterating over it

A loop over the indices of a list removes the entry at its index when a test holds of it. The
entries behind a removed one move up by one, so the loop does not visit the next of them.
-/
namespace LuatAir200.Traversal

variable {α : Type*} (p : α → Bool)

/-- The loop from the index `k` on, in at most `n` rounds. -/
def remove : ℕ → ℕ → List α → List α
  | 0, _, l => l
  | n + 1, k, l =>
      match l[k]? with
      | none => l
      | some x => remove n (k + 1) (if p x then l.eraseIdx k else l)

/-- What the loop leaves of the entries that it has not visited. -/
def sweep : List α → List α
  | [] => []
  | [x] => if p x then [] else [x]
  | x :: y :: l => if p x then y :: sweep l else x :: sweep (y :: l)

/-- No two entries in a row meet the test. -/
def Apart (l : List α) : Prop := l.IsChain fun x y => p x → ¬ p y

instance (l : List α) : Decidable (Apart p l) := by
  unfold Apart
  infer_instance

variable {p}

/-- The next entry stays, whether it meets the test or not. -/
theorem sweep_of_pos {x : α} {l : List α} (h : p x) :
    sweep p (x :: l) = l.take 1 ++ sweep p (l.drop 1) := by
  cases l <;> simp [sweep, h]

theorem sweep_of_neg {x : α} {l : List α} (h : ¬ p x) :
    sweep p (x :: l) = x :: sweep p l := by
  cases l <;> simp [sweep, h]

theorem remove_past (n : ℕ) {k : ℕ} {l : List α} (h : l.length ≤ k) : remove p n k l = l := by
  cases n with
  | zero => rfl
  | succ n => rw [remove, List.getElem?_eq_none h]

/-- The entries `l` before the index are visited, `m` are those from it on. -/
theorem remove_append (n : ℕ) (l m : List α) (h : m.length ≤ n) :
    remove p n l.length (l ++ m) = l ++ sweep p m := by
  induction n generalizing l m with
  | zero =>
      obtain rfl := List.length_eq_zero_iff.mp (Nat.le_zero.mp h)
      rfl
  | succ n ih =>
      cases m with
      | nil =>
          rw [List.append_nil, remove_past _ (Nat.le_refl _), sweep, List.append_nil]
      | cons x m =>
          have hx : (l ++ x :: m)[l.length]? = some x := by simp
          have hm : m.length ≤ n := Nat.le_of_succ_le_succ h
          rw [remove, hx]
          dsimp only
          by_cases hp : p x
          · rw [if_pos hp, sweep_of_pos hp, List.eraseIdx_append_of_length_le (Nat.le_refl _),
              Nat.sub_self, List.eraseIdx_cons_zero]
            cases m with
            | nil => simpa [sweep] using remove_past n (Nat.le_succ l.length)
            | cons y m => simpa using ih (l ++ [y]) m (by grind)
          · rw [if_neg hp, sweep_of_neg hp]
            simpa using ih (l ++ [x]) m hm

/-- The whole list. -/
theorem remove_zero (l : List α) : remove p l.length 0 l = sweep p l :=
  remove_append l.length [] l (Nat.le_refl _)

/-- An entry that does not meet the test stays, and the others are filtered as before. -/
theorem filter_sweep {f : α → Bool} (hf : ∀ x, f x → ¬ p x) (l : List α) :
    (sweep p l).filter f = l.filter f := by
  induction l using sweep.induct p with
  | case1 => rfl
  | case2 x h =>
      have hx : ¬ f x := fun hx => hf x hx h
      simp [sweep, h, hx]
  | case3 x h => simp [sweep, h]
  | case4 x y l h ih =>
      have hx : ¬ f x := fun hx => hf x hx h
      rw [sweep, if_pos h, List.filter_cons_of_neg hx, List.filter_cons, List.filter_cons, ih]
  | case5 x y l h ih => rw [sweep, if_neg h, List.filter_cons, ih, ← List.filter_cons]

theorem mem_sweep {x : α} {l : List α} (hx : x ∈ l) (hp : ¬ p x) : x ∈ sweep p l := by
  have h : x ∈ (sweep p l).filter fun y => !p y := by
    rw [filter_sweep (fun y hy => by simpa using hy)]
    exact List.mem_filter.mpr ⟨hx, by simpa using hp⟩
  exact List.mem_of_mem_filter h

/-- The loop removes all that meet the test exactly if no two of them stand in a row. -/
theorem sweep_clear_iff (l : List α) : (∀ x ∈ sweep p l, ¬ p x) ↔ Apart p l := by
  induction l using sweep.induct p with
  | case1 => simp [sweep, Apart]
  | case2 x h => simp [sweep, Apart, h]
  | case3 x h => simp [sweep, Apart, h]
  | case4 x y l h ih =>
      rw [sweep, if_pos h, List.forall_mem_cons, ih]
      cases l with
      | nil => simp [Apart, h]
      | cons z l => simp +contextual [Apart, h]
  | case5 x y l h ih =>
      rw [sweep, if_neg h, List.forall_mem_cons, ih]
      simp [Apart, h]

theorem sweep_eq_filter {l : List α} (h : Apart p l) : sweep p l = l.filter fun x => !p x := by
  rw [← filter_sweep (p := p) (fun x hx => by simpa using hx), List.filter_eq_self.mpr]
  intro x hx
  simpa using (sweep_clear_iff l).mpr h x hx

end LuatAir200.Traversal
