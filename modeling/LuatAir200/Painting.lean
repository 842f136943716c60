import Mathlib.Algebra.Order.Ring.Int
import Mathlib.Data.List.TakeWhile

/-!
# Loops that paint

A loop over a range of integers, and what painting means for a view of the state by cells: in
its region a step applies `v` to what the cell shows, elsewhere it changes nothing. When `v`
is idempotent a loop of such steps paints the union of their regions.
-/
namespace LuatAir200.Painting

/-- The counters of `for (i = lo; i < hi; i++)`. -/
def upto (lo hi : ℤ) : List ℤ := (List.range (hi - lo).toNat).map fun n : ℕ => lo + n

@[simp] theorem mem_upto {lo hi i : ℤ} : i ∈ upto lo hi ↔ lo ≤ i ∧ i < hi := by
  simp only [upto, List.mem_map, List.mem_range]
  constructor
  · rintro ⟨n, hn, rfl⟩
    omega
  · intro h
    exact ⟨(i - lo).toNat, by omega, by omega⟩

/-- A condition that holds of all the counters does not end the loop. -/
theorem takeWhile_upto {p : ℤ → Bool} {lo hi : ℤ} (h : ∀ i, lo ≤ i → i < hi → p i = true) :
    (upto lo hi).takeWhile p = upto lo hi := by
  rw [List.takeWhile_eq_self_iff]
  intro i hi
  rw [mem_upto] at hi
  exact h i hi.1 hi.2

variable {σ ι κ β : Type*}

/-- What all rounds of a loop preserve. -/
theorem foldl_keeps {P : σ → Prop} {f : σ → ι → σ} {l : List ι}
    (h : ∀ i ∈ l, ∀ s, P s → P (f s i)) {s : σ} (hs : P s) : P (l.foldl f s) := by
  induction l generalizing s with
  | nil => exact hs
  | cons i l ih =>
      exact ih (fun j hj => h j (List.mem_cons_of_mem i hj)) (h i List.mem_cons_self s hs)

/-- What a loop does in one of its rounds, when all later ones preserve it. -/
theorem foldl_reaches {P : σ → Prop} {f : σ → ι → σ} {l : List ι} {i : ι} (hi : i ∈ l)
    (h : ∀ s, P (f s i)) (hk : ∀ j ∈ l, ∀ s, P s → P (f s j)) (s : σ) : P (l.foldl f s) := by
  induction l generalizing s with
  | nil => cases hi
  | cons j l ih =>
      have hl : ∀ j ∈ l, ∀ s, P s → P (f s j) := fun j hj => hk j (List.mem_cons_of_mem _ hj)
      obtain rfl | hm := List.mem_cons.mp hi
      · exact foldl_keeps hl (h s)
      · exact ih hm hl (f s j)

/-- `f` applies `v` to the cells of `R` and leaves the others. -/
structure Paints (view : σ → κ → β) (R : κ → Prop) (v : κ → β → β) (f : σ → σ) : Prop where
  inside : ∀ s k, R k → view (f s) k = v k (view s k)
  outside : ∀ s k, ¬R k → view (f s) k = view s k

variable {view : σ → κ → β} {v : κ → β → β}

theorem Paints.none {f : σ → σ} (h : ∀ s k, view (f s) k = view s k) :
    Paints view (fun _ => False) v f :=
  ⟨fun _ _ hk => hk.elim, fun s k _ => h s k⟩

theorem Paints.congr {R S : κ → Prop} {f : σ → σ} (h : Paints view R v f) (hr : ∀ k, R k ↔ S k) :
    Paints view S v f :=
  ⟨fun s k hk => h.inside s k ((hr k).mpr hk), fun s k hk => h.outside s k (mt (hr k).mp hk)⟩

/-- One painting after another. -/
theorem Paints.comp {R S : κ → Prop} {f g : σ → σ} (hf : Paints view R v f)
    (hg : Paints view S v g) (hv : ∀ k o, v k (v k o) = v k o) :
    Paints view (fun k => R k ∨ S k) v (fun s => g (f s)) where
  inside s k hk := by
    by_cases hS : S k <;> by_cases hR : R k
    · rw [hg.inside _ k hS, hf.inside s k hR, hv]
    · rw [hg.inside _ k hS, hf.outside s k hR]
    · rw [hg.outside _ k hS, hf.inside s k hR]
    · exact (hk.elim hR hS).elim
  outside s k hk := by
    rw [hg.outside _ k fun h => hk (.inr h), hf.outside s k fun h => hk (.inl h)]

/-- A loop of painting steps. -/
theorem Paints.foldl {R : ι → κ → Prop} {f : σ → ι → σ} {l : List ι}
    (h : ∀ i ∈ l, Paints view (R i) v fun s => f s i) (hv : ∀ k o, v k (v k o) = v k o) :
    Paints view (fun k => ∃ i ∈ l, R i k) v fun s => l.foldl f s := by
  induction l with
  | nil => exact (Paints.none fun _ _ => rfl).congr fun k => by simp
  | cons i l ih =>
      have hl := ih fun j hj => h j (List.mem_cons_of_mem i hj)
      exact ((h i List.mem_cons_self).comp hl hv).congr fun k => by simp

/-- A loop in a loop. -/
theorem Paints.grid {ι' : Type*} {R : ι → ι' → κ → Prop} {f : σ → ι → ι' → σ} {l : List ι}
    {l' : List ι'} (h : ∀ i ∈ l, ∀ j ∈ l', Paints view (R i j) v fun s => f s i j)
    (hv : ∀ k o, v k (v k o) = v k o) :
    Paints view (fun k => ∃ i ∈ l, ∃ j ∈ l', R i j k) v
      fun s => l.foldl (fun s i => l'.foldl (fun s j => f s i j) s) s :=
  Paints.foldl (fun i hi => Paints.foldl (h i hi) hv) hv

end LuatAir200.Painting
