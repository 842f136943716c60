import Mathlib.Data.List.Basic

/-!
# Runs of partial step functions

A system is a step function `σ → α → Option σ`: an action that is not possible
in a state, or that ends the program, gives `none`. A run is the list of its
actions. Invariants are proved of single steps and lifted here to whole runs,
also to runs all of whose steps meet a condition on the state before the step.
-/
namespace LuatAir200.Machine

variable {σ α : Type*} (step : σ → α → Option σ)

/-- The state after a list of actions, when each of them is possible. -/
def run : σ → List α → Option σ
  | s, [] => some s
  | s, a :: as => (step s a).bind fun t => run t as

/-- Every step that the run takes meets `G`. -/
def Meets (G : σ → α → Prop) : σ → List α → Prop
  | _, [] => True
  | s, a :: as => ∀ t, step s a = some t → G s a ∧ Meets G t as

/-- `P` holds in every state that the run passes, its first one included. -/
def Along (P : σ → Prop) : σ → List α → Prop
  | s, [] => P s
  | s, a :: as => P s ∧ ∀ t, step s a = some t → Along P t as

/-- The states that some run reaches. -/
def Reachable (s₀ s : σ) : Prop := ∃ as, run step s₀ as = some s

variable {step}

@[simp] theorem run_nil (s : σ) : run step s [] = some s := rfl

theorem run_cons (s : σ) (a : α) (as : List α) :
    run step s (a :: as) = (step s a).bind fun t => run step t as := rfl

theorem run_cons_eq_some {s u : σ} {a : α} {as : List α} :
    run step s (a :: as) = some u ↔ ∃ t, step s a = some t ∧ run step t as = some u := by
  rw [run_cons, Option.bind_eq_some_iff]

theorem run_append {s u : σ} {as bs : List α} :
    run step s (as ++ bs) = some u ↔ ∃ t, run step s as = some t ∧ run step t bs = some u := by
  induction as generalizing s with
  | nil => simp
  | cons a as ih =>
      simp only [List.cons_append, run_cons_eq_some, ih]
      constructor
      · rintro ⟨v, hv, t, ht, hu⟩
        exact ⟨t, ⟨v, hv, ht⟩, hu⟩
      · rintro ⟨t, ⟨v, hv, ht⟩, hu⟩
        exact ⟨v, hv, t, ht, hu⟩

theorem meets_append {G : σ → α → Prop} {s : σ} {as bs : List α} :
    Meets step G s (as ++ bs) ↔
      Meets step G s as ∧ ∀ t, run step s as = some t → Meets step G t bs := by
  induction as generalizing s with
  | nil => simp [Meets]
  | cons a as ih =>
      simp only [List.cons_append, Meets, ih, run_cons_eq_some]
      constructor
      · intro h
        refine ⟨fun t ht => ⟨(h t ht).1, (h t ht).2.1⟩, ?_⟩
        rintro u ⟨t, ht, hu⟩
        exact (h t ht).2.2 u hu
      · rintro ⟨h, hb⟩ t ht
        exact ⟨(h t ht).1, (h t ht).2, fun u hu => hb u ⟨t, ht, hu⟩⟩

/-- Runs whose steps all meet a stronger condition meet the weaker one. -/
theorem Meets.imp {G H : σ → α → Prop} (hi : ∀ s a, G s a → H s a) {s : σ} {as : List α}
    (h : Meets step G s as) : Meets step H s as := by
  induction as generalizing s with
  | nil => trivial
  | cons a as ih => exact fun t ht => ⟨hi s a (h t ht).1, ih (h t ht).2⟩

theorem Meets.and {G H : σ → α → Prop} {s : σ} {as : List α} (hg : Meets step G s as)
    (hh : Meets step H s as) : Meets step (fun s a => G s a ∧ H s a) s as := by
  induction as generalizing s with
  | nil => trivial
  | cons a as ih =>
      intro t ht
      exact ⟨⟨(hg t ht).1, (hh t ht).1⟩, ih (hg t ht).2 (hh t ht).2⟩

theorem Along.imp {P Q : σ → Prop} (hi : ∀ s, P s → Q s) {s : σ} {as : List α}
    (h : Along step P s as) : Along step Q s as := by
  induction as generalizing s with
  | nil => exact hi s h
  | cons a as ih => exact ⟨hi s h.1, fun t ht => ih (h.2 t ht)⟩

theorem Along.and {P Q : σ → Prop} {s : σ} {as : List α} (hp : Along step P s as)
    (hq : Along step Q s as) : Along step (fun s => P s ∧ Q s) s as := by
  induction as generalizing s with
  | nil => exact ⟨hp, hq⟩
  | cons a as ih => exact ⟨⟨hp.1, hq.1⟩, fun t ht => ih (hp.2 t ht) (hq.2 t ht)⟩

theorem Along.last {P : σ → Prop} {s t : σ} {as : List α} (h : Along step P s as)
    (hr : run step s as = some t) : P t := by
  induction as generalizing s with
  | nil =>
      obtain rfl := Option.some.inj hr
      exact h
  | cons a as ih =>
      obtain ⟨u, hu, hr⟩ := run_cons_eq_some.mp hr
      exact ih (h.2 u hu) hr

/-- Whether a given run meets a decidable condition can be computed. -/
instance decidableMeets {G : σ → α → Prop} [∀ s a, Decidable (G s a)] :
    (s : σ) → (as : List α) → Decidable (Meets step G s as)
  | _, [] => isTrue trivial
  | s, a :: as =>
      match h : step s a with
      | none => isTrue fun t ht => by rw [h] at ht; cases ht
      | some t =>
          have := decidableMeets (G := G) t as
          decidable_of_iff (G s a ∧ Meets step G t as)
            ⟨fun hm u hu => by rw [h] at hu; cases hu; exact hm, fun hm => hm t h⟩

/-- The induction rule for runs under a condition: one step that meets `G`
preserves `P`, so every run whose steps all meet `G` ends in a `P`-state. -/
theorem guarded_run {P : σ → Prop} {G : σ → α → Prop}
    (hstep : ∀ s a t, P s → G s a → step s a = some t → P t)
    {s u : σ} {as : List α} (hs : P s) (hm : Meets step G s as)
    (hr : run step s as = some u) : P u := by
  induction as generalizing s with
  | nil => simp only [run_nil, Option.some.injEq] at hr; exact hr ▸ hs
  | cons a as ih =>
      obtain ⟨t, ht, hu⟩ := run_cons_eq_some.mp hr
      exact ih (hstep s a t hs (hm t ht).1 ht) (hm t ht).2 hu

theorem meets_true (s : σ) (as : List α) : Meets step (fun _ _ => True) s as := by
  induction as generalizing s with
  | nil => trivial
  | cons a as ih => exact fun t _ => ⟨trivial, ih t⟩

/-- The rule without a condition. -/
theorem invariant_run {P : σ → Prop} (hstep : ∀ s a t, P s → step s a = some t → P t)
    {s u : σ} {as : List α} (hs : P s) (hr : run step s as = some u) : P u :=
  guarded_run (fun s a t hP _ ht => hstep s a t hP ht) hs (meets_true s as) hr

theorem Reachable.refl (s : σ) : Reachable step s s := ⟨[], rfl⟩

theorem Reachable.run {s₀ s t : σ} {as : List α} (hs : Reachable step s₀ s)
    (hr : run step s as = some t) : Reachable step s₀ t := by
  obtain ⟨bs, hb⟩ := hs
  exact ⟨bs ++ as, run_append.mpr ⟨s, hb, hr⟩⟩

theorem Reachable.tail {s₀ s t : σ} {a : α} (hs : Reachable step s₀ s)
    (ha : step s a = some t) : Reachable step s₀ t :=
  hs.run (run_cons_eq_some.mpr ⟨t, ha, run_nil t⟩)

theorem Reachable.invariant {P : σ → Prop} (hstep : ∀ s a t, P s → step s a = some t → P t)
    {s₀ s : σ} (h₀ : P s₀) (hs : Reachable step s₀ s) : P s := by
  obtain ⟨as, ha⟩ := hs
  exact invariant_run hstep h₀ ha

/-- A condition that an action meets in every state is met wherever the action is taken. -/
theorem meets_of_forall {G : σ → α → Prop} {as : List α} (h : ∀ a ∈ as, ∀ s, G s a) (s : σ) :
    Meets step G s as := by
  induction as generalizing s with
  | nil => trivial
  | cons a as ih =>
      intro t _
      exact ⟨h a List.mem_cons_self s, ih (fun b hb => h b (List.mem_cons_of_mem a hb)) t⟩

/-- When one step reaches a `P`-state exactly if it meets `G`, a run passes only
`P`-states exactly if all its steps meet `G`. `A` holds of every action of the run,
and `I` on every such run. -/
theorem along_iff_meets_of {A : α → Prop} {I P : σ → Prop} {G : σ → α → Prop}
    (hinv : ∀ s a t, A a → I s → step s a = some t → I t)
    (hstep : ∀ s a t, A a → I s → P s → step s a = some t → (P t ↔ G s a))
    {s : σ} (hi : I s) (hs : P s) {as : List α} (ha : ∀ a ∈ as, A a) :
    Along step P s as ↔ Meets step G s as := by
  induction as generalizing s with
  | nil => exact ⟨fun _ => trivial, fun _ => hs⟩
  | cons a as ih =>
      have hA : A a := ha a List.mem_cons_self
      have hAs : ∀ b ∈ as, A b := fun b hb => ha b (List.mem_cons_of_mem a hb)
      constructor
      · rintro ⟨-, h⟩ t ht
        have hP : P t := by cases as with
          | nil => exact h t ht
          | cons b bs => exact (h t ht).1
        exact ⟨(hstep s a t hA hi hs ht).mp hP, (ih (hinv s a t hA hi ht) hP hAs).mp (h t ht)⟩
      · intro h
        refine ⟨hs, fun t ht => ?_⟩
        have hP : P t := (hstep s a t hA hi hs ht).mpr (h t ht).1
        exact (ih (hinv s a t hA hi ht) hP hAs).mpr (h t ht).2

/-- The rule for runs of any actions. -/
theorem along_iff_meets {I P : σ → Prop} {G : σ → α → Prop}
    (hinv : ∀ s a t, I s → step s a = some t → I t)
    (hstep : ∀ s a t, I s → P s → step s a = some t → (P t ↔ G s a))
    {s : σ} (hi : I s) (hs : P s) (as : List α) : Along step P s as ↔ Meets step G s as :=
  along_iff_meets_of (A := fun _ => True) (fun s a t _ => hinv s a t)
    (fun s a t _ => hstep s a t) hi hs
    (fun _ _ => trivial)

/-- The rule when more than `P` is needed to go on: steps that meet `G` keep `Q`, and from a
`Q`-state only they reach a `P`-state. All steps of the run meet `H`. -/
theorem along_iff_meets_under {P Q : σ → Prop} {G H : σ → α → Prop}
    (hsub : ∀ s, Q s → P s)
    (hkeep : ∀ s a t, H s a → Q s → G s a → step s a = some t → Q t)
    (honly : ∀ s a t, H s a → Q s → P t → step s a = some t → G s a)
    {s : σ} (hs : Q s) {as : List α} (hm : Meets step H s as) :
    Along step P s as ↔ Meets step G s as := by
  induction as generalizing s with
  | nil => exact ⟨fun _ => trivial, fun _ => hsub s hs⟩
  | cons a as ih =>
      constructor
      · rintro ⟨-, h⟩ t ht
        have hP : P t := by cases as with
          | nil => exact h t ht
          | cons b bs => exact (h t ht).1
        have hG := honly s a t (hm t ht).1 hs hP ht
        exact ⟨hG, (ih (hkeep s a t (hm t ht).1 hs hG ht) (hm t ht).2).mp (h t ht)⟩
      · intro h
        refine ⟨hsub s hs, fun t ht => ?_⟩
        exact (ih (hkeep s a t (hm t ht).1 hs (h t ht).1 ht) (hm t ht).2).mpr (h t ht).2

/-- The same for runs all of whose actions are of a kind. -/
theorem along_iff_meets_via {A : α → Prop} {P Q : σ → Prop} {G : σ → α → Prop}
    (hsub : ∀ s, Q s → P s)
    (hkeep : ∀ s a t, A a → Q s → G s a → step s a = some t → Q t)
    (honly : ∀ s a t, A a → Q s → P t → step s a = some t → G s a)
    {s : σ} (hs : Q s) {as : List α} (ha : ∀ a ∈ as, A a) :
    Along step P s as ↔ Meets step G s as :=
  along_iff_meets_under (H := fun _ a => A a) hsub hkeep honly hs
    (meets_of_forall (fun a hm _ => ha a hm) s)

/-- When one step that meets `G` reaches a `P`-state, a run whose steps all meet `G` passes
only `P`-states. -/
theorem along_of_meets {I P : σ → Prop} {G : σ → α → Prop}
    (hinv : ∀ s a t, I s → step s a = some t → I t)
    (hstep : ∀ s a t, I s → P s → G s a → step s a = some t → P t)
    {s : σ} (hi : I s) (hs : P s) {as : List α} (hm : Meets step G s as) : Along step P s as := by
  induction as generalizing s with
  | nil => exact hs
  | cons a as ih =>
      refine ⟨hs, fun t ht => ?_⟩
      exact ih (hinv s a t hi ht) (hstep s a t hi hs (hm t ht).1 ht) (hm t ht).2

end LuatAir200.Machine
