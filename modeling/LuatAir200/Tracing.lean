import LuatAir200.Machine

/-!
# Systems that follow one deterministic machine

What a system does in a step is written down as a list of inputs. The system follows a
machine when its view after a step is what the machine makes of these inputs. Two systems
that follow the same machine show the same view after the same inputs, however different
their steps are.
-/
namespace LuatAir200.Tracing
open Machine

variable {σ α ι β : Type*} {step : σ → α → Option σ} {inputs : σ → α → List ι} {view : σ → β}
  {next : β → ι → β}

/-- The inputs of a run. -/
def trace (step : σ → α → Option σ) (inputs : σ → α → List ι) : σ → List α → List ι
  | _, [] => []
  | s, a :: as => inputs s a ++ (step s a).elim [] fun t => trace step inputs t as

theorem trace_cons {s t : σ} {a : α} {as : List α} (h : step s a = some t) :
    trace step inputs s (a :: as) = inputs s a ++ trace step inputs t as := by
  rw [trace, h]
  rfl

/-- Each step shows what the machine makes of its inputs. -/
def Follows (step : σ → α → Option σ) (inputs : σ → α → List ι) (view : σ → β)
    (next : β → ι → β) : Prop :=
  ∀ s a t, step s a = some t → view t = (inputs s a).foldl next (view s)

/-- So does each run. -/
theorem Follows.run (h : Follows step inputs view next) {s t : σ} {as : List α}
    (hr : run step s as = some t) : view t = (trace step inputs s as).foldl next (view s) := by
  induction as generalizing s with
  | nil =>
      cases hr
      rfl
  | cons a as ih =>
      obtain ⟨u, hu, hr⟩ := run_cons_eq_some.mp hr
      rw [trace_cons hu, List.foldl_append, ← h s a u hu]
      exact ih hr

/-- Two machines that agree on the inputs that come cannot be told apart. -/
theorem foldl_congr {next' : β → ι → β} {is : List ι}
    (h : ∀ i ∈ is, ∀ v, next v i = next' v i) (v : β) : is.foldl next v = is.foldl next' v := by
  induction is generalizing v with
  | nil => rfl
  | cons i is ih =>
      rw [List.foldl_cons, List.foldl_cons, h i List.mem_cons_self]
      exact ih (fun j hj => h j (List.mem_cons_of_mem i hj)) _

end LuatAir200.Tracing
