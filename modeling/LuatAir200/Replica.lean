import Mathlib.Data.List.Basic

/-!
# Replicas fed by messages

A replica of some value is kept by the messages that announce its changes. While
messages are on their way the two differ; what can be kept is that the replica will
hold the value once they all have come.
-/
namespace LuatAir200.Replica

variable {β μ : Type*} (apply : β → μ → β)

/-- A replica `r` that holds `v` once the messages `q` have come. -/
def Synced (q : List μ) (r v : β) : Prop := q.foldl apply r = v

variable {apply}

theorem synced_nil {r v : β} : Synced apply [] r v ↔ r = v := Iff.rfl

/-- A change is announced. -/
theorem Synced.push {q : List μ} {r v : β} (h : Synced apply q r v) (m : μ) :
    Synced apply (q ++ [m]) r (apply v m) := by
  rw [Synced, List.foldl_append, h]
  rfl

/-- A message comes. -/
theorem synced_cons {q : List μ} {m : μ} {r v : β} :
    Synced apply (m :: q) r v ↔ Synced apply q (apply r m) v := Iff.rfl

/-- Messages that announce nothing can be left out. -/
theorem synced_filter {keep : μ → Bool} (hk : ∀ m r, keep m = false → apply r m = r)
    {q : List μ} {r v : β} : Synced apply (q.filter keep) r v ↔ Synced apply q r v := by
  induction q generalizing r with
  | nil => rfl
  | cons m q ih =>
      cases hm : keep m with
      | true => rw [List.filter_cons_of_pos hm, synced_cons, synced_cons, ih]
      | false =>
          rw [List.filter_cons_of_neg (by simp [hm]), synced_cons, hk m r hm, ih]

end LuatAir200.Replica
