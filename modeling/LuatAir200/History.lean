import Mathlib.Data.List.Infix

/-!
# Histories

A history lists the events of a run in order. `Justified` says that what comes before an
event accounts for it; a run keeps it if every event is accounted for when it happens.
-/
namespace LuatAir200

variable {α : Type*} {J : List α → α → Prop}

/-- Every event of the history is justified by those before it. -/
def Justified (J : List α → α → Prop) (hist : List α) : Prop :=
  ∀ pre v post, hist = pre ++ v :: post → J pre v

theorem justified_nil : Justified J [] := by
  intro pre v post h
  simp at h

theorem Justified.snoc {hist : List α} {v : α} (h : Justified J hist) (hv : J hist v) :
    Justified J (hist ++ [v]) := by
  intro pre w post heq
  rcases List.eq_nil_or_concat post with rfl | ⟨post', u, rfl⟩
  · obtain ⟨rfl, hvw⟩ := List.append_inj' heq rfl
    exact List.singleton_inj.mp hvw ▸ hv
  · rw [List.concat_eq_append, ← List.cons_append, ← List.append_assoc] at heq
    obtain ⟨hh, -⟩ := List.append_inj' heq rfl
    exact h pre w post' hh

end LuatAir200
