import Mathlib.Data.Nat.Notation
import Mathlib.Logic.Function.Basic

/-!
# Timers by their due times

Each key has one timer at most. Time goes on up to the next due time and not beyond, so the
timers expire in the order of their due times; those due at the same time, in any order.
-/
namespace LuatAir200.Due

structure Clock (κ : Type*) where
  now : ℕ
  due : κ → Option ℕ

variable {κ : Type*} [DecidableEq κ]

def Clock.start (k : κ) (ms : ℕ) (c : Clock κ) : Clock κ :=
  { c with due := Function.update c.due k (some (c.now + ms)) }

def Clock.stop (k : κ) (c : Clock κ) : Clock κ :=
  { c with due := Function.update c.due k none }

/-- `d` milliseconds go by, when none of the timers `ks` is due before. -/
def Clock.pass (ks : List κ) (d : ℕ) (c : Clock κ) : Option (Clock κ) :=
  if ks.all fun k => (c.due k).all fun x => c.now + d ≤ x then some { c with now := c.now + d }
  else none

/-- An expired timer is gone. -/
def Clock.expire (k : κ) (c : Clock κ) : Option (Clock κ) :=
  if c.due k = some c.now then some (c.stop k) else none

section Fields

variable (k j : κ) (ms : ℕ) (c : Clock κ)

@[simp] theorem now_start : (c.start k ms).now = c.now := rfl

@[simp] theorem now_stop : (c.stop k).now = c.now := rfl

@[simp] theorem due_start : (c.start k ms).due j = if j = k then some (c.now + ms) else c.due j :=
  Function.update_apply _ _ _ _

@[simp] theorem due_stop : (c.stop k).due j = if j = k then none else c.due j :=
  Function.update_apply _ _ _ _

end Fields

/-- No timer is overdue. -/
def Clock.Timely (c : Clock κ) : Prop := ∀ k x, c.due k = some x → c.now ≤ x

theorem Clock.Timely.start {c : Clock κ} (h : c.Timely) (k : κ) (ms : ℕ) : (c.start k ms).Timely := by
  intro j x hj
  by_cases hk : j = k
  · subst hk
    obtain rfl : c.now + ms = x := by simpa using hj
    exact Nat.le_add_right _ _
  · exact h j x (by simpa [hk] using hj)

theorem Clock.Timely.stop {c : Clock κ} (h : c.Timely) (k : κ) : (c.stop k).Timely := by
  intro j x hj
  by_cases hk : j = k
  · subst hk
    simp at hj
  · exact h j x (by simpa [hk] using hj)

omit [DecidableEq κ] in
theorem pass_eq {ks : List κ} {d : ℕ} {c c' : Clock κ} (h : c.pass ks d = some c')
    (hall : ∀ k, k ∈ ks) :
    c' = { c with now := c.now + d } ∧ ∀ k x, c.due k = some x → c.now + d ≤ x := by
  unfold Clock.pass at h
  split at h
  · rename_i hk
    rw [List.all_eq_true] at hk
    refine ⟨(Option.some.inj h).symm, ?_⟩
    intro k x hx
    simpa [hx] using hk k (hall k)
  · cases h

theorem expire_eq {k : κ} {c c' : Clock κ} (h : c.expire k = some c') :
    c.due k = some c.now ∧ c' = c.stop k := by
  unfold Clock.expire at h
  split at h
  · rename_i hk
    exact ⟨hk, (Option.some.inj h).symm⟩
  · cases h

end LuatAir200.Due
