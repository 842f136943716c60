import Mathlib.Data.List.Basic
import Mathlib.Logic.Function.Basic

/-!
# Callbacks in slots

Commands are answered in the order in which they were issued, but the callbacks that the
answers call are kept in a few slots. `take` says what an answer finds in the slots of its
lane and what it leaves there. The commands that are outstanding are served when each of them
will find its own callback, or none if it has none.
-/
namespace LuatAir200.CallbackSlots

variable {κ τ ι : Type*} (take : τ → Option κ × τ)

/-- The answers to the outstanding commands of one lane, given by their callbacks. -/
def Serves : τ → List (Option κ) → Prop
  | _, [] => True
  | s, o :: os => (take s).1 = o ∧ Serves (take s).2 os

variable {take}

@[simp] theorem serves_nil (s : τ) : Serves take s [] := trivial

@[simp] theorem serves_cons (s : τ) (o : Option κ) (os : List (Option κ)) :
    Serves take s (o :: os) ↔ (take s).1 = o ∧ Serves take (take s).2 os := Iff.rfl

/-- What the front of the queue is served does not depend on what is behind it. -/
theorem Serves.front {s : τ} {os ps : List (Option κ)} (h : Serves take s (os ++ ps)) :
    Serves take s os := by
  induction os generalizing s with
  | nil => trivial
  | cons o os ih => exact ⟨h.1, ih h.2⟩

section Lanes

variable [DecidableEq ι]

/-- The callbacks of the outstanding commands of lane `i`. -/
def lane (i : ι) (l : List (ι × Option κ)) : List (Option κ) :=
  (l.filter fun c => c.1 = i).map Prod.snd

variable (take) in
/-- The outstanding commands of all lanes, each answered from the slots of its own. -/
def ServesAll : (ι → τ) → List (ι × Option κ) → Prop
  | _, [] => True
  | f, (i, o) :: l => (take (f i)).1 = o ∧ ServesAll (Function.update f i (take (f i)).2) l

theorem lane_cons (i j : ι) (o : Option κ) (l : List (ι × Option κ)) :
    lane i ((j, o) :: l) = if j = i then o :: lane i l else lane i l := by
  by_cases h : j = i <;> simp [lane, h]

theorem lane_concat (i j : ι) (o : Option κ) (l : List (ι × Option κ)) :
    lane i (l ++ [(j, o)]) = if j = i then lane i l ++ [o] else lane i l := by
  by_cases h : j = i <;> simp [lane, h]

/-- The lanes do not disturb each other. -/
theorem servesAll_iff {f : ι → τ} {l : List (ι × Option κ)} :
    ServesAll take f l ↔ ∀ i, Serves take (f i) (lane i l) := by
  induction l generalizing f with
  | nil => exact ⟨fun _ _ => trivial, fun _ => trivial⟩
  | cons c l ih =>
      obtain ⟨j, o⟩ := c
      rw [ServesAll, ih]
      constructor
      · rintro ⟨ho, hl⟩ i
        have hi := hl i
        rw [lane_cons]
        by_cases hj : j = i
        · subst hj
          rw [Function.update_self] at hi
          rw [if_pos rfl]
          exact ⟨ho, hi⟩
        · rw [Function.update_of_ne (Ne.symm hj)] at hi
          rw [if_neg hj]
          exact hi
      · intro h
        have hj := h j
        rw [lane_cons, if_pos rfl] at hj
        refine ⟨hj.1, fun i => ?_⟩
        by_cases hi : i = j
        · subst hi
          rw [Function.update_self]
          exact hj.2
        · have h' := h i
          rw [lane_cons, if_neg (Ne.symm hi)] at h'
          rw [Function.update_of_ne hi]
          exact h'

end Lanes

/-! ## One slot that stays as it is -/

/-- An answer leaves the callback in its slot. -/
def keep (s : Option κ) : Option κ × Option κ := (s, s)

theorem serves_keep {s : Option κ} {os : List (Option κ)} :
    Serves keep s os ↔ ∀ o ∈ os, o = s := by
  induction os with
  | nil => simp
  | cons o os ih =>
      rw [serves_cons, List.forall_mem_cons]
      show s = o ∧ Serves keep s os ↔ _
      rw [ih, eq_comm]

/-! ## Two slots that are emptied -/

/-- An answer looks into the first slot, then into the second, and empties the one it takes. -/
def takeFirst (s : Option κ × Option κ) : Option κ × (Option κ × Option κ) :=
  match s with
  | (some a, d) => (some a, (none, d))
  | (none, d) => (d, (none, none))

/-- The callbacks in the slots, the one that is called first coming first. -/
def held (s : Option κ × Option κ) : List κ := s.1.toList ++ s.2.toList

theorem takeFirst_fst (s : Option κ × Option κ) : (takeFirst s).1 = (held s).head? := by
  obtain ⟨w, d⟩ := s
  cases w <;> cases d <;> rfl

theorem held_takeFirst (s : Option κ × Option κ) : held (takeFirst s).2 = (held s).tail := by
  obtain ⟨w, d⟩ := s
  cases w <;> cases d <;> rfl

/-- The commands are served when the first ones have the callbacks in the slots, in that order,
and the others have none. -/
theorem serves_takeFirst {s : Option κ × Option κ} {os : List (Option κ)}
    (hs : (held s).length ≤ os.length) : Serves takeFirst s os ↔
      os = (held s).map some ++ List.replicate (os.length - (held s).length) none := by
  induction os generalizing s with
  | nil =>
      have h0 : held s = [] := List.length_eq_zero_iff.mp (Nat.le_zero.mp hs)
      simp [h0]
  | cons o os ih =>
      have htail : (held (takeFirst s).2).length ≤ os.length := by
        rw [held_takeFirst, List.length_tail]
        simp only [List.length_cons] at hs
        omega
      rw [serves_cons, ih htail, takeFirst_fst, held_takeFirst]
      cases hl : held s with
      | nil =>
          simp only [List.head?_nil, List.tail_nil, List.map_nil, List.nil_append, List.length_nil,
            Nat.sub_zero, List.length_cons, List.replicate_succ, List.cons.injEq]
          rw [eq_comm (a := none)]
      | cons a l =>
          simp only [List.head?_cons, List.tail_cons, List.map_cons, List.cons_append,
            List.length_cons, Nat.add_sub_add_right, List.cons.injEq]
          rw [eq_comm (a := some a)]

section Calls

variable {w d : Option κ} {os : List (Option κ)} {a : κ}

theorem length_held : (held (w, d)).length = w.toList.length + d.toList.length := by
  rw [held, List.length_append]

/-- A command with a callback for the first slot is served only if nothing is outstanding. -/
theorem serves_first_some (hs : (held (w, d)).length ≤ os.length)
    (h : Serves takeFirst (w, d) os) (ha : some a ∉ os) :
    Serves takeFirst (some a, d) (os ++ [some a]) ↔ os = [] := by
  have hlen : (held (some a, d)).length ≤ (os ++ [some a]).length := by
    rw [length_held] at hs ⊢
    simp only [Option.toList_some, List.length_singleton, List.length_append]
    omega
  rw [serves_takeFirst hlen]
  constructor
  · intro he
    cases os with
    | nil => rfl
    | cons o os =>
        simp only [held, Option.toList_some, List.map_cons, List.cons_append,
          List.cons.injEq] at he
        exact absurd (he.1 ▸ List.mem_cons_self) ha
  · rintro rfl
    rw [length_held] at hs
    cases d with
    | none => rfl
    | some b => simp at hs

/-- One without a callback empties the first slot. -/
theorem serves_first_none (hs : (held (w, d)).length ≤ os.length)
    (h : Serves takeFirst (w, d) os) (hne : ∀ a, w = some a → d ≠ some a) :
    Serves takeFirst (none, d) (os ++ [none]) ↔ w = none := by
  have hlen : (held (none, d)).length ≤ (os ++ [none]).length := by
    rw [length_held] at hs ⊢
    simp only [Option.toList_none, List.length_nil, List.length_append]
    omega
  constructor
  · intro h'
    cases w with
    | none => rfl
    | some a =>
        have hfront := h'.front
        cases os with
        | nil => simp [held] at hs
        | cons o os =>
            have ho : some a = o := h.1
            have ho' : d = o := hfront.1
            exact absurd (ho'.trans ho.symm) (hne a rfl)
  · rintro rfl
    rw [serves_takeFirst hs] at h
    rw [serves_takeFirst hlen, List.length_append, List.length_singleton,
      Nat.sub_add_comm hs, List.replicate_succ', ← List.append_assoc]
    exact congrArg (· ++ [none]) h

/-- A command with a callback for the second slot is served only if what is outstanding is
served from the first slot. -/
theorem serves_second_some (hs : (held (w, d)).length ≤ os.length)
    (h : Serves takeFirst (w, d) os) (ha : some a ∉ os) :
    Serves takeFirst (w, some a) (os ++ [some a]) ↔ os.length = w.toList.length := by
  have hlen : (held (w, some a)).length ≤ (os ++ [some a]).length := by
    rw [length_held] at hs ⊢
    simp only [Option.toList_some, List.length_singleton, List.length_append]
    omega
  rw [serves_takeFirst hs] at h
  rw [serves_takeFirst hlen]
  cases w with
  | none =>
      simp only [Option.toList_none, List.length_nil, List.length_eq_zero_iff]
      constructor
      · intro he
        cases os with
        | nil => rfl
        | cons o os =>
            simp only [held, Option.toList_none, Option.toList_some, List.nil_append, List.map_cons,
              List.cons_append, List.cons.injEq] at he
            exact absurd (he.1 ▸ List.mem_cons_self) ha
      · rintro rfl
        rfl
  | some b =>
      cases os with
      | nil => simp [held] at hs
      | cons o os =>
          simp only [held, Option.toList_some, List.map_cons, List.cons_append,
            List.cons.injEq] at h ⊢
          constructor
          · rintro ⟨-, he⟩
            cases os with
            | nil => rfl
            | cons p os =>
                simp only [List.cons_append, List.map_cons, List.map_nil, List.nil_append,
                  List.cons.injEq] at he
                have hp : some a ∈ o :: p :: os := by simp [he.1]
                exact absurd hp ha
          · intro hl
            have hos : os = [] := by simpa using hl
            refine ⟨h.1, ?_⟩
            subst hos
            rfl

/-- One without a callback empties the second slot. -/
theorem serves_second_none (hs : (held (w, d)).length ≤ os.length)
    (h : Serves takeFirst (w, d) os) :
    Serves takeFirst (w, none) (os ++ [none]) ↔ d = none := by
  have hlen : (held (w, none)).length ≤ (os ++ [none]).length := by
    rw [length_held] at hs ⊢
    simp only [Option.toList_none, List.length_nil, List.length_append]
    omega
  constructor
  · intro h'
    cases d with
    | none => rfl
    | some b =>
        exfalso
        have hfront := h'.front
        cases w with
        | none =>
            cases os with
            | nil => simp [held] at hs
            | cons o os =>
                have ho : some b = o := h.1
                have ho' : none = o := hfront.1
                exact absurd (ho.trans ho'.symm) (by simp)
        | some a =>
            cases os with
            | nil => simp [held] at hs
            | cons o os =>
                cases os with
                | nil => simp [held] at hs
                | cons p os =>
                    have hp : some b = p := h.2.1
                    have hp' : none = p := hfront.2.1
                    exact absurd (hp.trans hp'.symm) (by simp)
  · rintro rfl
    rw [serves_takeFirst hs] at h
    rw [serves_takeFirst hlen, List.length_append, List.length_singleton,
      Nat.sub_add_comm hs, List.replicate_succ', ← List.append_assoc]
    exact congrArg (· ++ [none]) h

end Calls

end LuatAir200.CallbackSlots
