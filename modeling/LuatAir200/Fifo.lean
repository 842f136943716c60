import Mathlib.Data.List.Basic

/-!
# A single-server queue

Jobs wait in order; at most one is being served. Starting a job takes the head
of the queue, and a job that the server refuses is dropped at that moment.
-/
namespace LuatAir200

structure Fifo (α : Type*) where
  current : Option α
  waiting : List α

namespace Fifo

variable {α : Type*}

def empty : Fifo α := ⟨none, []⟩

/-- The job being served, then the waiting ones in order. -/
def items (q : Fifo α) : List α := q.current.toList ++ q.waiting

def push (q : Fifo α) (a : α) : Fifo α := ⟨q.current, q.waiting ++ [a]⟩

/-- Take the head of the queue when no job is served; `accepts` decides whether
it is served or dropped. -/
def start (accepts : α → Bool) (q : Fifo α) : Option (Fifo α) :=
  match q.current, q.waiting with
  | none, a :: w => some (if accepts a then ⟨some a, w⟩ else ⟨none, w⟩)
  | _, _ => none

/-- The server is done with its job. -/
def finish (q : Fifo α) : Fifo α := ⟨none, q.waiting⟩

@[simp] theorem items_empty : (empty : Fifo α).items = [] := rfl

@[simp] theorem items_push (q : Fifo α) (a : α) : (q.push a).items = q.items ++ [a] := by
  simp [items, push]

@[simp] theorem current_push (q : Fifo α) (a : α) : (q.push a).current = q.current := rfl

theorem items_eq_cons {q : Fifo α} {a : α} (h : q.current = some a) :
    q.items = a :: q.finish.items := by
  simp [items, finish, h]

@[simp] theorem current_finish (q : Fifo α) : q.finish.current = none := rfl

/-- Starting a job keeps every waiting job, but for a refused head. -/
theorem start_cases {accepts : α → Bool} {q q' : Fifo α} (h : start accepts q = some q') :
    q'.items = q.items ∨ ∃ a, accepts a = false ∧ q.items = a :: q'.items := by
  obtain ⟨c, w⟩ := q
  cases c with
  | some c => simp [start] at h
  | none =>
      cases w with
      | nil => simp [start] at h
      | cons a w =>
          simp only [start, Option.some.injEq] at h
          subst h
          by_cases ha : accepts a = true
          · exact .inl (by simp [items, ha])
          · exact .inr ⟨a, by simpa using ha, by simp [items, ha]⟩

/-- Only a job that is refused can be lost by starting the next one. -/
theorem mem_start {accepts : α → Bool} {q q' : Fifo α} (h : start accepts q = some q')
    {x : α} (hx : x ∈ q.items) (ha : accepts x = true) : x ∈ q'.items := by
  obtain he | ⟨a, hf, he⟩ := start_cases h
  · rwa [he]
  · rw [he, List.mem_cons] at hx
    obtain rfl | hx := hx
    · rw [ha] at hf; cases hf
    · exact hx

end Fifo
end LuatAir200
