import Mathlib.Data.List.Basic
import Mathlib.Data.List.Perm.Basic
import Mathlib.Data.List.Sublists

/-!
# A queue with one item in flight

Items are accepted, wait in a queue, are handed over one at a time and reported
when they are answered or given up. `Accounts` says that every accepted item is
waiting, in flight or reported, and `Ordered` that items are handed over in the
order of acceptance. Each holds as long as no move is made that breaks it.
-/
namespace LuatAir200

structure Outbox (α : Type*) where
  waiting : List α
  flying : Option α
  accepted : List α
  handed : List α
  reported : List α

namespace Outbox

variable {α : Type*}

def empty : Outbox α := ⟨[], none, [], [], []⟩

/-- What can happen to the items. -/
inductive Move (α : Type*)
  | keep
  /-- An item is accepted into the queue, or handed over at once, or lost at once. -/
  | queue (i : ℕ) (a : α)
  | direct (a : α)
  | lose (a : α)
  /-- The first waiting item is handed over, or reported without that. -/
  | next
  | fail
  /-- The item in flight is reported. -/
  | answer
  /-- What waits and flies is forgotten. -/
  | reset

def move (o : Outbox α) : Move α → Option (Outbox α)
  | .keep => some o
  | .queue i a =>
      if i ≤ o.waiting.length then
        some { o with waiting := o.waiting.insertIdx i a, accepted := o.accepted ++ [a] }
      else none
  | .direct a =>
      match o.flying with
      | none =>
          some { o with flying := some a, accepted := o.accepted ++ [a], handed := o.handed ++ [a] }
      | some _ => none
  | .lose a => some { o with accepted := o.accepted ++ [a] }
  | .next =>
      match o.waiting, o.flying with
      | a :: as, none => some { o with waiting := as, flying := some a, handed := o.handed ++ [a] }
      | _, _ => none
  | .fail =>
      match o.waiting with
      | a :: as => some { o with waiting := as, reported := o.reported ++ [a] }
      | [] => none
  | .answer => some { o with flying := none, reported := o.reported ++ o.flying.toList }
  | .reset => some { o with waiting := [], flying := none }

/-- The items that are not reported yet. -/
def held (o : Outbox α) : List α := o.waiting ++ o.flying.toList

/-- Every accepted item is held or has been reported, and none is twice. -/
def Accounts (o : Outbox α) : Prop := o.accepted.Perm (o.held ++ o.reported)

/-- Items are handed over in the order of acceptance. -/
def Ordered (o : Outbox α) : Prop := (o.handed ++ o.waiting).Sublist o.accepted

/-- What a move accepts. -/
def Move.gains : Move α → List α
  | .queue _ a | .direct a | .lose a => [a]
  | _ => []

/-- What a move forgets. -/
def forgotten (o : Outbox α) : Move α → List α
  | .lose a => [a]
  | .reset => o.held
  | _ => []

/-- Nothing is held or reported more often than it was accepted. -/
def Bounded [DecidableEq α] (o : Outbox α) : Prop :=
  ∀ x, (o.held ++ o.reported).count x ≤ o.accepted.count x

/-- The moves by which an item gets ahead of another one. -/
def Overtakes (o : Outbox α) : Move α → Prop
  | .queue i _ => i ≠ o.waiting.length
  | .direct _ => o.waiting ≠ []
  | _ => False

theorem move_accepted {o p : Outbox α} {m : Move α} (h : o.move m = some p) :
    p.accepted = o.accepted ++ m.gains := by
  cases m with
  | queue i a =>
      obtain ⟨-, ⟨⟩⟩ := Option.ite_none_right_eq_some.mp h
      rfl
  | keep | answer | reset =>
      cases h
      exact (List.append_nil _).symm
  | lose a =>
      cases h
      rfl
  | direct a =>
      simp only [move] at h
      split at h
      · cases h
        rfl
      · cases h
  | next | fail =>
      simp only [move] at h
      split at h
      · cases h
        exact (List.append_nil _).symm
      · cases h

/-- What is held or reported after a move was so before, or has just been accepted. -/
theorem move_balance {o p : Outbox α} {m : Move α} (h : o.move m = some p) :
    (p.held ++ p.reported ++ o.forgotten m).Perm (o.held ++ o.reported ++ m.gains) := by
  classical
  rw [List.perm_iff_count]
  intro x
  simp only [held, List.count_append]
  cases m with
  | keep =>
      cases h
      rfl
  | queue i a =>
      obtain ⟨hi, ⟨⟩⟩ := Option.ite_none_right_eq_some.mp h
      have hins := (List.perm_insertIdx a o.waiting hi).count_eq x
      simp only [Move.gains, forgotten, List.count_cons, List.count_nil] at *
      omega
  | direct a =>
      obtain ⟨w, f, ac, ha, r⟩ := o
      cases f with
      | some b => cases h
      | none =>
          cases h
          simp only [Move.gains, forgotten, Option.toList_none, Option.toList_some, List.count_nil]
          omega
  | lose a =>
      cases h
      rfl
  | next =>
      obtain ⟨w, f, ac, ha, r⟩ := o
      cases w with
      | nil => cases h
      | cons a as =>
          cases f with
          | some b => cases h
          | none =>
              cases h
              simp only [Move.gains, forgotten, List.count_cons, Option.toList_none,
                Option.toList_some, List.count_nil]
              omega
  | fail =>
      obtain ⟨w, f, ac, ha, r⟩ := o
      cases w with
      | nil => cases h
      | cons a as =>
          cases h
          simp only [Move.gains, forgotten, List.count_append, List.count_cons, List.count_nil]
          omega
  | answer =>
      cases h
      simp only [Move.gains, forgotten, List.count_append, Option.toList_none, List.count_nil]
      omega
  | reset =>
      cases h
      simp only [Move.gains, forgotten, held, List.count_append, Option.toList_none, List.count_nil]
      omega

/-- The balance for the items of one kind. -/
theorem move_countP {o q : Outbox α} {m : Move α} (h : o.move m = some q) (p : α → Bool) :
    q.held.countP p + q.reported.countP p + (o.forgotten m).countP p =
      o.held.countP p + o.reported.countP p + m.gains.countP p := by
  have hb := (move_balance h).countP_eq p
  simpa only [List.countP_append] using hb

/-- A move keeps the accounts exactly if it forgets nothing. -/
theorem move_accounts {o p : Outbox α} {m : Move α} (ho : o.Accounts) (h : o.move m = some p) :
    p.Accounts ↔ o.forgotten m = [] := by
  have hb := move_balance h
  have hacc : p.accepted.Perm (o.held ++ o.reported ++ m.gains) := by
    rw [move_accepted h]
    exact ho.append_right m.gains
  constructor
  · intro hp
    have hlen := (hacc.symm.trans hp).length_eq
    have hlen' := hb.length_eq
    rw [List.length_append, ← hlen] at hlen'
    exact List.eq_nil_of_length_eq_zero (by omega)
  · intro hn
    rw [hn, List.append_nil] at hb
    exact hacc.trans hb.symm

theorem move_bounded [DecidableEq α] {o p : Outbox α} {m : Move α} (ho : o.Bounded)
    (h : o.move m = some p) : p.Bounded := by
  intro x
  have hb := (move_balance h).count_eq x
  have hx := ho x
  rw [move_accepted h, List.count_append]
  simp only [List.count_append] at hb hx ⊢
  omega

theorem move_ordered {o p : Outbox α} {m : Move α} (ho : o.Ordered) (hm : ¬o.Overtakes m)
    (h : o.move m = some p) : p.Ordered := by
  unfold Ordered at *
  cases m with
  | keep =>
      cases h
      exact ho
  | queue i a =>
      obtain ⟨-, ⟨⟩⟩ := Option.ite_none_right_eq_some.mp h
      have hi : i = o.waiting.length := by
        by_contra hn
        exact hm hn
      subst hi
      rw [List.insertIdx_length_self, ← List.append_assoc]
      exact ho.append (List.Sublist.refl [a])
  | direct a =>
      have hw : o.waiting = [] := by
        by_contra hn
        exact hm hn
      simp only [move] at h
      split at h
      · cases h
        simp only [hw, List.append_nil] at *
        exact ho.append (List.Sublist.refl [a])
      · cases h
  | lose a =>
      cases h
      exact ho.trans (List.sublist_append_left _ _)
  | next =>
      simp only [move] at h
      split at h
      · rename_i a as hw hf
        cases h
        rw [hw] at ho
        simpa using ho
      · cases h
  | fail =>
      simp only [move] at h
      split at h
      · rename_i a as hw
        cases h
        rw [hw] at ho
        exact ((List.sublist_cons_self a as).append_left o.handed).trans ho
      · cases h
  | answer =>
      cases h
      exact ho
  | reset =>
      cases h
      exact (List.append_sublist_append_left o.handed |>.mpr (List.nil_sublist _)).trans ho

/-- An item that is handed over before the waiting ones gets ahead of them. -/
theorem direct_not_ordered {o p : Outbox α} {a : α} (h : o.move (.direct a) = some p)
    (hw : o.waiting ≠ []) (hn : p.accepted.Nodup) : ¬p.Ordered := by
  simp only [move] at h
  split at h
  swap
  · cases h
  cases h
  intro ho
  have hne : a ∉ o.accepted := by
    rw [List.nodup_append] at hn
    exact fun ha => hn.2.2 a ha a (List.mem_singleton_self a) rfl
  have hd : ((o.handed ++ [a]) ++ o.waiting.dropLast).Sublist o.accepted := by
    have ht : (o.handed ++ [a] ++ o.waiting).reverse.tail.Sublist (o.accepted ++ [a]).reverse.tail :=
      (List.reverse_sublist.mpr ho).tail
    rw [List.tail_reverse, List.tail_reverse, List.reverse_sublist, List.dropLast_concat,
      List.dropLast_append_of_ne_nil hw] at ht
    exact ht
  exact hne (hd.subset (by simp))

/-- When accepted items are all different, an item that is accounted for is held or
reported, and exactly once. -/
theorem Accounts.exactly_once [DecidableEq α] {o : Outbox α} (h : o.Accounts)
    (hn : o.accepted.Nodup) {x : α} (hx : x ∈ o.accepted) :
    x ∈ o.waiting ∧ o.flying ≠ some x ∧ o.reported.count x = 0 ∨
    x ∉ o.waiting ∧ o.flying = some x ∧ o.reported.count x = 0 ∨
    x ∉ o.waiting ∧ o.flying ≠ some x ∧ o.reported.count x = 1 := by
  have hc := List.Perm.count_eq h x
  rw [held, List.count_append, List.count_append] at hc
  have h1 : o.accepted.count x = 1 := List.count_eq_one_of_mem hn hx
  have hf : o.flying.toList.count x = if o.flying = some x then 1 else 0 := by
    cases o.flying with
    | none => simp
    | some y => by_cases hy : y = x <;> simp [hy]
  by_cases hw : x ∈ o.waiting
  · have hp : 0 < o.waiting.count x := List.count_pos_iff.mpr hw
    refine .inl ⟨hw, fun he => ?_, by omega⟩
    rw [if_pos he] at hf
    omega
  · have h0 : o.waiting.count x = 0 := List.count_eq_zero.mpr hw
    by_cases he : o.flying = some x
    · rw [if_pos he] at hf
      exact .inr (.inl ⟨hw, he, by omega⟩)
    · rw [if_neg he] at hf
      exact .inr (.inr ⟨hw, he, by omega⟩)

end Outbox
end LuatAir200
