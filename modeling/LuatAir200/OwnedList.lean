import LuatAir200.Keyed

/-!
# Lists that several owners share

The part `q` of a list, when the first element that `p` selects in the whole list is
removed or changed. When it belongs to the part, this is the same operation on the part
alone; when it does not, the part stays as it is.
-/
namespace LuatAir200.OwnedList
open Keyed

variable {α : Type} {p q r : α → Bool} {l : List α}

/-- What `p` selects first, if anything, belongs to the part `q`. -/
def Finds (q p : α → Bool) (l : List α) : Prop := ∀ a, l.find? p = some a → q a = true

theorem Finds.imp (hi : ∀ a, q a = true → r a = true) (h : Finds q p l) : Finds r p l :=
  fun a ha => hi a (h a ha)

theorem finds_cons_of_pos {a : α} (ha : p a = true) : Finds q p (a :: l) ↔ q a = true := by
  simp [Finds, List.find?_cons_of_pos ha]

theorem finds_cons_of_neg {a : α} (ha : p a = false) : Finds q p (a :: l) ↔ Finds q p l := by
  simp [Finds, ha]

/-- Selection in the part. -/
theorem Finds.find (h : Finds q p l) : (l.filter q).find? p = l.find? p := by
  induction l with
  | nil => rfl
  | cons a l ih =>
      cases ha : p a with
      | true =>
          have hq : q a = true := (finds_cons_of_pos ha).mp h
          simp [hq, ha]
      | false =>
          have hl := ih ((finds_cons_of_neg ha).mp h)
          by_cases hq : q a = true <;> simp [hq, ha, hl]

theorem Finds.eraseP (h : Finds q p l) : (l.eraseP p).filter q = (l.filter q).eraseP p := by
  induction l with
  | nil => rfl
  | cons a l ih =>
      cases ha : p a with
      | true =>
          have hq : q a = true := (finds_cons_of_pos ha).mp h
          simp [hq, ha]
      | false =>
          have hl := ih ((finds_cons_of_neg ha).mp h)
          by_cases hq : q a = true <;> simp [hq, ha, hl]

theorem Finds.eraseP_other (h : Finds r p l) (hr : ∀ a, r a = true → q a = false) :
    (l.eraseP p).filter q = l.filter q := by
  induction l with
  | nil => rfl
  | cons a l ih =>
      cases ha : p a with
      | true =>
          have hq : q a = false := hr a ((finds_cons_of_pos ha).mp h)
          simp [hq, ha]
      | false =>
          have hl := ih ((finds_cons_of_neg ha).mp h)
          by_cases hq : q a = true <;> simp [hq, ha, hl]

variable {f : α → α}

theorem Finds.modify (h : Finds q p l) (hf : ∀ a, q (f a) = q a) :
    (Keyed.modify p f l).filter q = Keyed.modify p f (l.filter q) := by
  induction l with
  | nil => rfl
  | cons a l ih =>
      cases ha : p a with
      | true =>
          have hq : q a = true := (finds_cons_of_pos ha).mp h
          simp [Keyed.modify, hq, ha, hf]
      | false =>
          have hl := ih ((finds_cons_of_neg ha).mp h)
          by_cases hq : q a = true <;> simp [Keyed.modify, hq, ha, hl]

theorem Finds.modify_other (h : Finds r p l) (hr : ∀ a, r a = true → q a = false)
    (hf : ∀ a, q (f a) = q a) : (Keyed.modify p f l).filter q = l.filter q := by
  induction l with
  | nil => rfl
  | cons a l ih =>
      cases ha : p a with
      | true =>
          have hq : q a = false := hr a ((finds_cons_of_pos ha).mp h)
          simp [Keyed.modify, hq, ha, hf]
      | false =>
          have hl := ih ((finds_cons_of_neg ha).mp h)
          by_cases hq : q a = true <;> simp [Keyed.modify, hq, ha, hl]

/-- A change that selection does not see. -/
theorem find_modify (hf : ∀ a, p (f a) = p a) : (Keyed.modify p f l).find? p = (l.find? p).map f := by
  induction l with
  | nil => rfl
  | cons a l ih => cases ha : p a <;> simp [Keyed.modify, ha, hf, ih]

/-- A change that only shows in what `g` forgets or keeps. -/
theorem modify_map {γ : Type} {g : α → γ} {p' : γ → Bool} {f' : γ → γ} (hf : ∀ a, g (f a) = f' (g a))
    (l : List α) : Keyed.modify p' f' (l.map g) = (Keyed.modify (p' ∘ g) f l).map g := by
  induction l with
  | nil => rfl
  | cons a l ih => cases ha : p' (g a) <;> simp [Keyed.modify, ha, hf, ih]

end LuatAir200.OwnedList
