import Mathlib.Data.List.Nodup

/-!
# Lists whose elements have keys

Lookup by key after a removal, a change of all elements and a change of one, for lists in
which no two elements have the same key.
-/
namespace LuatAir200.Keyed

variable {α κ : Type}

/-- Change the first element that is selected. -/
def modify (p : α → Bool) (f : α → α) : List α → List α
  | [] => []
  | a :: as => if p a then f a :: as else a :: modify p f as

theorem modify_eq_nil {p : α → Bool} {f : α → α} {l : List α} : modify p f l = [] ↔ l = [] := by
  cases l with
  | nil => simp [modify]
  | cons a l =>
      rw [modify]
      split <;> simp

/-- Where one element at most is selected, `modify` changes every selected element. -/
theorem modify_eq_map {p : α → Bool} {f : α → α} {l : List α}
    (h : ∀ (i j : ℕ) (a b : α), l[i]? = some a → l[j]? = some b → p a → p b → i = j) :
    modify p f l = l.map fun a => if p a then f a else a := by
  induction l with
  | nil => rfl
  | cons a l ih =>
      have hl := ih fun i j b c hb hc hpb hpc =>
        Nat.succ.inj (h (i + 1) (j + 1) b c hb hc hpb hpc)
      rw [modify, List.map_cons]
      split
      case isTrue hp =>
        have hid : l.map (fun a => if p a then f a else a) = l.map id := by
          apply List.map_congr_left
          intro b hb
          obtain ⟨i, hi⟩ := List.getElem?_of_mem hb
          rw [if_neg]
          · rfl
          · intro hpb
            exact absurd (h 0 (i + 1) a b rfl hi hp hpb) (by omega)
        rw [hid, List.map_id]
      case isFalse => rw [hl]

variable (key : α → κ) {l : List α}

theorem map_modify {p : α → Bool} {f : α → α} (hf : ∀ a, key (f a) = key a) :
    (modify p f l).map key = l.map key := by
  induction l with
  | nil => rfl
  | cons a l ih => grind [modify]

variable [DecidableEq κ]

/-- The element with a key is the one that is found. -/
theorem find_iff (h : (l.map key).Nodup) {k : κ} {a : α} :
    l.find? (fun b => key b = k) = some a ↔ a ∈ l ∧ key a = k := by
  induction l with
  | nil => simp
  | cons b l ih =>
      rw [List.map_cons, List.nodup_cons] at h
      rw [List.find?_cons, List.mem_cons]
      by_cases hb : key b = k
      · simp only [hb, decide_true, Option.some.injEq]
        constructor
        · rintro rfl
          exact ⟨.inl rfl, hb⟩
        · rintro ⟨rfl | ha, hk⟩
          · rfl
          · have hm : key a ∈ l.map key := List.mem_map_of_mem ha
            rw [hk, ← hb] at hm
            exact absurd hm h.1
      · simp only [hb, decide_false, ih h.2]
        constructor
        · exact fun ⟨ha, hk⟩ => ⟨.inr ha, hk⟩
        · rintro ⟨rfl | ha, hk⟩
          · exact absurd hk hb
          · exact ⟨ha, hk⟩

/-- The first selected element is the only one with its key. -/
theorem find_eraseP (h : (l.map key).Nodup) {p : α → Bool} {a : α} (ha : l.find? p = some a)
    (k : κ) : (l.eraseP p).find? (fun b => key b = k) =
      if key a = k then none else l.find? fun b => key b = k := by
  induction l with
  | nil => cases ha
  | cons b l ih =>
      rw [List.map_cons, List.nodup_cons] at h
      rw [List.find?_cons] at ha
      split at ha
      · rename_i hb
        cases ha
        rw [List.eraseP_cons_of_pos hb]
        split
        · rename_i hk
          rw [List.find?_eq_none]
          intro c hc
          rw [decide_eq_true_eq]
          rintro rfl
          exact h.1 (hk ▸ List.mem_map_of_mem hc)
        · rename_i hk
          rw [List.find?_cons_of_neg (by simpa using hk)]
      · rename_i hb
        have hab : key b ≠ key a := by
          intro he
          exact h.1 (he ▸ List.mem_map_of_mem (List.mem_of_find?_eq_some ha))
        rw [List.eraseP_cons_of_neg (by simpa using hb), List.find?_cons, List.find?_cons, ih h.2 ha]
        by_cases hk : key b = k
        · have hak : key a ≠ k := fun he => hab (hk.trans he.symm)
          simp [hk, hak]
        · simp [hk]

theorem find_map {f : α → α} (hf : ∀ a, key (f a) = key a) (k : κ) :
    (l.map f).find? (fun b => key b = k) = (l.find? fun b => key b = k).map f := by
  rw [List.find?_map]
  congr 2
  funext a
  simp [hf]

theorem find_modify {f : α → α} (hf : ∀ a, key (f a) = key a) (k₀ k : κ) :
    (modify (fun a => key a = k₀) f l).find? (fun b => key b = k) =
      if k = k₀ then (l.find? fun b => key b = k).map f else l.find? fun b => key b = k := by
  induction l with
  | nil => simp [modify]
  | cons a l ih => grind [modify]

end LuatAir200.Keyed
