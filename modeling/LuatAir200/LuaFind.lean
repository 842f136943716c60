import LuatAir200.LuaPattern
import Mathlib.Data.List.TakeWhile

/-!
# Finding plain text

A pattern of single bytes finds the first place where these bytes stand.
-/
namespace LuatAir200.Lua

/-- Items of single bytes match at the front exactly if these bytes are there. -/
theorem matchItems_text {ks : List Class} {bs : LuaString}
    (h : List.Forall₂ (fun k b => ∀ x, k.accepts x = (x == b)) ks bs) (p : List Item)
    (s o : LuaString) : matchItems (ks.map (.cls · .one) ++ p) s o =
      if bs.isPrefixOf s then matchItems p (s.drop bs.length) o else none := by
  induction h generalizing s with
  | nil => rfl
  | @cons k b ks bs hk hks ih =>
      cases s with
      | nil => rfl
      | cons x t =>
          simp only [List.map_cons, List.cons_append, matchItems, hk x, List.isPrefixOf_cons_cons]
          by_cases hx : x = b
          · simp [hx, ih t]
          · have hb : (b == x) = false := by simpa using Ne.symm hx
            simp [hx, hb]

theorem matchItems_plain {ks : List Class} {bs : LuaString}
    (h : List.Forall₂ (fun k b => ∀ x, k.accepts x = (x == b)) ks bs) (s o : LuaString) :
    matchItems (ks.map (.cls · .one)) s o =
      if bs.isPrefixOf s then some (s.drop bs.length, []) else none := by
  have htext := matchItems_text h [] s o
  rw [List.append_nil] at htext
  exact htext

theorem smatch_literal {ks : List Class} {bs p s : LuaString}
    (hp : parse p = some ⟨true, ks.map (.cls · .one)⟩)
    (h : List.Forall₂ (fun k b => ∀ x, k.accepts x = (x == b)) ks bs) :
    (smatch s p).isSome ↔ bs <+: s := by
  rw [smatch, hp, Option.bind_some, Pattern.exec]
  simp only [if_true, Option.isSome_map]
  rw [matchItems_plain h, ← List.isPrefixOf_iff_prefix]
  split <;> simp [*]

theorem chars_accept (bs : LuaString) :
    List.Forall₂ (fun k b => ∀ x, k.accepts x = (x == b)) (bs.map Class.char) bs := by
  induction bs with
  | nil => exact .nil
  | cons b bs ih => exact .cons (fun _ => rfl) ih

variable {ks : List Class} {bs p : LuaString}

/-- The search goes over the places one after another. -/
theorem sfind_cons (hp : parse p = some ⟨false, ks.map (.cls · .one)⟩)
    (h : List.Forall₂ (fun k b => ∀ x, k.accepts x = (x == b)) ks bs) (c : UInt8) (s : LuaString) :
    sfind (c :: s) p =
      if bs <+: c :: s then some ([], (c :: s).drop bs.length) else sfind s p := by
  rw [sfind, sfind, hp, Option.bind_some, Option.bind_some]
  simp only [Bool.false_eq_true, if_false]
  rw [List.tails_cons, List.findSome?_cons, matchItems_plain h]
  by_cases hb : bs <+: c :: s
  · rw [if_pos hb, if_pos (List.isPrefixOf_iff_prefix.mpr hb), Option.map_some]
  · rw [if_neg hb, if_neg fun hn => hb (List.isPrefixOf_iff_prefix.mp hn), Option.map_none]

theorem sfind_nil (hp : parse p = some ⟨false, ks.map (.cls · .one)⟩)
    (h : List.Forall₂ (fun k b => ∀ x, k.accepts x = (x == b)) ks bs) (hne : bs ≠ []) :
    sfind [] p = none := by
  rw [sfind, hp, Option.bind_some]
  simp only [Bool.false_eq_true, if_false]
  simp [matchItems_plain h, hne]

/-- Nothing is found where the bytes do not occur. -/
theorem sfind_eq_none (hp : parse p = some ⟨false, ks.map (.cls · .one)⟩)
    (h : List.Forall₂ (fun k b => ∀ x, k.accepts x = (x == b)) ks bs) (hne : bs ≠ [])
    {s : LuaString} (hs : ¬bs <:+: s) : sfind s p = none := by
  induction s with
  | nil => exact sfind_nil hp h hne
  | cons c s ih =>
      rw [sfind_cons hp h, if_neg fun hb => hs hb.isInfix]
      exact ih fun hi => hs (hi.trans (List.suffix_cons c s).isInfix)

/-- The first place is found: the bytes do not end any earlier. -/
theorem sfind_first (hp : parse p = some ⟨false, ks.map (.cls · .one)⟩)
    (h : List.Forall₂ (fun k b => ∀ x, k.accepts x = (x == b)) ks bs) (hne : bs ≠ [])
    {a : LuaString} (ha : ¬bs <:+: (a ++ bs).dropLast) (t : LuaString) :
    sfind (a ++ bs ++ t) p = some ([], t) := by
  induction a with
  | nil =>
      obtain ⟨b, bs', rfl⟩ := List.exists_cons_of_ne_nil hne
      have hpre : b :: bs' <+: b :: (bs' ++ t) := List.prefix_append (b :: bs') t
      rw [List.nil_append, List.cons_append, sfind_cons hp h, if_pos hpre, ← List.cons_append,
        List.drop_left]
  | cons c a ih =>
      have hlen : (c :: a ++ bs).dropLast = c :: (a ++ bs).dropLast := by
        rw [List.cons_append, List.dropLast_cons_of_ne_nil]
        exact List.append_ne_nil_of_right_ne_nil a hne
      rw [hlen] at ha
      have hno : ¬bs <+: c :: (a ++ bs ++ t) := by
        intro hb
        refine ha (List.IsPrefix.isInfix ?_)
        have hpre : c :: (a ++ bs).dropLast <+: c :: (a ++ bs ++ t) := by
          rw [List.cons_prefix_cons]
          exact ⟨rfl, (List.dropLast_prefix _).trans (List.prefix_append _ _)⟩
        refine List.prefix_of_prefix_length_le hb hpre ?_
        simp only [List.length_cons, List.length_dropLast, List.length_append]
        have := List.length_pos_of_ne_nil hne
        omega
      rw [List.cons_append, List.cons_append, sfind_cons hp h, if_neg hno]
      exact ih fun hi => ha (hi.trans (List.suffix_cons c _).isInfix)

/-- A pattern is found where its items match. -/
theorem smatch_isSome {items : List Item} (hp : parse p = some ⟨false, items⟩) (s : LuaString) :
    (smatch s p).isSome ↔ ∃ t, t <:+ s ∧ (matchItems items t t).isSome := by
  rw [smatch, hp, Option.bind_some, Pattern.exec]
  simp only [Bool.false_eq_true, if_false]
  rw [List.findSome?_isSome_iff]
  simp only [List.mem_tails, Option.isSome_map]

/-- A pattern of single bytes is found exactly where these bytes occur. -/
theorem smatch_plain (hp : parse p = some ⟨false, ks.map (.cls · .one)⟩)
    (h : List.Forall₂ (fun k b => ∀ x, k.accepts x = (x == b)) ks bs) (s : LuaString) :
    (smatch s p).isSome ↔ bs <:+: s := by
  have hfound (t : LuaString) : (matchItems (ks.map (.cls · .one)) t t).isSome ↔ bs <+: t := by
    rw [matchItems_plain h, ← List.isPrefixOf_iff_prefix]
    split <;> simp [*]
  rw [smatch_isSome hp, List.infix_iff_prefix_suffix]
  simp only [hfound, and_comm]

/-- How a byte is written in a pattern. -/
def escaped (b : UInt8) : Class := if b = 45 then .named 45 else .char b

theorem escaped_accept (bs : LuaString) :
    List.Forall₂ (fun k b => ∀ x, k.accepts x = (x == b)) (bs.map escaped) bs := by
  have hone (b x : UInt8) : (escaped b).accepts x = (x == b) := by
    unfold escaped
    split
    · rename_i hb
      rw [hb]
      rfl
    · rfl
  induction bs with
  | nil => exact .nil
  | cons b bs ih => exact .cons (hone b) ih

end LuatAir200.Lua
