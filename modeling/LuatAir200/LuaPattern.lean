import LuatAir200.LuaString

/-!
# Greedy patterns

What the items of a pattern match where each repetition stands in front of a byte that it
does not take.
-/
namespace LuatAir200.Lua

theorem not_space {x : UInt8} (h : isDigit x = true) : isSpace x = false := by
  simp only [isDigit, Bool.and_eq_true, decide_eq_true_eq, UInt8.le_iff_toNat_le] at h
  simp only [isSpace, Bool.or_eq_false_iff, beq_eq_false_iff_ne, Bool.and_eq_false_iff,
    decide_eq_false_iff_not, UInt8.le_iff_toNat_le, ne_eq, ← UInt8.toNat_inj]
  have h48 : (48 : UInt8).toNat = 48 := rfl
  have h32 : (32 : UInt8).toNat = 32 := rfl
  have h13 : (13 : UInt8).toNat = 13 := rfl
  omega

/-- A capture of a repetition takes all the bytes of its class in front of another byte. -/
theorem matchItems_run {k : Class} {p : List Item} {ds t : LuaString} {x : UInt8}
    {rest : LuaString} {caps : List LuaString} (hne : ds ≠ []) (hd : ∀ c ∈ ds, k.accepts c = true)
    (hx : k.accepts x = false) (hp : ∀ o, matchItems p (x :: t) o = some (rest, caps))
    (o : LuaString) :
    matchItems (.openCap :: .cls k .plus :: .closeCap :: p) (ds ++ x :: t) o =
      some (rest, ds :: caps) := by
  have hwhile : (ds ++ x :: t).takeWhile k.accepts = ds := by
    rw [List.takeWhile_append_of_pos hd, List.takeWhile_cons_of_neg (by simp [hx]), List.append_nil]
  obtain ⟨n, hn⟩ : ∃ n, ds.length = n + 1 :=
    ⟨_, (Nat.succ_pred_eq_of_pos (List.length_pos_of_ne_nil hne)).symm⟩
  have hdrop : (ds ++ x :: t).drop (n + 1) = x :: t := by
    rw [← hn, List.drop_left]
  rw [matchItems, matchItems, hwhile, hn, List.range_succ, List.reverse_append,
    List.reverse_singleton]
  rw [List.singleton_append, List.findSome?_cons, hdrop, matchItems, hp]
  simp

/-- A capture of one byte of a class. -/
theorem matchItems_byte {k : Class} {p : List Item} {a : UInt8} {t : LuaString}
    {rest : LuaString} {caps : List LuaString} (ha : k.accepts a = true)
    (hp : ∀ o, matchItems p t o = some (rest, caps)) (o : LuaString) :
    matchItems (.openCap :: .cls k .one :: .closeCap :: p) (a :: t) o =
      some (rest, [a] :: caps) := by
  have hlen : (a :: t).length - t.length = 1 := by
    rw [List.length_cons]
    omega
  rw [matchItems, matchItems, if_pos ha, matchItems, hp, hlen]
  rfl

/-- A capture of two bytes of a class. -/
theorem matchItems_two {k : Class} {p : List Item} {a b : UInt8} {t : LuaString}
    {rest : LuaString} {caps : List LuaString} (ha : k.accepts a = true) (hb : k.accepts b = true)
    (hp : ∀ o, matchItems p t o = some (rest, caps)) (o : LuaString) :
    matchItems (.openCap :: .cls k .one :: .cls k .one :: .closeCap :: p) (a :: b :: t) o =
      some (rest, [a, b] :: caps) := by
  have hlen : (a :: b :: t).length - t.length = 2 := by
    rw [List.length_cons, List.length_cons]
    omega
  rw [matchItems, matchItems, if_pos ha, matchItems, if_pos hb, matchItems, hp, hlen]
  rfl

theorem matchItems_one {k : Class} {p : List Item} {a : UInt8} {t : LuaString}
    {rest : LuaString} {caps : List LuaString} (ha : k.accepts a = true)
    (hp : ∀ o, matchItems p t o = some (rest, caps)) (o : LuaString) :
    matchItems (.cls k .one :: p) (a :: t) o = some (rest, caps) := by
  rw [matchItems, if_pos ha, hp]

/-- One byte of a class that may be repeated, in front of another byte. -/
theorem matchItems_star {k : Class} {p : List Item} {a x : UInt8} {t : LuaString}
    {rest : LuaString} {caps : List LuaString} (ha : k.accepts a = true) (hx : k.accepts x = false)
    (hp : ∀ o, matchItems p (x :: t) o = some (rest, caps)) (o : LuaString) :
    matchItems (.cls k .star :: p) (a :: x :: t) o = some (rest, caps) := by
  have hwhile : (a :: x :: t).takeWhile k.accepts = [a] := by
    rw [List.takeWhile_cons_of_pos ha, List.takeWhile_cons_of_neg (by simp [hx])]
  have hrange : (List.range ([a].length + 1)).reverse = [1, 0] := rfl
  rw [matchItems, hwhile, hrange, List.findSome?_cons, List.drop_one, List.tail_cons, hp]

/-- A capture of a repetition that may be empty, in front of another byte. -/
theorem matchItems_starRun {k : Class} {p : List Item} {ds t : LuaString} {x : UInt8}
    {rest : LuaString} {caps : List LuaString} (hd : ∀ c ∈ ds, k.accepts c = true)
    (hx : k.accepts x = false) (hp : ∀ o, matchItems p (x :: t) o = some (rest, caps))
    (o : LuaString) :
    matchItems (.openCap :: .cls k .star :: .closeCap :: p) (ds ++ x :: t) o =
      some (rest, ds :: caps) := by
  have hwhile : (ds ++ x :: t).takeWhile k.accepts = ds := by
    rw [List.takeWhile_append_of_pos hd, List.takeWhile_cons_of_neg (by simp [hx]), List.append_nil]
  rw [matchItems, matchItems, hwhile, List.range_succ, List.reverse_append, List.reverse_singleton]
  rw [List.singleton_append, List.findSome?_cons, List.drop_left, matchItems, hp]
  simp

/-- A repetition takes all the bytes of its class in front of another byte. -/
theorem matchItems_plusRun {k : Class} {p : List Item} {ds t : LuaString} {x : UInt8}
    {rest : LuaString} {caps : List LuaString} (hne : ds ≠ []) (hd : ∀ c ∈ ds, k.accepts c = true)
    (hx : k.accepts x = false) (hp : ∀ o, matchItems p (x :: t) o = some (rest, caps))
    (o : LuaString) :
    matchItems (.cls k .plus :: p) (ds ++ x :: t) o = some (rest, caps) := by
  have hwhile : (ds ++ x :: t).takeWhile k.accepts = ds := by
    rw [List.takeWhile_append_of_pos hd, List.takeWhile_cons_of_neg (by simp [hx]), List.append_nil]
  obtain ⟨n, hn⟩ : ∃ n, ds.length = n + 1 :=
    ⟨_, (Nat.succ_pred_eq_of_pos (List.length_pos_of_ne_nil hne)).symm⟩
  have hdrop : (ds ++ x :: t).drop (n + 1) = x :: t := by
    rw [← hn, List.drop_left]
  rw [matchItems, hwhile, hn, List.range_succ, List.reverse_append, List.reverse_singleton]
  rw [List.singleton_append, List.findSome?_cons, hdrop, hp]

/-- The first match of a pattern is the one that no other match begins before. -/
theorem Pattern.exec_first {items : List Item} {before s rest : LuaString} {caps : List LuaString}
    (hb : ∀ q, q ≠ [] → q <:+ before → matchItems items (q ++ s) (q ++ s) = none)
    (hs : matchItems items s s = some (rest, caps)) (hc : caps ≠ []) :
    Pattern.exec ⟨false, items⟩ (before ++ s) = some caps := by
  rw [Pattern.exec]
  simp only [Bool.false_eq_true, if_false]
  induction before with
  | nil =>
      cases s <;> simp [List.tails, hs, hc]
  | cons b before ih =>
      have hfirst := hb (b :: before) (List.cons_ne_nil b before) (List.suffix_refl _)
      rw [List.cons_append] at hfirst ⊢
      rw [List.tails_cons, List.findSome?_cons, hfirst, Option.map_none]
      exact ih fun q hq hsuf => hb q hq (hsuf.trans (List.suffix_cons b before))

/-- A match at the front is the first one. -/
theorem smatch_front {s p rest : LuaString} {items : List Item} {caps : List LuaString}
    (hp : parse p = some ⟨false, items⟩) (h : matchItems items s s = some (rest, caps))
    (hc : caps ≠ []) : smatch s p = some caps := by
  rw [smatch, hp, Option.bind_some, ← List.nil_append s]
  refine Pattern.exec_first (fun q hq hsuf => ?_) h hc
  exact absurd (List.suffix_nil.mp hsuf) hq

/-- What does not match at the front is searched behind it. -/
theorem smatch_behind {c : UInt8} {s p : LuaString} {items : List Item}
    (hp : parse p = some ⟨false, items⟩) (h : matchItems items (c :: s) (c :: s) = none) :
    smatch (c :: s) p = smatch s p := by
  rw [smatch, smatch, hp, Option.bind_some, Option.bind_some, Pattern.exec, Pattern.exec]
  simp only [Bool.false_eq_true, if_false]
  rw [List.tails_cons, List.findSome?_cons, h, Option.map_none]

theorem sfind_front {s p rest : LuaString} {items : List Item} {caps : List LuaString}
    (hp : parse p = some ⟨false, items⟩) (h : matchItems items s s = some (rest, caps)) :
    sfind s p = some (caps, rest) := by
  rw [sfind, hp, Option.bind_some]
  simp only [Bool.false_eq_true, if_false]
  cases s with
  | nil => simp [h]
  | cons c t => rw [List.tails_cons, List.findSome?_cons, h, Option.map_some]

end LuatAir200.Lua
