import LuatAir200.ReceiveModel

/-!
# The line that announces a block

What the patterns of `procatc` and of the `+RECEIVE` handler find in such a line: it
is no result of any command, but for formats and heads that match it themselves.
-/
namespace LuatAir200.Receive
open Lua Ril

/-- The parts of an announcement: a link id of one digit, the length, and the colon. -/
structure Announcing (i : UInt8) (ds tl : LuaString) : Prop where
  id : isDigit i = true
  digits : ∀ x ∈ ds, isDigit x = true
  nonempty : ds ≠ []
  tail : tl = [] ∨ tl = lua ":"

variable {i : UInt8} {ds tl : LuaString}

theorem lua_receive : lua "+RECEIVE," = [43, 82, 69, 67, 69, 73, 86, 69, 44] := by decide

theorem announcement_eq (i : UInt8) (ds tl : LuaString) :
    announcement i ds tl = 43 :: 82 :: 69 :: 67 :: 69 :: 73 :: 86 :: 69 :: 44 :: i :: 44 :: (ds ++ tl) := by
  simp only [announcement, lua_receive, show lua "," = [44] by decide]
  rfl

/-- A digit is a byte from 48 to 57. -/
theorem digit_ne {x y : UInt8} (hx : isDigit x = true) (hy : isDigit y = false) : x ≠ y := by
  rintro rfl
  rw [hx] at hy
  cases hy

/-- Bytes that an announcement does not have. -/
theorem Announcing.ne (h : Announcing i ds tl) {y : UInt8} (hy : isDigit y = false)
    (hr : y ∉ lua "+RECEIVE,:") {x : UInt8} (hx : x ∈ announcement i ds tl) : x ≠ y := by
  have fixed {z : UInt8} (hz : z ∈ lua "+RECEIVE,:") : z ≠ y := fun he => hr (he ▸ hz)
  have hcolon : ∀ z ∈ tl, z ∈ lua "+RECEIVE,:" := by
    obtain ht | ht := h.tail
    · rw [ht]
      exact fun z hz => (by cases hz)
    · rw [ht, show lua "+RECEIVE,:" = lua "+RECEIVE," ++ lua ":" by decide]
      exact fun z hz => List.mem_append_right _ hz
  rw [announcement_eq] at hx
  simp only [List.mem_cons, List.mem_append] at hx
  obtain rfl | rfl | rfl | rfl | rfl | rfl | rfl | rfl | rfl | rfl | rfl | hd | ht := hx
  all_goals first
    | exact fixed (by decide)
    | exact digit_ne h.id hy
    | exact digit_ne (h.digits _ hd) hy
    | exact fixed (hcolon _ ht)

/-- The line that has such a text. -/
def line (i : UInt8) (ds tl : LuaString) : LuaString := announcement i ds tl ++ lua "\r\n"

theorem chomp_append (d : LuaString) : chomp (d ++ lua "\r\n") = d := by
  have hlen : (lua "\r\n").length = 2 := by decide
  have he : endsCrLf (d ++ lua "\r\n") = true := by
    rw [endsCrLf, decide_eq_true_eq]
    exact List.suffix_append d _
  rw [chomp, if_pos he, List.length_append, hlen, Nat.add_sub_cancel, List.take_left']
  rfl

theorem line_ne_nil (i : UInt8) (ds tl : LuaString) : line i ds tl ≠ [] := by
  rw [line, announcement_eq]
  exact List.cons_ne_nil _ _

theorem line_ne_ok (i : UInt8) (ds tl : LuaString) : line i ds tl ≠ lua "OK\r\n" := by
  rw [line, announcement_eq, show lua "OK\r\n" = [79, 75, 13, 10] by decide]
  intro h
  cases h

/-- An announcement is none of the texts that do not start with a plus sign. -/
theorem announcement_ne {d : LuaString} (hd : d.head? ≠ some 43) : announcement i ds tl ≠ d := by
  rintro rfl
  rw [announcement_eq] at hd
  exact hd rfl

theorem Announcing.not_error (h : Announcing i ds tl) {M : Modules} (c : Curr M.Rsp) :
    isError c (announcement i ds tl) = false := by
  have hm : ∀ x ∈ announcement i ds tl, (Class.char 77).accepts x = false := by
    intro x hx
    simpa [Class.accepts] using h.ne (y := 77) (by decide) (by decide) hx
  have h1 : smatch (announcement i ds tl) (lua "^%+CMS ERROR:") = none :=
    smatch_eq_none (by decide) hm
  have h2 : smatch (announcement i ds tl) (lua "^%+CME ERROR:") = none :=
    smatch_eq_none (by decide) hm
  have h3 : announcement i ds tl ≠ lua "CONNECT FAIL" := announcement_ne (by decide)
  simp [isError, h1, h2, h3]

/-- The bytes that the prefix of a URC consists of. -/
def headClass : Lua.Class := .set false [.inr 117, .inr 100, .inl (38, 38), .inl (32, 32)]

/-- The key under which the handler is registered. -/
theorem announcement_head (i : UInt8) (ds tl : LuaString) :
    smatch1 (announcement i ds tl) (lua "(%+*[%u%d& ]+)") = some (lua "+RECEIVE") := by
  have hp : parse (lua "(%+*[%u%d& ]+)") = some ⟨false, [.openCap, .cls (.named 43) .star,
      .cls headClass .plus, .closeCap]⟩ := by decide
  rw [smatch1, smatch, hp, announcement_eq, Option.bind_some, Pattern.exec]
  generalize i :: 44 :: (ds ++ tl) = t
  have hplus : (43 :: 82 :: 69 :: 67 :: 69 :: 73 :: 86 :: 69 :: 44 :: t).takeWhile
      (Class.named 43).accepts = [43] := rfl
  have hhead : (82 :: 69 :: 67 :: 69 :: 73 :: 86 :: 69 :: 44 :: t).takeWhile headClass.accepts =
      lua "RECEIVE" := by rfl
  have hm := matchItems_plus_close (c := headClass)
    (s := 82 :: 69 :: 67 :: 69 :: 73 :: 86 :: 69 :: 44 :: t)
    (o := 43 :: 82 :: 69 :: 67 :: 69 :: 73 :: 86 :: 69 :: 44 :: t) (by rw [hhead]; decide)
  rw [hhead, show (lua "RECEIVE").length = 7 by decide] at hm
  have hall : matchItems [.openCap, .cls (.named 43) .star, .cls headClass .plus, .closeCap]
      (43 :: 82 :: 69 :: 67 :: 69 :: 73 :: 86 :: 69 :: 44 :: t)
      (43 :: 82 :: 69 :: 67 :: 69 :: 73 :: 86 :: 69 :: 44 :: t) =
      some (44 :: t, [[43, 82, 69, 67, 69, 73, 86, 69]]) := by
    simp only [matchItems] at hm
    simp only [matchItems, hplus, List.length_singleton, List.range_succ, List.range_zero]
    simp only [List.nil_append, List.cons_append, List.reverse_cons, List.reverse_nil,
      List.findSome?_cons, List.drop_one, List.tail_cons, hm]
    simp
  simp only [List.tails, List.findSome?_cons, hall]
  exact congrArg some (by decide)

theorem announcement_numberic (i : UInt8) (ds tl : LuaString) :
    smatch1 (announcement i ds tl) (lua "(%x+)") = some (lua "ECE") := by
  have hp : parse (lua "(%x+)") = some ⟨false, [.openCap, .cls (.named 120) .plus, .closeCap]⟩ := by
    decide
  rw [smatch1, smatch, hp, announcement_eq, Option.bind_some, Pattern.exec]
  generalize i :: 44 :: (ds ++ tl) = t
  have hhex : (69 :: 67 :: 69 :: 73 :: 86 :: 69 :: 44 :: t).takeWhile (Class.named 120).accepts =
      lua "ECE" := by rfl
  have hm := matchItems_capture (c := .named 120) (s := 69 :: 67 :: 69 :: 73 :: 86 :: 69 :: 44 :: t)
    (by rw [hhex]; decide)
  -- neither the plus sign nor the `R` is a hexadecimal digit
  have skip (x : UInt8) (u : LuaString) (hx : (Class.named 120).accepts x = false) :
      matchItems [.openCap, .cls (.named 120) .plus, .closeCap] (x :: u) (x :: u) = none := by
    simp [matchItems, hx]
  rw [hhex] at hm
  simp [List.tails, skip 43 _ (by decide), skip 82 _ (by decide), hm]

theorem announcement_string (i : UInt8) (ds tl : LuaString) :
    smatch (announcement i ds tl) (lua "^%w+$") = none := by
  have hp : parse (lua "^%w+$") = some ⟨true, [.cls (.named 119) .plus, .atEnd]⟩ := by decide
  rw [smatch, hp, announcement_eq]
  rfl

theorem Announcing.takeWhile (h : Announcing i ds tl) : (ds ++ tl).takeWhile isDigit = ds := by
  rw [List.takeWhile_append_of_pos h.digits]
  obtain ht | ht := h.tail
  · simp [ht]
  · simp [ht, show lua ":" = [58] by decide, show isDigit 58 = false by decide]

/-- The handler reads the id and the length. -/
theorem Announcing.handler (h : Announcing i ds tl) :
    smatch2 ((announcement i ds tl).drop 8) (lua ",(%d),(%d+)") = some ([i], ds) := by
  have hp : parse (lua ",(%d),(%d+)") = some ⟨false, [.cls (.char 44) .one, .openCap,
      .cls (.named 100) .one, .closeCap, .cls (.char 44) .one, .openCap, .cls (.named 100) .plus,
      .closeCap]⟩ := by decide
  have hi : (Class.named 100).accepts i = true := h.id
  have htw : (ds ++ tl).takeWhile (Class.named 100).accepts = ds := h.takeWhile
  have hrest := matchItems_capture (c := .named 100) (s := ds ++ tl)
    (by rw [htw]; exact h.nonempty)
  rw [htw] at hrest
  have hm : matchItems [.cls (.char 44) .one, .openCap, .cls (.named 100) .one, .closeCap,
      .cls (.char 44) .one, .openCap, .cls (.named 100) .plus, .closeCap] (44 :: i :: 44 :: (ds ++ tl))
      (44 :: i :: 44 :: (ds ++ tl)) = some (tl, [[i], ds]) := by
    have h44 : (Class.char 44).accepts 44 = true := by decide
    simp only [matchItems, h44, if_true, hi]
    simp only [matchItems] at hrest
    rw [hrest]
    simp
  have hdrop : (announcement i ds tl).drop 8 = 44 :: i :: 44 :: (ds ++ tl) := by
    rw [announcement_eq]
    rfl
  rw [smatch2, smatch, hp, hdrop, Option.bind_some, Pattern.exec]
  simp [List.tails, hm]

/-- The bytes of the result of a link. -/
def resultClass : Lua.Class := .set false [.inr 117, .inr 100, .inl (32, 32), .inl (58, 58)]

/-- What looks like the result of a link is the length, with its colon. -/
theorem Announcing.result (h : Announcing i ds tl) :
    smatch2 (announcement i ds tl) (lua "(%d), *([%u%d :]+)") = some ([i], ds ++ tl) := by
  have hp : parse (lua "(%d), *([%u%d :]+)") = some ⟨false, [.openCap, .cls (.named 100) .one,
      .closeCap, .cls (.char 44) .one, .cls (.char 32) .star, .openCap, .cls resultClass .plus,
      .closeCap]⟩ := by decide
  have hi : (Class.named 100).accepts i = true := h.id
  have h44 : (Class.char 44).accepts 44 = true := by decide
  have hall : ∀ x ∈ ds ++ tl, resultClass.accepts x = true := by
    intro x hx
    obtain hx | hx := List.mem_append.mp hx
    · have hd : isDigit x = true := h.digits x hx
      simp [resultClass, Class.accepts, classOf, hd]
    · obtain ht | ht := h.tail
      · rw [ht] at hx
        cases hx
      · rw [ht, show lua ":" = [58] by decide] at hx
        rw [List.mem_singleton.mp hx]
        decide
  have htw : (ds ++ tl).takeWhile resultClass.accepts = ds ++ tl := by
    rw [← List.append_nil (ds ++ tl), List.takeWhile_append_of_pos hall, List.takeWhile_nil]
  have hspace : (ds ++ tl).takeWhile (Class.char 32).accepts = [] := by
    cases hd : ds with
    | nil => exact absurd hd h.nonempty
    | cons x xs =>
        have hx : x ≠ 32 := digit_ne (h.digits x (by simp [hd])) (by decide)
        simp [Class.accepts, hx]
  have hrest := matchItems_capture (c := resultClass) (s := ds ++ tl)
    (by rw [htw]; simp [h.nonempty])
  rw [htw] at hrest
  have hm : matchItems [.openCap, .cls (.named 100) .one, .closeCap, .cls (.char 44) .one,
      .cls (.char 32) .star, .openCap, .cls resultClass .plus, .closeCap] (i :: 44 :: (ds ++ tl))
      (i :: 44 :: (ds ++ tl)) = some ([], [[i], ds ++ tl]) := by
    simp only [matchItems] at hrest
    simp only [matchItems, hi, h44, if_true, hspace, List.length_nil, List.range_succ, List.range_zero]
    simp only [List.nil_append, List.reverse_cons, List.reverse_nil, List.findSome?_cons,
      List.drop_zero, hrest]
    simp
  have skip (x : UInt8) (u : LuaString) (hx : (Class.named 100).accepts x = false) :
      matchItems [.openCap, .cls (.named 100) .one, .closeCap, .cls (.char 44) .one,
        .cls (.char 32) .star, .openCap, .cls resultClass .plus, .closeCap] (x :: u) (x :: u) =
        none := by
    simp [matchItems, hx]
  rw [smatch2, smatch, hp, announcement_eq, Option.bind_some, Pattern.exec]
  simp [List.tails, skip 43 _ (by decide), skip 82 _ (by decide), skip 69 _ (by decide),
    skip 67 _ (by decide), skip 73 _ (by decide), skip 86 _ (by decide), skip 44 _ (by decide), hm]

/-- A pattern that begins with one byte is not found at the front of another one. -/
theorem foundAtFront_ne {x c : UInt8} {t p : LuaString}
    (hp : (parse p).bind (fun q => q.items.head?) = some (.cls (.char c) .one)) (h : x ≠ c) :
    foundAtFront (x :: t) p = false := by
  obtain ⟨q, hq, hhead⟩ := Option.bind_eq_some_iff.mp hp
  obtain ⟨items, hitems⟩ := List.head?_eq_some_iff.mp hhead
  simp [foundAtFront, hq, hitems, matchItems, Class.accepts, h]

/-! ## What `procatc` makes of the line -/

variable {M : Modules}

/-- The outstanding command takes the line for its own response: it fits the format that
is registered for the command, or begins with the head of the command. -/
def Takes (c : Curr M.Rsp) (interdata : Option LuaString) (data : LuaString) : Prop :=
  (c.cmdtype = .STRING ∧ ∃ f, c.rspformt = some f ∧ (smatch data f).isSome) ∨
  ((c.cmdtype = .SLINE ∨ c.cmdtype = .MLINE) ∧ interdata = none ∧ foundAtFront data c.cmdhead)

theorem Announcing.linkVerdict (h : Announcing i ds tl) (c : Curr M.Rsp) :
    Ril.linkVerdict c (announcement i ds tl) = .urc := by
  have hdata : smatch (announcement i ds tl) (lua "DATA ACCEPT") = none := by
    refine smatch_eq_none (c := .char 68) (by decide) fun x hx => ?_
    simpa [Class.accepts] using h.ne (y := 68) (by decide) (by decide) hx
  obtain ⟨x, xs, hds⟩ := List.exists_cons_of_ne_nil h.nonempty
  have hx : isDigit x = true := h.digits x (by simp [hds])
  have front {p : LuaString} {c : UInt8} (hc : isDigit c = false)
      (hp : (parse p).bind (fun q => q.items.head?) = some (.cls (.char c) .one)) :
      foundAtFront (ds ++ tl) p = false := by
    rw [hds, List.cons_append]
    exact foundAtFront_ne hp (digit_ne hx hc)
  have hsend : foundAtFront (ds ++ tl) (lua "SEND") = false :=
    front (c := 83) (by decide) (by decide)
  have hclose : foundAtFront (ds ++ tl) (lua "CLOSE") = false :=
    front (c := 67) (by decide) (by decide)
  have htcp : foundAtFront (ds ++ tl) (lua "TCP ERROR") = false :=
    front (c := 84) (by decide) (by decide)
  have hudp : foundAtFront (ds ++ tl) (lua "UDP ERROR") = false :=
    front (c := 85) (by decide) (by decide)
  unfold Ril.linkVerdict
  simp only [h.result, hdata, htcp, hudp]
  split <;> simp [hsend, hclose]

theorem Announcing.specialVerdict (h : Announcing i ds tl) (c : Curr M.Rsp) :
    Ril.specialVerdict c (announcement i ds tl) = .urc := by
  have haddr : smatch (announcement i ds tl) (lua "%d+%.%d+%.%d+%.%d+") = none := by
    refine smatch_eq_none (c := .named 46) (by decide) fun x hx => ?_
    simpa [Class.accepts, classOf] using h.ne (y := 46) (by decide) (by decide) hx
  have hssl : smatch (announcement i ds tl) (lua "^SSL&%d,") = none := by
    refine smatch_eq_none (c := .char 83) (by decide) fun x hx => ?_
    simpa [Class.accepts] using h.ne (y := 83) (by decide) (by decide) hx
  unfold Ril.specialVerdict
  rw [smatch1, haddr, hssl, h.linkVerdict c]
  simp

theorem Announcing.verdict_takes {c : Curr M.Rsp} {interdata : Option LuaString}
    (ht : Takes c interdata (announcement i ds tl)) :
    verdict c interdata (announcement i ds tl) = .intermediate (announcement i ds tl) := by
  obtain ⟨hc, f, hf, hm⟩ | ⟨hc | hc, hi, hm⟩ := ht
  · simp [verdict, hc, hf, hm]
  · simp [verdict, hc, hi, hm]
  · simp [verdict, hc, hi, hm]

theorem Announcing.verdict_urc (h : Announcing i ds tl) {c : Curr M.Rsp}
    {interdata : Option LuaString} (ht : ¬Takes c interdata (announcement i ds tl)) :
    verdict c interdata (announcement i ds tl) = .urc := by
  unfold verdict
  cases hc : c.cmdtype with
  | NORESULT => rfl
  | NUMBERIC =>
      dsimp only
      rw [if_neg]
      rw [announcement_numberic, Option.some.injEq]
      exact (announcement_ne (by decide)).symm
  | STRING =>
      dsimp only
      rw [if_neg]
      intro hm
      cases hf : c.rspformt with
      | none =>
          rw [hf, Option.getD_none, announcement_string] at hm
          cases hm
      | some f =>
          rw [hf, Option.getD_some] at hm
          exact ht (.inl ⟨hc, f, hf, hm⟩)
  | SLINE =>
      dsimp only
      rw [if_neg]
      rintro ⟨hi, hm⟩
      exact ht (.inr ⟨.inl hc, hi, hm⟩)
  | MLINE =>
      dsimp only
      rw [if_neg]
      rintro ⟨hi, hm⟩
      exact ht (.inr ⟨.inr hc, hi, hm⟩)
  | SPECIAL => exact h.specialVerdict c

/-- The line reaches the verdict on it. -/
theorem Announcing.response (h : Announcing i ds tl) {c : Curr M.Rsp} {s : Ril.State M}
    {d : Option LuaString} (hd : verdict c s.interdata (announcement i ds tl) =
      d.elim .urc .intermediate) :
    response c (announcement i ds tl) s =
      d.elim (urc (announcement i ds tl) s) fun d => some { s with interdata := some d } := by
  have hne {d : LuaString} (hd : d.head? ≠ some 43) : announcement i ds tl ≠ d := announcement_ne hd
  have h1 : announcement i ds tl ≠ lua "OK" := hne (by decide)
  have h2 : announcement i ds tl ≠ lua "SHUT OK" := hne (by decide)
  have h3 : announcement i ds tl ≠ lua "ERROR" := hne (by decide)
  have h4 : announcement i ds tl ≠ lua "NO ANSWER" := hne (by decide)
  have h5 : announcement i ds tl ≠ lua "NO DIALTONE" := hne (by decide)
  have h6 : announcement i ds tl ≠ lua "> " := hne (by decide)
  simp only [Ril.response, h.not_error c, Bool.false_eq_true, if_false, h1, h2, h3, h4, h5, h6,
    or_self, hd]
  cases d <;> rfl

end LuatAir200.Receive
