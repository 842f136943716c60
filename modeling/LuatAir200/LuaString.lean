import Mathlib.Data.List.Infix
import Mathlib.Data.Nat.Notation

/-!
# Lua byte strings and Lua patterns

Lua strings are byte lists. `parse` reads a pattern of Lua's string library into
items and `smatch` runs it with the library's backtracking order: a greedy
repetition first takes all the bytes it can and then gives them back one by one.
Position captures, balanced matches and back references are not covered.
-/
namespace LuatAir200.Lua

abbrev LuaString := List UInt8

/-- The bytes of an ASCII literal. -/
def lua (s : String) : LuaString := s.toList.map fun c => UInt8.ofNat c.toNat

/-- Does `s` end in a line end, as `sfind(s,"\r\n",-2)` tests? -/
def endsCrLf (s : LuaString) : Bool := decide (lua "\r\n" <:+ s)

/-- `string.sub(s,1,-3)` after the test of `endsCrLf`. -/
def chomp (s : LuaString) : LuaString := if endsCrLf s then s.take (s.length - 2) else s

def isDigit (c : UInt8) : Bool := 48 ≤ c && c ≤ 57
def isUpper (c : UInt8) : Bool := 65 ≤ c && c ≤ 90
def isLower (c : UInt8) : Bool := 97 ≤ c && c ≤ 122
def isAlpha (c : UInt8) : Bool := isUpper c || isLower c
def isAlnum (c : UInt8) : Bool := isAlpha c || isDigit c
def isXDigit (c : UInt8) : Bool := isDigit c || (65 ≤ c && c ≤ 70) || (97 ≤ c && c ≤ 102)
def isSpace (c : UInt8) : Bool := c == 32 || (9 ≤ c && c ≤ 13)
def isCntrl (c : UInt8) : Bool := c < 32 || c == 127
def isPunct (c : UInt8) : Bool := 33 ≤ c && c ≤ 126 && !isAlnum c

/-- The class `%x` named by a letter `x`; an upper-case letter is the complement. -/
def classOf (x c : UInt8) : Bool :=
  if x = 97 then isAlpha c else if x = 65 then !isAlpha c
  else if x = 99 then isCntrl c else if x = 67 then !isCntrl c
  else if x = 100 then isDigit c else if x = 68 then !isDigit c
  else if x = 108 then isLower c else if x = 76 then !isLower c
  else if x = 112 then isPunct c else if x = 80 then !isPunct c
  else if x = 115 then isSpace c else if x = 83 then !isSpace c
  else if x = 117 then isUpper c else if x = 85 then !isUpper c
  else if x = 119 then isAlnum c else if x = 87 then !isAlnum c
  else if x = 120 then isXDigit c else if x = 88 then !isXDigit c
  else if x = 122 then c == 0 else if x = 90 then c != 0
  else c == x

/-- What one position of a pattern accepts. -/
inductive Class
  | any
  | char (c : UInt8)
  | named (x : UInt8)
  | set (negated : Bool) (parts : List (UInt8 × UInt8 ⊕ UInt8))
  deriving DecidableEq, Repr

def Class.accepts : Class → UInt8 → Bool
  | .any, _ => true
  | .char x, c => c == x
  | .named x, c => classOf x c
  | .set neg parts, c =>
      (parts.any fun p => match p with
        | .inl (lo, hi) => lo ≤ c && c ≤ hi
        | .inr x => classOf x c) != neg

inductive Quant
  | one | star | plus | lazy | opt
  deriving DecidableEq, Repr

inductive Item
  | cls (c : Class) (q : Quant)
  | openCap
  | closeCap
  | atEnd
  deriving DecidableEq, Repr

structure Pattern where
  anchored : Bool
  items : List Item
  deriving DecidableEq, Repr

/-- The parts of a set up to its closing bracket, and what follows it. The first
part is never the closing bracket. -/
def parseSet : ℕ → Bool → LuaString → Option (List (UInt8 × UInt8 ⊕ UInt8) × LuaString)
  | 0, _, _ => none
  | _ + 1, _, [] => none
  | fuel + 1, first, c :: t =>
      if c = 93 && !first then some ([], t)
      else if c = 37 then
        match t with
        | x :: t => (parseSet fuel false t).map fun r => (.inr x :: r.1, r.2)
        | [] => none
      else match t with
        | 45 :: hi :: t' =>
            if hi = 93 then (parseSet fuel false t).map fun r => (.inl (c, c) :: r.1, r.2)
            else (parseSet fuel false t').map fun r => (.inl (c, hi) :: r.1, r.2)
        | _ => (parseSet fuel false t).map fun r => (.inl (c, c) :: r.1, r.2)

/-- One single-character class and what follows it. -/
def parseClass (fuel : ℕ) : LuaString → Option (Class × LuaString)
  | [] => none
  | c :: t =>
      if c = 46 then some (.any, t)
      else if c = 37 then
        match t with
        | x :: t => some (.named x, t)
        | [] => none
      else if c = 91 then
        match t with
        | 94 :: t => (parseSet fuel true t).map fun r => (.set true r.1, r.2)
        | _ => (parseSet fuel true t).map fun r => (.set false r.1, r.2)
      else some (.char c, t)

def parseQuant : LuaString → Quant × LuaString
  | [] => (.one, [])
  | c :: t =>
      if c = 42 then (.star, t) else if c = 43 then (.plus, t)
      else if c = 45 then (.lazy, t) else if c = 63 then (.opt, t) else (.one, c :: t)

def parseItems : ℕ → LuaString → Option (List Item)
  | _, [] => some []
  | 0, _ :: _ => none
  | fuel + 1, c :: t =>
      if c = 40 then (parseItems fuel t).map (.openCap :: ·)
      else if c = 41 then (parseItems fuel t).map (.closeCap :: ·)
      else if c = 36 && t.isEmpty then some [.atEnd]
      else do
        let (cls, t') ← parseClass fuel (c :: t)
        let (q, t'') := parseQuant t'
        (parseItems fuel t'').map (.cls cls q :: ·)

/-- Read a pattern; a leading `^` anchors it. -/
def parse (p : LuaString) : Option Pattern :=
  match p with
  | 94 :: t => (parseItems (t.length + 1) t).map (⟨true, ·⟩)
  | _ => (parseItems (p.length + 1) p).map (⟨false, ·⟩)

/-- Match the items at the front of `s`; `o` is where the open capture began.
The result is what is left of `s` and the captures. -/
def matchItems : List Item → LuaString → LuaString → Option (LuaString × List LuaString)
  | [], s, _ => some (s, [])
  | .openCap :: p, s, _ => matchItems p s s
  | .closeCap :: p, s, o =>
      (matchItems p s o).map fun r => (r.1, o.take (o.length - s.length) :: r.2)
  | .atEnd :: p, s, o => if s.isEmpty then matchItems p s o else none
  | .cls c .one :: p, s, o =>
      match s with
      | x :: t => if c.accepts x then matchItems p t o else none
      | [] => none
  | .cls c .star :: p, s, o =>
      (List.range ((s.takeWhile c.accepts).length + 1)).reverse.findSome? fun k =>
        matchItems p (s.drop k) o
  | .cls c .plus :: p, s, o =>
      (List.range (s.takeWhile c.accepts).length).reverse.findSome? fun k =>
        matchItems p (s.drop (k + 1)) o
  | .cls c .lazy :: p, s, o =>
      (List.range ((s.takeWhile c.accepts).length + 1)).findSome? fun k =>
        matchItems p (s.drop k) o
  | .cls c .opt :: p, s, o =>
      match s with
      | x :: t =>
          if c.accepts x then (matchItems p t o).orElse fun _ => matchItems p s o
          else matchItems p s o
      | [] => matchItems p s o

/-- The captures of the first match of `p` in `s`; of the whole match when the
pattern captures nothing. -/
def Pattern.exec (p : Pattern) (s : LuaString) : Option (List LuaString) :=
  let found (s : LuaString) := (matchItems p.items s s).map fun r =>
    if r.2.isEmpty then [s.take (s.length - r.1.length)] else r.2
  if p.anchored then found s else s.tails.findSome? found

/-- `string.match(s,p)`. -/
def smatch (s p : LuaString) : Option (List LuaString) := (parse p).bind (·.exec s)

/-- `string.match(s,p)` for a pattern with one capture. -/
def smatch1 (s p : LuaString) : Option LuaString := (smatch s p).bind List.head?

/-- `string.match(s,p)` for a pattern with two captures. -/
def smatch2 (s p : LuaString) : Option (LuaString × LuaString) :=
  match smatch s p with
  | some [a, b] => some (a, b)
  | _ => none

/-- `string.find(s,p)`: the captures of the first match, and what follows the match. -/
def sfind (s p : LuaString) : Option (List LuaString × LuaString) :=
  (parse p).bind fun p => (if p.anchored then [s] else s.tails).findSome? fun t =>
    (matchItems p.items t t).map fun r => (r.2, r.1)

theorem matchItems_single (c : Class) (s : LuaString) :
    matchItems [.openCap, .cls c .one, .closeCap] s s =
      match s with
      | x :: t => if c.accepts x then some (t, [[x]]) else none
      | [] => none := by
  cases s with
  | nil => rfl
  | cons x t => simp [matchItems]

theorem Pattern.exec_found {p : Pattern} {s : LuaString} {caps : List LuaString}
    (h : p.exec s = some caps) : ∃ t r, matchItems p.items t t = some r ∧
      caps = if r.2.isEmpty then [t.take (t.length - r.1.length)] else r.2 := by
  unfold Pattern.exec at h
  dsimp only at h
  split at h
  · obtain ⟨r, hr, rfl⟩ := Option.map_eq_some_iff.mp h
    exact ⟨s, r, hr, rfl⟩
  · obtain ⟨t, -, ht⟩ := List.exists_of_findSome?_eq_some h
    obtain ⟨r, hr, rfl⟩ := Option.map_eq_some_iff.mp ht
    exact ⟨t, r, hr, rfl⟩

/-- A pattern that captures one byte class finds a single byte. -/
theorem smatch1_single {s p x : LuaString} {c : Class}
    (hp : parse p = some ⟨false, [.openCap, .cls c .one, .closeCap]⟩)
    (h : smatch1 s p = some x) : x.length = 1 := by
  obtain ⟨caps, hc, hx⟩ := Option.bind_eq_some_iff.mp h
  rw [smatch, hp, Option.bind_some] at hc
  obtain ⟨t, r, hr, rfl⟩ := Pattern.exec_found hc
  rw [matchItems_single] at hr
  cases t with
  | nil => cases hr
  | cons y t =>
      obtain ⟨-, ⟨⟩⟩ := Option.ite_none_right_eq_some.mp hr
      simp only [List.isEmpty_cons, Bool.false_eq_true, if_false, List.head?_cons,
        Option.some.injEq] at hx
      simp [← hx]

/-- Every single byte that a pattern asks for is found in what it matches. -/
theorem matchItems_needs {c : Class} {p : List Item} {s o : LuaString}
    {r : LuaString × List LuaString} (hc : Item.cls c .one ∈ p) (h : matchItems p s o = some r) :
    ∃ x ∈ s, c.accepts x = true := by
  have drop {k : ℕ} {s : LuaString} (h : ∃ x ∈ s.drop k, c.accepts x = true) :
      ∃ x ∈ s, c.accepts x = true := by
    obtain ⟨x, hx, ha⟩ := h
    exact ⟨x, List.mem_of_mem_drop hx, ha⟩
  induction p generalizing s o r with
  | nil => cases hc
  | cons item p ih =>
      have next (hne : item ≠ .cls c .one) : Item.cls c .one ∈ p := by
        obtain he | hm := List.mem_cons.mp hc
        · exact absurd he.symm hne
        · exact hm
      cases item with
      | openCap => exact ih (next (by simp)) h
      | closeCap =>
          obtain ⟨q, hq, -⟩ := Option.map_eq_some_iff.mp h
          exact ih (next (by simp)) hq
      | atEnd =>
          obtain ⟨-, h⟩ := Option.ite_none_right_eq_some.mp h
          exact ih (next (by simp)) h
      | cls d q =>
          cases q with
          | one =>
              cases s with
              | nil => cases h
              | cons x t =>
                  obtain ⟨ha, h⟩ := Option.ite_none_right_eq_some.mp h
                  obtain he | hm := List.mem_cons.mp hc
                  · cases he
                    exact ⟨x, List.mem_cons_self, ha⟩
                  · obtain ⟨y, hy, hya⟩ := ih hm h
                    exact ⟨y, List.mem_cons_of_mem x hy, hya⟩
          | star =>
              obtain ⟨k, -, hk⟩ := List.exists_of_findSome?_eq_some h
              exact drop (ih (next (by simp)) hk)
          | plus =>
              obtain ⟨k, -, hk⟩ := List.exists_of_findSome?_eq_some h
              exact drop (ih (next (by simp)) hk)
          | lazy =>
              obtain ⟨k, -, hk⟩ := List.exists_of_findSome?_eq_some h
              exact drop (ih (next (by simp)) hk)
          | opt =>
              cases s with
              | nil => exact ih (next (by simp)) h
              | cons x t =>
                  simp only [matchItems] at h
                  split at h
                  · cases ht : matchItems p t o with
                    | none =>
                        rw [ht] at h
                        exact ih (next (by simp)) h
                    | some q =>
                        obtain ⟨y, hy, hya⟩ := ih (next (by simp)) ht
                        exact ⟨y, List.mem_cons_of_mem x hy, hya⟩
                  · exact ih (next (by simp)) h

/-- A pattern does not match a string that lacks a byte it asks for. -/
theorem smatch_eq_none {s p : LuaString} {c : Class}
    (hc : (parse p).any fun q => Item.cls c .one ∈ q.items) (h : ∀ x ∈ s, c.accepts x = false) :
    smatch s p = none := by
  cases hp : parse p with
  | none => rw [smatch, hp, Option.bind_none]
  | some q =>
      rw [hp, Option.any_some, decide_eq_true_eq] at hc
      have hsuffix {t : LuaString} (ht : t <:+ s) : matchItems q.items t t = none := by
        by_contra hn
        obtain ⟨r, hr⟩ := Option.ne_none_iff_exists'.mp hn
        obtain ⟨x, hx, ha⟩ := matchItems_needs hc hr
        rw [h x (ht.subset hx)] at ha
        cases ha
      rw [smatch, hp, Option.bind_some, Pattern.exec]
      split
      · simp [hsuffix (List.suffix_refl s)]
      · rw [List.findSome?_eq_none_iff]
        intro t ht
        simp [hsuffix ((List.mem_tails t s).mp ht)]

/-- A greedy repetition at the end of a pattern takes all it can. -/
theorem matchItems_plus_close {c : Class} {s o : LuaString} (h : s.takeWhile c.accepts ≠ []) :
    matchItems [.cls c .plus, .closeCap] s o =
      some (s.drop (s.takeWhile c.accepts).length,
        [o.take (o.length - (s.drop (s.takeWhile c.accepts).length).length)]) := by
  obtain ⟨m, hm⟩ : ∃ m, (s.takeWhile c.accepts).length = m + 1 :=
    ⟨_, (Nat.succ_pred_eq_of_pos (List.length_pos_of_ne_nil h)).symm⟩
  simp [matchItems, hm, List.range_succ]

theorem matchItems_capture {c : Class} {s : LuaString} (h : s.takeWhile c.accepts ≠ []) :
    matchItems [.openCap, .cls c .plus, .closeCap] s s =
      some (s.drop (s.takeWhile c.accepts).length, [s.takeWhile c.accepts]) := by
  have hpre : s.takeWhile c.accepts <+: s := List.takeWhile_prefix c.accepts
  have hlen := hpre.length_le
  have htake : s.takeWhile c.accepts = s.take (s.takeWhile c.accepts).length :=
    List.prefix_iff_eq_take.mp hpre
  have hm : matchItems [.openCap, .cls c .plus, .closeCap] s s =
      matchItems [.cls c .plus, .closeCap] s s := rfl
  rw [hm, matchItems_plus_close h, List.length_drop, Nat.sub_sub_self hlen, ← htake]

/-- `string.find(s,p) == 1`: a match of `p` starts at the first byte. The first
match is at the front exactly if the front matches. -/
def foundAtFront (s p : LuaString) : Bool :=
  match parse p with
  | some p => (matchItems p.items s s).isSome
  | none => false

/-- `tonumber` on a digit string. -/
def tonumber (s : LuaString) : ℕ := s.foldl (fun n c => 10 * n + (c.toNat - 48)) 0

example : smatch2 (lua "0, SEND OK") (lua "(%d), *([%u%d :]+)") = some (lua "0", lua "SEND OK") := by
  decide

example : smatch1 (lua "+RECEIVE,0,12:") (lua "(%+*[%u%d& ]+)") = some (lua "+RECEIVE") := by
  decide

end LuatAir200.Lua
