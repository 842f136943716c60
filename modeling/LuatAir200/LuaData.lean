import LuatAir200.LuaString
import Mathlib.Data.List.TakeDrop

/-!
# Lua chunks of data

The part of the Lua grammar that data files use: after `module(...)` come assignments of
numbers, strings, booleans and tables to names. The lexer is `llex` on this part; on what is
outside it, and where Lua itself raises an error, it gives `none`. A number is a 32-bit
integer, and `strtol` takes the largest one for a numeral that is too large. The parser has a
limit of nested constructors.
-/
namespace LuatAir200.Lua

/-! ## Values -/

inductive Key
  | int (i : Int32)
  | str (s : LuaString)
  deriving DecidableEq

mutual

/-- A value without references; the fields of a table are in the order of `pairs`. -/
inductive Value
  | int (i : Int32)
  | str (s : LuaString)
  | bool (b : Bool)
  | table (fs : Fields)

inductive Fields
  | nil
  | cons (k : Key) (v : Value) (fs : Fields)

end

def Fields.count : Fields → ℕ
  | .nil => 0
  | .cons _ _ fs => fs.count + 1

/-! ## Tokens -/

inductive Token
  | name (s : LuaString)
  | num (n : Int32)
  | str (s : LuaString)
  | sym (c : UInt8)
  | dots
  deriving DecidableEq

def isNameChar (c : UInt8) : Bool := isAlnum c || c = 95
def isNameStart (c : UInt8) : Bool := isAlpha c || c = 95

/-- `\a`, `\b` and so on. -/
def escape (c : UInt8) : Option UInt8 :=
  if c = 97 then some 7 else if c = 98 then some 8 else if c = 102 then some 12
  else if c = 110 then some 10 else if c = 114 then some 13 else if c = 116 then some 9
  else if c = 118 then some 11 else none

/-- The decimal digits at the start of a string, at most three, as `\ddd` has them. -/
def digits3 (s : LuaString) : LuaString := (s.take 3).takeWhile isDigit

/-- The second byte of a line break of two bytes. -/
def skipNewline (c : UInt8) : LuaString → LuaString
  | d :: s => if (d = 10 ∨ d = 13) ∧ d ≠ c then s else d :: s
  | [] => []

/-- `read_string` after the opening delimiter: the string, and what follows it. -/
def readString (del : UInt8) : ℕ → LuaString → Option (LuaString × LuaString)
  | 0, _ => none
  | _ + 1, [] => none
  | n + 1, c :: s =>
      if c = del then some ([], s)
      else if c = 10 ∨ c = 13 then none
      else if c = 92 then
        match s with
        | [] => none
        | e :: s' =>
            match escape e with
            | some x => (readString del n s').map fun r => (x :: r.1, r.2)
            | none =>
                if e = 10 ∨ e = 13 then
                  (readString del n (skipNewline e s')).map fun r => (10 :: r.1, r.2)
                else if isDigit e then
                  let ds := digits3 (e :: s')
                  if tonumber ds ≤ 255 then
                    (readString del n ((e :: s').drop ds.length)).map fun r =>
                      ((tonumber ds).toUInt8 :: r.1, r.2)
                  else none
                else (readString del n s').map fun r => (e :: r.1, r.2)
      else (readString del n s).map fun r => (c :: r.1, r.2)

/-- What the lexer finds at the start of a string. -/
inductive Step
  | eos
  | err
  | skip (rest : LuaString)
  | tok (t : Token) (rest : LuaString)

def numeral (ds : LuaString) : Int32 := Int32.ofInt (min (tonumber ds) 2147483647)

def lexStep : LuaString → Step
  | [] => .eos
  | c :: s =>
      if isSpace c then .skip s
      else if c = 45 then
        -- a comment
        if s.head? = some 45 then .err else .tok (.sym c) s
      else if c = 91 then
        -- a long string
        if s.head? = some 91 ∨ s.head? = some 61 then .err else .tok (.sym c) s
      else if c = 61 ∨ c = 60 ∨ c = 62 ∨ c = 126 then
        if s.head? = some 61 then .err else .tok (.sym c) s
      else if c = 34 ∨ c = 39 then
        match readString c (s.length + 1) s with
        | some r => .tok (.str r.1) r.2
        | none => .err
      else if c = 46 then
        if s.take 2 = [46, 46] then .tok .dots (s.drop 2) else .err
      else if isDigit c then
        let w := (c :: s).takeWhile fun d => isNameChar d || d = 46
        if w.all isDigit then .tok (.num (numeral w)) ((c :: s).drop w.length) else .err
      else if isNameStart c then
        let w := (c :: s).takeWhile isNameChar
        .tok (.name w) ((c :: s).drop w.length)
      else .tok (.sym c) s

/-- All tokens of a string, in at most `n` steps. -/
def lexFuel : ℕ → LuaString → Option (List Token)
  | 0, _ => none
  | n + 1, s =>
      match lexStep s with
      | .eos => some []
      | .err => none
      | .skip rest => lexFuel n rest
      | .tok t rest => (lexFuel n rest).map (t :: ·)

def lex (s : LuaString) : Option (List Token) := lexFuel (s.length + 1) s

/-! ## Parsing -/

def reserved : List LuaString :=
  ["and", "break", "continue", "do", "else", "elseif", "end", "false", "for", "function", "if",
    "in", "local", "nil", "not", "or", "repeat", "return", "then", "true", "until",
    "while"].map lua

/-- A constant in brackets. -/
def parseKey : List Token → Option (Key × List Token)
  | .num n :: ts => some (.int n, ts)
  | .sym 45 :: .num n :: ts => some (.int (-n), ts)
  | .str s :: ts => some (.str s, ts)
  | _ => none

/-- The fields of a constructor and its closing brace, at most `n`; `val` parses a value. -/
def parseFields (val : List Token → Option (Value × List Token)) :
    ℕ → List Token → Option (Fields × List Token)
  | 0, _ => none
  | n + 1, ts =>
      match ts with
      | .sym 125 :: ts => some (.nil, ts)
      | .sym 91 :: ts =>
          match parseKey ts with
          | some (k, .sym 93 :: .sym 61 :: ts) =>
              match val ts with
              | some (v, .sym 44 :: ts) =>
                  (parseFields val n ts).map fun r => (.cons k v r.1, r.2)
              | some (v, .sym 125 :: ts) => some (.cons k v .nil, ts)
              | _ => none
          | _ => none
      | _ => none

/-- An expression, with `levels` nested constructors at most. -/
def parseValue : ℕ → List Token → Option (Value × List Token)
  | 0, _ => none
  | levels + 1, ts =>
      match ts with
      | .num n :: ts => some (.int n, ts)
      | .sym 45 :: .num n :: ts => some (.int (-n), ts)
      | .str s :: ts => some (.str s, ts)
      | .name w :: ts =>
          if w = lua "true" then some (.bool true, ts)
          else if w = lua "false" then some (.bool false, ts)
          else none
      | .sym 123 :: ts =>
          (parseFields (parseValue levels) (ts.length + 1) ts).map fun r => (.table r.1, r.2)
      | _ => none

/-- Assignments to names up to the end, at most `n`. -/
def parseStats (levels : ℕ) : ℕ → List Token → Option (List (LuaString × Value))
  | 0, _ => none
  | n + 1, ts =>
      match ts with
      | [] => some []
      | .name k :: .sym 61 :: ts =>
          if k ∈ reserved then none
          else
            match parseValue levels ts with
            | some (v, ts) => (parseStats levels n ts).map ((k, v) :: ·)
            | none => none
      | _ => none

/-- The assignments that a chunk makes in the module that it starts with. -/
def parseModule (levels : ℕ) (text : LuaString) : Option (List (LuaString × Value)) :=
  match lex text with
  | some (.name m :: .sym 40 :: .dots :: .sym 41 :: ts) =>
      if m = lua "module" then parseStats levels (ts.length + 1) ts else none
  | _ => none

/-! ## Rules of the lexer -/

/-- The string has these tokens, after some number of steps. -/
def Lexes (s : LuaString) (ts : List Token) : Prop := ∃ n, lexFuel n s = some ts

theorem Lexes.nil : Lexes [] [] := ⟨1, rfl⟩

theorem Lexes.skip {s r : LuaString} {ts : List Token} (h : lexStep s = .skip r)
    (hr : Lexes r ts) : Lexes s ts := by
  obtain ⟨n, hn⟩ := hr
  refine ⟨n + 1, ?_⟩
  rw [lexFuel, h]
  exact hn

theorem Lexes.tok {s r : LuaString} {t : Token} {ts : List Token}
    (h : lexStep s = .tok t r) (hr : Lexes r ts) : Lexes s (t :: ts) := by
  obtain ⟨n, hn⟩ := hr
  refine ⟨n + 1, ?_⟩
  rw [lexFuel, h]
  simp [hn]

theorem lexFuel_mono {n m : ℕ} {s : LuaString} {ts : List Token} (h : lexFuel n s = some ts)
    (hm : n ≤ m) : lexFuel m s = some ts := by
  induction n generalizing m s ts with
  | zero => cases h
  | succ n ih =>
      obtain ⟨m, rfl⟩ : ∃ k, m = k + 1 := ⟨m - 1, by omega⟩
      rw [lexFuel] at h ⊢
      cases hs : lexStep s with
      | eos => rw [hs] at h; exact h
      | err => rw [hs] at h; cases h
      | skip rest =>
          rw [hs] at h
          exact ih h (by omega)
      | tok t rest =>
          rw [hs] at h
          obtain ⟨us, hu, rfl⟩ := Option.map_eq_some_iff.mp h
          simp [ih hu (by omega : n ≤ m)]

theorem skipNewline_length (c : UInt8) (s : LuaString) : (skipNewline c s).length ≤ s.length := by
  cases s with
  | nil => exact le_rfl
  | cons d s =>
      simp only [skipNewline]
      split
      · exact Nat.le_succ _
      · exact le_rfl

theorem readString_rest {del : UInt8} {n : ℕ} {s : LuaString} {r : LuaString × LuaString}
    (h : readString del n s = some r) : r.2.length < s.length := by
  induction n generalizing s r with
  | zero => cases h
  | succ n ih =>
      cases s with
      | nil => cases h
      | cons c s =>
          unfold readString at h
          split at h
          · cases h
            simp
          split at h
          · cases h
          split at h
          · cases s with
            | nil => cases h
            | cons e s =>
                simp only at h
                split at h
                · obtain ⟨q, hq, rfl⟩ := Option.map_eq_some_iff.mp h
                  have := ih hq
                  simp only [List.length_cons]
                  omega
                · split at h
                  · obtain ⟨q, hq, rfl⟩ := Option.map_eq_some_iff.mp h
                    have := ih hq
                    have := skipNewline_length e s
                    simp only [List.length_cons]
                    omega
                  split at h
                  · split at h
                    · obtain ⟨q, hq, rfl⟩ := Option.map_eq_some_iff.mp h
                      have := ih hq
                      simp only [List.length_drop, List.length_cons] at this ⊢
                      omega
                    · cases h
                  · obtain ⟨q, hq, rfl⟩ := Option.map_eq_some_iff.mp h
                    have := ih hq
                    simp only [List.length_cons]
                    omega
          · obtain ⟨q, hq, rfl⟩ := Option.map_eq_some_iff.mp h
            have := ih hq
            simp only [List.length_cons]
            omega

/-- What a step leaves to be read. -/
def Step.rest : Step → Option LuaString
  | .skip rest => some rest
  | .tok _ rest => some rest
  | _ => none

theorem lexStep_rest {s rest : LuaString} (h : rest ∈ (lexStep s).rest) :
    rest.length < s.length := by
  cases s with
  | nil => cases h
  | cons c s =>
      have hone : ∀ {r : LuaString}, r ∈ some s → r.length < (c :: s).length := by
        rintro r ⟨⟩
        exact Nat.lt_succ_self _
      have hword : ∀ {p : UInt8 → Bool} {r : LuaString}, p c = true →
          r ∈ some ((c :: s).drop ((c :: s).takeWhile p).length) → r.length < (c :: s).length := by
        rintro p r hp ⟨⟩
        rw [List.takeWhile_cons_of_pos hp, List.length_drop]
        simp only [List.length_cons]
        omega
      revert h
      simp only [lexStep]
      split
      · exact hone
      split
      · split
        · nofun
        · exact hone
      split
      · split
        · nofun
        · exact hone
      split
      · split
        · nofun
        · exact hone
      split
      · split
        case h_1 r hr =>
          rintro ⟨⟩
          exact (readString_rest hr).trans (Nat.lt_succ_self _)
        case h_2 => nofun
      split
      · split
        · rintro ⟨⟩
          simp only [List.length_drop, List.length_cons]
          omega
        · nofun
      split
      case isTrue hd =>
        split
        · apply hword
          simp [isNameChar, isAlnum, hd]
        · nofun
      split
      case isTrue hn =>
        apply hword
        simp only [isNameStart, Bool.or_eq_true] at hn
        simp only [isNameChar, isAlnum, Bool.or_eq_true]
        obtain hn | hn := hn
        · exact .inl (.inl hn)
        · exact .inr hn
      · exact hone

/-- The steps that `lex` has are enough. -/
theorem Lexes.lex_eq {s : LuaString} {ts : List Token} (h : Lexes s ts) : lex s = some ts := by
  obtain ⟨n, hn⟩ := h
  unfold lex
  induction n generalizing s ts with
  | zero => cases hn
  | succ n ih =>
      rw [lexFuel] at hn ⊢
      cases hs : lexStep s with
      | eos => rw [hs] at hn; exact hn
      | err => rw [hs] at hn; cases hn
      | skip rest =>
          rw [hs] at hn
          have hlt : rest.length < s.length := lexStep_rest (by rw [hs]; rfl)
          exact lexFuel_mono (ih hn) hlt
      | tok t rest =>
          rw [hs] at hn
          have hlt : rest.length < s.length := lexStep_rest (by rw [hs]; rfl)
          obtain ⟨us, hu, rfl⟩ := Option.map_eq_some_iff.mp hn
          simp [lexFuel_mono (ih hu) hlt]

end LuatAir200.Lua
