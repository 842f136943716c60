import LuatAir200.LuaData

/-!
# Writing Lua data

`%ld`, `%q` and the bare string, with the token that the lexer reads from each, and the
tokens of a tree of data, which the parser reads back.
-/
namespace LuatAir200.Lua

/-! ## Writing -/

/-- The decimal digits of a number, in at most `n` steps. -/
def decimalFuel : ℕ → ℕ → LuaString
  | 0, _ => []
  | n + 1, m =>
      if m < 10 then [48 + m.toUInt8] else decimalFuel n (m / 10) ++ [48 + (m % 10).toUInt8]

def decimal (m : ℕ) : LuaString := decimalFuel (m + 1) m

/-- `%ld` -/
def number (i : Int32) : LuaString :=
  if i.toInt < 0 then 45 :: decimal i.toInt.natAbs else decimal i.toInt.natAbs

def quoteChar (c : UInt8) : LuaString :=
  if c = 34 ∨ c = 92 ∨ c = 10 then [92, c]
  else if c = 13 then [92, 114]
  else if c = 0 then [92, 48, 48, 48]
  else [c]

/-- `%q` -/
def addquoted (s : LuaString) : LuaString := 34 :: (s.flatMap quoteChar ++ [34])

/-! ## The tokens of what is written -/

theorem decimalFuel_isDigit {n m : ℕ} {c : UInt8} (h : c ∈ decimalFuel n m) : isDigit c := by
  induction n generalizing m with
  | zero => cases h
  | succ n ih =>
      have hdig : ∀ d : Fin 10, isDigit (48 + d.val.toUInt8) := by decide
      rw [decimalFuel] at h
      split at h
      case isTrue hm =>
        rw [List.mem_singleton.mp h]
        exact hdig ⟨m, hm⟩
      case isFalse =>
        obtain h | h := List.mem_append.mp h
        · exact ih h
        · rw [List.mem_singleton.mp h]
          exact hdig ⟨m % 10, Nat.mod_lt _ (by decide)⟩

theorem tonumber_snoc (s : LuaString) (c : UInt8) :
    tonumber (s ++ [c]) = 10 * tonumber s + (c.toNat - 48) := by
  simp [tonumber]

theorem tonumber_decimalFuel {n m : ℕ} (h : m < n) : tonumber (decimalFuel n m) = m := by
  induction n generalizing m with
  | zero => omega
  | succ n ih =>
      have hdig : ∀ d : Fin 10, (48 + d.val.toUInt8).toNat - 48 = d.val := by decide
      rw [decimalFuel]
      split
      case isTrue hm =>
        simpa [tonumber] using hdig ⟨m, hm⟩
      case isFalse hm =>
        rw [tonumber_snoc, ih (by omega), hdig ⟨m % 10, Nat.mod_lt _ (by decide)⟩]
        dsimp only
        omega

theorem tonumber_decimal (m : ℕ) : tonumber (decimal m) = m :=
  tonumber_decimalFuel (Nat.lt_succ_self m)

theorem isDigit_decimal {m : ℕ} {c : UInt8} (h : c ∈ decimal m) : isDigit c :=
  decimalFuel_isDigit h

theorem decimal_ne_nil (m : ℕ) : decimal m ≠ [] := by
  rw [decimal, decimalFuel]
  split <;> simp

def intTokens (i : Int32) : List Token := if i.toInt < 0 then [.sym 45, .num (-i)] else [.num i]

/-- A name or a numeral ends before this string. -/
def Breaks (s : LuaString) : Prop := ∀ c ∈ s.head?, isNameChar c = false ∧ c ≠ 46

theorem takeWhile_breaks {p : UInt8 → Bool} {w s : LuaString} (hw : ∀ c ∈ w, p c)
    (hs : ∀ c ∈ s.head?, p c = false) : (w ++ s).takeWhile p = w := by
  rw [List.takeWhile_append_of_pos hw]
  cases s with
  | nil => simp
  | cons c s => simp [hs c rfl]

theorem isDigit_ne : ∀ {c : UInt8}, isDigit c → isSpace c = false ∧ c ≠ 45 ∧ c ≠ 91 ∧
    ¬(c = 61 ∨ c = 60 ∨ c = 62 ∨ c = 126) ∧ ¬(c = 34 ∨ c = 39) ∧ c ≠ 46 := by
  rintro ⟨b⟩
  revert b
  decide +kernel

theorem isNameStart_ne : ∀ {c : UInt8}, isNameStart c → isSpace c = false ∧ c ≠ 45 ∧ c ≠ 91 ∧
    ¬(c = 61 ∨ c = 60 ∨ c = 62 ∨ c = 126) ∧ ¬(c = 34 ∨ c = 39) ∧ c ≠ 46 ∧ isDigit c = false := by
  rintro ⟨b⟩
  revert b
  decide +kernel

/-- A numeral that is not too large. -/
theorem Lexes.num {m : ℕ} {rest : LuaString} {ts : List Token} (hm : m ≤ 2147483647)
    (hb : Breaks rest) (hr : Lexes rest ts) :
    Lexes (decimal m ++ rest) (.num (Int32.ofInt m) :: ts) := by
  apply Lexes.tok _ hr
  obtain ⟨c, w, hw⟩ := List.exists_cons_of_ne_nil (decimal_ne_nil m)
  have hd : ∀ d ∈ decimal m, isDigit d := fun d hd => isDigit_decimal hd
  obtain ⟨h1, h2, h3, h4, h5, h6⟩ := isDigit_ne (hd c (by rw [hw]; exact List.mem_cons_self))
  have htake : (decimal m ++ rest).takeWhile (fun d => isNameChar d || d = 46) = decimal m := by
    apply takeWhile_breaks
    · intro d hd'
      simp [isNameChar, isAlnum, hd d hd']
    · intro d hd'
      obtain ⟨hn, hp⟩ := hb d hd'
      simp [hn, hp]
  have hall : (decimal m).all isDigit := List.all_eq_true.mpr hd
  have hnum : numeral (decimal m) = Int32.ofInt m := by
    have hle : (m : ℤ) ≤ 2147483647 := by omega
    rw [numeral, tonumber_decimal, Int.min_eq_left hle]
  have hc : isDigit c := hd c (by rw [hw]; exact List.mem_cons_self)
  have hlex : lexStep (decimal m ++ rest) = .tok (.num (numeral (decimal m))) rest := by
    rw [hw, List.cons_append] at htake ⊢
    rw [hw] at hall
    simp only [lexStep, h1, h2, h3, h4, h5, h6, hc, htake, hall, if_false, if_true,
      Bool.false_eq_true]
    simp
  rw [hlex, hnum]

theorem Lexes.number {i : Int32} {rest : LuaString} {ts : List Token} (hi : i ≠ -2147483648)
    (hb : Breaks rest) (hr : Lexes rest ts) :
    Lexes (number i ++ rest) (intTokens i ++ ts) := by
  have hlt : i.toInt < 2 ^ 31 := i.toInt_lt
  have hle : -2 ^ 31 ≤ i.toInt := i.le_toInt
  have hmin : i.toInt ≠ -2 ^ 31 := by
    intro h
    exact hi (Int32.toInt.inj h)
  rw [Lua.number, intTokens]
  split
  case isTrue hneg =>
    obtain ⟨m, hm⟩ : ∃ m : ℕ, i.toInt = -m := ⟨i.toInt.natAbs, by omega⟩
    have he : Int32.ofInt m = -i := by
      rw [← Int32.ofInt_toInt i, ← Int32.ofInt_neg, hm, Int.neg_neg]
    rw [hm, Int.natAbs_neg, Int.natAbs_natCast, ← he]
    have hdec := Lexes.num (m := m) (by omega) hb hr
    obtain ⟨c, w, hw⟩ := List.exists_cons_of_ne_nil (decimal_ne_nil m)
    have hc : isDigit c := isDigit_decimal (m := m) (by rw [hw]; exact List.mem_cons_self)
    apply Lexes.tok _ hdec
    have hne : c ≠ 45 := (isDigit_ne hc).2.1
    simp [lexStep, hw, hne, show isSpace 45 = false from rfl]
  case isFalse hpos =>
    obtain ⟨m, hm⟩ : ∃ m : ℕ, i.toInt = m := ⟨i.toInt.natAbs, by omega⟩
    have he : Int32.ofInt m = i := by rw [← hm, Int32.ofInt_toInt]
    rw [hm, Int.natAbs_natCast, ← he]
    exact Lexes.num (by omega) hb hr

/-- A name, reserved or not. -/
theorem Lexes.name {c : UInt8} {w rest : LuaString} {ts : List Token} (hc : isNameStart c)
    (hw : ∀ d ∈ w, isNameChar d) (hb : Breaks rest) (hr : Lexes rest ts) :
    Lexes (c :: w ++ rest) (.name (c :: w) :: ts) := by
  apply Lexes.tok _ hr
  obtain ⟨h1, h2, h3, h4, h5, h6, h7⟩ := isNameStart_ne hc
  have hcc : isNameChar c := by
    simp only [isNameStart, Bool.or_eq_true] at hc
    simp only [isNameChar, isAlnum, Bool.or_eq_true]
    obtain hc | hc := hc
    · exact .inl (.inl hc)
    · exact .inr hc
  have htake : (c :: w ++ rest).takeWhile isNameChar = c :: w := by
    apply takeWhile_breaks
    · intro d hd
      obtain rfl | hd := List.mem_cons.mp hd
      · exact hcc
      · exact hw d hd
    · intro d hd
      exact (hb d hd).1
  rw [List.cons_append] at htake ⊢
  simp only [lexStep, h1, h2, h3, h4, h5, h6, h7, hc, htake, if_false, if_true,
    Bool.false_eq_true]
  simp

/-! ## Strings -/

theorem readString_quoteChar (c : UInt8) {n : ℕ} {s : LuaString} (hs : s.head? ≠ some 13) :
    readString 34 (n + 1) (quoteChar c ++ s) = (readString 34 n s).map fun r => (c :: r.1, r.2) := by
  unfold quoteChar
  split
  case isTrue h =>
    obtain rfl | rfl | rfl := h
    · rfl
    · rfl
    · -- a line break; the next byte is not the second one of a pair
      have hskip : skipNewline 10 s = s := by
        cases s with
        | nil => rfl
        | cons d s =>
            have hd : d ≠ 13 := by simpa using hs
            simp only [skipNewline, hd, or_false]
            rw [if_neg (by simp)]
      simp only [List.cons_append, List.nil_append]
      rw [readString]
      simp [escape, hskip]
  split
  case isTrue h =>
    subst h
    rfl
  split
  case isTrue h =>
    subst h
    simp [readString.eq_def 34 (n + 1), escape, isDigit, digits3, tonumber]
  case isFalse h1 h2 h3 =>
    simp only [not_or] at h1
    simp [readString.eq_def 34 (n + 1), h1.1, h1.2.1, h1.2.2, h2]

theorem quoteChar_head (c : UInt8) (s : LuaString) : (quoteChar c ++ s).head? ≠ some 13 := by
  unfold quoteChar
  split
  · simp
  split
  · simp
  split
  · simp
  case isFalse h1 h2 h3 =>
    simpa using h2

theorem readString_quoted {s rest : LuaString} {n : ℕ} (hn : s.length < n) :
    readString 34 n (s.flatMap quoteChar ++ 34 :: rest) = some (s, rest) := by
  induction s generalizing n with
  | nil =>
      obtain ⟨n, rfl⟩ : ∃ m, n = m + 1 := ⟨n - 1, by omega⟩
      rfl
  | cons c s ih =>
      obtain ⟨n, rfl⟩ : ∃ m, n = m + 1 := ⟨n - 1, by omega⟩
      have hhead : (s.flatMap quoteChar ++ 34 :: rest).head? ≠ some 13 := by
        cases s with
        | nil => simp
        | cons d s =>
            rw [List.flatMap_cons, List.append_assoc]
            exact quoteChar_head d _
      rw [List.flatMap_cons, List.append_assoc, readString_quoteChar c hhead,
        ih (by simpa using hn)]
      rfl

theorem length_quoted (s : LuaString) : s.length ≤ (s.flatMap quoteChar).length := by
  induction s with
  | nil => exact le_rfl
  | cons c s ih =>
      have hc : 1 ≤ (quoteChar c).length := by
        unfold quoteChar
        repeat' split
        all_goals simp
      rw [List.flatMap_cons, List.length_append, List.length_cons]
      omega

theorem Lexes.string {s body rest : LuaString} {ts : List Token}
    (h : readString 34 (body.length + 1) body = some (s, rest)) (hr : Lexes rest ts) :
    Lexes (34 :: body) (.str s :: ts) := by
  apply Lexes.tok _ hr
  simp [lexStep, h, show isSpace 34 = false from rfl]

theorem Lexes.quoted {s rest : LuaString} {ts : List Token} (hr : Lexes rest ts) :
    Lexes (addquoted s ++ rest) (.str s :: ts) := by
  rw [addquoted, List.cons_append, List.append_assoc, List.singleton_append]
  apply Lexes.string _ hr
  apply readString_quoted
  have := length_quoted s
  simp only [List.length_append]
  omega

/-- A byte that a string in quotes may have as it is. -/
def Bare (c : UInt8) : Prop := c ≠ 34 ∧ c ≠ 92 ∧ c ≠ 10 ∧ c ≠ 13

instance (c : UInt8) : Decidable (Bare c) := inferInstanceAs (Decidable (_ ∧ _))

theorem readString_bare {s rest : LuaString} {n : ℕ} (hs : ∀ c ∈ s, Bare c) (hn : s.length < n) :
    readString 34 n (s ++ 34 :: rest) = some (s, rest) := by
  induction s generalizing n with
  | nil =>
      obtain ⟨n, rfl⟩ : ∃ m, n = m + 1 := ⟨n - 1, by omega⟩
      rfl
  | cons c s ih =>
      obtain ⟨n, rfl⟩ : ∃ m, n = m + 1 := ⟨n - 1, by omega⟩
      obtain ⟨h1, h2, h3, h4⟩ := hs c List.mem_cons_self
      have hread := ih (n := n) (fun d hd => hs d (List.mem_cons_of_mem _ hd)) (by simpa using hn)
      simp [readString.eq_def 34 (n + 1), h1, h2, h3, h4, hread]

theorem Lexes.bare {s rest : LuaString} {ts : List Token} (hs : ∀ c ∈ s, Bare c)
    (hr : Lexes rest ts) : Lexes (34 :: (s ++ 34 :: rest)) (.str s :: ts) := by
  apply Lexes.string _ hr
  apply readString_bare hs
  simp only [List.length_append]
  omega

/-! ## The tokens of data -/

def Key.tokens : Key → List Token
  | .int i => intTokens i
  | .str s => [.str s]

mutual

def Value.tokens : Value → List Token
  | .int i => intTokens i
  | .str s => [.str s]
  | .bool b => [.name (if b then lua "true" else lua "false")]
  | .table fs => .sym 123 :: (fs.tokens ++ [.sym 125])

def Fields.tokens : Fields → List Token
  | .nil => []
  | .cons k v fs => .sym 91 :: (k.tokens ++ .sym 93 :: .sym 61 :: (v.tokens ++ .sym 44 :: fs.tokens))

end

mutual

/-- The levels of nesting that the parser needs. -/
def Value.depth : Value → ℕ
  | .table fs => fs.depth + 1
  | _ => 1

def Fields.depth : Fields → ℕ
  | .nil => 0
  | .cons _ v fs => max v.depth fs.depth

end

theorem parseKey_tokens (k : Key) (ts : List Token) : parseKey (k.tokens ++ ts) = some (k, ts) := by
  cases k with
  | int i =>
      simp only [Key.tokens, intTokens]
      split
      · simp [parseKey]
      · simp [parseKey]
  | str s => rfl

theorem Fields.count_le (fs : Fields) : fs.count ≤ fs.tokens.length := by
  induction fs using Fields.rec (motive_1 := fun _ => True) with
  | cons k v fs _ ih =>
      simp only [Fields.count, Fields.tokens, List.length_cons, List.length_append]
      omega
  | nil => exact le_rfl
  | _ => trivial

mutual

/-- The parser reads a value from its tokens. -/
theorem parseValue_tokens : ∀ (v : Value) {n : ℕ} (ts : List Token), v.depth ≤ n →
    parseValue n (v.tokens ++ ts) = some (v, ts)
  | .int i, n + 1, ts, _ => by
      simp only [Value.tokens, intTokens]
      split
      · simp [parseValue]
      · simp [parseValue]
  | .str s, n + 1, ts, _ => rfl
  | .bool b, n + 1, ts, _ => by
      cases b
      · rfl
      · rfl
  | .table fs, n + 1, ts, hd => by
      have hfs : fs.depth ≤ n := Nat.le_of_succ_le_succ hd
      have hlen : fs.count < (fs.tokens ++ .sym 125 :: ts).length + 1 := by
        have := fs.count_le
        rw [List.length_append]
        omega
      rw [Value.tokens, List.cons_append, List.append_assoc, List.singleton_append, parseValue,
        parseFields_tokens fs ts hfs hlen]
      rfl

theorem parseFields_tokens : ∀ (fs : Fields) {n m : ℕ} (ts : List Token), fs.depth ≤ n →
    fs.count < m → parseFields (parseValue n) m (fs.tokens ++ .sym 125 :: ts) = some (fs, ts)
  | .nil, n, m + 1, ts, _, _ => rfl
  | .cons k v fs, n, m + 1, ts, hd, hm => by
      rw [Fields.depth, Nat.max_le] at hd
      rw [Fields.tokens, List.cons_append, List.append_assoc, List.cons_append, List.cons_append,
        List.append_assoc, List.cons_append, parseFields, parseKey_tokens]
      simp only
      rw [parseValue_tokens v _ hd.1]
      simp only
      rw [parseFields_tokens fs ts hd.2 (Nat.lt_of_succ_lt_succ hm)]
      rfl

end

/-- The tokens of assignments. -/
def statTokens : List (LuaString × Value) → List Token
  | [] => []
  | (k, v) :: as => .name k :: .sym 61 :: (v.tokens ++ statTokens as)

theorem length_le_statTokens (as : List (LuaString × Value)) :
    as.length ≤ (statTokens as).length := by
  induction as with
  | nil => exact le_rfl
  | cons a as ih =>
      simp only [statTokens, List.length_cons, List.length_append]
      omega

theorem parseStats_tokens {levels n : ℕ} {as : List (LuaString × Value)}
    (h : ∀ a ∈ as, a.1 ∉ reserved ∧ a.2.depth ≤ levels) (hn : as.length < n) :
    parseStats levels n (statTokens as) = some as := by
  induction as generalizing n with
  | nil =>
      obtain ⟨n, rfl⟩ : ∃ m, n = m + 1 := ⟨n - 1, by omega⟩
      rfl
  | cons a as ih =>
      obtain ⟨n, rfl⟩ : ∃ m, n = m + 1 := ⟨n - 1, by omega⟩
      obtain ⟨hr, hd⟩ := h a List.mem_cons_self
      have has := ih (n := n) (fun b hb => h b (List.mem_cons_of_mem _ hb)) (by simpa using hn)
      rw [statTokens, parseStats, if_neg hr, parseValue_tokens _ _ hd]
      simp [has]

end LuatAir200.Lua
