import LuatAir200.NvmModel

/-!
# The parameter file and what is loaded from it

`save` writes names and keys as they are. Where a name is a name of Lua that is not reserved,
and a key has no byte that ends or changes a string in quotes, the lexer finds the tokens of
the data in the text, and `load` gives the data back.
-/
namespace LuatAir200.Nvm
open Lua

/-! ## What can be read back -/

/-- A key stands in the text without escapes; the least integer has no numeral. -/
def WritableKey : Key → Prop
  | .int i => i ≠ -2147483648
  | .str s => ∀ c ∈ s, Bare c

mutual

def Writable : Value → Prop
  | .int i => i ≠ -2147483648
  | .table fs => WritableFields fs
  | _ => True

def WritableFields : Fields → Prop
  | .nil => True
  | .cons k v fs => WritableKey k ∧ Writable v ∧ WritableFields fs

end

def IsName : LuaString → Prop
  | [] => False
  | c :: w => isNameStart c ∧ ∀ d ∈ w, isNameChar d

def WritableName : Key → Prop
  | .str w => IsName w ∧ w ∉ reserved
  | .int _ => False

/-- Parameters that `load` can read, with room for `n` levels of nesting. -/
def WritablePara (n : ℕ) : Fields → Prop
  | .nil => True
  | .cons k v fs => WritableName k ∧ Writable v ∧ v.depth ≤ n ∧ WritablePara n fs

/-- The parameters in `para`, which are its entries but for those of `module`. -/
def Holds (st : State) (fs : Fields) : Prop :=
  ∃ a t, st.para = .tbl a ∧ st.heap[a]? = some t ∧
    ReadsFields st.heap fs (t.entries.filter fun e => e.1 ∉ own)

/-- `get(k)` gives this value. -/
def Gives (env : Env) (st : State) (k : Val) (v : Value) : Prop :=
  match get env st k with
  | none => False
  | some (.val x) => Reads st.heap v x
  | some (.copy t) => ∃ fs, v = .table fs ∧ ReadsFields st.heap fs t.entries

/-! ## The tokens of the text -/

theorem breaks_cons {c : UInt8} {s : LuaString} (h : isNameChar c = false ∧ c ≠ 46) :
    Breaks (c :: s) := by
  rintro d ⟨⟩
  exact h

theorem number_eq_cons (i : Int32) : ∃ c w, number i = c :: w ∧ c ≠ 91 ∧ c ≠ 61 := by
  unfold number
  split
  · exact ⟨45, _, rfl, by decide, by decide⟩
  · obtain ⟨c, w, hw⟩ := List.exists_cons_of_ne_nil (decimal_ne_nil i.toInt.natAbs)
    have hc : isDigit c := isDigit_decimal (m := i.toInt.natAbs) (by rw [hw]; exact List.mem_cons_self)
    obtain ⟨-, -, h1, h2, -⟩ := isDigit_ne hc
    exact ⟨c, w, hw, h1, fun h => h2 (.inl h)⟩

theorem lexStep_bracket {c : UInt8} {s : LuaString} (h1 : c ≠ 91) (h2 : c ≠ 61) :
    lexStep (91 :: c :: s) = .tok (.sym 91) (c :: s) := by
  have h : ¬((c :: s).head? = some 91 ∨ (c :: s).head? = some 61) := by simp [h1, h2]
  rw [lexStep]
  simp only [show isSpace 91 = false from rfl, Bool.false_eq_true, if_false, if_true, if_neg h]
  rfl

theorem keyText_lexes {k : Key} {rest : LuaString} {ts : List Token} (hk : WritableKey k)
    (hr : Lexes rest ts) : ∃ s, keyText k.val = some s ∧
      Lexes (s ++ rest) (.sym 91 :: (k.tokens ++ .sym 93 :: .sym 61 :: ts)) := by
  have htail : Lexes (lua "] = " ++ rest) (.sym 93 :: .sym 61 :: ts) := by
    apply Lexes.tok (r := lua " = " ++ rest) rfl
    apply Lexes.skip (r := lua "= " ++ rest) rfl
    apply Lexes.tok (r := lua " " ++ rest) rfl
    exact Lexes.skip rfl hr
  cases k with
  | int i =>
      refine ⟨_, rfl, ?_⟩
      rw [List.append_assoc, List.append_assoc]
      have hnum := Lexes.number hk (breaks_cons (by decide)) htail
      apply Lexes.skip (r := 91 :: (number i ++ (lua "] = " ++ rest))) rfl
      obtain ⟨c, w, hw, h1, h2⟩ := number_eq_cons i
      apply Lexes.tok _ hnum
      rw [hw]
      exact lexStep_bracket h1 h2
  | str s =>
      refine ⟨_, rfl, ?_⟩
      rw [List.append_assoc, List.append_assoc]
      have hstr := Lexes.bare hk htail
      apply Lexes.skip (r := 91 :: (34 :: (s ++ (34 :: (lua "] = " ++ rest))))) rfl
      exact Lexes.tok rfl hstr

mutual

theorem serialize_lexes {h : Heap} : ∀ {v : Value} {x : Val} {n : ℕ}, Reads h v x → Writable v →
    v.depth ≤ n → (serialize h n x).2 = true ∧ ∀ rest ts, Breaks rest → Lexes rest ts →
      Lexes ((serialize h n x).1 ++ rest) (v.tokens ++ ts)
  | .int i, _, n + 1, hx, hw, _ => by
      obtain rfl := hx
      exact ⟨rfl, fun rest ts hb hr => Lexes.number hw hb hr⟩
  | .str s, _, n + 1, hx, _, _ => by
      obtain rfl := hx
      exact ⟨rfl, fun rest ts _ hr => Lexes.quoted hr⟩
  | .bool b, _, n + 1, hx, _, _ => by
      obtain rfl := hx
      refine ⟨rfl, fun rest ts hb hr => ?_⟩
      cases b
      · exact Lexes.name rfl (List.all_eq_true.mp rfl) hb hr
      · exact Lexes.name rfl (List.all_eq_true.mp rfl) hb hr
  | .table fs, _, n + 1, hx, hw, hd => by
      obtain ⟨a, t, rfl, ht, hfs⟩ := hx
      obtain ⟨hok, hlex⟩ := serializeFields_lexes hfs hw (Nat.le_of_succ_le_succ hd)
      simp only [serialize, ht, hok, if_true, true_and]
      intro rest ts _ hr
      rw [List.append_assoc, List.append_assoc, Value.tokens, List.cons_append, List.append_assoc]
      refine Lexes.tok (r := lua "\n" ++ _) rfl (Lexes.skip rfl (hlex _ _ ?_))
      exact Lexes.tok (r := lua "\n" ++ rest) rfl (Lexes.skip rfl hr)

theorem serializeFields_lexes {h : Heap} : ∀ {fs : Fields} {es : List (Val × Val)} {n : ℕ},
    ReadsFields h fs es → WritableFields fs → fs.depth ≤ n →
    (serializeFields (serialize h n) es).2 = true ∧ ∀ rest ts, Lexes rest ts →
      Lexes ((serializeFields (serialize h n) es).1 ++ rest) (fs.tokens ++ ts)
  | .nil, _, _, hes, _, _ => by
      obtain rfl := hes
      exact ⟨rfl, fun rest ts hr => hr⟩
  | .cons k v fs, _, n, hes, hw, hd => by
      obtain ⟨x, es, rfl, hx, hes⟩ := hes
      rw [Fields.depth, Nat.max_le] at hd
      obtain ⟨hv, hvlex⟩ := serialize_lexes hx hw.2.1 hd.1
      obtain ⟨hok, hlex⟩ := serializeFields_lexes hes hw.2.2 hd.2
      obtain ⟨s, hs, -⟩ := @keyText_lexes k [] [] hw.1 Lexes.nil
      simp only [serializeFields, hs, hv, if_true]
      refine ⟨hok, fun rest ts hr => ?_⟩
      have htail : Lexes (lua ",\n" ++ ((serializeFields (serialize h n) es).1 ++ rest))
          (.sym 44 :: (fs.tokens ++ ts)) :=
        Lexes.tok (r := lua "\n" ++ _) rfl (Lexes.skip rfl (hlex rest ts hr))
      have hval := hvlex _ _ (breaks_cons (by decide)) htail
      obtain ⟨s', hs', hkey⟩ := keyText_lexes hw.1 hval
      rw [hs] at hs'
      cases hs'
      simp only [Fields.tokens, List.append_assoc, List.cons_append]
      exact hkey

end

theorem saveEntries_filter (ser : Val → LuaString × Bool) (es : List (Val × Val)) :
    saveEntries ser (es.filter fun e => e.1 ∉ own) = saveEntries ser es := by
  induction es with
  | nil => rfl
  | cons e es ih =>
      obtain ⟨k, v⟩ := e
      by_cases hk : k ∈ own
      · rw [List.filter_cons_of_neg (by simpa using hk), ih, saveEntries, if_pos hk]
      · rw [List.filter_cons_of_pos (by simpa using hk), saveEntries, saveEntries, ih]

/-- The parameters as assignments. -/
def assignments : Fields → List (LuaString × Value)
  | .nil => []
  | .cons (.str w) v fs => (w, v) :: assignments fs
  | .cons (.int _) _ fs => assignments fs

theorem name_lexes {w rest : LuaString} {ts : List Token} (hw : IsName w) (hr : Lexes rest ts) :
    Lexes (w ++ (lua " = " ++ rest)) (.name w :: .sym 61 :: ts) := by
  cases w with
  | nil => exact hw.elim
  | cons c w =>
      apply Lexes.name hw.1 hw.2 (breaks_cons (by decide))
      apply Lexes.skip (r := lua "= " ++ rest) rfl
      exact Lexes.tok (r := lua " " ++ rest) rfl (Lexes.skip rfl hr)

theorem saveEntries_lexes {h : Heap} {n : ℕ} {fs : Fields} {es : List (Val × Val)}
    (hes : ReadsFields h fs es) (hw : WritablePara n fs) (hown : ∀ e ∈ es, e.1 ∉ own) :
    (saveEntries (serialize h n) es).2 = true ∧
      Lexes (saveEntries (serialize h n) es).1 (statTokens (assignments fs)) := by
  induction es generalizing fs with
  | nil =>
      cases fs with
      | nil => exact ⟨rfl, Lexes.nil⟩
      | cons k v fs =>
          obtain ⟨x, es, he, -⟩ := hes
          cases he
  | cons e es ih =>
      cases fs with
      | nil => cases hes
      | cons k v fs =>
          obtain ⟨x, es', he, hx, hes⟩ := hes
          cases he
          obtain ⟨hk, hv, hd, hfs⟩ := hw
          obtain ⟨hok, hlex⟩ := ih hes hfs fun e he => hown e (List.mem_cons_of_mem _ he)
          cases k with
          | int i => exact hk.elim
          | str w =>
              obtain ⟨hv', hvlex⟩ := serialize_lexes hx hv hd
              have hk' : Val.str w ∉ own := hown _ List.mem_cons_self
              have htail : Lexes (lua "\n" ++ (saveEntries (serialize h n) es).1)
                  (statTokens (assignments fs)) := Lexes.skip rfl hlex
              have hval := hvlex _ _ (breaks_cons (by decide)) htail
              have hname := name_lexes hk.1 hval
              simp only [Key.val, saveEntries, if_neg hk', written, hv', if_true]
              refine ⟨hok, ?_⟩
              simp only [assignments, statTokens, List.append_assoc]
              exact hname

theorem WritablePara.mono {n m : ℕ} {fs : Fields} (h : WritablePara n fs) (hm : n ≤ m) :
    WritablePara m fs := by
  induction fs using Fields.rec (motive_1 := fun _ => True) with
  | nil => trivial
  | cons k v fs _ ih => exact ⟨h.1, h.2.1, h.2.2.1.trans hm, ih h.2.2.2⟩
  | _ => trivial

theorem WritablePara.assigned_assignments {n : ℕ} {fs : Fields} (h : WritablePara n fs) :
    assigned (assignments fs) = fs := by
  induction fs using Fields.rec (motive_1 := fun _ => True) with
  | nil => rfl
  | cons k v fs _ ih =>
      cases k with
      | int i => exact h.1.elim
      | str w => rw [assignments, assigned, ih h.2.2.2]
  | _ => trivial

theorem WritablePara.assignments_ok {n : ℕ} {fs : Fields} (h : WritablePara n fs) :
    ∀ a ∈ assignments fs, a.1 ∉ reserved ∧ a.2.depth ≤ n := by
  induction fs using Fields.rec (motive_1 := fun _ => True) with
  | nil => simp [assignments]
  | cons k v fs _ ih =>
      cases k with
      | int i => exact h.1.elim
      | str w =>
          intro a ha
          obtain rfl | ha := List.mem_cons.mp ha
          · exact ⟨h.1.2, h.2.2.1⟩
          · exact ih h.2.2.2 a ha
  | _ => trivial

/-- The parser reads the parameters in the file that `save` writes. -/
theorem save_parses {env : Env} {st : State} {fs : Fields} (hst : Holds st fs)
    (hw : WritablePara (min env.levels env.calls) fs) :
    (save env true st).2 = true ∧ ∃ text, (save env true st).1.file = some text ∧ text ≠ [] ∧
      parseModule env.levels text = some (assignments fs) := by
  obtain ⟨a, t, hp, ht, hfs⟩ := hst
  have hpairs : pairs st.heap st.para = some t.entries := by simp [pairs, hp, ht]
  obtain ⟨hok, hlex⟩ := saveEntries_lexes hfs (hw.mono (min_le_right _ _))
    fun e he => by simpa using (List.mem_filter.mp he).2
  rw [saveEntries_filter] at hok hlex
  simp only [save, hpairs, if_true]
  refine ⟨hok, _, rfl, by simp [lua], ?_⟩
  have htext : Lexes (lua "module(...)\n" ++ (saveEntries (serialize st.heap env.calls) t.entries).1)
      (.name (lua "module") :: .sym 40 :: .dots :: .sym 41 :: statTokens (assignments fs)) := by
    apply Lexes.tok (r := lua "(...)\n" ++ _) rfl
    apply Lexes.tok (r := lua "...)\n" ++ _) rfl
    apply Lexes.tok (r := lua ")\n" ++ _) rfl
    apply Lexes.tok (r := lua "\n" ++ _) rfl
    exact Lexes.skip rfl hlex
  have hstats := parseStats_tokens (hw.mono (min_le_left env.levels env.calls)).assignments_ok
    (Nat.lt_succ_of_le (length_le_statTokens (assignments fs)))
  rw [parseModule, htext.lex_eq]
  simp only [if_true]
  exact hstats

/-! ## What is loaded -/

/-- `get` gives the data of a reference, also when it makes a copy. -/
theorem gives_iff {env : Env} {st : State} {k x : Val} {v : Value}
    (hi : index env.methods st.heap st.para k = some x) : Gives env st k v ↔ Reads st.heap v x := by
  unfold Gives get
  rw [hi]
  cases x with
  | tbl a =>
      cases ht : st.heap[a]? with
      | none =>
          simp only [ht, Option.map_none, false_iff]
          intro hr
          cases v with
          | table fs =>
              obtain ⟨b, t, hb, htb, -⟩ := hr
              cases hb
              rw [ht] at htb
              cases htb
          | _ => cases hr
      | some t =>
          simp only [ht, Option.map_some]
          cases v with
          | table fs =>
              constructor
              · rintro ⟨gs, hgs, hr⟩
                cases hgs
                exact ⟨a, t, rfl, ht, hr⟩
              · rintro ⟨b, u, hb, hu, hr⟩
                cases hb
                rw [ht] at hu
                cases hu
                exact ⟨fs, rfl, hr⟩
          | _ => simp [Reads]
  | _ => rfl

/-- The table that a chunk of data makes has the fields of the data. -/
theorem makeModule_spec (name : LuaString) {as : List (LuaString × Value)} (h : Heap)
    (hp : (assigned as).Proper) (hown : ∀ k ∈ (assigned as).keys, k.val ∉ own) :
    ∃ h' t, makeModule name as h = (h' ++ [t], .tbl h'.length) ∧ h <+: h' ∧
      ∀ k v, (assigned as).lookup k = some v → Reads h' v (t.get k.val) := by
  generalize hm : moduleTable name (allocFields (assigned as) h .empty).1.length = m
  have hkeys : ∀ k ∈ (assigned as).keys, k.val ∉ m.keys := by
    subst hm
    exact hown
  obtain ⟨es, hes, hr⟩ := allocFields_reads h hp hkeys
  refine ⟨(allocFields (assigned as) h m).1, (allocFields (assigned as) h m).2, ?_,
    allocFields_extends (assigned as) h m, ?_⟩
  · rw [makeModule, hm, allocFields_heap _ _ .empty m]
  · intro k v hk
    obtain ⟨x, hx, hrx⟩ := hr.lookup hk
    have hmem : (k.val, x) ∈ (allocFields (assigned as) h m).2.entries := by
      rw [hes]
      exact List.mem_append_right _ hx
    rw [(Table.mem_iff.mp hmem).2]
    exact hrx

theorem Holds.keys {st : State} {fs : Fields} (hst : Holds st fs) :
    fs.Proper ∧ ∀ k ∈ fs.keys, k.val ∉ own := by
  obtain ⟨a, t, -, -, hfs⟩ := hst
  have hmap := hfs.map_fst
  refine ⟨hfs.proper ?_, ?_⟩
  · exact t.nodup.sublist (List.filter_sublist.map _)
  · intro k hk
    have hm : k.val ∈ (t.entries.filter fun e => e.1 ∉ own).map Prod.fst := by
      rw [hmap]
      exact List.mem_map_of_mem hk
    obtain ⟨e, he, hek⟩ := List.mem_map.mp hm
    have hown : e.1 ∉ own := by simpa using (List.mem_filter.mp he).2
    rwa [hek] at hown

/-- What `init` does with a file of data. -/
theorem init_data {env : Env} {h : Heap} {b : ℕ} {d : Table} {text : LuaString}
    {as : List (LuaString × Value)} (hd : h[b]? = some d) (htext : text ≠ [])
    (hparse : parseModule env.levels text = some as) (hp : (assigned as).Proper)
    (hown : ∀ k ∈ (assigned as).keys, k.val ∉ own) :
    (init env h (.tbl b) (some text)).2 = true ∧ ∀ k v, (assigned as).lookup k = some v →
      Gives env (init env h (.tbl b) (some text)).1 k.val v := by
  obtain ⟨h', t, hmake, hext, hreads⟩ := makeModule_spec (lua "para") (h ++ [.empty]) hp hown
  have hreq : env.require (lua "para") text (h ++ [.empty]) = (h' ++ [t], .ok (.tbl h'.length)) := by
    simp only [Env.require, hparse, hmake]
  have hb : (h' ++ [t])[b]? = some d := by
    obtain ⟨r, rfl⟩ := hext
    obtain ⟨hlt, -⟩ := List.getElem?_eq_some_iff.mp hd
    simp only [List.append_assoc]
    rw [List.getElem?_append_left hlt]
    exact hd
  let st : State := { boot h (.tbl b) (some text) with heap := h' ++ [t], para := .tbl h'.length }
  have hupd : upd env false st = _ := upd_eq (a := h'.length) (t := t) rfl (by simp [st]) rfl hb
  have hinit : init env h (.tbl b) (some text) = upd env false st := by
    simp only [init, load, boot, if_neg htext, hreq, st]
  rw [hinit, hupd]
  refine ⟨rfl, ?_⟩
  intro k v hk
  have hread := hreads k v hk
  have hget : (merge false d.entries t).get k.val = t.get k.val := by
    rw [get_merge, if_neg]
    rintro ⟨-, hn, -⟩
    exact hread.ne_nil (by simpa using hn)
  apply (gives_iff (x := t.get k.val) ?_).mpr
  · apply hread.mono
    simp [st]
  · simp [st, index, hget]

/-- What `save` writes is loaded again, with any defaults. -/
theorem saved_loads (env : Env) (st : State) (fs : Fields) (h : Heap) (b : ℕ) (d : Table)
    (hst : Holds st fs) (hd : h[b]? = some d)
    (hw : WritablePara (min env.levels env.calls) fs) :
    (save env true st).2 = true ∧
      (init env h (.tbl b) (save env true st).1.file).2 = true ∧
      ∀ k v, fs.lookup k = some v →
        Gives env (init env h (.tbl b) (save env true st).1.file).1 k.val v := by
  obtain ⟨hsave, text, hfile, hne, hparse⟩ := save_parses hst hw
  obtain ⟨hp, hown⟩ := hst.keys
  rw [← hw.assigned_assignments] at hp hown
  obtain ⟨hinit, hgives⟩ := init_data hd hne hparse hp hown
  rw [hfile]
  refine ⟨hsave, hinit, ?_⟩
  intro k v hk
  rw [← hw.assigned_assignments] at hk
  exact hgives k v hk

/-- The interpreter on a text that is not Lua. -/
def syntaxError : Env where
  config := []
  methods _ := .nil
  levels := 190
  calls := 190
  run _ h := (h, .error (.str (lua "/para.lua:2: unexpected symbol")))
  extends_run _ _ := List.prefix_rfl

/-- A default configuration with one parameter. -/
def dftconfig : Table := ⟨[(.str (lua "num"), .int 1)], by decide, by decide⟩

/-- A store with the parameters `num` and `tab`, where `tab` has one field. -/
def store (k : LuaString) : State where
  heap := [⟨[(.str (lua "num"), .int (-5)), (.str (lua "tab"), .tbl 1)], by decide, by decide⟩,
    ⟨[(.str k, .str (lua "say \"hi\""))], by simp, by simp⟩]
  para := .tbl 0
  libdftconfig := .nil
  file := none
  notices := []

def stored (k : LuaString) : Fields :=
  .cons (.str (lua "num")) (.int (-5)) <|
    .cons (.str (lua "tab")) (.table (.cons (.str k) (.str (lua "say \"hi\"")) .nil)) .nil

theorem holds_store (k : LuaString) : Holds (store k) (stored k) :=
  ⟨0, _, rfl, rfl, _, _, rfl, rfl, _, _, rfl, ⟨1, _, rfl, rfl, _, _, rfl, rfl, rfl⟩, rfl⟩

theorem saved_loads_store :
    (save syntaxError true (store (lua "text"))).2 = true ∧
      (init syntaxError [dftconfig] (.tbl 0) (save syntaxError true (store (lua "text"))).1.file).2 =
        true ∧
      ∀ k v, (stored (lua "text")).lookup k = some v →
        Gives syntaxError (init syntaxError [dftconfig] (.tbl 0)
          (save syntaxError true (store (lua "text"))).1.file).1 k.val v := by
  apply saved_loads syntaxError _ _ _ 0 dftconfig (holds_store _) rfl
  have hname : ∀ {c : UInt8} {w : LuaString}, isNameStart c = true → w.all isNameChar = true →
      c :: w ∉ reserved → WritableName (.str (c :: w)) :=
    fun hc hw hr => ⟨⟨hc, List.all_eq_true.mp hw⟩, hr⟩
  refine ⟨hname rfl rfl (by decide), ?_, by decide, ?_⟩
  · show (-5 : Int32) ≠ -2147483648
    decide
  refine ⟨hname rfl rfl (by decide), ⟨?_, trivial, trivial⟩, by decide, trivial⟩
  show ∀ c ∈ lua "text", Bare c
  decide +kernel

/-- A quotation mark in a key makes the whole file unreadable: `init` raises an error. -/
theorem quoted_key_unloadable : ¬∀ (env : Env) (st : State) (fs : Fields) (h : Heap) (b : ℕ)
    (d : Table), Holds st fs → h[b]? = some d →
      (save env true st).2 = true ∧
        (init env h (.tbl b) (save env true st).1.file).2 = true ∧
        ∀ k v, fs.lookup k = some v →
          Gives env (init env h (.tbl b) (save env true st).1.file).1 k.val v := by
  intro hall
  have hinit := (hall syntaxError _ _ [dftconfig] 0 dftconfig (holds_store (lua "5\"")) rfl).2.1
  revert hinit
  decide +kernel

end LuatAir200.Nvm
