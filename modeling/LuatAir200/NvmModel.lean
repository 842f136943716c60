import LuatAir200.LuaHeap
import LuatAir200.LuaText

/-!
# `nvm.lua`: the parameter store

`para` and `libdftconfig` are references into the heap, as in the source: `upd` copies the
references of the defaults. A call gives the state that it leaves and whether it returns
(`false`: it raises an error). The parameter file is loaded by `require`: a chunk of data
makes a module of its assignments; what another chunk does is a parameter of the model, which
only says that the tables in the heap are not touched.
-/
namespace LuatAir200.Nvm
open Lua

/-- A message to the system's callbacks. -/
inductive Notice
  | paraChanged (k v r : Val)
  | tparaChanged (k kk v r : Val)
  deriving DecidableEq

structure Env where
  /-- The text of the default configuration file. -/
  config : LuaString
  /-- `string.rep` and so on, which are also the fields of every string. -/
  methods : Val → Val
  /-- The constructors that the parser nests. -/
  levels : ℕ
  /-- The calls that the stack has room for. -/
  calls : ℕ
  /-- What a chunk does that is not made of data only. -/
  run : LuaString → Heap → Heap × Except Val Val
  extends_run : ∀ text h, h <+: (run text h).1

structure State where
  heap : Heap
  para : Val
  libdftconfig : Val
  /-- The content of `paraname`. -/
  file : Option LuaString
  notices : List Notice
  deriving DecidableEq

/-- The fields that `module` makes in a module's table. -/
def own : List Val := [.str (lua "_M"), .str (lua "_NAME"), .str (lua "_PACKAGE")]

/-! ## Loading a chunk -/

/-- The table that `module` makes at an address. -/
def moduleTable (name : LuaString) (a : ℕ) : Table :=
  ((Table.empty.put (.str (lua "_M")) (.tbl a)).put (.str (lua "_NAME")) (.str name)).put
    (.str (lua "_PACKAGE")) (.str [])

/-- The assignments as fields of the module's table. -/
def assigned : List (LuaString × Value) → Fields
  | [] => .nil
  | (k, v) :: as => .cons (.str k) v (assigned as)

/-- The module's table is the last one of the heap. -/
def makeModule (name : LuaString) (as : List (LuaString × Value)) (h : Heap) : Heap × Val :=
  let a := (allocFields (assigned as) h .empty).1.length
  let r := allocFields (assigned as) h (moduleTable name a)
  (r.1 ++ [r.2], .tbl a)

def Env.require (env : Env) (name text : LuaString) (h : Heap) : Heap × Except Val Val :=
  match parseModule env.levels text with
  | some as =>
      let r := makeModule name as h
      (r.1, .ok r.2)
  | none => env.run text h

theorem makeModule_extends (name : LuaString) (as : List (LuaString × Value)) (h : Heap) :
    h <+: (makeModule name as h).1 :=
  (allocFields_extends (assigned as) h _).trans (List.prefix_append _ _)

theorem Env.extends_require (env : Env) (name text : LuaString) (h : Heap) :
    h <+: (env.require name text h).1 := by
  unfold Env.require
  split
  · exact makeModule_extends name _ h
  · exact env.extends_run text h

/-! ## Saving -/

/-- The text that `write` gives for a number or a string. -/
def written : Val → Option LuaString
  | .int i => some (number i)
  | .str s => some s
  | _ => none

/-- The start of a field of a table; another key is an error. -/
def keyText : Val → Option LuaString
  | .int i => some (lua " [" ++ number i ++ lua "] = ")
  | .str s => some (lua " [\"" ++ s ++ lua "\"] = ")
  | _ => none

/-- The fields of a table: what is written, and whether there was no error. -/
def serializeFields (ser : Val → LuaString × Bool) : List (Val × Val) → LuaString × Bool
  | [] => ([], true)
  | (k, v) :: es =>
      match keyText k with
      | none => ([], false)
      | some s =>
          let r := ser v
          if r.2 then
            let q := serializeFields ser es
            (s ++ r.1 ++ lua ",\n" ++ q.1, q.2)
          else (s ++ r.1, false)

/-- `serialize`, with room for a number of nested calls. -/
def serialize (h : Heap) : ℕ → Val → LuaString × Bool
  | 0, _ => ([], false)
  | n + 1, o =>
      match o with
      | .int i => (number i, true)
      | .str s => (addquoted s, true)
      | .bool b => (if b then lua "true" else lua "false", true)
      | .tbl a =>
          match h[a]? with
          | none => ([], false)
          | some t =>
              let r := serializeFields (serialize h n) t.entries
              (lua "\x7b\n" ++ r.1 ++ (if r.2 then lua "\x7d\n" else []), r.2)
      | _ => ([], false)

/-- The loop of `save` over the parameters. -/
def saveEntries (ser : Val → LuaString × Bool) : List (Val × Val) → LuaString × Bool
  | [] => ([], true)
  | (k, v) :: es =>
      if k ∈ own then saveEntries ser es
      else
        match written k with
        | none => ([], false)
        | some s =>
            let r := ser v
            if r.2 then
              let q := saveEntries ser es
              (s ++ lua " = " ++ r.1 ++ lua "\n" ++ q.1, q.2)
            else (s ++ lua " = " ++ r.1, false)

/-- The entries that `pairs` goes through; `none` is an error. -/
def pairs (h : Heap) : Val → Option (List (Val × Val))
  | .tbl a => h[a]?.map Table.entries
  | _ => none

def save (env : Env) (s : Bool) (st : State) : State × Bool :=
  if s then
    match pairs st.heap st.para with
    | none => ({ st with file := some (lua "module(...)\n") }, false)
    | some es =>
        let r := saveEntries (serialize st.heap env.calls) es
        ({ st with file := some (lua "module(...)\n" ++ r.1) }, r.2)
  else (st, true)

/-! ## Loading -/

/-- The loop of `upd` over the defaults. -/
def updEntries (env : Env) (overide : Bool) : List (Val × Val) → State → State × Bool
  | [], st => (st, true)
  | (k, v) :: es, st =>
      if k ∈ own then updEntries env overide es st
      else
        -- `overide or para[k] == nil`
        match if overide then some true else (index env.methods st.heap st.para k).map (· = .nil) with
        | none => (st, false)
        | some false => updEntries env overide es st
        | some true =>
            match newindex st.heap st.para k v with
            | none => (st, false)
            | some h => updEntries env overide es { st with heap := h }

def upd (env : Env) (overide : Bool) (st : State) : State × Bool :=
  match pairs st.heap st.libdftconfig with
  | none => (st, false)
  | some es => updEntries env overide es st

def restore (env : Env) (st : State) : State × Bool :=
  upd env true { st with file := some env.config }

def load (env : Env) (st : State) : State × Bool :=
  match st.file with
  | none => restore env st
  | some text =>
      if text = [] then restore env st
      else
        match env.require (lua "para") text st.heap with
        -- `para` is the error
        | (h, .error e) => restore env { st with heap := h, para := e }
        | (h, .ok v) => upd env false { st with heap := h, para := v }

/-- The module after its chunk has run, with the default configuration loaded. -/
def boot (h : Heap) (dft : Val) (file : Option LuaString) : State :=
  { heap := h ++ [.empty], para := .tbl h.length, libdftconfig := dft, file := file, notices := [] }

/-- `init`, once the default configuration is loaded. -/
def init (env : Env) (h : Heap) (dft : Val) (file : Option LuaString) : State × Bool :=
  load env (boot h dft file)

/-! ## Reading and writing -/

/-- The change of a table in `set`: some field of the old one has another value. -/
def bchg (env : Env) (st : State) (k v : Val) : Option Bool :=
  match v with
  | .tbl a => do
      let es ← pairs st.heap (← index env.methods st.heap st.para k)
      let t ← st.heap[a]?
      pure (es.any fun e => e.2 ≠ t.get e.1)
  | _ => (index env.methods st.heap st.para k).map (· ≠ v)

/-- `save(s or s==nil)`, and the message if there is a reason. -/
def saved (env : Env) (s : Val) (notice : Option Notice) (st : State) : State × Bool :=
  let r := save env (s.truthy || s = .nil) st
  if r.2 then ({ r.1 with notices := r.1.notices ++ notice.toList }, true) else r

def set (env : Env) (k v r s : Val) (st : State) : State × Bool :=
  match bchg env st k v with
  | none => (st, false)
  | some false => (st, true)
  | some true =>
      match newindex st.heap st.para k v with
      | none => (st, false)
      | some h =>
          saved env s (if r.truthy then some (.paraChanged k v r) else none) { st with heap := h }

def sett (env : Env) (k kk v r s : Val) (st : State) : State × Bool :=
  match index env.methods st.heap st.para k with
  | none => (st, false)
  | some t =>
      match index env.methods st.heap t kk with
      | none => (st, false)
      | some x =>
          if x ≠ v then
            match newindex st.heap t kk v with
            | none => (st, false)
            | some h =>
                saved env s (if r.truthy then some (.tparaChanged k kk v r) else none)
                  { st with heap := h }
          else (st, true)

def flush (env : Env) (st : State) : State × Bool := save env true st

/-- What `get` returns: a value, or a new table, which stands here for itself. -/
inductive Got
  | val (v : Val)
  | copy (t : Table)
  deriving DecidableEq

def get (env : Env) (st : State) (k : Val) : Option Got :=
  match index env.methods st.heap st.para k with
  | none => none
  | some (.tbl a) => st.heap[a]?.map .copy
  | some v => some (.val v)

def gett (env : Env) (st : State) (k kk : Val) : Option Val := do
  index env.methods st.heap (← index env.methods st.heap st.para k) kk

/-! ## What `upd` does -/

/-- The table of the parameters after `upd` has gone through the defaults. -/
def merge (overide : Bool) : List (Val × Val) → Table → Table
  | [], t => t
  | (k, v) :: es, t =>
      merge overide es (if k ∉ own ∧ (overide ∨ t.get k = .nil) then t.put k v else t)

theorem updEntries_eq {env : Env} {overide : Bool} {es : List (Val × Val)} {st : State} {a : ℕ}
    {t : Table} (hp : st.para = .tbl a) (ht : st.heap[a]? = some t) (hes : ∀ e ∈ es, e.1 ≠ .nil) :
    updEntries env overide es st =
      ({ st with heap := st.heap.set a (merge overide es t) }, true) := by
  induction es generalizing st t with
  | nil =>
      obtain ⟨ha, rfl⟩ := List.getElem?_eq_some_iff.mp ht
      simp [updEntries, merge]
  | cons e es ih =>
      obtain ⟨k, v⟩ := e
      have hk : k ≠ .nil := hes _ List.mem_cons_self
      have hes' : ∀ e ∈ es, e.1 ≠ .nil := fun e he => hes e (List.mem_cons_of_mem _ he)
      obtain ⟨ha, -⟩ := List.getElem?_eq_some_iff.mp ht
      rw [updEntries, merge]
      by_cases hown : k ∈ own
      · rw [if_pos hown, ih hp ht hes', if_neg (fun h => h.1 hown)]
      rw [if_neg hown]
      obtain ⟨h, para, d, file, notices⟩ := st
      dsimp only at hp ht ha
      subst hp
      have hput := @ih ⟨h.set a (t.put k v), .tbl a, d, file, notices⟩ (t.put k v) rfl
        (by simp [ha]) hes'
      cases overide with
      | true => simp [newindex, hk, ht, hput, hown]
      | false =>
          by_cases hn : t.get k = .nil
          · simp [newindex, index, hk, ht, hput, hown, hn]
          · simp [index, ht, @ih ⟨h, .tbl a, d, file, notices⟩ t rfl ht hes', hn]

theorem find_getD_cons (k v l : Val) (es : List (Val × Val)) :
    ((((k, v) :: es).find? fun e => e.1 = l).map Prod.snd).getD .nil =
      if k = l then v else ((es.find? fun e => e.1 = l).map Prod.snd).getD .nil := by
  rw [List.find?_cons]
  by_cases h : k = l
  · simp [h]
  · simp [h]

theorem get_mergeEntries {overide : Bool} {es : List (Val × Val)} {t : Table} {l : Val}
    (hn : (es.map Prod.fst).Nodup) (hes : ∀ e ∈ es, e.1 ≠ .nil ∧ e.2 ≠ .nil) :
    (merge overide es t).get l =
      if l ∉ own ∧ (overide ∨ t.get l = .nil) ∧
          ((es.find? fun e => e.1 = l).map Prod.snd).getD .nil ≠ .nil then
        ((es.find? fun e => e.1 = l).map Prod.snd).getD .nil
      else t.get l := by
  induction es generalizing t with
  | nil => simp [merge]
  | cons e es ih =>
      obtain ⟨k, v⟩ := e
      rw [List.map_cons, List.nodup_cons] at hn
      obtain ⟨hk, hv⟩ := hes _ List.mem_cons_self
      have hes' := fun e he => hes e (List.mem_cons_of_mem _ he)
      rw [merge, ih hn.2 hes', find_getD_cons]
      by_cases hl : k = l
      · subst hl
        have hnone : es.find? (fun e => e.1 = k) = none := by
          rw [List.find?_eq_none]
          intro e he
          rw [decide_eq_true_eq]
          intro hek
          have hm : e.1 ∈ es.map Prod.fst := List.mem_map_of_mem he
          rw [hek] at hm
          exact hn.1 hm
        simp only [hnone, Option.map_none, Option.getD_none, ne_eq, not_true_eq_false, and_false,
          if_false, if_true, hv, not_false_eq_true, and_true]
        split
        · exact t.get_put_self v hk
        · rfl
      · rw [if_neg hl]
        split
        case isTrue => rw [t.get_put_ne v (Ne.symm hl)]
        case isFalse => rfl

theorem get_merge {overide : Bool} {d t : Table} {k : Val} :
    (merge overide d.entries t).get k =
      if k ∉ own ∧ (overide ∨ t.get k = .nil) ∧ d.get k ≠ .nil then d.get k else t.get k :=
  get_mergeEntries d.nodup d.full

/-- `upd` when `para` and `libdftconfig` are tables. -/
theorem upd_eq {env : Env} {overide : Bool} {st : State} {a b : ℕ} {t d : Table}
    (hp : st.para = .tbl a) (ht : st.heap[a]? = some t) (hb : st.libdftconfig = .tbl b)
    (hd : st.heap[b]? = some d) :
    upd env overide st =
      ({ st with heap := st.heap.set a (merge overide d.entries t) }, true) := by
  have hpairs : pairs st.heap st.libdftconfig = some d.entries := by simp [pairs, hb, hd]
  rw [upd, hpairs]
  exact updEntries_eq hp ht fun e he => (d.full e he).1

end LuatAir200.Nvm
