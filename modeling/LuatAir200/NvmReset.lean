import LuatAir200.Machine
import LuatAir200.NvmText

/-!
# The factory reset

`upd` copies references, so a parameter of table type and its default are one table until
`set` replaces it, and `sett` writes into this table. As long as no `sett` changes a table of
the default configuration, the defaults stay what they were, and `restore` gives them back.
-/
namespace LuatAir200.Nvm
open Lua Machine

/-- The default configuration as it was loaded; all its tables are in the heap. -/
structure Config where
  heap : Heap
  address : ℕ
  table : Table
  here : heap[address]? = some table
  closed : ∀ a, Reach heap (.tbl address) a → a < heap.length

def Config.ref (c : Config) : Val := .tbl c.address

/-- Calls of the application, which makes tables of its own between them. -/
inductive Call
  | make (t : Table)
  | set (k v r s : Val)
  | sett (k kk v r s : Val)
  | restore
  deriving DecidableEq

def step (env : Env) (st : State) : Call → Option State
  | .make t => some { st with heap := st.heap ++ [t] }
  | .set k v r s => some (set env k v r s st).1
  | .sett k kk v r s => some (sett env k kk v r s st).1
  | .restore => some (restore env st).1

/-- The tables of the default configuration are unchanged. -/
def Config.Kept (c : Config) (h : Heap) : Prop :=
  ∀ a t, Reach c.heap c.ref a → c.heap[a]? = some t → h[a]? = some t

/-- No default has changed, and `restore` gives them all. -/
def Restores (env : Env) (c : Config) (st : State) : Prop :=
  c.Kept st.heap ∧ (restore env st).2 = true ∧
    ∀ k v, k ∉ own → Reads c.heap v (c.table.get k) → Gives env (restore env st).1 k v

/-- The parameter file has no content, or gives a table which is not one of the defaults. -/
def OwnTable (env : Env) (c : Config) : Option LuaString → Prop
  | none => True
  | some text => text = [] ∨ ∃ h a t, env.require (lua "para") text (c.heap ++ [.empty]) =
      (h, .ok (.tbl a)) ∧ h[a]? = some t ∧ ¬Reach c.heap c.ref a

/-- The call does not change a table of the default configuration by `sett`. -/
def Elsewhere (env : Env) (st : State) : Call → Prop
  | .sett k kk v _ _ => ∀ a, index env.methods st.heap st.para k = some (.tbl a) →
      index env.methods st.heap (.tbl a) kk ≠ some v → ¬Reach st.heap st.libdftconfig a
  | _ => True

/-! ## What the calls change -/

theorem save_fields (env : Env) (s : Bool) (st : State) :
    (save env s st).1.heap = st.heap ∧ (save env s st).1.para = st.para ∧
      (save env s st).1.libdftconfig = st.libdftconfig := by
  unfold save
  split
  · split <;> exact ⟨rfl, rfl, rfl⟩
  · exact ⟨rfl, rfl, rfl⟩

theorem saved_fields (env : Env) (s : Val) (n : Option Notice) (st : State) :
    (saved env s n st).1.heap = st.heap ∧ (saved env s n st).1.para = st.para ∧
      (saved env s n st).1.libdftconfig = st.libdftconfig := by
  have h := save_fields env (s.truthy || s = .nil) st
  unfold saved
  dsimp only
  split
  · exact h
  · exact h

/-- A state whose heap differs in one table at most. -/
structure Writes (st st' : State) (a : ℕ) : Prop where
  para : st'.para = st.para
  libdftconfig : st'.libdftconfig = st.libdftconfig
  heap : st'.heap = st.heap ∨ ∃ t, st'.heap = st.heap.set a t

theorem set_writes {env : Env} {st : State} {a : ℕ} (k v r s : Val) (hp : st.para = .tbl a) :
    Writes st (set env k v r s st).1 a := by
  have hsame : Writes st st a := ⟨rfl, rfl, .inl rfl⟩
  unfold set
  split
  · exact hsame
  · exact hsame
  · split
    · exact hsame
    case h_2 h hw =>
      obtain ⟨b, t, hb, -, -, rfl⟩ := newindex_eq_some.mp hw
      rw [hp] at hb
      cases hb
      obtain ⟨hheap, hpara, hdft⟩ := saved_fields env s
        (if r.truthy then some (.paraChanged k v r) else none) { st with heap := st.heap.set a (t.put k v) }
      exact ⟨hpara, hdft, .inr ⟨_, hheap⟩⟩

theorem sett_writes (env : Env) (st : State) (k kk v r s : Val) :
    (sett env k kk v r s st).1 = st ∨ ∃ a, index env.methods st.heap st.para k = some (.tbl a) ∧
      index env.methods st.heap (.tbl a) kk ≠ some v ∧ Writes st (sett env k kk v r s st).1 a := by
  unfold sett
  split
  · exact .inl rfl
  case h_2 x hx =>
    split
    · exact .inl rfl
    case h_2 y hy =>
      split
      case isTrue hne =>
        split
        · exact .inl rfl
        case h_2 h hw =>
          obtain ⟨a, u, rfl, -, -, rfl⟩ := newindex_eq_some.mp hw
          obtain ⟨hheap, hpara, hdft⟩ := saved_fields env s
            (if r.truthy then some (.tparaChanged k kk v r) else none)
            { st with heap := st.heap.set a (u.put kk v) }
          refine .inr ⟨a, hx, ?_, hpara, hdft, .inr ⟨_, hheap⟩⟩
          rw [hy]
          simpa using hne
      · exact .inl rfl

/-! ## The tables of the configuration -/

namespace Config

variable {c : Config} {h : Heap}

theorem Kept.reach_iff (hk : c.Kept h) {a : ℕ} : Reach h c.ref a ↔ Reach c.heap c.ref a := by
  constructor
  · intro hr
    induction hr with
    | root hx => exact .root hx
    | field _ ht he ih =>
        obtain ⟨u, hu⟩ : ∃ u, c.heap[_]? = some u := ⟨_, List.getElem?_eq_getElem (c.closed _ ih)⟩
        have hsame := hk _ u ih hu
        rw [ht] at hsame
        cases hsame
        exact ih.field hu he
  · intro hr
    induction hr with
    | root hx => exact .root hx
    | field hr' ht he ih => exact ih.field (hk _ _ hr' ht) he

theorem Kept.append (hk : c.Kept h) (t : Table) : c.Kept (h ++ [t]) := by
  intro a u ha hu
  have hau := hk a u ha hu
  obtain ⟨hlt, -⟩ := List.getElem?_eq_some_iff.mp hau
  rwa [List.getElem?_append_left hlt]

theorem Kept.set (hk : c.Kept h) {a : ℕ} (t : Table) (ha : ¬Reach c.heap c.ref a) :
    c.Kept (h.set a t) := by
  intro b u hb hu
  rw [List.getElem?_set_ne]
  · exact hk b u hb hu
  · rintro rfl
    exact ha hb

theorem kept_of_extends (hh : c.heap <+: h) : c.Kept h := by
  obtain ⟨r, rfl⟩ := hh
  intro a t ha ht
  rwa [List.getElem?_append_left (c.closed a ha)]

/-- The defaults are data of the heap as long as the configuration is unchanged. -/
theorem Kept.reads (hk : c.Kept h) {v : Value} {k : Val}
    (hr : Reads c.heap v (c.table.get k)) : Reads h v (c.table.get k) := by
  apply hr.frame
  intro b u hbr hu
  apply hk b u _ hu
  exact .of_field c.here (Table.mem_iff.mpr ⟨hr.ne_nil, rfl⟩) hbr

end Config

/-- `para` is a table of its own and the defaults are unchanged. -/
structure Apart (c : Config) (st : State) : Prop where
  libdftconfig : st.libdftconfig = c.ref
  para : ∃ a t, st.para = .tbl a ∧ st.heap[a]? = some t ∧ ¬Reach c.heap c.ref a
  kept : c.Kept st.heap

variable {env : Env} {c : Config} {st st' : State}

theorem Apart.writes (h : Apart c st) {a : ℕ} (hw : Writes st st' a)
    (ha : ¬Reach c.heap c.ref a) : Apart c st' := by
  obtain ⟨b, t, hp, ht, hb⟩ := h.para
  obtain heq | ⟨u, heq⟩ := hw.heap
  · exact ⟨hw.libdftconfig.trans h.libdftconfig, ⟨b, t, hw.para.trans hp, by rw [heq]; exact ht, hb⟩,
      by rw [heq]; exact h.kept⟩
  · refine ⟨hw.libdftconfig.trans h.libdftconfig, ?_, by rw [heq]; exact h.kept.set u ha⟩
    obtain ⟨hlt, -⟩ := List.getElem?_eq_some_iff.mp ht
    obtain ⟨t', ht'⟩ : ∃ t', (st.heap.set a u)[b]? = some t' :=
      ⟨_, List.getElem?_eq_getElem (by simpa using hlt)⟩
    exact ⟨b, t', hw.para.trans hp, by rw [heq]; exact ht', hb⟩

theorem Apart.upd (h : Apart c st) (overide : Bool) : Apart c (upd env overide st).1 := by
  obtain ⟨a, t, hp, ht, ha⟩ := h.para
  rw [upd_eq hp ht h.libdftconfig (h.kept _ _ (.root rfl) c.here)]
  exact h.writes ⟨rfl, rfl, .inr ⟨_, rfl⟩⟩ ha

theorem Apart.restore (h : Apart c st) : Apart c (restore env st).1 :=
  @Apart.upd env c { st with file := some env.config } ⟨h.libdftconfig, h.para, h.kept⟩ true

theorem Apart.step (h : Apart c st) {call : Call} (hg : Elsewhere env st call)
    (hs : Nvm.step env st call = some st') : Apart c st' := by
  cases call with
  | make t =>
      cases hs
      obtain ⟨a, u, hp, hu, ha⟩ := h.para
      refine ⟨h.libdftconfig, ⟨a, u, hp, ?_, ha⟩, h.kept.append t⟩
      obtain ⟨hlt, -⟩ := List.getElem?_eq_some_iff.mp hu
      simp only
      rwa [List.getElem?_append_left hlt]
  | set k v r s =>
      cases hs
      obtain ⟨a, u, hp, hu, ha⟩ := h.para
      exact h.writes (set_writes k v r s hp) ha
  | sett k kk v r s =>
      cases hs
      obtain heq | ⟨a, hx, hne, hw⟩ := sett_writes env st k kk v r s
      · rw [heq]
        exact h
      · apply h.writes hw
        have ha := hg a hx hne
        rwa [h.libdftconfig, h.kept.reach_iff] at ha
  | restore =>
      cases hs
      exact h.restore

/-- From such a state the defaults can be restored. -/
theorem Apart.restores (h : Apart c st) : Restores env c st := by
  obtain ⟨a, t, hp, ht, ha⟩ := h.para
  have hb : st.heap[c.address]? = some c.table := h.kept _ _ (.root rfl) c.here
  have hupd : Nvm.restore env st = _ :=
    @upd_eq env true { st with file := some env.config } _ _ _ _ hp ht h.libdftconfig hb
  refine ⟨h.kept, by rw [hupd], ?_⟩
  intro k v hk hr
  rw [hupd]
  have hget : (merge true c.table.entries t).get k = c.table.get k := by
    rw [get_merge, if_pos ⟨hk, .inl rfl, hr.ne_nil⟩]
  obtain ⟨hlt, -⟩ := List.getElem?_eq_some_iff.mp ht
  apply (gives_iff (x := c.table.get k) ?_).mpr
  · exact (h.kept.set _ ha).reads hr
  · simp [index, hp, hlt, hget]

theorem apart_boot (c : Config) (file : Option LuaString) :
    Apart c (boot c.heap c.ref file) where
  libdftconfig := rfl
  para := ⟨c.heap.length, .empty, rfl, by simp [boot], fun h => Nat.lt_irrefl _ (c.closed _ h)⟩
  kept := Config.kept_of_extends (List.prefix_append _ _)

/-- After `init`, `para` is a table of its own. -/
theorem apart_init {file : Option LuaString} (hf : OwnTable env c file) :
    Apart c (init env c.heap c.ref file).1 := by
  cases file with
  | none => exact (apart_boot c none).restore
  | some text =>
      obtain rfl | ⟨h, a, t, hreq, ht, ha⟩ := hf
      · exact (apart_boot c (some [])).restore
      · by_cases htext : text = []
        · subst htext
          exact (apart_boot c (some [])).restore
        have hext : c.heap <+: h := by
          have := env.extends_require (lua "para") text (c.heap ++ [.empty])
          rw [hreq] at this
          exact (List.prefix_append _ _).trans this
        have hload : init env c.heap c.ref (some text) =
            Nvm.upd env false { boot c.heap c.ref (some text) with heap := h, para := .tbl a } := by
          simp only [init, load, boot, if_neg htext, hreq]
        rw [hload]
        exact Apart.upd ⟨rfl, ⟨a, t, rfl, ht, ha⟩, Config.kept_of_extends hext⟩ false

/-- As long as no `sett` changes a table of the default configuration, the defaults are kept
and can be restored. -/
theorem defaults_kept (env : Env) (c : Config) (file : Option LuaString) (calls : List Call)
    (hf : OwnTable env c file)
    (hm : Meets (step env) (Elsewhere env) (init env c.heap c.ref file).1 calls) :
    Along (step env) (Restores env c) (init env c.heap c.ref file).1 calls := by
  have halong : Along (step env) (Apart c) (init env c.heap c.ref file).1 calls :=
    along_of_meets (I := fun _ => True) (fun _ _ _ _ _ => trivial)
      (fun _ _ _ _ hp hg hs => hp.step hg hs) trivial (apart_init hf) hm
  exact halong.imp fun _ h => h.restores

/-- A default configuration with one table, in which `x` is 1. -/
def tableConfig : Config where
  heap := [⟨[(.str (lua "tab"), .tbl 1)], by decide, by decide⟩,
    ⟨[(.str (lua "x"), .int 1)], by decide, by decide⟩]
  address := 0
  table := ⟨[(.str (lua "tab"), .tbl 1)], by decide, by decide⟩
  here := rfl
  closed _ h := h.lt_length (by decide) (by decide)

theorem defaults_kept_set :
    Along (step syntaxError) (Restores syntaxError tableConfig)
      (init syntaxError tableConfig.heap tableConfig.ref none).1
      [.make ⟨[(.str (lua "x"), .int 2)], by decide, by decide⟩,
        .set (.str (lua "tab")) (.tbl 3) .nil .nil,
        .sett (.str (lua "tab")) (.str (lua "x")) (.int 5) .nil .nil] := by
  apply defaults_kept syntaxError tableConfig none _ trivial
  have h0 : Apart tableConfig (init syntaxError tableConfig.heap tableConfig.ref none).1 :=
    apart_init trivial
  intro s1 h1
  refine ⟨trivial, fun s2 h2 => ⟨trivial, fun s3 h3 => ⟨?_, trivial⟩⟩⟩
  have ha1 : Apart tableConfig s1 := by
    apply h0.step _ h1
    trivial
  have ha2 : Apart tableConfig s2 := by
    apply ha1.step _ h2
    trivial
  intro a ha _ hr
  rw [ha2.libdftconfig, ha2.kept.reach_iff] at hr
  have hlt : a < 2 := tableConfig.closed a hr
  have hthree : index syntaxError.methods s2.heap s2.para (.str (lua "tab")) = some (.tbl 3) := by
    cases h1
    cases h2
    decide +kernel
  rw [hthree] at ha
  cases ha
  omega

/-- One `sett` into a table that was never replaced, and the default is lost. -/
theorem default_overwritten : ¬∀ (env : Env) (c : Config) (file : Option LuaString)
    (calls : List Call), OwnTable env c file →
      Along (step env) (Restores env c) (init env c.heap c.ref file).1 calls := by
  intro hall
  have h := hall syntaxError tableConfig none
    [.sett (.str (lua "tab")) (.str (lua "x")) (.int 5) .nil .nil] trivial
  obtain ⟨-, -, hgives⟩ := h.2 _ rfl
  have hone := hgives (.str (lua "tab")) (.table (.cons (.str (lua "x")) (.int 1) .nil))
    (by decide) ⟨1, _, rfl, rfl, _, _, rfl, rfl, rfl⟩
  have hfive : index syntaxError.methods (restore syntaxError (sett syntaxError (.str (lua "tab"))
      (.str (lua "x")) (.int 5) .nil .nil
        (init syntaxError tableConfig.heap tableConfig.ref none).1).1).1.heap
      (restore syntaxError (sett syntaxError (.str (lua "tab")) (.str (lua "x")) (.int 5) .nil .nil
        (init syntaxError tableConfig.heap tableConfig.ref none).1).1).1.para (.str (lua "tab")) =
      some (.tbl 1) := by
    decide +kernel
  obtain ⟨a, t, ha, ht, y, es, hes, hy, -⟩ := (gives_iff hfive).mp hone
  cases ha
  cases ht
  cases hes
  cases hy

end LuatAir200.Nvm
