import LuatAir200.NvmRecovery

/-!
# Stores of data

Parameters that are trees of data, over all calls that keep them so: no call puts a table into
itself. The parameters and their defaults may share tables.
-/
namespace LuatAir200.Nvm
open Lua

/-- Data from which the table at `a` is not reached. -/
def Outside (h : Heap) (a : ℕ) (x : Val) : Prop := Data h x ∧ ¬Reach h x a

/-- Every parameter in a table has a name that can be saved, and a value with a property. -/
def Params (P : Val → Prop) (t : Table) : Prop :=
  ∀ e ∈ t.entries, e.1 ∈ own ∨ e.1.isKey ∧ P e.2

/-- The parameters and their defaults are data outside the table of the parameters. -/
structure Stored (st : State) : Prop where
  exists_tables : ∃ a t d u, st.para = .tbl a ∧ st.heap[a]? = some t ∧ st.libdftconfig = .tbl d ∧
    st.heap[d]? = some u ∧ a ≠ d ∧ Params (Outside st.heap a) t ∧ Params (Outside st.heap a) u

/-! ## The calls -/

/-- A call with data, which does not contain the table that it is put into; `nil` deletes. -/
def DataCall (env : Env) (st : State) : Call → Prop
  | .make _ => True
  | .set k v _ _ => (∃ key : Key, k = key.val) ∧ k ∉ own ∧
      (v = .nil ∨ Data st.heap v ∧ ∀ a, st.para = .tbl a → ¬Reach st.heap v a)
  | .sett k kk v _ _ => (∃ key : Key, kk = key.val) ∧ k ∉ own ∧
      (v = .nil ∨ Data st.heap v ∧ (∀ a, st.para = .tbl a → ¬Reach st.heap v a) ∧
        ∀ q, index env.methods st.heap st.para k = some (.tbl q) → ¬Reach st.heap v q)
  | .restore => True

/-- The parameter file has no content, or it gives a new table with data. -/
def DataFile (env : Env) (c : Config) : Option LuaString → Prop
  | none => True
  | some text => text = [] ∨ ∃ h a t, env.require (lua "para") text (c.heap ++ [.empty]) =
      (h, .ok (.tbl a)) ∧ h[a]? = some t ∧ c.heap.length ≤ a ∧ Params (Data h) t

/-- The defaults are data. -/
def Config.Plain (c : Config) : Prop := Params (Data c.heap) c.table

/-- The stores that such calls come to. -/
inductive Reachable (env : Env) (c : Config) : State → Prop
  | init {file : Option LuaString} (hf : DataFile env c file) :
      Reachable env c (init env c.heap c.ref file).1
  | step {st st' : State} {call : Call} (hr : Reachable env c st) (hc : DataCall env st call)
      (hs : step env st call = some st') : Reachable env c st'

/-! ## Changes of the heap -/

section

variable {h : Heap} {a : ℕ} {x : Val} {t u : Table}

theorem Outside.frame {h' : Heap} (hx : Outside h a x)
    (hf : ∀ b t, Reach h x b → h[b]? = some t → h'[b]? = some t) : Outside h' a x := by
  apply And.intro
  · exact hx.1.frame hf
  · intro hr
    exact hx.2 (hx.1.reach_of_frame hf hr)

theorem Outside.mono {h' : Heap} (hx : Outside h a x) (hh : h <+: h') : Outside h' a x := by
  apply hx.frame
  intro b t _ ht
  obtain ⟨r, rfl⟩ := hh
  obtain ⟨hlt, -⟩ := List.getElem?_eq_some_iff.mp ht
  rwa [List.getElem?_append_left hlt]

/-- The table itself may change. -/
theorem Outside.set (hx : Outside h a x) (t : Table) : Outside (h.set a t) a x := by
  apply hx.frame
  intro b u hb hu
  rw [List.getElem?_set_ne]
  · exact hu
  · rintro rfl
    exact hx.2 hb

/-- A field of any table may be set to data that is outside of both. -/
theorem Outside.write {q : ℕ} (hx : Outside h a x) (hu : h[q]? = some u) (k : Key) {v : Val}
    (hv : v = .nil ∨ Outside h a v ∧ ¬Reach h v q) :
    Outside (h.set q (u.put k.val v)) a x := by
  have hvq : ∀ t, Outside h a v ∧ ¬Reach h v q → Outside (h.set q t) a v := by
    intro t hv
    apply hv.1.frame
    intro b w hb hw
    rw [List.getElem?_set_ne]
    · exact hw
    · rintro rfl
      exact hv.2 hb
  apply And.intro
  · exact hx.1.write hu k.isKey_val (hv.imp_right fun hv => (hvq _ hv).1)
  · intro hr
    obtain hr | hr := hr.of_put hu
    · exact hx.2 hr
    · obtain rfl | hv := hv
      · simpa [Val.address?] using hr.address
      · exact hv.1.2 hr

/-- Data of an older heap reaches none of the tables made since. -/
theorem outside_of_extends {h' : Heap} (hx : Data h x) (hh : h <+: h') (ha : h.length ≤ a) :
    Outside h' a x := by
  have hout : Outside h a x := by
    apply And.intro hx
    intro hr
    cases hx.reach hr with
    | tbl ht _ _ =>
        obtain ⟨hlt, -⟩ := List.getElem?_eq_some_iff.mp ht
        omega
  exact hout.mono hh

/-! ## Changes of the parameters -/

variable {P Q : Val → Prop}

theorem Params.imp (ht : Params P t) (hPQ : ∀ x, P x → Q x) : Params Q t := by
  intro e he
  exact (ht e he).imp_right fun h => ⟨h.1, hPQ e.2 h.2⟩

theorem Params.get (ht : Params P t) {k : Val} (hk : k ∉ own) (hn : t.get k ≠ .nil) :
    k.isKey ∧ P (t.get k) := by
  have he : (k, t.get k) ∈ t.entries := Table.mem_iff.mpr ⟨hn, rfl⟩
  exact (ht _ he).resolve_left hk

theorem Params.put (ht : Params P t) (k : Key) {v : Val} (hv : v = .nil ∨ P v) :
    Params P (t.put k.val v) := by
  intro e he
  obtain ⟨hn, hget⟩ := Table.mem_iff.mp he
  by_cases hk : e.1 = k.val
  · rw [hk, t.get_put_self v k.val_ne_nil] at hget
    have hnil : v ≠ .nil := fun hv => hn (hget.symm.trans hv)
    rw [hk, ← hget]
    exact .inr ⟨k.isKey_val, hv.resolve_left hnil⟩
  · rw [t.get_put_ne v hk] at hget
    exact ht e (Table.mem_iff.mpr ⟨hn, hget⟩)

theorem Params.merge (ht : Params P t) (hu : Params P u) (overide : Bool) :
    Params P (merge overide u.entries t) := by
  intro e he
  obtain ⟨hn, hget⟩ := Table.mem_iff.mp he
  rw [get_merge] at hget
  split at hget
  · exact hu e (Table.mem_iff.mpr ⟨hn, hget⟩)
  · exact ht e (Table.mem_iff.mpr ⟨hn, hget⟩)

/-- No table is inside its own fields. -/
theorem Params.outside (ht : Params (Data h) t) (hta : h[a]? = some t) :
    Params (Outside h a) t := by
  intro e he
  exact (ht e he).imp_right fun h => ⟨h.1, h.2, h.2.not_reach hta he⟩

end

/-! ## What the calls leave -/

variable {env : Env} {c : Config} {st st' : State}

theorem Stored.of_fields (h : Stored st) (hheap : st'.heap = st.heap) (hpara : st'.para = st.para)
    (hdft : st'.libdftconfig = st.libdftconfig) : Stored st' := by
  obtain ⟨a, t, d, u, hp, ht, hd, hu, hne, htp, hup⟩ := h.exists_tables
  rw [← hheap] at ht hu htp hup
  exact ⟨a, t, d, u, hpara.trans hp, ht, hdft.trans hd, hu, hne, htp, hup⟩

theorem Stored.saved (h : Stored st) (s : Val) (n : Option Notice) :
    Stored (saved env s n st).1 := by
  obtain ⟨hheap, hpara, hdft⟩ := saved_fields env s n st
  exact h.of_fields hheap hpara hdft

theorem Stored.clean (h : Stored st) : Clean st := by
  obtain ⟨a, t, d, u, hp, ht, -, -, -, htp, -⟩ := h.exists_tables
  exact ⟨a, t, hp, ht, htp.imp fun x hx => hx.1⟩

theorem Stored.make (h : Stored st) (t : Table) : Stored { st with heap := st.heap ++ [t] } := by
  obtain ⟨a, w, d, u, hp, hw, hd, hu, hne, hwp, hup⟩ := h.exists_tables
  have hpre : st.heap <+: st.heap ++ [t] := List.prefix_append _ _
  refine ⟨a, w, d, u, hp, ?_, hd, ?_, hne, hwp.imp fun x hx => hx.mono hpre,
    hup.imp fun x hx => hx.mono hpre⟩
  · obtain ⟨hlt, -⟩ := List.getElem?_eq_some_iff.mp hw
    simpa only [List.getElem?_append_left hlt] using hw
  · obtain ⟨hlt, -⟩ := List.getElem?_eq_some_iff.mp hu
    simpa only [List.getElem?_append_left hlt] using hu

/-- Another table of parameters that are outside of it. -/
theorem Stored.para {a : ℕ} {t w d : Table} {b : ℕ} (hp : st.para = .tbl a)
    (ht : st.heap[a]? = some t) (hd : st.libdftconfig = .tbl b) (hb : st.heap[b]? = some d)
    (hne : a ≠ b) (hw : Params (Outside st.heap a) w) (hdp : Params (Outside st.heap a) d) :
    Stored { st with heap := st.heap.set a w } := by
  obtain ⟨hlt, -⟩ := List.getElem?_eq_some_iff.mp ht
  refine ⟨a, w, b, d, hp, List.getElem?_set_self hlt, hd, ?_, hne, hw.imp fun x hx => hx.set w,
    hdp.imp fun x hx => hx.set w⟩
  simp only [List.getElem?_set_ne hne]
  exact hb

theorem Stored.upd (h : Stored st) (overide : Bool) : Stored (upd env overide st).1 := by
  obtain ⟨a, t, d, u, hp, ht, hd, hu, hne, htp, hup⟩ := h.exists_tables
  rw [upd_eq hp ht hd hu]
  exact Stored.para hp ht hd hu hne (htp.merge hup overide) hup

theorem Stored.restore (h : Stored st) : Stored (restore env st).1 := by
  apply Stored.upd
  exact h.of_fields rfl rfl rfl

/-- `set` changes nothing, or the parameter is replaced and saved. -/
theorem set_cases {a : ℕ} {t : Table} (hp : st.para = .tbl a) (ht : st.heap[a]? = some t)
    (k : Key) (v r s : Val) : (set env k.val v r s st).1 = st ∨ set env k.val v r s st =
      saved env s (if r.truthy then some (.paraChanged k.val v r) else none)
        { st with heap := st.heap.set a (t.put k.val v) } := by
  have hnew : newindex st.heap st.para k.val v = some (st.heap.set a (t.put k.val v)) := by
    simp [newindex, hp, ht, k.val_ne_nil]
  unfold set
  rw [hnew]
  split
  · exact .inl rfl
  · exact .inl rfl
  · exact .inr rfl

theorem Stored.set (h : Stored st) {k v : Val} (r s : Val)
    (hc : DataCall env st (.set k v r s)) : Stored (set env k v r s st).1 := by
  obtain ⟨⟨key, rfl⟩, -, hv⟩ := hc
  obtain ⟨a, t, d, u, hp, ht, hd, hu, hne, htp, hup⟩ := h.exists_tables
  obtain heq | heq := set_cases hp ht key v r s
  · rwa [heq]
  · rw [heq]
    apply Stored.saved
    apply Stored.para hp ht hd hu hne _ hup
    apply htp.put
    exact hv.imp_right fun hv => ⟨hv.1, hv.2 a hp⟩

/-- `sett` changes nothing, or a field of the parameter is set and saved. -/
theorem sett_cases (k : Val) (kk : Key) (v r s : Val) : (sett env k kk.val v r s st).1 = st ∨
    ∃ q w, index env.methods st.heap st.para k = some (.tbl q) ∧ st.heap[q]? = some w ∧
      sett env k kk.val v r s st =
        saved env s (if r.truthy then some (.tparaChanged k kk.val v r) else none)
          { st with heap := st.heap.set q (w.put kk.val v) } := by
  unfold sett
  split
  · exact .inl rfl
  case h_2 x hx =>
    split
    · exact .inl rfl
    · split
      · split
        · exact .inl rfl
        case h_2 h hw =>
          obtain ⟨q, w, rfl, -, hq, rfl⟩ := newindex_eq_some.mp hw
          exact .inr ⟨q, w, hx, hq, rfl⟩
      · exact .inl rfl

theorem Stored.sett (h : Stored st) {k kk v : Val} (r s : Val)
    (hc : DataCall env st (.sett k kk v r s)) : Stored (sett env k kk v r s st).1 := by
  obtain ⟨⟨key, rfl⟩, hk, hv⟩ := hc
  obtain ⟨a, t, d, u, hp, ht, hd, hu, hne, htp, hup⟩ := h.exists_tables
  obtain heq | ⟨q, w, hq, hw, heq⟩ := @sett_cases env st k key v r s
  · rwa [heq]
  have hget : t.get k = .tbl q := by
    rw [index_para hp ht] at hq
    exact Option.some.inj hq
  have hout : Outside st.heap a (.tbl q) := by
    rw [← hget]
    exact (htp.get hk (by simp [hget])).2
  have hqa : q ≠ a := by
    rintro rfl
    exact hout.2 (.root rfl)
  have hval : v = .nil ∨ Outside st.heap a v ∧ ¬Reach st.heap v q :=
    hv.imp_right fun hv => ⟨⟨hv.1, hv.2.1 a hp⟩, hv.2.2 q hq⟩
  have hkeep : ∀ x, Outside st.heap a x → Outside (st.heap.set q (w.put key.val v)) a x :=
    fun x hx => hx.write hw key hval
  rw [heq]
  apply Stored.saved
  by_cases hqd : q = d
  -- the module of the defaults is itself a parameter
  · subst hqd
    rw [hw] at hu
    cases hu
    obtain ⟨hlt, -⟩ := List.getElem?_eq_some_iff.mp hw
    refine ⟨a, t, q, u.put key.val v, hp, ?_, hd, List.getElem?_set_self hlt, hne,
      htp.imp hkeep, ?_⟩
    · simpa only [List.getElem?_set_ne hqa] using ht
    · apply (hup.imp hkeep).put
      obtain rfl | hv := hval
      · exact .inl rfl
      · exact .inr (hkeep v hv.1)
  · refine ⟨a, t, d, u, hp, ?_, hd, ?_, hne, htp.imp hkeep, hup.imp hkeep⟩
    · simpa only [List.getElem?_set_ne hqa] using ht
    · simpa only [List.getElem?_set_ne hqd] using hu

theorem Stored.step (h : Stored st) {call : Call} (hc : DataCall env st call)
    (hs : Nvm.step env st call = some st') : Stored st' := by
  cases call with
  | make t =>
      cases hs
      exact h.make t
  | set k v r s =>
      cases hs
      exact h.set r s hc
  | sett k kk v r s =>
      cases hs
      exact h.sett r s hc
  | restore =>
      cases hs
      exact h.restore

/-! ## Starting -/

/-- The state in which `upd` is called, with a new table in `para`. -/
theorem stored_start (hc : c.Plain) {h : Heap} {a : ℕ} {t : Table} (hext : c.heap <+: h)
    (ht : h[a]? = some t) (ha : c.heap.length ≤ a) (htp : Params (Data h) t)
    (file : Option LuaString) : Stored ⟨h, .tbl a, c.ref, file, []⟩ := by
  obtain ⟨hlt, -⟩ := List.getElem?_eq_some_iff.mp c.here
  refine ⟨a, t, c.address, c.table, rfl, ht, rfl, ?_, by omega, htp.outside ht, ?_⟩
  · obtain ⟨r, rfl⟩ := hext
    simp only [List.getElem?_append_left hlt]
    exact c.here
  · exact hc.imp fun x hx => outside_of_extends hx hext ha

theorem stored_boot (hc : c.Plain) (file : Option LuaString) : Stored (boot c.heap c.ref file) := by
  apply stored_start hc (List.prefix_append _ _) (t := .empty) _ le_rfl
  · intro e he
    cases he
  · simp

theorem stored_init (hc : c.Plain) {file : Option LuaString} (hf : DataFile env c file) :
    Stored (init env c.heap c.ref file).1 := by
  cases file with
  | none => exact (stored_boot hc none).restore
  | some text =>
      by_cases htext : text = []
      · subst htext
        exact (stored_boot hc (some [])).restore
      obtain ⟨h, a, t, hreq, ht, ha, htp⟩ := hf.resolve_left htext
      have hext : c.heap <+: h := by
        have := env.extends_require (lua "para") text (c.heap ++ [.empty])
        rw [hreq] at this
        exact (List.prefix_append _ _).trans this
      have hload : init env c.heap c.ref (some text) =
          Nvm.upd env false ⟨h, .tbl a, c.ref, some text, []⟩ := by
        simp only [init, load, boot, if_neg htext, hreq]
      rw [hload]
      exact (stored_start hc hext ht ha htp _).upd false

/-- Every such store holds data. -/
theorem Reachable.stored (hc : c.Plain) (hr : Reachable env c st) : Stored st := by
  induction hr with
  | init hf => exact stored_init hc hf
  | step _ hcall hs ih => exact ih.step hcall hs

end LuatAir200.Nvm
