import LuatAir200.NvmStored

/-!
# Reading a parameter that was set

For a table, `set` goes through the fields of the old value only. What the new value has besides
them is not seen, and an old value that is no table makes `pairs` raise an error.
-/
namespace LuatAir200.Nvm
open Lua

/-- A number, a string or a boolean. -/
def scalar : Val → Bool
  | .int _ => true
  | .str _ => true
  | .bool _ => true
  | _ => false

/-- A table of numbers, strings and booleans, under names that can be saved. -/
def Flat (t : Table) : Prop := ∀ e ∈ t.entries, e.1.isKey ∧ scalar e.2

instance (t : Table) : Decidable (Flat t) :=
  List.decidableBAll (fun e : Val × Val => e.1.isKey = true ∧ scalar e.2 = true) t.entries

/-- A number, a string, a boolean or a flat table. -/
def Simple (h : Heap) (x : Val) : Prop :=
  scalar x ∨ ∃ a t, x = .tbl a ∧ h[a]? = some t ∧ Flat t

/-- The same value, or tables with the same fields. -/
def Same (h : Heap) (x y : Val) : Prop :=
  x = y ∨ ∃ a b t u, x = .tbl a ∧ y = .tbl b ∧ h[a]? = some t ∧ h[b]? = some u ∧
    ∀ k, t.get k = u.get k

/-- What `get` returns is this value, or a copy of this table. -/
def Got.Equals (h : Heap) (v : Val) : Got → Prop
  | .val x => x = v
  | .copy t => ∃ a u, v = .tbl a ∧ h[a]? = some u ∧ ∀ k, t.get k = u.get k

/-- `set(k, v, r, s)` returns, `get(k)` then gives `v`, and the change is told exactly if there is
a reason and the value differs from the old one. -/
structure Sets (env : Env) (st : State) (k v r s old : Val) : Prop where
  returns : (set env k v r s st).2 = true
  reads : ∃ g, get env (set env k v r s st).1 k = some g ∧
    g.Equals (set env k v r s st).1.heap v
  told : r.truthy = true ∧ ¬Same st.heap old v →
    (set env k v r s st).1.notices = st.notices ++ [.paraChanged k v r]
  quiet : ¬(r.truthy = true ∧ ¬Same st.heap old v) →
    (set env k v r s st).1.notices = st.notices

/-- Where the new value is a table, the old value is one too: it has a field that the new table
lacks or has otherwise, or the new table has no other fields. -/
def Seen (h : Heap) (old v : Val) : Prop :=
  ∀ b w, v = .tbl b → h[b]? = some w → ∃ a u, old = .tbl a ∧ h[a]? = some u ∧
    ((∃ k, u.get k ≠ .nil ∧ w.get k ≠ u.get k) ∨ ∀ k, w.get k ≠ .nil → u.get k ≠ .nil)

/-! ## The cases of `set` -/

section

variable {env : Env} {st : State} {a b d : ℕ} {t u w : Table} {k old v : Val}

theorem scalar_ne_tbl (hv : scalar v = true) (b : ℕ) : v ≠ .tbl b := by
  rintro rfl
  cases hv

theorem bchg_scalar (hi : index env.methods st.heap st.para k = some old)
    (hv : scalar v = true) : bchg env st k v = some (decide (old ≠ v)) := by
  cases v with
  | tbl a => cases hv
  | _ => simp [bchg, hi]

theorem bchg_table (hi : index env.methods st.heap st.para k = some (.tbl a))
    (hu : st.heap[a]? = some u) (hw : st.heap[b]? = some w) :
    bchg env st k (.tbl b) = some (u.entries.any fun e => e.2 ≠ w.get e.1) := by
  simp [bchg, hi, pairs, hu, hw]

/-- `pairs` raises an error for what is no table. -/
theorem bchg_none (hi : index env.methods st.heap st.para k = some old)
    (ho : ∀ a, old ≠ .tbl a) : bchg env st k (.tbl b) = none := by
  cases old with
  | tbl a => exact absurd rfl (ho a)
  | _ => simp [bchg, hi, pairs]

/-- No field of the old table is seen to differ. -/
theorem any_eq_false_iff : (u.entries.any fun e => e.2 ≠ w.get e.1) = false ↔
    ∀ k, u.get k ≠ .nil → w.get k = u.get k := by
  rw [List.any_eq_false]
  constructor
  · intro h k hk
    have hmem : (k, u.get k) ∈ u.entries := Table.mem_iff.mpr ⟨hk, rfl⟩
    have heq := h _ hmem
    rw [decide_eq_true_eq, not_ne_iff] at heq
    exact heq.symm
  · rintro h ⟨k, x⟩ he
    obtain ⟨hn, hget⟩ := Table.mem_iff.mp he
    have heq := h k (by rwa [hget])
    rw [decide_eq_true_eq, not_ne_iff, heq, hget]

/-- Tables with the same values under the fields of one have the same fields when the other has
no more. -/
theorem fields_eq_iff (h : ∀ k, u.get k ≠ .nil → w.get k = u.get k) :
    (∀ k, u.get k = w.get k) ↔ ∀ k, w.get k ≠ .nil → u.get k ≠ .nil := by
  constructor
  · intro heq k hk
    rwa [heq k]
  · intro hsub k
    by_cases hk : u.get k = .nil
    · have hw : w.get k = .nil := by
        by_contra hw
        exact hsub k hw hk
      rw [hk, hw]
    · exact (h k hk).symm

theorem get_of_scalar (hi : index env.methods st.heap st.para k = some v)
    (hv : scalar v = true) : get env st k = some (.val v) := by
  cases v with
  | tbl a => cases hv
  | _ => simp [get, hi]

theorem get_of_table (hi : index env.methods st.heap st.para k = some (.tbl a))
    (hu : st.heap[a]? = some u) : get env st k = some (.copy u) := by
  simp [get, hi, hu]

end

section

variable {env : Env} {st : State} {a b : ℕ} {t u w : Table} {k : Key} {old v : Val}

theorem Flat.data {h : Heap} (hw : h[b]? = some w) (hflat : Flat w) : Data h (.tbl b) := by
  apply Data.tbl hw
  · intro e he
    exact (hflat e he).1
  · rintro ⟨k, x⟩ he
    have hx : scalar x = true := (hflat _ he).2
    cases x with
    | int i => exact .int i
    | str s => exact .str s
    | bool b => exact .bool b
    | _ => cases hx

/-- From a flat table only the table itself is reached. -/
theorem Flat.reach {h : Heap} (hw : h[b]? = some w) (hflat : Flat w) (hr : Reach h (.tbl b) a) :
    a = b := by
  obtain hab | ⟨w', hw', e, he, hr'⟩ := hr.tbl_cases
  · exact hab
  · rw [hw] at hw'
    cases hw'
    obtain ⟨c, hc⟩ := Option.isSome_iff_exists.mp hr'.address
    have hs := (hflat e he).2
    cases hx : e.2 with
    | tbl c => simp [hx, scalar] at hs
    | _ => simp [hx, Val.address?] at hc

/-- A simple value is data outside of the parameters. -/
theorem Simple.outside {h : Heap} (hv : Simple h v) (hne : v ≠ .tbl a) : Outside h a v := by
  obtain hv | ⟨b, w, rfl, hw, hflat⟩ := hv
  · cases v with
    | int i => exact ⟨.int i, not_reach_scalar rfl a⟩
    | str s => exact ⟨.str s, not_reach_scalar rfl a⟩
    | bool b => exact ⟨.bool b, not_reach_scalar rfl a⟩
    | _ => cases hv
  · apply And.intro (hflat.data hw)
    intro hr
    exact hne (congrArg Val.tbl (hflat.reach hw hr).symm)

/-- A change that is seen is stored and told. -/
theorem sets_of_change (hst : Stored st) (hp : st.para = .tbl a) (ht : st.heap[a]? = some t)
    (hv : Simple st.heap v) (hne : v ≠ .tbl a) (r s : Val)
    (hb : bchg env st k.val v = some true) (hd : ¬Same st.heap old v) :
    ∃ N, ∀ n ≥ N, Sets (env.within n) st k.val v r s old := by
  obtain ⟨a', t', d, u, hp', ht', hdft, hu, hne', htp, hup⟩ := hst.exists_tables
  rw [hp] at hp'
  cases hp'
  rw [ht] at ht'
  cases ht'
  obtain ⟨hlt, -⟩ := List.getElem?_eq_some_iff.mp ht
  have hput : Params (Outside st.heap a) (t.put k.val v) :=
    htp.put k (.inr (hv.outside hne))
  have hstored : Stored { st with heap := st.heap.set a (t.put k.val v) } :=
    Stored.para hp ht hdft hu hne' hput hup
  obtain ⟨N, hN⟩ := hstored.clean.saved_ok env s
    (if r.truthy then some (.paraChanged k.val v r) else none)
  refine ⟨N, fun n hn => ?_⟩
  obtain ⟨hret, hnot⟩ := hN n hn
  have hset : set (env.within n) k.val v r s st = saved (env.within n) s
      (if r.truthy then some (.paraChanged k.val v r) else none)
      { st with heap := st.heap.set a (t.put k.val v) } := by
    have hb' : bchg (env.within n) st k.val v = some true := hb
    simp [set, hb', newindex, hp, ht, k.val_ne_nil]
  obtain ⟨hheap, hpara, -⟩ := saved_fields (env.within n) s
    (if r.truthy then some (.paraChanged k.val v r) else none)
    { st with heap := st.heap.set a (t.put k.val v) }
  rw [← hset] at hret hnot hheap hpara
  have hindex : index (env.within n).methods (set (env.within n) k.val v r s st).1.heap
      (set (env.within n) k.val v r s st).1.para k.val = some v := by
    rw [hheap, hpara]
    simp [index, hp, hlt, t.get_put_self v k.val_ne_nil]
  refine ⟨hret, ?_, ?_, ?_⟩
  · obtain hscalar | ⟨b, w, rfl, hw, -⟩ := hv
    · exact ⟨.val v, get_of_scalar hindex hscalar, rfl⟩
    · have hab : a ≠ b := by
        rintro rfl
        exact hne rfl
      have hw' : (set (env.within n) k.val (.tbl b) r s st).1.heap[b]? = some w := by
        rw [hheap, List.getElem?_set_ne hab]
        exact hw
      exact ⟨.copy w, get_of_table hindex hw', b, w, rfl, hw', fun _ => rfl⟩
  · rintro ⟨hr, -⟩
    rw [hnot, if_pos hr]
    rfl
  · intro hno
    have hr : ¬r.truthy = true := fun hr => hno ⟨hr, hd⟩
    rw [hnot, if_neg hr]
    exact List.append_nil _

/-- Where no change is seen, the value is read and nothing is told exactly if it is the old one. -/
theorem sets_unseen_iff (r s : Val) (hb : bchg env st k.val v = some false) :
    Sets env st k.val v r s old ↔ (∃ g, get env st k.val = some g ∧ g.Equals st.heap v) ∧
      ¬(r.truthy = true ∧ ¬Same st.heap old v) := by
  have hset : set env k.val v r s st = (st, true) := by simp [set, hb]
  constructor
  · rintro ⟨-, hreads, htold, -⟩
    rw [hset] at hreads htold
    apply And.intro hreads
    intro hno
    simpa using htold hno
  · rintro ⟨hreads, hno⟩
    refine ⟨by rw [hset], by rwa [hset], fun h => absurd h hno, fun _ => by rw [hset]⟩

/-- A number, a string or a boolean is compared as a whole. -/
theorem sets_of_scalar (hst : Stored st) (hold : index env.methods st.heap st.para k.val = some old)
    (hv : scalar v = true) (r s : Val) :
    ∃ N, ∀ n ≥ N, Sets (env.within n) st k.val v r s old := by
  obtain ⟨a, t, d, u, hp, ht, -⟩ := hst.exists_tables
  by_cases heq : old = v
  · subst heq
    refine ⟨0, fun n _ => ?_⟩
    have hb : bchg (env.within n) st k.val old = some false := by
      rw [@bchg_scalar (env.within n) st _ _ _ hold hv]
      simp
    apply (sets_unseen_iff r s hb).mpr
    apply And.intro
    · exact ⟨.val old, @get_of_scalar (env.within n) st _ _ hold hv, rfl⟩
    · rintro ⟨-, hno⟩
      exact hno (.inl rfl)
  · apply sets_of_change hst hp ht (.inl hv) (scalar_ne_tbl hv a) r s
    · rw [bchg_scalar hold hv]
      simp [heq]
    · rintro (h | ⟨_, b, _, _, -, hb, -⟩)
      · exact heq h
      · exact scalar_ne_tbl hv b hb

/-- A table is compared under the names of the old one. -/
theorem sets_table_iff (hst : Stored st)
    (hold : index env.methods st.heap st.para k.val = some (.tbl a)) (hu : st.heap[a]? = some u)
    (hw : st.heap[b]? = some w) (hflat : Flat w) (r s : Val) :
    ∃ N, ∀ n ≥ N, Sets (env.within n) st k.val (.tbl b) r s (.tbl a) ↔
      (∃ l, u.get l ≠ .nil ∧ w.get l ≠ u.get l) ∨ ∀ l, w.get l ≠ .nil → u.get l ≠ .nil := by
  have hb := bchg_table hold hu hw
  cases hany : u.entries.any fun e => e.2 ≠ w.get e.1 with
  | true =>
      rw [hany] at hb
      have hex : ∃ l, u.get l ≠ .nil ∧ w.get l ≠ u.get l := by
        by_contra hno
        push Not at hno
        rw [any_eq_false_iff.mpr hno] at hany
        cases hany
      obtain ⟨p, t, d, x, hp, ht, -, -, -, htp, -⟩ := hst.exists_tables
      rw [index_para hp ht] at hold
      have hget : t.get k.val = .tbl a := Option.some.inj hold
      -- the table of the parameters has a table, so it is not flat
      have hne : Val.tbl b ≠ .tbl p := by
        rintro ⟨⟩
        rw [hw] at ht
        cases ht
        have hmem : (k.val, .tbl a) ∈ w.entries := Table.mem_iff.mpr ⟨by simp, hget⟩
        cases (hflat _ hmem).2
      have hd : ¬Same st.heap (.tbl a) (.tbl b) := by
        obtain ⟨l, -, hl⟩ := hex
        rintro (⟨⟨⟩⟩ | ⟨a', b', u', w', ⟨⟩, ⟨⟩, hu', hw', heq⟩)
        · rw [hu] at hw
          cases hw
          exact hl rfl
        · rw [hu] at hu'
          rw [hw] at hw'
          cases hu'
          cases hw'
          exact hl (heq l).symm
      obtain ⟨N, hN⟩ := sets_of_change hst hp ht (.inr ⟨b, w, rfl, hw, hflat⟩) hne r s hb hd
      exact ⟨N, fun n hn => iff_of_true (hN n hn) (.inl hex)⟩
  | false =>
      rw [hany] at hb
      have hall := any_eq_false_iff.mp hany
      refine ⟨0, fun n _ => ?_⟩
      rw [@sets_unseen_iff (env.within n) st k (.tbl a) (.tbl b) r s hb,
        @get_of_table (env.within n) st a u _ hold hu]
      constructor
      · rintro ⟨⟨g, ⟨⟩, b', w', ⟨⟩, hw', heq⟩, -⟩
        rw [hw] at hw'
        cases hw'
        exact .inr ((fields_eq_iff hall).mp heq)
      · intro h
        have hsub := h.resolve_left (by
          rintro ⟨l, hl, hne⟩
          exact hne (hall l hl))
        have heq := (fields_eq_iff hall).mpr hsub
        apply And.intro
        · exact ⟨.copy u, rfl, b, w, rfl, hw, heq⟩
        · rintro ⟨-, hno⟩
          exact hno (.inr ⟨a, b, u, w, rfl, rfl, hu, hw, heq⟩)

end

/-- A parameter that is set is read back, and a change is told, exactly if the new value is no
table, or the fields of the old table show the difference. -/
theorem sets_iff (env : Env) (c : Config) (st : State) (k old v r s : Val) (hc : c.Plain)
    (hr : Reachable env c st) (hk : k ∉ own)
    (hold : index env.methods st.heap st.para k = some old) (hn : old ≠ .nil)
    (hv : Simple st.heap v) :
    ∃ N, ∀ n ≥ N, Sets (env.within n) st k v r s old ↔ Seen st.heap old v := by
  have hst := hr.stored hc
  obtain ⟨a, t, d, u, hp, ht, -, -, -, htp, -⟩ := hst.exists_tables
  have hget : t.get k = old := by
    rw [index_para hp ht] at hold
    exact Option.some.inj hold
  subst hget
  obtain ⟨hkey, hdata⟩ := htp.get hk hn
  obtain ⟨key, rfl⟩ : ∃ key : Key, k = key.val := by
    cases k with
    | int i => exact ⟨.int i, rfl⟩
    | str s => exact ⟨.str s, rfl⟩
    | _ => cases hkey
  obtain hv | ⟨b, w, rfl, hw, hflat⟩ := hv
  · have hseen : Seen st.heap (t.get key.val) v := fun b w hb => absurd hb (scalar_ne_tbl hv b)
    obtain ⟨N, hN⟩ := sets_of_scalar hst hold hv r s
    exact ⟨N, fun n hn => iff_of_true (hN n hn) hseen⟩
  by_cases hold' : ∃ q, t.get key.val = .tbl q
  · obtain ⟨q, hq⟩ := hold'
    rw [hq] at hdata hold ⊢
    cases hdata.1 with
    | @tbl _ x hx _ _ =>
    obtain ⟨N, hN⟩ := sets_table_iff hst hold hx hw hflat r s
    refine ⟨N, fun n hn => (hN n hn).trans ?_⟩
    constructor
    · rintro h b' w' ⟨⟩ hw'
      rw [hw] at hw'
      cases hw'
      exact ⟨q, x, rfl, hx, h⟩
    · intro hseen
      obtain ⟨q', x', ⟨⟩, hx', h⟩ := hseen b w rfl hw
      rw [hx] at hx'
      cases hx'
      exact h
  · push Not at hold'
    refine ⟨0, fun n _ => iff_of_false ?_ ?_⟩
    · intro hsets
      have hret := hsets.returns
      have hb : bchg (env.within n) st key.val (.tbl b) = none := bchg_none hold hold'
      simp [set, hb] at hret
    · intro hseen
      obtain ⟨q, x, hq, -⟩ := hseen b w rfl hw
      exact hold' q hq

/-- A store in which `tab` has the field `x`, and a table that the application has made. -/
def tabStore (t : Table) : State :=
  let st := (init syntaxError tableConfig.heap tableConfig.ref none).1
  { st with heap := st.heap ++ [t] }

theorem plain_tableConfig : tableConfig.Plain := by
  intro e he
  rw [List.mem_singleton.mp he]
  refine .inr ⟨rfl, .tbl (t := ⟨[(.str (lua "x"), .int 1)], by decide, by decide⟩) rfl ?_ ?_⟩
  · decide
  · intro f hf
    rw [List.mem_singleton.mp hf]
    exact .int 1

theorem reachable_tabStore (t : Table) : Reachable syntaxError tableConfig (tabStore t) :=
  @Reachable.step _ _ _ _ (.make t) (@Reachable.init _ _ none trivial) trivial rfl

/-- The field `x` is 2, and `y` is new. -/
def changed : Table :=
  ⟨[(.str (lua "x"), .int 2), (.str (lua "y"), .int 5)], by decide, by decide⟩

/-- The field `x` is as it was, and `y` is new. -/
def widened : Table :=
  ⟨[(.str (lua "x"), .int 1), (.str (lua "y"), .int 5)], by decide, by decide⟩

theorem sets_iff_changed : ∃ N, ∀ n ≥ N,
    Sets (syntaxError.within n) (tabStore changed) (.str (lua "tab")) (.tbl 3) (.bool true) .nil
      (.tbl 1) ↔ Seen (tabStore changed).heap (.tbl 1) (.tbl 3) :=
  sets_iff syntaxError tableConfig (tabStore changed) (.str (lua "tab")) (.tbl 1) (.tbl 3)
    (.bool true) .nil plain_tableConfig (reachable_tabStore changed) (by decide) rfl (by simp)
    (.inr ⟨3, changed, rfl, rfl, by decide⟩)

/-- A table with one more field is not stored. -/
theorem not_sets : ¬∀ (env : Env) (c : Config) (st : State) (k old v r s : Val), c.Plain →
    Reachable env c st → k ∉ own → index env.methods st.heap st.para k = some old →
      old ≠ .nil → Simple st.heap v → ∃ N, ∀ n ≥ N, Sets (env.within n) st k v r s old := by
  intro hall
  have hreach := reachable_tabStore widened
  have hold : index syntaxError.methods (tabStore widened).heap (tabStore widened).para
      (.str (lua "tab")) = some (.tbl 1) := rfl
  have hflat : Flat widened := by decide
  obtain ⟨N, hN⟩ := hall syntaxError tableConfig (tabStore widened) (.str (lua "tab")) (.tbl 1)
    (.tbl 3) (.bool true) .nil plain_tableConfig hreach (by decide) hold (by simp)
    (.inr ⟨3, widened, rfl, rfl, hflat⟩)
  obtain ⟨M, hM⟩ := @sets_table_iff syntaxError (tabStore widened) 1 3
    ⟨[(.str (lua "x"), .int 1)], by decide, by decide⟩ widened (.str (lua "tab"))
    (hreach.stored plain_tableConfig) hold rfl rfl hflat (.bool true) .nil
  obtain ⟨l, hl, hne⟩ | hsub := (hM (max N M) (le_max_right N M)).mp (hN (max N M) (le_max_left N M))
  · obtain rfl : l = .str (lua "x") := by
      have hmem := Table.mem_iff.mpr ⟨hl, rfl⟩
      exact (Prod.ext_iff.mp (List.mem_singleton.mp hmem)).1
    exact hne (by decide)
  · exact hsub (.str (lua "y")) (by decide) (by decide)

end LuatAir200.Nvm
