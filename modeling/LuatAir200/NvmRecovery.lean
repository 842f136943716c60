import LuatAir200.NvmReset

/-!
# Starting with a damaged parameter file

`load` takes what the protected `require` gives for the table of the parameters, also when
this is an error message or the value of a chunk that is no module. The store works after
`init` exactly if the file has no content or gives a table, and then for each parameter the
saved value, the default or nothing.
-/
namespace LuatAir200.Nvm
open Lua

/-! ## Values up to the order of fields -/

mutual

/-- The values differ in the order of the fields only. -/
inductive Value.Same : Value → Value → Prop
  | refl (v : Value) : Value.Same v v
  | table {fs gs : Fields} (h : Fields.Same fs gs) : Value.Same (.table fs) (.table gs)

inductive Fields.Same : Fields → Fields → Prop
  | nil : Fields.Same .nil .nil
  | cons {k : Key} {v w : Value} {fs gs : Fields} (hv : Value.Same v w) (h : Fields.Same fs gs) :
      Fields.Same (.cons k v fs) (.cons k w gs)
  | swap (k l : Key) (v w : Value) (fs : Fields) :
      Fields.Same (.cons k v (.cons l w fs)) (.cons l w (.cons k v fs))
  | trans {fs gs hs : Fields} (h : Fields.Same fs gs) (h' : Fields.Same gs hs) : Fields.Same fs hs

end

/-- The value under a key of Lua. -/
def fieldAt (fs : Fields) : Val → Option Value
  | .int i => fs.lookup (.int i)
  | .str s => fs.lookup (.str s)
  | _ => none

/-- A reference stands for a value, or is `nil` where there is none. -/
def Is (h : Heap) (x : Val) : Option Value → Prop
  | none => x = .nil
  | some v => ∃ w, Reads h w x ∧ Value.Same w v

/-- `get(k)` gives this value, or `nil`. -/
def Answers (env : Env) (st : State) (k : Val) : Option Value → Prop
  | none => get env st k = some (.val .nil)
  | some v => ∃ w, Gives env st k w ∧ Value.Same w v

/-! ## What is required -/

def Env.within (env : Env) (n : ℕ) : Env := { env with calls := n }

/-- `set` and `sett` return and change the parameter, for data that does not contain the table
it is put into, when the stack has room. A table is set only where there was one. -/
structure Works (env : Env) (st : State) : Prop where
  set (k : Key) (v r : Val) (hk : k.val ∉ own) (hv : Data st.heap v)
    (hr : ∀ p, st.para = .tbl p → ¬Reach st.heap v p)
    (ht : v.address?.isSome → ∃ a, index env.methods st.heap st.para k.val = some (.tbl a)) :
    ∃ N, ∀ n ≥ N, (Nvm.set (env.within n) k.val v r .nil st).2 = true ∧
      (bchg env st k.val v = some false ∨ index env.methods
        (Nvm.set (env.within n) k.val v r .nil st).1.heap
        (Nvm.set (env.within n) k.val v r .nil st).1.para k.val = some v)
  sett (k kk : Key) (q : ℕ) (v r : Val) (hk : k.val ∉ own)
    (hq : index env.methods st.heap st.para k.val = some (.tbl q)) (hv : Data st.heap v)
    (hr : ¬Reach st.heap v q) (hp : ∀ p, st.para = .tbl p → ¬Reach st.heap v p) :
    ∃ N, ∀ n ≥ N, (Nvm.sett (env.within n) k.val kk.val v r .nil st).2 = true ∧
      gett env (Nvm.sett (env.within n) k.val kk.val v r .nil st).1 k.val kk.val = some v

/-- `init` returns, every parameter has the saved value or its default, and the store works. -/
structure Recovers (env : Env) (saved dft : Fields) (out : State × Bool) : Prop where
  completes : out.2 = true
  values : ∀ k, k ∉ own →
    Answers env out.1 k (fieldAt saved k) ∨ Answers env out.1 k (fieldAt dft k)
  works : Works env out.1

/-- `para` after the protected `require`, and whether `restore` follows. -/
def outcome : Except Val Val → Bool × Val
  | .error e => (true, e)
  | .ok v => (false, v)

/-- What `require` gives is a table, and each parameter in it is absent, or a default follows,
or it is the saved value or the default. -/
def Usable (c : Config) (saved dft : Fields) (r : Heap × Except Val Val) : Prop :=
  ∃ a t, (outcome r.2).2 = .tbl a ∧ r.1[a]? = some t ∧ ∀ k, k ∉ own →
    t.get k = .nil ∨ ((outcome r.2).1 ∧ c.table.get k ≠ .nil) ∨
      Is r.1 (t.get k) (fieldAt saved k) ∨ Is r.1 (t.get k) (fieldAt dft k)

/-- The parameters of a default configuration. -/
def Config.Defaults (c : Config) (dft : Fields) : Prop :=
  ReadsFields c.heap dft (c.table.entries.filter fun e => e.1 ∉ own)

/-- A chunk does not give a table that was there before. -/
def Env.Fresh (env : Env) : Prop :=
  ∀ text h a, (outcome (env.run text h).2).2 = .tbl a → h.length ≤ a

/-! ## Saving data -/

/-- A bound for each element of a list gives one for all. -/
theorem eventually_all {α : Type} {P : α → ℕ → Prop} {l : List α}
    (h : ∀ x ∈ l, ∃ N, ∀ n ≥ N, P x n) : ∃ N, ∀ n ≥ N, ∀ x ∈ l, P x n := by
  induction l with
  | nil => exact ⟨0, by simp⟩
  | cons x l ih =>
      obtain ⟨N, hN⟩ := h x List.mem_cons_self
      obtain ⟨M, hM⟩ := ih fun y hy => h y (List.mem_cons_of_mem _ hy)
      refine ⟨max N M, fun n hn y hy => ?_⟩
      obtain rfl | hy := List.mem_cons.mp hy
      · exact hN n ((Nat.max_le.mp hn).1)
      · exact hM n ((Nat.max_le.mp hn).2) y hy

theorem isKey_written {k : Val} (h : k.isKey) :
    (∃ s, keyText k = some s) ∧ ∃ s, written k = some s := by
  cases k with
  | int i => exact ⟨⟨_, rfl⟩, _, rfl⟩
  | str s => exact ⟨⟨_, rfl⟩, _, rfl⟩
  | _ => cases h

theorem serializeFields_ok {ser : Val → LuaString × Bool} {es : List (Val × Val)}
    (h : ∀ e ∈ es, e.1.isKey ∧ (ser e.2).2 = true) : (serializeFields ser es).2 = true := by
  induction es with
  | nil => rfl
  | cons e es ih =>
      obtain ⟨k, v⟩ := e
      obtain ⟨hk, hv⟩ := h _ List.mem_cons_self
      have hes := ih fun e he => h e (List.mem_cons_of_mem _ he)
      obtain ⟨s, hs⟩ := (isKey_written hk).1
      dsimp only at hv
      rw [serializeFields, hs]
      simpa [hv] using hes

theorem serialize_ok {h : Heap} {x : Val} (hx : Data h x) :
    ∃ N, ∀ n ≥ N, (serialize h n x).2 = true := by
  induction hx with
  | tbl ht hk _ ih =>
      obtain ⟨N, hN⟩ := eventually_all ih
      refine ⟨N + 1, fun n hn => ?_⟩
      obtain ⟨n, rfl⟩ : ∃ m, n = m + 1 := ⟨n - 1, by omega⟩
      simp only [serialize, ht]
      exact serializeFields_ok fun e he => ⟨hk e he, hN n (by omega) e he⟩
  | _ =>
      refine ⟨1, fun n hn => ?_⟩
      obtain ⟨n, rfl⟩ : ∃ m, n = m + 1 := ⟨n - 1, by omega⟩
      rfl

theorem saveEntries_ok {ser : Val → LuaString × Bool} {es : List (Val × Val)}
    (h : ∀ e ∈ es, e.1 ∈ own ∨ e.1.isKey ∧ (ser e.2).2 = true) :
    (saveEntries ser es).2 = true := by
  induction es with
  | nil => rfl
  | cons e es ih =>
      obtain ⟨k, v⟩ := e
      have hes := ih fun e he => h e (List.mem_cons_of_mem _ he)
      rw [saveEntries]
      split
      · exact hes
      case isFalse hown =>
        obtain ⟨hk, hv⟩ := (h _ List.mem_cons_self).resolve_left hown
        obtain ⟨s, hs⟩ := (isKey_written hk).2
        dsimp only at hv
        rw [hs]
        simpa [hv] using hes

/-- All parameters are data. -/
def Clean (st : State) : Prop :=
  ∃ a t, st.para = .tbl a ∧ st.heap[a]? = some t ∧
    ∀ e ∈ t.entries, e.1 ∈ own ∨ e.1.isKey ∧ Data st.heap e.2

theorem Clean.save_ok {st : State} (h : Clean st) (env : Env) :
    ∃ N, ∀ n ≥ N, ∀ s, (save (env.within n) s st).2 = true := by
  obtain ⟨a, t, hp, ht, hes⟩ := h
  obtain ⟨N, hN⟩ := eventually_all (P := fun e n => e.1 ∈ own ∨
    e.1.isKey ∧ (serialize st.heap n e.2).2 = true) (l := t.entries) <| by
      intro e he
      obtain hown | ⟨hk, hd⟩ := hes e he
      · exact ⟨0, fun _ _ => .inl hown⟩
      · obtain ⟨N, hN⟩ := serialize_ok hd
        exact ⟨N, fun n hn => .inr ⟨hk, hN n hn⟩⟩
  refine ⟨N, fun n hn s => ?_⟩
  have hpairs : pairs st.heap st.para = some t.entries := by simp [pairs, hp, ht]
  cases s with
  | false => rfl
  | true =>
      simp only [save, hpairs, if_true]
      exact saveEntries_ok (hN n hn)

/-- With enough room on the stack, what is written is saved and told. -/
theorem Clean.saved_ok {st : State} (h : Clean st) (env : Env) (s : Val)
    (notice : Option Notice) : ∃ N, ∀ n ≥ N, (saved (env.within n) s notice st).2 = true ∧
      (saved (env.within n) s notice st).1.notices = st.notices ++ notice.toList := by
  obtain ⟨N, hN⟩ := h.save_ok env
  refine ⟨N, fun n hn => ?_⟩
  have hsave := hN n hn (s.truthy || s = .nil)
  have hnotices : ∀ b, (save (env.within n) b st).1.notices = st.notices := by
    intro b
    unfold save
    split
    · split <;> rfl
    · rfl
  simp [Nvm.saved, hsave, hnotices]

/-- A parameter is a field of the table in `para`. -/
theorem index_para {env : Env} {st : State} {a : ℕ} {t : Table} (hp : st.para = .tbl a)
    (ht : st.heap[a]? = some t) (k : Val) : index env.methods st.heap st.para k = some (t.get k) := by
  simp [index, hp, ht]

theorem Clean.data {st : State} (h : Clean st) {env : Env} {k : Val} (hk : k ∉ own) {x : Val}
    (hx : index env.methods st.heap st.para k = some x) (hn : x ≠ .nil) : Data st.heap x := by
  obtain ⟨a, t, hp, ht, hes⟩ := h
  rw [index_para hp ht] at hx
  cases hx
  exact ((hes _ (Table.mem_iff.mpr ⟨hn, rfl⟩)).resolve_left hk).2

/-- The parameters are data also after one has been set. -/
theorem Clean.put {st : State} {a : ℕ} {t : Table} (hp : st.para = .tbl a)
    (ht : st.heap[a]? = some t) (hes : ∀ e ∈ t.entries, e.1 ∈ own ∨ e.1.isKey ∧ Data st.heap e.2)
    (k : Key) {v : Val} (hv : Data st.heap v) (hr : ¬Reach st.heap v a) :
    Clean { st with heap := st.heap.set a (t.put k.val v) } := by
  have hset : ∀ {x : Val}, Data st.heap x → ¬Reach st.heap x a →
      Data (st.heap.set a (t.put k.val v)) x := by
    intro x hx hxa
    apply hx.frame
    intro b u hb hu
    rw [List.getElem?_set_ne]
    · exact hu
    · rintro rfl
      exact hxa hb
  obtain ⟨hlt, -⟩ := List.getElem?_eq_some_iff.mp ht
  refine ⟨a, t.put k.val v, hp, by simp [hlt], ?_⟩
  intro e he
  obtain he | ⟨hev, hek⟩ := Table.mem_put he
  · exact (hes e he).imp_right fun h => ⟨h.1, hset h.2 (h.2.not_reach ht he)⟩
  · rw [hev]
    obtain hek | hek := hek
    · obtain ⟨e', he', hee⟩ := List.mem_map.mp hek
      rw [← hee]
      exact (hes e' he').imp_right fun h => ⟨h.1, hset hv hr⟩
    · rw [hek]
      exact .inr ⟨k.isKey_val, hset hv hr⟩

/-- The comparison in `set` raises no error. -/
theorem Clean.bchg_ok {st : State} (h : Clean st) (env : Env) {k v : Val} (hk : k ∉ own)
    (hv : Data st.heap v)
    (ht : v.address?.isSome → ∃ a, index env.methods st.heap st.para k = some (.tbl a)) :
    (bchg env st k v).isSome := by
  cases hv with
  | tbl hv =>
      obtain ⟨b, hb⟩ := ht rfl
      have hd := h.data hk hb (by simp)
      cases hd with
      | tbl hu => simp [bchg, hb, pairs, hu, hv]
  | _ =>
      obtain ⟨a, t, hp, hta, -⟩ := h
      simp [bchg, index_para hp hta]

theorem Clean.set_works {st : State} (h : Clean st) (env : Env) (k : Key) (v r : Val)
    (hk : k.val ∉ own) (hv : Data st.heap v) (hr : ∀ p, st.para = .tbl p → ¬Reach st.heap v p)
    (ht : v.address?.isSome → ∃ a, index env.methods st.heap st.para k.val = some (.tbl a)) :
    ∃ N, ∀ n ≥ N, (set (env.within n) k.val v r .nil st).2 = true ∧
      (bchg env st k.val v = some false ∨ index env.methods
        (set (env.within n) k.val v r .nil st).1.heap
        (set (env.within n) k.val v r .nil st).1.para k.val = some v) := by
  have hchange : ∀ n, bchg (env.within n) st k.val v = bchg env st k.val v := fun _ => rfl
  obtain ⟨b, hb⟩ := Option.isSome_iff_exists.mp (h.bchg_ok env hk hv ht)
  cases b with
  | false =>
      refine ⟨0, fun n _ => ?_⟩
      simp [set, hchange, hb]
  | true =>
      obtain ⟨a, t, hp, hta, hes⟩ := h
      obtain ⟨hlt, -⟩ := List.getElem?_eq_some_iff.mp hta
      have hnew : newindex st.heap st.para k.val v = some (st.heap.set a (t.put k.val v)) := by
        simp [newindex, hp, hta, k.val_ne_nil]
      obtain ⟨N, hN⟩ := (Clean.put hp hta hes k hv (hr a hp)).saved_ok env .nil
        (if r.truthy then some (.paraChanged k.val v r) else none)
      refine ⟨N, fun n hn => ?_⟩
      have hset : set (env.within n) k.val v r .nil st = saved (env.within n) .nil
          (if r.truthy then some (.paraChanged k.val v r) else none)
          { st with heap := st.heap.set a (t.put k.val v) } := by
        simp only [set, hchange, hb, hnew]
      obtain ⟨hheap, hpara, -⟩ := saved_fields (env.within n) .nil
        (if r.truthy then some (.paraChanged k.val v r) else none)
        { st with heap := st.heap.set a (t.put k.val v) }
      rw [hset]
      refine ⟨(hN n hn).1, .inr ?_⟩
      rw [hheap, hpara]
      simp [index, hp, hlt, t.get_put_self v k.val_ne_nil]

theorem Clean.sett_works {st : State} (h : Clean st) (env : Env) (k kk : Key) (q : ℕ) (v r : Val)
    (hk : k.val ∉ own) (hq : index env.methods st.heap st.para k.val = some (.tbl q))
    (hv : Data st.heap v) (hr : ¬Reach st.heap v q) :
    ∃ N, ∀ n ≥ N, (sett (env.within n) k.val kk.val v r .nil st).2 = true ∧
      gett env (sett (env.within n) k.val kk.val v r .nil st).1 k.val kk.val = some v := by
  have hd := h.data hk hq (by simp)
  obtain ⟨a, t, hp, hta, hes⟩ := h
  cases hd with
  | @tbl _ u hu hukeys hudata =>
  obtain ⟨hltq, -⟩ := List.getElem?_eq_some_iff.mp hu
  have hget : t.get k.val = .tbl q := by
    rw [index_para hp hta] at hq
    exact Option.some.inj hq
  have hmem : (k.val, .tbl q) ∈ t.entries := Table.mem_iff.mpr ⟨by simp, hget⟩
  have hqa : q ≠ a := by
    rintro rfl
    exact (Data.tbl hu hukeys hudata).not_reach hta hmem (.root rfl)
  have hfield : index env.methods st.heap (.tbl q) kk.val = some (u.get kk.val) := by
    simp [index, hu]
  by_cases hsame : u.get kk.val = v
  · refine ⟨0, fun n _ => ?_⟩
    have hsett : sett (env.within n) k.val kk.val v r .nil st = (st, true) := by
      simp [sett, Env.within, hq, hfield, hsame]
    rw [hsett]
    simp [gett, hq, hfield, hsame]
  · have hwrite : Data (st.heap.set q (u.put kk.val v)) v := by
      apply hv.frame
      intro b w hb hw
      rw [List.getElem?_set_ne]
      · exact hw
      · rintro rfl
        exact hr hb
    have hclean : Clean { st with heap := st.heap.set q (u.put kk.val v) } := by
      refine ⟨a, t, hp, ?_, ?_⟩
      · rw [List.getElem?_set_ne hqa]
        exact hta
      · intro e he
        exact (hes e he).imp_right fun h => ⟨h.1, h.2.write hu kk.isKey_val (.inr hwrite)⟩
    obtain ⟨N, hN⟩ := hclean.saved_ok env .nil
      (if r.truthy then some (.tparaChanged k.val kk.val v r) else none)
    refine ⟨N, fun n hn => ?_⟩
    have hsett : sett (env.within n) k.val kk.val v r .nil st = saved (env.within n) .nil
        (if r.truthy then some (.tparaChanged k.val kk.val v r) else none)
        { st with heap := st.heap.set q (u.put kk.val v) } := by
      simp [sett, Env.within, hq, hfield, hsame, newindex, kk.val_ne_nil, hu]
    obtain ⟨hheap, hpara, -⟩ := saved_fields (env.within n) .nil
      (if r.truthy then some (.tparaChanged k.val kk.val v r) else none)
      { st with heap := st.heap.set q (u.put kk.val v) }
    rw [hsett]
    refine ⟨(hN n hn).1, ?_⟩
    have hpara' : index env.methods (st.heap.set q (u.put kk.val v)) st.para k.val =
        some (.tbl q) := by
      simp [index, hp, List.getElem?_set_ne hqa, hta, hget]
    have hfield' : index env.methods (st.heap.set q (u.put kk.val v)) (.tbl q) kk.val = some v := by
      simp [index, hltq, u.get_put_self v kk.val_ne_nil]
    rw [gett, hheap, hpara, hpara']
    exact hfield'

/-- The store works when all parameters are data. -/
theorem Clean.works {st : State} (h : Clean st) (env : Env) : Works env st where
  set k v r hk hv hr ht := h.set_works env k v r hk hv hr ht
  sett k kk q v r hk hq hv hr _ := h.sett_works env k kk q v r hk hq hv hr

theorem not_reach_scalar {h : Heap} {x : Val} (hx : x.address? = none) (a : ℕ) : ¬Reach h x a := by
  intro hr
  simpa [hx] using hr.address

/-- The store works only when `para` is a table. -/
theorem Works.para {env : Env} {st : State} (h : Works env st) :
    ∃ a t, st.para = .tbl a ∧ st.heap[a]? = some t := by
  by_contra hno
  have hnew : ∀ v, newindex st.heap st.para (.str (lua "x")) v = none := by
    intro v
    cases hw : newindex st.heap st.para (.str (lua "x")) v with
    | none => rfl
    | some h' =>
        obtain ⟨a, t, hp, -, ht, -⟩ := newindex_eq_some.mp hw
        exact absurd ⟨a, t, hp, ht⟩ hno
  -- a value that differs from the present one
  obtain ⟨i, hi⟩ : ∃ i : Int32, index env.methods st.heap st.para (.str (lua "x")) ≠ some (.int i) := by
    by_cases h0 : index env.methods st.heap st.para (.str (lua "x")) = some (.int 0)
    · exact ⟨1, by simp [h0]⟩
    · exact ⟨0, h0⟩
  obtain ⟨N, hN⟩ := h.set (.str (lua "x")) (.int i) .nil (by decide) (.int i)
    (fun p _ => not_reach_scalar rfl p) (fun h => by cases h)
  have hset := (hN N le_rfl).1
  simp only [Nvm.set, bchg, Env.within, Key.val] at hset
  cases hx : index env.methods st.heap st.para (.str (lua "x")) with
  | none => simp [hx] at hset
  | some y =>
      have hy : y ≠ .int i := by
        rintro rfl
        exact hi hx
      simp [hx, hy, hnew] at hset

/-! ## What `init` leaves -/

theorem newindex_length {h h' : Heap} {v k x : Val} (hw : newindex h v k x = some h') :
    h'.length = h.length := by
  obtain ⟨a, t, -, -, -, rfl⟩ := newindex_eq_some.mp hw
  exact List.length_set

theorem updEntries_fields (env : Env) (overide : Bool) (es : List (Val × Val)) (st : State) :
    (updEntries env overide es st).1.para = st.para ∧
      (updEntries env overide es st).1.heap.length = st.heap.length := by
  induction es generalizing st with
  | nil => exact ⟨rfl, rfl⟩
  | cons e es ih =>
      obtain ⟨k, v⟩ := e
      rw [updEntries]
      split
      · exact ih st
      · split
        · exact ⟨rfl, rfl⟩
        · exact ih st
        · split
          · exact ⟨rfl, rfl⟩
          case h_2 h hw =>
            obtain ⟨hpara, hlen⟩ := ih { st with heap := h }
            exact ⟨hpara, hlen.trans (newindex_length hw)⟩

theorem upd_fields (env : Env) (overide : Bool) (st : State) :
    (upd env overide st).1.para = st.para ∧
      (upd env overide st).1.heap.length = st.heap.length := by
  unfold upd
  split
  · exact ⟨rfl, rfl⟩
  · exact updEntries_fields env overide _ st

theorem fieldAt_val (fs : Fields) (k : Key) : fieldAt fs k.val = fs.lookup k := by cases k <;> rfl

section Defaults

variable {c : Config} {dft : Fields} (hd : c.Defaults dft)
include hd

theorem Config.Defaults.fieldAt_of_ne_nil {k : Val} (hk : k ∉ own) (hn : c.table.get k ≠ .nil) :
    ∃ v, fieldAt dft k = some v ∧ Reads c.heap v (c.table.get k) := by
  have hmem : (k, c.table.get k) ∈ c.table.entries.filter fun e => e.1 ∉ own := by
    rw [List.mem_filter]
    exact ⟨Table.mem_iff.mpr ⟨hn, rfl⟩, by simpa using hk⟩
  obtain ⟨l, v, rfl, hl, hv⟩ := hd.lookup_of_mem
    (c.table.nodup.sublist (List.filter_sublist.map _)) hmem
  exact ⟨v, (fieldAt_val dft l).trans hl, hv⟩

theorem Config.Defaults.fieldAt_of_nil {k : Val} (hn : c.table.get k = .nil) : fieldAt dft k = none := by
  have hlook : ∀ l : Key, k = l.val → fieldAt dft k = none := by
    rintro l rfl
    rw [fieldAt_val]
    apply hd.lookup_eq_none
    intro hm
    have hm' := (List.filter_sublist.map Prod.fst).subset hm
    exact Table.get_eq_nil.mp hn hm'
  cases k with
  | int i => exact hlook (.int i) rfl
  | str s => exact hlook (.str s) rfl
  | _ => rfl

end Defaults

theorem answers_iff {env : Env} {st : State} {k x : Val} {o : Option Value}
    (hi : index env.methods st.heap st.para k = some x) : Answers env st k o ↔ Is st.heap x o := by
  cases o with
  | none =>
      simp only [Answers, Is, get, hi]
      cases x <;> simp
  | some v => simp only [Answers, Is, gives_iff hi]

/-- The data of a field does not change with the other fields of its table. -/
theorem is_set_iff {h : Heap} {a : ℕ} {t t' : Table} {k x : Val} (ht : h[a]? = some t)
    (hx : (k, x) ∈ t.entries) (hx' : (k, x) ∈ t'.entries) (o : Option Value) :
    Is (h.set a t') x o ↔ Is h x o := by
  obtain ⟨hlt, hta⟩ := List.getElem?_eq_some_iff.mp ht
  have hback : (h.set a t').set a t = h := by rw [List.set_set, ← hta, List.set_getElem_self]
  have ht' : (h.set a t')[a]? = some t' := by simp [hlt]
  cases o with
  | none => rfl
  | some v =>
      constructor
      · rintro ⟨w, hw, hs⟩
        have hw' := hw.set t (hw.data.not_reach ht' hx')
        rw [hback] at hw'
        exact ⟨w, hw', hs⟩
      · rintro ⟨w, hw, hs⟩
        exact ⟨w, hw.set t' (hw.data.not_reach ht hx), hs⟩

/-- What a parameter is after `upd`, and what it was before. -/
theorem answer_iff {c : Config} {saved dft : Fields} (hd : c.Defaults dft) {h : Heap} {a : ℕ}
    {t : Table} (hk : c.Kept h) (ha : ¬Reach c.heap c.ref a) (ht : h[a]? = some t)
    (overide : Bool) {k : Val} (hown : k ∉ own) :
    (Is (h.set a (merge overide c.table.entries t))
        ((merge overide c.table.entries t).get k) (fieldAt saved k) ∨
      Is (h.set a (merge overide c.table.entries t))
        ((merge overide c.table.entries t).get k) (fieldAt dft k)) ↔
      t.get k = .nil ∨ (overide ∧ c.table.get k ≠ .nil) ∨
        Is h (t.get k) (fieldAt saved k) ∨ Is h (t.get k) (fieldAt dft k) := by
  by_cases hover : (overide ∨ t.get k = .nil) ∧ c.table.get k ≠ .nil
  · have hget : (merge overide c.table.entries t).get k = c.table.get k := by
      rw [get_merge, if_pos ⟨hown, hover⟩]
    obtain ⟨v, hv, hr⟩ := hd.fieldAt_of_ne_nil hown hover.2
    rw [hget, hv]
    constructor
    · rintro -
      obtain ho | hn := hover.1
      · exact .inr (.inl ⟨ho, hover.2⟩)
      · exact .inl hn
    · rintro -
      exact .inr ⟨v, (hk.set _ ha).reads hr, .refl v⟩
  · have hget : (merge overide c.table.entries t).get k = t.get k := by
      rw [get_merge, if_neg fun h => hover h.2]
    by_cases hn : t.get k = .nil
    · have hdn : c.table.get k = .nil := by
        by_contra hdn
        exact hover ⟨.inr hn, hdn⟩
      rw [hget, hn, hd.fieldAt_of_nil hdn]
      simp [Is]
    · have hx : (k, t.get k) ∈ t.entries := Table.mem_iff.mpr ⟨hn, rfl⟩
      have hx' : (k, t.get k) ∈ (merge overide c.table.entries t).entries :=
        Table.mem_iff.mpr ⟨hn, hget⟩
      have hno : ¬(overide ∧ c.table.get k ≠ .nil) := fun h => hover ⟨.inl h.1, h.2⟩
      rw [hget, is_set_iff ht hx hx', is_set_iff ht hx hx']
      simp only [hn, hno, false_or]

/-- A value that is saved or a default is data, under a key that can be saved. -/
theorem Is.data {h : Heap} {k x : Val} {fs : Fields} (hi : Is h x (fieldAt fs k)) (hx : x ≠ .nil) :
    k.isKey ∧ Data h x := by
  cases ho : fieldAt fs k with
  | none =>
      rw [ho] at hi
      exact absurd hi hx
  | some v =>
      rw [ho] at hi
      obtain ⟨w, hw, -⟩ := hi
      refine ⟨?_, hw.data⟩
      cases k with
      | int i => rfl
      | str s => rfl
      | _ => cases ho

/-- `upd` leaves a store that works exactly if `para` was a table of such values. -/
theorem recovers_upd_iff {env : Env} {c : Config} {saved dft : Fields} (hd : c.Defaults dft)
    {st : State} (hdft : st.libdftconfig = c.ref) (hext : c.heap <+: st.heap)
    (hfresh : ∀ a, st.para = .tbl a → c.heap.length ≤ a) (overide : Bool) :
    Recovers env saved dft (upd env overide st) ↔
      ∃ a t, st.para = .tbl a ∧ st.heap[a]? = some t ∧ ∀ k, k ∉ own →
        t.get k = .nil ∨ (overide ∧ c.table.get k ≠ .nil) ∨
          Is st.heap (t.get k) (fieldAt saved k) ∨ Is st.heap (t.get k) (fieldAt dft k) := by
  have hk : c.Kept st.heap := Config.kept_of_extends hext
  have hb : st.heap[c.address]? = some c.table := hk _ _ (.root rfl) c.here
  -- what `upd` gives for a table
  have hupd : ∀ {a t}, st.para = .tbl a → st.heap[a]? = some t → ¬Reach c.heap c.ref a ∧
      upd env overide st = ({ st with heap := st.heap.set a (merge overide c.table.entries t) }, true) ∧
      ∀ k, index env.methods (st.heap.set a (merge overide c.table.entries t)) st.para k =
        some ((merge overide c.table.entries t).get k) := by
    intro a t hp ht
    refine ⟨?_, upd_eq hp ht hdft hb, ?_⟩
    · intro hr
      have := hfresh a hp
      have := c.closed a hr
      omega
    · intro k
      obtain ⟨hlt, -⟩ := List.getElem?_eq_some_iff.mp ht
      simp [index, hp, hlt]
  constructor
  · rintro ⟨-, hvalues, hworks⟩
    obtain ⟨a, t', hp', ht'⟩ := hworks.para
    obtain ⟨hpara, hlen⟩ := upd_fields env overide st
    rw [hpara] at hp'
    obtain ⟨hlt, -⟩ := List.getElem?_eq_some_iff.mp ht'
    rw [hlen] at hlt
    have ht : st.heap[a]? = some st.heap[a] := List.getElem?_eq_getElem hlt
    obtain ⟨ha, hu, hi⟩ := hupd hp' ht
    refine ⟨a, _, hp', ht, ?_⟩
    intro k hown
    have hv := hvalues k hown
    rw [hu] at hv
    rw [answers_iff (hi k), answers_iff (hi k)] at hv
    exact (answer_iff hd hk ha ht overide hown).mp hv
  · rintro ⟨a, t, hp, ht, hfit⟩
    obtain ⟨ha, hu, hi⟩ := hupd hp ht
    obtain ⟨hlt, -⟩ := List.getElem?_eq_some_iff.mp ht
    have hvalue := fun k hown => (answer_iff hd hk ha ht overide hown).mpr (hfit k hown)
    rw [hu]
    refine ⟨rfl, ?_, ?_⟩
    · intro k hown
      rw [answers_iff (hi k), answers_iff (hi k)]
      exact hvalue k hown
    · apply Clean.works
      refine ⟨a, merge overide c.table.entries t, hp, by simp [hlt], ?_⟩
      rintro ⟨k, x⟩ he
      by_cases hown : k ∈ own
      · exact .inl hown
      · obtain ⟨hn, rfl⟩ := Table.mem_iff.mp he
        obtain hi | hi := hvalue k hown
        · exact .inr (hi.data hn)
        · exact .inr (hi.data hn)

theorem Env.Fresh.require {env : Env} (hf : env.Fresh) (name text : LuaString) {h : Heap} {a : ℕ}
    (ha : (outcome (env.require name text h).2).2 = .tbl a) : h.length ≤ a := by
  unfold Env.require at ha
  split at ha
  case h_1 as _ =>
    cases ha
    exact (allocFields_extends (assigned as) h .empty).length_le
  case h_2 => exact hf text h a ha

/-- Without content, `para` is the empty table that the chunk of the module makes. -/
theorem recovers_empty (env : Env) {c : Config} {dft : Fields} (saved : Fields)
    (hd : c.Defaults dft) (file : Option LuaString) :
    Recovers env saved dft (restore env (boot c.heap c.ref file)) := by
  apply (@recovers_upd_iff env c saved dft hd
    { boot c.heap c.ref file with file := some env.config } rfl (List.prefix_append _ _) _ true).mpr
  · refine ⟨c.heap.length, .empty, rfl, by simp [boot], ?_⟩
    intro k _
    exact .inl rfl
  · rintro a ⟨⟩
    exact le_rfl

/-- The store starts with working parameters exactly if the file has no content, or what
`require` gives for it can be used. -/
theorem recovers_iff (env : Env) (c : Config) (saved dft : Fields) (file : Option LuaString)
    (hd : c.Defaults dft) (hfresh : env.Fresh) :
    Recovers env saved dft (init env c.heap c.ref file) ↔
      ∀ text ∈ file, text ≠ [] →
        Usable c saved dft (env.require (lua "para") text (c.heap ++ [.empty])) := by
  cases file with
  | none => exact iff_of_true (recovers_empty env saved hd none) (by simp)
  | some text =>
      by_cases htext : text = []
      · subst htext
        exact iff_of_true (recovers_empty env saved hd (some [])) (by simp)
      have hall : (∀ t ∈ some text, t ≠ [] → Usable c saved dft
          (env.require (lua "para") t (c.heap ++ [.empty]))) ↔
          Usable c saved dft (env.require (lua "para") text (c.heap ++ [.empty])) := by
        simp [htext]
      rw [hall]
      have hnew := @Env.Fresh.require env hfresh (lua "para") text (c.heap ++ [.empty])
      have hext := env.extends_require (lua "para") text (c.heap ++ [.empty])
      generalize hr : env.require (lua "para") text (c.heap ++ [.empty]) = r at hnew hext ⊢
      obtain ⟨h, e⟩ := r
      have hpara : ∀ a, (outcome e).2 = .tbl a → c.heap.length ≤ a := by
        intro a ha
        have := @hnew a ha
        rw [List.length_append] at this
        omega
      have hheap : c.heap <+: h := (List.prefix_append _ _).trans hext
      cases e with
      | error v =>
          have hinit : init env c.heap c.ref (some text) = upd env true
              ⟨h, v, c.ref, some env.config, []⟩ := by
            simp only [init, load, boot, if_neg htext, hr]
            rfl
          rw [hinit, recovers_upd_iff hd rfl hheap hpara]
          rfl
      | ok v =>
          have hinit : init env c.heap c.ref (some text) = upd env false
              ⟨h, v, c.ref, some text, []⟩ := by
            simp only [init, load, boot, if_neg htext, hr]
          rw [hinit, recovers_upd_iff hd rfl hheap hpara]
          rfl

/-- The parameters of `dftconfig` as a configuration. -/
def numConfig : Config where
  heap := [dftconfig]
  address := 0
  table := dftconfig
  here := rfl
  closed _ h := h.lt_length (by decide) (by decide)

def numDefaults : Fields := .cons (.str (lua "num")) (.int 1) .nil

theorem defaults_numConfig : numConfig.Defaults numDefaults := ⟨_, _, rfl, rfl, rfl⟩

theorem fresh_syntaxError : syntaxError.Fresh := by
  intro text h a ha
  cases ha

/-- The value in the file is the saved one. -/
theorem recovers_iff_saved :
    Recovers syntaxError (.cons (.str (lua "num")) (.int 7) .nil) numDefaults
        (init syntaxError numConfig.heap numConfig.ref (some (lua "module(...)\nnum = 7\n"))) ↔
      ∀ text ∈ some (lua "module(...)\nnum = 7\n"), text ≠ [] →
        Usable numConfig (.cons (.str (lua "num")) (.int 7) .nil) numDefaults
          (syntaxError.require (lua "para") text (numConfig.heap ++ [.empty])) :=
  recovers_iff syntaxError numConfig _ numDefaults _ defaults_numConfig fresh_syntaxError

/-- A file that was cut off in a name: `init` raises an error. -/
theorem truncated_file_fatal : ¬∀ (env : Env) (c : Config) (saved dft : Fields)
    (file : Option LuaString), c.Defaults dft → env.Fresh →
      Recovers env saved dft (init env c.heap c.ref file) := by
  intro hall
  have hinit := (hall syntaxError numConfig numDefaults numDefaults (some (lua "module(...)\nnu"))
    defaults_numConfig fresh_syntaxError).completes
  revert hinit
  decide +kernel

end LuatAir200.Nvm
