import LuatAir200.Keyed
import LuatAir200.LuaData

/-!
# Lua tables as references

Tables live in a heap and are known by their address. `Reads` says which tree of data a
reference stands for, `Reach` which tables can be reached from it: what is not reached may
change, and new tables may be made, without a change of the data.
-/
namespace LuatAir200.Lua

inductive Val
  | nil
  | bool (b : Bool)
  | int (i : Int32)
  | str (s : LuaString)
  | tbl (address : ℕ)
  | func (id : ℕ)
  deriving DecidableEq

def Val.address? : Val → Option ℕ
  | .tbl a => some a
  | _ => none

def Val.truthy : Val → Bool
  | .nil => false
  | .bool b => b
  | _ => true

def Key.val : Key → Val
  | .int i => .int i
  | .str s => .str s

theorem Key.val_ne_nil (k : Key) : k.val ≠ .nil := by
  cases k <;> simp [Key.val]

theorem Key.val_injective : Function.Injective Key.val := by
  intro k l h
  cases k <;> cases l <;> simp_all [Key.val]

/-- A table has one entry for a key, and no `nil` in its entries, which are in the order of
`pairs`. -/
@[ext] structure Table where
  entries : List (Val × Val)
  nodup : (entries.map Prod.fst).Nodup
  full : ∀ e ∈ entries, e.1 ≠ .nil ∧ e.2 ≠ .nil
  deriving DecidableEq

namespace Table

def empty : Table := ⟨[], List.nodup_nil, by simp⟩

def get (t : Table) (k : Val) : Val :=
  ((t.entries.find? fun e => e.1 = k).map Prod.snd).getD .nil

def keys (t : Table) : List Val := t.entries.map Prod.fst

def erase (t : Table) (k : Val) : Table where
  entries := t.entries.filter fun e => e.1 ≠ k
  nodup := t.nodup.sublist (List.filter_sublist.map _)
  full e he := t.full e (List.mem_of_mem_filter he)

/-- The entries after an assignment of a value to a key. -/
def assign (es : List (Val × Val)) (k v : Val) : List (Val × Val) :=
  if k ∈ es.map Prod.fst then Keyed.modify (fun e => e.1 = k) (fun e => (e.1, v)) es
  else es ++ [(k, v)]

theorem map_assign (es : List (Val × Val)) (k v : Val) :
    (assign es k v).map Prod.fst =
      if k ∈ es.map Prod.fst then es.map Prod.fst else es.map Prod.fst ++ [k] := by
  unfold assign
  split
  · exact Keyed.map_modify Prod.fst (fun _ => rfl)
  · rw [List.map_append]
    rfl

theorem mem_modify {p : Val × Val → Bool} {v : Val} {es : List (Val × Val)} {e : Val × Val}
    (h : e ∈ Keyed.modify p (fun e => (e.1, v)) es) : e ∈ es ∨ e.2 = v ∧ e.1 ∈ es.map Prod.fst := by
  induction es with
  | nil => cases h
  | cons a es ih =>
      rw [Keyed.modify] at h
      split at h
      · obtain rfl | h := List.mem_cons.mp h
        · exact .inr ⟨rfl, List.mem_cons_self⟩
        · exact .inl (List.mem_cons_of_mem _ h)
      · obtain rfl | h := List.mem_cons.mp h
        · exact .inl List.mem_cons_self
        · obtain h | h := ih h
          · exact .inl (List.mem_cons_of_mem _ h)
          · exact .inr ⟨h.1, List.mem_cons_of_mem _ h.2⟩

theorem mem_assign {es : List (Val × Val)} {k v : Val} {e : Val × Val} (h : e ∈ assign es k v) :
    e ∈ es ∨ e.2 = v ∧ (e.1 ∈ es.map Prod.fst ∨ e.1 = k) := by
  unfold assign at h
  split at h
  · exact (mem_modify h).imp_right fun h => ⟨h.1, .inl h.2⟩
  · obtain h | h := List.mem_append.mp h
    · exact .inl h
    · rw [List.mem_singleton.mp h]
      exact .inr ⟨rfl, .inr rfl⟩

/-- `t[k] = v` for a key that is not `nil`. -/
def put (t : Table) (k v : Val) : Table :=
  if hv : k = .nil ∨ v = .nil then t.erase k
  else
    { entries := assign t.entries k v
      nodup := by
        rw [map_assign]
        split
        · exact t.nodup
        · rename_i hk
          exact t.nodup.append (List.nodup_singleton k) (by simpa using hk)
      full := by
        intro e he
        rw [not_or] at hv
        obtain h | ⟨h, hk⟩ := mem_assign he
        · exact t.full e h
        · rw [h]
          obtain hk | hk := hk
          · obtain ⟨e', he', hek⟩ := List.mem_map.mp hk
            exact ⟨hek ▸ (t.full e' he').1, hv.2⟩
          · exact ⟨hk ▸ hv.1, hv.2⟩ }

theorem entries_put {t : Table} {k v : Val} (hk : k ≠ .nil) (hv : v ≠ .nil) :
    (t.put k v).entries = assign t.entries k v := by
  rw [put, dif_neg (not_or.mpr ⟨hk, hv⟩)]

@[simp] theorem get_empty (k : Val) : empty.get k = .nil := rfl

theorem mem_iff {t : Table} {k v : Val} : (k, v) ∈ t.entries ↔ v ≠ .nil ∧ t.get k = v := by
  unfold get
  constructor
  · intro h
    have hf : t.entries.find? (fun e => e.1 = k) = some (k, v) :=
      (Keyed.find_iff Prod.fst t.nodup).mpr ⟨h, rfl⟩
    rw [hf]
    exact ⟨(t.full _ h).2, rfl⟩
  · rintro ⟨hv, h⟩
    cases hf : t.entries.find? (fun e => e.1 = k) with
    | none =>
        rw [hf] at h
        exact absurd h.symm hv
    | some e =>
        obtain ⟨he, rfl⟩ := (Keyed.find_iff Prod.fst t.nodup).mp hf
        rw [hf] at h
        cases h
        exact he

theorem get_eq_nil {t : Table} {k : Val} : t.get k = .nil ↔ k ∉ t.keys := by
  constructor
  · intro h hk
    obtain ⟨⟨l, v⟩, he, rfl⟩ := List.mem_map.mp hk
    obtain ⟨hv, hg⟩ := mem_iff.mp he
    exact hv (hg.symm.trans h)
  · intro h
    by_contra hg
    have he : (k, t.get k) ∈ t.entries := mem_iff.mpr ⟨hg, rfl⟩
    exact h (List.mem_map_of_mem he)

theorem find_assign (es : List (Val × Val)) (k v l : Val) :
    (((assign es k v).find? fun e => e.1 = l).map Prod.snd) =
      if l = k then some v else (es.find? fun e => e.1 = l).map Prod.snd := by
  unfold assign
  split
  case isTrue hk =>
    rw [Keyed.find_modify Prod.fst (f := fun e => (e.1, v)) (fun _ => rfl) k l]
    split
    case isTrue hl =>
      subst hl
      obtain ⟨e, he, hek⟩ := List.mem_map.mp hk
      cases hf : es.find? (fun e => e.1 = l) with
      | none => simpa [hek] using List.find?_eq_none.mp hf e he
      | some e => rfl
    · rfl
  case isFalse hk =>
    rw [List.find?_append]
    split
    case isTrue hl =>
      subst hl
      have hn : es.find? (fun e => e.1 = l) = none := by
        rw [List.find?_eq_none]
        intro e he
        rw [decide_eq_true_eq]
        rintro rfl
        exact hk (List.mem_map_of_mem he)
      simp [hn]
    case isFalse hl =>
      have hs : [(k, v)].find? (fun e => e.1 = l) = none := by simp [Ne.symm hl]
      rw [hs, Option.or_none]

theorem find_erase (t : Table) (k l : Val) (h : l ≠ k) :
    (t.erase k).entries.find? (fun e => e.1 = l) = t.entries.find? fun e => e.1 = l := by
  rw [erase, List.find?_filter]
  congr 1
  funext e
  by_cases he : e.1 = l
  · simp [he, h]
  · simp [he]

theorem get_put_self (t : Table) {k : Val} (v : Val) (hk : k ≠ .nil) : (t.put k v).get k = v := by
  by_cases hv : v = .nil
  · rw [put, dif_pos (.inr hv), hv, get_eq_nil]
    simp [keys, erase]
  · rw [get, entries_put hk hv, find_assign]
    simp

theorem get_put_ne (t : Table) {k l : Val} (v : Val) (h : l ≠ k) :
    (t.put k v).get l = t.get l := by
  by_cases hv : k = .nil ∨ v = .nil
  · rw [put, dif_pos hv, get, find_erase t k l h, get]
  · obtain ⟨hk, hv⟩ := not_or.mp hv
    rw [get, entries_put hk hv, find_assign, if_neg h, get]

@[simp] theorem get_nil (t : Table) : t.get .nil = .nil := by
  rw [get_eq_nil]
  intro h
  obtain ⟨e, he, hk⟩ := List.mem_map.mp h
  exact (t.full e he).1 hk

end Table

/-! ## The heap -/

abbrev Heap := List Table

/-- `v[k]`; `none` is an error. The methods are those of strings. -/
def index (methods : Val → Val) (h : Heap) (v k : Val) : Option Val :=
  match v with
  | .tbl a => h[a]?.map fun t => t.get k
  | .str _ => some (methods k)
  | _ => none

/-- `v[k] = x`; `none` is an error. -/
def newindex (h : Heap) (v k x : Val) : Option Heap :=
  match v with
  | .tbl a => if k = .nil then none else h[a]?.map fun t => h.set a (t.put k x)
  | _ => none

theorem newindex_eq_some {h h' : Heap} {v k x : Val} :
    newindex h v k x = some h' ↔
      ∃ a t, v = .tbl a ∧ k ≠ .nil ∧ h[a]? = some t ∧ h' = h.set a (t.put k x) := by
  cases v with
  | tbl a =>
      simp only [newindex]
      split
      case isTrue hk => simp [hk]
      case isFalse hk =>
        simp only [Option.map_eq_some_iff, Val.tbl.injEq]
        constructor
        · rintro ⟨t, ht, rfl⟩
          exact ⟨a, t, rfl, hk, ht, rfl⟩
        · rintro ⟨_, t, rfl, _, ht, rfl⟩
          exact ⟨t, ht, rfl⟩
  | _ => simp [newindex]

/-! ## The data of a reference -/

mutual

/-- A reference stands for a tree of data. -/
def Reads (h : Heap) : Value → Val → Prop
  | .int i, x => x = .int i
  | .str s, x => x = .str s
  | .bool b, x => x = .bool b
  | .table fs, x => ∃ a t, x = .tbl a ∧ h[a]? = some t ∧ ReadsFields h fs t.entries

def ReadsFields (h : Heap) : Fields → List (Val × Val) → Prop
  | .nil, es => es = []
  | .cons k v fs, es =>
      ∃ x es', es = (k.val, x) :: es' ∧ Reads h v x ∧ ReadsFields h fs es'

end

theorem Reads.ne_nil {h : Heap} {v : Value} {x : Val} (hr : Reads h v x) : x ≠ .nil := by
  cases v with
  | table fs =>
      obtain ⟨a, t, rfl, -⟩ := hr
      simp
  | _ =>
      cases hr
      simp

/-- The tables that can be reached from a reference. -/
inductive Reach (h : Heap) (x : Val) : ℕ → Prop
  | root {a : ℕ} (hx : x = .tbl a) : Reach h x a
  | field {a b : ℕ} {t : Table} {k : Val} (hr : Reach h x a) (ht : h[a]? = some t)
      (he : (k, .tbl b) ∈ t.entries) : Reach h x b

/-- In a heap without loose references, only tables of the heap are reached. -/
theorem Reach.lt_length {h : Heap} {a b : ℕ} (hr : Reach h (.tbl b) a) (hb : b < h.length)
    (hh : ∀ t ∈ h, ∀ e ∈ t.entries, ∀ c ∈ e.2.address?, c < h.length) : a < h.length := by
  induction hr with
  | root hx =>
      cases hx
      exact hb
  | field _ ht he _ => exact hh _ (List.mem_of_getElem? ht) _ he _ rfl

theorem Reach.of_field {h : Heap} {a b : ℕ} {t : Table} {e : Val × Val} (ht : h[a]? = some t)
    (he : e ∈ t.entries) (hr : Reach h e.2 b) : Reach h (.tbl a) b := by
  induction hr with
  | root hx =>
      apply Reach.field (.root rfl) ht (k := e.1)
      rw [← hx]
      exact he
  | field _ ht' he' ih => exact ih.field ht' he'

mutual

theorem Reads.frame {h h' : Heap} : ∀ {v : Value} {x : Val}, Reads h v x →
    (∀ a t, Reach h x a → h[a]? = some t → h'[a]? = some t) → Reads h' v x
  | .int _, _, hr, _ => hr
  | .str _, _, hr, _ => hr
  | .bool _, _, hr, _ => hr
  | .table _, _, hr, hf => by
      obtain ⟨a, t, rfl, ht, hfs⟩ := hr
      refine ⟨a, t, rfl, hf a t (.root rfl) ht, hfs.frame ?_⟩
      intro e he b u hb
      exact hf b u (.of_field ht he hb)

theorem ReadsFields.frame {h h' : Heap} : ∀ {fs : Fields} {es : List (Val × Val)},
    ReadsFields h fs es →
      (∀ e ∈ es, ∀ a t, Reach h e.2 a → h[a]? = some t → h'[a]? = some t) → ReadsFields h' fs es
  | .nil, _, hr, _ => hr
  | .cons _ _ _, _, hr, hf => by
      obtain ⟨x, es, rfl, hx, hes⟩ := hr
      refine ⟨x, es, rfl, hx.frame ?_, hes.frame ?_⟩
      · exact hf _ List.mem_cons_self
      · intro e he
        exact hf e (List.mem_cons_of_mem _ he)

end

theorem Reads.mono {h h' : Heap} {v : Value} {x : Val} (hr : Reads h v x) (hh : h <+: h') :
    Reads h' v x := by
  apply hr.frame
  intro a t _ ht
  obtain ⟨r, rfl⟩ := hh
  obtain ⟨ha, -⟩ := List.getElem?_eq_some_iff.mp ht
  rw [List.getElem?_append_left ha]
  exact ht

theorem Reads.set {h : Heap} {v : Value} {x : Val} {a : ℕ} (t : Table) (hr : Reads h v x)
    (ha : ¬Reach h x a) : Reads (h.set a t) v x := by
  apply hr.frame
  intro b u hb hu
  rw [List.getElem?_set_ne]
  · exact hu
  · rintro rfl
    exact ha hb

theorem ReadsFields.mono {h h' : Heap} {fs : Fields} {es : List (Val × Val)}
    (hr : ReadsFields h fs es) (hh : h <+: h') : ReadsFields h' fs es := by
  induction es generalizing fs with
  | nil =>
      cases fs with
      | nil => rfl
      | cons k v fs =>
          obtain ⟨x, es, he, -⟩ := hr
          cases he
  | cons e es ih =>
      cases fs with
      | nil => cases hr
      | cons k v fs =>
          obtain ⟨x, es', he, hx, hes⟩ := hr
          cases he
          exact ⟨x, es, rfl, hx.mono hh, ih hes⟩

def Fields.keys : Fields → List Key
  | .nil => []
  | .cons k _ fs => k :: fs.keys

/-- The value of a field. -/
def Fields.lookup (k : Key) : Fields → Option Value
  | .nil => none
  | .cons l v fs => if l = k then some v else fs.lookup k

theorem ReadsFields.lookup {h : Heap} {fs : Fields} {es : List (Val × Val)} {k : Key} {v : Value}
    (hr : ReadsFields h fs es) (hk : fs.lookup k = some v) :
    ∃ x, (k.val, x) ∈ es ∧ Reads h v x := by
  induction es generalizing fs with
  | nil =>
      cases fs with
      | nil => cases hk
      | cons l w fs =>
          obtain ⟨x, es, he, -⟩ := hr
          cases he
  | cons e es ih =>
      cases fs with
      | nil => cases hk
      | cons l w fs =>
          obtain ⟨x, es', he, hx, hes⟩ := hr
          cases he
          rw [Fields.lookup] at hk
          split at hk
          case isTrue hl =>
            cases hk
            subst hl
            exact ⟨x, List.mem_cons_self, hx⟩
          case isFalse =>
            obtain ⟨y, hy, hry⟩ := ih hes hk
            exact ⟨y, List.mem_cons_of_mem _ hy, hry⟩

theorem ReadsFields.map_fst {h : Heap} {fs : Fields} {es : List (Val × Val)}
    (hr : ReadsFields h fs es) : es.map Prod.fst = fs.keys.map Key.val := by
  induction es generalizing fs with
  | nil =>
      cases fs with
      | nil => rfl
      | cons k v fs =>
          obtain ⟨x, es, he, -⟩ := hr
          cases he
  | cons e es ih =>
      cases fs with
      | nil => cases hr
      | cons k v fs =>
          obtain ⟨x, es', he, -, hes⟩ := hr
          cases he
          rw [List.map_cons, Fields.keys, List.map_cons, ih hes]

/-- Where no key stands twice, every entry is the field that is looked up. -/
theorem ReadsFields.lookup_of_mem {h : Heap} {fs : Fields} {es : List (Val × Val)} {k x : Val}
    (hr : ReadsFields h fs es) (hn : (es.map Prod.fst).Nodup) (hx : (k, x) ∈ es) :
    ∃ l v, k = Key.val l ∧ fs.lookup l = some v ∧ Reads h v x := by
  induction es generalizing fs with
  | nil => cases hx
  | cons e es ih =>
      cases fs with
      | nil => cases hr
      | cons l w fs =>
          obtain ⟨y, es', he, hy, hes⟩ := hr
          cases he
          rw [List.map_cons, List.nodup_cons] at hn
          obtain hx | hx := List.mem_cons.mp hx
          · cases hx
            exact ⟨l, w, rfl, by simp [Fields.lookup], hy⟩
          · obtain ⟨m, v, rfl, hm, hv⟩ := ih hes hn.2 hx
            refine ⟨m, v, rfl, ?_, hv⟩
            rw [Fields.lookup, if_neg]
            · exact hm
            · rintro rfl
              have hm : l.val ∈ es.map Prod.fst := List.mem_map_of_mem (f := Prod.fst) hx
              exact hn.1 hm

theorem ReadsFields.lookup_eq_none {h : Heap} {fs : Fields} {es : List (Val × Val)} {k : Key}
    (hr : ReadsFields h fs es) (hk : k.val ∉ es.map Prod.fst) : fs.lookup k = none := by
  cases hv : fs.lookup k with
  | none => rfl
  | some v =>
      obtain ⟨x, hx, -⟩ := hr.lookup hv
      exact absurd (List.mem_map_of_mem (f := Prod.fst) hx) hk

mutual

/-- No table has two fields with one key. -/
def Value.Proper : Value → Prop
  | .table fs => fs.Proper
  | _ => True

def Fields.Proper : Fields → Prop
  | .nil => True
  | .cons k v fs => k ∉ fs.keys ∧ v.Proper ∧ fs.Proper

end

mutual

theorem Reads.proper {h : Heap} : ∀ {v : Value} {x : Val}, Reads h v x → v.Proper
  | .int _, _, _ => trivial
  | .str _, _, _ => trivial
  | .bool _, _, _ => trivial
  | .table _, _, hr => by
      obtain ⟨a, t, -, -, hfs⟩ := hr
      exact hfs.proper t.nodup

theorem ReadsFields.proper {h : Heap} : ∀ {fs : Fields} {es : List (Val × Val)},
    ReadsFields h fs es → (es.map Prod.fst).Nodup → fs.Proper
  | .nil, _, _, _ => trivial
  | .cons k _ _, _, hr, hn => by
      obtain ⟨x, es, rfl, hx, hes⟩ := hr
      rw [List.map_cons, List.nodup_cons, hes.map_fst] at hn
      refine ⟨?_, hx.proper, hes.proper ?_⟩
      · intro hk
        exact hn.1 (List.mem_map_of_mem hk)
      · rw [hes.map_fst]
        exact hn.2

end

/-! ## Data -/

def Val.isKey : Val → Bool
  | .int _ => true
  | .str _ => true
  | _ => false

theorem Key.isKey_val (k : Key) : k.val.isKey := by cases k <;> rfl

/-- A reference stands for some tree of data. -/
inductive Data (h : Heap) : Val → Prop
  | int (i : Int32) : Data h (.int i)
  | str (s : LuaString) : Data h (.str s)
  | bool (b : Bool) : Data h (.bool b)
  | tbl {a : ℕ} {t : Table} (ht : h[a]? = some t) (hk : ∀ e ∈ t.entries, e.1.isKey)
      (hv : ∀ e ∈ t.entries, Data h e.2) : Data h (.tbl a)

theorem Data.ne_nil {h : Heap} {x : Val} (hx : Data h x) : x ≠ .nil := by
  cases hx <;> simp

mutual

theorem Reads.data {h : Heap} : ∀ {v : Value} {x : Val}, Reads h v x → Data h x
  | .int i, _, hr => hr ▸ .int i
  | .str s, _, hr => hr ▸ .str s
  | .bool b, _, hr => hr ▸ .bool b
  | .table _, _, hr => by
      obtain ⟨a, t, rfl, ht, hfs⟩ := hr
      exact .tbl ht (fun e he => (hfs.data e he).1) fun e he => (hfs.data e he).2

theorem ReadsFields.data {h : Heap} : ∀ {fs : Fields} {es : List (Val × Val)},
    ReadsFields h fs es → ∀ e ∈ es, e.1.isKey ∧ Data h e.2
  | .nil, _, hr => by
      obtain rfl := hr
      simp
  | .cons k _ _, _, hr => by
      obtain ⟨x, es, rfl, hx, hes⟩ := hr
      intro e he
      obtain rfl | he := List.mem_cons.mp he
      · exact ⟨by cases k <;> rfl, hx.data⟩
      · exact hes.data e he

end

theorem Reach.address {h : Heap} {x : Val} {a : ℕ} (hr : Reach h x a) : x.address?.isSome := by
  induction hr with
  | root hx => rw [hx]; rfl
  | field _ _ _ ih => exact ih

theorem Reach.tbl_cases {h : Heap} {a b : ℕ} (hr : Reach h (.tbl b) a) :
    a = b ∨ ∃ t, h[b]? = some t ∧ ∃ e ∈ t.entries, Reach h e.2 a := by
  induction hr with
  | root hx =>
      cases hx
      exact .inl rfl
  | field _ ht he ih =>
      obtain rfl | ⟨u, hu, e, he', hr'⟩ := ih
      · exact .inr ⟨_, ht, _, he, .root rfl⟩
      · exact .inr ⟨u, hu, e, he', hr'.field ht he⟩

/-- No data is inside itself: a table is not reached from one of its fields. -/
theorem Data.not_reach {h : Heap} {x : Val} (hx : Data h x) {a : ℕ} {t : Table} {k : Val}
    (ht : h[a]? = some t) (he : (k, x) ∈ t.entries) : ¬Reach h x a := by
  induction hx generalizing a t k with
  | tbl hb _ _ ih =>
      intro hr
      obtain rfl | ⟨u, hu, e, heu, hr'⟩ := hr.tbl_cases
      · rw [hb] at ht
        cases ht
        exact ih _ he hb he (.root rfl)
      · rw [hb] at hu
        cases hu
        exact ih e heu hb heu (hr'.field ht he)
  | _ =>
      intro hr
      simpa [Val.address?] using hr.address

theorem Data.frame {h h' : Heap} {x : Val} (hx : Data h x)
    (hf : ∀ a t, Reach h x a → h[a]? = some t → h'[a]? = some t) : Data h' x := by
  induction hx with
  | tbl ht hk _ ih =>
      refine .tbl (hf _ _ (.root rfl) ht) hk ?_
      intro e he
      exact ih e he fun b u hb => hf b u (.of_field ht he hb)
  | int i => exact .int i
  | str s => exact .str s
  | bool b => exact .bool b

/-- What is reached from data is data. -/
theorem Data.reach {h : Heap} {x : Val} {a : ℕ} (hx : Data h x) (hr : Reach h x a) :
    Data h (.tbl a) := by
  induction hr with
  | root hroot =>
      subst hroot
      exact hx
  | field _ ht he ih =>
      cases ih with
      | tbl ht' _ hv =>
          rw [ht] at ht'
          cases ht'
          exact hv _ he

/-- In a heap that differs in other tables only, data reaches the same tables. -/
theorem Data.reach_of_frame {h h' : Heap} {x : Val} {b : ℕ} (hx : Data h x)
    (hf : ∀ a t, Reach h x a → h[a]? = some t → h'[a]? = some t) (hr : Reach h' x b) :
    Reach h x b := by
  induction hr with
  | root hroot => exact .root hroot
  | field _ ht he ih =>
      cases hx.reach ih with
      | tbl hu _ _ =>
          have hsame := hf _ _ ih hu
          rw [ht] at hsame
          cases hsame
          exact ih.field hu he

theorem Table.mem_put {t : Table} {k v : Val} {e : Val × Val} (h : e ∈ (t.put k v).entries) :
    e ∈ t.entries ∨ e.2 = v ∧ (e.1 ∈ t.keys ∨ e.1 = k) := by
  by_cases hv : k = .nil ∨ v = .nil
  · rw [put, dif_pos hv] at h
    exact .inl (List.mem_of_mem_filter h)
  · obtain ⟨hk, hv⟩ := not_or.mp hv
    rw [entries_put hk hv] at h
    exact mem_assign h

/-- Data stays data when a field of one of its tables is set or deleted. -/
theorem Data.write {h : Heap} {x k v : Val} {q : ℕ} {u : Table} (hx : Data h x)
    (hu : h[q]? = some u) (hk : k.isKey) (hv : v = .nil ∨ Data (h.set q (u.put k v)) v) :
    Data (h.set q (u.put k v)) x := by
  obtain ⟨hq, -⟩ := List.getElem?_eq_some_iff.mp hu
  induction hx with
  | @tbl b t ht hkeys _ ih =>
      by_cases hb : b = q
      · subst hb
        rw [hu] at ht
        cases ht
        refine .tbl (t := u.put k v) (by simp [hq]) ?_ ?_
        · intro e he
          obtain he | ⟨-, he | he⟩ := Table.mem_put he
          · exact hkeys e he
          · obtain ⟨e', he', hee⟩ := List.mem_map.mp he
            exact hee ▸ hkeys e' he'
          · exact he ▸ hk
        · intro e he
          have hn : e.2 ≠ .nil := ((u.put k v).full e he).2
          obtain he | ⟨he, -⟩ := Table.mem_put he
          · exact ih e he
          · rw [he] at hn ⊢
            exact hv.resolve_left hn
      · refine .tbl (t := t) ?_ hkeys ih
        rw [List.getElem?_set_ne (Ne.symm hb)]
        exact ht
  | int i => exact .int i
  | str s => exact .str s
  | bool b => exact .bool b

/-- After a field is set, only what the value reaches can be reached besides. -/
theorem Reach.of_put {h : Heap} {x k v : Val} {q b : ℕ} {u : Table} (hu : h[q]? = some u)
    (hr : Reach (h.set q (u.put k v)) x b) : Reach h x b ∨ Reach h v b := by
  obtain ⟨hq, -⟩ := List.getElem?_eq_some_iff.mp hu
  induction hr with
  | root hroot => exact .inl (.root hroot)
  | @field a c t l _ ht he ih =>
      by_cases ha : q = a
      · subst ha
        rw [List.getElem?_set_self hq] at ht
        cases ht
        obtain he | ⟨he, -⟩ := Table.mem_put he
        · exact ih.imp (fun hr => hr.field hu he) fun hr => hr.field hu he
        · exact .inr (.root he.symm)
      · rw [List.getElem?_set_ne ha] at ht
        exact ih.imp (fun hr => hr.field ht he) fun hr => hr.field ht he

/-! ## Making the tables of a tree of data -/

mutual

def alloc : Value → Heap → Heap × Val
  | .int i, h => (h, .int i)
  | .str s, h => (h, .str s)
  | .bool b, h => (h, .bool b)
  | .table fs, h =>
      let r := allocFields fs h .empty
      (r.1 ++ [r.2], .tbl r.1.length)

/-- Put the fields into a table, one after the other. -/
def allocFields : Fields → Heap → Table → Heap × Table
  | .nil, h, t => (h, t)
  | .cons k v fs, h, t =>
      let r := alloc v h
      allocFields fs r.1 (t.put k.val r.2)

end

theorem alloc_ne_nil (v : Value) (h : Heap) : (alloc v h).2 ≠ .nil := by
  cases v <;> simp [alloc]

mutual

theorem alloc_extends : ∀ (v : Value) (h : Heap), h <+: (alloc v h).1
  | .int _, _ => List.prefix_rfl
  | .str _, _ => List.prefix_rfl
  | .bool _, _ => List.prefix_rfl
  | .table fs, h => (allocFields_extends fs h .empty).trans (List.prefix_append _ _)

theorem allocFields_extends : ∀ (fs : Fields) (h : Heap) (t : Table), h <+: (allocFields fs h t).1
  | .nil, _, _ => List.prefix_rfl
  | .cons _ v fs, h, _ => (alloc_extends v h).trans (allocFields_extends fs _ _)

end

/-- The tables that are made do not depend on the one that the fields are put into. -/
theorem allocFields_heap (fs : Fields) (h : Heap) (t u : Table) :
    (allocFields fs h t).1 = (allocFields fs h u).1 := by
  induction fs using Fields.rec (motive_1 := fun _ => True) generalizing h t u with
  | nil => rfl
  | cons k v fs _ ih => exact ih _ _ _
  | _ => trivial

mutual

theorem alloc_reads : ∀ {v : Value} (h : Heap), v.Proper → Reads (alloc v h).1 v (alloc v h).2
  | .int _, _, _ => rfl
  | .str _, _, _ => rfl
  | .bool _, _, _ => rfl
  | .table fs, h, hv => by
      obtain ⟨es, he, hr⟩ := allocFields_reads (t := .empty) h hv (by simp [Table.keys, Table.empty])
      refine ⟨_, (allocFields fs h .empty).2, rfl, by simp [alloc], ?_⟩
      rw [he]
      exact hr.mono (List.prefix_append _ _)

theorem allocFields_reads : ∀ {fs : Fields} {t : Table} (h : Heap), fs.Proper →
    (∀ k ∈ fs.keys, k.val ∉ t.keys) → ∃ es, (allocFields fs h t).2.entries = t.entries ++ es ∧
      ReadsFields (allocFields fs h t).1 fs es
  | .nil, _, _, _, _ => ⟨[], (List.append_nil _).symm, rfl⟩
  | .cons k v fs, t, h, hp, ht => by
      have hk : k.val ∉ t.entries.map Prod.fst := ht k List.mem_cons_self
      have hput : (t.put k.val (alloc v h).2).entries = t.entries ++ [(k.val, (alloc v h).2)] := by
        rw [Table.entries_put k.val_ne_nil (alloc_ne_nil v h), Table.assign, if_neg hk]
      have hfs : ∀ l ∈ fs.keys, l.val ∉ (t.put k.val (alloc v h).2).keys := by
        intro l hl
        rw [Table.keys, hput, List.map_append, List.mem_append]
        rintro (hm | hm)
        · exact ht l (List.mem_cons_of_mem _ hl) hm
        · rw [List.map_singleton, List.mem_singleton] at hm
          rw [Key.val_injective hm] at hl
          exact hp.1 hl
      obtain ⟨es, he, hr⟩ := allocFields_reads (alloc v h).1 hp.2.2 hfs
      refine ⟨(k.val, (alloc v h).2) :: es, ?_, ?_⟩
      · rw [allocFields, he, hput, List.append_assoc]
        rfl
      · exact ⟨_, es, rfl, (alloc_reads h hp.2.1).mono (allocFields_extends fs _ _), hr⟩

end

end LuatAir200.Lua
