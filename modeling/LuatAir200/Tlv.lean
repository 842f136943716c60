import Mathlib.Algebra.Ring.Nat
import Mathlib.Data.List.Basic

/-!
# Items of type, length and value

A buffer holds items of a type byte, a length byte and that many bytes. A loop reads them one
after the other until an item ends it, without being told how long the buffer is; positions
have 32 bits. Whether it stays within the buffer depends on the bytes only.
-/
namespace LuatAir200.Tlv

variable {σ ε : Type*}

/-! ## Reads -/

def u32 (n : ℕ) : ℕ := n % 2 ^ 32

theorem u32_eq {n : ℕ} (h : n < 2 ^ 32) : u32 n = n := Nat.mod_eq_of_lt h

/-- `none` is a read beyond the end. -/
def byte (d : List UInt8) (i : ℕ) : Option UInt8 := d[u32 i]?

def bytes (d : List UInt8) : ℕ → ℕ → Option (List UInt8)
  | _, 0 => some []
  | i, n + 1 => (byte d i).bind fun b => (bytes d (i + 1) n).map (b :: ·)

theorem byte_eq_some_iff {d : List UInt8} (hd : d.length < 2 ^ 32) {i : ℕ} (hi : i ≤ d.length)
    {b : UInt8} : byte d i = some b ↔ ∃ l, d.drop i = b :: l := by
  rw [byte, u32_eq (Nat.lt_of_le_of_lt hi hd)]
  constructor
  · intro h
    obtain ⟨hlt, rfl⟩ := List.getElem?_eq_some_iff.mp h
    exact ⟨d.drop (i + 1), (List.getElem_cons_drop hlt).symm⟩
  · rintro ⟨l, hl⟩
    have h : (d.drop i)[0]? = d[i + 0]? := List.getElem?_drop
    rw [hl] at h
    exact h.symm

/-- A prefix of the rest is as long as its end tells. -/
theorem drop_add {d l r : List UInt8} {i : ℕ} (h : d.drop i = l ++ r) :
    d.drop (i + l.length) = r := by
  rw [← List.drop_drop, h, List.drop_left]

theorem add_le {d l r : List UInt8} {i : ℕ} (hi : i ≤ d.length) (h : d.drop i = l ++ r) :
    i + l.length ≤ d.length := by
  have hl := congrArg List.length h
  rw [List.length_drop, List.length_append] at hl
  omega

theorem bytes_eq_some_iff {d : List UInt8} (hd : d.length < 2 ^ 32) {i n : ℕ} (hi : i ≤ d.length)
    {v : List UInt8} : bytes d i n = some v ↔ v.length = n ∧ ∃ l, d.drop i = v ++ l := by
  induction n generalizing i v with
  | zero =>
      rw [bytes, Option.some_inj]
      constructor
      · rintro rfl
        exact ⟨rfl, d.drop i, rfl⟩
      · rintro ⟨hv, -⟩
        exact (List.length_eq_zero_iff.mp hv).symm
  | succ n ih =>
      rw [bytes, Option.bind_eq_some_iff]
      constructor
      · rintro ⟨b, hb, hv⟩
        obtain ⟨w, hw, rfl⟩ := Option.map_eq_some_iff.mp hv
        obtain ⟨l, hl⟩ := (byte_eq_some_iff hd hi).mp hb
        have hnext : i + 1 ≤ d.length := add_le (l := [b]) hi hl
        obtain ⟨hlen, m, hm⟩ := (ih hnext).mp hw
        have hdrop : d.drop (i + 1) = _ := drop_add (l := [b]) hl
        exact ⟨congrArg (· + 1) hlen, m, by rw [hl, ← hdrop]; exact congrArg (b :: ·) hm⟩
      · rintro ⟨hv, l, hl⟩
        cases v with
        | nil => cases hv
        | cons b w =>
            have hnext : i + 1 ≤ d.length := add_le (l := [b]) hi hl
            have hdrop : d.drop (i + 1) = _ := drop_add (l := [b]) hl
            refine ⟨b, (byte_eq_some_iff hd hi).mpr ⟨w ++ l, hl⟩, ?_⟩
            rw [(ih hnext).mpr ⟨Nat.succ.inj hv, l, hdrop⟩]
            rfl

/-! ## Items -/

/-- What a loop does with an item: how many bytes it reads of the value, whatever the length
says, what it makes of them, whether it takes the item for an error, and which items end it. -/
structure Kind (σ ε : Type*) where
  need : σ → UInt8 → ℕ → ℕ
  put : σ → UInt8 → List UInt8 → σ
  err : σ → UInt8 → ℕ → Option ε
  last : UInt8 → Bool
  exact : ∀ {s t n}, err s t n = none → need s t n = n

/-- The loop from a position on, in at most so many rounds. -/
def scan (d : List UInt8) (field : σ → UInt8 → ℕ → ℕ → Option (σ × Option ε × Bool)) :
    ℕ → ℕ → σ → Option (σ × Option ε × ℕ)
  | 0, _, _ => none
  | fuel + 1, pos, s =>
      (byte d pos).bind fun type =>
      (byte d (pos + 1)).bind fun length =>
      (field s type length.toNat (u32 (pos + 2))).bind fun (s, err, loop) =>
        let pos := u32 (pos + 2 + length.toNat)
        if loop ∧ err.isNone then scan d field fuel pos s else some (s, err, pos)

/-- The loop has read an item that ends it, or one in error. -/
inductive Result (σ ε : Type*)
  | sealed (s : σ) (rest : List UInt8)
  | failed (e : ε)

/-- The items that the bytes begin with, up to one that ends the loop or is in error. -/
inductive Walk (K : Kind σ ε) : σ → List UInt8 → Result σ ε → Prop
  | item {s : σ} {t n : UInt8} {v l : List UInt8} {r : Result σ ε} (hl : K.last t = false)
      (he : K.err s t n.toNat = none) (hv : v.length = n.toNat) (hw : Walk K (K.put s t v) l r) :
      Walk K s (t :: n :: (v ++ l)) r
  | stop {s : σ} {t n : UInt8} {v l : List UInt8} {e : ε} (he : K.err s t n.toNat = some e)
      (hv : v.length = K.need s t n.toNat) : Walk K s (t :: n :: (v ++ l)) (.failed e)
  | last {s : σ} {t n : UInt8} {v l : List UInt8} (hl : K.last t = true)
      (he : K.err s t n.toNat = none) (hv : v.length = n.toNat) :
      Walk K s (t :: n :: (v ++ l)) (.sealed (K.put s t v) l)

theorem Walk.length_le {K : Kind σ ε} {s : σ} {l : List UInt8} {r : Result σ ε}
    (h : Walk K s l r) {s' : σ} {rest : List UInt8} (hr : r = .sealed s' rest) :
    rest.length ≤ l.length := by
  induction h with
  | item hl he hv hw ih =>
      have := ih hr
      simp only [List.length_cons, List.length_append]
      omega
  | stop he hv => cases hr
  | last hl he hv =>
      cases hr
      simp only [List.length_cons, List.length_append]
      omega

/-- What the loop returns; after an error the position means nothing. -/
def Result.Is (d : List UInt8) : Result σ ε → σ × Option ε × ℕ → Prop
  | .sealed s rest, x => x.1 = s ∧ x.2.1 = none ∧ d.drop x.2.2 = rest ∧ x.2.2 ≤ d.length
  | .failed e, x => x.2.1 = some e

/-- The loop's body reads what the kind needs. -/
def Reads (K : Kind σ ε) (d : List UInt8)
    (field : σ → UInt8 → ℕ → ℕ → Option (σ × Option ε × Bool)) : Prop :=
  ∀ s t n pos, field s t n pos =
    (bytes d pos (K.need s t n)).map fun v => (K.put s t v, K.err s t n, !K.last t)

variable {K : Kind σ ε} {d : List UInt8}
  {field : σ → UInt8 → ℕ → ℕ → Option (σ × Option ε × Bool)}

/-- One round, with its item in front of it. -/
theorem scan_item (hf : Reads K d field) (hd : d.length < 2 ^ 32) {fuel pos : ℕ} {s : σ}
    {t n : UInt8} {v l : List UInt8} (hpos : pos ≤ d.length)
    (hl : d.drop pos = t :: n :: (v ++ l)) (hv : v.length = K.need s t n.toNat) :
    scan d field (fuel + 1) pos s =
      if K.last t = false ∧ K.err s t n.toNat = none then
        scan d field fuel (u32 (pos + 2 + n.toNat)) (K.put s t v)
      else some (K.put s t v, K.err s t n.toNat, u32 (pos + 2 + n.toNat)) := by
  have ht : byte d pos = some t := (byte_eq_some_iff hd hpos).mpr ⟨_, hl⟩
  have hpos₁ : pos + 1 ≤ d.length := add_le (l := [t]) hpos hl
  have hdrop₁ := drop_add (l := [t]) hl
  have hn : byte d (pos + 1) = some n := (byte_eq_some_iff hd hpos₁).mpr ⟨_, hdrop₁⟩
  have hpos₂ : pos + 2 ≤ d.length := add_le (l := [t, n]) hpos hl
  have hdrop₂ := drop_add (l := [t, n]) hl
  have hw : u32 (pos + 2) = pos + 2 := u32_eq (Nat.lt_of_le_of_lt hpos₂ hd)
  have hb : bytes d (pos + 2) (K.need s t n.toNat) = some v :=
    (bytes_eq_some_iff hd hpos₂).mpr ⟨hv, l, hdrop₂⟩
  rw [scan, ht, Option.bind_some, hn, Option.bind_some, hf, hw, hb]
  simp

/-- An item that the loop takes leaves it in front of the next one. -/
theorem next_pos (hd : d.length < 2 ^ 32) {pos : ℕ} {t n : UInt8} {v l : List UInt8}
    (hpos : pos ≤ d.length) (hl : d.drop pos = t :: n :: (v ++ l)) (hv : v.length = n.toNat) :
    u32 (pos + 2 + n.toNat) = pos + 2 + n.toNat ∧ pos + 2 + n.toNat ≤ d.length ∧
      d.drop (pos + 2 + n.toNat) = l := by
  have hle := add_le (l := t :: n :: v) hpos hl
  have hdrop := drop_add (l := t :: n :: v) hl
  have hlen : pos + (t :: n :: v).length = pos + 2 + n.toNat := by
    rw [List.length_cons, List.length_cons, hv]
    omega
  rw [hlen] at hle hdrop
  exact ⟨u32_eq (Nat.lt_of_le_of_lt hle hd), hle, hdrop⟩

/-- On bytes that begin with such items the loop stays within them. -/
theorem scan_of_walk (hf : Reads K d field) (hd : d.length < 2 ^ 32) {s : σ} {l : List UInt8}
    {r : Result σ ε} (hw : Walk K s l r) {fuel pos : ℕ} (hpos : pos ≤ d.length)
    (hl : d.drop pos = l) (hfuel : d.length < fuel + pos) :
    ∃ x, scan d field fuel pos s = some x ∧ r.Is d x := by
  induction hw generalizing fuel pos with
  | @item s t n v l r hlast he hv _ ih =>
      obtain ⟨hu, hle, hdrop⟩ := next_pos hd hpos hl hv
      cases fuel with
      | zero => omega
      | succ fuel =>
          rw [scan_item hf hd hpos hl (hv.trans (K.exact he).symm), if_pos ⟨hlast, he⟩, hu]
          exact ih hle hdrop (by omega)
  | @stop s t n v l e he hv =>
      cases fuel with
      | zero =>
          have := add_le (l := t :: n :: v) hpos hl
          rw [List.length_cons] at this
          omega
      | succ fuel =>
          have hne : ¬ (K.last t = false ∧ K.err s t n.toNat = none) := by simp [he]
          rw [scan_item hf hd hpos hl hv, if_neg hne]
          exact ⟨_, rfl, he⟩
  | @last s t n v l hlast he hv =>
      obtain ⟨hu, hle, hdrop⟩ := next_pos hd hpos hl hv
      cases fuel with
      | zero => omega
      | succ fuel =>
          have hne : ¬ (K.last t = false ∧ K.err s t n.toNat = none) := by simp [hlast]
          rw [scan_item hf hd hpos hl (hv.trans (K.exact he).symm), if_neg hne, hu]
          exact ⟨_, rfl, rfl, he, hdrop, hle⟩

/-- A loop that stays within the buffer has found such items. -/
theorem walk_of_scan (hf : Reads K d field) (hd : d.length < 2 ^ 32) {fuel pos : ℕ} {s : σ}
    {x : σ × Option ε × ℕ} (hpos : pos ≤ d.length) (h : scan d field fuel pos s = some x) :
    ∃ r, Walk K s (d.drop pos) r ∧ r.Is d x := by
  induction fuel generalizing pos s with
  | zero => cases h
  | succ fuel ih =>
      have hs := h
      rw [scan] at h
      obtain ⟨t, ht, h⟩ := Option.bind_eq_some_iff.mp h
      obtain ⟨n, hn, h⟩ := Option.bind_eq_some_iff.mp h
      obtain ⟨m, hm⟩ := (byte_eq_some_iff hd hpos).mp ht
      have hpos₁ : pos + 1 ≤ d.length := add_le (l := [t]) hpos hm
      obtain ⟨m', hm'⟩ := (byte_eq_some_iff hd hpos₁).mp hn
      have hm₁ := drop_add (l := [t]) hm
      obtain rfl : m = n :: m' := hm₁.symm.trans hm'
      have hpos₂ : pos + 2 ≤ d.length := add_le (l := [t, n]) hpos hm
      have hdrop₂ := drop_add (l := [t, n]) hm
      rw [hf, u32_eq (Nat.lt_of_le_of_lt hpos₂ hd)] at h
      obtain ⟨y, hy, -⟩ := Option.bind_eq_some_iff.mp h
      obtain ⟨v, hv, -⟩ := Option.map_eq_some_iff.mp hy
      obtain ⟨hv, l, hl⟩ := (bytes_eq_some_iff hd hpos₂).mp hv
      obtain rfl : m' = v ++ l := hdrop₂.symm.trans hl
      rw [scan_item hf hd hpos hm hv] at hs
      rw [hm]
      cases he : K.err s t n.toNat with
      | some e =>
          rw [he, if_neg (by simp)] at hs
          obtain rfl := Option.some.inj hs
          exact ⟨_, .stop he hv, rfl⟩
      | none =>
          rw [K.exact he] at hv
          obtain ⟨hu, hle, hdrop⟩ := next_pos hd hpos hm hv
          rw [he, hu] at hs
          cases hlast : K.last t with
          | true =>
              rw [if_neg (by simp [hlast])] at hs
              obtain rfl := Option.some.inj hs
              exact ⟨_, .last hlast he hv, rfl, rfl, hdrop, hle⟩
          | false =>
              rw [if_pos ⟨hlast, rfl⟩] at hs
              obtain ⟨r, hr, hx⟩ := ih hle hs
              rw [hdrop] at hr
              exact ⟨r, .item hlast he hv hr, hx⟩

/-! ## Encoding -/

structure Item where
  type : UInt8
  value : List UInt8
  short : value.length < 256

def Item.encode (i : Item) : List UInt8 := i.type :: UInt8.ofNat i.value.length :: i.value

def encode (items : List Item) : List UInt8 := items.flatMap Item.encode

/-- What the loop makes of the items. -/
def putAll (K : Kind σ ε) (s : σ) (items : List Item) : σ :=
  items.foldl (fun s i => K.put s i.type i.value) s

/-- The loop takes none of the items for an error or for the end. -/
def Takes (K : Kind σ ε) : σ → List Item → Prop
  | _, [] => True
  | s, i :: items => K.last i.type = false ∧ K.err s i.type i.value.length = none ∧
      Takes K (K.put s i.type i.value) items

theorem Item.toNat_length (i : Item) : (UInt8.ofNat i.value.length).toNat = i.value.length :=
  UInt8.toNat_ofNat_of_lt' i.short

theorem Walk.encode {s : σ} {items : List Item} (ht : Takes K s items) {l : List UInt8}
    {r : Result σ ε} (hw : Walk K (putAll K s items) l r) : Walk K s (encode items ++ l) r := by
  induction items generalizing s with
  | nil => exact hw
  | cons i items ih =>
      obtain ⟨hl, he, hrest⟩ := ht
      have hn := i.toNat_length
      have h := ih hrest hw
      rw [Tlv.encode, List.flatMap_cons, List.append_assoc]
      exact .item hl (by rw [hn]; exact he) hn.symm h

end LuatAir200.Tlv
