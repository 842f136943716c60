import Mathlib.Data.List.Basic
import Mathlib.Order.Basic

/-!
# Conversions into bounded buffers

A conversion goes over its input item by item; `next` gives the room that the next item
needs and what it becomes. With a bounded buffer it stops before an item that has no room,
and may be taken up again from there. What it writes in the end does not depend on where it
was interrupted, and whether it is interrupted is a matter of the weight of its input.
-/
namespace LuatAir200.Conversion

variable {σ β : Type*}

/-- The item at a position: none is left, or one that needs room and gives output and the
next position, unless it is malformed. -/
inductive Next (σ β : Type*)
  | done
  | item (need : ℕ) (result : Option (List β × σ))

/-- How a conversion ends. -/
inductive Status
  | ok
  | EINVAL
  | E2BIG
  deriving DecidableEq

variable (next : σ → Next σ β)

/-- From position `p`, items that become `out` lead to `q`. -/
inductive Converts : σ → List β → σ → Prop
  | refl (p : σ) : Converts p [] p
  | item {p q r : σ} {need : ℕ} {o os : List β} (h : next p = .item need (some (o, q)))
      (hs : Converts q os r) : Converts p (o ++ os) r

/-- No item at `p` can be converted. -/
def Ends (p : σ) : Prop := ∀ need o q, next p ≠ .item need (some (o, q))

/-- Why a conversion with `room` bytes in all ends at `q` when `n` are written. -/
def Because (room n : ℕ) (q : σ) : Status → Prop
  | .ok => next q = .done
  | .EINVAL => ∃ need, next q = .item need none ∧ n + need ≤ room
  | .E2BIG => ∃ need r, next q = .item need r ∧ room < n + need

/-- A conversion from `p`, with `n` bytes of the buffer used, that writes `out` and ends at
`q`. -/
structure Stops (room n : ℕ) (p : σ) (status : Status) (out : List β) (q : σ) : Prop where
  converts : Converts next p out q
  fits : n + out.length ≤ room
  because : Because next room (n + out.length) q status

variable {next}

theorem Converts.trans {p q r : σ} {o os : List β} (h : Converts next p o q)
    (hs : Converts next q os r) : Converts next p (o ++ os) r := by
  induction h with
  | refl p => exact hs
  | item hn _ ih =>
      rw [List.append_assoc]
      exact .item hn (ih hs)

/-- A conversion that goes as far as it can goes on from where any other has stopped. -/
theorem Converts.rest {p q q' : σ} {o o' : List β} (h : Converts next p o q)
    (h' : Converts next p o' q') (he' : Ends next q') :
    ∃ os, o' = o ++ os ∧ Converts next q os q' := by
  induction h generalizing o' with
  | refl p => exact ⟨o', rfl, h'⟩
  | item hn _ ih =>
      cases h' with
      | refl => exact absurd hn (he' _ _ _)
      | item hn' hs' =>
          rw [hn] at hn'
          cases hn'
          obtain ⟨os, rfl, hr⟩ := ih hs'
          exact ⟨os, by rw [List.append_assoc], hr⟩

theorem Converts.eq_nil {p q : σ} {o : List β} (h : Converts next p o q) (he : Ends next p) :
    o = [] ∧ p = q := by
  cases h with
  | refl => exact ⟨rfl, rfl⟩
  | item hn _ => exact absurd hn (he _ _ _)

/-- A conversion that goes as far as it can has one outcome. -/
theorem Converts.unique {p q q' : σ} {o o' : List β} (h : Converts next p o q)
    (he : Ends next q) (h' : Converts next p o' q') (he' : Ends next q') : o = o' ∧ q = q' := by
  obtain ⟨os, rfl, hr⟩ := h.rest h' he'
  obtain ⟨rfl, rfl⟩ := hr.eq_nil he
  exact ⟨(List.append_nil o).symm, rfl⟩

theorem Stops.nil {room n : ℕ} {p : σ} {status : Status} (hn : n ≤ room)
    (h : Because next room n p status) : Stops next room n p status [] p :=
  ⟨.refl p, by simpa using hn, by simpa using h⟩

theorem Stops.cons {room n need : ℕ} {p q r : σ} {status : Status} {o os : List β}
    (h : next p = .item need (some (o, q))) (hs : Stops next room (n + o.length) q status os r) :
    Stops next room n p status (o ++ os) r := by
  have hl : n + o.length + os.length = n + (o ++ os).length := by
    rw [List.length_append]
    omega
  exact ⟨.item h hs.converts, hl ▸ hs.fits, hl ▸ hs.because⟩

/-- Unless the buffer was full, the conversion has gone as far as it can. -/
theorem Stops.ends {room n : ℕ} {p q : σ} {status : Status} {out : List β}
    (h : Stops next room n p status out q) (hs : status ≠ .E2BIG) : Ends next q := by
  intro need o r hn
  have hb := h.because
  cases status with
  | ok =>
      rw [Because, hn] at hb
      cases hb
  | EINVAL =>
      obtain ⟨need', hn', -⟩ := hb
      rw [hn] at hn'
      cases hn'
  | E2BIG => exact hs rfl

/-- Two conversions that are not cut short write the same. -/
theorem Stops.unique {room room' n n' : ℕ} {p q q' : σ} {status status' : Status}
    {out out' : List β} (h : Stops next room n p status out q) (hs : status ≠ .E2BIG)
    (h' : Stops next room' n' p status' out' q') (hs' : status' ≠ .E2BIG) : out = out' :=
  (h.converts.unique (h.ends hs) h'.converts (h'.ends hs')).1

/-- When items need the room that they take, a conversion whose whole output has room is
complete. -/
theorem Stops.complete {room : ℕ} {p q q' : σ} {status : Status} {out out' : List β}
    (h : Stops next room 0 p status out q) (hc : Converts next p out' q')
    (hd : next q' = .done) (hl : out'.length ≤ room)
    (hneed : ∀ p need o q, next p = .item need (some (o, q)) → need ≤ o.length) :
    status = .ok ∧ out = out' := by
  have he : Ends next q' := by
    intro need o r hn
    rw [hd] at hn
    cases hn
  obtain ⟨os, rfl, hr⟩ := h.converts.rest hc he
  have hb := h.because
  rw [Nat.zero_add] at hb
  cases status with
  | ok =>
      obtain ⟨rfl, -⟩ := hr.eq_nil (h.ends (by decide))
      exact ⟨rfl, (List.append_nil out).symm⟩
  | EINVAL =>
      obtain ⟨need, hn, -⟩ := hb
      obtain ⟨-, rfl⟩ := hr.eq_nil (h.ends (by decide))
      rw [hd] at hn
      cases hn
  | E2BIG =>
      obtain ⟨need, r, hn, hlt⟩ := hb
      cases hr with
      | refl =>
          rw [hd] at hn
          cases hn
      | item hi _ =>
          rw [hi] at hn
          cases hn
          have := hneed _ _ _ _ hi
          simp only [List.length_append] at hl
          omega

/-! ## Weights -/

/-- On the positions in `I`, the weight of an item is what it needs at most. -/
structure Bounds (next : σ → Next σ β) (I : σ → Prop) (W : σ → ℕ) : Prop where
  item : ∀ p need o q, I p → next p = .item need (some (o, q)) → I q ∧ o.length + W q ≤ W p
  need : ∀ p need r, I p → next p = .item need r → need ≤ W p

/-- On the positions in `I`, the weight is what the conversion writes or still needs. -/
structure Weighs (next : σ → Next σ β) (I : σ → Prop) (W : σ → ℕ) : Prop
    extends Bounds next I W where
  done : ∀ p, I p → next p = .done → W p = 0
  bad : ∀ p need, I p → next p = .item need none → W p = need
  exact : ∀ p need o q, I p → next p = .item need (some (o, q)) → W p = o.length + W q

variable {I : σ → Prop} {W : σ → ℕ} {room n : ℕ} {p q : σ} {status : Status} {out : List β}

theorem Bounds.converts (h : Bounds next I W) (hp : I p) (hc : Converts next p out q) :
    I q ∧ out.length + W q ≤ W p := by
  induction hc with
  | refl p => exact ⟨hp, by simp⟩
  | item hn _ ih =>
      obtain ⟨hq, hw⟩ := h.item _ _ _ _ hp hn
      obtain ⟨hr, hs⟩ := ih hq
      refine ⟨hr, ?_⟩
      rw [List.length_append]
      omega

/-- A conversion whose weight fits is not cut short. -/
theorem Bounds.not_full (h : Bounds next I W) (hp : I p)
    (hs : Stops next room n p status out q) (hw : n + W p ≤ room) : status ≠ .E2BIG := by
  rintro rfl
  obtain ⟨need, r, hn, hfull⟩ := hs.because
  obtain ⟨hq, hle⟩ := h.converts hp hs.converts
  have := h.need q need r hq hn
  omega

theorem Weighs.converts (h : Weighs next I W) (hp : I p) (hc : Converts next p out q) :
    W p = out.length + W q := by
  induction hc with
  | refl p => simp
  | item hn _ ih =>
      have hw := h.exact _ _ _ _ hp hn
      have := ih (h.item _ _ _ _ hp hn).1
      rw [List.length_append]
      omega

/-- A conversion is cut short exactly if its weight does not fit. -/
theorem Weighs.full_iff (h : Weighs next I W) (hp : I p)
    (hs : Stops next room n p status out q) : status = .E2BIG ↔ room < n + W p := by
  constructor
  · rintro rfl
    by_contra hw
    exact h.not_full hp hs (by omega) rfl
  · intro hw
    have hq := (h.toBounds.converts hp hs.converts).1
    have hsum := h.converts hp hs.converts
    have hfits := hs.fits
    have hb := hs.because
    cases status with
    | ok =>
        have := h.done q hq hb
        omega
    | EINVAL =>
        obtain ⟨need, hn, hle⟩ := hb
        have := h.bad q need hq hn
        omega
    | E2BIG => rfl

end LuatAir200.Conversion
