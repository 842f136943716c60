import LuatAir200.Crc

/-!
# Bursts of errors

The division again, with the message bit by bit. Messages that differ within as many bits as the
register has leave different remainders, if the highest bit of the polynomial is set: a bit in
which the registers differ is not lost before it has moved through all of the register.
-/
namespace LuatAir200.Crc

variable {w : ℕ} {poly : BitVec w}

/-- The bits of a message, the lowest of each byte first. -/
def bits (data : List (BitVec 8)) : List Bool :=
  data.flatMap fun b => (List.range 8).map b.getLsbD

/-- A bit is added to the register, and one leaves. -/
def feed (poly crc : BitVec w) (b : Bool) : BitVec w :=
  shift poly (crc ^^^ (BitVec.ofBool b).setWidth w)

/-! ## Bytes as bits -/

/-- The next bit of a number. -/
theorem setWidth_succ (b : BitVec 8) (n : ℕ) : (b.setWidth (n + 1)).setWidth w =
    (b.setWidth n).setWidth w ^^^ (BitVec.ofBool (b.getLsbD n)).setWidth w <<< n := by
  ext i hi
  simp only [BitVec.getElem_setWidth, BitVec.getElem_xor, BitVec.getElem_shiftLeft,
    BitVec.getLsbD_setWidth, BitVec.getLsbD_ofBool]
  obtain hlt | rfl | hgt := Nat.lt_trichotomy i n
  · simp [hlt, Nat.lt_succ_of_lt hlt]
  · simp
  · have h1 : ¬i < n + 1 := Nat.not_lt.mpr hgt
    have h2 : ¬i < n := Nat.lt_asymm hgt
    have h3 : i - n ≠ 0 := Nat.sub_ne_zero_of_lt hgt
    simp [h1, h2, h3]

theorem feeds_range (crc : BitVec w) (b : BitVec 8) {n : ℕ} (h : n ≤ w) :
    ((List.range n).map b.getLsbD).foldl (feed poly) crc =
      (shift poly)^[n] (crc ^^^ (b.setWidth n).setWidth w) := by
  induction n with
  | zero => simp [BitVec.of_length_zero]
  | succ n ih =>
      have hlow : ∀ i < n,
          ((BitVec.ofBool (b.getLsbD n)).setWidth w <<< n).getLsbD i = false := by
        intro i hi
        simp [hi]
      have hback : (BitVec.ofBool (b.getLsbD n)).setWidth w <<< n >>> n =
          (BitVec.ofBool (b.getLsbD n)).setWidth w := by
        ext i hi
        by_cases hi0 : i = 0
        · subst hi0
          simp [Nat.lt_of_succ_le h]
        · simp [BitVec.getLsbD_ofBool, hi0]
      rw [List.range_succ, List.map_append, List.foldl_append, ih (Nat.le_of_succ_le h),
        Function.iterate_succ_apply', setWidth_succ, ← BitVec.xor_assoc,
        iterate_xor n (crc ^^^ (b.setWidth n).setWidth w), iterate_low hlow, hback]
      rfl

theorem byte_eq_feeds (hw : 8 ≤ w) (crc : BitVec w) (b : BitVec 8) :
    byte poly crc b = ((List.range 8).map b.getLsbD).foldl (feed poly) crc := by
  rw [feeds_range crc b hw, BitVec.setWidth_eq, byte]

theorem remainder_eq_feeds (hw : 8 ≤ w) (init : BitVec w) (data : List (BitVec 8)) :
    remainder poly init data = (bits data).foldl (feed poly) init := by
  induction data generalizing init with
  | nil => rfl
  | cons b data ih =>
      rw [remainder, List.foldl_cons, bits, List.flatMap_cons, List.foldl_append,
        ← byte_eq_feeds hw]
      exact ih _

/-! ## Registers that differ -/

theorem feed_xor (x y : BitVec w) (b c : Bool) :
    feed poly x b ^^^ feed poly y c = feed poly (x ^^^ y) (b ^^ c) := by
  have hbits : (BitVec.ofBool (b ^^ c)).setWidth w =
      (BitVec.ofBool b).setWidth w ^^^ (BitVec.ofBool c).setWidth w := by
    rw [← BitVec.ofBool_xor_ofBool, BitVec.setWidth_xor]
  rw [feed, feed, feed, ← shift_xor, hbits]
  congr 1
  ac_rfl

/-- A bit at `j` or above is set. -/
def High (j : ℕ) (x : BitVec w) : Prop := ∃ i, j ≤ i ∧ x.getLsbD i = true

theorem High.ne_zero {j : ℕ} {x : BitVec w} (h : High j x) : x ≠ 0#w := by
  obtain ⟨i, -, hi⟩ := h
  rintro rfl
  simp at hi

theorem high_of_ne_zero {x : BitVec w} (h : x ≠ 0#w) : High 0 x := by
  by_contra hno
  apply h
  apply BitVec.eq_of_getLsbD_eq
  intro i _
  rw [BitVec.getLsbD_zero, ← Bool.not_eq_true]
  exact fun hi => hno ⟨i, Nat.zero_le i, hi⟩

/-- When the lowest bit leaves, the polynomial sets the highest one. -/
theorem high_shift (hp : poly.msb = true) {x : BitVec w} (h : x.getLsbD 0 = true) :
    High (w - 1) (shift poly x) := by
  have hw : 0 < w := Nat.pos_of_ne_zero fun h0 => by
    subst h0
    simp [BitVec.of_length_zero] at h
  have hout : x.getLsbD (1 + (w - 1)) = false := BitVec.getLsbD_of_ge x _ (by omega)
  rw [BitVec.msb_eq_getLsbD_last] at hp
  refine ⟨w - 1, Nat.le_refl _, ?_⟩
  rw [shift, if_pos h, BitVec.getLsbD_xor, BitVec.getLsbD_ushiftRight, hout, hp]
  rfl

theorem High.feed (hp : poly.msb = true) {j : ℕ} {x : BitVec w} (h : High (j + 1) x) (b : Bool) :
    High j (feed poly x b) := by
  obtain ⟨i, hi, hx⟩ := h
  have hiw : i < w := BitVec.lt_of_getLsbD hx
  have hy : (x ^^^ (BitVec.ofBool b).setWidth w).getLsbD i = true := by
    have hne : i ≠ 0 := Nat.ne_of_gt (Nat.lt_of_lt_of_le (Nat.succ_pos j) hi)
    simp [BitVec.getLsbD_ofBool, hx, hne]
  cases hlow : (x ^^^ (BitVec.ofBool b).setWidth w).getLsbD 0 with
  | true =>
      obtain ⟨k, hk, hset⟩ := high_shift hp hlow
      exact ⟨k, by omega, hset⟩
  | false =>
      refine ⟨i - 1, by omega, ?_⟩
      rw [Crc.feed, shift, hlow, if_neg Bool.false_ne_true, BitVec.getLsbD_ushiftRight,
        Nat.add_sub_cancel' (by omega : 1 ≤ i)]
      exact hy

theorem High.feeds (hp : poly.msb = true) {j : ℕ} {x : BitVec w} {l : List Bool}
    (h : High (j + l.length) x) : High j (l.foldl (Crc.feed poly) x) := by
  induction l generalizing x with
  | nil => exact h
  | cons b l ih => exact ih (h.feed hp b)

theorem feed_zero : feed poly 0#w false = 0#w := by
  have hlow : (0#w).getLsbD 0 = false := BitVec.getLsbD_zero
  have hzero : 0#w ^^^ (BitVec.ofBool false).setWidth w = 0#w := by
    rw [BitVec.zero_xor]
    simp
  rw [feed, hzero, shift, hlow, if_neg Bool.false_ne_true, BitVec.zero_ushiftRight]

/-- Some of the bits that differ are still there after as many as the register has. -/
theorem feeds_ne_zero (hp : poly.msb = true) {l : List Bool} (hl : true ∈ l) (hw : l.length ≤ w) :
    l.foldl (feed poly) 0#w ≠ 0#w := by
  induction l with
  | nil => cases hl
  | cons b l ih =>
      rw [List.length_cons] at hw
      rw [List.foldl_cons]
      cases b with
      | true =>
          have hlow : (0#w ^^^ (BitVec.ofBool true).setWidth w).getLsbD 0 = true := by
            simp [Nat.lt_of_lt_of_le (Nat.succ_pos _) hw]
          have hhigh : High (w - 1 - l.length + l.length) (feed poly 0#w true) := by
            rw [Nat.sub_add_cancel (by omega)]
            exact high_shift hp hlow
          exact (hhigh.feeds hp).ne_zero
      | false =>
          rw [feed_zero]
          exact ih ((List.mem_cons.mp hl).resolve_left (by decide)) (by omega)

theorem feed_injective (hp : poly.msb = true) (b : Bool) :
    Function.Injective fun x => feed poly x b := by
  intro x y h
  by_contra hne
  have hd : x ^^^ y ≠ 0#w := fun h0 => hne (BitVec.xor_eq_zero_iff.mp h0)
  have hz : feed poly (x ^^^ y) false = 0#w := by
    rw [← Bool.xor_self b, ← feed_xor]
    exact BitVec.xor_eq_zero_iff.mpr h
  obtain ⟨i, -, hi⟩ := high_of_ne_zero hd
  cases i with
  | zero =>
      have hlow : (x ^^^ y ^^^ (BitVec.ofBool false).setWidth w).getLsbD 0 = true := by
        simpa using hi
      exact (high_shift hp hlow).ne_zero hz
  | succ i =>
      have hhigh : High (i + 1) (x ^^^ y) := ⟨i + 1, Nat.le_refl _, hi⟩
      exact (hhigh.feed hp false).ne_zero hz

theorem feeds_injective (hp : poly.msb = true) (l : List Bool) :
    Function.Injective fun x => l.foldl (feed poly) x := by
  induction l with
  | nil => exact fun _ _ h => h
  | cons b l ih => exact ih.comp (feed_injective hp b)

theorem feeds_xor (x y : BitVec w) {l m : List Bool} (h : l.length = m.length) :
    l.foldl (feed poly) x ^^^ m.foldl (feed poly) y =
      (List.zipWith (· ^^ ·) l m).foldl (feed poly) (x ^^^ y) := by
  induction l generalizing x y m with
  | nil =>
      obtain rfl := List.eq_nil_of_length_eq_zero h.symm
      rfl
  | cons b l ih =>
      cases m with
      | nil => cases h
      | cons c m =>
          rw [List.foldl_cons, List.foldl_cons, ih _ _ (Nat.succ.inj h), feed_xor]
          rfl

/-- Where two messages of one length differ. -/
theorem mem_zipWith_xor {l m : List Bool} (h : l.length = m.length) (hne : l ≠ m) :
    true ∈ List.zipWith (· ^^ ·) l m := by
  induction l generalizing m with
  | nil => exact absurd (List.eq_nil_of_length_eq_zero h.symm).symm hne
  | cons b l ih =>
      cases m with
      | nil => cases h
      | cons c m =>
          rw [List.zipWith_cons_cons, List.mem_cons]
          by_cases hbc : b = c
          · have hlm : l ≠ m := fun hlm => hne (by rw [hbc, hlm])
            exact .inr (ih (Nat.succ.inj h) hlm)
          · cases b <;> cases c <;> simp at hbc ⊢

/-- Bits that differ in a window of the size of the register. -/
theorem feeds_burst (hp : poly.msb = true) (init : BitVec w) (pre post : List Bool)
    {mid mid' : List Bool} (hlen : mid.length = mid'.length) (hw : mid.length ≤ w)
    (hne : mid ≠ mid') : (pre ++ mid ++ post).foldl (feed poly) init ≠
      (pre ++ mid' ++ post).foldl (feed poly) init := by
  intro h
  simp only [List.foldl_append] at h
  have hmid := feeds_injective hp post h
  have hxor := @feeds_xor w poly (pre.foldl (feed poly) init) (pre.foldl (feed poly) init) _ _ hlen
  rw [BitVec.xor_self, BitVec.xor_eq_zero_iff.mpr hmid] at hxor
  have hlen' : (List.zipWith (· ^^ ·) mid mid').length ≤ w := by
    rw [List.length_zipWith, ← hlen, Nat.min_self]
    exact hw
  exact feeds_ne_zero hp (mem_zipWith_xor hlen hne) hlen' hxor.symm

end LuatAir200.Crc
