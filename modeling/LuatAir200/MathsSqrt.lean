import LuatAir200.IntegerRoot
import LuatAir200.LuaNumber
import Mathlib.Order.Bounds.Basic

/-!
# `maths.lua`

`sqrt` makes a hundred rounds, whatever they give.
-/
namespace LuatAir200.Maths
open Lua Newton

/-- A round; a division by zero or an overflow gives `none`. -/
def round (a x : Int32) : Option Int32 :=
  if x = 0 then none
  else if (x + a / x).toInt = x.toInt + (a / x).toInt then some ((x + a / x) / 2)
  else none

def rounds (a : Int32) : ℕ → Int32 → Option Int32
  | 0, x => some x
  | n + 1, x => (round a x).bind (rounds a n)

def sqrt (a : Int32) : Option Int32 := if a = 0 ∨ a = 1 then some a else rounds a 100 (a / 2)

/-- The largest number with a square of at most `a` comes out. -/
def Right (a : Int32) : Prop :=
  ∃ x, sqrt a = some x ∧ IsGreatest {y : ℤ | y * y ≤ a.toInt} x.toInt

/-- Numbers in front of whose squares the hundredth round does not end at the root. -/
def evenRounds : List (ℕ × ℕ) :=
  [(5, 6), (11, 18), (33, 55), (100, 176), (321, 584), (1073, 1979), (1984, 1985), (3684, 6885),
    (12909, 24304), (45886, 45903), (45908, 46340)]

/-- The other ones from 3 on whose squares are at most `2 ^ 31`. -/
def oddRounds : List (ℕ × ℕ) :=
  [(3, 4), (7, 10), (19, 32), (56, 99), (177, 320), (585, 1072), (1980, 1983), (1986, 3683),
    (6886, 12908), (24305, 45885), (45904, 45907)]

def Within (ps : List (ℕ × ℕ)) (n : ℕ) : Prop := ∃ p ∈ ps, p.1 ≤ n ∧ n ≤ p.2

theorem even_or_odd {n : ℕ} (h : 3 ≤ n) (hn : n ≤ 46340) :
    Within evenRounds n ∨ Within oddRounds n := by
  simp only [Within, evenRounds, oddRounds, List.exists_mem_cons_iff, List.not_mem_nil, false_and,
    exists_false, or_false]
  omega

theorem not_even {n : ℕ} (h : n ≤ 2 ∨ Within oddRounds n) : ¬Within evenRounds n := by
  simp only [Within, evenRounds, oddRounds, List.exists_mem_cons_iff, List.not_mem_nil, false_and,
    exists_false, or_false] at *
  omega

theorem five_le {p : ℕ × ℕ} (hp : p ∈ evenRounds) : 5 ≤ p.1 := by
  have hall : evenRounds.all fun p => 5 ≤ p.1 := by decide
  exact of_decide_eq_true (List.all_eq_true.mp hall p hp)

theorem even_checked : evenRounds.all fun p => parity false 20 p.1 p.2 := by
  decide +kernel

theorem odd_checked : oddRounds.all fun p => parity true 20 p.1 p.2 := by
  decide +kernel

theorem hits_of_within {odd : Bool} {ps : List (ℕ × ℕ)} {n : ℕ}
    (h : ps.all fun p => parity odd 20 p.1 p.2) (hpos : ps.all fun p => 0 < p.1)
    (hn : Within ps n) : ∃ t < 40, Hits n (start n) t ∧ (t % 2 = 1 ↔ odd = true) := by
  obtain ⟨p, hp, hlo, hhi⟩ := hn
  exact hits_of_parity (List.all_eq_true.mp h p hp)
    (of_decide_eq_true (List.all_eq_true.mp hpos p hp)) hlo hhi

/-! ## Rounds without overflow -/

variable {a x : Int32} {m n k : ℕ}

theorem round_isNat (ha : IsNat a m) (hx : IsNat x n) (hn : 0 < n) (h : n + m / n < 2 ^ 31) :
    ∃ y, round a x = some y ∧ IsNat y (next m n) := by
  have hne : x ≠ 0 := by
    rintro rfl
    have hzero : (0 : ℤ) = n := hx
    omega
  have hminus : x ≠ -1 := by
    rintro rfl
    have hone : (-1 : ℤ) = n := hx
    omega
  have hdiv : IsNat (a / x) (m / n) := ha.div hx hminus
  have hsum : IsNat (x + a / x) (n + m / n) := hx.add hdiv h
  have hfits : (x + a / x).toInt = x.toInt + (a / x).toInt := by
    rw [hsum, hx, hdiv]
    rfl
  have htwo : IsNat 2 2 := rfl
  exact ⟨_, by rw [round, if_neg hne, if_pos hfits], hsum.div htwo (by decide)⟩

/-- The quotient is at most the root and two. -/
theorem quotient_le (hk : m < (k + 1) * (k + 1)) (hn : k ≤ n) : m / n ≤ k + 2 := by
  refine Nat.div_le_of_le_mul ?_
  have hexpand : (k + 1) * (k + 1) = k * (k + 2) + 1 := by ring
  calc m ≤ k * (k + 2) := by omega
    _ ≤ n * (k + 2) := Nat.mul_le_mul_right _ hn

theorem rounds_isNat (ha : IsNat a m) (hk : 0 < k) (hkk : k * k ≤ m) (hm : m < (k + 1) * (k + 1))
    (hsmall : k ≤ 2 ^ 16) (r : ℕ) (hx : IsNat x n) (hn : k ≤ n) (hle : n ≤ 2 ^ 30) :
    ∃ y, rounds a r x = some y ∧ IsNat y ((next m)^[r] n) := by
  induction r generalizing x n with
  | zero => exact ⟨x, rfl, hx⟩
  | succ r ih =>
      have hpos : 0 < n := hk.trans_le hn
      have hq := quotient_le hm hn
      obtain ⟨y, hy, hyn⟩ := round_isNat ha hx hpos (by omega)
      have hnext : next m n ≤ 2 ^ 30 := by
        rw [next]
        omega
      obtain ⟨z, hz, hzn⟩ := ih hyn (le_next hkk hpos) hnext
      refine ⟨z, ?_, hzn⟩
      rw [rounds, hy, Option.bind_some, hz]

/-- A number from 2 on and its root. -/
structure Root (m k : ℕ) : Prop where
  two_le : 2 ≤ m
  lt : m < 2 ^ 31
  le : k * k ≤ m
  lt_succ : m < (k + 1) * (k + 1)

theorem Root.pos (h : Root m k) : 0 < k := by
  obtain rfl | hk := Nat.eq_zero_or_pos k
  · exact absurd h.lt_succ (Nat.not_lt.mpr (Nat.le_of_succ_le h.two_le))
  · exact hk

/-- The first number is not below the root. -/
theorem Root.le_half (h : Root m k) : k ≤ m / 2 := by
  have h2 := h.two_le
  have hk := h.le
  obtain hle | hlt := Nat.lt_or_ge k 2
  · omega
  · have hmul : 2 * k ≤ k * k := Nat.mul_le_mul_right k hlt
    omega

theorem Root.le_small (h : Root m k) : k ≤ 46340 := by
  by_contra hk
  have hmul : 46341 * 46341 ≤ k * k := Nat.mul_le_mul (by omega) (by omega)
  have := h.le
  have := h.lt
  omega

theorem Root.sqrt_isNat (h : Root m k) (ha : IsNat a m) :
    ∃ y, sqrt a = some y ∧ IsNat y ((next m)^[100] (m / 2)) := by
  have hne : ¬(a = 0 ∨ a = 1) := by
    have h2 := h.two_le
    rintro (rfl | rfl)
    · have hzero : (0 : ℤ) = m := ha
      omega
    · have hone : (1 : ℤ) = m := ha
      omega
  have htwo : IsNat 2 2 := rfl
  have hsmall := h.le_small
  have hm := h.lt
  rw [sqrt, if_neg hne]
  exact rounds_isNat ha h.pos h.le h.lt_succ (by omega) 100 (ha.div htwo (by decide)) h.le_half
    (by omega)

/-- When the next number is no square, the root is reached and kept. -/
theorem Root.iterate_root (h : Root m k) (hm : m + 1 ≠ (k + 1) * (k + 1)) :
    (next m)^[100] (m / 2) = k := by
  have hlt : m < k * k + 2 * k := by
    have hexpand : (k + 1) * (k + 1) = k * k + 2 * k + 1 := by ring
    have := h.lt_succ
    omega
  have hmax := h.lt
  have hbig : 2 ^ 31 < 2 ^ 100 := by decide
  exact Newton.iterate_root h.pos h.le hlt h.le_half (by omega)

/-- In front of a square the hundredth round ends at the root or at the number above it. -/
theorem Root.iterate_square (h : Root m k) (hm : m + 1 = (k + 1) * (k + 1)) :
    (next m)^[100] (m / 2) = k ∧ ¬Within evenRounds (k + 1) ∨
      (next m)^[100] (m / 2) = k + 1 ∧ Within evenRounds (k + 1) := by
  have hpos := h.pos
  have hsmall := h.le_small
  have hmax := h.lt
  obtain hone | hone : k = 1 ∨ 2 ≤ k := by omega
  · left
    subst hone
    have hthree : m = 3 := by omega
    subst hthree
    exact ⟨by decide +kernel, not_even (.inl (Nat.le_refl 2))⟩
  · have hhalf : m / 2 = k + 1 + start (k + 1) := by
      have hmul : 3 * (k + 1) ≤ (k + 1) * (k + 1) := Nat.mul_le_mul_right (k + 1) (by omega)
      rw [start, ← hm]
      omega
    have hle : k + 1 ≤ 46340 := by
      by_contra hk
      have hmul : 46341 * 46341 ≤ (k + 1) * (k + 1) := Nat.mul_le_mul (by omega) (by omega)
      omega
    rw [hhalf]
    obtain heven | hodd := even_or_odd (n := k + 1) (by omega) hle
    · obtain ⟨t, ht, hhits, hparity⟩ := hits_of_within even_checked (by decide) heven
      have hsame : t % 2 = 100 % 2 := by
        have hnot : ¬t % 2 = 1 := fun h1 => Bool.false_ne_true (hparity.mp h1)
        omega
      right
      rw [hhits.parity hm hpos (by omega), if_pos hsame]
      exact ⟨rfl, heven⟩
    · obtain ⟨t, ht, hhits, hparity⟩ := hits_of_within odd_checked (by decide) hodd
      have hother : ¬t % 2 = 100 % 2 := by
        have h1 := hparity.mpr rfl
        omega
      left
      rw [hhits.parity hm hpos (by omega), if_neg hother]
      exact ⟨rfl, not_even (.inr hodd)⟩

/-! ## The greatest number -/

theorem isGreatest_root (hk : k * k ≤ m) (hm : m < (k + 1) * (k + 1)) :
    IsGreatest {y : ℤ | y * y ≤ m} k := by
  constructor
  · have hcast : (k : ℤ) * k = (k * k : ℕ) := rfl
    change (k : ℤ) * k ≤ m
    rw [hcast]
    exact Int.ofNat_le.mpr hk
  · intro y hy
    change y * y ≤ m at hy
    rw [← Int.natAbs_mul_self] at hy
    by_contra hlt
    have habs : k + 1 ≤ y.natAbs := by omega
    have hmul := Nat.mul_le_mul habs habs
    have := Int.ofNat_le.mp hy
    omega

theorem right_iff (hk : k * k ≤ m) (hm : m < (k + 1) * (k + 1)) (ha : IsNat a m)
    (hy : sqrt a = some x) (hx : IsNat x n) : Right a ↔ n = k := by
  have hroot := isGreatest_root hk hm
  constructor
  · rintro ⟨z, hz, hgreatest⟩
    cases hy.symm.trans hz
    rw [ha] at hgreatest
    have heq := hgreatest.unique hroot
    rw [hx] at heq
    exact Int.ofNat_inj.mp heq
  · rintro rfl
    refine ⟨x, hy, ?_⟩
    rw [ha, hx]
    exact hroot

/-- No round divides by zero or overflows, and the root comes out unless the next number is the
square of a number for which the number of rounds is even. -/
theorem sqrt_right_iff (a : Int32) (h : 0 ≤ a.toInt) : sqrt a ≠ none ∧
    (Right a ↔ ∀ p ∈ evenRounds, ∀ n, p.1 ≤ n → n ≤ p.2 → a.toInt + 1 ≠ n * n) := by
  obtain ⟨m, hm⟩ : ∃ m : ℕ, a.toInt = m := ⟨a.toInt.toNat, by omega⟩
  have ha : IsNat a m := hm
  have hlt : m < 2 ^ 31 := by
    have := a.toInt_lt
    omega
  have hcond (n : ℕ) : a.toInt + 1 = n * n ↔ m + 1 = n * n := by
    rw [hm]
    exact Int.ofNat_inj
  obtain hsmall | h2 := Nat.lt_or_ge m 2
  · -- 0 and 1 are their own roots
    have hself : sqrt a = some a := by
      have hcases : a = 0 ∨ a = 1 := by
        rw [← Int32.toInt_inj, ← Int32.toInt_inj, hm, Int32.toInt_zero, Int32.toInt_one]
        omega
      rw [sqrt, if_pos hcases]
    have hkk : m * m ≤ m := by
      obtain rfl | rfl : m = 0 ∨ m = 1 := by omega
      · exact Nat.le_refl 0
      · exact Nat.le_refl 1
    have hm1 : m < (m + 1) * (m + 1) := Nat.lt_of_succ_le (Nat.le_mul_self (m + 1))
    refine ⟨by rw [hself]; exact Option.some_ne_none a, ?_⟩
    rw [right_iff hkk hm1 ha hself ha]
    refine ⟨fun _ p hp n hlo hhi hn => ?_, fun _ => rfl⟩
    rw [hcond] at hn
    have hfive : 5 ≤ n := (five_le hp).trans hlo
    have hmul := Nat.mul_le_mul hfive hfive
    omega
  · have hroot : Root m (Nat.sqrt m) := ⟨h2, hlt, Nat.sqrt_le m, Nat.lt_succ_sqrt m⟩
    obtain ⟨x, hx, hxn⟩ := hroot.sqrt_isNat ha
    refine ⟨by rw [hx]; exact Option.some_ne_none x, ?_⟩
    rw [right_iff hroot.le hroot.lt_succ ha hx hxn]
    by_cases hsquare : m + 1 = (Nat.sqrt m + 1) * (Nat.sqrt m + 1)
    · obtain ⟨heq, hnot⟩ | ⟨hne, heven⟩ := hroot.iterate_square hsquare
      · refine ⟨fun _ p hp n hlo hhi hn => hnot ⟨p, hp, ?_⟩, fun _ => heq⟩
        rw [hcond, hsquare] at hn
        rw [Nat.mul_self_inj.mp hn]
        exact ⟨hlo, hhi⟩
      · rw [hne]
        obtain ⟨p, hp, hlo, hhi⟩ := heven
        constructor
        · intro hk
          omega
        · intro hall
          exact absurd ((hcond _).mpr hsquare) (hall p hp _ hlo hhi)
    · refine ⟨fun _ p hp n hlo hhi hn => hsquare ?_, fun _ => hroot.iterate_root hsquare⟩
      rw [hcond] at hn
      have hlow : Nat.sqrt m < n := Nat.mul_self_lt_mul_self_iff.mp (by have := hroot.le; omega)
      have hhigh : n ≤ Nat.sqrt m + 1 := Nat.mul_self_le_mul_self_iff.mp (by
        have := hroot.lt_succ
        omega)
      have heq : n = Nat.sqrt m + 1 := Nat.le_antisymm hhigh hlow
      rw [hn, heq]

/-- Down from 49 to the number above the root of 99 there are three rounds. -/
theorem sqrt_right_ninety_nine : Right 99 :=
  (sqrt_right_iff 99 (by decide)).2.mpr (by
    intro p hp n hlo hhi hn
    have hten : n = 10 := by
      rw [← Nat.mul_self_inj]
      exact (Int.ofNat_inj.mp hn).symm
    subst hten
    exact not_even (.inr ⟨(7, 10), by decide, by decide, by decide⟩) ⟨p, hp, hlo, hhi⟩)

/-- For 24 the hundredth round ends at 5. -/
theorem not_sqrt_right : ¬Right 24 := by
  rintro ⟨x, hx, hgreatest⟩
  have hfive : sqrt 24 = some 5 := by decide +kernel
  cases hfive.symm.trans hx
  have hle : (5 : ℤ) * 5 ≤ 24 := hgreatest.1
  omega

end LuatAir200.Maths
