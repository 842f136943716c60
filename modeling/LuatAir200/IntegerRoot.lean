import Mathlib.Data.Nat.Sqrt
import Mathlib.Logic.Function.Iterate
import Mathlib.Tactic.Ring

/-!
# Newton's iteration for integer square roots

With rounding division the iteration comes down to the root from above. There it stays, unless the
next number is a square: then it goes to and fro between the root and the number above it, and
the parity of the rounds decides.
-/
namespace LuatAir200.Newton

/-- One round for the root of `a`. -/
def next (a x : ℕ) : ℕ := (x + a / x) / 2

variable {a k x : ℕ}

theorem next_eq (hx : 0 < x) : next a x = (x * x + a) / (x * 2) := by
  rw [next, ← Nat.div_div_eq_div_mul, Nat.mul_add_div hx]

/-- The iteration does not go below the root. -/
theorem le_next (h : k * k ≤ a) (hx : 0 < x) : k ≤ next a x := by
  rw [next_eq hx, Nat.le_div_iff_mul_le (Nat.mul_pos hx Nat.two_pos)]
  obtain hle | hle := Nat.le_total k x
  · obtain ⟨d, rfl⟩ := Nat.exists_eq_add_of_le hle
    calc k * ((k + d) * 2) ≤ k * ((k + d) * 2) + d * d := Nat.le_add_right _ _
      _ = (k + d) * (k + d) + k * k := by ring
      _ ≤ (k + d) * (k + d) + a := Nat.add_le_add_left h _
  · obtain ⟨d, rfl⟩ := Nat.exists_eq_add_of_le hle
    calc (x + d) * (x * 2) ≤ (x + d) * (x * 2) + d * d := Nat.le_add_right _ _
      _ = x * x + (x + d) * (x + d) := by ring
      _ ≤ x * x + a := Nat.add_le_add_left h _

/-- Above the root it halves the distance. -/
theorem next_le (h : a < (k + 1) * (k + 1)) (hx : k < x) : next a x ≤ (x + k) / 2 := by
  have hdiv : a / x ≤ k := by
    rw [← Nat.lt_succ_iff, Nat.div_lt_iff_lt_mul (Nat.zero_lt_of_lt hx)]
    exact h.trans_le (Nat.mul_le_mul_left (k + 1) hx)
  exact Nat.div_le_div_right (Nat.add_le_add_left hdiv x)

/-- It stays at the root. -/
theorem next_root (hk : 0 < k) (h : k * k ≤ a) (ha : a < k * k + 2 * k) : next a k = k := by
  have hlo : k ≤ a / k := (Nat.le_div_iff_mul_le hk).mpr h
  have hhi : a / k < k + 2 := by
    rw [Nat.div_lt_iff_lt_mul hk, Nat.add_mul]
    exact ha
  rw [next]
  omega

/-- The root is reached in as many rounds as the distance has binary digits. -/
theorem iterate_root (hk : 0 < k) (h : k * k ≤ a) (ha : a < k * k + 2 * k) {n : ℕ} (hx : k ≤ x)
    (hn : x - k < 2 ^ n) : (next a)^[n] x = k := by
  induction n generalizing x with
  | zero =>
      rw [Function.iterate_zero_apply]
      omega
  | succ n ih =>
      rw [Function.iterate_succ_apply]
      refine ih (le_next h (hk.trans_le hx)) ?_
      rw [Nat.pow_succ] at hn
      obtain rfl | hlt := Nat.eq_or_lt_of_le hx
      · rw [next_root hk h ha, Nat.sub_self]
        exact Nat.two_pow_pos n
      · have hroot : a < (k + 1) * (k + 1) := by
          rw [Nat.add_mul, Nat.mul_add]
          omega
        have := next_le hroot hlt
        omega

/-! ## In front of a square -/

/-- The distance from `n` after a round for the root of `n * n - 1`. -/
def drop (n d : ℕ) : ℕ := (d * d - 1) / ((n + d) * 2)

variable {n d : ℕ}

theorem next_above (ha : a + 1 = n * n) (hd : 0 < d) : next a (n + d) = n + drop n d := by
  have hpos : 0 < n + d := Nat.add_pos_right n hd
  have hsum : (n + d) * (n + d) + a = (n + d) * 2 * n + (d * d - 1) := by
    have hexpand : (n + d) * (n + d) + n * n = (n + d) * 2 * n + d * d := by ring
    have hdd : 0 < d * d := Nat.mul_pos hd hd
    omega
  rw [next_eq hpos, hsum, Nat.mul_add_div (Nat.mul_pos hpos Nat.two_pos), drop]

theorem next_square (ha : a + 1 = (k + 1) * (k + 1)) : next a (k + 1) = k := by
  have hsplit : a = (k + 1) * k + k := by
    have hexpand : (k + 1) * (k + 1) = (k + 1) * k + k + 1 := by ring
    omega
  have hdiv : a / (k + 1) = k := by
    rw [hsplit, Nat.mul_add_div (Nat.succ_pos k), Nat.div_eq_of_lt (Nat.lt_succ_self k),
      Nat.add_zero]
  rw [next, hdiv]
  omega

theorem next_below (ha : a + 1 = (k + 1) * (k + 1)) (hk : 0 < k) : next a k = k + 1 := by
  have hsplit : a = k * (k + 2) := by
    have hexpand : (k + 1) * (k + 1) = k * (k + 2) + 1 := by ring
    omega
  have hdiv : a / k = k + 2 := by
    rw [hsplit, Nat.mul_div_cancel_left _ hk]
  rw [next, hdiv]
  omega

/-- To and fro between the root and the number above it. -/
theorem iterate_square (ha : a + 1 = (k + 1) * (k + 1)) (hk : 0 < k) (n : ℕ) :
    (next a)^[n] (k + 1) = if n % 2 = 0 then k + 1 else k := by
  induction n with
  | zero => rfl
  | succ n ih =>
      rw [Function.iterate_succ_apply', ih]
      by_cases hn : n % 2 = 0
      · have hsucc : (n + 1) % 2 ≠ 0 := by omega
        rw [if_pos hn, if_neg hsucc, next_square ha]
      · have hsucc : (n + 1) % 2 = 0 := by omega
        rw [if_neg hn, if_pos hsucc, next_below ha hk]

/-- From the distance `d` the iteration comes to `n` in `t` rounds, and not before. -/
def Hits (n d t : ℕ) : Prop := (drop n)^[t] d = 0 ∧ ∀ i < t, 0 < (drop n)^[i] d

theorem Hits.iterate {t : ℕ} (h : Hits n d t) (ha : a + 1 = n * n) :
    (next a)^[t] (n + d) = n := by
  have hall : ∀ i ≤ t, (next a)^[i] (n + d) = n + (drop n)^[i] d := by
    intro i hi
    induction i with
    | zero => rfl
    | succ i ih =>
        rw [Function.iterate_succ_apply', Function.iterate_succ_apply', ih (Nat.le_of_lt hi),
          next_above ha (h.2 i hi)]
  rw [hall t (Nat.le_refl t), h.1, Nat.add_zero]

/-- The number of rounds decides what comes out. -/
theorem Hits.parity {t r : ℕ} (h : Hits (k + 1) d t) (ha : a + 1 = (k + 1) * (k + 1)) (hk : 0 < k)
    (hr : t ≤ r) : (next a)^[r] (k + 1 + d) = if t % 2 = r % 2 then k + 1 else k := by
  obtain ⟨s, rfl⟩ := Nat.exists_eq_add_of_le' hr
  rw [Function.iterate_add_apply, h.iterate ha, iterate_square ha hk]
  by_cases hs : s % 2 = 0
  · have heq : t % 2 = (s + t) % 2 := by omega
    rw [if_pos hs, if_pos heq]
  · have hne : ¬t % 2 = (s + t) % 2 := by omega
    rw [if_neg hs, if_neg hne]

/-! ## Many squares at once -/

theorem drop_le {m e : ℕ} (hd : 0 < d) (hde : d ≤ e) (hmn : m ≤ n) : drop n d ≤ drop m e := by
  have hpos {c : ℕ} (hc : d ≤ c) : 0 < (m + c) * 2 :=
    Nat.mul_pos (Nat.add_pos_right m (hd.trans_le hc)) Nat.two_pos
  have hsame : drop n d ≤ drop m d :=
    Nat.div_le_div_left (Nat.mul_le_mul_right 2 (Nat.add_le_add_right hmn d)) (hpos (Nat.le_refl d))
  refine hsame.trans ?_
  obtain ⟨c, rfl⟩ := Nat.exists_eq_add_of_le hde
  have hq : drop m d * ((m + d) * 2) ≤ d * d - 1 := Nat.div_mul_le_self _ _
  -- a round at least halves the distance
  have hhalf : drop m d * 2 ≤ d := by
    refine Nat.le_of_mul_le_mul_right ?_ hd
    calc drop m d * 2 * d ≤ drop m d * 2 * (m + d) := Nat.mul_le_mul_left _ (Nat.le_add_left d m)
      _ = drop m d * ((m + d) * 2) := by ring
      _ ≤ d * d - 1 := hq
      _ ≤ d * d := Nat.sub_le _ _
  rw [drop.eq_def m (d + c), Nat.le_div_iff_mul_le (hpos hde)]
  have hdd : 0 < d * d := Nat.mul_pos hd hd
  have hmore : drop m d * 2 * c ≤ d * c := Nat.mul_le_mul_right c hhalf
  have hexpand : drop m d * ((m + (d + c)) * 2) = drop m d * ((m + d) * 2) + drop m d * 2 * c := by
    ring
  have hsquare : (d + c) * (d + c) = d * d + d * c + (d * c + c * c) := by ring
  omega

/-- The rounds for all of the numbers from `l` to `u`, where their distances lie between two
bounds: when the upper one is gone before the lower one is, the distances are. -/
def settled (l u : ℕ) : ℕ → ℕ → ℕ → Option ℕ
  | 0, _, _ => none
  | f + 1, lo, hi =>
      if hi = 0 then some 0
      else if lo = 0 then none
      else (settled l u f (drop u lo) (drop l hi)).map (· + 1)

theorem hits_of_settled {l u f lo hi t : ℕ} (h : settled l u f lo hi = some t) (hl : l ≤ n)
    (hu : n ≤ u) (hlo : lo ≤ d) (hhi : d ≤ hi) : Hits n d t ∧ t < f := by
  induction f generalizing lo hi d t with
  | zero => cases h
  | succ f ih =>
      rw [settled] at h
      split at h
      · rename_i hzero
        cases h
        have hd : d = 0 := Nat.eq_zero_of_le_zero (hzero ▸ hhi)
        exact ⟨⟨hd, nofun⟩, Nat.succ_pos f⟩
      split at h
      · cases h
      · rename_i hne
        obtain ⟨s, hs, rfl⟩ := Option.map_eq_some_iff.mp h
        have hlo0 : 0 < lo := Nat.pos_of_ne_zero hne
        have hd : 0 < d := hlo0.trans_le hlo
        obtain ⟨⟨hzero, hpos⟩, hlt⟩ := ih hs (drop_le hlo0 hlo hu) (drop_le hd hhi hl)
        refine ⟨⟨hzero, fun i hi => ?_⟩, Nat.succ_lt_succ hlt⟩
        cases i with
        | zero => exact hd
        | succ i => exact hpos i (Nat.lt_of_succ_lt_succ hi)

/-- The distance of the first number, which is half of `n * n - 1`. -/
def start (n : ℕ) : ℕ := (n * n - 1) / 2 - n

theorem start_le {l u : ℕ} (hl : 0 < l) (h : l ≤ u) : start l ≤ start u := by
  obtain ⟨c, rfl⟩ := Nat.exists_eq_add_of_le h
  have hexpand : (l + c) * (l + c) = l * l + 2 * (l * c) + c * c := by ring
  have hlc : c ≤ l * c := Nat.le_mul_of_pos_left c hl
  have hll : 0 < l * l := Nat.mul_pos hl hl
  rw [start, start, hexpand]
  omega

/-- Is the number of rounds odd, or even, for all of the numbers from `l` to `u`? Where their
bounds lie too far apart, they are halved. -/
def parity (odd : Bool) : ℕ → ℕ → ℕ → Bool
  | 0, _, _ => false
  | f + 1, l, u =>
      match settled l u 40 (start l) (start u) with
      | some t => (t % 2 = 1 : Bool) == odd
      | none => parity odd f l ((l + u) / 2) && parity odd f ((l + u) / 2 + 1) u

theorem hits_of_parity {odd : Bool} {f l u : ℕ} (h : parity odd f l u = true) (h0 : 0 < l)
    (hl : l ≤ n) (hu : n ≤ u) : ∃ t < 40, Hits n (start n) t ∧ (t % 2 = 1 ↔ odd = true) := by
  induction f generalizing l u with
  | zero => cases h
  | succ f ih =>
      rw [parity] at h
      split at h
      · rename_i t ht
        have hn : 0 < n := h0.trans_le hl
        obtain ⟨hhits, hlt⟩ := hits_of_settled ht hl hu (start_le h0 hl) (start_le hn hu)
        refine ⟨t, hlt, hhits, ?_⟩
        rw [← beq_iff_eq.mp h, decide_eq_true_eq]
      · obtain ⟨hlow, hhigh⟩ := Bool.and_eq_true_iff.mp h
        obtain hlt | hle := Nat.lt_or_ge ((l + u) / 2) n
        · exact ih hhigh (Nat.succ_pos _) hlt hu
        · exact ih hlow h0 hl hle

end LuatAir200.Newton
