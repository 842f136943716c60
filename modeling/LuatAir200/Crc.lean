import Mathlib.Data.Nat.Notation
import Mathlib.Logic.Function.Iterate

/-!
# Cyclic redundancy checks

Division by a reflected polynomial, bit by bit: the lowest bit of the register leaves first. The
remainder of a byte can be looked up in a table, since division is linear.
-/
namespace LuatAir200.Crc

variable {w : ℕ} {poly : BitVec w}

/-- One bit leaves the register. -/
def shift (poly x : BitVec w) : BitVec w := if x.getLsbD 0 then x >>> 1 ^^^ poly else x >>> 1

/-- A byte is added to the register, and its bits leave. -/
def byte (poly crc : BitVec w) (b : BitVec 8) : BitVec w := (shift poly)^[8] (crc ^^^ b.setWidth w)

/-- The register after a message. -/
def remainder (poly init : BitVec w) (data : List (BitVec 8)) : BitVec w :=
  data.foldl (byte poly) init

/-- The table of the remainders of single bytes. -/
def entry (poly : BitVec w) (b : BitVec 8) : BitVec w := (shift poly)^[8] (b.setWidth w)

/-! ## Division is linear -/

theorem shift_xor (x y : BitVec w) : shift poly (x ^^^ y) = shift poly x ^^^ shift poly y := by
  unfold shift
  rw [BitVec.getLsbD_xor, BitVec.ushiftRight_xor_distrib]
  cases x.getLsbD 0 with
  | false =>
      cases y.getLsbD 0 with
      | false => rfl
      | true => exact BitVec.xor_assoc (x >>> 1) (y >>> 1) poly
  | true =>
      cases y.getLsbD 0 with
      | false =>
          change x >>> 1 ^^^ y >>> 1 ^^^ poly = x >>> 1 ^^^ poly ^^^ y >>> 1
          ac_rfl
      | true =>
          -- the polynomial is added twice, and so not at all
          change x >>> 1 ^^^ y >>> 1 = x >>> 1 ^^^ poly ^^^ (y >>> 1 ^^^ poly)
          have hcomm : x >>> 1 ^^^ poly ^^^ (y >>> 1 ^^^ poly) =
              x >>> 1 ^^^ y >>> 1 ^^^ (poly ^^^ poly) := by
            ac_rfl
          rw [hcomm, BitVec.xor_self, BitVec.xor_zero]

theorem iterate_xor (n : ℕ) (x y : BitVec w) :
    (shift poly)^[n] (x ^^^ y) = (shift poly)^[n] x ^^^ (shift poly)^[n] y := by
  induction n generalizing x y with
  | zero => rfl
  | succ n ih =>
      rw [Function.iterate_succ_apply, Function.iterate_succ_apply, Function.iterate_succ_apply,
        shift_xor, ih]

/-- Bits that are not set leave nothing behind. -/
theorem iterate_low {x : BitVec w} {n : ℕ} (h : ∀ i < n, x.getLsbD i = false) :
    (shift poly)^[n] x = x >>> n := by
  induction n with
  | zero => simp
  | succ n ih =>
      have hn : (x >>> n).getLsbD 0 = false := by
        rw [BitVec.getLsbD_ushiftRight, Nat.add_zero]
        exact h n (Nat.lt_succ_self n)
      rw [Function.iterate_succ_apply', ih fun i hi => h i (Nat.lt_succ_of_lt hi), shift, hn,
        BitVec.shiftRight_add]
      rfl

/-! ## Tables -/

/-- The register as the part above the lowest byte and that byte. -/
theorem split_byte (crc : BitVec w) (b : BitVec 8) : crc ^^^ b.setWidth w =
    crc >>> 8 <<< 8 ^^^ (crc.setWidth 8 ^^^ b).setWidth w := by
  ext i hi
  simp only [BitVec.getElem_xor, BitVec.getElem_setWidth, BitVec.getElem_shiftLeft,
    BitVec.getLsbD_xor]
  by_cases h8 : i < 8
  · simp [h8, hi]
  · have hge : 8 ≤ i := Nat.le_of_not_lt h8
    simp [h8, Nat.add_sub_cancel' hge, hi]

/-- The lowest byte of the register and the next byte of the message are looked up together. -/
theorem byte_eq_entry (crc : BitVec w) (b : BitVec 8) :
    byte poly crc b = crc >>> 8 ^^^ entry poly (crc.setWidth 8 ^^^ b) := by
  have hlow : ∀ i < 8, (crc >>> 8 <<< 8).getLsbD i = false := by
    intro i hi
    simp [hi]
  have hhigh : crc >>> 8 <<< 8 >>> 8 = crc >>> 8 := by
    ext i hi
    by_cases hw : 8 + i < w
    · simp [hw]
    · simp [hw, BitVec.getLsbD_of_ge crc (8 + i) (Nat.le_of_not_lt hw)]
  rw [byte, split_byte, iterate_xor, iterate_low hlow, hhigh, entry]

theorem entry_zero : entry poly 0#8 = 0#w := by
  have hlow : ∀ i < 8, (BitVec.setWidth w 0#8).getLsbD i = false := by
    intro i _
    simp
  rw [entry, iterate_low hlow]
  simp

/-- The lowest byte of the register as the next byte of the message only moves the others. -/
theorem byte_self (crc : BitVec w) : byte poly crc (crc.setWidth 8) = crc >>> 8 := by
  rw [byte_eq_entry, BitVec.xor_self, entry_zero, BitVec.xor_zero]

theorem remainder_append (init : BitVec w) (data more : List (BitVec 8)) :
    remainder poly init (data ++ more) = remainder poly (remainder poly init data) more :=
  List.foldl_append

end LuatAir200.Crc
