import LuatAir200.CrcBits
import LuatAir200.CrcTables

/-!
# Errors that the checksums find

Every burst of errors that is not longer than the checksum changes it, wherever it begins. A
message followed by its CRC-32 has the same CRC-32 as any other such message.
-/
namespace LuatAir200.Checksum
open Crc

theorem calcCRC16_feeds (data : List (BitVec 8)) :
    calcCRC16 data = (bits data).foldl (feed 0xA001#16) 0xFFFF#16 := by
  rw [calcCRC16_modbus, modbus, remainder_eq_feeds (by decide)]

theorem calcCRC32_feeds (data : List (BitVec 8)) :
    calcCRC32 data = (bits data).foldl (feed 0xEDB88320#32) 0xFFFFFFFF#32 ^^^ 0xFFFFFFFF#32 := by
  rw [calcCRC32_crc32, crc32, remainder_eq_feeds (by decide)]

theorem bursts_found {data data' : List (BitVec 8)} {pre mid mid' post : List Bool}
    (h : bits data = pre ++ mid ++ post) (h' : bits data' = pre ++ mid' ++ post)
    (hlen : mid.length = mid'.length) (hne : mid ≠ mid') :
    (mid.length ≤ 16 → calcCRC16 data ≠ calcCRC16 data') ∧
      (mid.length ≤ 32 → calcCRC32 data ≠ calcCRC32 data') := by
  refine ⟨fun hle => ?_, fun hle => ?_⟩
  · rw [calcCRC16_feeds, calcCRC16_feeds, h, h']
    exact feeds_burst (by decide) _ pre post hlen hle hne
  · rw [calcCRC32_feeds, calcCRC32_feeds, h, h']
    intro heq
    exact feeds_burst (by decide) _ pre post hlen hle hne ((BitVec.xor_left_inj _).mp heq)

/-- Four bits, across two bytes. -/
theorem bursts_found_short :
    calcCRC16 [0x31#8, 0x32#8, 0x33#8] ≠ calcCRC16 [0x31#8, 0xF2#8, 0x30#8] ∧
      calcCRC32 [0x31#8, 0x32#8, 0x33#8] ≠ calcCRC32 [0x31#8, 0xF2#8, 0x30#8] := by
  have hfound := @bursts_found [0x31#8, 0x32#8, 0x33#8] [0x31#8, 0xF2#8, 0x30#8]
    ((bits [0x31#8, 0x32#8]).take 14) [false, false, true, true] [true, true, false, false]
    ((bits [0x33#8]).drop 2) rfl rfl rfl (by decide)
  exact ⟨hfound.1 (by decide), hfound.2 (by decide)⟩

/-! ## A message with its CRC-32 -/

theorem byte_xor (x y : BitVec 32) (b c : BitVec 8) :
    byte 0xEDB88320#32 (x ^^^ y) (b ^^^ c) =
      byte 0xEDB88320#32 x b ^^^ byte 0xEDB88320#32 y c := by
  rw [byte, byte, byte, ← iterate_xor, BitVec.setWidth_xor]
  congr 1
  ac_rfl

/-- A byte of `x` with all its bits turned round leaves what the ones leave. -/
theorem byte_inverted (x y : BitVec 32) {z : BitVec 32} (hz : z.setWidth 8 = 0xFF#8) :
    byte 0xEDB88320#32 (x ^^^ y) ((x ^^^ z).setWidth 8) =
      x >>> 8 ^^^ byte 0xEDB88320#32 y 0xFF#8 := by
  rw [BitVec.setWidth_xor, hz, byte_xor, byte_self]

/-- The four bytes of a number, the lowest first. -/
def littleEndian (x : BitVec 32) : List (BitVec 8) :=
  [x.setWidth 8, (x >>> 8).setWidth 8, (x >>> 16).setWidth 8, (x >>> 24).setWidth 8]

theorem remainder_inverted (x : BitVec 32) :
    remainder 0xEDB88320#32 x (littleEndian (x ^^^ 0xFFFFFFFF#32)) = 0xDEBB20E3#32 := by
  have hfirst := byte_inverted x 0#32 (z := 0xFFFFFFFF#32) rfl
  rw [BitVec.xor_zero] at hfirst
  have hgone : x >>> 24 >>> 8 = 0#32 := by
    rw [← BitVec.shiftRight_add]
    exact BitVec.ushiftRight_eq_zero (Nat.le_refl 32)
  simp only [littleEndian, remainder, List.foldl_cons, List.foldl_nil,
    BitVec.ushiftRight_xor_distrib]
  rw [hfirst, byte_inverted (x >>> 8) _ rfl, ← BitVec.shiftRight_add,
    byte_inverted (x >>> (8 + 8)) _ rfl, ← BitVec.shiftRight_add,
    byte_inverted (x >>> (8 + 8 + 8)) _ rfl, hgone]
  decide +kernel

theorem crc32_appended (data : List (BitVec 8)) :
    calcCRC32 (data ++ littleEndian (calcCRC32 data)) = 0x2144DF1C#32 := by
  rw [calcCRC32_crc32, calcCRC32_crc32, crc32, crc32, remainder_append, remainder_inverted]
  rfl

end LuatAir200.Checksum
