import LuatAir200.Crc

/-!
# `crc.c`

The register of `calcCRC16` is kept as two bytes with a table for each of them.
-/
namespace LuatAir200.Checksum
open Crc

def CRCHiTable : List (BitVec 8) :=
  [0x00, 0xC1, 0x81, 0x40, 0x01, 0xC0, 0x80, 0x41, 0x01, 0xC0, 0x80, 0x41,
    0x00, 0xC1, 0x81, 0x40, 0x01, 0xC0, 0x80, 0x41, 0x00, 0xC1, 0x81, 0x40,
    0x00, 0xC1, 0x81, 0x40, 0x01, 0xC0, 0x80, 0x41, 0x01, 0xC0, 0x80, 0x41,
    0x00, 0xC1, 0x81, 0x40, 0x00, 0xC1, 0x81, 0x40, 0x01, 0xC0, 0x80, 0x41,
    0x00, 0xC1, 0x81, 0x40, 0x01, 0xC0, 0x80, 0x41, 0x01, 0xC0, 0x80, 0x41,
    0x00, 0xC1, 0x81, 0x40, 0x01, 0xC0, 0x80, 0x41, 0x00, 0xC1, 0x81, 0x40,
    0x00, 0xC1, 0x81, 0x40, 0x01, 0xC0, 0x80, 0x41, 0x00, 0xC1, 0x81, 0x40,
    0x01, 0xC0, 0x80, 0x41, 0x01, 0xC0, 0x80, 0x41, 0x00, 0xC1, 0x81, 0x40,
    0x00, 0xC1, 0x81, 0x40, 0x01, 0xC0, 0x80, 0x41, 0x01, 0xC0, 0x80, 0x41,
    0x00, 0xC1, 0x81, 0x40, 0x01, 0xC0, 0x80, 0x41, 0x00, 0xC1, 0x81, 0x40,
    0x00, 0xC1, 0x81, 0x40, 0x01, 0xC0, 0x80, 0x41, 0x01, 0xC0, 0x80, 0x41,
    0x00, 0xC1, 0x81, 0x40, 0x00, 0xC1, 0x81, 0x40, 0x01, 0xC0, 0x80, 0x41,
    0x00, 0xC1, 0x81, 0x40, 0x01, 0xC0, 0x80, 0x41, 0x01, 0xC0, 0x80, 0x41,
    0x00, 0xC1, 0x81, 0x40, 0x00, 0xC1, 0x81, 0x40, 0x01, 0xC0, 0x80, 0x41,
    0x01, 0xC0, 0x80, 0x41, 0x00, 0xC1, 0x81, 0x40, 0x01, 0xC0, 0x80, 0x41,
    0x00, 0xC1, 0x81, 0x40, 0x00, 0xC1, 0x81, 0x40, 0x01, 0xC0, 0x80, 0x41,
    0x00, 0xC1, 0x81, 0x40, 0x01, 0xC0, 0x80, 0x41, 0x01, 0xC0, 0x80, 0x41,
    0x00, 0xC1, 0x81, 0x40, 0x01, 0xC0, 0x80, 0x41, 0x00, 0xC1, 0x81, 0x40,
    0x00, 0xC1, 0x81, 0x40, 0x01, 0xC0, 0x80, 0x41, 0x01, 0xC0, 0x80, 0x41,
    0x00, 0xC1, 0x81, 0x40, 0x00, 0xC1, 0x81, 0x40, 0x01, 0xC0, 0x80, 0x41,
    0x00, 0xC1, 0x81, 0x40, 0x01, 0xC0, 0x80, 0x41, 0x01, 0xC0, 0x80, 0x41,
    0x00, 0xC1, 0x81, 0x40]

def CRCLoTable : List (BitVec 8) :=
  [0x00, 0xC0, 0xC1, 0x01, 0xC3, 0x03, 0x02, 0xC2, 0xC6, 0x06, 0x07, 0xC7,
    0x05, 0xC5, 0xC4, 0x04, 0xCC, 0x0C, 0x0D, 0xCD, 0x0F, 0xCF, 0xCE, 0x0E,
    0x0A, 0xCA, 0xCB, 0x0B, 0xC9, 0x09, 0x08, 0xC8, 0xD8, 0x18, 0x19, 0xD9,
    0x1B, 0xDB, 0xDA, 0x1A, 0x1E, 0xDE, 0xDF, 0x1F, 0xDD, 0x1D, 0x1C, 0xDC,
    0x14, 0xD4, 0xD5, 0x15, 0xD7, 0x17, 0x16, 0xD6, 0xD2, 0x12, 0x13, 0xD3,
    0x11, 0xD1, 0xD0, 0x10, 0xF0, 0x30, 0x31, 0xF1, 0x33, 0xF3, 0xF2, 0x32,
    0x36, 0xF6, 0xF7, 0x37, 0xF5, 0x35, 0x34, 0xF4, 0x3C, 0xFC, 0xFD, 0x3D,
    0xFF, 0x3F, 0x3E, 0xFE, 0xFA, 0x3A, 0x3B, 0xFB, 0x39, 0xF9, 0xF8, 0x38,
    0x28, 0xE8, 0xE9, 0x29, 0xEB, 0x2B, 0x2A, 0xEA, 0xEE, 0x2E, 0x2F, 0xEF,
    0x2D, 0xED, 0xEC, 0x2C, 0xE4, 0x24, 0x25, 0xE5, 0x27, 0xE7, 0xE6, 0x26,
    0x22, 0xE2, 0xE3, 0x23, 0xE1, 0x21, 0x20, 0xE0, 0xA0, 0x60, 0x61, 0xA1,
    0x63, 0xA3, 0xA2, 0x62, 0x66, 0xA6, 0xA7, 0x67, 0xA5, 0x65, 0x64, 0xA4,
    0x6C, 0xAC, 0xAD, 0x6D, 0xAF, 0x6F, 0x6E, 0xAE, 0xAA, 0x6A, 0x6B, 0xAB,
    0x69, 0xA9, 0xA8, 0x68, 0x78, 0xB8, 0xB9, 0x79, 0xBB, 0x7B, 0x7A, 0xBA,
    0xBE, 0x7E, 0x7F, 0xBF, 0x7D, 0xBD, 0xBC, 0x7C, 0xB4, 0x74, 0x75, 0xB5,
    0x77, 0xB7, 0xB6, 0x76, 0x72, 0xB2, 0xB3, 0x73, 0xB1, 0x71, 0x70, 0xB0,
    0x50, 0x90, 0x91, 0x51, 0x93, 0x53, 0x52, 0x92, 0x96, 0x56, 0x57, 0x97,
    0x55, 0x95, 0x94, 0x54, 0x9C, 0x5C, 0x5D, 0x9D, 0x5F, 0x9F, 0x9E, 0x5E,
    0x5A, 0x9A, 0x9B, 0x5B, 0x99, 0x59, 0x58, 0x98, 0x88, 0x48, 0x49, 0x89,
    0x4B, 0x8B, 0x8A, 0x4A, 0x4E, 0x8E, 0x8F, 0x4F, 0x8D, 0x4D, 0x4C, 0x8C,
    0x44, 0x84, 0x85, 0x45, 0x87, 0x47, 0x46, 0x86, 0x82, 0x42, 0x43, 0x83,
    0x41, 0x81, 0x80, 0x40]

/-- The bytes `crcHi` and `crcLo`. -/
structure Bytes where
  hi : BitVec 8
  lo : BitVec 8

/-- The register that the bytes make. -/
def Bytes.register (s : Bytes) : BitVec 16 := s.hi.setWidth 16 <<< 8 ||| s.lo.setWidth 16

/-- What the loop does with a byte. -/
def step16 (s : Bytes) (b : BitVec 8) : Bytes :=
  let index := s.lo ^^^ b
  { hi := CRCLoTable.getD index.toNat 0
    lo := s.hi ^^^ CRCHiTable.getD index.toNat 0 }

def calcCRC16 (data : List (BitVec 8)) : BitVec 16 :=
  (data.foldl step16 ⟨0xFF#8, 0xFF#8⟩).register

def CRC32_table : List (BitVec 32) :=
  [0x00000000, 0x77073096, 0xEE0E612C, 0x990951BA,
    0x076DC419, 0x706AF48F, 0xE963A535, 0x9E6495A3,
    0x0EDB8832, 0x79DCB8A4, 0xE0D5E91E, 0x97D2D988,
    0x09B64C2B, 0x7EB17CBD, 0xE7B82D07, 0x90BF1D91,
    0x1DB71064, 0x6AB020F2, 0xF3B97148, 0x84BE41DE,
    0x1ADAD47D, 0x6DDDE4EB, 0xF4D4B551, 0x83D385C7,
    0x136C9856, 0x646BA8C0, 0xFD62F97A, 0x8A65C9EC,
    0x14015C4F, 0x63066CD9, 0xFA0F3D63, 0x8D080DF5,
    0x3B6E20C8, 0x4C69105E, 0xD56041E4, 0xA2677172,
    0x3C03E4D1, 0x4B04D447, 0xD20D85FD, 0xA50AB56B,
    0x35B5A8FA, 0x42B2986C, 0xDBBBC9D6, 0xACBCF940,
    0x32D86CE3, 0x45DF5C75, 0xDCD60DCF, 0xABD13D59,
    0x26D930AC, 0x51DE003A, 0xC8D75180, 0xBFD06116,
    0x21B4F4B5, 0x56B3C423, 0xCFBA9599, 0xB8BDA50F,
    0x2802B89E, 0x5F058808, 0xC60CD9B2, 0xB10BE924,
    0x2F6F7C87, 0x58684C11, 0xC1611DAB, 0xB6662D3D,
    0x76DC4190, 0x01DB7106, 0x98D220BC, 0xEFD5102A,
    0x71B18589, 0x06B6B51F, 0x9FBFE4A5, 0xE8B8D433,
    0x7807C9A2, 0x0F00F934, 0x9609A88E, 0xE10E9818,
    0x7F6A0DBB, 0x086D3D2D, 0x91646C97, 0xE6635C01,
    0x6B6B51F4, 0x1C6C6162, 0x856530D8, 0xF262004E,
    0x6C0695ED, 0x1B01A57B, 0x8208F4C1, 0xF50FC457,
    0x65B0D9C6, 0x12B7E950, 0x8BBEB8EA, 0xFCB9887C,
    0x62DD1DDF, 0x15DA2D49, 0x8CD37CF3, 0xFBD44C65,
    0x4DB26158, 0x3AB551CE, 0xA3BC0074, 0xD4BB30E2,
    0x4ADFA541, 0x3DD895D7, 0xA4D1C46D, 0xD3D6F4FB,
    0x4369E96A, 0x346ED9FC, 0xAD678846, 0xDA60B8D0,
    0x44042D73, 0x33031DE5, 0xAA0A4C5F, 0xDD0D7CC9,
    0x5005713C, 0x270241AA, 0xBE0B1010, 0xC90C2086,
    0x5768B525, 0x206F85B3, 0xB966D409, 0xCE61E49F,
    0x5EDEF90E, 0x29D9C998, 0xB0D09822, 0xC7D7A8B4,
    0x59B33D17, 0x2EB40D81, 0xB7BD5C3B, 0xC0BA6CAD,
    0xEDB88320, 0x9ABFB3B6, 0x03B6E20C, 0x74B1D29A,
    0xEAD54739, 0x9DD277AF, 0x04DB2615, 0x73DC1683,
    0xE3630B12, 0x94643B84, 0x0D6D6A3E, 0x7A6A5AA8,
    0xE40ECF0B, 0x9309FF9D, 0x0A00AE27, 0x7D079EB1,
    0xF00F9344, 0x8708A3D2, 0x1E01F268, 0x6906C2FE,
    0xF762575D, 0x806567CB, 0x196C3671, 0x6E6B06E7,
    0xFED41B76, 0x89D32BE0, 0x10DA7A5A, 0x67DD4ACC,
    0xF9B9DF6F, 0x8EBEEFF9, 0x17B7BE43, 0x60B08ED5,
    0xD6D6A3E8, 0xA1D1937E, 0x38D8C2C4, 0x4FDFF252,
    0xD1BB67F1, 0xA6BC5767, 0x3FB506DD, 0x48B2364B,
    0xD80D2BDA, 0xAF0A1B4C, 0x36034AF6, 0x41047A60,
    0xDF60EFC3, 0xA867DF55, 0x316E8EEF, 0x4669BE79,
    0xCB61B38C, 0xBC66831A, 0x256FD2A0, 0x5268E236,
    0xCC0C7795, 0xBB0B4703, 0x220216B9, 0x5505262F,
    0xC5BA3BBE, 0xB2BD0B28, 0x2BB45A92, 0x5CB36A04,
    0xC2D7FFA7, 0xB5D0CF31, 0x2CD99E8B, 0x5BDEAE1D,
    0x9B64C2B0, 0xEC63F226, 0x756AA39C, 0x026D930A,
    0x9C0906A9, 0xEB0E363F, 0x72076785, 0x05005713,
    0x95BF4A82, 0xE2B87A14, 0x7BB12BAE, 0x0CB61B38,
    0x92D28E9B, 0xE5D5BE0D, 0x7CDCEFB7, 0x0BDBDF21,
    0x86D3D2D4, 0xF1D4E242, 0x68DDB3F8, 0x1FDA836E,
    0x81BE16CD, 0xF6B9265B, 0x6FB077E1, 0x18B74777,
    0x88085AE6, 0xFF0F6A70, 0x66063BCA, 0x11010B5C,
    0x8F659EFF, 0xF862AE69, 0x616BFFD3, 0x166CCF45,
    0xA00AE278, 0xD70DD2EE, 0x4E048354, 0x3903B3C2,
    0xA7672661, 0xD06016F7, 0x4969474D, 0x3E6E77DB,
    0xAED16A4A, 0xD9D65ADC, 0x40DF0B66, 0x37D83BF0,
    0xA9BCAE53, 0xDEBB9EC5, 0x47B2CF7F, 0x30B5FFE9,
    0xBDBDF21C, 0xCABAC28A, 0x53B39330, 0x24B4A3A6,
    0xBAD03605, 0xCDD70693, 0x54DE5729, 0x23D967BF,
    0xB3667A2E, 0xC4614AB8, 0x5D681B02, 0x2A6F2B94,
    0xB40BBE37, 0xC30C8EA1, 0x5A05DF1B, 0x2D02EF8D]

def step32 (crc : BitVec 32) (b : BitVec 8) : BitVec 32 :=
  let t := (crc ^^^ b.setWidth 32) &&& 0xFF#32
  (crc >>> 8 &&& 0xFFFFFF#32) ^^^ CRC32_table.getD t.toNat 0

def calcCRC32 (buf : List (BitVec 8)) : BitVec 32 := ~~~buf.foldl step32 0xFFFFFFFF#32

/-! ## The polynomials -/

/-- CRC-16/MODBUS. -/
def modbus (data : List (BitVec 8)) : BitVec 16 := remainder 0xA001#16 0xFFFF#16 data

/-- CRC-32. -/
def crc32 (data : List (BitVec 8)) : BitVec 32 :=
  remainder 0xEDB88320#32 0xFFFFFFFF#32 data ^^^ 0xFFFFFFFF#32

/-! ## Two bytes -/

theorem entries16 : List.zipWith (fun h l => Bytes.register ⟨h, l⟩) CRCLoTable CRCHiTable =
    (List.range 256).map fun i => entry 0xA001#16 (BitVec.ofNat 8 i) := by
  decide +kernel

theorem table16 (b : BitVec 8) : entry 0xA001#16 b =
    Bytes.register ⟨CRCLoTable.getD b.toNat 0, CRCHiTable.getD b.toNat 0⟩ := by
  have hentry := congrArg (·[b.toNat]?) entries16
  have hlengths : CRCLoTable.length = 256 ∧ CRCHiTable.length = 256 := by decide +kernel
  have hlo : b.toNat < CRCLoTable.length := by
    rw [hlengths.1]
    exact b.isLt
  have hhi : b.toNat < CRCHiTable.length := by
    rw [hlengths.2]
    exact b.isLt
  simp only [List.getElem?_zipWith, List.getElem?_map, List.getElem?_range b.isLt,
    List.getElem?_eq_getElem hlo, List.getElem?_eq_getElem hhi, Option.map_some,
    BitVec.ofNat_toNat, BitVec.setWidth_eq, Option.some.injEq] at hentry
  rw [← hentry, List.getD_eq_getElem?_getD, List.getD_eq_getElem?_getD,
    List.getElem?_eq_getElem hlo, List.getElem?_eq_getElem hhi, Option.getD_some, Option.getD_some]

theorem register_xor (a b c d : BitVec 8) :
    Bytes.register ⟨a ^^^ c, b ^^^ d⟩ = Bytes.register ⟨a, b⟩ ^^^ Bytes.register ⟨c, d⟩ := by
  ext i hi
  by_cases h8 : i < 8
  · simp [Bytes.register, h8]
  · have hge : 8 ≤ i := Nat.le_of_not_lt h8
    simp [Bytes.register, h8, BitVec.getLsbD_of_ge _ i hge]

theorem register_shift (s : Bytes) : s.register >>> 8 = Bytes.register ⟨0#8, s.hi⟩ := by
  ext i hi
  by_cases h8 : i < 8
  · have hlt : 8 + i < 16 := Nat.add_lt_add_left h8 8
    simp [Bytes.register, h8, hlt]
  · have hge : 8 ≤ i := Nat.le_of_not_lt h8
    have hout : ¬8 + i < 16 := by omega
    simp [Bytes.register, hout, BitVec.getLsbD_of_ge _ i hge]

theorem register_low (s : Bytes) : s.register.setWidth 8 = s.lo := by
  ext i hi
  simp [Bytes.register]

/-- The tables divide by the polynomial. -/
theorem step16_register (s : Bytes) (b : BitVec 8) :
    (step16 s b).register = byte 0xA001#16 s.register b := by
  rw [byte_eq_entry, register_shift, register_low, table16, ← register_xor, BitVec.zero_xor]
  rfl

theorem fold16_register (s : Bytes) (data : List (BitVec 8)) :
    (data.foldl step16 s).register = remainder 0xA001#16 s.register data := by
  induction data generalizing s with
  | nil => rfl
  | cons b data ih =>
      rw [List.foldl_cons, ih, step16_register, remainder, remainder, List.foldl_cons]

theorem calcCRC16_modbus (data : List (BitVec 8)) : calcCRC16 data = modbus data := by
  rw [calcCRC16, fold16_register]
  rfl

/-! ## Words -/

theorem entries32 : CRC32_table =
    (List.range 256).map fun i => entry 0xEDB88320#32 (BitVec.ofNat 8 i) := by
  decide +kernel

theorem table32 (b : BitVec 8) : entry 0xEDB88320#32 b = CRC32_table.getD b.toNat 0 := by
  rw [entries32, List.getD_eq_getElem?_getD, List.getElem?_map, List.getElem?_range b.isLt,
    Option.map_some, Option.getD_some, BitVec.ofNat_toNat, BitVec.setWidth_eq]

theorem step32_byte (crc : BitVec 32) (b : BitVec 8) : step32 crc b = byte 0xEDB88320#32 crc b := by
  have hindex : ((crc ^^^ b.setWidth 32) &&& 0xFF#32).toNat = (crc.setWidth 8 ^^^ b).toNat := by
    have hb : b.toNat < 2 ^ 8 := b.isLt
    have hmask : (0xFF#32).toNat = 2 ^ 8 - 1 := rfl
    have hwide : b.toNat % 2 ^ 32 = b.toNat := Nat.mod_eq_of_lt (Nat.lt_trans hb (by decide))
    rw [BitVec.toNat_and, BitVec.toNat_xor, BitVec.toNat_setWidth, hmask,
      Nat.and_two_pow_sub_one_eq_mod, Nat.xor_mod_two_pow, BitVec.toNat_xor, BitVec.toNat_setWidth,
      hwide, Nat.mod_eq_of_lt hb]
  have hmask : crc >>> 8 &&& 0xFFFFFF#32 = crc >>> 8 := by
    have hones : (0xFFFFFF#32).toNat = 2 ^ 24 - 1 := rfl
    have hlt : (crc >>> 8).toNat < 2 ^ 24 := by
      rw [BitVec.toNat_ushiftRight, Nat.shiftRight_eq_div_pow]
      have := crc.isLt
      omega
    rw [← BitVec.toNat_inj, BitVec.toNat_and, hones, Nat.and_two_pow_sub_one_eq_mod,
      Nat.mod_eq_of_lt hlt]
  rw [step32, hindex, hmask, byte_eq_entry, table32]

theorem fold32_byte (crc : BitVec 32) (data : List (BitVec 8)) :
    data.foldl step32 crc = remainder 0xEDB88320#32 crc data := by
  induction data generalizing crc with
  | nil => rfl
  | cons b data ih =>
      rw [List.foldl_cons, ih, step32_byte, remainder, remainder, List.foldl_cons]

theorem calcCRC32_crc32 (data : List (BitVec 8)) : calcCRC32 data = crc32 data := by
  have hones : 0xFFFFFFFF#32 = BitVec.allOnes 32 := rfl
  rw [calcCRC32, fold32_byte, crc32, ← BitVec.xor_allOnes, hones]

/-- The checksums are the remainders of the polynomials, and a message followed by its checksum
leaves none. -/
theorem checksums_right (data : List (BitVec 8)) :
    calcCRC16 data = modbus data ∧ calcCRC32 data = crc32 data ∧
      calcCRC16 (data ++ [(calcCRC16 data).setWidth 8, (calcCRC16 data >>> 8).setWidth 8]) =
        0#16 := by
  refine ⟨calcCRC16_modbus data, calcCRC32_crc32 data, ?_⟩
  have hgone : modbus data >>> 8 >>> 8 = 0#16 := by
    rw [← BitVec.shiftRight_add]
    exact BitVec.ushiftRight_eq_zero (Nat.le_refl 16)
  rw [calcCRC16_modbus, calcCRC16_modbus]
  calc modbus (data ++ [(modbus data).setWidth 8, (modbus data >>> 8).setWidth 8])
      = byte 0xA001#16 (byte 0xA001#16 (modbus data) ((modbus data).setWidth 8))
          ((modbus data >>> 8).setWidth 8) := remainder_append _ data _
    _ = modbus data >>> 8 >>> 8 := by rw [byte_self, byte_self]
    _ = 0#16 := hgone

end LuatAir200.Checksum
