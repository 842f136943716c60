import LuatAir200.LineReads

/-!
# Streams over the tables of script files

`preload.c` reads a script in place, from the image in the flash or from the update package.
`int` and `long` have 32 bits. `malloc` does not fail. A block is decrypted in whole words, in place.
-/
namespace LuatAir200.ScriptStreams
open LineReads

/-! ## Numbers -/

def s32 (x : ℤ) : ℤ := (2147483648 + x) % 4294967296 - 2147483648

def u32 (x : ℤ) : ℕ := (x % 4294967296).toNat

/-- A number of type `long`. -/
def Long (x : ℤ) : Prop := -2147483648 ≤ x ∧ x < 2147483648

instance (x : ℤ) : Decidable (Long x) := by
  unfold Long
  infer_instance

abbrev EOF_EXT : ℤ := EOF

/-! ## Streams -/

/-- `E_LUA_SCRIPT_TABLE_SECTION`. -/
inductive Section
  | UPDATE | FLASH
  deriving DecidableEq, Repr

/-- `T_UNCOMPRESS_FILE_TABLE_ITEM`. -/
structure Item where
  nOffset : ℤ
  nLen : ℤ
  deriving DecidableEq, Repr

/-- The fields of a `FILE` that `preload.c` uses: `_flags`, `_cookie`, `_offset` and `_type`. -/
structure File where
  flags : Section
  item : Item
  offset : ℤ
  encrypted : Bool
  /-- The places that have been read, each with the number of bytes. -/
  reads : List (ℤ × ℕ)
  deriving DecidableEq, Repr

/-- What the streams are read from. -/
structure Device where
  /-- The memory from `_lua_script_flagsstart` on. -/
  script : ℤ → UInt8
  /-- `/luazip/update.bin`, if it can be opened. -/
  update : Option (List UInt8)
  /-- `platform_decode` on whole words. -/
  decode : List UInt8 → List UInt8
  /-- What is in memory that has been allocated. -/
  heap : ℕ → UInt8

/-- `fopen_ext`, for an item that has been found. -/
def fopen_ext (s : Section) (item : Item) (encrypted : Bool) : File :=
  ⟨s, item, 0, encrypted, []⟩

def ftell_ext (fp : File) : ℤ := fp.offset

def feof_ext (fp : File) : Bool := fp.item.nLen ≤ fp.offset

def fseek_ext (offset whence : ℤ) (fp : File) : ℤ × File :=
  if whence = 0 then
    if offset > fp.item.nLen ∨ offset < 0 then (-1, fp) else (0, { fp with offset := offset })
  else if whence = 1 then
    if s32 (fp.offset + offset) > fp.item.nLen ∨ s32 (fp.offset + offset) < 0 then (-1, fp)
    else (0, { fp with offset := s32 (fp.offset + offset) })
  else if whence = 2 then
    if offset < -fp.item.nLen ∨ offset > 0 then (-1, fp)
    else (0, { fp with offset := s32 (fp.item.nLen - offset) })
  else (-1, fp)

/-- What a read gives: the number of items, and the bytes that are stored. -/
structure Got where
  count : ℕ
  data : List UInt8
  deriving DecidableEq, Repr

/-- Bytes of the script section. -/
def Device.bytes (d : Device) (start : ℤ) (len : ℕ) : List UInt8 :=
  (List.range len).map fun i : ℕ => d.script (start + i)

/-- `platform_decode` of a block: the bytes behind the last whole word stay. -/
def decodeBlock (decode : List UInt8 → List UInt8) (block : List UInt8) : List UInt8 :=
  decode (block.take (block.length / 4 * 4)) ++ block.drop (block.length / 4 * 4)

/-- The loop over blocks of 512 bytes, and the rest. -/
def decodeBlocks (decode : List UInt8 → List UInt8) : ℕ → List UInt8 → List UInt8
  | 0, data => decodeBlock decode data
  | n + 1, data => decodeBlock decode (data.take 512) ++ decodeBlocks decode n (data.drop 512)

def align (x : ℕ) : ℕ := x / 512 * 512

def decode_file (d : Device) (size count : ℕ) (fp : File) : Got × File :=
  let offset := u32 (ftell_ext fp)
  let resid := u32 (count * size)
  let low := align offset
  let up := align (u32 (offset + resid + 511))
  let read_count := u32 (up - low)
  let len := if read_count ≤ u32 (fp.item.nLen - offset) then read_count
    else u32 (fp.item.nLen - offset)
  let temp := decodeBlocks d.decode (len / 512) (d.bytes (s32 (fp.item.nOffset + offset)) len) ++
    (List.range (read_count - len)).map d.heap
  let act_count := if len < read_count ∧ u32 (fp.item.nLen - offset) < resid then
    u32 (fp.item.nLen - offset) else resid
  let fp := (fseek_ext (s32 low) 0 fp).2
  let fp := (fseek_ext (s32 (offset + act_count)) 0 fp).2
  (⟨act_count / size, (temp.drop (offset - low)).take act_count⟩,
    { fp with reads := fp.reads ++ [(s32 (fp.item.nOffset + offset), len)] })

def fread_ext (d : Device) (size count : ℕ) (fp : File) : Got × File :=
  let resid := u32 (count * size)
  if resid = 0 then (⟨0, []⟩, fp)
  else
    let len := if resid ≤ u32 (fp.item.nLen - fp.offset) then s32 resid
      else s32 (fp.item.nLen - fp.offset)
    if len ≤ 0 then (⟨0, []⟩, fp)
    else
      let start := s32 (fp.item.nOffset + fp.offset)
      let next := { fp with
        offset := s32 (fp.offset + len)
        reads := fp.reads ++ [(start, len.toNat)] }
      match fp.flags with
      | .UPDATE =>
          match d.update with
          | none => (⟨0, []⟩, fp)
          | some file =>
              -- a seek that fails leaves the package at its start
              (⟨len.toNat / size, (file.drop start.toNat).take len.toNat⟩, next)
      | .FLASH =>
          if fp.encrypted then decode_file d size count fp
          else (⟨len.toNat / size, d.bytes start len.toNat⟩, next)

def getc_ext (d : Device) (fp : File) : ℤ × File :=
  let r := fread_ext d 1 1 fp
  (if r.1.count = 1 then plain (r.1.data.headD (d.heap 0)) else EOF_EXT, r.2)

def ungetc_ext (fp : File) : ℤ × File := (0, (fseek_ext (-1) 1 fp).2)

def fgets_ext (d : Device) (buf : List UInt8) (n : ℕ) (fp : File) : Option (List UInt8) × File :=
  fgets (getc_ext d) buf n fp

end LuatAir200.ScriptStreams
