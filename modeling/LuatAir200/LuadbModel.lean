import LuatAir200.LuaString
import LuatAir200.ScriptStreams
import LuatAir200.Tlv
import Mathlib.Data.Nat.Digits.Defs
import Mathlib.Logic.Function.Basic

/-!
# LuaDB images

`preload.c`, in the build with the tables of script files. A computation that is `none` has read
beyond the image, compared a character out of a name, written beyond `filename` or does not end.
There is memory for names and for what is decompressed. History: what was installed, with the
number of the file.
-/
namespace LuatAir200.Luadb
open Lua Tlv
open ScriptStreams (Section s32)

/-- The error codes but `LUADB_ERR_NONE`, which is `none`. -/
inductive Err
  | TLV_LEN | CHECK_FAIL | FILE_COUNT | MAGIC | OUT_OF_RANGE | UNKNOWN_TYPE | UNZIP_FILE
  | WRITE_FILE | ADD_TABLE_ITEM | NOT_DBDATA
  deriving DecidableEq

def ASSERT_LEN (len defLen : ℕ) : Option Err := if len = defLen then none else some .TLV_LEN

/-- Little-endian. -/
def number (l : List UInt8) : ℕ := Nat.ofDigits 256 (l.map UInt8.toNat)

def DBMAKEU16 (d : List UInt8) (p : ℕ) : Option ℕ := (bytes d p 2).map number

def DBMAKEU32 (d : List UInt8) (p : ℕ) : Option ℕ := (bytes d p 4).map number

structure DbHeadInfo where
  verNum : ℕ
  filecount : ℕ
  length : ℕ
  deriving DecidableEq

/-- `nameLen` is the length of `name`; `data` counts from the begin of the image. -/
structure DbFileInfo where
  name : List UInt8
  length : ℕ
  data : ℕ
  offset : ℕ
  deriving DecidableEq

/-- What a record tells, and its `magic` and `checkCode`. -/
structure Record (α : Type) where
  info : α
  magic : ℕ
  checkCode : ℕ
  deriving DecidableEq

/-! ## Items -/

abbrev HeadInfoReserved0x00 : UInt8 := 0x00
abbrev HeadInfoMagicNumber : UInt8 := 0x01
abbrev HeadInfoVersion : UInt8 := 0x02
abbrev HeadInfoLength : UInt8 := 0x03
abbrev HeadInfoFilecount : UInt8 := 0x04
abbrev HeadInfoCRC : UInt8 := 0xFE
abbrev HeadInfoReserved0xFF : UInt8 := 0xFF

abbrev FileHeadReserved0x00 : UInt8 := 0x00
abbrev FileHeadMagicNumber : UInt8 := 0x01
abbrev FileHeadName : UInt8 := 0x02
abbrev FileHeadLength : UInt8 := 0x03
abbrev FileHeadCRC : UInt8 := 0xFE
abbrev FileHeadReserved0xFF : UInt8 := 0xFF

/-- The `switch` of `decodeHeadInfo`: the record, `err` and `loop` behind it. -/
def headItem (d : List UInt8) (r : Record DbHeadInfo) (type : UInt8) (length pos : ℕ) :
    Option (Record DbHeadInfo × Option Err × Bool) :=
  if type = HeadInfoMagicNumber then
    (DBMAKEU32 d pos).map fun n => ({ r with magic := n }, ASSERT_LEN length 4, true)
  else if type = HeadInfoVersion then
    (DBMAKEU16 d pos).map fun n =>
      ({ r with info := { r.info with verNum := n } }, ASSERT_LEN length 2, true)
  else if type = HeadInfoLength then
    (DBMAKEU32 d pos).map fun n =>
      ({ r with info := { r.info with length := n } }, ASSERT_LEN length 4, true)
  else if type = HeadInfoFilecount then
    if r.info.verNum = 0 then
      (byte d pos).map fun b =>
        ({ r with info := { r.info with filecount := b.toNat } }, ASSERT_LEN length 1, true)
    else
      (DBMAKEU16 d pos).map fun n =>
        ({ r with info := { r.info with filecount := n } }, ASSERT_LEN length 2, true)
  else if type = HeadInfoReserved0x00 ∨ type = HeadInfoReserved0xFF then
    some (r, ASSERT_LEN length 0, true)
  else if type = HeadInfoCRC then
    (DBMAKEU16 d pos).map fun n => ({ r with checkCode := n }, ASSERT_LEN length 2, false)
  else some (r, some .UNKNOWN_TYPE, true)

/-- The `switch` of `decodeFile`. -/
def fileItem (d : List UInt8) (r : Record DbFileInfo) (type : UInt8) (length pos : ℕ) :
    Option (Record DbFileInfo × Option Err × Bool) :=
  if type = FileHeadReserved0x00 ∨ type = FileHeadReserved0xFF then
    some (r, ASSERT_LEN length 0, true)
  else if type = FileHeadMagicNumber then
    (DBMAKEU32 d pos).map fun n => ({ r with magic := n }, ASSERT_LEN length 4, true)
  else if type = FileHeadName then
    (bytes d pos length).map fun name =>
      ({ r with info := { r.info with name := name } }, none, true)
  else if type = FileHeadLength then
    (DBMAKEU32 d pos).map fun n =>
      ({ r with info := { r.info with length := n } }, ASSERT_LEN length 4, true)
  else if type = FileHeadCRC then
    (DBMAKEU16 d pos).map fun n => ({ r with checkCode := n }, ASSERT_LEN length 2, false)
  else some (r, some .UNKNOWN_TYPE, true)

/-! ## Records -/

/-- The sum from the last byte to the first. -/
def calcCheckCode (d : List UInt8) (length : ℕ) : Option ℕ := go length 0
where
  go : ℕ → ℕ → Option ℕ
    | 0, checksum => some (checksum % 2 ^ 16)
    | n + 1, checksum => (byte d n).bind fun b => go n (u32 (checksum + b.toNat))

def magicNumber : ℕ := 0xA55AA55A

/-- What the decoders do with the items of a record and with its end; at the end `pos` is at
least four. -/
def decodeRecord {α : Type} (d : List UInt8)
    (item : Record α → UInt8 → ℕ → ℕ → Option (Record α × Option Err × Bool)) (info : α) :
    Option (Option Err × α × ℕ) :=
  (scan d item (d.length + 1) 0 ⟨info, 0, 0⟩).bind fun (r, err, pos) =>
    if err.isSome then some (err, r.info, pos)
    else if r.magic ≠ magicNumber then some (some .MAGIC, r.info, pos)
    else (calcCheckCode d (pos - 2)).map fun sum =>
      (if sum ≠ r.checkCode then some .CHECK_FAIL else none, r.info, pos)

/-- On the bytes from `offset` on; also returns the next offset. -/
def decodeFile (d : List UInt8) (offset : ℕ) : Option (Option Err × DbFileInfo × ℕ) :=
  (decodeRecord d (fileItem d) ⟨[], 0, 0, 0⟩).map fun (err, f, pos) =>
    if err.isSome then (err, f, offset)
    else (none, { f with data := offset + pos, offset := u32 (offset + pos) },
      u32 (offset + u32 (pos + f.length)))

def decodeHeadInfo (d : List UInt8) : Option (Option Err × DbHeadInfo × ℕ) :=
  (decodeRecord d (headItem d) ⟨0, 0, 0⟩).map fun (err, h, _) =>
    if err.isSome then (err, h, 0) else (none, h, h.length)

/-- The loop over the files, with the number of those that are left. -/
def decodeFiles (d : List UInt8) : ℕ → ℕ → List DbFileInfo →
    Option (Option Err × List DbFileInfo × ℕ)
  | 0, offset, l => some (none, l, offset)
  | n + 1, offset, l =>
      if offset < d.length then
        (decodeFile (d.drop offset) offset).bind fun (err, f, next) =>
          if err.isSome then some (err, l, offset) else decodeFiles d n next (l ++ [f])
      else some (none, l, offset)

/-! ## Names -/

/-- A character of a name, with the zero behind it. -/
def char (name : List UInt8) (i : ℤ) : Option UInt8 :=
  if 0 ≤ i then (name ++ [0])[i.toNat]? else none

/-- `strncmp` of the name from an index on with the whole of a text is 0. -/
def strncmp (name : List UInt8) : ℤ → List UInt8 → Option Bool
  | _, [] => some true
  | i, c :: text => (char name i).bind fun b =>
      if b = c then strncmp name (i + 1) text else some false

/-- `strcmp` compares the zero as well. -/
def strcmp (name : List UInt8) (i : ℤ) (text : List UInt8) : Option Bool :=
  strncmp name i (text ++ [0])

/-- The operator `||` on tests. -/
def anyOf : List (Option Bool) → Option Bool
  | [] => some false
  | x :: l => x.bind fun b => if b then some true else anyOf l

abbrev Path := List UInt8

instance : LawfulBEq Path := inferInstance

def LUA_DIR : Path := lua "/lua"
def LUA_DATA_DIR : Path := lua "/ldata"

/-- Up to the first zero. -/
def cstring (l : List UInt8) : List UInt8 := l.takeWhile (· ≠ 0)

/-- What `strcpy`, `strcat` and `strncat` leave in `filename[256]`. -/
def filename (dir : Path) (name : List UInt8) (n : ℕ) : Option Path :=
  let path := dir ++ lua "/" ++ cstring (name.take n)
  if path.length + 1 ≤ 256 then some path else none

/-- The options of the build. -/
structure Build where
  AM_LPNG_SUPPORT : Bool
  DSS_AMR_MP3_STORE_ON_FS : Bool

/-! ## The platform -/

structure Disk where
  /-- The tables of script files, the latest item first. -/
  pUpdateFileTable : List (Path × ScriptStreams.Item)
  pFlashFileTable : List (Path × ScriptStreams.Item)
  files : Path → Option (List UInt8)

/-- The decompressor, which is told how long its input is; `none` if it reads beyond the bytes
that are there. -/
structure Lzma where
  decode : ℕ → List UInt8 → Option (Option (List UInt8))
  bounded : ∀ l, (decode l.length l).isSome

def LZMA_HEAD_SIZE : ℕ := 13

/-- What succeeds: the memory for an item of a table, the opening of a file, the writing. -/
structure Answer where
  added : Bool
  opened : Bool
  written : Bool

/-- The memory for the list of the files, and the answers for each of them. -/
structure Platform where
  allocated : Bool
  answer : ℕ → Answer

inductive Event
  | item (filename : Path) (item : ScriptStreams.Item)
  | file (filename : Path) (content : List UInt8)
  deriving DecidableEq

/-- `FindUncompressFileItem` finds the file in this table. -/
def FindUncompressFileItem (filename : Path) (d : Disk) : Option Section :=
  if filename ∈ d.pUpdateFileTable.map Prod.fst then some .UPDATE
  else if filename ∈ d.pFlashFileTable.map Prod.fst then some .FLASH
  else none

/-- It is opened for reading, which also finds the files of the tables. -/
def file_exist (filename : Path) (d : Disk) : Bool :=
  (FindUncompressFileItem filename d).isSome || (d.files filename).isSome

def AddUncompressFileItem (sec : Section) (filename : Path) (item : ScriptStreams.Item)
    (d : Disk) : Disk :=
  match sec with
  | .UPDATE => { d with pUpdateFileTable := (filename, item) :: d.pUpdateFileTable }
  | .FLASH => { d with pFlashFileTable := (filename, item) :: d.pFlashFileTable }

/-- What `fwrite` returns if it fails. -/
def SIZE_EOF : ℕ := 4294967295

/-- A file that is opened for writing and found in the table of the update is a stream that
cannot be written. -/
def shadowed (filename : Path) (d : Disk) : Bool :=
  filename ∈ d.pUpdateFileTable.map Prod.fst

/-- What `parse_luadb_data` has done. -/
structure Inst where
  disk : Disk
  installed : List (ℕ × Event)
  delupdpack : Bool
  wrFile : Bool

namespace Inst

def setFile (filename : Path) (content : Option (List UInt8)) (s : Inst) : Inst :=
  { s with disk := { s.disk with files := Function.update s.disk.files filename content } }

/-- A file with its content. -/
def store (i : ℕ) (filename : Path) (content : List UInt8) (s : Inst) : Inst :=
  { s.setFile filename (some content) with
    installed := s.installed ++ [(i, .file filename content)], wrFile := true }

def add (i : ℕ) (sec : Section) (filename : Path) (item : ScriptStreams.Item) (s : Inst) : Inst :=
  { s with
    disk := AddUncompressFileItem sec filename item s.disk
    installed := s.installed ++ [(i, .item filename item)] }

end Inst

/-- `fopen`, `fwrite`, and `remove` if it fails; `fwrite` fails if there is nothing to write. -/
def writeFile (a : Answer) (err : Err) (i : ℕ) (filename : Path) (content : List UInt8)
    (s : Inst) : Option Err × Inst :=
  if ¬ a.opened then (some err, s)
  else if a.written ∧ content ≠ [] then (none, s.store i filename content)
  else (some err, s.setFile filename none)

def LzmaDecodeBufToFile (lzma : Lzma) (d : List UInt8) (a : Answer) (i : ℕ) (f : DbFileInfo)
    (filename : Path) (s : Inst) : Option (Option Err × Inst) :=
  if f.length ≤ LZMA_HEAD_SIZE then some (some .UNZIP_FILE, s)
  else (lzma.decode f.length ((d.drop f.data).take f.length)).map fun result =>
    match result with
    | none => (some .UNZIP_FILE, s)
    | some content =>
        if shadowed filename s.disk then (some .UNZIP_FILE, s.setFile filename none)
        else writeFile a .UNZIP_FILE i filename content s

/-! ## `parse_luadb_data` -/

/-- The test in front of a file that is written. -/
def writes (override : Bool) (filename : Path) (d : Disk) : Bool :=
  (file_exist filename d = false ∧ ¬ FindUncompressFileItem filename d = some .UPDATE) ∨ override

/-- A file that is written as it is. -/
def copyFile (d : List UInt8) (a : Answer) (i : ℕ) (f : DbFileInfo) (path : Path) (s : Inst) :
    Option (Option Err × Inst) :=
  if shadowed path s.disk then
    if SIZE_EOF ≠ f.length then some (some .WRITE_FILE, s.setFile path none)
    else some (none, { s with wrFile := true })
  else if ¬ a.opened then some (some .WRITE_FILE, s)
  else (bytes (d.drop f.data) 0 f.length).map fun content =>
    writeFile a .WRITE_FILE i path content s

/-- The suffixes of four characters that mark a file of the tables. -/
def suffixes (b : Build) : List (List UInt8) :=
  [lua ".lua", lua ".bmp", lua ".BMP"] ++
    (if b.AM_LPNG_SUPPORT then [lua ".png", lua ".PNG"] else []) ++
    if b.DSS_AMR_MP3_STORE_ON_FS then [] else [lua ".amr", lua ".AMR", lua ".MP3", lua ".mp3"]

/-- The body of the loop that installs the files. -/
def installFile (b : Build) (lzma : Lzma) (d : List UInt8) (override : Bool) (sec : Section)
    (a : Answer) (i : ℕ) (f : DbFileInfo) (s : Inst) : Option (Option Err × Inst) :=
  let nameLen := f.name.length
  if nameLen > 4 then
    let withoutZipLen : ℕ := nameLen - 4
    -- a `u8`
    let withoutLuaLen : ℕ := (withoutZipLen + 252) % 256
    (strcmp f.name withoutZipLen (lua ".zip")).bind fun zip =>
    if zip then
      (anyOf [strncmp f.name withoutLuaLen (lua ".lua"),
        strncmp f.name (withoutLuaLen - 1) (lua ".luae")]).bind fun script =>
      (filename (if script then LUA_DIR else LUA_DATA_DIR) f.name withoutZipLen).bind fun path =>
      if writes override path s.disk then LzmaDecodeBufToFile lzma d a i f path s
      else some (none, s)
    else
      let s := { s with delupdpack := false }
      (anyOf [strncmp f.name (nameLen - 4) (lua ".lua"),
        strncmp f.name (nameLen - 5) (lua ".luae")]).bind fun script =>
      (filename (if script then LUA_DIR else LUA_DATA_DIR) f.name nameLen).bind fun path =>
      (anyOf ((suffixes b).map (strncmp f.name (nameLen - 4)) ++
        [strncmp f.name (nameLen - 5) (lua ".luae")])).bind fun table =>
      if table then
        if a.added then some (none, s.add i sec path ⟨s32 f.offset, s32 f.length⟩)
        else some (some .ADD_TABLE_ITEM, s)
      else if writes override path s.disk then copyFile d a i f path s
      else some (none, s)
  else some (none, s)

/-- The loop from an index on, up to the first file that fails. -/
def installFiles (b : Build) (lzma : Lzma) (d : List UInt8) (override : Bool) (sec : Section)
    (answer : ℕ → Answer) : ℕ → List DbFileInfo → Inst → Option (Option Err × Inst)
  | _, [], s => some (none, s)
  | i, f :: l, s =>
      (installFile b lzma d override sec (answer i) i f s).bind fun (err, s) =>
        if err.isSome then some (err, s)
        else installFiles b lzma d override sec answer (i + 1) l s

/-- The head, and where the first file begins. -/
def decodeHead (d : List UInt8) : Option (Option Err × DbHeadInfo × ℕ) :=
  (anyOf [(byte d 0).map (· = 0x01), (byte d 1).map (· = 0x04)]).bind fun db =>
    if db then decodeHeadInfo d else some (some .NOT_DBDATA, ⟨0, 0, 0⟩, 0)

/-- The files behind a head. -/
def decodeList (d : List UInt8) (h : DbHeadInfo) (offset : ℕ) :
    Option (Option Err × List DbFileInfo) :=
  (decodeFiles d h.filecount offset []).map fun (err, l, offset) =>
    if err.isSome then (err, l)
    else if offset > d.length then (some .OUT_OF_RANGE, l)
    else if l.length ≠ h.filecount then (some .FILE_COUNT, l)
    else (none, l)

/-- The files that are decoded. -/
def decode (d : List UInt8) : Option (Option Err × List DbFileInfo) :=
  (decodeHead d).bind fun (err, h, offset) =>
    if err.isSome then some (err, []) else decodeList d h offset

/-- What is returned, and whether `LUA_UPDATE_FILE` was removed and `pRestart` set. -/
structure Parsed where
  err : Option Err
  inst : Inst
  removed : Bool
  restart : Bool

/-- `decode_exit` -/
def finish (sec : Section) (err : Option Err) (s : Inst) : Parsed :=
  let removed : Bool := s.delupdpack ∧ err = none ∧ sec = .UPDATE
  ⟨err, s, removed, removed ∨ (err = none ∧ s.wrFile ∧ sec = .UPDATE)⟩

/-- Without memory for the list of the files the result is no error. -/
def parse_luadb_data (b : Build) (lzma : Lzma) (p : Platform) (d : List UInt8) (override : Bool)
    (sec : Section) (disk : Disk) : Option Parsed :=
  let s : Inst := ⟨disk, [], true, false⟩
  (decodeHead d).bind fun (err, h, offset) =>
    if err.isSome then some (finish sec err s)
    else if ¬ p.allocated then some (finish sec none s)
    else
      (decodeList d h offset).bind fun (err, l) =>
        if err.isSome then some (finish sec err s)
        else
          (installFiles b lzma d override sec p.answer 0 l s).map fun (err, s) => finish sec err s

end LuatAir200.Luadb
