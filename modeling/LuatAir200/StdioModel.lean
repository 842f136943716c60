import LuatAir200.LuaString
import LuatAir200.PosixFiles
import LuatAir200.ScriptStreams

/-!
# The file functions of the C library

`stdio.c` without buffers, over descriptors, and the table of `findfp.c`. The names are those
of files that are not in the tables of scripts. Files whose names `crypto` accepts are
encrypted; in a build without encryption there are none. `O_APPEND` is the bit of `__SOPT`
among the flags of a stream, which nothing sets, so `__swrite` never seeks.
-/
namespace LuatAir200.Stdio
open Lua PosixFiles LineReads
open ScriptStreams (s32 u32 align decodeBlocks Got)

/-! ## Streams -/

/-- `__SRD`, `__SWR` and `__SRW`. -/
inductive Access
  | SRD | SWR | SRW
  deriving DecidableEq, Repr

/-- A `FILE`; its other flags are `__SEOF`, `__SERR` and `__SOFF`. -/
structure FILE where
  /-- `none` when the flags are zero, that is, when the slot is free. -/
  access : Option Access
  seof : Bool
  serr : Bool
  soff : Bool
  file : ℕ
  offset : ℤ
  encrypted : Bool
  deriving DecidableEq, Repr

/-- A stream and the files behind it. -/
structure Io (ν : Type) where
  fs : Fs ν
  fp : FILE

/-- What encrypted files are read with: `platform_decode` on whole words, and what is in memory
that has been allocated. -/
structure Machine where
  decode : List UInt8 → List UInt8
  heap : ℕ → UInt8

variable {ν : Type} [DecidableEq ν]

/-- The stream with the flag `__SERR`. -/
def Io.err (io : Io ν) : Io ν := { io with fp := { io.fp with serr := true } }

/-- The stream with the flag `__SEOF`, or without it. -/
def Io.eof (io : Io ν) (b : Bool) : Io ν := { io with fp := { io.fp with seof := b } }

/-! ## Descriptors -/

/-- A negative length is an error. -/
def sread (n : ℤ) (io : Io ν) : Option (List UInt8) × Io ν :=
  if n < 0 then (none, { io with fp := { io.fp with soff := false } })
  else
    match io.fs.read io.fp.file n.toNat with
    | (some data, fs) => (some data, ⟨fs, { io.fp with offset := io.fp.offset + data.length }⟩)
    | (none, fs) => (none, ⟨fs, { io.fp with soff := false }⟩)

def swrite (data : List UInt8) (io : Io ν) : Option ℕ × Io ν :=
  match io.fs.write io.fp.file data with
  | (w, fs) => (w, ⟨fs, { io.fp with soff := false }⟩)

def sseek (offset whence : ℤ) (io : Io ν) : Option ℕ × Io ν :=
  match io.fs.lseek io.fp.file offset whence with
  | (some p, fs) => (some p, ⟨fs, { io.fp with soff := true, offset := p }⟩)
  | (none, fs) => (none, ⟨fs, { io.fp with soff := false }⟩)

/-! ## Positions -/

def lualibc_fseek (offset whence : ℤ) (io : Io ν) : ℤ × Io ν :=
  match sseek offset whence io with
  | (some _, io) => (0, io)
  | (none, io) => (-1, io.eof false)

def lualibc_ftell (io : Io ν) : ℤ × Io ν :=
  if io.fp.soff then (io.fp.offset, io)
  else
    match sseek 0 1 io with
    | (some p, io) => (p, io)
    | (none, io) => (-1, io)

/-- The macro `feof`. -/
def feof (io : Io ν) : Bool := !io.fp.encrypted && io.fp.seof

/-! ## Reading and writing -/

/-- What is read of an encrypted file: whole blocks around the bytes that are asked for. -/
def decodeRead (m : Machine) (size resid offset : ℕ) (io : Io ν) : Got × Io ν :=
  let low := align offset
  let up := align (u32 (offset + resid + 511))
  let read_count := u32 (up - low)
  match sread (s32 read_count) (lualibc_fseek (s32 low) 0 io).2 with
  | (none, io) => (⟨0, []⟩, io.err)
  | (some [], io) => (⟨0, []⟩, io.eof true)
  | (some data, io) =>
      let temp := decodeBlocks m.decode (data.length / 512) data ++
        (List.range (read_count - data.length)).map m.heap
      let last :=
        if data.length < read_count then
          let size := lualibc_ftell (lualibc_fseek 0 2 io).2
          (if u32 (size.1 - offset) < resid then u32 (size.1 - offset) else resid, size.2)
        else (resid, io)
      (⟨last.1 / size, (temp.drop (offset - low)).take last.1⟩,
        (lualibc_fseek (s32 (offset + last.1)) 0 last.2).2)

/-- What is read of any other file. -/
def plainRead (size resid : ℕ) (io : Io ν) : Got × Io ν :=
  match sread (s32 resid) io with
  | (none, io) => (⟨0, []⟩, io.err)
  | (some [], io) => (⟨0, []⟩, io.eof true)
  | (some data, io) => (⟨data.length / size, data⟩, io)

def lualibc_fread (m : Machine) (size count : ℕ) (io : Io ν) : Got × Io ν :=
  let told := lualibc_ftell io
  let resid := u32 (count * size)
  if resid = 0 then (⟨0, []⟩, told.2)
  else if io.fp.encrypted then decodeRead m size resid (u32 told.1) told.2
  else plainRead size resid told.2

def lualibc_getc (m : Machine) (io : Io ν) : ℤ × Io ν :=
  let r := lualibc_fread m 1 1 io
  (if r.1.count = 1 then plain (r.1.data.headD (m.heap 0)) else EOF, r.2)

def lualibc_ungetc (io : Io ν) : ℤ × Io ν := (0, (lualibc_fseek (-1) 1 io).2)

def lualibc_fgets (m : Machine) (buf : List UInt8) (n : ℕ) (io : Io ν) :
    Option (List UInt8) × Io ν :=
  fgets (lualibc_getc m) buf n io

def cantwrite (fp : FILE) : Bool := fp.access ≠ some .SWR ∧ fp.access ≠ some .SRW

/-- The data are `size * count` bytes. `EOF` is returned through an unsigned type. -/
def lualibc_fwrite (data : List UInt8) (size : ℕ) (io : Io ν) : ℕ × Io ν :=
  if cantwrite io.fp then (u32 EOF, io)
  else
    match swrite data io with
    | (some (w + 1), io) => ((w + 1) / size, io)
    | (_, io) => (u32 EOF, io.err)

/-! ## Opening and closing -/

/-- The slots of `usual`; the streams `stdin`, `stdout` and `stderr` have their own. -/
structure Streams (ν : Type) where
  fs : Fs ν
  usual : List FILE

def FOPEN_MAX : ℕ := 20

/-- `__sflags`, with the flags of `open`; `none` is an illegal mode. -/
def sflags (mode : LuaString) : Option (Access × OpenFlags) :=
  let plus := mode[1]? = some 43 ∨ mode[1]? = some 98 ∧ mode[2]? = some 43
  let access (a : Access) := if plus then .SRW else a
  let flags (r w creat trunc append : Bool) : OpenFlags := ⟨r || plus, w || plus, creat, trunc, append⟩
  if mode[0]? = some 114 then some (access .SRD, flags true false false false false)
  else if mode[0]? = some 119 then some (access .SWR, flags false true true true false)
  else if mode[0]? = some 97 then some (access .SWR, flags false true true false true)
  else none

/-- The first free slot. -/
def sfp (usual : List FILE) : ℕ := usual.findIdx fun fp => fp.access.isNone

def lualibc_fopen (crypto : ν → Bool) (name : ν) (mode : LuaString) (s : Streams ν) :
    Option ℕ × Streams ν :=
  match sflags mode with
  | none => (none, s)
  | some (access, flags) =>
      match s.usual[sfp s.usual]? with
      | none => (none, s)
      | some fp =>
          match s.fs.open name flags with
          | none => (none, s)
          | some (f, fs) =>
              (some (sfp s.usual), ⟨fs, s.usual.set (sfp s.usual) { fp with
                access := some access
                seof := false
                serr := false
                soff := false
                file := f
                encrypted := crypto name }⟩)

def lualibc_fclose (i : ℕ) (s : Streams ν) : ℤ × Streams ν :=
  match s.usual[i]? with
  | none => (EOF, s)
  | some fp =>
      if fp.access = none then (EOF, s)
      else
        let r := s.fs.close fp.file
        (if r.1 then 0 else EOF, ⟨r.2, s.usual.set i { fp with
          access := none
          seof := false
          serr := false
          soff := false }⟩)

/-- A call on the stream of a slot. -/
def onStream {α : Type} (i : ℕ) (f : Io ν → α × Io ν) (s : Streams ν) : Option (α × Streams ν) :=
  s.usual[i]?.map fun fp =>
    let r := f ⟨s.fs, fp⟩
    (r.1, ⟨r.2.fs, s.usual.set i r.2.fp⟩)

end LuatAir200.Stdio
