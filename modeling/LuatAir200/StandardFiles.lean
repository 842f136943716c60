import LuatAir200.ByteStream
import LuatAir200.PosixFiles

/-!
# Streams of the standard library

Streams with a position and an end-of-file indicator over files, as the standard describes
them, where what is written is seen at once. There are so many streams as the list has places.
-/
namespace LuatAir200.StandardFiles
open ByteStream PosixFiles

structure Stream (ν : Type) where
  name : ν
  reader : Reader
  readable : Bool
  writable : Bool
  append : Bool

structure Std (ν : Type) where
  files : ν → Option (List UInt8)
  streams : List (Option (Stream ν))

variable {ν : Type} [DecidableEq ν]

def Std.stream (s : Std ν) (i : ℕ) : Option (Stream ν) := s.streams[i]?.join

def Std.bytes (s : Std ν) (st : Stream ν) : List UInt8 := (s.files st.name).getD []

/-- A read from a stream; one that is not open for reading gives nothing. -/
def Stream.reads {α : Type} (st : Stream ν) (nothing : α) (f : Reader → α × Reader) :
    α × Stream ν :=
  if st.readable then ((f st.reader).1, { st with reader := (f st.reader).2 }) else (nothing, st)

def Stream.seek (st : Stream ν) (size : ℕ) (offset whence : ℤ) : Bool × Stream ν :=
  match target size st.reader.pos offset whence with
  | some p => (true, { st with reader := ⟨p, false⟩ })
  | none => (false, st)

/-- Where a write goes. -/
def Stream.place (st : Stream ν) (size : ℕ) : ℕ := if st.append then size else st.reader.pos

/-- The streams with another one in a place. -/
def Std.put (s : Std ν) (i : ℕ) (st : Option (Stream ν)) : Std ν :=
  { s with streams := s.streams.set i st }

def Std.fopen (name : ν) (o : OpenFlags) (s : Std ν) : Option ℕ × Std ν :=
  let i := s.streams.findIdx Option.isNone
  match found o (s.files name) with
  | none => (none, s)
  | some bytes =>
      if i < s.streams.length then
        (some i, {
          files := Function.update s.files name (some bytes)
          streams := s.streams.set i (some ⟨name, .start, o.readable, o.writable, o.append⟩) })
      else (none, s)

/-- The number of complete items that are written. -/
def Std.fwrite (i : ℕ) (st : Stream ν) (data : List UInt8) (size : ℕ) (s : Std ν) : ℕ × Std ν :=
  if st.writable ∧ data ≠ [] then
    let pos := st.place (s.bytes st).length
    (data.length / size, {
      files := Function.update s.files st.name (some (overwrite (s.bytes st) pos data))
      streams := s.streams.set i (some { st with
        reader := { st.reader with pos := pos + data.length } }) })
  else (0, s)

/-! ## Calls -/

/-- The calls, each with the stream that it is made on. -/
inductive Call (ν : Type)
  | fopen (name : ν) (mode : List UInt8)
  | fclose (i : ℕ)
  | fread (i size count : ℕ)
  | fwrite (i size : ℕ) (data : List UInt8)
  | fgets (i n : ℕ) (buf : List UInt8)
  | getc (i : ℕ)
  | ungetc (i : ℕ) (c : Option UInt8)
  | fseek (i : ℕ) (offset whence : ℤ)
  | ftell (i : ℕ)
  | feof (i : ℕ)

inductive Reply
  | stream (i : Option ℕ)
  | closed
  | items (count : ℕ) (data : List UInt8)
  | wrote (count : ℕ)
  | line (l : Option (List UInt8))
  | char (c : Option UInt8)
  | pushed (c : Option UInt8)
  | sought (done : Bool)
  | place (pos : ℕ)
  | flag (b : Bool)

/-- The modes, and the flags that each stands for. -/
def modeFlags (mode : List UInt8) : Option OpenFlags :=
  let plus : Bool := mode.contains 43
  let rest := mode.tail
  if rest = [] ∨ rest = [98] ∨ rest = [43] ∨ rest = [98, 43] ∨ rest = [43, 98] then
    if mode.head? = some 114 then some ⟨true, plus, false, false, false⟩
    else if mode.head? = some 119 then some ⟨plus, true, true, true, false⟩
    else if mode.head? = some 97 then some ⟨plus, true, true, false, true⟩
    else none
  else none

/-- A call on an open stream. -/
def Std.on (i : ℕ) (s : Std ν) (f : Stream ν → Reply × Stream ν) : Option (Reply × Std ν) :=
  (s.stream i).map fun st => ((f st).1, s.put i (some (f st).2))

/-- `none` is a call that the standard does not define. -/
def Std.call (s : Std ν) : Call ν → Option (Reply × Std ν)
  | .fopen name mode => (modeFlags mode).map fun o => (s.fopen name o).map .stream id
  | .fclose i => (s.stream i).map fun _ => (.closed, s.put i none)
  | .fread i size count => s.on i fun st =>
      (st.reads [] fun r => fread (s.bytes st) (size * count) r).map
        (fun data => .items (data.length / size) data) id
  | .fwrite i size data =>
      (s.stream i).map fun st => (s.fwrite i st data size).map .wrote id
  | .fgets i n _ => s.on i fun st =>
      (st.reads none fun r => fgets (s.bytes st) n r).map .line id
  | .getc i => s.on i fun st => (st.reads none fun r => getc (s.bytes st) r).map .char id
  | .ungetc i c => s.on i fun st => (st.reads none fun r => ungetc c r).map .pushed id
  | .fseek i offset whence => s.on i fun st =>
      (st.seek (s.bytes st).length offset whence).map .sought id
  | .ftell i => s.on i fun st => (.place st.reader.pos, st)
  | .feof i => s.on i fun st => (.flag st.reader.eof, st)

end LuatAir200.StandardFiles
