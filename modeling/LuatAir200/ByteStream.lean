import Mathlib.Algebra.Ring.Int.Defs
import Mathlib.Data.List.Basic

/-!
# Read streams over byte arrays

The calls of the standard library on a stream that is open for reading, over bytes that do
not change. A byte is pushed back only where it was read, so a position stands for the
pushed back bytes as well.
-/
namespace LuatAir200.ByteStream

/-- The position, and the end-of-file indicator. -/
structure Reader where
  pos : ℕ
  eof : Bool
  deriving DecidableEq, Repr

def Reader.start : Reader := ⟨0, false⟩

/-- What is ahead of the position. -/
def Reader.rest (bytes : List UInt8) (r : Reader) : List UInt8 := bytes.drop r.pos

def fread (bytes : List UInt8) (count : ℕ) (r : Reader) : List UInt8 × Reader :=
  let data := (r.rest bytes).take count
  (data, ⟨r.pos + data.length, r.eof || data.length < count⟩)

def getc (bytes : List UInt8) (r : Reader) : Option UInt8 × Reader :=
  let got := fread bytes 1 r
  (got.1.head?, got.2)

/-- What `getc` and `ungetc` return: the character, or `EOF`. -/
def toInt (c : Option UInt8) : ℤ := c.elim (-1) fun b => (b.toNat : ℤ)

/-- At most so many bytes, up to the end of the line. -/
def line : ℕ → List UInt8 → List UInt8
  | 0, _ | _ + 1, [] => []
  | n + 1, b :: bs => if b = 10 then [b] else b :: line n bs

def fgets (bytes : List UInt8) (n : ℕ) (r : Reader) : Option (List UInt8) × Reader :=
  let data := line (n - 1) (r.rest bytes)
  (if data = [] then none else some data,
    ⟨r.pos + data.length, r.eof || (data.length < n - 1 ∧ 10 ∉ data)⟩)

/-- `none` is `EOF`, which is not pushed back. -/
def ungetc (c : Option UInt8) (r : Reader) : Option UInt8 × Reader :=
  match c with
  | some b => (some b, ⟨r.pos - 1, false⟩)
  | none => (none, r)

/-- The position that is asked for: from the start, from here or from the end. -/
def target (bytes : List UInt8) (offset whence : ℤ) (r : Reader) : Option ℤ :=
  if whence = 0 then some offset
  else if whence = 1 then some (r.pos + offset)
  else if whence = 2 then some (bytes.length + offset)
  else none

def fseek (bytes : List UInt8) (offset whence : ℤ) (r : Reader) : Bool × Reader :=
  match target bytes offset whence r with
  | none => (false, r)
  | some p =>
      if 0 ≤ p ∧ p ≤ bytes.length then (true, ⟨p.toNat, false⟩) else (false, r)

variable {bytes : List UInt8}

theorem getc_fst (r : Reader) : (getc bytes r).1 = (r.rest bytes).head? := by
  simp [getc, fread, List.head?_take]

theorem fread_pos_le {count : ℕ} {r : Reader} (h : r.pos ≤ bytes.length) :
    (fread bytes count r).2.pos ≤ bytes.length := by
  simp only [fread, Reader.rest, List.length_take, List.length_drop]
  omega

theorem fseek_pos_le {offset whence : ℤ} {r : Reader} (h : r.pos ≤ bytes.length) :
    (fseek bytes offset whence r).2.pos ≤ bytes.length := by
  unfold fseek
  split
  · exact h
  · split
    · dsimp only
      omega
    · exact h

end LuatAir200.ByteStream
