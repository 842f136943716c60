import Mathlib.Algebra.Ring.Int.Defs
import Mathlib.Data.List.Basic
import Mathlib.Logic.Function.Basic

/-!
# Files and descriptors

Regular files as byte arrays, and descriptors with a position of their own. Writing beyond the
end of a file fills the gap with zeros.
-/
namespace LuatAir200.PosixFiles

variable {ν : Type}

/-- An open file description. -/
structure Opened (ν : Type) where
  name : ν
  pos : ℕ
  readable : Bool
  writable : Bool
  append : Bool
  deriving DecidableEq, Repr

/-- The flags of `open`. -/
structure OpenFlags where
  readable : Bool
  writable : Bool
  creat : Bool
  trunc : Bool
  append : Bool
  deriving DecidableEq, Repr

structure Fs (ν : Type) where
  files : ν → Option (List UInt8)
  fds : List (Option (Opened ν))

/-- The bytes of a file with data written at a position. -/
def overwrite (content : List UInt8) (pos : ℕ) (data : List UInt8) : List UInt8 :=
  content.take pos ++ List.replicate (pos - content.length) 0 ++ data ++
    content.drop (pos + data.length)

/-- The place that a seek leads to. -/
def target (size pos : ℕ) (offset whence : ℤ) : Option ℕ :=
  let x := if whence = 0 then some offset
    else if whence = 1 then some (pos + offset)
    else if whence = 2 then some (size + offset)
    else none
  x.bind fun x => if 0 ≤ x then some x.toNat else none

/-! ## Descriptors -/

def lookup (fds : List (Option (Opened ν))) (fd : ℕ) : Option (Opened ν) := fds[fd]?.join

/-- The lowest descriptor that is not in use. -/
def unused (fds : List (Option (Opened ν))) : ℕ := fds.findIdx Option.isNone

def store (fds : List (Option (Opened ν))) (fd : ℕ) (o : Option (Opened ν)) :
    List (Option (Opened ν)) :=
  if fd < fds.length then fds.set fd o else fds ++ [o]

theorem unused_le (fds : List (Option (Opened ν))) : unused fds ≤ fds.length :=
  List.findIdx_le_length

theorem lookup_unused (fds : List (Option (Opened ν))) : lookup fds (unused fds) = none := by
  unfold lookup unused
  by_cases h : fds.findIdx Option.isNone < fds.length
  · have hn := List.findIdx_getElem (w := h)
    rw [List.getElem?_eq_getElem h, Option.join_some, Option.isNone_iff_eq_none.mp hn]
  · rw [List.getElem?_eq_none (Nat.le_of_not_lt h)]
    rfl

theorem lookup_lt {fds : List (Option (Opened ν))} {fd : ℕ} {o : Opened ν}
    (h : lookup fds fd = some o) : fd < fds.length := by
  by_contra hn
  rw [lookup, List.getElem?_eq_none (Nat.le_of_not_lt hn)] at h
  cases h

theorem lookup_store {fds : List (Option (Opened ν))} {fd : ℕ} (h : fd ≤ fds.length)
    (o : Option (Opened ν)) (k : ℕ) :
    lookup (store fds fd o) k = if k = fd then o else lookup fds k := by
  unfold lookup store
  split
  · rename_i hlt
    rw [List.getElem?_set]
    by_cases hk : k = fd
    · rw [if_pos hk.symm, if_pos hk, if_pos hlt]
      rfl
    · rw [if_neg (Ne.symm hk), if_neg hk]
  · obtain rfl : fd = fds.length := by omega
    by_cases hk : k = fds.length
    · simp [hk]
    · rw [if_neg hk]
      by_cases hlt : k < fds.length
      · rw [List.getElem?_append_left hlt]
      · rw [List.getElem?_eq_none (by rw [List.length_append, List.length_singleton]; omega),
          List.getElem?_eq_none (by omega)]

/-! ## Calls -/

variable [DecidableEq ν]

/-- The file that `open` finds, after the flags for it. -/
def found (o : OpenFlags) (content : Option (List UInt8)) : Option (List UInt8) :=
  match content with
  | none => if o.creat then some [] else none
  | some bytes => some (if o.trunc then [] else bytes)

def Fs.open (name : ν) (o : OpenFlags) (fs : Fs ν) : Option (ℕ × Fs ν) :=
  (found o (fs.files name)).map fun bytes =>
    (unused fs.fds, {
      files := Function.update fs.files name (some bytes)
      fds := store fs.fds (unused fs.fds) (some ⟨name, 0, o.readable, o.writable, o.append⟩) })

/-- The bytes of an open file. -/
def Fs.bytes (fs : Fs ν) (o : Opened ν) : List UInt8 := (fs.files o.name).getD []

def Fs.read (fd n : ℕ) (fs : Fs ν) : Option (List UInt8) × Fs ν :=
  match lookup fs.fds fd with
  | none => (none, fs)
  | some o =>
      if o.readable then
        let data := ((fs.bytes o).drop o.pos).take n
        (some data, { fs with fds := store fs.fds fd (some { o with pos := o.pos + data.length }) })
      else (none, fs)

/-- Where a write goes. -/
def Opened.place (o : Opened ν) (size : ℕ) : ℕ := if o.append then size else o.pos

def Fs.write (fd : ℕ) (data : List UInt8) (fs : Fs ν) : Option ℕ × Fs ν :=
  match lookup fs.fds fd with
  | none => (none, fs)
  | some o =>
      if o.writable then
        if data = [] then (some 0, fs)
        else
          let pos := o.place (fs.bytes o).length
          (some data.length, {
            files := Function.update fs.files o.name (some (overwrite (fs.bytes o) pos data))
            fds := store fs.fds fd (some { o with pos := pos + data.length }) })
      else (none, fs)

def Fs.lseek (fd : ℕ) (offset whence : ℤ) (fs : Fs ν) : Option ℕ × Fs ν :=
  match lookup fs.fds fd with
  | none => (none, fs)
  | some o =>
      match target (fs.bytes o).length o.pos offset whence with
      | none => (none, fs)
      | some p => (some p, { fs with fds := store fs.fds fd (some { o with pos := p }) })

def Fs.close (fd : ℕ) (fs : Fs ν) : Bool × Fs ν :=
  match lookup fs.fds fd with
  | none => (false, fs)
  | some _ => (true, { fs with fds := store fs.fds fd none })

end LuatAir200.PosixFiles
