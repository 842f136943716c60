import LuatAir200.StandardFiles
import LuatAir200.StdioModel

/-!
# One stream of the C library

What the functions of `stdio.c` do with a stream that stands at a position of its file.
-/
namespace LuatAir200.Stdio
open Lua PosixFiles LineReads StandardFiles
open ByteStream (Reader)
open ScriptStreams (s32 u32 Got)

variable {ν : Type}

/-- The stream is open on the file, encrypted or not, at a position, which the cached one is if
it is said to be. -/
structure Stands (enc : Bool) (st : Stream ν) (pos : ℕ) (io : Io ν) : Prop where
  isOpen : io.fp.access ≠ none
  writes : cantwrite io.fp = !st.writable
  opened : lookup io.fs.fds io.fp.file = some ⟨st.name, pos, st.readable, st.writable, st.append⟩
  cached : io.fp.soff → io.fp.offset = pos
  kind : io.fp.encrypted = enc

/-- What is left alone: the files, the descriptor of the stream, and the other descriptors. -/
structure Kept (io io' : Io ν) : Prop where
  file : io'.fp.file = io.fp.file
  files : io'.fs.files = io.fs.files
  others : ∀ j, j ≠ io.fp.file → lookup io'.fs.fds j = lookup io.fs.fds j

theorem Kept.refl (io : Io ν) : Kept io io := ⟨rfl, rfl, fun _ _ => rfl⟩

theorem Kept.trans {a b c : Io ν} (hab : Kept a b) (hbc : Kept b c) : Kept a c where
  file := hbc.file.trans hab.file
  files := hbc.files.trans hab.files
  others j hj := (hbc.others j (by rwa [hab.file])).trans (hab.others j hj)

/-- The bytes of the file of a stream. -/
def Io.bytes (io : Io ν) (st : Stream ν) : List UInt8 := (io.fs.files st.name).getD []

variable {enc : Bool} {st : Stream ν} {pos : ℕ} {io : Io ν}

theorem Kept.bytes {io' : Io ν} (h : Kept io io') (st : Stream ν) : io'.bytes st = io.bytes st := by
  rw [Io.bytes, Io.bytes, h.files]

theorem Stands.lt (h : Stands enc st pos io) : io.fp.file < io.fs.fds.length := lookup_lt h.opened

/-- The stream after its descriptor has got another position. -/
theorem Stands.moved (h : Stands enc st pos io) {p : ℕ} {fp : FILE} {files : ν → Option (List UInt8)}
    (hfile : fp.file = io.fp.file) (ha : fp.access = io.fp.access)
    (he : fp.encrypted = io.fp.encrypted) (hc : fp.soff → fp.offset = p) :
    Stands enc st p ⟨⟨files, store io.fs.fds io.fp.file
      (some ⟨st.name, p, st.readable, st.writable, st.append⟩)⟩, fp⟩ where
  isOpen := by rw [ha]; exact h.isOpen
  writes := by rw [← h.writes, cantwrite, cantwrite, ha]
  opened := by
    dsimp only
    rw [hfile, lookup_store h.lt.le, if_pos rfl]
  cached := hc
  kind := he.trans h.kind

theorem Stands.others (h : Stands enc st pos io) (o : Option (Opened ν)) (j : ℕ) (hj : j ≠ io.fp.file) :
    lookup (store io.fs.fds io.fp.file o) j = lookup io.fs.fds j := by
  rw [lookup_store h.lt.le, if_neg hj]

/-- Flags that do not matter for the position. -/
theorem Stands.flagged (h : Stands enc st pos io) {fp : FILE} (hfile : fp.file = io.fp.file)
    (ha : fp.access = io.fp.access) (he : fp.encrypted = io.fp.encrypted)
    (hc : fp.soff → fp.offset = pos) : Stands enc st pos ⟨io.fs, fp⟩ where
  isOpen := by rw [ha]; exact h.isOpen
  writes := by rw [← h.writes, cantwrite, cantwrite, ha]
  opened := by
    dsimp only
    rw [hfile]
    exact h.opened
  cached := hc
  kind := he.trans h.kind

/-! ## Positions -/

theorem sseek_stands (h : Stands enc st pos io) (offset whence : ℤ) :
    (sseek offset whence io).1 = target (io.bytes st).length pos offset whence ∧
    Stands enc st ((target (io.bytes st).length pos offset whence).getD pos) (sseek offset whence io).2 ∧
    Kept io (sseek offset whence io).2 := by
  simp only [sseek, Fs.lseek, h.opened, Fs.bytes]
  cases ht : target (io.bytes st).length pos offset whence with
  | none =>
      rw [Io.bytes] at ht
      simp only [ht, Option.getD_none]
      refine ⟨trivial, h.flagged rfl rfl rfl ?_, rfl, rfl, fun _ _ => rfl⟩
      intro hs
      cases hs
  | some p =>
      rw [Io.bytes] at ht
      simp only [ht, Option.getD_some]
      exact ⟨trivial, h.moved rfl rfl rfl (fun _ => rfl), rfl, rfl, h.others _⟩

theorem fseek_stands (h : Stands enc st pos io) (offset whence : ℤ) :
    (lualibc_fseek offset whence io).1 =
      (if (target (io.bytes st).length pos offset whence).isSome then 0 else -1) ∧
    Stands enc st ((target (io.bytes st).length pos offset whence).getD pos)
      (lualibc_fseek offset whence io).2 ∧
    Kept io (lualibc_fseek offset whence io).2 := by
  obtain ⟨hr, hs, hk⟩ := sseek_stands h offset whence
  unfold lualibc_fseek
  cases hseek : sseek offset whence io with
  | mk p io' =>
      rw [hseek] at hr hs hk
      cases p with
      | some p =>
          rw [← hr] at hs ⊢
          exact ⟨rfl, hs, hk⟩
      | none =>
          rw [← hr] at hs ⊢
          refine ⟨rfl, hs.flagged rfl rfl rfl hs.cached, hk.file, hk.files, hk.others⟩

theorem target_here (size pos : ℕ) : target size pos 0 1 = some pos := by
  simp [target]

theorem ftell_stands (h : Stands enc st pos io) :
    (lualibc_ftell io).1 = pos ∧ Stands enc st pos (lualibc_ftell io).2 ∧ Kept io (lualibc_ftell io).2 := by
  unfold lualibc_ftell
  by_cases hs : io.fp.soff
  · rw [if_pos hs]
    exact ⟨h.cached hs, h, Kept.refl io⟩
  · rw [if_neg hs]
    obtain ⟨hr, hs, hk⟩ := sseek_stands h 0 1
    rw [target_here] at hr hs
    cases hseek : sseek 0 1 io with
    | mk p io' =>
        rw [hseek] at hr hs hk
        dsimp only at hr
        rw [hr]
        exact ⟨rfl, hs, hk⟩

/-! ## Reading -/

theorem sread_stands (h : Stands enc st pos io) {n : ℕ} :
    (sread n io).1 = (if st.readable then some (((io.bytes st).drop pos).take n) else none) ∧
    Stands enc st (pos + if st.readable then (((io.bytes st).drop pos).take n).length else 0)
      (sread n io).2 ∧
    Kept io (sread n io).2 := by
  have hn : ¬(n : ℤ) < 0 := by omega
  simp only [sread, hn, if_false, Int.toNat_natCast, Fs.read, h.opened, Fs.bytes]
  by_cases hr : st.readable
  · simp only [if_pos hr]
    refine ⟨rfl, h.moved rfl rfl rfl ?_, rfl, rfl, h.others _⟩
    intro hs
    dsimp only
    rw [h.cached hs, Nat.cast_add]
    rfl
  · simp only [if_neg hr]
    refine ⟨trivial, h.flagged rfl rfl rfl ?_, rfl, rfl, fun _ _ => rfl⟩
    intro hs
    cases hs

/-- What a read gives, and the position after it. -/
def got (st : Stream ν) (bytes : List UInt8) (pos n : ℕ) : List UInt8 :=
  if st.readable then (bytes.drop pos).take n else []

theorem u32_natCast {n : ℕ} (h : n < 4294967296) : u32 n = n := by
  unfold u32
  omega

theorem s32_natCast {n : ℕ} (h : n < 2147483648) : s32 n = n := by
  unfold s32
  omega

theorem plainRead_stands (h : Stands enc st pos io) {size n : ℕ} (hn : n < 2147483648) :
    (plainRead size n io).1 = ⟨(got st (io.bytes st) pos n).length / size, got st (io.bytes st) pos n⟩ ∧
    Stands enc st (pos + (got st (io.bytes st) pos n).length) (plainRead size n io).2 ∧
    Kept io (plainRead size n io).2 := by
  obtain ⟨hr, hs, hk⟩ := @sread_stands _ _ _ _ _ h n
  have hlen : (if st.readable then (((io.bytes st).drop pos).take n).length else 0) =
      (got st (io.bytes st) pos n).length := by
    rw [got]
    split <;> rfl
  have hdata : (if st.readable then some (((io.bytes st).drop pos).take n) else none).getD [] =
      got st (io.bytes st) pos n := by
    rw [got]
    split <;> rfl
  rw [hlen] at hs
  rw [← hr] at hdata
  rw [plainRead, s32_natCast hn]
  cases hread : sread n io with
  | mk data io' =>
      rw [hread] at hs hk hdata
      cases data with
      | none =>
          have hg : got st (io.bytes st) pos n = [] := hdata.symm
          rw [hg] at hs ⊢
          exact ⟨by simp, hs.flagged rfl rfl rfl hs.cached, hk.file, hk.files, hk.others⟩
      | some data =>
          have hg : data = got st (io.bytes st) pos n := hdata
          cases data with
          | nil =>
              rw [← hg] at hs ⊢
              exact ⟨by simp, hs.flagged rfl rfl rfl hs.cached, hk.file, hk.files, hk.others⟩
          | cons b data =>
              rw [← hg] at hs ⊢
              exact ⟨rfl, hs, hk⟩

theorem fread_stands (h : Stands false st pos io) (m : Machine) {size count : ℕ}
    (hn : size * count < 2147483648) :
    (lualibc_fread m size count io).1 =
      ⟨(got st (io.bytes st) pos (size * count)).length / size,
        got st (io.bytes st) pos (size * count)⟩ ∧
    Stands false st (pos + (got st (io.bytes st) pos (size * count)).length)
      (lualibc_fread m size count io).2 ∧
    Kept io (lualibc_fread m size count io).2 := by
  obtain ⟨-, ht, hk⟩ := ftell_stands h
  have hresid : u32 ((count : ℤ) * size) = size * count := by
    rw [← Int.natCast_mul, Nat.mul_comm, u32_natCast (by omega)]
  have heq : lualibc_fread m size count io = if size * count = 0 then (⟨0, []⟩, (lualibc_ftell io).2)
      else plainRead size (size * count) (lualibc_ftell io).2 := by
    rw [lualibc_fread, hresid, h.kind]
    rfl
  rw [heq]
  by_cases hz : size * count = 0
  · have hg : got st (io.bytes st) pos (size * count) = [] := by
      rw [got, hz, List.take_zero, ite_self]
    rw [if_pos hz, hg]
    exact ⟨by simp, ht, hk⟩
  · obtain ⟨hg, hs, hr⟩ := @plainRead_stands _ _ _ _ _ ht size _ hn
    rw [if_neg hz]
    rw [hk.bytes] at hg hs
    exact ⟨hg, hs, hk.trans hr⟩

theorem getc_stands (h : Stands false st pos io) (m : Machine) :
    (lualibc_getc m io).1 = plainInt (got st (io.bytes st) pos 1).head? ∧
    Stands false st (pos + (got st (io.bytes st) pos 1).length) (lualibc_getc m io).2 ∧
    Kept io (lualibc_getc m io).2 := by
  have h1 : 1 * 1 < 2147483648 := by omega
  obtain ⟨hg, hs⟩ := fread_stands h m h1
  refine ⟨?_, hs⟩
  simp only [lualibc_getc, hg, Nat.mul_one]
  have hl : (got st (io.bytes st) pos 1).length ≤ 1 := by
    rw [got]
    split
    · exact List.length_take_le 1 _
    · exact Nat.zero_le 1
  cases hd : got st (io.bytes st) pos 1 with
  | nil => rfl
  | cons c data =>
      rw [hd, List.length_cons] at hl
      have hdata : data = [] := List.eq_nil_of_length_eq_zero (by omega)
      rw [hdata]
      simp [plainInt]

/-- Character by character a stream gives the bytes of its file, if it is open for reading. -/
theorem delivers (m : Machine) (st : Stream ν) (io : Io ν) :
    Delivers (lualibc_getc m) (fun pos io' => Stands false st pos io' ∧ Kept io io')
      (if st.readable then io.bytes st else []) := by
  intro pos io' h
  obtain ⟨hc, hs, hk⟩ := getc_stands h.1 m
  rw [h.2.bytes, got] at hc hs
  by_cases hr : st.readable
  · rw [if_pos hr] at hc hs ⊢
    refine ⟨?_, hs, h.2.trans hk⟩
    rw [hc, List.head?_take, if_neg Nat.one_ne_zero]
  · rw [if_neg hr] at hc hs ⊢
    rw [List.drop_nil]
    exact ⟨hc, hs, h.2.trans hk⟩

theorem ungetc_stands (h : Stands enc st pos io) :
    Stands enc st (pos - 1) (lualibc_ungetc io).2 ∧ Kept io (lualibc_ungetc io).2 := by
  obtain ⟨-, hs, hk⟩ := fseek_stands h (-1) 1
  have ht : (target (io.bytes st).length pos (-1) 1).getD pos = pos - 1 := by
    simp only [target, Int.one_ne_zero, if_false, if_true, Option.bind_some]
    split
    · rw [Option.getD_some]
      omega
    · rw [Option.getD_none]
      omega
  rw [ht] at hs
  exact ⟨hs, hk⟩

/-! ## Writing -/

variable [DecidableEq ν]

theorem fwrite_stands (h : Stands enc st pos io) {data : List UInt8} {size : ℕ} (hw : st.writable)
    (hd : data ≠ []) :
    (lualibc_fwrite data size io).1 = data.length / size ∧
    Stands enc st ((if st.append then (io.bytes st).length else pos) + data.length)
      (lualibc_fwrite data size io).2 ∧
    (lualibc_fwrite data size io).2.fp.file = io.fp.file ∧
    (lualibc_fwrite data size io).2.fs.files = Function.update io.fs.files st.name
      (some (overwrite (io.bytes st) (if st.append then (io.bytes st).length else pos) data)) ∧
    ∀ j, j ≠ io.fp.file → lookup (lualibc_fwrite data size io).2.fs.fds j = lookup io.fs.fds j := by
  obtain ⟨b, bs, rfl⟩ := List.exists_cons_of_ne_nil hd
  have hc : (!st.writable) = false := by rw [hw, Bool.not_true]
  rw [lualibc_fwrite, h.writes, hc]
  simp only [Bool.false_eq_true, if_false, swrite, Fs.write, h.opened, if_pos hw, reduceCtorEq,
    Opened.place, Fs.bytes, List.length_cons]
  refine ⟨trivial, h.moved rfl rfl rfl ?_, trivial, rfl, h.others _⟩
  intro hs
  cases hs

end LuatAir200.Stdio
