import LuatAir200.Machine
import LuatAir200.StdioStreams

/-!
# The C library as streams over files

All streams of `stdio.c` next to the streams of the standard, while both are used by the same
calls.
-/
namespace LuatAir200.Stdio
open Lua PosixFiles LineReads StandardFiles
open ByteStream (toInt)
open ScriptStreams (Got Long)

variable {ν : Type}

/-- A slot is free, or open as the stream of the standard is. -/
def Linked (fs : Fs ν) (fp : FILE) : Option (Stream ν) → Prop
  | none => fp.access = none
  | some st => Stands false st st.reader.pos ⟨fs, fp⟩

/-- The files are the same, each slot is linked to the stream in its place, and no two open
slots share a descriptor. -/
structure Refines (std : Std ν) (s : Streams ν) : Prop where
  files : s.fs.files = std.files
  length : s.usual.length = std.streams.length
  slot : ∀ (i : ℕ) (fp : FILE), s.usual[i]? = some fp → Linked s.fs fp (std.stream i)
  apart : ∀ (i j : ℕ) (fp fq : FILE), i ≠ j → s.usual[i]? = some fp → s.usual[j]? = some fq →
    fp.access ≠ none → fq.access ≠ none → fp.file ≠ fq.file

/-! ## Slots -/

variable {std : Std ν} {s : Streams ν} {i : ℕ} {st : Stream ν}

theorem stream_lt (h : std.stream i = some st) : i < std.streams.length := by
  by_contra hn
  rw [Std.stream, List.getElem?_eq_none (Nat.le_of_not_lt hn)] at h
  cases h

theorem stream_set (streams : List (Option (Stream ν))) (files : ν → Option (List UInt8)) {i : ℕ}
    (h : i < streams.length) (o : Option (Stream ν)) (j : ℕ) :
    (Std.mk files (streams.set i o)).stream j = if j = i then o else streams[j]?.join := by
  unfold Std.stream
  rw [List.getElem?_set]
  by_cases hj : j = i
  · rw [if_pos hj.symm, if_pos hj, if_pos h, Option.join_some]
  · rw [if_neg (Ne.symm hj), if_neg hj]

/-- The slot of an open stream. -/
theorem Refines.stands (h : Refines std s) (hst : std.stream i = some st) :
    ∃ fp, s.usual[i]? = some fp ∧ Stands false st st.reader.pos ⟨s.fs, fp⟩ := by
  have hlt : i < s.usual.length := by
    rw [h.length]
    exact stream_lt hst
  refine ⟨s.usual[i], List.getElem?_eq_getElem hlt, ?_⟩
  have hl := h.slot i _ (List.getElem?_eq_getElem hlt)
  rw [hst] at hl
  exact hl

/-- Another slot is not touched by what is done with the descriptor of this one. -/
theorem Linked.kept {fs fs' : Fs ν} {fp : FILE} {o : Option (Stream ν)} (h : Linked fs fp o)
    (hl : fp.access ≠ none → lookup fs'.fds fp.file = lookup fs.fds fp.file) : Linked fs' fp o := by
  cases o with
  | none => exact h
  | some st =>
      have h : Stands false st st.reader.pos ⟨fs, fp⟩ := h
      exact ⟨h.isOpen, h.writes, (hl h.isOpen).trans h.opened, h.cached, h.kind⟩

/-- A slot gets another stream, while the others keep their descriptors. -/
theorem Refines.put (h : Refines std s) {fp : FILE} (hfp : s.usual[i]? = some fp)
    {o : Option (Stream ν)} {io : Io ν} (hs : Linked io.fs io.fp o)
    (hfile : io.fp.access ≠ none → ∀ (j : ℕ) (fq : FILE), j ≠ i → s.usual[j]? = some fq → fq.access ≠ none →
      io.fp.file ≠ fq.file)
    (hothers : ∀ (j : ℕ) (fq : FILE), j ≠ i → s.usual[j]? = some fq → fq.access ≠ none →
      lookup io.fs.fds fq.file = lookup s.fs.fds fq.file) :
    Refines ⟨io.fs.files, std.streams.set i o⟩ ⟨io.fs, s.usual.set i io.fp⟩ := by
  have hlt : i < s.usual.length := (List.getElem?_eq_some_iff.mp hfp).1
  have hlt' : i < std.streams.length := by rwa [← h.length]
  have hget (j : ℕ) (fq : FILE) (hj : (s.usual.set i io.fp)[j]? = some fq) :
      j = i ∧ fq = io.fp ∨ j ≠ i ∧ s.usual[j]? = some fq := by
    rw [List.getElem?_set] at hj
    by_cases hji : j = i
    · rw [if_pos hji.symm, if_pos hlt] at hj
      exact .inl ⟨hji, (Option.some.inj hj).symm⟩
    · rw [if_neg (Ne.symm hji)] at hj
      exact .inr ⟨hji, hj⟩
  refine ⟨rfl, ?_, ?_, ?_⟩
  · simp only [List.length_set, h.length]
  · intro j fq hj
    rw [stream_set _ _ hlt']
    obtain ⟨rfl, rfl⟩ | ⟨hne, hj⟩ := hget j fq hj
    · rw [if_pos rfl]
      exact hs
    · rw [if_neg hne]
      exact (h.slot j fq hj).kept (hothers j fq hne hj)
  · intro j k fq fr hjk hj hk ha hb
    obtain ⟨rfl, rfl⟩ | ⟨hnj, hj'⟩ := hget j fq hj
    · obtain ⟨rfl, rfl⟩ | ⟨hnk, hk'⟩ := hget k fr hk
      · exact absurd rfl hjk
      · exact hfile ha k fr hnk hk' hb
    · obtain ⟨rfl, rfl⟩ | ⟨hnk, hk'⟩ := hget k fr hk
      · exact (hfile hb j fq hnj hj' ha).symm
      · exact h.apart j k fq fr hjk hj' hk' ha hb

/-- A call on an open stream that leaves the other descriptors alone. -/
theorem Refines.called (h : Refines std s) {fp : FILE} (hfp : s.usual[i]? = some fp)
    (ha : fp.access ≠ none) {st' : Stream ν} {io : Io ν} (hs : Stands false st' st'.reader.pos io)
    (hfile : io.fp.file = fp.file)
    (hothers : ∀ j, j ≠ fp.file → lookup io.fs.fds j = lookup s.fs.fds j) :
    Refines ⟨io.fs.files, std.streams.set i (some st')⟩ ⟨io.fs, s.usual.set i io.fp⟩ := by
  refine h.put hfp hs ?_ ?_
  · intro _ j fq hj hq hb
    rw [hfile]
    exact h.apart i j fp fq (Ne.symm hj) hfp hq ha hb
  · intro j fq hj hq hb
    exact hothers _ (h.apart j i fq fp hj hq hfp hb ha)

/-! ## Answers -/

inductive Answer
  | stream (i : Option ℕ)
  | closed (x : ℤ)
  | items (got : Got)
  | wrote (count : ℕ)
  | line (buf : Option (List UInt8))
  | char (c : ℤ)
  | pushed (c : ℤ)
  | sought (x : ℤ)
  | place (x : ℤ)
  | flag (b : Bool)

/-- The answer is what the standard says, the value of `ungetc` apart. -/
def Says : Answer → Reply → Prop
  | .stream i, .stream j => i = j
  | .closed x, .closed => x = 0
  | .items got, .items count data => got = ⟨count, data⟩
  | .wrote n, .wrote count => n = count
  | .line buf, .line l => Shows buf l
  | .char c, .char b => c = toInt b
  | .pushed _, .pushed _ => True
  | .sought x, .sought done => x = if done then 0 else -1
  | .place x, .place pos => x = pos
  | .flag a, .flag b => a = b
  | _, _ => False

/-- `ungetc` returns the character that it has pushed back. -/
def Returns (a : Answer) : Call ν → Prop
  | .ungetc _ c => a = .pushed (toInt c)
  | _ => True

/-- The streams of `stdio.c` and those of the standard. -/
structure Pair (ν : Type) where
  lib : Streams ν
  std : Std ν

/-- The position of an open stream. -/
def position (s : Streams ν) (i : ℕ) : Option ℕ :=
  s.usual[i]?.bind fun fp =>
    if fp.access = none then none else (lookup s.fs.fds fp.file).map Opened.pos

/-- The same files, and the same streams at the same positions. -/
def Same (w : Pair ν) : Prop :=
  w.lib.fs.files = w.std.files ∧
    ∀ i, position w.lib i = (w.std.stream i).map fun st => st.reader.pos

/-! ## Calls on one stream -/

theorem Stands.reader {pos : ℕ} {io : Io ν} (h : Stands false st pos io) (r : ByteStream.Reader) :
    Stands false { st with reader := r } pos io :=
  ⟨h.isOpen, h.writes, h.opened, h.cached, h.kind⟩

theorem Refines.same (h : Refines std s) : Same ⟨s, std⟩ := by
  refine ⟨h.files, fun i => ?_⟩
  unfold position
  cases hst : std.stream i with
  | some st =>
      obtain ⟨fp, hfp, hs⟩ := h.stands hst
      have hopen : fp.access ≠ none := hs.isOpen
      have hl : lookup s.fs.fds fp.file = _ := hs.opened
      simp [hfp, hopen, hl]
  | none =>
      cases hfp : s.usual[i]? with
      | none => rfl
      | some fp =>
          have hl := h.slot i fp hfp
          rw [hst] at hl
          have hl : fp.access = none := hl
          simp [hl]

/-- What a call on an open stream returns and leaves. -/
theorem Refines.on {α : Type} (h : Refines std s) (hst : std.stream i = some st)
    (f : Io ν → α × Io ν) :
    ∃ fp, s.usual[i]? = some fp ∧ Stands false st st.reader.pos ⟨s.fs, fp⟩ ∧ i < s.usual.length ∧
      onStream i f s =
        some ((f ⟨s.fs, fp⟩).1, ⟨(f ⟨s.fs, fp⟩).2.fs, s.usual.set i (f ⟨s.fs, fp⟩).2.fp⟩) := by
  obtain ⟨fp, hfp, hs⟩ := h.stands hst
  refine ⟨fp, hfp, hs, (List.getElem?_eq_some_iff.mp hfp).1, ?_⟩
  simp only [onStream, hfp, Option.map_some]

/-- After a call that writes nothing. -/
theorem Refines.kept (h : Refines std s) {fp : FILE} (hfp : s.usual[i]? = some fp)
    (hs : Stands false st st.reader.pos ⟨s.fs, fp⟩) {st' : Stream ν} {io : Io ν}
    (hs' : Stands false st' st'.reader.pos io) (hk : Kept ⟨s.fs, fp⟩ io) :
    Refines (std.put i (some st')) ⟨io.fs, s.usual.set i io.fp⟩ := by
  have hr := h.called hfp hs.isOpen hs' hk.file hk.others
  rw [hk.files, h.files] at hr
  exact hr

theorem Refines.bytes (h : Refines std s) (fp : FILE) (st : Stream ν) :
    Io.bytes ⟨s.fs, fp⟩ st = std.bytes st := by
  rw [Io.bytes, h.files, Std.bytes]

/-- The two sides of a call on an open stream. -/
theorem Refines.sides {α : Type} (h : Refines std s) {f : Io ν → α × Io ν} {A : α → Answer}
    {g : Stream ν → Reply × Stream ν} {a : Answer × Streams ν} {r : Reply × Std ν}
    (ha : (onStream i f s).map (fun x => x.map A id) = some a) (hr : std.on i g = some r) :
    ∃ st fp, std.stream i = some st ∧ s.usual[i]? = some fp ∧
      Stands false st st.reader.pos ⟨s.fs, fp⟩ ∧ i < s.usual.length ∧
      a = (A (f ⟨s.fs, fp⟩).1, ⟨(f ⟨s.fs, fp⟩).2.fs, s.usual.set i (f ⟨s.fs, fp⟩).2.fp⟩) ∧
      r = ((g st).1, std.put i (some (g st).2)) := by
  obtain ⟨st, hst, rfl⟩ := Option.map_eq_some_iff.mp hr
  obtain ⟨fp, hfp, hs, hi, ho⟩ := h.on hst f
  rw [ho] at ha
  exact ⟨st, fp, hst, hfp, hs, hi, (Option.some.inj ha).symm, rfl⟩

/-- What a read gives is what the standard says, as is the position after it. -/
theorem reads_fread (bytes : List UInt8) (n : ℕ) (st : Stream ν) :
    (st.reads [] (ByteStream.fread bytes n)).1 = got st bytes st.reader.pos n ∧
    (st.reads [] (ByteStream.fread bytes n)).2.reader.pos =
      st.reader.pos + (got st bytes st.reader.pos n).length ∧
    ∃ r, (st.reads [] (ByteStream.fread bytes n)).2 = { st with reader := r } := by
  unfold Stream.reads got
  by_cases hr : st.readable
  · rw [if_pos hr, if_pos hr]
    exact ⟨rfl, rfl, _, rfl⟩
  · rw [if_neg hr, if_neg hr]
    exact ⟨rfl, rfl, st.reader, rfl⟩

theorem reads_getc (bytes : List UInt8) (st : Stream ν) :
    (st.reads none (ByteStream.getc bytes)).1 = (got st bytes st.reader.pos 1).head? ∧
    (st.reads none (ByteStream.getc bytes)).2.reader.pos =
      st.reader.pos + (got st bytes st.reader.pos 1).length ∧
    ∃ r, (st.reads none (ByteStream.getc bytes)).2 = { st with reader := r } := by
  unfold Stream.reads got
  by_cases hr : st.readable
  · rw [if_pos hr, if_pos hr]
    exact ⟨rfl, rfl, _, rfl⟩
  · rw [if_neg hr, if_neg hr]
    exact ⟨rfl, rfl, st.reader, rfl⟩

theorem head?_got (bytes : List UInt8) (st : Stream ν) :
    (got st bytes st.reader.pos 1).head? =
      (st.reader.rest (if st.readable then bytes else [])).head? := by
  unfold got ByteStream.Reader.rest
  split
  · rw [List.head?_take, if_neg Nat.one_ne_zero]
  · rw [List.drop_nil]

theorem reads_fgets (bytes : List UInt8) (n : ℕ) (st : Stream ν) :
    (st.reads none (ByteStream.fgets bytes n)).1 =
      (ByteStream.fgets (if st.readable then bytes else []) n st.reader).1 ∧
    (st.reads none (ByteStream.fgets bytes n)).2.reader.pos =
      (ByteStream.fgets (if st.readable then bytes else []) n st.reader).2.pos ∧
    ∃ r, (st.reads none (ByteStream.fgets bytes n)).2 = { st with reader := r } := by
  unfold Stream.reads
  by_cases hr : st.readable
  · rw [if_pos hr, if_pos hr]
    exact ⟨rfl, rfl, _, rfl⟩
  · rw [if_neg hr, if_neg hr]
    have hline : ByteStream.line (n - 1) [] = [] := by cases n - 1 <;> rfl
    refine ⟨?_, ?_, st.reader, rfl⟩
    · simp [ByteStream.fgets, ByteStream.Reader.rest, hline]
    · simp [ByteStream.fgets, ByteStream.Reader.rest, hline]

/-- A call answers as the standard says, and all streams stay linked. -/
def Out (a : Answer × Streams ν) (r : Reply × Std ν) : Prop := Says a.1 r.1 ∧ Refines r.2 a.2

/-- A call on an open stream that writes nothing and leads to the position of the standard. -/
theorem Refines.out (h : Refines std s) {fp : FILE} (hfp : s.usual[i]? = some fp)
    (hs : Stands false st st.reader.pos ⟨s.fs, fp⟩) {io : Io ν} {pos : ℕ} (hs' : Stands false st pos io)
    (hk : Kept ⟨s.fs, fp⟩ io) {st' : Stream ν} (hst' : ∃ r, st' = { st with reader := r })
    (hpos : st'.reader.pos = pos) :
    Refines (std.put i (some st')) ⟨io.fs, s.usual.set i io.fp⟩ := by
  obtain ⟨r, rfl⟩ := hst'
  have hpos : r.pos = pos := hpos
  subst hpos
  exact h.kept hfp hs (hs'.reader r) hk

theorem sflags_modeFlags (mode : LuaString) {o : OpenFlags} (h : modeFlags mode = some o) :
    ∃ access, sflags mode = some (access, o) ∧
      decide (access ≠ .SWR ∧ access ≠ .SRW) = !o.writable := by
  cases mode with
  | nil => cases h
  | cons c rest =>
      simp only [modeFlags, List.tail_cons, List.head?_cons, Option.some.injEq] at h
      by_cases hrest : rest = [] ∨ rest = [98] ∨ rest = [43] ∨ rest = [98, 43] ∨ rest = [43, 98]
      · rw [if_pos hrest] at h
        by_cases hr : c = 114
        · subst hr
          obtain rfl | rfl | rfl | rfl | rfl := hrest
          all_goals
            cases h
            exact ⟨_, rfl, rfl⟩
        by_cases hw : c = 119
        · subst hw
          obtain rfl | rfl | rfl | rfl | rfl := hrest
          all_goals
            cases h
            exact ⟨_, rfl, rfl⟩
        by_cases ha : c = 97
        · subst ha
          obtain rfl | rfl | rfl | rfl | rfl := hrest
          all_goals
            cases h
            exact ⟨_, rfl, rfl⟩
        · rw [if_neg hr, if_neg hw, if_neg ha] at h
          cases h
      · rw [if_neg hrest] at h
        cases h

theorem Refines.isNone (h : Refines std s) :
    s.usual.map (fun fp => fp.access.isNone) = std.streams.map Option.isNone := by
  apply List.ext_getElem
  · simp only [List.length_map, h.length]
  · intro k hk hk'
    rw [List.length_map] at hk hk'
    have hl := h.slot k _ (List.getElem?_eq_getElem hk)
    have hst : std.stream k = std.streams[k] := by
      rw [Std.stream, List.getElem?_eq_getElem hk', Option.join_some]
    rw [List.getElem_map, List.getElem_map, ← hst]
    cases ho : std.stream k with
    | none =>
        rw [ho] at hl
        have hl : s.usual[k].access = none := hl
        rw [hl]
        rfl
    | some st =>
        rw [ho] at hl
        have hl : s.usual[k].access ≠ none := Stands.isOpen hl
        rw [Option.isNone_some, Bool.eq_false_iff]
        exact fun hn => hl (Option.isNone_iff_eq_none.mp hn)

theorem Refines.sfp (h : Refines std s) : Stdio.sfp s.usual = std.streams.findIdx Option.isNone := by
  have hm : (s.usual.map (fun fp => fp.access.isNone)).findIdx id =
      (std.streams.map Option.isNone).findIdx id := by rw [h.isNone]
  rw [List.findIdx_map, List.findIdx_map] at hm
  exact hm

/-- The descriptor of an open slot is in use. -/
theorem Refines.in_use (h : Refines std s) {j : ℕ} {fq : FILE} (hq : s.usual[j]? = some fq)
    (hb : fq.access ≠ none) : fq.file ≠ unused s.fs.fds := by
  intro he
  have hl := h.slot j fq hq
  cases ho : std.stream j with
  | none =>
      rw [ho] at hl
      exact hb hl
  | some st =>
      rw [ho] at hl
      have hl : lookup s.fs.fds fq.file = _ := Stands.opened hl
      rw [he, lookup_unused] at hl
      cases hl

theorem fclose_out (h : Refines std s) (hst : std.stream i = some st) :
    Out ((lualibc_fclose i s).map .closed id) (.closed, std.put i none) := by
  obtain ⟨fp, hfp, hs⟩ := h.stands hst
  have hopen : fp.access ≠ none := hs.isOpen
  have hl : lookup s.fs.fds fp.file = _ := hs.opened
  unfold lualibc_fclose Fs.close
  simp only [hfp, if_neg hopen, hl, if_true]
  refine ⟨rfl, ?_⟩
  have hput := @Refines.put ν std s i h _ hfp none
    ⟨⟨s.fs.files, store s.fs.fds fp.file none⟩, { fp with
      access := none
      seof := false
      serr := false
      soff := false }⟩ rfl ?_ ?_
  · rw [h.files] at hput
    simp only [Prod.map, id, h.files]
    exact hput
  · intro ha
    exact absurd rfl ha
  · intro j fq hj hq hb
    rw [lookup_store (lookup_lt hl).le, if_neg (h.apart j i fq fp hj hq hfp hb hopen)]

/-! ## Calls -/

variable [DecidableEq ν]

/-- `none` is a call on a slot that there is not. -/
def call (m : Machine) (crypto : ν → Bool) (s : Streams ν) : Call ν → Option (Answer × Streams ν)
  | .fopen name mode => some ((lualibc_fopen crypto name mode s).map .stream id)
  | .fclose i => some ((lualibc_fclose i s).map .closed id)
  | .fread i size count => (onStream i (lualibc_fread m size count) s).map (·.map .items id)
  | .fwrite i size data => (onStream i (lualibc_fwrite data size) s).map (·.map .wrote id)
  | .fgets i n buf => (onStream i (lualibc_fgets m buf n) s).map (·.map .line id)
  | .getc i => (onStream i (lualibc_getc m) s).map (·.map .char id)
  | .ungetc i _ => (onStream i lualibc_ungetc s).map (·.map .pushed id)
  | .fseek i offset whence => (onStream i (lualibc_fseek offset whence) s).map (·.map .sought id)
  | .ftell i => (onStream i lualibc_ftell s).map (·.map .place id)
  | .feof i => (onStream i (fun io => (feof io, io)) s).map (·.map .flag id)

/-- The bytes that a stream can read. -/
def readableBytes (std : Std ν) (st : Stream ν) : List UInt8 :=
  if st.readable then std.bytes st else []

/-- The calls that the claim of the standard is about: objects have fewer than 2^31 bytes, only
the byte that was read last is pushed back, and the file is not encrypted. -/
def Legal (crypto : ν → Bool) (std : Std ν) : Call ν → Prop
  | .fopen name _ => crypto name = false
  | .fread _ size count => size * count < 2147483648
  | .fwrite _ size data => size ∣ data.length ∧ data.length < 2147483648
  | .fgets _ n buf => 2 ≤ n ∧ n < 2147483648 ∧ buf.length = n
  | .ungetc i (some b) => ∃ st ∈ std.stream i, st.readable ∧ 0 < st.reader.pos ∧
      (std.bytes st)[st.reader.pos - 1]? = some b
  | .fseek _ offset whence => Long offset ∧ Long whence
  | .fclose _ | .getc _ | .ungetc _ none | .ftell _ | .feof _ => True

instance (crypto : ν → Bool) (std : Std ν) (c : Call ν) : Decidable (Legal crypto std c) := by
  unfold Legal
  split <;> infer_instance

def pairStep (m : Machine) (crypto : ν → Bool) (w : Pair ν) (c : Call ν) : Option (Pair ν) :=
  if Legal crypto w.std c then
    (call m crypto w.lib c).bind fun a => (w.std.call c).map fun r => ⟨a.2, r.2⟩
  else none

theorem pairStep_some {m : Machine} {crypto : ν → Bool} {w w' : Pair ν} {c : Call ν}
    (h : pairStep m crypto w c = some w') :
    ∃ a r, Legal crypto w.std c ∧ call m crypto w.lib c = some a ∧ w.std.call c = some r ∧
      w' = ⟨a.2, r.2⟩ := by
  unfold pairStep at h
  split at h
  · rename_i hl
    obtain ⟨a, ha, h⟩ := Option.bind_eq_some_iff.mp h
    obtain ⟨r, hr, rfl⟩ := Option.map_eq_some_iff.mp h
    exact ⟨a, r, hl, ha, hr, rfl⟩
  · cases h

/-- A call answers as the standard says, and leaves files and positions as it says. -/
def Agrees (m : Machine) (crypto : ν → Bool) (w : Pair ν) (c : Call ν) : Prop :=
  ∀ a r, call m crypto w.lib c = some a → w.std.call c = some r →
    Says a.1 r.1 ∧ Same ⟨a.2, r.2⟩

/-- The calls that do what the standard says. -/
def Good (w : Pair ν) : Call ν → Prop
  | .fopen _ _ | .fclose _ | .fread _ _ _ | .ungetc _ (some _) | .fseek _ _ _ | .ftell _ => True
  | .getc i => ∀ st ∈ w.std.stream i, ∀ b ∈ (st.reader.rest (readableBytes w.std st)).head?, b < 128
  | .ungetc i none => ∀ st ∈ w.std.stream i, st.reader.pos = 0
  | .fgets i n _ => ∀ st ∈ w.std.stream i, Fits (n - 1) (st.reader.rest (readableBytes w.std st))
  | .fwrite i _ data => ∀ st ∈ w.std.stream i, st.writable ∧ data ≠ []
  | .feof i => ∀ st ∈ w.std.stream i, ∀ fp ∈ w.lib.usual[i]?, fp.seof = st.reader.eof

instance (w : Pair ν) (c : Call ν) : Decidable (Good w c) := by
  have (o : Option UInt8) : Decidable (∀ b ∈ o, b < 128) := Option.decidableForallMem o
  unfold Good
  split <;> infer_instance

/-! ## Calls that change files -/

theorem fopen_out (h : Refines std s) {crypto : ν → Bool} {name : ν} {mode : LuaString}
    {o : OpenFlags} (hm : modeFlags mode = some o) (hc : crypto name = false) :
    Out ((lualibc_fopen crypto name mode s).map .stream id) ((std.fopen name o).map .stream id) := by
  obtain ⟨access, hs, hw⟩ := sflags_modeFlags mode hm
  have hi := h.sfp
  unfold lualibc_fopen Std.fopen Fs.open
  simp only [hs, h.files]
  cases hf : found o (std.files name) with
  | none =>
      simp only [Option.map_none]
      split <;> exact ⟨rfl, h⟩
  | some bytes =>
      simp only [Option.map_some]
      by_cases hlt : std.streams.findIdx Option.isNone < std.streams.length
      · rw [if_pos hlt, ← hi]
        have hlt' : Stdio.sfp s.usual < s.usual.length := by rwa [hi, h.length]
        rw [List.getElem?_eq_getElem hlt']
        refine ⟨rfl, ?_⟩
        have hput := @Refines.put ν std s (Stdio.sfp s.usual) h _ (List.getElem?_eq_getElem hlt')
          (some ⟨name, .start, o.readable, o.writable, o.append⟩)
          ⟨⟨Function.update std.files name (some bytes), store s.fs.fds (unused s.fs.fds)
            (some ⟨name, 0, o.readable, o.writable, o.append⟩)⟩,
            { s.usual[Stdio.sfp s.usual] with
              access := some access
              seof := false
              serr := false
              soff := false
              file := unused s.fs.fds
              encrypted := crypto name }⟩ ?_ ?_ ?_
        · exact hput
        · refine ⟨by simp, ?_, ?_, by simp, hc⟩
          · rw [← hw]
            simp [cantwrite]
          · dsimp only
            rw [lookup_store (unused_le _), if_pos rfl]
            rfl
        · intro _ j fq _ hq hb
          exact (h.in_use hq hb).symm
        · intro j fq _ hq hb
          rw [lookup_store (unused_le _), if_neg (h.in_use hq hb)]
      · rw [if_neg hlt]
        have hnone : s.usual[Stdio.sfp s.usual]? = none := by
          apply List.getElem?_eq_none
          rw [hi, h.length]
          omega
        rw [hnone]
        exact ⟨rfl, h⟩

theorem fwrite_out (h : Refines std s) {fp : FILE} (hfp : s.usual[i]? = some fp)
    (hs : Stands false st st.reader.pos ⟨s.fs, fp⟩) {data : List UInt8} {size : ℕ}
    (hw : st.writable) (hd : data ≠ []) :
    Out (.wrote (lualibc_fwrite data size ⟨s.fs, fp⟩).1,
        ⟨(lualibc_fwrite data size ⟨s.fs, fp⟩).2.fs,
          s.usual.set i (lualibc_fwrite data size ⟨s.fs, fp⟩).2.fp⟩)
      ((std.fwrite i st data size).map .wrote id) := by
  obtain ⟨hr, hs', hfile, hfiles, hothers⟩ := @fwrite_stands _ _ _ _ _ _ hs data size hw hd
  have hcond : st.writable ∧ data ≠ [] := ⟨hw, hd⟩
  rw [Std.fwrite, if_pos hcond, hr]
  refine ⟨rfl, ?_⟩
  have hb : Io.bytes ⟨s.fs, fp⟩ st = std.bytes st := h.bytes fp st
  rw [hb] at hs' hfiles
  have hc := h.called hfp hs.isOpen
    (hs'.reader { st.reader with pos := st.place (std.bytes st).length + data.length }) hfile hothers
  rw [hfiles] at hc
  simp only [h.files] at hc
  exact hc

/-! ## All calls -/

/-- A good call answers as the standard says, and keeps all streams linked. -/
theorem good_out (m : Machine) {crypto : ν → Bool} {c : Call ν} {a : Answer × Streams ν}
    {r : Reply × Std ν} (h : Refines std s) (hl : Legal crypto std c)
    (ha : call m crypto s c = some a) (hr : std.call c = some r) (hg : Good ⟨s, std⟩ c) :
    Out a r := by
  cases c with
  | fopen name mode =>
      obtain ⟨o, ho, rfl⟩ := Option.map_eq_some_iff.mp hr
      cases ha
      exact fopen_out h ho hl
  | fclose i =>
      obtain ⟨st, hst, rfl⟩ := Option.map_eq_some_iff.mp hr
      cases ha
      exact fclose_out h hst
  | fread i size count =>
      obtain ⟨st, fp, hst, hfp, hs, hi, rfl, rfl⟩ := h.sides ha hr
      obtain ⟨hv, hp, hk⟩ := fread_stands hs m hl
      obtain ⟨hd, hpos, hst'⟩ := reads_fread (std.bytes st) (size * count) st
      rw [h.bytes] at hv hp
      refine ⟨?_, h.out hfp hs hp hk hst' hpos⟩
      simp only [Says, hv, Prod.map, hd]
  | fwrite i size data =>
      obtain ⟨st, hst, rfl⟩ := Option.map_eq_some_iff.mp hr
      obtain ⟨fp, hfp, hs, hi, ho⟩ := h.on hst (lualibc_fwrite data size)
      have ha : (onStream i (lualibc_fwrite data size) s).map (·.map .wrote id) = some a := ha
      rw [ho] at ha
      cases ha
      exact fwrite_out h hfp hs (hg st hst).1 (hg st hst).2
  | fgets i n buf =>
      obtain ⟨st, fp, hst, hfp, hs, hi, rfl, rfl⟩ := h.sides ha hr
      have hd := delivers m st ⟨s.fs, fp⟩
      rw [h.bytes] at hd
      have hfits : Fits (n - 1) (st.reader.rest (readableBytes std st)) := hg st hst
      obtain ⟨hv, hp, hk⟩ := fgets_fits hd hl.1 hl.2.2 ⟨hs, Kept.refl _⟩ hfits
      obtain ⟨hline, hpos, hst'⟩ := reads_fgets (std.bytes st) n st
      refine ⟨?_, h.out hfp hs hp hk hst' hpos⟩
      simp only [Says, Prod.map, hline]
      exact hv
  | getc i =>
      obtain ⟨st, fp, hst, hfp, hs, hi, rfl, rfl⟩ := h.sides ha hr
      obtain ⟨hv, hp, hk⟩ := getc_stands hs m
      obtain ⟨hd, hpos, hst'⟩ := reads_getc (std.bytes st) st
      rw [h.bytes] at hv hp
      refine ⟨?_, h.out hfp hs hp hk hst' hpos⟩
      simp only [Says, Prod.map, hd, hv]
      rw [toInt_iff, head?_got]
      exact hg st hst
  | ungetc i c =>
      obtain ⟨st, fp, hst, hfp, hs, hi, rfl, rfl⟩ := h.sides ha hr
      obtain ⟨hp, hk⟩ := ungetc_stands hs
      refine ⟨trivial, ?_⟩
      cases c with
      | some b =>
          obtain ⟨st', hst', hread, -⟩ := hl
          rw [hst] at hst'
          cases hst'
          refine h.out hfp hs hp hk ?_ ?_
          · simp only [Stream.reads, if_pos hread]
            exact ⟨_, rfl⟩
          · simp only [Stream.reads, if_pos hread]
            rfl
      | none =>
          have hz : st.reader.pos = 0 := hg st hst
          rw [hz] at hp
          have hread : (st.reads none (ByteStream.ungetc none)).2 = st := by
            unfold Stream.reads
            split <;> rfl
          refine h.out hfp hs hp hk ⟨st.reader, ?_⟩ ?_
          · exact hread
          · dsimp only [Prod.map, id]
            rw [hread, hz]
  | fseek i offset whence =>
      obtain ⟨st, fp, hst, hfp, hs, hi, rfl, rfl⟩ := h.sides ha hr
      obtain ⟨hv, hp, hk⟩ := fseek_stands hs offset whence
      rw [h.bytes] at hv hp
      unfold Stream.seek
      cases ht : target (std.bytes st).length st.reader.pos offset whence with
      | none =>
          rw [ht] at hv hp
          exact ⟨hv, h.out hfp hs hp hk ⟨st.reader, rfl⟩ rfl⟩
      | some p =>
          rw [ht] at hv hp
          exact ⟨hv, h.out hfp hs hp hk ⟨_, rfl⟩ rfl⟩
  | ftell i =>
      obtain ⟨st, fp, hst, hfp, hs, hi, rfl, rfl⟩ := h.sides ha hr
      obtain ⟨hv, hp, hk⟩ := ftell_stands hs
      exact ⟨hv, h.out hfp hs hp hk ⟨st.reader, rfl⟩ rfl⟩
  | feof i =>
      obtain ⟨st, fp, hst, hfp, hs, hi, rfl, rfl⟩ := h.sides ha hr
      refine ⟨?_, h.out hfp hs hs (Kept.refl _) ⟨st.reader, rfl⟩ rfl⟩
      have hf : feof (⟨s.fs, fp⟩ : Io ν) = fp.seof := by
        have hplain : fp.encrypted = false := hs.kind
        rw [feof, hplain, Bool.not_false, Bool.true_and]
      exact hf.trans (hg st hst fp hfp)

/-- `ungetc` always returns zero. -/
def Zero : Call ν → Prop
  | .ungetc _ c => c = some 0
  | _ => True

theorem returns_iff (m : Machine) {crypto : ν → Bool} {c : Call ν} {a : Answer × Streams ν}
    {r : Reply × Std ν} (h : Refines std s) (ha : call m crypto s c = some a)
    (hr : std.call c = some r) : Returns a.1 c ↔ Zero c := by
  cases c with
  | ungetc i c =>
      obtain ⟨st, fp, hst, hfp, hs, hi, rfl, rfl⟩ := h.sides ha hr
      simp only [Returns, Zero, lualibc_ungetc, Answer.pushed.injEq]
      cases c with
      | none => simp [toInt]
      | some b =>
          have hb : (0 : ℤ) = (b.toNat : ℤ) ↔ b = 0 := by
            rw [← UInt8.toNat_inj]
            exact ⟨fun h => by simpa using h.symm, fun h => by rw [h]; rfl⟩
          simpa [toInt] using hb
  | fopen | fclose | fread | fwrite | fgets | getc | fseek | ftell | feof => exact Iff.rfl

/-! ## Runs -/

/-- What holds of each call while all streams are linked holds along runs. -/
theorem meets_iff_good (m : Machine) (crypto : ν → Bool) {P Q : Pair ν → Call ν → Prop}
    (hstep : ∀ w c w', Refines w.std w.lib → pairStep m crypto w c = some w' → (P w c ↔ Q w c))
    (hgood : ∀ w c, Q w c → Good w c) {w : Pair ν} (h : Refines w.std w.lib) (calls : List (Call ν)) :
    LuatAir200.Machine.Meets (pairStep m crypto) P w calls ↔
      LuatAir200.Machine.Meets (pairStep m crypto) Q w calls := by
  induction calls generalizing w with
  | nil => exact Iff.rfl
  | cons c calls ih =>
      have hnext (w' : Pair ν) (hw : pairStep m crypto w c = some w') (hg : Good w c) :
          Refines w'.std w'.lib := by
        obtain ⟨a, r, hl, ha, hr, rfl⟩ := pairStep_some hw
        exact (good_out m h hl ha hr hg).2
      constructor
      · intro hm w' hw
        have hq : Q w c := (hstep w c w' h hw).mp (hm w' hw).1
        exact ⟨hq, (ih (hnext w' hw (hgood w c hq))).mp (hm w' hw).2⟩
      · intro hm w' hw
        have hq : Q w c := (hm w' hw).1
        exact ⟨(hstep w c w' h hw).mpr hq, (ih (hnext w' hw (hgood w c hq))).mpr (hm w' hw).2⟩

/-- Files before any stream is opened. -/
def closed (files : ν → Option (List UInt8)) (fds : List (Option (Opened ν))) : Pair ν where
  lib := ⟨⟨files, fds⟩, List.replicate (FOPEN_MAX - 3) ⟨none, false, false, false, 0, 0, false⟩⟩
  std := ⟨files, List.replicate (FOPEN_MAX - 3) none⟩

end LuatAir200.Stdio
