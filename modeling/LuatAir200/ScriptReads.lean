import LuatAir200.LuaString
import LuatAir200.Machine
import LuatAir200.ScriptStreams

/-!
# Script files as read streams

A stream over an item of the tables, next to a standard read stream over the bytes of the
item, while both are used by the same calls.
-/
namespace LuatAir200.ScriptStreams
open ByteStream LineReads Machine

/-- The bytes of a section from a place on. -/
def Device.piece (d : Device) (s : Section) (start : ℤ) (len : ℕ) : List UInt8 :=
  match s with
  | .FLASH => d.bytes start len
  | .UPDATE => ((d.update.getD []).drop start.toNat).take len

/-- The bytes of an item. -/
def content (d : Device) (s : Section) (item : Item) : List UInt8 :=
  d.piece s item.nOffset item.nLen.toNat

/-- The item lies in what it is read from, and an `int` counts its places. -/
structure Placed (d : Device) (s : Section) (item : Item) : Prop where
  offset : 0 ≤ item.nOffset
  length : 0 ≤ item.nLen
  counted : item.nOffset + item.nLen < 2147483648
  there : s = .UPDATE → ∃ file, d.update = some file ∧ item.nOffset + item.nLen ≤ file.length

/-- The stream stands at a position of the item, and has only read bytes of the item. -/
structure Follows (enc : Bool) (s : Section) (item : Item) (pos : ℕ) (fp : File) : Prop where
  flags : fp.flags = s
  same : fp.item = item
  kind : fp.encrypted = enc
  offset : fp.offset = pos
  bounded : (pos : ℤ) ≤ item.nLen
  inside : ∀ x ∈ fp.reads, item.nOffset ≤ x.1 ∧ x.1 + x.2 ≤ item.nOffset + item.nLen

/-! ## Numbers -/

theorem s32_eq {x : ℤ} (hl : -2147483648 ≤ x) (hu : x < 2147483648) : s32 x = x := by
  unfold s32
  omega

theorem u32_eq {x : ℤ} (hl : 0 ≤ x) (hu : x < 4294967296) : (u32 x : ℤ) = x := by
  unfold u32
  omega

/-! ## Reading -/

variable {d : Device} {enc : Bool} {s : Section} {item : Item} {r : Reader} {fp : File} {pos : ℕ}

theorem Placed.length_content (h : Placed d s item) : (content d s item).length = item.nLen.toNat := by
  cases s with
  | FLASH => simp [content, Device.piece, Device.bytes]
  | UPDATE =>
      obtain ⟨file, hf, hl⟩ := h.there rfl
      have ho := h.offset
      have hn := h.length
      simp only [content, Device.piece, hf, Option.getD_some, List.length_take, List.length_drop]
      omega

theorem Placed.length_content_int (h : Placed d s item) :
    ((content d s item).length : ℤ) = item.nLen := by
  rw [h.length_content]
  exact Int.toNat_of_nonneg h.length

/-- A piece of the item, from where it is read. -/
theorem Placed.piece (h : Placed d s item) {len : ℕ} (hl : (pos + len : ℤ) ≤ item.nLen) :
    ((content d s item).drop pos).take len = d.piece s (item.nOffset + pos) len := by
  cases s with
  | FLASH =>
      have hlen : (((content d .FLASH item).drop pos).take len).length = len := by
        have hc := h.length_content
        simp only [List.length_take, List.length_drop, hc]
        omega
      apply List.ext_getElem
      · rw [hlen]
        simp [Device.piece, Device.bytes]
      · intro i hi hj
        simp only [content, Device.piece, Device.bytes, List.getElem_take, List.getElem_drop,
          List.getElem_map, List.getElem_range, Nat.cast_add, Int.add_assoc]
  | UPDATE =>
      have ho := h.offset
      have hp : item.nOffset.toNat + pos = (item.nOffset + pos).toNat := by omega
      have hm : min len (item.nLen.toNat - pos) = len := by omega
      simp only [content, Device.piece, List.drop_take, List.take_take, List.drop_drop, hp, hm]

/-- What a read does that decrypts nothing, when `k` bytes are there. -/
theorem fread_ext_plain {size count n k : ℕ} {start : ℤ}
    (hplain : fp.flags = .FLASH → fp.encrypted = false)
    (hu : fp.flags = .UPDATE → d.update.isSome) (hresid : u32 (count * size) = n)
    (hlen : (if n ≤ u32 (fp.item.nLen - fp.offset) then s32 n
      else s32 (fp.item.nLen - fp.offset)) = k) (hk : k ≤ n)
    (hs : s32 (fp.item.nOffset + fp.offset) = start) :
    fread_ext d size count fp = if k = 0 then (⟨0, []⟩, fp)
      else (⟨k / size, d.piece fp.flags start k⟩,
        { fp with offset := s32 (fp.offset + k), reads := fp.reads ++ [(start, k)] }) := by
  simp only [fread_ext, hresid, hlen, hs]
  by_cases hz : k = 0
  · simp [hz]
  · have hc0 : n ≠ 0 := by omega
    have hk0 : ¬(k : ℤ) ≤ 0 := by omega
    simp only [hc0, hk0, hz, if_false, Int.toNat_natCast]
    cases hf : fp.flags with
    | FLASH =>
        rw [hplain hf]
        rfl
    | UPDATE =>
        obtain ⟨file, hfile⟩ := Option.isSome_iff_exists.mp (hu hf)
        simp only [hfile, Device.piece, Option.getD_some]

/-- How many bytes a read is to give. -/
theorem Follows.len (hp : Placed d s item) (h : Follows enc s item r.pos fp) {n : ℕ}
    (hn : n < 4294967296) : (if n ≤ u32 (fp.item.nLen - fp.offset) then s32 n
      else s32 (fp.item.nLen - fp.offset)) = (fread (content d s item) n r).1.length := by
  have hb := h.bounded
  have hbound := hp.counted
  have hpos := hp.offset
  have hleft : (u32 (item.nLen - r.pos) : ℤ) = item.nLen - r.pos := by
    apply u32_eq <;> omega
  rw [h.same, h.offset]
  simp only [fread, Reader.rest, List.length_take, List.length_drop, hp.length_content]
  split
  · rw [s32_eq] <;> omega
  · rw [s32_eq] <;> omega

/-- Where a read starts. -/
theorem Follows.start (hp : Placed d s item) (h : Follows enc s item pos fp) :
    s32 (fp.item.nOffset + fp.offset) = item.nOffset + pos := by
  have hb := h.bounded
  have hbound := hp.counted
  have hpos := hp.offset
  rw [h.same, h.offset]
  apply s32_eq <;> omega

/-- What is read is a piece of the item. -/
theorem Placed.fread_fst (hp : Placed d s item) (hb : (r.pos : ℤ) ≤ item.nLen) (n : ℕ) :
    (fread (content d s item) n r).1 =
      d.piece s (item.nOffset + r.pos) (fread (content d s item) n r).1.length := by
  have hlc := hp.length_content
  rw [← hp.piece]
  · simp only [fread, Reader.rest]
    rw [List.length_take, List.take_eq_take_iff, Nat.min_assoc, Nat.min_self]
  · simp only [fread, Reader.rest, List.length_take, List.length_drop, hlc]
    omega

/-- A read that decrypts nothing gives the bytes from the position on. -/
theorem fread_follows (hp : Placed d s item) (h : Follows enc s item r.pos fp)
    (he : s = .FLASH → enc = false) {size count : ℕ} (hc : size * count < 4294967296) :
    (fread_ext d size count fp).1 =
      ⟨(fread (content d s item) (size * count) r).1.length / size,
        (fread (content d s item) (size * count) r).1⟩ ∧
    Follows enc s item (fread (content d s item) (size * count) r).2.pos
      (fread_ext d size count fp).2 := by
  have hlen := h.len hp hc
  have hstart := h.start hp
  have hdata := hp.fread_fst h.bounded (size * count)
  have hb := h.bounded
  have hbound := hp.counted
  have hpos := hp.offset
  have hlc := hp.length_content_int
  have hle : (fread (content d s item) (size * count) r).1.length ≤ size * count :=
    List.length_take_le _ _
  have hend : r.pos + (fread (content d s item) (size * count) r).1.length ≤
      (content d s item).length := fread_pos_le (by omega)
  have hreader : (fread (content d s item) (size * count) r).2.pos =
      r.pos + (fread (content d s item) (size * count) r).1.length := rfl
  have hin : ((r.pos + (fread (content d s item) (size * count) r).1.length : ℕ) : ℤ) ≤
      item.nLen := by omega
  have hresid : u32 ((count : ℤ) * size) = size * count := by
    rw [← Int.natCast_mul, Nat.mul_comm]
    unfold u32
    omega
  have hu : fp.flags = .UPDATE → d.update.isSome := by
    intro hf
    obtain ⟨file, hfile, -⟩ := hp.there (h.flags.symm.trans hf)
    rw [hfile, Option.isSome_some]
  have hplain : fp.flags = .FLASH → fp.encrypted = false := fun hf =>
    h.kind.trans (he (h.flags.symm.trans hf))
  rw [fread_ext_plain hplain hu hresid hlen hle hstart, h.flags, hreader]
  generalize (fread (content d s item) (size * count) r).1 = data at *
  by_cases hz : data.length = 0
  · rw [if_pos hz, hz, List.eq_nil_of_length_eq_zero hz, Nat.zero_div]
    exact ⟨rfl, h⟩
  · rw [if_neg hz, ← hdata]
    refine ⟨rfl, rfl, h.same, h.kind, ?_, ?_, ?_⟩
    · dsimp only
      rw [h.offset, Nat.cast_add]
      apply s32_eq <;> omega
    · exact hin
    · intro x hx
      rcases List.mem_append.mp hx with hx | hx
      · exact h.inside x hx
      · obtain rfl := List.mem_singleton.mp hx
        constructor <;> dsimp only <;> omega

/-- A read of bytes. -/
theorem fread_one (hp : Placed d s item) (h : Follows false s item r.pos fp) {count : ℕ}
    (hc : count < 4294967296) :
    (fread_ext d 1 count fp).1 = ⟨(fread (content d s item) count r).1.length,
      (fread (content d s item) count r).1⟩ ∧
    Follows false s item (fread (content d s item) count r).2.pos (fread_ext d 1 count fp).2 := by
  have hc' : 1 * count < 4294967296 := by omega
  have hf := fread_follows hp h (fun _ => rfl) hc'
  rw [Nat.one_mul, Nat.div_one] at hf
  exact hf

theorem getc_follows (hp : Placed d s item) (h : Follows false s item r.pos fp) :
    (getc_ext d fp).1 = plainInt (getc (content d s item) r).1 ∧
    Follows false s item (getc (content d s item) r).2.pos (getc_ext d fp).2 := by
  have h1 : 1 < 4294967296 := by omega
  obtain ⟨hg, hf⟩ := fread_one hp h h1
  refine ⟨?_, hf⟩
  simp only [getc_ext, hg, getc]
  cases hd : (fread (content d s item) 1 r).1 with
  | nil => rfl
  | cons c data =>
      have hl : (fread (content d s item) 1 r).1.length ≤ 1 := by
        rw [fread]
        exact List.length_take_le 1 _
      rw [hd, List.length_cons] at hl
      have hdata : data = [] := List.eq_nil_of_length_eq_zero (by omega)
      rw [hdata]
      rfl

/-- Character by character a stream gives the bytes of its item. -/
theorem delivers (hp : Placed d s item) :
    Delivers (getc_ext d) (Follows false s item) (content d s item) := by
  intro pos fp h
  have hg := getc_follows (r := ⟨pos, false⟩) hp h
  rw [getc_fst] at hg
  exact hg

/-! ## Positions -/

/-- A seek inside the item. -/
theorem Follows.moved (h : Follows enc s item pos fp) {x offset : ℤ} (hx : 0 ≤ x ∧ x ≤ item.nLen)
    (ho : offset = x) : Follows enc s item x.toNat { fp with offset := offset } where
  flags := h.flags
  same := h.same
  kind := h.kind
  offset := ho.trans (Int.toNat_of_nonneg hx.1).symm
  bounded := by
    rw [Int.toNat_of_nonneg hx.1]
    exact hx.2
  inside := h.inside

/-- The place a seek from the end is to lead to is the mirror image of the one it leads to. -/
def Astray (bytes : List UInt8) (offset whence : ℤ) : Prop :=
  whence = 2 ∧ offset < 0 ∧ 0 ≤ bytes.length + offset

instance (bytes : List UInt8) (offset whence : ℤ) : Decidable (Astray bytes offset whence) := by
  unfold Astray
  infer_instance

theorem fseek_follows (hp : Placed d s item) (h : Follows enc s item r.pos fp) {offset whence : ℤ}
    (ho : Long offset) (ha : ¬Astray (content d s item) offset whence) :
    (fseek_ext offset whence fp).1 =
      (if (fseek (content d s item) offset whence r).1 then 0 else -1) ∧
    Follows enc s item (fseek (content d s item) offset whence r).2.pos
      (fseek_ext offset whence fp).2 := by
  obtain ⟨hlo, hup⟩ := ho
  obtain rfl := h.same
  have hlc := hp.length_content_int
  have hfits := hp.counted
  have hstart := hp.offset
  have hb := h.bounded
  unfold fseek_ext fseek target
  by_cases h0 : whence = 0
  · simp only [h0, if_true, hlc]
    by_cases hr : offset > fp.item.nLen ∨ offset < 0
    · have hs : ¬(0 ≤ offset ∧ offset ≤ fp.item.nLen) := by omega
      rw [if_pos hr, if_neg hs]
      exact ⟨rfl, h⟩
    · have hs : 0 ≤ offset ∧ offset ≤ fp.item.nLen := by omega
      rw [if_neg hr, if_pos hs]
      exact ⟨rfl, h.moved hs rfl⟩
  by_cases h1 : whence = 1
  · have hne : (1 : ℤ) ≠ 0 := by omega
    simp only [h1, hne, if_true, if_false, hlc]
    rw [h.offset]
    by_cases hr : s32 (r.pos + offset) > fp.item.nLen ∨ s32 (r.pos + offset) < 0
    · have hs : ¬(0 ≤ r.pos + offset ∧ r.pos + offset ≤ fp.item.nLen) := by
        unfold s32 at hr
        omega
      rw [if_pos hr, if_neg hs]
      exact ⟨rfl, h⟩
    · have hs : 0 ≤ r.pos + offset ∧ r.pos + offset ≤ fp.item.nLen := by
        unfold s32 at hr
        omega
      rw [if_neg hr, if_pos hs]
      refine ⟨rfl, h.moved hs ?_⟩
      rw [s32_eq] <;> omega
  by_cases h2 : whence = 2
  · have hne : (2 : ℤ) ≠ 0 ∧ (2 : ℤ) ≠ 1 := by omega
    simp only [h2, hne.1, hne.2, if_true, if_false, hlc]
    by_cases hr : offset < -fp.item.nLen ∨ offset > 0
    · have hs : ¬(0 ≤ fp.item.nLen + offset ∧ fp.item.nLen + offset ≤ fp.item.nLen) := by omega
      rw [if_pos hr, if_neg hs]
      exact ⟨rfl, h⟩
    · have hz : offset = 0 := by
        unfold Astray at ha
        omega
      have hs : 0 ≤ fp.item.nLen + offset ∧ fp.item.nLen + offset ≤ fp.item.nLen := by omega
      rw [if_neg hr, if_pos hs]
      refine ⟨rfl, h.moved hs ?_⟩
      rw [s32_eq] <;> omega
  · simp only [h0, h1, h2, if_false]
    exact ⟨rfl, h⟩

theorem fseek_astray (hp : Placed d s item) (h : Follows enc s item r.pos fp) {offset whence : ℤ}
    (ha : Astray (content d s item) offset whence) :
    (fseek_ext offset whence fp).2.offset ≠ (fseek (content d s item) offset whence r).2.pos := by
  obtain ⟨rfl, hneg, hlo⟩ := ha
  have hlc := hp.length_content_int
  have hfits := hp.counted
  have hstart := hp.offset
  have hne : (2 : ℤ) ≠ 0 ∧ (2 : ℤ) ≠ 1 := by omega
  have hr : ¬(offset < -item.nLen ∨ offset > 0) := by omega
  have hs : 0 ≤ item.nLen + offset ∧ item.nLen + offset ≤ item.nLen := by omega
  unfold fseek_ext fseek target
  simp only [h.same, hne.1, hne.2, if_true, if_false, hlc]
  rw [if_neg hr, if_pos hs]
  unfold s32
  dsimp only
  omega

/-! ## Calls -/

inductive Call
  | fread (count : ℕ)
  | getc
  | ungetc (c : Option UInt8)
  | fgets (n : ℕ) (buf : List UInt8)
  | fseek (offset whence : ℤ)
  | ftell
  | feof

/-- What a call of `preload.c` gives. -/
inductive Answer
  | items (got : Got)
  | char (c : ℤ)
  | pushed (c : ℤ)
  | line (buf : Option (List UInt8))
  | sought (x : ℤ)
  | place (x : ℤ)
  | flag (b : Bool)

/-- What a call of the standard library gives. -/
inductive Reply
  | items (data : List UInt8)
  | char (c : Option UInt8)
  | pushed (c : Option UInt8)
  | line (l : Option (List UInt8))
  | sought (done : Bool)
  | place (pos : ℕ)
  | flag (b : Bool)

def extCall (d : Device) (fp : File) : Call → Answer × File
  | .fread count => (fread_ext d 1 count fp).map .items id
  | .getc => (getc_ext d fp).map .char id
  | .ungetc _ => (ungetc_ext fp).map .pushed id
  | .fgets n buf => (fgets_ext d buf n fp).map .line id
  | .fseek offset whence => (fseek_ext offset whence fp).map .sought id
  | .ftell => (.place (ftell_ext fp), fp)
  | .feof => (.flag (feof_ext fp), fp)

def standard (bytes : List UInt8) (r : Reader) : Call → Reply × Reader
  | .fread count => (fread bytes count r).map .items id
  | .getc => (getc bytes r).map .char id
  | .ungetc c => (ungetc c r).map .pushed id
  | .fgets n _ => (fgets bytes n r).map .line id
  | .fseek offset whence => (fseek bytes offset whence r).map .sought id
  | .ftell => (.place r.pos, r)
  | .feof => (.flag r.eof, r)

/-- The calls that the standard defines: only the byte that was read last is pushed back, and
buffers have the length they are said to have. -/
def Legal (bytes : List UInt8) (r : Reader) : Call → Prop
  | .fread count => count < 4294967296
  | .ungetc (some b) => 0 < r.pos ∧ bytes[r.pos - 1]? = some b
  | .fgets n buf => 2 ≤ n ∧ n < 2147483648 ∧ buf.length = n
  | .fseek offset whence => Long offset ∧ Long whence
  | .getc | .ungetc none | .ftell | .feof => True

instance (bytes : List UInt8) (r : Reader) (c : Call) : Decidable (Legal bytes r c) := by
  unfold Legal
  split <;> infer_instance

/-- The answer is what the standard says, the value of `ungetc` apart. -/
def Says : Answer → Reply → Prop
  | .items got, .items data => got = ⟨data.length, data⟩
  | .char c, .char b => c = toInt b
  | .pushed _, .pushed _ => True
  | .line buf, .line l => Shows buf l
  | .sought x, .sought done => x = if done then 0 else -1
  | .place x, .place pos => x = pos
  | .flag a, .flag b => a = b
  | _, _ => False

/-- `ungetc` returns the character that it has pushed back. -/
def Returns : Answer → Reply → Prop
  | .pushed c, .pushed b => c = toInt b
  | _, _ => True

/-- A stream of `preload.c` and a standard one. -/
structure Pair where
  fp : File
  reader : Reader

def opened (s : Section) (item : Item) : Pair := ⟨fopen_ext s item false, .start⟩

def pairStep (d : Device) (bytes : List UInt8) (w : Pair) (c : Call) : Option Pair :=
  if Legal bytes w.reader c then some ⟨(extCall d w.fp c).2, (standard bytes w.reader c).2⟩ else none

/-- A call answers as the standard says, leaves both streams at one position, which is not
beyond the end, and has only read bytes of the item. -/
structure Agrees (d : Device) (s : Section) (item : Item) (w : Pair) (c : Call) : Prop where
  reply : Says (extCall d w.fp c).1 (standard (content d s item) w.reader c).1
  place : (extCall d w.fp c).2.offset = (standard (content d s item) w.reader c).2.pos
  bounded : (extCall d w.fp c).2.offset ≤ item.nLen
  inside : ∀ x ∈ (extCall d w.fp c).2.reads,
    item.nOffset ≤ x.1 ∧ x.1 + x.2 ≤ item.nOffset + item.nLen

/-- The calls that do what the standard says. -/
def Good (bytes : List UInt8) (r : Reader) : Call → Prop
  | .fread _ | .ftell | .ungetc (some _) => True
  | .getc => ∀ b ∈ (r.rest bytes).head?, b < 128
  | .ungetc none => r.pos = 0
  | .fgets n _ => Fits (n - 1) (r.rest bytes)
  | .fseek offset whence => ¬Astray bytes offset whence
  | .feof => r.eof = true ↔ r.pos = bytes.length

instance (bytes : List UInt8) (r : Reader) (c : Call) : Decidable (Good bytes r c) := by
  have (o : Option UInt8) : Decidable (∀ b ∈ o, b < 128) := Option.decidableForallMem o
  unfold Good
  split <;> infer_instance

/-- The only byte that `ungetc` returns is zero. -/
def Zero : Call → Prop
  | .ungetc c => c = some 0
  | _ => True

theorem ungetc_follows (hp : Placed d s item) (h : Follows false s item r.pos fp) :
    Follows false s item (r.pos - 1) (ungetc_ext fp).2 := by
  have hl : Long (-1) := by
    unfold Long
    omega
  have ha : ¬Astray (content d s item) (-1) 1 := by
    unfold Astray
    omega
  have hs := (fseek_follows hp h hl ha).2
  have hlc := hp.length_content_int
  have hb := h.bounded
  have hpos : (fseek (content d s item) (-1) 1 r).2.pos = r.pos - 1 := by
    unfold fseek target
    simp only [Int.one_ne_zero, if_true, if_false]
    split
    · dsimp only
      omega
    · dsimp only
      omega
  rwa [hpos] at hs

/-- Where both streams are at one position, only the answer matters. -/
theorem agrees_iff {c : Call}
    (h : Follows false s item (standard (content d s item) r c).2.pos (extCall d fp c).2) :
    Agrees d s item ⟨fp, r⟩ c ↔ Says (extCall d fp c).1 (standard (content d s item) r c).1 := by
  refine ⟨Agrees.reply, fun hr => ⟨hr, h.offset, ?_, h.inside⟩⟩
  rw [h.offset]
  exact h.bounded

theorem Follows.feof_ext (h : Follows false s item pos fp) (hp : Placed d s item) :
    ScriptStreams.feof_ext fp = true ↔ pos = (content d s item).length := by
  have hlc := hp.length_content_int
  have hb := h.bounded
  rw [ScriptStreams.feof_ext, decide_eq_true_eq, h.same, h.offset]
  omega

/-- After a good call both streams are at one position again. -/
theorem follows_good (hp : Placed d s item) (h : Follows false s item r.pos fp) {c : Call}
    (hl : Legal (content d s item) r c) (hg : Good (content d s item) r c) :
    Follows false s item (standard (content d s item) r c).2.pos (extCall d fp c).2 := by
  cases c with
  | fread count =>
      have hf := (fread_one hp h hl).2
      exact hf
  | getc => exact (getc_follows hp h).2
  | ungetc c =>
      have hu := ungetc_follows hp h
      cases c with
      | some b => exact hu
      | none =>
          have hz : r.pos = 0 := hg
          rw [hz] at hu
          rw [standard, ungetc]
          dsimp only [Prod.map, id]
          rwa [hz]
  | fgets n buf => exact (fgets_fits (delivers hp) hl.1 hl.2.2 h hg).2
  | fseek offset whence => exact (fseek_follows hp h hl.1 hg).2
  | ftell => exact h
  | feof => exact h

/-- A call leads to where the standard says, and answers as it says, exactly if it is good. -/
theorem good_iff (hp : Placed d s item) (h : Follows false s item r.pos fp) {c : Call}
    (hl : Legal (content d s item) r c) :
    Agrees d s item ⟨fp, r⟩ c ↔ Good (content d s item) r c := by
  constructor
  · intro ha
    obtain ⟨hr, ho, -, -⟩ := ha
    cases c with
    | fread count => trivial
    | getc =>
        have hc : (getc_ext d fp).1 = toInt (getc (content d s item) r).1 := hr
        rw [(getc_follows hp h).1, toInt_iff, getc_fst] at hc
        exact hc
    | ungetc c =>
        cases c with
        | some b => trivial
        | none =>
            have ho : (ungetc_ext fp).2.offset = r.pos := ho
            rw [(ungetc_follows hp h).offset] at ho
            simp only [Good]
            omega
    | fgets n buf =>
        apply fits_of_fgets (delivers hp) hl.1 hl.2.2 h hr
        intro p hn
        rw [← Int.ofNat_inj, ← hn.offset]
        exact ho
    | fseek offset whence => exact fun ha => fseek_astray hp h ha ho
    | ftell => trivial
    | feof =>
        have hr : feof_ext fp = r.eof := hr
        rw [Good, ← hr, h.feof_ext hp]
  · intro hg
    rw [agrees_iff (follows_good hp h hl hg)]
    cases c with
    | fread count => exact (fread_one hp h hl).1
    | getc =>
        have hc : plainInt (getc (content d s item) r).1 = toInt (getc (content d s item) r).1 := by
          rw [toInt_iff, getc_fst]
          exact hg
        exact (getc_follows hp h).1.trans hc
    | ungetc c => trivial
    | fgets n buf => exact (fgets_fits (delivers hp) hl.1 hl.2.2 h hg).1
    | fseek offset whence => exact (fseek_follows hp h hl.1 hg).1
    | ftell => exact h.offset
    | feof =>
        have he : feof_ext fp = r.eof := by
          rw [Bool.eq_iff_iff, h.feof_ext hp]
          exact hg.symm
        exact he

/-- The value of `ungetc` is right exactly if it is zero. -/
theorem returns_iff (bytes : List UInt8) (c : Call) :
    Returns (extCall d fp c).1 (standard bytes r c).1 ↔ Zero c := by
  cases c with
  | ungetc c =>
      cases c with
      | none => simp [Returns, Zero, extCall, standard, ungetc_ext, ungetc, toInt]
      | some b =>
          have hb : (0 : ℤ) = (b.toNat : ℤ) ↔ b = 0 := by
            rw [← UInt8.toNat_inj]
            exact ⟨fun h => by simpa using h.symm, fun h => by rw [h]; rfl⟩
          simpa [Returns, Zero, extCall, standard, ungetc_ext, ungetc, toInt] using hb
  | fread | getc | fgets | fseek | ftell | feof => exact ⟨fun _ => trivial, fun _ => trivial⟩

/-- What holds of each call when both streams are at one position holds along runs. -/
theorem meets_iff_good (hp : Placed d s item) (h : Follows false s item r.pos fp) {P Q : Pair → Call → Prop}
    (hstep : ∀ w c, Follows false s item w.reader.pos w.fp → Legal (content d s item) w.reader c →
      (P w c ↔ Q w c))
    (hgood : ∀ w c, Q w c → Good (content d s item) w.reader c) (calls : List Call) :
    Meets (pairStep d (content d s item)) P ⟨fp, r⟩ calls ↔
      Meets (pairStep d (content d s item)) Q ⟨fp, r⟩ calls := by
  induction calls generalizing fp r with
  | nil => exact Iff.rfl
  | cons c calls ih =>
      have hnext (w : Pair) (hw : pairStep d (content d s item) ⟨fp, r⟩ c = some w) :
          Legal (content d s item) r c ∧
          w = ⟨(extCall d fp c).2, (standard (content d s item) r c).2⟩ := by
        unfold pairStep at hw
        split at hw
        · rename_i hl
          cases hw
          exact ⟨hl, rfl⟩
        · cases hw
      constructor
      · intro hm w hw
        obtain ⟨hl, rfl⟩ := hnext w hw
        have hq : Q ⟨fp, r⟩ c := (hstep _ c h hl).mp (hm _ hw).1
        exact ⟨hq, (ih (follows_good hp h hl (hgood _ c hq))).mp (hm _ hw).2⟩
      · intro hm w hw
        obtain ⟨hl, rfl⟩ := hnext w hw
        have hq : Q ⟨fp, r⟩ c := (hm _ hw).1
        exact ⟨(hstep _ c h hl).mpr hq, (ih (follows_good hp h hl (hgood _ c hq))).mpr (hm _ hw).2⟩

/-- A stream over an item agrees with a standard stream over its bytes along exactly those
sequences of calls that read no byte from 128 on as a character, push back no `EOF` but at the
start, read lines that fit, seek from the end only to the end, and ask for the end of the file
after a read has met it; and `ungetc` returns what the standard says for the character zero. -/
theorem script_stream_agrees (hp : Placed d s item) (calls : List Call) :
    (Meets (pairStep d (content d s item)) (Agrees d s item) (opened s item) calls ↔
      Meets (pairStep d (content d s item)) (fun w => Good (content d s item) w.reader)
        (opened s item) calls) ∧
    (Meets (pairStep d (content d s item)) (fun w c => Agrees d s item w c ∧
        Returns (extCall d w.fp c).1 (standard (content d s item) w.reader c).1)
        (opened s item) calls ↔
      Meets (pairStep d (content d s item)) (fun w c => Good (content d s item) w.reader c ∧ Zero c)
        (opened s item) calls) := by
  have h : Follows false s item Reader.start.pos (fopen_ext s item false) := by
    refine ⟨rfl, rfl, rfl, rfl, hp.length, ?_⟩
    intro x hx
    cases hx
  constructor
  · apply meets_iff_good hp h
    · intro w c hw hl
      exact good_iff hp hw hl
    · exact fun w c hg => hg
  · apply meets_iff_good hp h
    · intro w c hw hl
      exact and_congr (good_iff hp hw hl) (returns_iff _ c)
    · exact fun w c hg => hg.1

/-- A device with a text in its flash. -/
def flashOf (text : List UInt8) : Device := ⟨fun i => text.getD i.toNat 0, none, id, fun _ => 0⟩

theorem placed_flashOf (text : List UInt8) (h : text.length < 2147483648) :
    Placed (flashOf text) .FLASH ⟨0, text.length⟩ := by
  refine ⟨Int.le_refl 0, by simp, ?_, ?_⟩
  · dsimp only
    omega
  · intro h
    cases h

/-- Some reads of a short script. -/
def reads : List Call :=
  [.getc, .ungetc (some 97), .fgets 16 (List.replicate 16 0), .fseek (-2) 1, .fread 9, .feof, .getc,
    .fseek 0 2, .ftell]

theorem script_stream_agrees_reads :
    Meets (pairStep (flashOf (Lua.lua "a=1\nb")) (content (flashOf (Lua.lua "a=1\nb")) .FLASH ⟨0, 5⟩))
      (Agrees (flashOf (Lua.lua "a=1\nb")) .FLASH ⟨0, 5⟩) (opened .FLASH ⟨0, 5⟩) reads := by
  have hp : Placed (flashOf (Lua.lua "a=1\nb")) .FLASH ⟨0, 5⟩ := placed_flashOf _ (by decide)
  apply (script_stream_agrees hp reads).1.mpr
  decide +kernel

/-- A line of five bytes that is read into three: its third byte is lost. -/
theorem fgets_ext_loses_byte : Placed (flashOf (Lua.lua "abcd\n")) .FLASH ⟨0, 5⟩ ∧
    ¬Meets (pairStep (flashOf (Lua.lua "abcd\n")) (content (flashOf (Lua.lua "abcd\n")) .FLASH ⟨0, 5⟩))
      (Agrees (flashOf (Lua.lua "abcd\n")) .FLASH ⟨0, 5⟩) (opened .FLASH ⟨0, 5⟩)
      [.fgets 3 [0, 0, 0]] := by
  refine ⟨placed_flashOf _ (by decide), fun hm => ?_⟩
  have hl : Legal (content (flashOf (Lua.lua "abcd\n")) .FLASH ⟨0, 5⟩) .start (.fgets 3 [0, 0, 0]) := by
    decide
  have hplace := (hm _ (if_pos hl)).1.place
  revert hplace
  decide +kernel

end LuatAir200.ScriptStreams
