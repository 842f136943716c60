import LuatAir200.ScriptReads
import LuatAir200.StdioStreams

/-!
# Reads of encrypted files

A file is encrypted in blocks of 512 bytes. What is read of it, from the file system, from
the image in the flash or from the update package, next to a standard read stream over the
decryption of the whole file.
-/
namespace LuatAir200.EncryptedReads
open ByteStream Machine
open ScriptStreams (s32 u32 align decodeBlock decodeBlocks Got Device Item File Placed Follows
  Astray Long content fread_ext fseek_ext decode_file)
open Stdio (Io Stands Kept decodeRead lualibc_fread lualibc_fseek lualibc_ftell)

/-- The decryption of a whole file. -/
def decrypt (decode : List UInt8 → List UInt8) (raw : List UInt8) : List UInt8 :=
  decodeBlocks decode (raw.length / 512) raw

/-! ## Blocks -/

section Blocks
variable {decode : List UInt8 → List UInt8}

theorem decrypt_long {raw : List UInt8} (h : 512 ≤ raw.length) :
    decrypt decode raw = decodeBlock decode (raw.take 512) ++ decrypt decode (raw.drop 512) := by
  have hn : raw.length / 512 = (raw.length - 512) / 512 + 1 := by omega
  rw [decrypt, hn, decodeBlocks, decrypt, List.length_drop]

variable (hd : ∀ data, (decode data).length = data.length)
include hd

theorem decodeBlock_length (block : List UInt8) : (decodeBlock decode block).length = block.length := by
  rw [decodeBlock, List.length_append, hd, List.length_take, List.length_drop]
  omega

theorem decodeBlocks_length (n : ℕ) (raw : List UInt8) :
    (decodeBlocks decode n raw).length = raw.length := by
  induction n generalizing raw with
  | zero => exact decodeBlock_length hd raw
  | succ n ih =>
      rw [decodeBlocks, List.length_append, decodeBlock_length hd, ih, List.length_take,
        List.length_drop]
      omega

theorem decrypt_length (raw : List UInt8) : (decrypt decode raw).length = raw.length :=
  decodeBlocks_length hd _ raw

theorem decrypt_drop (k : ℕ) (raw : List UInt8) :
    decrypt decode (raw.drop (512 * k)) = (decrypt decode raw).drop (512 * k) := by
  induction k generalizing raw with
  | zero => rfl
  | succ k ih =>
      have hk : 512 * (k + 1) = 512 + 512 * k := by omega
      rw [hk, ← List.drop_drop, ← List.drop_drop, ih]
      congr 1
      by_cases hl : 512 ≤ raw.length
      · have hb : (decodeBlock decode (raw.take 512)).length = 512 := by
          rw [decodeBlock_length hd, List.length_take]
          omega
        rw [decrypt_long hl, List.drop_append_of_le_length hb.ge, List.drop_eq_nil_of_le hb.le,
          List.nil_append]
      · have hlen := decrypt_length hd raw
        have hnil : raw.drop 512 = [] := List.drop_eq_nil_of_le (by omega)
        have hdnil : (decrypt decode raw).drop 512 = [] := List.drop_eq_nil_of_le (by omega)
        rw [hdnil, hnil]
        apply List.eq_nil_of_length_eq_zero
        rw [decrypt_length hd, List.length_nil]

theorem decrypt_take (k : ℕ) (raw : List UInt8) :
    decrypt decode (raw.take (512 * k)) = (decrypt decode raw).take (512 * k) := by
  induction k generalizing raw with
  | zero =>
      apply List.eq_nil_of_length_eq_zero
      rw [decrypt_length hd]
      rfl
  | succ k ih =>
      have hlen := decrypt_length hd raw
      by_cases hl : 512 ≤ raw.length
      · have hb : (decodeBlock decode (raw.take 512)).length = 512 := by
          rw [decodeBlock_length hd, List.length_take]
          omega
        have hk : 512 * (k + 1) = 512 + 512 * k := by omega
        have htake : 512 ≤ (raw.take (512 * (k + 1))).length := by
          rw [List.length_take]
          omega
        rw [decrypt_long htake, decrypt_long hl, List.take_take, List.drop_take, hk]
        have h1 : min 512 (512 + 512 * k) = 512 := by omega
        have h2 : 512 + 512 * k - 512 = 512 * k := by omega
        have hfirst : (decodeBlock decode (raw.take 512)).take (512 + 512 * k) =
            decodeBlock decode (raw.take 512) := List.take_of_length_le (by omega)
        rw [h1, h2, ih, List.take_append, hb, h2, hfirst]
      · rw [List.take_of_length_le (l := raw) (by omega), List.take_of_length_le (by omega)]

/-- Bytes of the decryption are bytes of the decryption of whole blocks around them. -/
theorem decrypt_slice {raw : List UInt8} {k n pos count : ℕ} (hk : 512 * k ≤ pos)
    (hn : pos + count ≤ 512 * k + 512 * n) :
    ((decrypt decode ((raw.drop (512 * k)).take (512 * n))).drop (pos - 512 * k)).take count =
      ((decrypt decode raw).drop pos).take count := by
  have hp : 512 * k + (pos - 512 * k) = pos := by omega
  rw [decrypt_take hd, decrypt_drop hd, List.drop_take, List.drop_drop, hp, List.take_take]
  congr 1
  omega

end Blocks

/-- The blocks around the bytes that are asked for. -/
theorem align_blocks (pos count : ℕ) : ∃ k n, align pos = 512 * k ∧
    align (pos + count + 511) = 512 * k + 512 * n ∧ 512 * k ≤ pos ∧ pos + count ≤ 512 * k + 512 * n := by
  refine ⟨pos / 512, (pos + count + 511) / 512 - pos / 512, ?_, ?_, ?_, ?_⟩
  · rw [align, Nat.mul_comm]
  · rw [align]
    omega
  · omega
  · omega

/-- A piece that lies in the front part. -/
theorem drop_take_append {a b : List UInt8} {i n : ℕ} (h : i + n ≤ a.length) :
    ((a ++ b).drop i).take n = (a.drop i).take n := by
  rw [List.drop_append_of_le_length (by omega), List.take_append_of_le_length]
  rw [List.length_drop]
  omega

/-! ## Files of the file system -/

section FileSystem
variable {ν : Type} {m : Stdio.Machine} {st : StandardFiles.Stream ν} {pos : ℕ} {io : Io ν}

theorem fseek_set (h : Stands true st pos io) {p : ℕ} (hp : p < 2147483648) :
    Stands true st p (lualibc_fseek (s32 p) 0 io).2 ∧ Kept io (lualibc_fseek (s32 p) 0 io).2 := by
  obtain ⟨-, hs, hk⟩ := Stdio.fseek_stands h (s32 p) 0
  rw [Stdio.s32_natCast hp] at hs hk ⊢
  have ht : PosixFiles.target (io.bytes st).length pos p 0 = some p := by
    simp [PosixFiles.target]
  rw [ht] at hs
  exact ⟨hs, hk⟩

theorem fseek_end (h : Stands true st pos io) :
    Stands true st (io.bytes st).length (lualibc_fseek 0 2 io).2 ∧ Kept io (lualibc_fseek 0 2 io).2 := by
  obtain ⟨-, hs, hk⟩ := Stdio.fseek_stands h 0 2
  have ht : PosixFiles.target (io.bytes st).length pos 0 2 = some (io.bytes st).length := by
    simp [PosixFiles.target]
  rw [ht] at hs
  exact ⟨hs, hk⟩

/-- What is given is cut off at the end of the file. -/
theorem real_size (h : Stands true st pos io) {start resid len want : ℕ}
    (hs : start ≤ (io.bytes st).length) (hb : len < want → (io.bytes st).length < 4294967296)
    (henough : ¬len < want → start + resid ≤ (io.bytes st).length) :
    ∃ p io', (if len < want then
        (if u32 ((lualibc_ftell (lualibc_fseek 0 2 io).2).1 - start) < resid
          then u32 ((lualibc_ftell (lualibc_fseek 0 2 io).2).1 - start) else resid,
          (lualibc_ftell (lualibc_fseek 0 2 io).2).2)
      else (resid, io)) = (min resid ((io.bytes st).length - start), io') ∧
      Stands true st p io' ∧ Kept io io' := by
  by_cases hlen : len < want
  · obtain ⟨he, hk⟩ := fseek_end h
    obtain ⟨ht, htell, htk⟩ := Stdio.ftell_stands he
    have hbl := hb hlen
    have hu : u32 (((io.bytes st).length : ℤ) - start) = (io.bytes st).length - start := by
      unfold u32
      omega
    rw [if_pos hlen, ht, hu]
    refine ⟨_, _, ?_, htell, hk.trans htk⟩
    congr 1
    split <;> omega
  · have hr := henough hlen
    have hmin : min resid ((io.bytes st).length - start) = resid := by omega
    rw [if_neg hlen, hmin]
    exact ⟨_, _, rfl, h, Kept.refl io⟩

variable (hd : ∀ data, (m.decode data).length = data.length)
include hd

/-- A read gives the decryption of the bytes from the position on. -/
theorem decodeRead_stands (h : Stands true st pos io) (hr : st.readable) {size resid : ℕ}
    (hpos : 0 < resid) (hle : pos ≤ (io.bytes st).length) (hb : pos + resid + 511 < 2147483648) :
    (decodeRead m size resid pos io).1 =
      ⟨(((decrypt m.decode (io.bytes st)).drop pos).take resid).length / size,
        ((decrypt m.decode (io.bytes st)).drop pos).take resid⟩ ∧
    Stands true st (pos + (((decrypt m.decode (io.bytes st)).drop pos).take resid).length)
      (decodeRead m size resid pos io).2 ∧
    Kept io (decodeRead m size resid pos io).2 := by
  obtain ⟨k, n, hlow, hup, hk, hn⟩ := align_blocks pos resid
  have hu : u32 ((pos : ℤ) + resid + 511) = pos + resid + 511 := by
    unfold u32
    omega
  have hbl : 512 * k + 512 * n ≤ pos + resid + 511 := by
    rw [← hup, align]
    omega
  have hcount : u32 (((512 * k + 512 * n : ℕ) : ℤ) - (512 * k : ℕ)) = 512 * n := by
    unfold u32
    omega
  have hlen := decrypt_length hd (io.bytes st)
  have hslice := @decrypt_slice _ hd (io.bytes st) _ _ _ _ hk hn
  have hk32 : 512 * k < 2147483648 := by omega
  have hn32 : 512 * n < 2147483648 := by omega
  obtain ⟨hset, hkset⟩ := fseek_set h hk32
  obtain ⟨hread, hrs, hrk⟩ := @Stdio.sread_stands _ _ _ _ _ hset (512 * n)
  rw [if_pos hr, hkset.bytes] at hread hrs
  unfold decodeRead
  simp only [hlow, hu, hup, hcount, Stdio.s32_natCast hn32]
  cases hcall : Stdio.sread ((512 * n : ℕ) : ℤ) (lualibc_fseek (s32 ((512 * k : ℕ) : ℤ)) 0 io).2 with
  | mk data io' =>
      rw [hcall] at hread hrs hrk
      obtain rfl : data = _ := hread
      have hraw : ((io.bytes st).drop (512 * k)).take (512 * n) =
        ((io.bytes st).drop (512 * k)).take (512 * n) := rfl
      have hdl : (((decrypt m.decode (io.bytes st)).drop pos).take resid).length =
          min resid ((io.bytes st).length - pos) := by
        rw [List.length_take, List.length_drop, hlen]
      have hrl : (((io.bytes st).drop (512 * k)).take (512 * n)).length =
          min (512 * n) ((io.bytes st).length - 512 * k) := by
        rw [List.length_take, List.length_drop]
      rw [← hslice] at hdl ⊢
      generalize ((io.bytes st).drop (512 * k)).take (512 * n) = data at *
      cases data with
      | nil =>
          rw [List.length_nil] at hrl hrs
          have hzero : ((List.drop (pos - 512 * k) (decrypt m.decode [])).take resid).length = 0 := by
            omega
          have hnil := List.eq_nil_of_length_eq_zero hzero
          have hp : 512 * k + 0 = pos := by omega
          rw [hp] at hrs
          simp only [hnil, List.length_nil, Nat.zero_div, Nat.add_zero]
          refine ⟨trivial, hrs.flagged rfl rfl rfl hrs.cached, ?_⟩
          exact ⟨hkset.trans hrk |>.file, hkset.trans hrk |>.files, hkset.trans hrk |>.others⟩
      | cons b data =>
          have hbytes := (hkset.trans hrk).bytes st
          obtain ⟨p, io3, heq, hs3, hk3⟩ := @real_size _ _ _ _ hrs pos resid (b :: data).length (512 * n)
            (by rwa [hbytes]) (by rw [hbytes]; omega) (by rw [hbytes]; omega)
          rw [hbytes] at heq
          have hend : pos + min resid ((io.bytes st).length - pos) < 2147483648 := by omega
          obtain ⟨hlast, hklast⟩ := fseek_set hs3 hend
          simp only [heq, hdl, ← Nat.cast_add]
          refine ⟨?_, hlast, (hkset.trans hrk).trans (hk3.trans hklast)⟩
          have hin : pos - 512 * k + min resid ((io.bytes st).length - pos) ≤
              (decrypt m.decode (b :: data)).length := by
            rw [decrypt_length hd]
            omega
          have hfront := @drop_take_append (decrypt m.decode (b :: data))
            ((List.range (512 * n - (b :: data).length)).map m.heap) _ _ hin
          apply congrArg (Got.mk _)
          apply hfront.trans
          rw [List.take_eq_take_iff]
          rw [List.length_take] at hdl
          omega

theorem fread_stands (h : Stands true st pos io) (hr : st.readable) {size count : ℕ}
    (hle : pos ≤ (io.bytes st).length) (hb : pos + size * count + 511 < 2147483648) :
    (lualibc_fread m size count io).1 =
      ⟨(((decrypt m.decode (io.bytes st)).drop pos).take (size * count)).length / size,
        ((decrypt m.decode (io.bytes st)).drop pos).take (size * count)⟩ ∧
    Stands true st (pos + (((decrypt m.decode (io.bytes st)).drop pos).take (size * count)).length)
      (lualibc_fread m size count io).2 ∧
    Kept io (lualibc_fread m size count io).2 := by
  obtain ⟨hpos, ht, hk⟩ := Stdio.ftell_stands h
  have hresid : u32 ((count : ℤ) * size) = size * count := by
    rw [← Int.natCast_mul, Nat.mul_comm, Stdio.u32_natCast (by omega)]
  have hoff : u32 (pos : ℤ) = pos := Stdio.u32_natCast (by omega)
  have heq : lualibc_fread m size count io = if size * count = 0 then (⟨0, []⟩, (lualibc_ftell io).2)
      else decodeRead m size (size * count) pos (lualibc_ftell io).2 := by
    rw [lualibc_fread, hresid, h.kind, hpos, hoff]
    rfl
  rw [heq]
  by_cases hz : size * count = 0
  · rw [if_pos hz, hz, List.take_zero, List.length_nil, Nat.zero_div]
    exact ⟨rfl, ht, hk⟩
  · obtain ⟨hg, hs, hread⟩ := @decodeRead_stands _ _ _ _ _ hd ht hr size _ (Nat.pos_of_ne_zero hz)
      (by rwa [hk.bytes]) hb
    rw [hk.bytes] at hg hs
    rw [if_neg hz]
    exact ⟨hg, hs, hk.trans hread⟩

end FileSystem

/-! ## Files of the image -/

section Image
variable {d : Device} {item : Item} {fp : File} {pos : ℕ}

theorem fseek_table (h : Follows true .FLASH item pos fp) (hp : Placed d .FLASH item) {p : ℕ}
    (hle : p ≤ (content d .FLASH item).length) :
    Follows true .FLASH item p (fseek_ext (s32 p) 0 fp).2 := by
  have hbound := hp.counted
  have hoff := hp.offset
  have hlc := hp.length_content_int
  have hs : ¬((p : ℤ) > fp.item.nLen ∨ (p : ℤ) < 0) := by
    rw [h.same]
    omega
  rw [ScriptStreams.s32_eq (by omega) (by omega), fseek_ext, if_pos rfl, if_neg hs]
  have hm := @Follows.moved _ _ _ _ _ h p p (by omega) rfl
  rwa [Int.toNat_natCast] at hm

variable (hd : ∀ data, (d.decode data).length = data.length)
include hd

/-- From an aligned position a read gives the decryption of the bytes from there on. -/
theorem decode_file_follows (hp : Placed d .FLASH item) (h : Follows true .FLASH item pos fp)
    {size count : ℕ} (ha : 512 ∣ pos) (hb : pos + size * count + 511 < 4294967296) :
    (decode_file d size count fp).1 =
      ⟨(((decrypt d.decode (content d .FLASH item)).drop pos).take (size * count)).length / size,
        ((decrypt d.decode (content d .FLASH item)).drop pos).take (size * count)⟩ ∧
    Follows true .FLASH item
      (pos + (((decrypt d.decode (content d .FLASH item)).drop pos).take (size * count)).length)
      (decode_file d size count fp).2 := by
  obtain ⟨k, n, hlow, hup, hk, hn⟩ := align_blocks pos (size * count)
  have hbound := hp.counted
  have hoff := hp.offset
  have hin := h.bounded
  have hlc := hp.length_content_int
  have hlen := decrypt_length hd (content d .FLASH item)
  have hbl : 512 * k + 512 * n ≤ pos + size * count + 511 := by
    rw [← hup, align]
    omega
  have hkp : 512 * k = pos := by
    rw [← hlow, align]
    exact Nat.div_mul_cancel ha
  have hresid : u32 ((count : ℤ) * size) = size * count := by
    rw [← Int.natCast_mul, Nat.mul_comm, Stdio.u32_natCast (by omega)]
  have hu : u32 (pos : ℤ) = pos := Stdio.u32_natCast (by omega)
  have hcount : u32 (((512 * k + 512 * n : ℕ) : ℤ) - (512 * k : ℕ)) = 512 * n := by
    unfold u32
    omega
  have hleft : u32 (item.nLen - pos) = (content d .FLASH item).length - pos := by
    unfold u32
    omega
  have hsum : u32 ((pos : ℤ) + (size * count : ℕ) + 511) = pos + size * count + 511 := by
    unfold u32
    omega
  have hslice := @decrypt_slice _ hd (content d .FLASH item) _ _ _ _ hk hn
  unfold decode_file
  have hcut (n : ℕ) : (if n ≤ (content d .FLASH item).length - pos then n
      else (content d .FLASH item).length - pos) = min n ((content d .FLASH item).length - pos) := by
    split <;> omega
  have hact : (if min (512 * n) ((content d .FLASH item).length - pos) < 512 * n ∧
      (content d .FLASH item).length - pos < size * count then (content d .FLASH item).length - pos
      else size * count) = min (size * count) ((content d .FLASH item).length - pos) := by
    split <;> omega
  have hraw : d.bytes (s32 (item.nOffset + pos)) (min (512 * n) ((content d .FLASH item).length - pos)) =
      ((content d .FLASH item).drop (512 * k)).take (512 * n) := by
    have hpiece := @Placed.piece d .FLASH item pos hp
      (min (512 * n) ((content d .FLASH item).length - pos)) (by omega)
    rw [ScriptStreams.s32_eq (by omega) (by omega), hkp, ← Device.piece, ← hpiece,
      List.take_eq_take_iff, List.length_drop]
    omega
  have hrl : (((content d .FLASH item).drop (512 * k)).take (512 * n)).length =
      min (512 * n) ((content d .FLASH item).length - pos) := by
    rw [List.length_take, List.length_drop, hkp]
  simp only [ScriptStreams.ftell_ext, h.offset, h.same, hu, hresid, hsum, hlow, hup, hcount, hleft,
    hcut, hact, hraw]
  have hdl : (((decrypt d.decode (content d .FLASH item)).drop pos).take (size * count)).length =
      min (size * count) ((content d .FLASH item).length - pos) := by
    rw [List.length_take, List.length_drop, hlen]
  have hlow32 : 512 * k ≤ (content d .FLASH item).length := by omega
  have hlast : pos + min (size * count) ((content d .FLASH item).length - pos) ≤
      (content d .FLASH item).length := by omega
  have hset := fseek_table (fseek_table h hp hlow32) hp hlast
  rw [Nat.cast_add] at hset
  rw [hdl]
  constructor
  · have hin : pos - 512 * k + min (size * count) ((content d .FLASH item).length - pos) ≤
        (decrypt d.decode (((content d .FLASH item).drop (512 * k)).take (512 * n))).length := by
      rw [decrypt_length hd, hrl]
      omega
    have hfront := @drop_take_append _ ((List.range (512 * n - min (512 * n)
      ((content d .FLASH item).length - pos))).map d.heap) _ _ hin
    rw [decrypt, hrl] at hfront
    apply congrArg (Got.mk _)
    apply hfront.trans
    rw [← hslice, decrypt, hrl, List.take_eq_take_iff]
    rw [← hslice, List.length_take, decrypt, hrl] at hdl
    omega
  · refine ⟨hset.flags, hset.same, hset.kind, hset.offset, hset.bounded, ?_⟩
    intro x hx
    rcases List.mem_append.mp hx with hx | hx
    · exact hset.inside x hx
    · obtain rfl := List.mem_singleton.mp hx
      have hs : s32 (item.nOffset + pos) = item.nOffset + pos :=
        ScriptStreams.s32_eq (by omega) (by omega)
      dsimp only
      rw [hset.same, hs]
      omega

/-- A read from the image, where it is aligned or there is nothing to give. -/
theorem fread_ext_follows (hp : Placed d .FLASH item) (h : Follows true .FLASH item pos fp)
    {size count : ℕ} (hb : pos + size * count + 511 < 4294967296)
    (ha : 512 ∣ pos ∨ size * count = 0 ∨ (content d .FLASH item).length ≤ pos) :
    (fread_ext d size count fp).1 =
      ⟨(((decrypt d.decode (content d .FLASH item)).drop pos).take (size * count)).length / size,
        ((decrypt d.decode (content d .FLASH item)).drop pos).take (size * count)⟩ ∧
    Follows true .FLASH item
      (pos + (((decrypt d.decode (content d .FLASH item)).drop pos).take (size * count)).length)
      (fread_ext d size count fp).2 := by
  have hresid : u32 ((count : ℤ) * size) = size * count := by
    rw [← Int.natCast_mul, Nat.mul_comm, Stdio.u32_natCast (by omega)]
  have hlen := decrypt_length hd (content d .FLASH item)
  have hfread := (@Follows.len d true .FLASH item ⟨pos, false⟩ fp hp h (size * count) (by omega))
  simp only [fread, Reader.rest, List.length_take, List.length_drop] at hfread
  by_cases hz : size * count = 0 ∨ (content d .FLASH item).length ≤ pos
  · have hnil : ((decrypt d.decode (content d .FLASH item)).drop pos).take (size * count) = [] := by
      apply List.eq_nil_of_length_eq_zero
      rw [List.length_take, List.length_drop, hlen]
      omega
    have hnone : fread_ext d size count fp = (⟨0, []⟩, fp) := by
      have hle : ((min (size * count) ((content d .FLASH item).length - pos) : ℕ) : ℤ) ≤ 0 := by omega
      simp only [fread_ext, hresid, hfread, hle, if_true, ite_self]
    rw [hnone, hnil, List.length_nil, Nat.zero_div]
    exact ⟨rfl, h⟩
  · have hne : size * count ≠ 0 := by omega
    have hle : ¬((min (size * count) ((content d .FLASH item).length - pos) : ℕ) : ℤ) ≤ 0 := by omega
    have hsame : fread_ext d size count fp = decode_file d size count fp := by
      simp only [fread_ext, hresid, hfread, hle, hne, if_false, h.flags, h.kind, if_true]
    rw [hsame]
    apply decode_file_follows hd hp h _ hb
    omega

end Image

/-! ## Calls -/

inductive Call
  | fread (size count : ℕ)
  | fseek (offset whence : ℤ)
  deriving DecidableEq

inductive Answer
  | items (got : Got)
  | sought (x : ℤ)
  deriving DecidableEq

/-- What the streams of a place are read with. -/
structure Place (σ : Type) where
  fread : ℕ → ℕ → σ → Got × σ
  fseek : ℤ → ℤ → σ → ℤ × σ

variable {σ : Type}

def Place.call (p : Place σ) (s : σ) : Call → Answer × σ
  | .fread size count => (p.fread size count s).map .items id
  | .fseek offset whence => (p.fseek offset whence s).map .sought id

/-- Streams of the file system. -/
def fileSystem (ν : Type) (m : Stdio.Machine) : Place (Io ν) := ⟨lualibc_fread m, lualibc_fseek⟩

/-- Streams of the tables of scripts. -/
def tables (d : Device) : Place File := ⟨fread_ext d, fseek_ext⟩

def standard (bytes : List UInt8) (r : Reader) : Call → Answer × Reader
  | .fread size count =>
      (fread bytes (size * count) r).map (fun data => .items ⟨data.length / size, data⟩) id
  | .fseek offset whence =>
      (fseek bytes offset whence r).map (fun done => .sought (if done then 0 else -1)) id

/-- The calls that can be made: a buffer is counted by `size_t`. -/
def Legal : Call → Prop
  | .fread size count => size * count < 4294967296
  | .fseek offset _ => Long offset

instance (c : Call) : Decidable (Legal c) := by
  unfold Legal
  split <;> infer_instance

/-- A stream and a standard one. -/
structure Pair (σ : Type) where
  stream : σ
  reader : Reader

def pairStep (p : Place σ) (bytes : List UInt8) (w : Pair σ) (c : Call) : Option (Pair σ) :=
  if Legal c then some ⟨(p.call w.stream c).2, (standard bytes w.reader c).2⟩ else none

/-- The call gives what the standard says. -/
def Agrees (p : Place σ) (bytes : List UInt8) (w : Pair σ) (c : Call) : Prop :=
  (p.call w.stream c).1 = (standard bytes w.reader c).1

instance (p : Place σ) (bytes : List UInt8) (w : Pair σ) (c : Call) :
    Decidable (Agrees p bytes w c) := by
  unfold Agrees
  infer_instance

/-- Where a call that meets a condition answers as the standard says and keeps the streams at
one position, runs of such calls do. -/
theorem meets_agrees {p : Place σ} {bytes : List UInt8} {At : ℕ → σ → Prop}
    {Good : Reader → Call → Prop}
    (hstep : ∀ s r c, At r.pos s → Legal c → Good r c →
      (p.call s c).1 = (standard bytes r c).1 ∧ At (standard bytes r c).2.pos (p.call s c).2)
    {s : σ} {r : Reader} (h : At r.pos s) {calls : List Call}
    (hm : Meets (pairStep p bytes) (fun w => Good w.reader) ⟨s, r⟩ calls) :
    Meets (pairStep p bytes) (Agrees p bytes) ⟨s, r⟩ calls := by
  induction calls generalizing s r with
  | nil => trivial
  | cons c calls ih =>
      intro w hw
      have hnext := hm w hw
      unfold pairStep at hw
      by_cases hl : Legal c
      · rw [if_pos hl] at hw
        cases hw
        obtain ⟨ha, ht⟩ := hstep s r c h hl hnext.1
        exact ⟨ha, ih ht hnext.2⟩
      · rw [if_neg hl] at hw
        cases hw

/-! ## Conditions -/

/-- In the file system: a request that an `int` counts when it is rounded up to blocks, and no
seek beyond the end. -/
def FileGood (raw : List UInt8) (r : Reader) : Call → Prop
  | .fread size count => r.pos + size * count + 511 < 2147483648
  | .fseek offset whence => ∀ x ∈ target raw offset whence r, x ≤ raw.length

/-- In the image: reads that are aligned or give nothing, and no seek from the end but to it. -/
def ImageGood (raw : List UInt8) (r : Reader) : Call → Prop
  | .fread size count => r.pos + size * count + 511 < 4294967296 ∧
      (512 ∣ r.pos ∨ size * count = 0 ∨ raw.length ≤ r.pos)
  | .fseek offset whence => ¬Astray raw offset whence

/-- In the update package: reads of bytes that are their own decryption. -/
def PackageGood (decode : List UInt8 → List UInt8) (raw : List UInt8) (r : Reader) : Call → Prop
  | .fread size count => (fread raw (size * count) r).1 = (fread (decrypt decode raw) (size * count) r).1
  | .fseek offset whence => ¬Astray raw offset whence

instance (raw : List UInt8) (r : Reader) (c : Call) : Decidable (FileGood raw r c) := by
  unfold FileGood
  split <;> infer_instance

instance (raw : List UInt8) (r : Reader) (c : Call) : Decidable (ImageGood raw r c) := by
  unfold ImageGood
  split <;> infer_instance

instance (decode : List UInt8 → List UInt8) (raw : List UInt8) (r : Reader) (c : Call) :
    Decidable (PackageGood decode raw r c) := by
  unfold PackageGood
  split <;> infer_instance

theorem target_congr {a b : List UInt8} (h : a.length = b.length) (offset whence : ℤ) (r : Reader) :
    target a offset whence r = target b offset whence r := by
  rw [target, target, h]

theorem fseek_congr {a b : List UInt8} (h : a.length = b.length) (offset whence : ℤ) (r : Reader) :
    fseek a offset whence r = fseek b offset whence r := by
  rw [fseek, fseek, target_congr h, h]

theorem Astray.congr {a b : List UInt8} (h : a.length = b.length) {offset whence : ℤ} :
    Astray a offset whence ↔ Astray b offset whence := by
  rw [Astray, Astray, h]

/-! ## Steps -/

/-- Inside a file the seeks of the file system are those of the standard. -/
theorem fseek_target {bytes : List UInt8} {offset whence : ℤ} {r : Reader}
    (h : ∀ x ∈ target bytes offset whence r, x ≤ bytes.length) :
    (PosixFiles.target bytes.length r.pos offset whence).isSome = (fseek bytes offset whence r).1 ∧
    (PosixFiles.target bytes.length r.pos offset whence).getD r.pos =
      (fseek bytes offset whence r).2.pos := by
  have heq : PosixFiles.target bytes.length r.pos offset whence =
      (target bytes offset whence r).bind fun x => if 0 ≤ x then some x.toNat else none := rfl
  rw [heq, fseek]
  cases ht : target bytes offset whence r with
  | none => exact ⟨rfl, rfl⟩
  | some x =>
      have hx := h x ht
      by_cases h0 : 0 ≤ x
      · simp [h0, hx]
      · simp [h0]

theorem file_step {ν : Type} {m : Stdio.Machine} {st : StandardFiles.Stream ν} {io s : Io ν}
    {r : Reader} {c : Call} (hd : ∀ data, (m.decode data).length = data.length) (hr : st.readable)
    (h : Stands true st r.pos s ∧ Kept io s ∧ r.pos ≤ (io.bytes st).length)
    (hg : FileGood (io.bytes st) r c) :
    ((fileSystem ν m).call s c).1 = (standard (decrypt m.decode (io.bytes st)) r c).1 ∧
    Stands true st (standard (decrypt m.decode (io.bytes st)) r c).2.pos ((fileSystem ν m).call s c).2 ∧
    Kept io ((fileSystem ν m).call s c).2 ∧
    (standard (decrypt m.decode (io.bytes st)) r c).2.pos ≤ (io.bytes st).length := by
  obtain ⟨hs, hk, hle⟩ := h
  have hlen := decrypt_length hd (io.bytes st)
  rw [← hk.bytes] at hle hg hlen ⊢
  cases c with
  | fread size count =>
      obtain ⟨ha, ht, hkr⟩ := fread_stands hd hs hr hle hg
      have hpos : (fread (decrypt m.decode (s.bytes st)) (size * count) r).2.pos ≤ (s.bytes st).length := by
        rw [← hlen]
        apply fread_pos_le
        rwa [hlen]
      exact ⟨congrArg Answer.items ha, ht, hk.trans hkr, hpos⟩
  | fseek offset whence =>
      obtain ⟨ha, ht, hks⟩ := Stdio.fseek_stands hs offset whence
      obtain ⟨hdone, hpos⟩ := fseek_target hg
      have hin : (fseek (s.bytes st) offset whence r).2.pos ≤ (s.bytes st).length := fseek_pos_le hle
      rw [hdone] at ha
      rw [hpos] at ht
      simp only [standard, fseek_congr hlen]
      exact ⟨congrArg Answer.sought ha, ht, hk.trans hks, hin⟩

theorem image_step {d : Device} {item : Item} {fp : File} {r : Reader} {c : Call}
    (hd : ∀ data, (d.decode data).length = data.length) (hp : Placed d .FLASH item)
    (h : Follows true .FLASH item r.pos fp) (hl : Legal c)
    (hg : ImageGood (content d .FLASH item) r c) :
    ((tables d).call fp c).1 = (standard (decrypt d.decode (content d .FLASH item)) r c).1 ∧
    Follows true .FLASH item (standard (decrypt d.decode (content d .FLASH item)) r c).2.pos
      ((tables d).call fp c).2 := by
  have hlen := decrypt_length hd (content d .FLASH item)
  cases c with
  | fread size count =>
      obtain ⟨ha, hf⟩ := fread_ext_follows hd hp h hg.1 hg.2
      exact ⟨congrArg Answer.items ha, hf⟩
  | fseek offset whence =>
      obtain ⟨ha, hf⟩ := ScriptStreams.fseek_follows hp h hl hg
      simp only [standard, fseek_congr hlen]
      exact ⟨congrArg Answer.sought ha, hf⟩

theorem package_step {d : Device} {item : Item} {fp : File} {r : Reader} {c : Call}
    (hd : ∀ data, (d.decode data).length = data.length) (hp : Placed d .UPDATE item)
    (h : Follows true .UPDATE item r.pos fp) (hl : Legal c)
    (hg : PackageGood d.decode (content d .UPDATE item) r c) :
    ((tables d).call fp c).1 = (standard (decrypt d.decode (content d .UPDATE item)) r c).1 ∧
    Follows true .UPDATE item (standard (decrypt d.decode (content d .UPDATE item)) r c).2.pos
      ((tables d).call fp c).2 := by
  have hlen := decrypt_length hd (content d .UPDATE item)
  cases c with
  | fread size count =>
      have he : ScriptStreams.Section.UPDATE = .FLASH → true = false := by
        intro hs
        cases hs
      have hdata : (fread (content d .UPDATE item) (size * count) r).1 =
          (fread (decrypt d.decode (content d .UPDATE item)) (size * count) r).1 := hg
      obtain ⟨ha, hf⟩ := ScriptStreams.fread_follows hp h he hl
      rw [hdata] at ha
      have hpos : (fread (content d .UPDATE item) (size * count) r).2.pos =
          (fread (decrypt d.decode (content d .UPDATE item)) (size * count) r).2.pos := by
        simp only [fread] at hdata ⊢
        rw [hdata]
      rw [hpos] at hf
      exact ⟨congrArg Answer.items ha, hf⟩
  | fseek offset whence =>
      obtain ⟨ha, hf⟩ := ScriptStreams.fseek_follows hp h hl hg
      simp only [standard, fseek_congr hlen]
      exact ⟨congrArg Answer.sought ha, hf⟩

/-- An encrypted file reads as its decryption: in the file system along calls that do not seek
beyond the end, from the image along calls that read only from aligned positions and seek from
the end only to it, and from the update package along calls that read only bytes that are their
own decryption. -/
theorem encrypted_reads_agree {ν : Type} {m : Stdio.Machine} {d : Device} (hdm : d.decode = m.decode)
    (hd : ∀ data, (m.decode data).length = data.length) (raw : List UInt8) (calls : List Call) :
    (∀ (st : StandardFiles.Stream ν) (io : Io ν), Stands true st 0 io → st.readable →
      io.bytes st = raw →
      Meets (pairStep (fileSystem ν m) (decrypt m.decode raw)) (fun w => FileGood raw w.reader)
        ⟨io, .start⟩ calls →
      Meets (pairStep (fileSystem ν m) (decrypt m.decode raw))
        (Agrees (fileSystem ν m) (decrypt m.decode raw)) ⟨io, .start⟩ calls) ∧
    (∀ item, Placed d .FLASH item → content d .FLASH item = raw →
      Meets (pairStep (tables d) (decrypt m.decode raw)) (fun w => ImageGood raw w.reader)
        ⟨ScriptStreams.fopen_ext .FLASH item true, .start⟩ calls →
      Meets (pairStep (tables d) (decrypt m.decode raw)) (Agrees (tables d) (decrypt m.decode raw))
        ⟨ScriptStreams.fopen_ext .FLASH item true, .start⟩ calls) ∧
    (∀ item, Placed d .UPDATE item → content d .UPDATE item = raw →
      Meets (pairStep (tables d) (decrypt m.decode raw)) (fun w => PackageGood m.decode raw w.reader)
        ⟨ScriptStreams.fopen_ext .UPDATE item true, .start⟩ calls →
      Meets (pairStep (tables d) (decrypt m.decode raw)) (Agrees (tables d) (decrypt m.decode raw))
        ⟨ScriptStreams.fopen_ext .UPDATE item true, .start⟩ calls) := by
  refine ⟨?_, ?_, ?_⟩
  · rintro st io h hr rfl hm
    apply @meets_agrees _ _ _ (fun pos s => Stands true st pos s ∧ Kept io s ∧
      pos ≤ (io.bytes st).length) _ _ _ _ ⟨h, Kept.refl io, Nat.zero_le _⟩ _ hm
    exact fun s r c hs _ hg => file_step hd hr hs hg
  · rintro item hp rfl hm
    have h : Follows true .FLASH item Reader.start.pos (ScriptStreams.fopen_ext .FLASH item true) := by
      refine ⟨rfl, rfl, rfl, rfl, hp.length, ?_⟩
      intro x hx
      cases hx
    rw [← hdm] at hd hm ⊢
    apply @meets_agrees _ _ _ (Follows true .FLASH item) _ _ _ _ h _ hm
    exact fun s r c hs hl hg => image_step hd hp hs hl hg
  · rintro item hp rfl hm
    have h : Follows true .UPDATE item Reader.start.pos (ScriptStreams.fopen_ext .UPDATE item true) := by
      refine ⟨rfl, rfl, rfl, rfl, hp.length, ?_⟩
      intro x hx
      cases hx
    rw [← hdm] at hd hm ⊢
    apply @meets_agrees _ _ _ (Follows true .UPDATE item) _ _ _ _ h _ hm
    exact fun s r c hs hl hg => package_step hd hp hs hl hg

/-- A file in the image, the same file in the update package, and the streams of a file system
with it. -/
def deviceOf (decode : List UInt8 → List UInt8) (raw : List UInt8) : Device :=
  ⟨fun i => raw.getD i.toNat 0, some raw, decode, fun _ => 0⟩

def ioOf (raw : List UInt8) : Io Unit :=
  ⟨⟨fun _ => some raw, [some ⟨(), 0, true, false, false⟩]⟩, ⟨some .SRD, false, false, false, 0, 0, true⟩⟩

def streamOf : StandardFiles.Stream Unit := ⟨(), .start, true, false, false⟩

theorem stands_ioOf (raw : List UInt8) : Stands true streamOf 0 (ioOf raw) := by
  refine ⟨?_, rfl, rfl, ?_, rfl⟩
  · intro h
    cases h
  · intro h
    cases h

theorem bytes_ioOf (raw : List UInt8) : (ioOf raw).bytes streamOf = raw := rfl

theorem content_deviceOf (decode : List UInt8 → List UInt8) (raw : List UInt8)
    (s : ScriptStreams.Section) : content (deviceOf decode raw) s ⟨0, raw.length⟩ = raw := by
  cases s with
  | UPDATE => simp [content, Device.piece, deviceOf]
  | FLASH =>
      apply List.ext_getElem
      · simp [content, Device.piece, Device.bytes]
      · intro i hi hj
        simp [content, Device.piece, Device.bytes, deviceOf, hj]

theorem placed_deviceOf (decode : List UInt8 → List UInt8) (raw : List UInt8) (s : ScriptStreams.Section)
    (h : raw.length < 2147483648) : Placed (deviceOf decode raw) s ⟨0, raw.length⟩ where
  offset := Int.le_refl 0
  length := by simp
  counted := by
    dsimp only
    omega
  there _ := ⟨raw, rfl, by simp⟩

/-- A decryption that keeps the length. -/
def flip (data : List UInt8) : List UInt8 := data.map fun b => b ^^^ 255

/-- Six hundred bytes. -/
def sample : List UInt8 := (List.range 600).map fun i => UInt8.ofNat (i * 7)

/-- Reads of a file of two blocks. -/
theorem encrypted_reads_agree_sample :
    Meets (pairStep (fileSystem Unit ⟨flip, fun _ => 0⟩) (decrypt flip sample))
      (Agrees (fileSystem Unit ⟨flip, fun _ => 0⟩) (decrypt flip sample)) ⟨ioOf sample, .start⟩
      [.fread 1 3, .fseek 509 0, .fread 2 4, .fread 1 1000, .fread 1 1] ∧
    Meets (pairStep (tables (deviceOf flip sample)) (decrypt flip sample))
      (Agrees (tables (deviceOf flip sample)) (decrypt flip sample))
      ⟨ScriptStreams.fopen_ext .FLASH ⟨0, sample.length⟩ true, .start⟩
      [.fread 1 512, .fread 3 20, .fseek (-60) 1, .fread 1 100, .fread 1 1] ∧
    Meets (pairStep (tables (deviceOf flip sample)) (decrypt flip sample))
      (Agrees (tables (deviceOf flip sample)) (decrypt flip sample))
      ⟨ScriptStreams.fopen_ext .UPDATE ⟨0, sample.length⟩ true, .start⟩ [.fseek 0 2, .fread 1 4] := by
  have hd (data : List UInt8) : (flip data).length = data.length := List.length_map _
  have h := fun calls => @encrypted_reads_agree Unit ⟨flip, fun _ => 0⟩ (deviceOf flip sample) rfl hd
    sample calls
  have hp (s : ScriptStreams.Section) : Placed (deviceOf flip sample) s ⟨0, sample.length⟩ :=
    placed_deviceOf flip sample s (by decide +kernel)
  have hc (s : ScriptStreams.Section) : content (deviceOf flip sample) s ⟨0, sample.length⟩ = sample :=
    content_deviceOf flip sample s
  refine ⟨(h _).1 streamOf _ (stands_ioOf sample) rfl (bytes_ioOf sample) ?_,
    (h _).2.1 _ (hp _) (hc _) ?_, (h _).2.2 _ (hp _) (hc _) ?_⟩
  · decide +kernel
  · decide +kernel
  · decide +kernel

/-- Two bytes of the image that are read one after the other: the second is the one after the
next. -/
theorem decode_file_skips_byte :
    Placed (deviceOf id (Lua.lua "abcdefgh")) .FLASH ⟨0, 8⟩ ∧
    content (deviceOf id (Lua.lua "abcdefgh")) .FLASH ⟨0, 8⟩ = Lua.lua "abcdefgh" ∧
    ¬Meets (pairStep (tables (deviceOf id (Lua.lua "abcdefgh"))) (decrypt id (Lua.lua "abcdefgh")))
      (Agrees (tables (deviceOf id (Lua.lua "abcdefgh"))) (decrypt id (Lua.lua "abcdefgh")))
      ⟨ScriptStreams.fopen_ext .FLASH ⟨0, 8⟩ true, .start⟩ [.fread 1 1, .fread 1 1] := by
  refine ⟨placed_deviceOf id (Lua.lua "abcdefgh") .FLASH (by decide), by decide, ?_⟩
  decide +kernel

end LuatAir200.EncryptedReads
