import LuatAir200.Conversion
import Mathlib.Algebra.Ring.Nat

/-!
# Conversions between character sets

The converters of `lib/iconv` and the loop of `luaiconv.c` around them. A converter gets the
memory from `*_inbuf` on, which ends with the terminator of the Lua string, and the two
counts; `ret` is 0 or the error in `errno`. The tables of GB2312 are parameters: no result
depends on their entries.
-/
namespace LuatAir200.Iconv
open Conversion

/-- The generated tables of GB2312. -/
structure Tables where
  gb2312_to_ucs2_table : UInt16 → UInt16
  ucs2_to_gb2312_table : UInt16 → UInt16
  tab_UCS2_to_GBK : List (UInt16 × UInt16)
  ucs2_index_table_4E00_9FFF : UInt16 → UInt16 → UInt16
  ucs2_mirror_4E00_9FFF : UInt16 → ℕ → UInt8

/-- What a converter returns and leaves in its arguments: `*_inbuf` has moved by `advance`,
and `out` is written at `*_outbuf`. -/
structure Outcome where
  ret : Status
  advance : ℕ
  inbytesleft : ℕ
  out : List UInt8
  outbytesleft : ℕ

/-- A converter, given the memory at `*_inbuf`, `*inbytesleft` and `*outbytesleft`. -/
abbrev Converter := List UInt8 → ℕ → ℕ → Outcome

/-- The byte at an offset; past the end there is the terminator. -/
def byte (mem : List UInt8) (i : ℕ) : UInt8 := mem.getD i 0

/-- `a -= b` on a `size_t`. -/
def sizeSub (a b : ℕ) : ℕ := (a + 2 ^ 32 - b) % 2 ^ 32

/-- Two bytes in big or little endian. -/
def pair (endian : Bool) (high low : UInt8) : List UInt8 :=
  if endian then [high, low] else [low, high]

/-! ## UTF-8 to UCS-2 -/

/-- The rounds of the loop of `enc_get_utf8_size`; a byte has eight bits. -/
def shifts : ℕ → UInt8 → ℕ
  | 0, _ => 0
  | n + 1, c => if c &&& 0x80 ≠ 0 then shifts n (c <<< 1) + 1 else 0

def enc_get_utf8_size (c : UInt8) : ℕ :=
  let count := shifts 8 c
  if count = 0 then 1 else count

def enc_utf8_to_unicode_one (mem : List UInt8) (endian : Bool) : Option (List UInt8) :=
  let b1 := byte mem 0
  let b2 := byte mem 1
  let b3 := byte mem 2
  match enc_get_utf8_size b1 with
  | 1 => some (pair endian 0 b1)
  | 2 =>
      if b2 &&& 0xE0 ≠ 0x80 then none
      else some (pair endian ((b1 >>> 2) &&& 0x07) ((b1 <<< 6) + (b2 &&& 0x3F)))
  | 3 =>
      if b2 &&& 0xC0 ≠ 0x80 ∨ b3 &&& 0xC0 ≠ 0x80 then none
      else some (pair endian ((b1 <<< 4) + ((b2 >>> 2) &&& 0x0F)) ((b2 <<< 6) + (b3 &&& 0x3F)))
  | _ => none

/-- `utfbytes` of the loop. -/
def utfbytes (c : UInt8) : ℕ :=
  let n := enc_get_utf8_size c
  if n = 0 then 1 else n

/-- The loop of `enc_utf8_to_unicode`, with a bound on its rounds. -/
def utf8Loop (src : List UInt8) (endian : Bool) (iLen maxOLen : ℕ) :
    ℕ → ℕ → ℕ → Status × ℕ × List UInt8
  | 0, iPos, _ => (.ok, iPos, [])
  | rounds + 1, iPos, oPos =>
      if iPos < iLen then
        if maxOLen < oPos + 2 then (.E2BIG, iPos, [])
        else
          match enc_utf8_to_unicode_one (src.drop iPos) endian with
          | none => (.EINVAL, iPos, [])
          | some o =>
              let r := utf8Loop src endian iLen maxOLen rounds (iPos + utfbytes (byte src iPos))
                (oPos + o.length)
              (r.1, r.2.1, o ++ r.2.2)
      else (.ok, iPos, [])

def enc_utf8_to_unicode (endian : Bool) : Converter := fun mem inbytesleft outbytesleft =>
  let r := utf8Loop mem endian inbytesleft outbytesleft inbytesleft 0 0
  { ret := r.1, advance := 0, inbytesleft := sizeSub inbytesleft r.2.1, out := r.2.2
    outbytesleft := outbytesleft - r.2.2.length }

/-! ## UCS-2 to UTF-8 -/

def unicodeVal (src : List UInt8) (endian : Bool) (iPos : ℕ) : ℕ :=
  if endian then (byte src iPos).toNat * 256 + (byte src (iPos + 1)).toNat
  else (byte src (iPos + 1)).toNat * 256 + (byte src iPos).toNat

/-- `utfbytes` of a value. -/
def utf8Size (v : ℕ) : ℕ := if v ≤ 0x7F then 1 else if v ≤ 0x07FF then 2 else 3

def utf8Bytes (v : ℕ) : List UInt8 :=
  match utf8Size v with
  | 1 => [v.toUInt8]
  | 2 => [(((v >>> 6) ||| 0xE0) &&& 0xDF).toUInt8, (((v &&& 0xFF) ||| 0xC0) &&& 0xBF).toUInt8]
  | _ => [((((v >>> 12) &&& 0xFF) ||| 0xF0) &&& 0xEF).toUInt8,
      ((((v >>> 6) &&& 0xFF) ||| 0xC0) &&& 0xBF).toUInt8, (((v &&& 0xFF) ||| 0xC0) &&& 0xBF).toUInt8]

/-- The loop of `enc_unicode_to_utf8`, with a bound on its rounds. -/
def unicodeLoop (src : List UInt8) (endian : Bool) (iLen maxOLen : ℕ) :
    ℕ → ℕ → ℕ → Status × ℕ × List UInt8
  | 0, iPos, _ => (.ok, iPos, [])
  | rounds + 1, iPos, oPos =>
      if iPos + 1 < iLen then
        let v := unicodeVal src endian iPos
        if maxOLen < oPos + utf8Size v then (.E2BIG, iPos, [])
        else
          let r := unicodeLoop src endian iLen maxOLen rounds (iPos + 2)
            (oPos + (utf8Bytes v).length)
          (r.1, r.2.1, utf8Bytes v ++ r.2.2)
      else (.ok, iPos, [])

def enc_unicode_to_utf8 (endian : Bool) : Converter := fun mem inbytesleft outbytesleft =>
  let r := unicodeLoop mem endian inbytesleft outbytesleft inbytesleft 0 0
  { ret := r.1, advance := 0, inbytesleft := sizeSub inbytesleft r.2.1, out := r.2.2
    outbytesleft := outbytesleft - r.2.2.length }

/-! ## GB2312 to UCS-2 -/

/-- A 16-bit value as the code stores it: the processor is little endian. -/
def ucs2Bytes (endian : Bool) (ucs2 : UInt16) : List UInt8 :=
  pair endian (ucs2 >>> 8).toUInt8 ucs2.toUInt8

/-- The value of a double byte. -/
def gb2312_ucs2 (T : Tables) (high low : UInt8) : UInt16 :=
  let gb2312 := (high.toUInt16 <<< 8) + low.toUInt16
  T.gb2312_to_ucs2_table (((gb2312 >>> 8) - 0xA0) * 94 + ((gb2312 &&& 0x00ff) - 0xA1))

/-- The loop of `iconv_gb2312_to_ucs2_endian`, with a bound on its rounds; `gbbuf` is an
offset. -/
def gb2312Loop (T : Tables) (mem : List UInt8) (endian : Bool) (outlen : ℕ) :
    ℕ → ℕ → ℕ → ℕ → Status × ℕ × ℕ × List UInt8
  | 0, gbbuf, inlen, _ => (.ok, gbbuf, inlen, [])
  | rounds + 1, gbbuf, inlen, ucs2len =>
      if 0 < inlen then
        if outlen < ucs2len + 2 then (.E2BIG, gbbuf, inlen, [])
        else
          let gb2312 := byte mem gbbuf
          if gb2312 < 0x80 then
            let o := ucs2Bytes endian gb2312.toUInt16
            let r := gb2312Loop T mem endian outlen rounds (gbbuf + 1) (inlen - 1)
              (ucs2len + o.length)
            (r.1, r.2.1, r.2.2.1, o ++ r.2.2.2)
          else if 2 ≤ inlen then
            let o := ucs2Bytes endian (gb2312_ucs2 T gb2312 (byte mem (gbbuf + 1)))
            let r := gb2312Loop T mem endian outlen rounds (gbbuf + 2) (inlen - 2)
              (ucs2len + o.length)
            (r.1, r.2.1, r.2.2.1, o ++ r.2.2.2)
          else (.EINVAL, gbbuf + 1, inlen, [])
      else (.ok, gbbuf, inlen, [])

def iconv_gb2312_to_ucs2_endian (T : Tables) (endian : Bool) : Converter :=
  fun mem inbytesleft outbytesleft =>
    let r := gb2312Loop T mem endian outbytesleft inbytesleft 0 inbytesleft 0
    { ret := r.1, advance := r.2.1, inbytesleft := r.2.2.1, out := r.2.2.2
      outbytesleft := outbytesleft - r.2.2.2.length }

/-! ## UCS-2 to GB2312 -/

/-- `number_of_bit_1`, up to the bit `n`. -/
def bits (n : ℕ) (ch : UInt8) : ℕ := (List.range n).countP fun i => ch.toNat.testBit i

def get_ucs2_offset (T : Tables) (ucs2 : UInt16) : Option UInt16 :=
  let page := (ucs2 >>> 8) - 0x4E
  let low := ucs2 &&& 0xFF
  let tmp := low >>> 6
  let mirror := fun i => T.ucs2_mirror_4E00_9FFF page ((tmp <<< 3).toNat + i)
  let rest := (low &&& 0x3F).toNat
  let before := ((List.range (rest / 8)).map fun i => bits 8 (mirror i)).foldl (· + ·) 0
  let ch := mirror (rest / 8)
  if ch.toNat.testBit (rest % 8) then
    some (T.ucs2_index_table_4E00_9FFF page tmp + (before + bits (rest % 8) ch).toUInt16)
  else none

/-- The double byte of a value from 0x80 on; 0xA1A1 when there is none. -/
def ucs2_gb2312 (T : Tables) (ucs2 : UInt16) : UInt16 :=
  if 0x4E00 ≤ ucs2 ∧ ucs2 < 0xA000 then
    match get_ucs2_offset T ucs2 with
    | some offset => if offset ≠ 0xFFFF then T.ucs2_to_gb2312_table offset else 0xA1A1
    | none => 0xA1A1
  else
    T.tab_UCS2_to_GBK.foldl (fun gb2312 e => if ucs2 = e.1 then e.2 else gb2312) 0xA1A1

def ucs2At (mem : List UInt8) (endian : Bool) (k : ℕ) : UInt16 :=
  let low := (byte mem (2 * k)).toUInt16
  let high := (byte mem (2 * k + 1)).toUInt16
  if endian then (low <<< 8) + high else (high <<< 8) + low

def gb2312Bytes (T : Tables) (ucs2 : UInt16) : List UInt8 :=
  if ucs2 < 0x80 then [ucs2.toUInt8]
  else
    let gb2312 := ucs2_gb2312 T ucs2
    [(gb2312 >>> 8).toUInt8, gb2312.toUInt8]

/-- The loop of `iconv_ucs2_to_gb2312_endian` at the character `k`. -/
def ucs2Loop (T : Tables) (mem : List UInt8) (endian : Bool) (outlen : ℕ) :
    ℕ → ℕ → ℕ → Status × ℕ × List UInt8
  | 0, _, _ => (.ok, 0, [])
  | inlen + 1, k, gb_length =>
      if outlen < gb_length + 2 then (.E2BIG, inlen + 1, [])
      else
        let o := gb2312Bytes T (ucs2At mem endian k)
        let r := ucs2Loop T mem endian outlen inlen (k + 1) (gb_length + o.length)
        (r.1, r.2.1, o ++ r.2.2)

def iconv_ucs2_to_gb2312_endian (T : Tables) (endian : Bool) : Converter :=
  fun mem inbytesleft outbytesleft =>
    let r := ucs2Loop T mem endian outbytesleft (inbytesleft / 2) 0 0
    { ret := r.1, advance := 0, inbytesleft := r.2.1, out := r.2.2
      outbytesleft := outbytesleft - r.2.2.length }

/-! ## The library -/

/-- The entries of `iconv_map`. -/
inductive Conv
  | ucs2_to_gb2312
  | ucs2be_to_gb2312
  | gb2312_to_ucs2
  | gb2312_to_ucs2be
  | utf8_to_ucs2
  | utf8_to_ucs2be
  | ucs2_to_utf8
  | ucs2be_to_utf8
  deriving DecidableEq

/-- `fct` of an entry. -/
def iconv (T : Tables) : Conv → Converter
  | .ucs2_to_gb2312 => iconv_ucs2_to_gb2312_endian T false
  | .ucs2be_to_gb2312 => iconv_ucs2_to_gb2312_endian T true
  | .gb2312_to_ucs2 => iconv_gb2312_to_ucs2_endian T false
  | .gb2312_to_ucs2be => iconv_gb2312_to_ucs2_endian T true
  | .utf8_to_ucs2 => enc_utf8_to_unicode false
  | .utf8_to_ucs2be => enc_utf8_to_unicode true
  | .ucs2_to_utf8 => enc_unicode_to_utf8 false
  | .ucs2be_to_utf8 => enc_unicode_to_utf8 true

/-- A call of a converter by `Liconv`. -/
structure Call where
  inbuf : List UInt8
  inbytesleft : ℕ
  outcome : Outcome

/-- The calls of the loop of `Liconv`, if `rounds` are enough for them: after E2BIG the
buffer is used again. -/
def calls (fct : Converter) (obsize : ℕ) : ℕ → List UInt8 → ℕ → Option (List Call)
  | 0, _, _ => none
  | rounds + 1, inbuf, ibleft =>
      let r := fct inbuf ibleft obsize
      match r.ret with
      | .E2BIG =>
          (calls fct obsize rounds (inbuf.drop r.advance) r.inbytesleft).map (⟨inbuf, ibleft, r⟩ :: ·)
      | _ => some [⟨inbuf, ibleft, r⟩]

def obsize (s : List UInt8) : ℕ := max s.length 256

/-- The string that `Liconv` pushes for a call, and then concatenates. -/
def pushed (obsize : ℕ) (c : Call) : List UInt8 :=
  c.outcome.out.take (obsize - c.outcome.outbytesleft)

def liconv (fct : Converter) (s : List UInt8) : Option (List Call) :=
  calls fct (obsize s) (s.length + 1) s s.length

end LuatAir200.Iconv
