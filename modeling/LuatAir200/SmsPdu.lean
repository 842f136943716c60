import LuatAir200.LuaString
import Mathlib.Algebra.Order.Ring.Nat

/-!
# Text and numbers of short messages

The string functions under `sms.lua`: numbers as swapped digits, text as
hexadecimal, and the packed alphabets. Numbers are integers, as the interpreter is
built. `none` is a Lua error, but for `bcdnumtonum`, where it is `nil`.
-/
namespace LuatAir200.Sms
open Lua

/-- `string.sub(s,i,j)`. -/
def ssub (s : LuaString) (i j : ℤ) : LuaString :=
  let l : ℤ := s.length
  let i := max 1 (if i < 0 then i + l + 1 else i)
  let j := min l (if j < 0 then j + l + 1 else j)
  (s.drop (i - 1).toNat).take (j - i + 1).toNat

def xdigit (c : UInt8) : ℕ :=
  if c ≤ 57 then c.toNat - 48 else if c ≤ 70 then c.toNat - 55 else c.toNat - 87

/-- `tonumber("0x" .. s)` of one or two characters. -/
def hexnum (s : LuaString) : Option ℕ :=
  if s ≠ [] ∧ s.all isXDigit then some (s.foldl (fun n c => 16 * n + xdigit c) 0) else none

/-- `string.format("%0wX",n)`. -/
def hex (w n : ℕ) : LuaString :=
  let ds := (Nat.toDigits 16 n).map fun c => UInt8.ofNat c.toUpper.toNat
  List.replicate (w - ds.length) 48 ++ ds

/-- The digits of `num` in pairs, each pair turned round. -/
def swapped (num : LuaString) (n : ℕ) : LuaString :=
  (List.range' 1 n).flatMap fun i => ssub num (i * 2) (i * 2) ++ ssub num (i * 2 - 1) (i * 2 - 1)

def numtobcdnum (num : LuaString) : LuaString :=
  let plus := ssub num 1 1 = lua "+"
  let num := if plus then ssub num 2 (-1) else num
  let len := num.length
  (if plus then lua "91" else lua "81") ++
    if len % 2 ≠ 0 then swapped num (len / 2) ++ lua "F" ++ ssub num len len
    else swapped num (len / 2)

def bcdnumtonum (num : LuaString) : Option LuaString :=
  if num.length % 2 ≠ 0 then none
  else
    let numfix := if ssub num 1 2 = lua "91" then lua "+" else []
    let len : ℤ := num.length - 2
    let convnum := swapped (ssub num 3 (-1)) (len / 2).toNat
    let fill := ssub convnum len len
    some (numfix ++ if fill = lua "f" ∨ fill = lua "F" then ssub convnum 1 (-2) else convnum)

def binstohexs (bins : LuaString) : LuaString := bins.flatMap fun c => hex 2 c.toNat

/-- The pairs of a hexadecimal string; the last one may be a single digit. -/
def hexstobins : LuaString → Option LuaString
  | [] => some []
  | [c] => (hexnum [c]).map fun n => [UInt8.ofNat n]
  | c :: d :: t => (hexnum [c, d]).bind fun n => (hexstobins t).map (UInt8.ofNat n :: ·)

/-- The default alphabet, and what follows an escape. -/
def Charmap : List ℕ :=
  [0x40, 0xa3, 0x24, 0xa5, 0xe8, 0xE9, 0xF9, 0xEC, 0xF2, 0xC7, 0x0A, 0xD8, 0xF8, 0x0D, 0xC5, 0xE5,
    0x0394, 0x5F, 0x03A6, 0x0393, 0x039B, 0x03A9, 0x03A0, 0x03A8, 0x03A3, 0x0398, 0x039E, 0x1B,
    0xC6, 0xE5, 0xDF, 0xA9,
    0x20, 0x21, 0x22, 0x23, 0xA4, 0x25, 0x26, 0x27, 0x28, 0x29, 0x2A, 0x2B, 0x2C, 0x2D, 0x2E, 0x2F,
    0x30, 0x31, 0x32, 0x33, 0x34, 0x35, 0x36, 0x37, 0x38, 0x39, 0x3A, 0x3B, 0x3C, 0x3D, 0x3E, 0x3F,
    0xA1, 0x41, 0x42, 0x43, 0x44, 0x45, 0x46, 0x47, 0x48, 0x49, 0x4A, 0x4B, 0x4C, 0x4D, 0x4E, 0x4F,
    0x50, 0x51, 0x52, 0x53, 0x54, 0x55, 0x56, 0x57, 0x58, 0x59, 0x5A, 0xC4, 0xD6, 0xD1, 0xDC, 0xA7,
    0xBF, 0x61, 0x62, 0x63, 0x64, 0x65, 0x66, 0x67, 0x68, 0x69, 0x6A, 0x6B, 0x6C, 0x6D, 0x6E, 0x6F,
    0x70, 0x71, 0x72, 0x73, 0x74, 0x75, 0x76, 0x77, 0x78, 0x79, 0x7A, 0xE4, 0xF6, 0xF1, 0xFC, 0xE0]

def Charmapctl : List (ℕ × ℕ) :=
  [(10, 0x0C), (20, 0x5E), (40, 0x7B), (41, 0x7D), (47, 0x5C), (60, 0x5B), (61, 0x7E), (62, 0x5D),
    (64, 0x7C), (101, 0xA4)]

/-- The variables of the loop in `gsm7bitdecode`. -/
structure Septets where
  ucsdata : LuaString
  olddat : ℕ
  nbyte : ℕ
  nleft : ℕ
  ucslen : ℕ

/-- One character of the alphabet goes to the end of the text. -/
def Septets.char (c : ℕ) (s : Septets) : Septets :=
  match if s.olddat = 27 then Charmapctl.lookup c else none with
  | some x => { s with ucsdata := ssub s.ucsdata 1 (-5) ++ hex 4 x, olddat := c }
  | none => { s with ucsdata := s.ucsdata ++ hex 4 (Charmap.getD c 0), olddat := c }

/-- One byte: a character, and another one when seven bits are left over. -/
def Septets.byte (tmpdata : ℕ) (s : Septets) : Septets :=
  let s := s.char ((tmpdata <<< s.nbyte ||| s.nleft) &&& 0x7f)
  let s := { s with nleft := tmpdata >>> (7 - s.nbyte), nbyte := s.nbyte + 1, ucslen := s.ucslen + 1 }
  if s.nbyte = 7 then { s.char s.nleft with nbyte := 0, nleft := 0, ucslen := s.ucslen + 1 } else s

/-- The bytes of hexadecimal data, as long as they can be read. -/
def bytes (data : LuaString) (i n : ℕ) : List ℕ :=
  ((List.range' i n).map fun (i : ℕ) => hexnum (ssub data ((i - 1) * 2 + 1) (i * 2))).takeWhile
    Option.isSome |>.reduceOption

def gsm7bitdecode (data : LuaString) (longsms : Bool) : Option (LuaString × ℕ) :=
  (hexnum (ssub data 1 2)).map fun tmpdata =>
    let s : Septets := ⟨[], 0, 0, 0, 0⟩
    let s := if longsms then s.char (tmpdata >>> 1) else s.byte tmpdata
    let s := (bytes data 2 (data.length / 2 - 1)).foldl (fun s b => s.byte b) s
    (s.ucsdata, s.ucslen)

def gsm8bitdecode (data : LuaString) : LuaString × ℕ :=
  ((List.range' 1 (data.length / 2)).flatMap fun (i : ℕ) =>
    lua "00" ++ ssub data ((i - 1) * 2 + 1) (i * 2), data.length / 2)

/-- What `rsp` reads from a message. -/
structure Decoded where
  convnum : Option LuaString
  data : LuaString
  t : LuaString
  total : Option ℕ
  idx : Option ℕ
  isn : Option ℕ

/-- `tz` in the form of a date and a time. -/
def clock (tz : LuaString) : LuaString :=
  (List.range' 1 7).flatMap fun (i : ℕ) =>
    ssub tz (i * 2) (i * 2) ++ ssub tz (i * 2 - 1) (i * 2 - 1) ++
      if i < 3 then lua "/" else if i = 3 then lua "," else if i < 6 then lua ":"
      else if i = 6 then lua "+" else []

/-- The message in `pdu`, whose part after the number of the service centre has `len` bytes. -/
def decode (pdu : LuaString) (len : ℕ) : Option Decoded := do
  let pdu := ssub pdu (((pdu.length / 2 : ℕ) - (len : ℤ)) * 2 + 1) (-1)
  let fo ← hexnum (ssub pdu 1 1)
  let longsms : Bool := fo &&& 0x4 ≠ 0
  let addlen ← hexnum (ssub pdu 3 4)
  let addlen := if addlen % 2 = 0 then addlen + 2 else addlen + 3
  let offset : ℕ := 5 + addlen
  let addnum := ssub pdu 5 (5 + addlen - 1)
  let _flag ← hexnum (ssub pdu offset (offset + 1))
  let dcs ← hexnum (ssub pdu (offset + 2) (offset + 3))
  let tz := ssub pdu (offset + 4) (offset + 17)
  let txtlen ← hexnum (ssub pdu (offset + 18) (offset + 19))
  let data := ssub pdu (offset + 20) (offset + 20 + txtlen * 2 - 1)
  let field (i : ℤ) := if longsms then hexnum (ssub data i (i + 1)) else none
  let text := if longsms then ssub data 13 (-1) else data
  let text ←
    if dcs = 0 then
      (gsm7bitdecode text longsms).map fun r =>
        if r.2 > txtlen then ssub r.1 1 (txtlen * 4) else r.1
    else if dcs = 4 then some (gsm8bitdecode text).1
    else some text
  some ⟨bcdnumtonum addnum, text, clock tz, field 9, field 11, field 7⟩

end LuatAir200.Sms
