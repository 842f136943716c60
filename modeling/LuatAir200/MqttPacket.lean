import LuatAir200.LuaString
import LuatAir200.Stream

/-!
# MQTT packets

The packets that `mqtt.lua` builds and reads. The conversion of texts to UTF-8 is a
parameter. Lengths are natural numbers; the firmware's numbers agree with them for
packets that a socket can carry.
-/
namespace LuatAir200.Mqtt
open Lua

def CONNECT : ℕ := 1
def CONNACK : ℕ := 2
def PUBLISH : ℕ := 3
def PUBACK : ℕ := 4
def SUBSCRIBE : ℕ := 8
def SUBACK : ℕ := 9
def UNSUBACK : ℕ := 11
def PINGREQ : ℕ := 12
def PINGRSP : ℕ := 13
def DISCONNECT : ℕ := 14

def CLEANSESS : ℕ := 1

/-- Format `H` of `lpack.pack`, big-endian. -/
def packH (n : ℕ) : LuaString := [UInt8.ofNat (n / 256), UInt8.ofNat n]

/-- `lpack.unpack(s,">H")` on two bytes. -/
def unpackH (s : LuaString) : ℕ := s.foldl (fun n b => 256 * n + b.toNat) 0

def packb (n : ℕ) : LuaString := [UInt8.ofNat n]

/-! ## Lengths -/

/-- The digits to the base 128 of a length, lowest first; `fuel` is at least their number. -/
def lendigits : ℕ → ℕ → LuaString
  | 0, len => [UInt8.ofNat len]
  | fuel + 1, len =>
      if 0 < len / 128 then
        UInt8.ofNat (len % 128 ||| 0x80) :: lendigits fuel (len / 128)
      else [UInt8.ofNat (len % 128)]

/-- `enclen`. -/
def enclen (s : LuaString) : LuaString := lendigits s.length s.length

/-- The loop of `declen`: `i` bytes have been read. -/
def declenLoop : LuaString → ℕ → ℕ → ℕ → Option (ℕ × ℕ)
  | [], _, _, _ => none
  | digit :: s, value, multiplier, i =>
      let value := value + (digit.toNat &&& 127) * multiplier
      if digit.toNat &&& 128 = 0 then some (value, i + 1)
      else declenLoop s value (multiplier * 128) (i + 1)

/-- `declen`: the length and the number of its bytes. -/
def declen (s : LuaString) : Option (ℕ × ℕ) := declenLoop s 0 1 0

/-! ## Received packets -/

/-- Where `iscomplete` has found a packet: its first and last byte, counted from one. -/
structure Found where
  h : ℕ
  t : ℕ
  typ : ℕ
  len : ℕ
  deriving DecidableEq, Repr

/-- The loop of `iscomplete` from byte `i` on. -/
def iscompleteFrom : ℕ → LuaString → Option Found
  | _, [] => none
  | i, b :: s =>
      let typ := b.toNat >>> 4 &&& 0x0f
      if CONNECT ≤ typ ∧ typ ≤ DISCONNECT then
        match declen s with
        | some (len, cnt) =>
            if cnt ≤ 4 ∧ len ≤ s.length - cnt then some ⟨i, i + cnt + len, typ, len⟩ else none
        | none => none
      else iscompleteFrom (i + 1) s

def iscomplete (s : LuaString) : Option Found := iscompleteFrom 1 s

/-- The packet that `rcv` takes from the buffer, and the rest. -/
def nextpacket (sckrcvs : LuaString) : Option (LuaString × LuaString) :=
  (iscomplete sckrcvs).map fun f => ((sckrcvs.take f.t).drop (f.h - 1), sckrcvs.drop f.t)

/-- A received packet, as far as its type has fields. -/
structure Packet where
  typ : ℕ
  qos : ℕ
  dup : Bool
  suc : Bool
  reason : Option ℕ
  seq : LuaString
  topic : LuaString
  payload : LuaString
  deriving DecidableEq, Repr

/-- The fields of `PUBLISH`. -/
def unpackPublish (d : LuaString) (p : Packet) : Option Packet :=
  if d.length < 4 then none
  else
    let tplen := unpackH (d.take 2)
    let pay := if 0 < p.qos then 5 else 3
    if d.length < tplen + pay - 1 then none
    else some { p with
      topic := (d.take (2 + tplen)).drop 2
      seq := if 0 < p.qos then (d.take (tplen + 4)).drop (tplen + 2) else []
      payload := d.drop (tplen + pay - 1) }

/-- `unpack`. -/
def unpack (s : LuaString) : Option Packet :=
  (iscomplete s).bind fun f =>
    let b := (s.headD 0).toNat
    let p : Packet := ⟨f.typ, (b &&& 0x06) >>> 1, (b &&& 0x08) >>> 3 = 1, false, none, [], [], []⟩
    let d := s.drop (s.length - f.len)
    if f.typ = CONNACK then
      some { p with suc := d[1]? = some 0, reason := d[1]?.map UInt8.toNat }
    else if f.typ = SUBACK ∨ f.typ = PUBACK ∨ f.typ = UNSUBACK then
      if d.length < 2 then none else some { p with seq := d.take 2 }
    else if f.typ = PUBLISH then unpackPublish d p
    else if f.typ = PINGRSP then some p
    else none

/-! ## Sent packets -/

/-- The fixed header is put before what a packet function has built. -/
def pack (s : LuaString) : LuaString := s.take 1 ++ enclen (s.drop 1) ++ s.drop 1

section
variable (utf8 : LuaString → LuaString)

def encutf8 (s : Option LuaString) : LuaString :=
  match s with
  | none => []
  | some s => packH (utf8 s).length ++ utf8 s

structure Will where
  flg : ℕ
  qos : ℕ
  retain : ℕ
  topic : LuaString
  payload : LuaString

def packConnect (mqttver : LuaString) (alive : ℕ) (id : Option LuaString) (twill : Will)
    (user pwd : Option LuaString) : LuaString :=
  pack (packb (CONNECT * 16) ++
    encutf8 utf8 (some (if mqttver = lua "3.1.1" then lua "MQTT" else lua "MQIsdp")) ++
    packb (if mqttver = lua "3.1.1" then 4 else 3) ++
    packb ((if user.isSome then 1 else 0) * 128 + (if pwd.isSome then 1 else 0) * 64 +
      twill.retain * 32 + twill.qos * 8 + twill.flg * 4 + CLEANSESS * 2) ++
    packH alive ++ encutf8 utf8 id ++
    (if twill.flg = 1 then encutf8 utf8 (some twill.topic) ++ encutf8 utf8 (some twill.payload)
      else []) ++
    encutf8 utf8 user ++ encutf8 utf8 pwd)

/-- The parameters of a `PUBLISH` packet; `publish` gives them back with `dup` set. -/
structure Publish where
  dup : Bool
  topic : LuaString
  payload : LuaString
  qos : ℕ
  seq : LuaString
  deriving DecidableEq, Repr

def packPublish (p : Publish) : LuaString :=
  pack (packb (PUBLISH * 16 + (if p.dup then 1 else 0) * 8 + p.qos * 2) ++
    encutf8 utf8 (some p.topic) ++ (if 0 < p.qos then p.seq else []) ++ p.payload)

structure Subscribe where
  dup : Bool
  topic : List (LuaString × ℕ)
  seq : LuaString
  deriving DecidableEq, Repr

def packSubscribe (p : Subscribe) : LuaString :=
  pack (packb (SUBSCRIBE * 16 + (if p.dup then 1 else 0) * 8 + 2) ++ p.seq ++
    p.topic.flatMap fun t => encutf8 utf8 (some t.1) ++ packb t.2)

def packPuback (seq : LuaString) : LuaString := pack (packb (PUBACK * 16) ++ seq)

def packPingreq : LuaString := pack (packb (PINGREQ * 16))

def packDisconnect : LuaString := pack (packb (DISCONNECT * 16))

end

end LuatAir200.Mqtt
