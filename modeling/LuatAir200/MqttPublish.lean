import LuatAir200.MqttFrame

/-!
# Publish packets, read and built

What `unpack` gives for the packets `PUBLISH` of the standard, and what the parser of `mqtt.lua`
gives for the packets that its `pack` builds. `pack` is modelled with all kinds of packets here,
and `publish` with its flag `retain`, which no call in the library sets.
-/
namespace LuatAir200.Mqtt
open Lua

/-! ## Reading -/

/-- What follows the fixed header of `PUBLISH`. -/
def publishBody (topic seq payload : LuaString) (qos : ℕ) : LuaString :=
  packH topic.length ++ topic ++ (if 0 < qos then seq else []) ++ payload

/-- The first byte of `PUBLISH`. -/
def publishFirst (dup : Bool) (qos : ℕ) (retain : Bool) : ℕ :=
  PUBLISH * 16 + (if dup then 1 else 0) * 8 + qos * 2 + (if retain then 1 else 0) * 1

theorem unpackH_packH {n : ℕ} (h : n < 65536) : unpackH (packH n) = n := by
  simp only [unpackH, packH, List.foldl_cons, List.foldl_nil, UInt8.toNat_ofNat']
  omega

theorem publishBody_length (topic seq payload : LuaString) (qos : ℕ) :
    (publishBody topic seq payload qos).length =
      2 + topic.length + (if 0 < qos then seq.length else 0) + payload.length := by
  simp only [publishBody, List.length_append, packH, List.length_cons, List.length_nil]
  split <;> rfl

/-- The fields of a packet that has at least four bytes. -/
theorem unpackPublish_body {topic seq payload : LuaString} {p : Packet} (ht : topic.length < 65536)
    (hs : seq.length = 2) : unpackPublish (publishBody topic seq payload p.qos) p =
      if (publishBody topic seq payload p.qos).length < 4 then none
      else some { p with
        topic := topic, seq := if 0 < p.qos then seq else [], payload := payload } := by
  have htp : unpackH ((publishBody topic seq payload p.qos).take 2) = topic.length := unpackH_packH ht
  have hcons : publishBody topic seq payload p.qos = UInt8.ofNat (topic.length / 256) ::
      UInt8.ofNat topic.length :: (topic ++ ((if 0 < p.qos then seq else []) ++ payload)) := by
    simp [publishBody, packH]
  rw [unpackPublish]
  split
  · rfl
  · rw [htp]
    dsimp only
    rw [hcons]
    by_cases hq : 0 < p.qos
    · have hno : ¬(UInt8.ofNat (topic.length / 256) :: UInt8.ofNat topic.length ::
          (topic ++ ((if 0 < p.qos then seq else []) ++ payload))).length < topic.length + 5 - 1 := by
        simp only [List.length_cons, List.length_append, if_pos hq, hs]
        omega
      have h2 : 2 + topic.length = topic.length + 1 + 1 := by omega
      have h4 : topic.length + 4 = topic.length + 2 + 1 + 1 := by omega
      have h5 : topic.length + 5 - 1 = topic.length + 2 + 1 + 1 := by omega
      simp only [if_pos hq] at hno ⊢
      rw [if_neg hno, h2, h4, h5]
      simp [List.take_append, List.drop_append, hs]
    · have hno : ¬(UInt8.ofNat (topic.length / 256) :: UInt8.ofNat topic.length ::
          (topic ++ ((if 0 < p.qos then seq else []) ++ payload))).length < topic.length + 3 - 1 := by
        simp only [List.length_cons, List.length_append, if_neg hq, List.length_nil]
        omega
      have h2 : 2 + topic.length = topic.length + 1 + 1 := by omega
      have h3 : topic.length + 3 - 1 = topic.length + 1 + 1 := by omega
      simp only [if_neg hq] at hno ⊢
      rw [if_neg hno, h2, h3]
      simp

theorem Wire.drop_body (w : Wire) : w.bytes.drop (w.bytes.length - w.body.length) = w.body := by
  have hlen : w.bytes.length - w.body.length = w.field.length + 1 := by
    simp only [bytes, List.length_cons, List.length_append]
    omega
  rw [hlen, bytes, List.drop_succ_cons, List.drop_left]

/-- What `unpack` does with a packet `PUBLISH`. -/
theorem Wire.unpack_publish (w : Wire) (ht : w.first.toNat / 16 = PUBLISH) : unpack w.bytes =
    unpackPublish w.body ⟨PUBLISH, (w.first.toNat &&& 0x06) >>> 1, (w.first.toNat &&& 0x08) >>> 3 = 1,
      false, none, [], [], []⟩ := by
  have hc := w.iscomplete []
  rw [List.append_nil, ht] at hc
  rw [unpack, hc, Option.bind_some]
  dsimp only
  rw [w.drop_body]
  rfl

/-- A packet `PUBLISH` of the standard, with a topic that is not empty and QoS 0 or 1; `field` is its
remaining length. -/
structure Publication where
  dup : Bool
  qos : ℕ
  retain : Bool
  topic : LuaString
  seq : LuaString
  payload : LuaString
  field : LuaString
  qos_le : qos ≤ 1
  topic_pos : 0 < topic.length
  topic_lt : topic.length < 65536
  seq_two : seq.length = 2
  isLength : IsLength field
  short : field.length ≤ 4
  length : (publishBody topic seq payload qos).length = lenvalue field

theorem publishFirst_eq (dup : Bool) {qos : ℕ} (hq : qos ≤ 2) (retain : Bool) :
    (packb (publishFirst dup qos retain)).length = 1 ∧
    (UInt8.ofNat (publishFirst dup qos retain)).toNat / 16 = PUBLISH ∧
    ((UInt8.ofNat (publishFirst dup qos retain)).toNat &&& 0x06) >>> 1 = qos ∧
    (((UInt8.ofNat (publishFirst dup qos retain)).toNat &&& 0x08) >>> 3 = 1 ↔ dup) := by
  have hall : ∀ dup retain, ∀ qos : Fin 3,
      (packb (publishFirst dup qos retain)).length = 1 ∧
      (UInt8.ofNat (publishFirst dup qos retain)).toNat / 16 = PUBLISH ∧
      ((UInt8.ofNat (publishFirst dup qos retain)).toNat &&& 0x06) >>> 1 = qos.val ∧
      (((UInt8.ofNat (publishFirst dup qos retain)).toNat &&& 0x08) >>> 3 = 1 ↔ dup) := by
    decide +kernel
  exact hall dup retain ⟨qos, by omega⟩

def Publication.wire (p : Publication) : Wire where
  first := UInt8.ofNat (publishFirst p.dup p.qos p.retain)
  field := p.field
  body := publishBody p.topic p.seq p.payload p.qos
  typ := by
    rw [(publishFirst_eq p.dup (p.qos_le.trans (by decide)) p.retain).2.1]
    decide
  isLength := p.isLength
  short := p.short
  length := p.length

/-- What `unpack` is to give for it. -/
def Publication.packet (p : Publication) : Packet :=
  ⟨PUBLISH, p.qos, p.dup, false, none, if 0 < p.qos then p.seq else [], p.topic, p.payload⟩

/-- `unpack` on a packet with these fields. -/
theorem Wire.unpack_fields (w : Wire) {dup retain : Bool} {qos : ℕ} {topic seq payload : LuaString}
    (hfirst : w.first = UInt8.ofNat (publishFirst dup qos retain))
    (hbody : w.body = publishBody topic seq payload qos) (hq : qos ≤ 2)
    (ht : topic.length < 65536) (hs : seq.length = 2) :
    unpack w.bytes = if (publishBody topic seq payload qos).length < 4 then none
      else some ⟨PUBLISH, qos, dup, false, none, if 0 < qos then seq else [], topic, payload⟩ := by
  obtain ⟨-, htyp, hqos, hdup⟩ := publishFirst_eq dup hq retain
  have hd : decide (((UInt8.ofNat (publishFirst dup qos retain)).toNat &&& 0x08) >>> 3 = 1) = dup := by
    rw [Bool.eq_iff_iff, decide_eq_true_eq]
    exact hdup
  rw [w.unpack_publish (by rw [hfirst]; exact htyp), hfirst, hbody, hqos, hd]
  exact @unpackPublish_body topic seq payload ⟨PUBLISH, qos, dup, false, none, [], [], []⟩ ht hs

/-- `unpack` gives the fields of every packet `PUBLISH` but those that consist of a topic of one byte
only; and it gives nothing for a packet that is too short for its topic and its identifier. -/
theorem publish_unpacked (p : Publication) (w : Wire) :
    (unpack p.wire.bytes = some p.packet ↔
      ¬(p.qos = 0 ∧ p.topic.length = 1 ∧ p.payload = [])) ∧
    (w.first.toNat / 16 = PUBLISH →
      w.body.length < 2 + unpackH (w.body.take 2) +
        (if 0 < (w.first.toNat &&& 0x06) >>> 1 then 2 else 0) →
      unpack w.bytes = none) := by
  constructor
  · have hlen := publishBody_length p.topic p.seq p.payload p.qos
    have hpos := p.topic_pos
    have hqos := p.qos_le
    rw [p.seq_two] at hlen
    rw [@Wire.unpack_fields p.wire p.dup p.retain p.qos p.topic p.seq p.payload rfl rfl
      (p.qos_le.trans (by decide)) p.topic_lt p.seq_two]
    have hnil : p.payload = [] ↔ p.payload.length = 0 := List.length_eq_zero_iff.symm
    rw [hnil]
    split
    · rename_i hlt
      constructor
      · intro h
        cases h
      · intro h
        exact absurd ⟨by split at hlen <;> omega, by split at hlen <;> omega,
          by split at hlen <;> omega⟩ h
    · rename_i hlt
      constructor
      · rintro - ⟨hq, ht, hpay⟩
        rw [if_neg (by omega)] at hlen
        omega
      · exact fun _ => rfl
  · intro ht hlen
    rw [w.unpack_publish ht, unpackPublish]
    split
    · rfl
    · dsimp only
      rw [if_pos]
      split at hlen <;> rename_i hq
      · rw [if_pos hq]
        omega
      · rw [if_neg hq]
        omega

/-- A message of QoS 1 with an identifier and no payload. -/
def bare : Publication :=
  ⟨true, 1, true, lua "a", [0, 7], [], [5], by decide, by decide, by decide, by decide,
    .last (by decide), by decide, by decide⟩

theorem publish_unpacked_bare : unpack [0x3b, 5, 0, 1, 97, 0, 7] =
    some ⟨PUBLISH, 1, true, false, none, [0, 7], lua "a", []⟩ ∧ unpack [0x32, 5, 0, 2, 97, 0, 7] = none := by
  let w : Wire := ⟨0x32, [5], [0, 2, 97, 0, 7], by decide, .last (by decide), by decide, by decide⟩
  have h := publish_unpacked bare w
  exact ⟨h.1.mpr (by decide), h.2 (by decide) (by decide)⟩

/-- A topic of one byte with nothing in it. -/
def shortest : Publication :=
  ⟨false, 0, false, lua "a", [0, 0], [], [3], by decide, by decide, by decide, by decide,
    .last (by decide), by decide, by decide⟩

theorem shortest_lost : shortest.wire.bytes = [0x30, 3, 0, 1, 97] ∧
    unpack shortest.wire.bytes = none ∧
    shortest.packet = ⟨PUBLISH, 0, false, false, none, [], lua "a", []⟩ := by
  refine ⟨by decide, by decide, rfl⟩

/-! ## Building -/

theorem digit_more {n : ℕ} : (UInt8.ofNat (n % 128 ||| 0x80)).toNat = n % 128 + 128 := by
  have hall : ∀ d : Fin 128, (UInt8.ofNat (d.val ||| 0x80)).toNat = d.val + 128 := by decide +kernel
  exact hall ⟨n % 128, Nat.mod_lt n (by decide)⟩

theorem digit_last {n : ℕ} (h : n < 128) : (UInt8.ofNat n).toNat = n := by
  rw [UInt8.toNat_ofNat']
  omega

/-- The digits are a length of the standard. -/
theorem lendigits_isLength {fuel n : ℕ} (h : n < 128 ^ (fuel + 1)) :
    IsLength (lendigits fuel n) ∧ lenvalue (lendigits fuel n) = n := by
  induction fuel generalizing n with
  | zero =>
      have hd := digit_last h
      have h : n < 128 := h
      refine ⟨.last (by rw [hd]; exact h), ?_⟩
      rw [lendigits, lenvalue, hd, Nat.mod_eq_of_lt h]
      rfl
  | succ fuel ih =>
      rw [lendigits]
      split
      · have hlt : n / 128 < 128 ^ (fuel + 1) := by
          rw [Nat.div_lt_iff_lt_mul (by decide), ← Nat.pow_succ]
          exact h
        obtain ⟨hl, hv⟩ := ih hlt
        have hd := @digit_more n
        refine ⟨.more (by rw [hd]; omega) hl, ?_⟩
        rw [lenvalue, hv, hd]
        omega
      · have hlt : n < 128 := by omega
        have hd := digit_last hlt
        rw [Nat.mod_eq_of_lt hlt]
        refine ⟨.last (by rw [hd]; exact hlt), ?_⟩
        rw [lenvalue, hd, Nat.mod_eq_of_lt hlt]
        rfl

/-- No digit is wasted. -/
theorem lendigits_length {fuel n k : ℕ} (hk : 0 < k) (h : n < 128 ^ (fuel + 1)) :
    (lendigits fuel n).length ≤ k ↔ n < 128 ^ k := by
  have hone : 128 ≤ 128 ^ k := Nat.le_self_pow hk.ne' 128
  induction fuel generalizing n k with
  | zero =>
      rw [lendigits, List.length_singleton]
      have h : n < 128 := h
      omega
  | succ fuel ih =>
      rw [lendigits]
      split
      · have hlt : n / 128 < 128 ^ (fuel + 1) := by
          rw [Nat.div_lt_iff_lt_mul (by decide), ← Nat.pow_succ]
          exact h
        rw [List.length_cons]
        obtain ⟨j, rfl⟩ := Nat.exists_eq_succ_of_ne_zero hk.ne'
        by_cases hj : 0 < j
        · have hiff : (lendigits fuel (n / 128)).length ≤ j ↔ n / 128 < 128 ^ j :=
            ih hj hlt (Nat.le_self_pow hj.ne' 128)
          rw [Nat.succ_le_succ_iff, hiff, Nat.div_lt_iff_lt_mul (by decide), ← Nat.pow_succ]
        · obtain rfl : j = 0 := by omega
          have hnil : (lendigits fuel (n / 128)).length ≠ 0 := by
            intro hz
            have hl := (lendigits_isLength hlt).1
            rw [List.eq_nil_of_length_eq_zero hz] at hl
            cases hl
          have hpow : 128 ^ (0 + 1) = 128 := rfl
          omega
      · rw [List.length_singleton]
        omega

theorem length_lt_pow (n : ℕ) : n < 128 ^ (n + 1) := by
  have h1 : n + 1 < 128 ^ (n + 1) := Nat.lt_pow_self (by decide)
  omega

theorem enclen_isLength (b : LuaString) : IsLength (enclen b) ∧ lenvalue (enclen b) = b.length :=
  lendigits_isLength (length_lt_pow b.length)

theorem enclen_length (b : LuaString) {k : ℕ} (hk : 0 < k) :
    (enclen b).length ≤ k ↔ b.length < 128 ^ k :=
  lendigits_length hk (length_lt_pow b.length)

/-- `declen` reads what `enclen` has written. -/
theorem declen_enclen (b rest : LuaString) :
    declen (enclen b ++ rest) = some (b.length, (enclen b).length) := by
  obtain ⟨hl, hv⟩ := enclen_isLength b
  rw [declen, declenLoop_field hl, hv]
  simp

/-- The packet that `pack` makes of what a packet function has built. -/
theorem pack_wire {first : UInt8} {body : LuaString}
    (ht : CONNECT ≤ first.toNat / 16 ∧ first.toNat / 16 ≤ DISCONNECT) (hb : body.length ≤ 268435455) :
    ∃ w : Wire, w.first = first ∧ w.body = body ∧ pack (first :: body) = w.bytes := by
  obtain ⟨hl, hv⟩ := enclen_isLength body
  have hshort : (enclen body).length ≤ 4 := (enclen_length body (by decide)).mpr (by omega)
  exact ⟨⟨first, enclen body, body, ht, hl, hshort, hv.symm⟩, rfl, rfl, rfl⟩

section
variable (utf8 : LuaString → LuaString)

structure Unsubscribe where
  dup : Bool
  topic : List LuaString
  seq : LuaString
  deriving DecidableEq, Repr

def UNSUBSCRIBE : ℕ := 10

def packUnsubscribe (p : Unsubscribe) : LuaString :=
  pack (packb (UNSUBSCRIBE * 16 + (if p.dup then 1 else 0) * 8 + 2) ++ p.seq ++
    p.topic.flatMap fun t => encutf8 utf8 (some t))

/-- `publish` with all its parameters. -/
def packMessage (p : Publish) (retain : Bool) : LuaString :=
  pack (packb (publishFirst p.dup p.qos retain) ++
    encutf8 utf8 (some p.topic) ++ (if 0 < p.qos then p.seq else []) ++ p.payload)

theorem packMessage_plain (p : Publish) : packMessage utf8 p false = packPublish utf8 p := rfl

/-- The packets that `pack` has a function for. -/
inductive Request
  | connect (alive : ℕ) (id : Option LuaString) (twill : Will) (user pwd : Option LuaString)
  | subscribe (p : Subscribe)
  | publish (p : Publish) (retain : Bool)
  | puback (seq : LuaString)
  | pingreq
  | disconnect
  | unsubscribe (p : Unsubscribe)

def Request.pack (mqttver : LuaString) : Request → LuaString
  | .connect alive id twill user pwd => packConnect utf8 mqttver alive id twill user pwd
  | .subscribe p => packSubscribe utf8 p
  | .publish p retain => packMessage utf8 p retain
  | .puback seq => packPuback seq
  | .pingreq => packPingreq
  | .disconnect => packDisconnect
  | .unsubscribe p => packUnsubscribe utf8 p

def Request.typ : Request → ℕ
  | .connect .. => CONNECT
  | .subscribe _ => SUBSCRIBE
  | .publish .. => PUBLISH
  | .puback _ => PUBACK
  | .pingreq => PINGREQ
  | .disconnect => DISCONNECT
  | .unsubscribe _ => UNSUBSCRIBE

/-- What follows the fixed header. -/
def Request.body (mqttver : LuaString) : Request → LuaString
  | .connect alive id twill user pwd =>
      encutf8 utf8 (some (if mqttver = lua "3.1.1" then lua "MQTT" else lua "MQIsdp")) ++
      packb (if mqttver = lua "3.1.1" then 4 else 3) ++
      packb ((if user.isSome then 1 else 0) * 128 + (if pwd.isSome then 1 else 0) * 64 +
        twill.retain * 32 + twill.qos * 8 + twill.flg * 4 + CLEANSESS * 2) ++
      packH alive ++ encutf8 utf8 id ++
      (if twill.flg = 1 then encutf8 utf8 (some twill.topic) ++ encutf8 utf8 (some twill.payload)
        else []) ++
      encutf8 utf8 user ++ encutf8 utf8 pwd
  | .subscribe p => p.seq ++ p.topic.flatMap fun t => encutf8 utf8 (some t.1) ++ packb t.2
  | .publish p _ => publishBody (utf8 p.topic) p.seq p.payload p.qos
  | .puback seq => seq
  | .pingreq => []
  | .disconnect => []
  | .unsubscribe p => p.seq ++ p.topic.flatMap fun t => encutf8 utf8 (some t)

/-- The first byte. -/
def Request.first : Request → ℕ
  | .connect .. => CONNECT * 16
  | .subscribe p => SUBSCRIBE * 16 + (if p.dup then 1 else 0) * 8 + 2
  | .publish p retain => publishFirst p.dup p.qos retain
  | .puback _ => PUBACK * 16
  | .pingreq => PINGREQ * 16
  | .disconnect => DISCONNECT * 16
  | .unsubscribe p => UNSUBSCRIBE * 16 + (if p.dup then 1 else 0) * 8 + 2

/-- The QoS is one of the standard. -/
def Request.Admissible : Request → Prop
  | .publish p _ => p.qos ≤ 2
  | _ => True

theorem Request.pack_eq (mqttver : LuaString) (r : Request) :
    r.pack utf8 mqttver = Mqtt.pack (UInt8.ofNat r.first :: r.body utf8 mqttver) := by
  cases r with
  | connect alive id twill user pwd =>
      simp only [Request.pack, packConnect, Request.body, Request.first, List.append_assoc, packb,
        List.cons_append, List.nil_append]
  | publish p retain =>
      simp only [Request.pack, packMessage, Request.body, Request.first, publishBody, encutf8,
        List.append_assoc, packb, List.cons_append, List.nil_append]
  | subscribe p =>
      simp only [Request.pack, packSubscribe, Request.body, Request.first, packb, List.cons_append,
        List.nil_append]
  | unsubscribe p =>
      simp only [Request.pack, packUnsubscribe, Request.body, Request.first, packb, List.cons_append,
        List.nil_append]
  | puback | pingreq | disconnect => rfl

theorem Request.typ_range (r : Request) : CONNECT ≤ r.typ ∧ r.typ ≤ DISCONNECT := by
  cases r <;> exact ⟨Nat.le_of_ble_eq_true rfl, Nat.le_of_ble_eq_true rfl⟩

theorem Request.first_typ {r : Request} (h : r.Admissible) :
    (UInt8.ofNat r.first).toNat / 16 = r.typ := by
  cases r with
  | publish p retain => exact (publishFirst_eq p.dup h retain).2.1
  | subscribe p | unsubscribe p => cases hd : p.dup <;> simp only [first, typ, hd] <;> rfl
  | connect | puback | pingreq | disconnect =>
      simp only [first, typ]
      rfl

/-- The parser finds the packets that `pack` builds, whose lengths have as few bytes as they can;
and it gives back what `publish` was given, unless the topic and the payload have less than two
bytes together and there is no identifier. -/
theorem pack_parsed :
    (∀ b rest, declen (enclen b ++ rest) = some (b.length, (enclen b).length)) ∧
    (∀ b k, 0 < k → ((enclen b).length ≤ k ↔ b.length < 128 ^ k)) ∧
    (∀ mqttver (r : Request), r.Admissible → (r.body utf8 mqttver).length ≤ 268435455 →
      iscomplete (r.pack utf8 mqttver) =
        some ⟨1, (r.pack utf8 mqttver).length, r.typ, (r.body utf8 mqttver).length⟩) ∧
    ∀ mqttver (p : Publish) retain, p.qos ≤ 2 → (utf8 p.topic).length < 65536 → p.seq.length = 2 →
      (Request.body utf8 mqttver (.publish p retain)).length ≤ 268435455 →
      (unpack (Request.pack utf8 mqttver (.publish p retain)) =
          some ⟨PUBLISH, p.qos, p.dup, false, none, if 0 < p.qos then p.seq else [], utf8 p.topic,
            p.payload⟩ ↔
        ¬(p.qos = 0 ∧ (utf8 p.topic).length + p.payload.length < 2)) := by
  refine ⟨declen_enclen, fun b k hk => enclen_length b hk, ?_, ?_⟩
  · intro mqttver r ha hb
    have ht := Request.first_typ ha
    have hrange := r.typ_range
    rw [← ht] at hrange
    obtain ⟨w, hfirst, hbody, hpack⟩ := pack_wire hrange hb
    have hc := w.iscomplete []
    rw [List.append_nil, ← hpack, hfirst, ht, hbody] at hc
    rw [r.pack_eq]
    exact hc
  · intro mqttver p retain hq htopic hs hb
    have hrange := Request.typ_range (.publish p retain)
    rw [← @Request.first_typ (.publish p retain) hq] at hrange
    obtain ⟨w, hfirst, hbody, hpack⟩ := pack_wire hrange hb
    have hlen := publishBody_length (utf8 p.topic) p.seq p.payload p.qos
    rw [hs] at hlen
    rw [Request.pack_eq, hpack, w.unpack_fields hfirst hbody hq htopic hs]
    split
    · rename_i hlt
      constructor
      · intro h
        cases h
      · intro h
        exact absurd ⟨by split at hlen <;> omega, by split at hlen <;> omega⟩ h
    · rename_i hlt
      constructor
      · rintro - ⟨hq, hshort⟩
        rw [if_neg (by omega)] at hlen
        omega
      · exact fun _ => rfl

/-- The shortest message: the parser finds it, and `unpack` gives nothing. -/
theorem shortest_message : Request.pack id (lua "3.1.1")
      (.publish ⟨false, lua "a", [], 0, [0, 1]⟩ false) = [0x30, 3, 0, 1, 97] ∧
    unpack (Request.pack id (lua "3.1.1") (.publish ⟨false, lua "a", [], 0, [0, 1]⟩ false)) = none := by
  decide

end

/-- A message with a payload. -/
theorem pack_parsed_message :
    iscomplete (Request.pack id (lua "3.1.1") .pingreq) = some ⟨1, 2, PINGREQ, 0⟩ ∧
    unpack (Request.pack id (lua "3.1.1") (.publish ⟨true, lua "a", lua "b", 1, [0, 1]⟩ true)) =
      some ⟨PUBLISH, 1, true, false, none, [0, 1], lua "a", lua "b"⟩ := by
  obtain ⟨-, -, hfind, hunpack⟩ := pack_parsed id
  exact ⟨hfind _ .pingreq trivial (by decide),
    (hunpack _ _ _ (by decide) (by decide) (by decide) (by decide)).mpr (by decide)⟩

end LuatAir200.Mqtt
