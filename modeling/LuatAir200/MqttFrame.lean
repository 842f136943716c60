import Mathlib.Tactic.Ring
import LuatAir200.MqttPacket

/-!
# Framing of received packets

`rcv` gathers the data of a socket and takes packets from it. The handlers of the
packets do not touch the buffer: it is written by `rcv` and by the notices of the
socket only, which come between two calls of `rcv`.
-/
namespace LuatAir200.Mqtt
open Lua

theorem iscompleteFrom_bound {i : ℕ} {s : LuaString} {f : Found}
    (h : iscompleteFrom i s = some f) : i ≤ f.h ∧ f.h ≤ f.t ∧ s ≠ [] := by
  induction s generalizing i with
  | nil => cases h
  | cons b s ih =>
      rw [iscompleteFrom] at h
      split at h
      · split at h
        · split at h
          · cases h
            exact ⟨le_refl i, by dsimp only; omega, List.cons_ne_nil b s⟩
          · cases h
        · cases h
      · obtain ⟨h1, h2, -⟩ := ih h
        exact ⟨by omega, h2, List.cons_ne_nil b s⟩

/-- The loop of `rcv` takes packets from the front. -/
def receiver : Splitter UInt8 LuaString where
  split := nextpacket
  shortens := by
    intro buf b rest h
    obtain ⟨f, hf, he⟩ := Option.map_eq_some_iff.mp h
    obtain ⟨-, rfl⟩ := Prod.mk.inj he
    obtain ⟨h1, h2, hne⟩ := iscompleteFrom_bound hf
    have hpos : 0 < buf.length := List.length_pos_iff.mpr hne
    rw [List.length_drop]
    omega

/-- `rcv`: what is handed to `unpack`, and the new buffer. -/
def rcv (sckrcvs data : LuaString) : List LuaString × LuaString :=
  receiver.drain (sckrcvs ++ data)

/-- One call of `rcv` after another. -/
def rcvs (st : List LuaString × LuaString) (data : LuaString) : List LuaString × LuaString :=
  let r := rcv st.2 data
  (st.1 ++ r.1, r.2)

/-! ## Well-formed packets -/

/-- The bytes of a length: all but the last one have the high bit. -/
inductive IsLength : LuaString → Prop
  | last {b : UInt8} (h : b.toNat < 128) : IsLength [b]
  | more {b : UInt8} {f : LuaString} (h : 128 ≤ b.toNat) (hf : IsLength f) : IsLength (b :: f)

/-- The number that they stand for, lowest digit first. -/
def lenvalue : LuaString → ℕ
  | [] => 0
  | b :: f => b.toNat % 128 + 128 * lenvalue f

/-- A packet of one of the types 1 to 14, with as many bytes as its length says. -/
structure Wire where
  first : UInt8
  field : LuaString
  body : LuaString
  typ : CONNECT ≤ first.toNat / 16 ∧ first.toNat / 16 ≤ DISCONNECT
  isLength : IsLength field
  short : field.length ≤ 4
  length : body.length = lenvalue field

def Wire.bytes (w : Wire) : LuaString := w.first :: (w.field ++ w.body)

/-! ## The length field -/

theorem byte_low (b : UInt8) : b.toNat &&& 127 = b.toNat % 128 :=
  Nat.and_two_pow_sub_one_eq_mod b.toNat 7

theorem byte_high (b : UInt8) : b.toNat &&& 128 = 0 ↔ b.toNat < 128 := by
  have hall : ∀ n : Fin 256, n.val &&& 128 = 0 ↔ n.val < 128 := by decide +kernel
  exact hall ⟨b.toNat, b.toNat_lt⟩

theorem byte_typ (b : UInt8) : b.toNat >>> 4 &&& 0x0f = b.toNat / 16 := by
  have hlt := b.toNat_lt
  rw [Nat.shiftRight_eq_div_pow, show (0x0f : ℕ) = 2 ^ 4 - 1 by rfl, Nat.and_two_pow_sub_one_eq_mod]
  omega

theorem declenLoop_field {f : LuaString} (hf : IsLength f) (rest : LuaString) (v m i : ℕ) :
    declenLoop (f ++ rest) v m i = some (v + lenvalue f * m, i + f.length) := by
  induction hf generalizing v m i with
  | @last b h =>
      have hmod : b.toNat % 128 = b.toNat := Nat.mod_eq_of_lt h
      simp [declenLoop, lenvalue, byte_low, (byte_high b).mpr h]
  | @more b f h hf ih =>
      have hb : ¬b.toNat &&& 128 = 0 := by
        rw [byte_high]
        omega
      rw [List.cons_append, declenLoop]
      rw [if_neg hb, ih, byte_low, lenvalue, List.length_cons]
      congr 2
      · ring
      · omega

theorem declenLoop_part {f p : LuaString} (hf : IsLength f) (hp : p <+: f) (hne : p ≠ f)
    (v m i : ℕ) : declenLoop p v m i = none := by
  induction hf generalizing p v m i with
  | @last b h =>
      have hcut : p <+: [] ++ [b] := hp
      obtain hp | hp := List.prefix_concat_iff.mp hcut
      · exact absurd hp hne
      · rw [List.prefix_nil.mp hp]
        rfl
  | @more b f h hf ih =>
      cases p with
      | nil => rfl
      | cons c p =>
          obtain ⟨rfl, hq⟩ := List.cons_prefix_cons.mp hp
          have hb : ¬c.toNat &&& 128 = 0 := by
            rw [byte_high]
            omega
          rw [declenLoop]
          rw [if_neg hb]
          exact ih hq (fun he => hne (by rw [he])) _ _ _

/-! ## Packets in the buffer -/

theorem Wire.iscomplete (w : Wire) (rest : LuaString) : iscomplete (w.bytes ++ rest) =
    some ⟨1, w.bytes.length, w.first.toNat / 16, w.body.length⟩ := by
  have hd : declen (w.field ++ (w.body ++ rest)) = some (w.body.length, w.field.length) := by
    rw [declen, declenLoop_field w.isLength, w.length]
    simp
  have hlen : w.body.length ≤ (w.field ++ (w.body ++ rest)).length - w.field.length := by
    simp only [List.length_append]
    omega
  have ht : 1 + w.field.length + w.body.length = w.bytes.length := by
    simp only [bytes, List.length_cons, List.length_append]
    omega
  rw [Mqtt.iscomplete, bytes, List.cons_append, List.append_assoc, iscompleteFrom]
  rw [byte_typ, if_pos w.typ, hd]
  dsimp only
  rw [if_pos ⟨w.short, hlen⟩, ht, bytes]

theorem Wire.whole (w : Wire) (rest : LuaString) :
    nextpacket (w.bytes ++ rest) = some (w.bytes, rest) := by
  rw [nextpacket, w.iscomplete, Option.map_some]
  dsimp only
  rw [List.take_left, List.drop_left, Nat.sub_self, List.drop_zero]

theorem Wire.part (w : Wire) {p : LuaString} (hp : p <+: w.bytes) (hne : p ≠ w.bytes) :
    nextpacket p = none := by
  cases p with
  | nil => rfl
  | cons b q =>
      rw [bytes] at hp hne
      obtain ⟨rfl, hq⟩ := List.cons_prefix_cons.mp hp
      have hqne : q ≠ w.field ++ w.body := fun he => hne (by rw [he])
      rw [nextpacket, Mqtt.iscomplete, iscompleteFrom]
      rw [byte_typ, if_pos w.typ]
      by_cases hf : w.field <+: q
      · -- the length is there, and the body is not whole
        obtain ⟨body, rfl⟩ := hf
        have hb : body <+: w.body := (List.prefix_append_right_inj w.field).mp hq
        have hlt : body.length < w.body.length := by
          obtain hl | hl := Nat.lt_or_eq_of_le hb.length_le
          · exact hl
          · exact absurd (congrArg (w.field ++ ·) (hb.eq_of_length hl)) hqne
        rw [declen, declenLoop_field w.isLength]
        dsimp only
        rw [if_neg]
        · rfl
        · rw [List.length_append, ← w.length]
          omega
      · have hqf : q <+: w.field := by
          obtain hl | hl := Nat.le_total q.length w.field.length
          · exact List.prefix_of_prefix_length_le hq ⟨w.body, rfl⟩ hl
          · exact absurd (List.prefix_of_prefix_length_le ⟨w.body, rfl⟩ hq hl) hf
        have hqf' : q ≠ w.field := fun he => hf (he ▸ List.prefix_refl q)
        rw [declen, declenLoop_part w.isLength hqf hqf']
        rfl

theorem receiver_reads : receiver.Reads Wire.bytes Wire.bytes where
  whole := Wire.whole
  part w _ hp hne := w.part hp hne

/-- However the data of a list of well-formed packets is cut into the arguments of `rcv`,
`unpack` is handed the packets in order, and the buffer is empty in the end. -/
theorem rcv_any_cut {packets : List Wire} {datas : List LuaString}
    (h : datas.flatten = packets.flatMap Wire.bytes) :
    datas.foldl rcvs ([], []) = (packets.map Wire.bytes, []) :=
  receiver_reads.feed_pieces h

/-- A `PUBACK` packet and a `PINGRSP` packet. -/
def acks : List Wire :=
  [⟨0x40, [2], [0, 7], by decide, .last (by decide), by decide, by decide⟩,
    ⟨0xd0, [0], [], by decide, .last (by decide), by decide, by decide⟩]

/-- The first cut is behind the type of the first packet, the second one inside its body. -/
theorem rcv_any_cut_acks : [[0x40], [2, 0], [], [7, 0xd0, 0]].foldl rcvs ([], []) =
    ([[0x40, 2, 0, 7], [0xd0, 0]], []) := by
  have h : [[0x40], [2, 0], [], [7, 0xd0, 0]].flatten = acks.flatMap Wire.bytes := by decide
  exact rcv_any_cut h

end LuatAir200.Mqtt
