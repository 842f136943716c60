import LuatAir200.GsmSeptets
import Mathlib.Data.List.TakeWhile

/-!
# Messages in the packed alphabet

A message in the default alphabet, alone or as a part of a longer one, and when its text is the
one that was packed. The number of septets that the decoder counts cuts off the one that is read
from the fill bits, unless the text is shorter than that number or the first septet of a part is
not counted.
-/
namespace LuatAir200.Sms
open Lua LowDigits

/-! ## Packed septets -/

/-- The octets of septets, behind some fill bits. -/
def packed (fill : ℕ) (cs : List ℕ) : List ℕ :=
  low 256 ((fill + 7 * cs.length + 7) / 8) (2 ^ fill * Nat.ofDigits 128 cs)

/-- Octets in hexadecimal digits of either case. -/
inductive HexText : LuaString → List ℕ → Prop
  | nil : HexText [] []
  | cons {c d : UInt8} {n : ℕ} {s : LuaString} {ns : List ℕ} (h : hexnum [c, d] = some n)
      (hs : HexText s ns) : HexText (c :: d :: s) (n :: ns)

theorem HexText.length {s : LuaString} {ns : List ℕ} (h : HexText s ns) : s.length = 2 * ns.length := by
  induction h with
  | nil => rfl
  | cons _ _ ih =>
      rw [List.length_cons, List.length_cons, ih, List.length_cons]
      omega

/-- The octets behind those before. -/
theorem HexText.read {s : LuaString} {ns : List ℕ} (h : HexText s ns) (before : LuaString) {p : ℕ}
    (hp : before.length = 2 * p) :
    ((List.range' (p + 1) ns.length).map fun (i : ℕ) =>
      hexnum (ssub (before ++ s) (((i : ℤ) - 1) * 2 + 1) ((i : ℤ) * 2))) = ns.map some := by
  induction h generalizing before p with
  | nil => rfl
  | @cons c d n s ns hn _ ih =>
      have hpair : ssub (before ++ c :: d :: s) ((((p + 1 : ℕ) : ℤ) - 1) * 2 + 1)
          (((p + 1 : ℕ) : ℤ) * 2) = [c, d] := by
        apply ssub_mid (a := before) (c := s)
        · simp
        · rw [hp]
          omega
        · rw [hp, List.length_cons, List.length_singleton]
          omega
      have hrest := ih (before ++ [c, d]) (p := p + 1) (by simp [hp]; omega)
      rw [List.append_assoc] at hrest
      rw [List.length_cons, List.range'_succ, List.map_cons, List.map_cons, hpair, hn]
      exact congrArg (some n :: ·) hrest

theorem HexText.bytes {s : LuaString} {n : ℕ} {ns : List ℕ} (h : HexText s (n :: ns)) :
    hexnum (ssub s 1 2) = some n ∧ bytes s 2 (s.length / 2 - 1) = ns := by
  have hread := h.read [] (p := 0) rfl
  have hcount : s.length / 2 - 1 = ns.length := by
    rw [h.length, List.length_cons]
    omega
  rw [List.length_cons, List.range'_succ, List.map_cons, List.map_cons] at hread
  obtain ⟨hfirst, hrest⟩ := List.cons.inj hread
  refine ⟨hfirst, ?_⟩
  have hall : (ns.map some).takeWhile Option.isSome = ns.map some := by
    rw [List.takeWhile_eq_self_iff]
    simp
  have hread := congrArg (fun l => (l.takeWhile Option.isSome).reduceOption) hrest
  have hsome : (ns.map some).reduceOption = ns := by
    show (ns.map some).filterMap id = ns
    rw [List.filterMap_map]
    exact List.filterMap_some
  simp only [hall, hsome] at hread
  rw [Sms.bytes, hcount]
  exact hread

/-! ## The decoder -/

section

variable {cs : List ℕ} {data : LuaString}

theorem gsm7bitdecode_single (h : HexText data (packed 0 cs)) (hne : cs ≠ []) :
    gsm7bitdecode data false =
      some (text (low 128 (8 * ((7 * cs.length + 7) / 8) / 7) (Nat.ofDigits 128 cs)),
        8 * ((7 * cs.length + 7) / 8) / 7) := by
  have hpos := List.length_pos_of_ne_nil hne
  obtain ⟨k, hk⟩ : ∃ k, (7 * cs.length + 7) / 8 = k + 1 := ⟨(7 * cs.length + 7) / 8 - 1, by omega⟩
  have hpacked : packed 0 cs = low 256 (k + 1) (Nat.ofDigits 128 cs) := by
    rw [packed, Nat.zero_add, hk, pow_zero, one_mul]
  rw [hpacked] at h
  obtain ⟨hfirst, hrest⟩ := h.bytes
  obtain ⟨hdata, hlen⟩ := foldl_byte (k + 1) (Nat.ofDigits 128 cs) ⟨[], 0, 0, 0, 0⟩ (by decide)
    (by decide)
  simp only [pow_zero, one_mul, Nat.zero_add] at hdata hlen
  rw [(foldl_put _ _).1 0 (by decide), List.nil_append] at hdata
  rw [gsm7bitdecode, hfirst, hrest, hk, Option.map_some]
  exact congrArg some (Prod.ext hdata hlen)

theorem gsm7bitdecode_part (h : HexText data (packed 1 cs)) :
    gsm7bitdecode data true =
      some (text (low 128 (8 * ((7 * cs.length + 8) / 8 - 1) / 7 + 1) (Nat.ofDigits 128 cs)),
        8 * ((7 * cs.length + 8) / 8 - 1) / 7) := by
  obtain ⟨k, hk⟩ : ∃ k, (7 * cs.length + 8) / 8 = k + 1 := ⟨(7 * cs.length + 8) / 8 - 1, by omega⟩
  have hcount : (1 + 7 * cs.length + 7) / 8 = k + 1 := by omega
  rw [packed, hcount, pow_one] at h
  obtain ⟨hfirst, hrest⟩ := h.bytes
  have hseptet : (2 * Nat.ofDigits 128 cs % 256) >>> 1 = Nat.ofDigits 128 cs % 128 := by
    rw [Nat.shiftRight_eq_div_pow]
    omega
  have hbehind : 2 * Nat.ofDigits 128 cs / 256 = Nat.ofDigits 128 cs / 128 := by omega
  rw [hbehind] at hrest
  have hchar : (⟨[], 0, 0, 0, 0⟩ : Septets).char (Nat.ofDigits 128 cs % 128) =
      ⟨(put ([], 0) (Nat.ofDigits 128 cs % 128)).1, (put ([], 0) (Nat.ofDigits 128 cs % 128)).2,
        0, 0, 0⟩ := char_eq _ _
  obtain ⟨hdata, hlen⟩ := foldl_byte k (Nat.ofDigits 128 cs / 128)
    ⟨(put ([], 0) (Nat.ofDigits 128 cs % 128)).1, (put ([], 0) (Nat.ofDigits 128 cs % 128)).2,
      0, 0, 0⟩ (Nat.zero_le 6) Nat.one_pos
  simp only [pow_zero, one_mul, Nat.zero_add] at hdata hlen
  have htext := (foldl_put (low 128 (8 * k / 7 + 1) (Nat.ofDigits 128 cs)) []).1 0 (by decide)
  rw [low, List.foldl_cons] at htext
  rw [gsm7bitdecode, hfirst, hrest, hk, Nat.add_sub_cancel, Option.map_some]
  simp only [hseptet, hchar, if_true]
  rw [hdata, hlen]
  exact congrArg (fun u => some (u, 8 * k / 7)) htext

end

/-! ## Messages -/

/-- A delivered message with septets, as a whole or as a part behind a header of six octets, in
the digits of a PDU. -/
structure Message (longsms : Bool) (cs : List ℕ) where
  smsc : LuaString
  fo : UInt8
  mti : UInt8
  addlen : LuaString
  addnum : LuaString
  pid : LuaString
  tz : LuaString
  txtlen : LuaString
  header : LuaString
  ud : LuaString
  smsc_even : smsc.length % 2 = 0
  udhi : ∃ n, hexnum [fo] = some n ∧ decide (n &&& 0x4 ≠ 0) = longsms
  addlen_two : addlen.length = 2
  address : ∃ n, hexnum addlen = some n ∧ addnum.length = if n % 2 = 0 then n + 2 else n + 3
  pid_two : pid.length = 2
  pid_hex : ∃ n, hexnum pid = some n
  tz_length : tz.length = 14
  txtlen_two : txtlen.length = 2
  txtlen_hex : hexnum txtlen = some (if longsms then 7 + cs.length else cs.length)
  header_length : header.length = if longsms then 12 else 0
  ud_hex : HexText ud (packed (if longsms then 1 else 0) cs)
  septets : ∀ c ∈ cs, c < 128
  at_most : (if longsms then 7 + cs.length else cs.length) ≤ 160

variable {longsms : Bool} {cs : List ℕ}

/-- The part behind the number of the service centre. -/
def Message.tpdu (m : Message longsms cs) : LuaString :=
  [m.fo, m.mti] ++ m.addlen ++ m.addnum ++ m.pid ++ lua "00" ++ m.tz ++ m.txtlen ++
    (m.header ++ m.ud)

def Message.pdu (m : Message longsms cs) : LuaString := m.smsc ++ m.tpdu

/-- The number of its octets, as the modem gives it. -/
def Message.len (m : Message longsms cs) : ℕ := m.tpdu.length / 2

/-- What `rsp` makes of the decoded text. -/
def cut (txtlen : ℕ) (r : LuaString × ℕ) : LuaString :=
  if r.2 > txtlen then ssub r.1 1 (txtlen * 4) else r.1

theorem packed_length (fill : ℕ) (cs : List ℕ) :
    (packed fill cs).length = (fill + 7 * cs.length + 7) / 8 := low_length _ _

theorem Message.pdu_rest (m : Message longsms cs) :
    ssub m.pdu (((m.pdu.length / 2 : ℕ) - (m.len : ℤ)) * 2 + 1) (-1) = m.tpdu := by
  have heven := m.smsc_even
  have hstart : (((m.smsc.length + m.tpdu.length) / 2 : ℕ) - ((m.tpdu.length / 2 : ℕ) : ℤ)) * 2 + 1 =
      (m.smsc.length : ℤ) + 1 := by
    omega
  rw [Message.pdu, List.length_append, Message.len, hstart, ssub_rest, List.drop_left]

/-- The septets are at most as many octets. -/
theorem Message.ud_length (m : Message longsms cs) :
    m.header.length + m.ud.length ≤ 2 * (if longsms then 7 + cs.length else cs.length) := by
  have hlen := m.header_length
  have hud := m.ud_hex.length
  rw [packed_length] at hud
  cases longsms with
  | false =>
      simp only [Bool.false_eq_true, if_false] at hlen hud ⊢
      omega
  | true =>
      simp only [if_true] at hlen hud ⊢
      omega

/-- The digits behind the address, from the octet of the address on. -/
theorem Message.fields (m : Message longsms cs) {offset : ℕ} (h : 5 + m.addnum.length = offset)
    {n : ℕ} (hn : n = if longsms then 7 + cs.length else cs.length) :
    ssub m.tpdu 1 1 = [m.fo] ∧ ssub m.tpdu 3 4 = m.addlen ∧
      ssub m.tpdu offset (offset + 1) = m.pid ∧ ssub m.tpdu (offset + 2) (offset + 3) = lua "00" ∧
      ssub m.tpdu (offset + 18) (offset + 19) = m.txtlen ∧
      ssub m.tpdu (offset + 20) (offset + 20 + n * 2 - 1) = m.header ++ m.ud := by
  have haddlen := m.addlen_two
  have hpid := m.pid_two
  have htz := m.tz_length
  have htxtlen := m.txtlen_two
  have h00 : (lua "00").length = 2 := rfl
  refine ⟨?_, ?_, ?_, ?_, ?_, ?_⟩
  · exact ssub_mid (a := []) rfl rfl rfl
  · apply ssub_mid (a := [m.fo, m.mti]) (c := m.addnum ++ m.pid ++ lua "00" ++ m.tz ++ m.txtlen ++
      (m.header ++ m.ud))
    · simp only [Message.tpdu, List.append_assoc]
    · rfl
    · rw [haddlen]
      rfl
  · apply ssub_mid (a := [m.fo, m.mti] ++ m.addlen ++ m.addnum)
      (c := lua "00" ++ m.tz ++ m.txtlen ++ (m.header ++ m.ud))
    · simp only [Message.tpdu, List.append_assoc]
    · simp
      omega
    · simp
      omega
  · apply ssub_mid (a := [m.fo, m.mti] ++ m.addlen ++ m.addnum ++ m.pid)
      (c := m.tz ++ m.txtlen ++ (m.header ++ m.ud))
    · simp only [Message.tpdu, List.append_assoc]
    · simp
      omega
    · simp
      omega
  · apply ssub_mid (a := [m.fo, m.mti] ++ m.addlen ++ m.addnum ++ m.pid ++ lua "00" ++ m.tz)
      (c := m.header ++ m.ud)
    · simp only [Message.tpdu, List.append_assoc]
    · simp
      omega
    · simp
      omega
  · have hud := m.ud_length
    have hend : (offset : ℤ) + 20 + n * 2 - 1 = (offset + 19 + n * 2 : ℕ) := by omega
    rw [hend]
    apply ssub_end (a := [m.fo, m.mti] ++ m.addlen ++ m.addnum ++ m.pid ++ lua "00" ++ m.tz ++ m.txtlen)
    · simp only [Message.tpdu, List.append_assoc]
    · simp
      omega
    · rw [← hn] at hud
      simp only [List.length_append, List.length_cons, List.length_nil]
      omega

theorem Message.data_rest (m : Message longsms cs) :
    (if longsms then ssub (m.header ++ m.ud) 13 (-1) else m.header ++ m.ud) = m.ud := by
  have hlen := m.header_length
  cases longsms with
  | false =>
      rw [List.eq_nil_of_length_eq_zero hlen]
      rfl
  | true =>
      have hrest := ssub_rest (m.header ++ m.ud) m.header.length
      rw [List.drop_left, hlen] at hrest
      exact hrest

theorem Message.decode_data (m : Message longsms cs) :
    (decode m.pdu m.len).map Decoded.data = (gsm7bitdecode m.ud longsms).map
      (cut (if longsms then 7 + cs.length else cs.length)) := by
  obtain ⟨fo, hfo, hlong⟩ := m.udhi
  obtain ⟨addlen, haddlen, haddress⟩ := m.address
  obtain ⟨pid, hpid⟩ := m.pid_hex
  obtain ⟨h1, h2, h3, h4, h5, h6⟩ := m.fields rfl rfl
  have hdcs : hexnum (lua "00") = some 0 := rfl
  have htxtlen := m.txtlen_hex
  rw [haddress] at h3 h4 h5 h6
  simp only [decode, m.pdu_rest, h1, h2, hfo, haddlen, Option.bind_eq_bind, Option.bind_some, h3, h4,
    h5, hpid, hdcs, htxtlen, h6, hlong]
  rw [if_pos trivial, m.data_rest]
  cases gsm7bitdecode m.ud longsms with
  | none => rfl
  | some r => rfl

/-! ## The text of a message -/

/-- The text is the one of the septets of the message. -/
def Exact (m : Message longsms cs) : Prop :=
  (decode m.pdu m.len).map Decoded.data = some (text cs)

/-- A message has septets, and not seven beyond eights of them with an escape among them; a part
of a message has none in eights. -/
def Readable (longsms : Bool) (cs : List ℕ) : Prop :=
  if longsms then cs.length % 8 ≠ 0 else cs ≠ [] ∧ ¬(cs.length % 8 = 7 ∧ Escapes cs)

theorem cut_eq (n : ℕ) (r : LuaString × ℕ) : cut n r = if n < r.2 then r.1.take (4 * n) else r.1 := by
  have hsub := ssub_nat r.1 0 (n * 4)
  have hcast : ((n * 4 : ℕ) : ℤ) = n * 4 := by omega
  rw [hcast, List.drop_zero, Nat.sub_zero, Nat.mul_comm] at hsub
  rw [cut, ← hsub]
  rfl

/-- Of a text and the character behind it, as many characters as there are septets. -/
theorem take_text (cs : List ℕ) :
    (text cs ++ hex 4 0x40).take (4 * cs.length) = text cs ↔ ¬Escapes cs := by
  obtain ⟨hle, hiff⟩ := text_length cs
  have hat : (hex 4 0x40).length = 4 := rfl
  rw [← hiff]
  constructor
  · intro h
    have hlen := congrArg List.length h
    rw [List.length_take, List.length_append, hat] at hlen
    omega
  · intro h
    rw [← h, List.take_left]

theorem single_iff (m : Message false cs) : Exact m ↔ Readable false cs := by
  have hlt := m.septets
  have hud := m.ud_hex
  rw [Exact, m.decode_data]
  simp only [Readable, Bool.false_eq_true, if_false] at hud ⊢
  by_cases hne : cs = []
  · subst hne
    have hnone : packed 0 [] = [] := rfl
    rw [hnone] at hud
    generalize m.ud = ud at hud
    cases hud
    have herror : gsm7bitdecode [] false = none := rfl
    simp [herror]
  · rw [gsm7bitdecode_single hud hne, Option.map_some, cut_eq]
    by_cases h7 : cs.length % 8 = 7
    · have hcount : 8 * ((7 * cs.length + 7) / 8) / 7 = cs.length + 1 := by omega
      rw [hcount, low_succ_ofDigits hlt (by decide), text_append_zero, if_pos (Nat.lt_succ_self _),
        Option.some_inj, take_text]
      simp [hne, h7]
    · have hcount : 8 * ((7 * cs.length + 7) / 8) / 7 = cs.length := by
        have hoctets : (7 * cs.length + 7) / 8 = 7 * (cs.length / 8) + cs.length % 8 := by omega
        rw [hoctets]
        omega
      rw [hcount, low_ofDigits hlt, if_neg (Nat.lt_irrefl _)]
      simp [hne, h7]

theorem part_iff (m : Message true cs) : Exact m ↔ Readable true cs := by
  have hlt := m.septets
  have hud := m.ud_hex
  rw [Exact, m.decode_data]
  simp only [Readable, if_true] at hud ⊢
  have hwhole : ¬7 + cs.length < 8 * ((7 * cs.length + 8) / 8 - 1) / 7 := by omega
  rw [gsm7bitdecode_part hud, Option.map_some, cut_eq, if_neg hwhole, Option.some_inj]
  by_cases h0 : cs.length % 8 = 0
  · have hcount : 8 * ((7 * cs.length + 8) / 8 - 1) / 7 + 1 = cs.length + 1 := by omega
    rw [hcount, low_succ_ofDigits hlt (by decide), text_append_zero]
    have hmore : text cs ++ hex 4 0x40 ≠ text cs := by
      intro h
      have hlen := congrArg List.length h
      have hat : (hex 4 0x40).length = 4 := rfl
      rw [List.length_append, hat] at hlen
      omega
    exact iff_of_false hmore (not_not_intro h0)
  · have hcount : 8 * ((7 * cs.length + 8) / 8 - 1) / 7 + 1 = cs.length := by
      have hoctets : (7 * cs.length + 8) / 8 - 1 = 7 * (cs.length / 8) + (cs.length % 8 - 1) := by
        omega
      rw [hoctets]
      omega
    rw [hcount, low_ofDigits hlt]
    exact iff_of_true rfl h0

/-- For every message and every part of one. -/
theorem exact_iff_readable (m : Message longsms cs) : Exact m ↔ Readable longsms cs := by
  cases longsms with
  | false => exact single_iff m
  | true => exact part_iff m

/-- Octets in the digits that `%X` writes. -/
theorem hexText_hex {ns : List ℕ} (h : ∀ n ∈ ns, n < 256) : HexText (ns.flatMap (hex 2)) ns := by
  induction ns with
  | nil => exact .nil
  | cons n ns ih =>
      rw [List.forall_mem_cons] at h
      have hread := hexnum_hex h.1
      rw [hex_two h.1] at hread
      rw [List.flatMap_cons, hex_two h.1]
      exact .cons hread (ih h.2)

/-- A message with septets. -/
def delivered (cs : List ℕ) (hlt : ∀ c ∈ cs, c < 128) (hlen : cs.length ≤ 160) : Message false cs where
  smsc := lua "0891683108100005F0"
  fo := 50
  mti := 52
  addlen := lua "0D"
  addnum := lua "91683181000000F0"
  pid := lua "00"
  tz := lua "41304161050323"
  txtlen := hex 2 cs.length
  header := []
  ud := (packed 0 cs).flatMap (hex 2)
  smsc_even := rfl
  udhi := ⟨2, rfl, rfl⟩
  addlen_two := rfl
  address := ⟨13, rfl, rfl⟩
  pid_two := rfl
  pid_hex := ⟨0, rfl⟩
  tz_length := rfl
  txtlen_two := hex_two_length (by omega)
  txtlen_hex := hexnum_hex (by omega)
  header_length := rfl
  ud_hex := hexText_hex fun _ h => low_lt (by decide) h
  septets := hlt
  at_most := hlen

/-- A brace is an escape with its character; with five letters it is six characters in seven
septets, and a commercial at is read behind them. -/
theorem not_exact : ¬∀ (longsms : Bool) (cs : List ℕ) (m : Message longsms cs), Exact m := by
  intro h
  have hbrace := h false [27, 40, 97, 98, 99, 100, 101] (delivered _ (by decide) (by decide))
  revert hbrace
  unfold Exact
  decide +kernel

end LuatAir200.Sms
