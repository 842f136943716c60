import LuatAir200.SmsHex
import LuatAir200.SmsSendRuns

/-!
# The parts of a message

The commands that `_send` makes of a message: the fields of each part, which lengths they give,
and the text that they carry together.
-/
namespace LuatAir200.SmsSend
open Lua Sms Sparse Machine

/-- The fields of a part; `udl` counts the bytes of `udhi` and `text`. -/
structure Submit where
  fo : LuaString
  numlen : LuaString
  addr : LuaString
  udl : ℕ
  udhi : LuaString
  text : LuaString

/-- The empty address of the service centre is in front of the fields. -/
def Submit.pdu (m : Submit) : LuaString :=
  lua "00" ++ m.fo ++ lua "10" ++ m.numlen ++ m.addr ++ lua "000800" ++ hex 2 m.udl ++ m.udhi ++ m.text

/-- The header of the part `i` of `total` ones. -/
def header (isn total i : ℕ) : LuaString := lua "050003" ++ hex 2 isn ++ hex 2 total ++ hex 2 i

/-- The fields of the part `i`. -/
def submit (x : Sent) (i : ℕ) : Submit :=
  let n := pducnt x.item.data
  let datalen := x.item.data.length / 2
  { fo := if 1 < n then lua "51" else lua "11"
    numlen := numlen x.item.num
    addr := numtobcdnum x.item.num
    udl := if 1 < n then if i = n then datalen - (n - 1) * 134 + 6 else 140 else datalen
    udhi := if 1 < n then header x.isn n i else []
    text := if 1 < n then ssub x.item.data ((i - 1) * 134 * 2 + 1) (i * 134 * 2) else x.item.data }

theorem submit_pdu (x : Sent) (i : ℕ) : (submit x i).pdu = pdu x i := by
  rw [Submit.pdu, submit, pdu]
  by_cases hn : 1 < pducnt x.item.data
  · have hfull : lua "8C" = hex 2 140 := by decide
    have hfo : lua "005110" = lua "00" ++ lua "51" ++ lua "10" := rfl
    have hlen (p : Prop) [Decidable p] (k : ℕ) :
        hex 2 (if p then k else 140) = if p then hex 2 k else lua "8C" := by
      split
      · rfl
      · exact hfull.symm
    simp only [hn, if_true, hlen, hfo, header, List.append_assoc]
  · have hfo : lua "001110" = lua "00" ++ lua "11" ++ lua "10" := rfl
    simp only [hn, if_false, hfo, List.append_nil]

/-! ## The text -/

/-- The pieces of `c` bytes. -/
theorem pieces_flatten (s : LuaString) (c k : ℕ) :
    ((List.range k).flatMap fun i => (s.drop (i * c)).take c) = s.take (k * c) := by
  induction k with
  | zero => simp
  | succ k ih =>
      rw [List.range_succ, List.flatMap_append, ih, List.flatMap_singleton, Nat.succ_mul,
        List.take_add]

/-- The text of a part of several. -/
theorem submit_text (x : Sent) (j : ℕ) (h : 1 < pducnt x.item.data) :
    (submit x (j + 1)).text = (x.item.data.drop (j * 268)).take 268 := by
  have hlow : (((j + 1 : ℕ) : ℤ) - 1) * 134 * 2 + 1 = ((j * 268 : ℕ) : ℤ) + 1 := by omega
  have hhigh : ((j + 1 : ℕ) : ℤ) * 134 * 2 = (((j + 1) * 268 : ℕ) : ℤ) := by omega
  rw [submit]
  simp only [h, if_true]
  rw [hlow, hhigh, ssub_nat]
  congr 1
  omega

/-! ## The parts -/

/-- What the parts of a message with `n` bytes of text are. -/
structure Segmented (x : Item) (n : ℕ) (ms : List Submit) : Prop where
  text : ms.flatMap Submit.text = x.data
  count : ms.length = if n ≤ 140 then 1 else (n + 133) / 134
  udl : ∀ m ∈ ms, 2 * m.udl = (m.udhi ++ m.text).length ∧ m.udl ≤ 140
  /-- A single part has no header; the headers of several ones are six bytes long. -/
  udhi : if ms.length = 1 then ms.map Submit.udhi = [[]]
    else ∃ isn < 256, ms.map Submit.udhi = (List.range' 1 ms.length).map (header isn ms.length)
  fo : ∀ m ∈ ms, m.fo = if m.udhi = [] then lua "11" else lua "51"
  num : ∀ m ∈ ms, m.numlen = numlen x.num ∧ m.addr = numtobcdnum x.num

theorem header_length {isn total i : ℕ} (h1 : isn < 256) (h2 : total < 256) (h3 : i < 256) :
    (header isn total i).length = 12 := by
  simp only [header, List.length_append, hex_two_length h1, hex_two_length h2, hex_two_length h3]
  rfl

variable {x : Sent} {n : ℕ}

theorem pducnt_eq (hdata : x.item.data.length = 2 * n) :
    pducnt x.item.data = if n ≤ 140 then 1 else (n + 133) / 134 := by
  rw [pducnt, hdata, Nat.mul_div_cancel_left n (by decide)]
  split
  · rw [if_neg (by omega)]
  · rw [if_pos (by omega)]

theorem segmented_single (hdata : x.item.data.length = 2 * n) (hn : n ≤ 140) :
    Segmented x.item n ((List.range' 1 (pducnt x.item.data)).map (submit x)) := by
  have hcnt : pducnt x.item.data = 1 := by rw [pducnt_eq hdata, if_pos hn]
  have hsubmit : submit x 1 = ⟨lua "11", numlen x.item.num, numtobcdnum x.item.num, n, [],
      x.item.data⟩ := by
    rw [submit, hcnt, hdata, Nat.mul_div_cancel_left n (by decide)]
    rfl
  have hms : (List.range' 1 (pducnt x.item.data)).map (submit x) = [submit x 1] := by
    rw [hcnt]
    rfl
  rw [hms, hsubmit]
  constructor
  · simp
  · simp [hn]
  · intro m hm
    rw [List.mem_singleton.mp hm]
    exact ⟨by simp [hdata], hn⟩
  · simp
  · intro m hm
    rw [List.mem_singleton.mp hm]
    rfl
  · intro m hm
    rw [List.mem_singleton.mp hm]
    exact ⟨rfl, rfl⟩

theorem segmented_multiple (hdata : x.item.data.length = 2 * n) (hn : 140 < n)
    (hmax : n ≤ 255 * 134) (hisn : x.isn < 256) :
    Segmented x.item n ((List.range' 1 (pducnt x.item.data)).map (submit x)) := by
  have hcnt : pducnt x.item.data = (n + 133) / 134 := by
    rw [pducnt_eq hdata, if_neg (by omega)]
  have hmany : 1 < pducnt x.item.data := by omega
  have hsmall : pducnt x.item.data < 256 := by omega
  have hlen : ((List.range' 1 (pducnt x.item.data)).map (submit x)).length =
      pducnt x.item.data := by simp
  have hparts (m : Submit) (hm : m ∈ (List.range' 1 (pducnt x.item.data)).map (submit x)) :
      ∃ j < pducnt x.item.data, m = submit x (j + 1) := by
    obtain ⟨i, hi, rfl⟩ := List.mem_map.mp hm
    obtain ⟨h1, hi⟩ := List.mem_range'_1.mp hi
    exact ⟨i - 1, by omega, by rw [Nat.sub_add_cancel h1]⟩
  have hheader (j : ℕ) : (submit x (j + 1)).udhi = header x.isn (pducnt x.item.data) (j + 1) :=
    if_pos hmany
  have hhlen (j : ℕ) (hj : j < pducnt x.item.data) :
      (header x.isn (pducnt x.item.data) (j + 1)).length = 12 :=
    header_length hisn hsmall (by omega)
  constructor
  · have htext (j : ℕ) : (submit x (1 + j)).text = (x.item.data.drop (j * 268)).take 268 := by
      rw [Nat.add_comm, submit_text x j hmany]
    rw [List.range'_eq_map_range, List.map_map, List.flatMap_map]
    simp only [Function.comp_apply, htext]
    rw [pieces_flatten]
    apply List.take_of_length_le
    omega
  · rw [hlen, hcnt, if_neg (by omega)]
  · intro m hm
    obtain ⟨j, hj, rfl⟩ := hparts m hm
    rw [List.length_append, hheader, hhlen j hj, submit_text x j hmany, List.length_take,
      List.length_drop, hdata]
    have hudl : (submit x (j + 1)).udl =
        if j + 1 = pducnt x.item.data then n - (pducnt x.item.data - 1) * 134 + 6 else 140 := by
      rw [submit]
      simp only [hmany, if_true, hdata, Nat.mul_div_cancel_left n (show 0 < 2 by decide)]
    rw [hudl]
    split
    · omega
    · omega
  · rw [hlen, if_neg (by omega)]
    refine ⟨x.isn, hisn, ?_⟩
    rw [List.map_map]
    apply List.map_congr_left
    intro i hi
    exact if_pos hmany
  · intro m hm
    obtain ⟨j, hj, rfl⟩ := hparts m hm
    have hne : header x.isn (pducnt x.item.data) (j + 1) ≠ [] := by
      intro he
      have := hhlen j hj
      rw [he] at this
      cases this
    rw [hheader, if_neg hne]
    exact if_pos hmany
  · intro m hm
    obtain ⟨j, hj, rfl⟩ := hparts m hm
    exact ⟨rfl, rfl⟩

/-! ## The serial number -/

/-- The serial number is a byte. -/
theorem transmit_isn {y : Item} {s : State} (h : s.isn < 256) : (transmit y s).isn < 256 := by
  rw [transmit]
  split
  · rw [(reqs_eq _ _).1]
    dsimp only
    split
    · split <;> omega
    · exact h
  · exact h

theorem sndnxt_isn {b : Border Item} {s t : State} (h : s.isn < 256) (ht : sndnxt b s = some t) :
    t.isn < 256 := by
  rw [sndnxt] at ht
  split at ht
  · obtain ⟨y, -, rfl⟩ := Option.map_eq_some_iff.mp ht
    exact transmit_isn h
  · obtain rfl := Option.some.inj ht
    exact h

theorem spacing_isn {b : Border Item} {s : State} (h : s.isn < 256) : (spacing b s).isn < 256 := by
  rw [spacing]
  split <;> exact h

theorem sendcnf_isn {b : Border Item} {result : Bool} {s t : State} (h : s.isn < 256)
    (ht : sendcnf b result s = some t) : t.isn < 256 := by
  obtain ⟨y, -, rfl⟩ := Option.map_eq_some_iff.mp ht
  dsimp only
  split
  · exact h
  · exact spacing_isn h

theorem send_isn {encode : LuaString → LuaString} {b : Border Item} {num data : LuaString}
    {cb : Bool} {idx : Option ℕ} {s : State} (h : s.isn < 256) :
    (send encode b num data cb idx s).isn < 256 := by
  rw [send]
  split
  · exact h
  split
  · exact h
  dsimp only
  split
  · exact transmit_isn h
  · exact h

theorem rsp_isn {no : ℕ} {success : Bool} {s t : State} (h : s.isn < 256)
    (ht : rsp no success s = some t) : t.isn < 256 := by
  rw [rsp] at ht
  dsimp only at ht
  split at ht
  · cases ht
  split at ht
  · obtain rfl := Option.some.inj ht
    exact h
  split at ht
  · obtain rfl := Option.some.inj ht
    exact h
  · obtain rfl := Option.some.inj ht
    exact h

theorem step_isn {encode : LuaString → LuaString} {s t : State} {a : Act} (h : s.isn < 256)
    (ht : step encode s a = some t) : t.isn < 256 := by
  cases a with
  | send b num data cb idx =>
      obtain rfl := Option.some.inj ht
      exact send_isn h
  | urc data =>
      obtain ⟨-, ht⟩ := Option.ite_none_left_eq_some.mp ht
      obtain rfl := Option.some.inj ht
      rw [urc]
      split <;> exact h
  | request cmd =>
      obtain rfl := Option.some.inj ht
      exact h
  | sendat =>
      obtain ⟨q, -, rfl⟩ := Option.map_eq_some_iff.mp ht
      exact h
  | respond success =>
      simp only [step] at ht
      split at ht
      · exact rsp_isn (by exact h) ht
      · obtain rfl := Option.some.inj ht
        exact h
      · cases ht
  | msg b =>
      simp only [step] at ht
      split at ht
      · exact sendcnf_isn (by exact h) ht
      · exact sndnxt_isn (by exact h) ht
      · cases ht
  | timer b =>
      obtain ⟨-, ht⟩ := Option.ite_none_right_eq_some.mp ht
      exact sndnxt_isn (by exact h) ht
  | ret b =>
      obtain ⟨-, ht⟩ := Option.ite_none_right_eq_some.mp ht
      obtain rfl := Option.some.inj ht
      exact spacing_isn h

theorem reachable_isn {encode : LuaString → LuaString} {s : State}
    (h : Reachable (step encode) boot s) : s.isn < 256 :=
  h.invariant (fun _ _ _ hs ht => step_isn hs ht) (by decide)

/-! ## All lengths -/

theorem numlen_length {num : LuaString} (h : (unsigned num).length < 256) :
    (numlen num).length = 2 := by
  rw [numlen]
  rw [unsigned] at h
  by_cases hi : international num
  · rw [if_pos ((plus_iff num).mpr hi), hex_two_length]
    rwa [if_pos hi, List.length_tail] at h
  · rw [if_neg (mt (plus_iff num).mp hi), hex_two_length]
    rwa [if_neg hi] at h

theorem Segmented.even {y : Item} {ms : List Submit} (h : Segmented y n ms)
    (hnum : (unsigned y.num).length < 256) {m : Submit} (hm : m ∈ ms) :
    2 * (m.pdu.length / 2 - 1 + 1) = m.pdu.length := by
  obtain ⟨hudl, hmax⟩ := h.udl m hm
  obtain ⟨hnumlen, haddr⟩ := h.num m hm
  have hfo : m.fo.length = 2 := by
    rw [h.fo m hm]
    split <;> rfl
  have h00 : (lua "00").length = 2 := rfl
  have h10 : (lua "10").length = 2 := rfl
  have h000800 : (lua "000800").length = 6 := rfl
  rw [List.length_append] at hudl
  simp only [Submit.pdu, List.length_append, hex_two_length (show m.udl < 256 by omega), hfo,
    hnumlen, haddr, numlen_length hnum, numtobcdnum_length, h00, h10, h000800]
  omega

/-- The commands of a message of `n` bytes, in every state. The argument of a command is the
number of the bytes in front of it without the empty address, if the number has room for its
length. -/
theorem transmit_segmented {encode : LuaString → LuaString} {s : State}
    (hs : Reachable (step encode) boot s) (hready : s.ready = true) (y : Item)
    (hdata : y.data.length = 2 * n) (hn : n ≤ 255 * 134) :
    ∃ ms, (transmit y s).requests =
        s.requests ++ ms.map (fun m => .cmgs y.no (m.pdu.length / 2 - 1) m.pdu) ∧
      Segmented y n ms ∧
      ((unsigned y.num).length < 256 →
        ∀ m ∈ ms, 2 * (m.pdu.length / 2 - 1 + 1) = m.pdu.length) := by
  have hisn := transmit_isn (y := y) (reachable_isn hs)
  obtain ⟨isn, hsent⟩ : ∃ isn, transmit y s = reqs (segments ⟨y, isn⟩) { s with
      isn := isn
      tsend := s.tsend ++ [⟨pducnt y.data, 0, true⟩]
      sent := s.sent ++ [⟨y, isn⟩] } := by
    rw [transmit, if_pos hready]
    exact ⟨_, rfl⟩
  rw [hsent, (reqs_eq _ _).1] at hisn
  have hseg : Segmented y n ((List.range' 1 (pducnt y.data)).map (submit ⟨y, isn⟩)) := by
    by_cases hshort : n ≤ 140
    · exact segmented_single (x := ⟨y, isn⟩) hdata hshort
    · exact segmented_multiple (x := ⟨y, isn⟩) hdata (by omega) hn hisn
  refine ⟨_, ?_, hseg, fun hnum m hm => hseg.even hnum hm⟩
  rw [hsent, (reqs_eq _ _).1]
  show s.requests ++ segments ⟨y, isn⟩ = _
  rw [segments, List.map_map]
  congr 1
  apply List.map_congr_left
  intro i _
  simp only [Function.comp_apply, submit_pdu]

/-- A message of 141 bytes has two parts. -/
def longer : Item := ⟨lua "+8610086", List.replicate 282 48, false, 0⟩

theorem transmit_segmented_two : ∃ s ms, run (step id) boot [.urc (lua "SMS READY")] = some s ∧
    (transmit longer s).requests =
      s.requests ++ ms.map (fun m => .cmgs longer.no (m.pdu.length / 2 - 1) m.pdu) ∧
    Segmented longer 141 ms ∧ ∀ m ∈ ms, 2 * (m.pdu.length / 2 - 1 + 1) = m.pdu.length := by
  obtain ⟨s, hs, hready⟩ : ∃ s, run (step id) boot [.urc (lua "SMS READY")] = some s ∧
      s.ready = true := ⟨_, rfl, rfl⟩
  obtain ⟨ms, hreq, hseg, heven⟩ := transmit_segmented ⟨_, hs⟩ hready longer (n := 141)
    List.length_replicate (by decide)
  exact ⟨s, ms, hs, hreq, hseg, heven (by decide)⟩

end LuatAir200.SmsSend
