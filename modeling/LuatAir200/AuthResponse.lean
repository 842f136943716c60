import LuatAir200.LuaFind
import LuatAir200.Machine
import Mathlib.Data.List.Basic

/-!
# `aliyuniotauth.lua`: the response of the authentication server

`rcv` collects the response, and `parse` looks after each piece whether it is complete. What
`parsevalidbody` does with the body is left out; each of its calls is recorded with the
body and the number of bytes received until then.
-/
namespace LuatAir200.Auth
open Lua Machine

/-! ## The parser -/

def xdigit (c : UInt8) : ℕ :=
  if c ≤ 57 then c.toNat - 48 else if c ≤ 70 then c.toNat - 55 else c.toNat - 87

/-- `tonumber(s,16)`; a prefix `0x` is left out. -/
def tonumber16 (s : LuaString) : Option ℕ :=
  if s ≠ [] ∧ s.all isXDigit then some (s.foldl (fun n c => 16 * n + xdigit c) 0) else none

inductive Contentflg
  | chunk
  | len (n : ℕ)
  deriving DecidableEq

/-- The length is looked for twice; in the second pattern the `-` repeats the `t` before it. -/
def contentflg (headstr : LuaString) : Option Contentflg :=
  if (smatch headstr (lua "Transfer%-Encoding: chunked")).isSome ∨
      (smatch headstr (lua "Transfer%-Encoding: Chunked")).isSome then some .chunk
  else if (smatch headstr (lua "Content%-Length: %d+")).isSome then
    (smatch1 headstr (lua "Content-Length: (%d+)")).map fun n => .len (tonumber n)
  else none

/-- The loop over the chunks, with `rcvalidbody` and whether the last chunk was reached. `none` is
a Lua error: the length is no number. -/
def chunkloop : ℕ → LuaString → LuaString → Option (LuaString × Bool)
  | 0, _, v => some (v, false)
  | fuel + 1, rcvbody, v =>
      match sfind rcvbody (lua "(%w+)\r\n") with
      | some ([len], rest) =>
          (tonumber16 len).bind fun len =>
            if len = 0 then some (v, true)
            else chunkloop fuel (rest.drop len) (v ++ rest.take len)
      | _ => some (v, false)

structure State where
  rcvbuf : LuaString
  rcvalidbody : LuaString
  /-- The number of bytes received. -/
  rcvd : ℕ
  calls : List (ℕ × LuaString)
  deriving DecidableEq

/-- The socket has connected. -/
def connected : State := ⟨[], [], 0, []⟩

def parsevalidbody (s : State) : State :=
  { s with rcvbuf := [], calls := s.calls ++ [(s.rcvd, s.rcvalidbody)] }

def parse (s : State) : Option State :=
  match sfind s.rcvbuf (lua "\r\n\r\n") with
  | none => some s
  | some (_, rcvbody) =>
      let headstr := s.rcvbuf.take (s.rcvbuf.length - rcvbody.length)
      if (smatch headstr (lua "200 OK")).isNone then some s
      else
        match contentflg headstr with
        | none => some s
        | some .chunk =>
            let s := { s with rcvalidbody := [] }
            if (smatch rcvbody (lua "0\r\n\r\n")).isNone then some s
            else
              (chunkloop (rcvbody.length + 1) rcvbody []).map fun r =>
                let s := { s with rcvalidbody := r.1 }
                if r.2 then parsevalidbody s else s
        | some (.len n) =>
            if rcvbody.length ≠ n then some s
            else some (parsevalidbody { s with rcvalidbody := rcvbody })

def rcv (s : State) (data : LuaString) : Option State :=
  parse { s with rcvbuf := s.rcvbuf ++ data, rcvd := s.rcvd + data.length }

/-! ## Responses -/

/-- A chunk: its length in hexadecimal digits, and the data. -/
structure Chunk where
  size : LuaString
  data : LuaString
  deriving DecidableEq

structure Chunk.WellFormed (c : Chunk) : Prop where
  size : tonumber16 c.size = some c.data.length
  data : c.data ≠ []

def Chunk.wire (c : Chunk) : LuaString := c.size ++ lua "\r\n" ++ c.data ++ lua "\r\n"

inductive Body
  | length (body : LuaString)
  | chunked (chunks : List Chunk)
  deriving DecidableEq

/-- What is sent behind the head. -/
def Body.wire : Body → LuaString
  | .length body => body
  | .chunked cs => cs.flatMap Chunk.wire ++ lua "0\r\n\r\n"

/-- The body that is meant. -/
def Body.value : Body → LuaString
  | .length body => body
  | .chunked cs => cs.flatMap Chunk.data

/-- A response: a head up to its empty line, and the body. -/
structure Response where
  head : LuaString
  body : Body
  deriving DecidableEq

def Response.wire (r : Response) : LuaString := r.head ++ r.body.wire

/-- The first empty line ends the head, and the head says how the body is sent. -/
structure Response.WellFormed (r : Response) : Prop where
  status : lua "HTTP/1.1 200 OK\r\n" <+: r.head
  ends : lua "\r\n\r\n" <:+ r.head
  first : ¬lua "\r\n\r\n" <:+: r.head.dropLast
  body : match r.body with
    | .length body => (∃ ds : LuaString, ds ≠ [] ∧ (∀ x ∈ ds, isDigit x = true) ∧
        tonumber ds = body.length ∧
        lua "\r\nContent-Length: " ++ ds ++ lua "\r\n" <:+: r.head) ∧
        ¬lua "Transfer-Encoding: chunked" <:+: r.head ∧
        ¬lua "Transfer-Encoding: Chunked" <:+: r.head
    | .chunked cs => lua "\r\nTransfer-Encoding: chunked\r\n" <:+: r.head ∧ ∀ c ∈ cs, c.WellFormed

/-- The body is handed over once, when all of the response has been received. -/
def Right (r : Response) (pieces : List LuaString) : Prop :=
  ∃ s, run rcv connected pieces = some s ∧ s.calls = [(r.wire.length, r.body.value)] ∧
    s.rcvbuf = []

/-- The condition: the second pattern for the length finds it; and no piece ends one or two bytes
before the end of a chunked response in which the text of the last chunk occurs earlier. -/
def Found (r : Response) (pieces : List LuaString) : Prop :=
  match r.body with
  | .length body =>
      (smatch1 r.head (lua "Content-Length: (%d+)")).map tonumber = some body.length
  | .chunked _ => ∀ ps qs, pieces = ps ++ qs → ∀ k ∈ [1, 2],
      ps.flatten.length + k = r.wire.length →
        ¬lua "0\r\n\r\n" <:+: r.body.wire.take (r.body.wire.length - k)

/-! ## Lengths of chunks -/

def sizeItems : List Item :=
  [.openCap, .cls (.named 119) .plus, .closeCap, .cls (.char 13) .one, .cls (.char 10) .one]

theorem parse_size : Lua.parse (lua "(%w+)\r\n") = some ⟨false, sizeItems⟩ := by decide

/-- A word at the front, with its line end. -/
theorem sfind_word {w rest : LuaString} (hne : w ≠ []) (hw : ∀ c ∈ w, isAlnum c = true) :
    sfind (w ++ (lua "\r\n" ++ rest)) (lua "(%w+)\r\n") = some ([w], rest) := by
  have hmatch := matchItems_run (k := .named 119)
    (p := [.cls (.char 13) .one, .cls (.char 10) .one]) (x := 13) (t := 10 :: rest) hne hw rfl (matchItems_one rfl (matchItems_one rfl fun _ => rfl))
  exact sfind_front parse_size (hmatch _)

/-- No word begins with another byte. -/
theorem sfind_skip {c : UInt8} (hc : isAlnum c = false) (s : LuaString) :
    sfind (c :: s) (lua "(%w+)\r\n") = sfind s (lua "(%w+)\r\n") := by
  have hwhile : (c :: s).takeWhile (Lua.Class.named 119).accepts = [] := by
    have hc' : ¬(Lua.Class.named 119).accepts c = true := by
      rw [Bool.not_eq_true]
      exact hc
    rw [List.takeWhile_cons_of_neg hc']
  rw [sfind, sfind, parse_size, Option.bind_some, Option.bind_some]
  simp only [Bool.false_eq_true, if_false]
  rw [List.tails_cons, List.findSome?_cons, sizeItems, matchItems, matchItems, hwhile]
  rfl

/-- No line in the text ends with a word. -/
def NoWord (s : LuaString) : Prop := ∀ y t, isAlnum y = true → ¬(y :: 13 :: 10 :: t) <:+ s

theorem sfind_noWord {s : LuaString} (h : NoWord s) : sfind s (lua "(%w+)\r\n") = none := by
  rw [sfind, parse_size, Option.bind_some]
  simp only [Bool.false_eq_true, if_false]
  rw [List.findSome?_eq_none_iff]
  intro t ht
  rw [List.mem_tails] at ht
  rw [Option.map_eq_none_iff]
  by_contra hn
  obtain ⟨r, hr⟩ := Option.ne_none_iff_exists'.mp hn
  rw [sizeItems, matchItems, matchItems] at hr
  obtain ⟨k, hk, hr⟩ := List.exists_of_findSome?_eq_some hr
  rw [List.mem_reverse, List.mem_range] at hk
  -- the match ends a word, and a line behind it
  have hpre := List.takeWhile_prefix (l := t) (Lua.Class.named 119).accepts
  have hkt : k < t.length := hk.trans_le hpre.length_le
  have hword : isAlnum t[k] = true := by
    rw [← hpre.getElem hk]
    exact List.mem_takeWhile_imp (List.getElem_mem hk)
  obtain ⟨q, hq, -⟩ := Option.map_eq_some_iff.mp hr
  cases hd : t.drop (k + 1) with
  | nil =>
      rw [hd] at hq
      cases hq
  | cons a u =>
      rw [hd] at hq
      obtain ⟨ha, hq⟩ := Option.ite_none_right_eq_some.mp hq
      cases u with
      | nil => cases hq
      | cons b u =>
          obtain ⟨hb, -⟩ := Option.ite_none_right_eq_some.mp hq
          have ha : a = 13 := by simpa [Lua.Class.accepts] using ha
          have hb : b = 10 := by simpa [Lua.Class.accepts] using hb
          refine h t[k] u hword ?_
          rw [← ha, ← hb, ← hd, ← List.drop_eq_getElem_cons hkt]
          exact (List.drop_suffix k t).trans ht

/-! ## Chunks -/

theorem noWord_of_no_lf {s : LuaString} (h : ∀ c ∈ s, c ≠ 10) : NoWord s := by
  intro y t _ hs
  exact h 10 (hs.subset (by simp)) rfl

theorem NoWord.cons {c : UInt8} {s : LuaString} (h : NoWord s) (hc : isAlnum c = false) :
    NoWord (c :: s) := by
  intro y t hy hs
  obtain he | hs := List.suffix_cons_iff.mp hs
  · cases he
    rw [hc] at hy
    cases hy
  · exact h y t hy hs

theorem alnum_ne {c : UInt8} (h : isAlnum c = true) : c ≠ 10 := by
  rintro rfl
  cases h

/-- The line end of the chunk before is skipped. -/
inductive Gap : LuaString → Prop
  | none : Gap []
  | line : Gap (lua "\r\n")

theorem Gap.sfind {x : LuaString} (h : Gap x) (s : LuaString) :
    sfind (x ++ s) (lua "(%w+)\r\n") = Lua.sfind s (lua "(%w+)\r\n") := by
  cases h with
  | none => rfl
  | line => exact (sfind_skip rfl (10 :: s)).trans (sfind_skip rfl s)

theorem Gap.noWord {x w : LuaString} (h : Gap x) (hw : ∀ c ∈ w, isAlnum c = true) (m : ℕ) :
    NoWord ((x ++ (w ++ lua "\r")).take m) := by
  have hlf : ∀ c ∈ w ++ lua "\r", c ≠ 10 := by
    intro c hc
    obtain hc | hc := List.mem_append.mp hc
    · exact alnum_ne (hw c hc)
    · obtain rfl := List.mem_singleton.mp hc
      decide
  have hplain (k : ℕ) : NoWord ((w ++ lua "\r").take k) :=
    noWord_of_no_lf fun c hc => hlf c (List.mem_of_mem_take hc)
  cases h with
  | none => exact hplain m
  | line =>
      match m with
      | 0 => exact noWord_of_no_lf (fun c hc => absurd hc (by simp))
      | 1 =>
          have hone : NoWord [13] := noWord_of_no_lf (by simp)
          exact hone
      | k + 2 => exact ((hplain k).cons rfl).cons rfl

/-- A length is found as soon as its line is complete. -/
theorem sfind_take {x w t : LuaString} (h : Gap x) (hne : w ≠ [])
    (hw : ∀ c ∈ w, isAlnum c = true) (m : ℕ) :
    sfind ((x ++ (w ++ (lua "\r\n" ++ t))).take m) (lua "(%w+)\r\n") =
      if x.length + w.length + 2 ≤ m then some ([w], t.take (m - (x.length + w.length + 2)))
      else none := by
  split
  · rename_i hm
    have htake : (x ++ (w ++ (lua "\r\n" ++ t))).take m =
        x ++ (w ++ (lua "\r\n" ++ t.take (m - (x.length + w.length + 2)))) := by
      have hsplit : x ++ (w ++ (lua "\r\n" ++ t)) = (x ++ (w ++ lua "\r\n")) ++ t := by simp
      have hlen : x.length + w.length + 2 = (x ++ (w ++ lua "\r\n")).length := by
        simp only [List.length_append, show (lua "\r\n").length = 2 from rfl]
        omega
      rw [hlen] at hm ⊢
      obtain ⟨k, rfl⟩ := Nat.exists_eq_add_of_le hm
      rw [hsplit, List.take_length_add_append, Nat.add_sub_cancel_left]
      simp
    rw [htake, h.sfind, sfind_word hne hw]
  · rename_i hm
    have htake : (x ++ (w ++ (lua "\r\n" ++ t))).take m = (x ++ (w ++ lua "\r")).take m := by
      have hsplit : x ++ (w ++ (lua "\r\n" ++ t)) = x ++ (w ++ lua "\r") ++ (lua "\n" ++ t) := by
        simp [lua]
      rw [hsplit, List.take_append_of_le_length]
      simp only [List.length_append, show (lua "\r").length = 1 from rfl]
      omega
    rw [htake, sfind_noWord (h.noWord hw m)]

theorem tonumber16_alnum {w : LuaString} {n : ℕ} (h : tonumber16 w = some n) :
    w ≠ [] ∧ ∀ c ∈ w, isAlnum c = true := by
  obtain ⟨⟨hne, hall⟩, -⟩ := Option.ite_none_right_eq_some.mp h
  refine ⟨hne, fun c hc => ?_⟩
  have hx : isXDigit c = true := List.all_eq_true.mp hall c hc
  simp only [isXDigit, Bool.or_eq_true, Bool.and_eq_true, decide_eq_true_eq,
    UInt8.le_iff_toNat_le] at hx
  simp only [isAlnum, isAlpha, isUpper, isLower, Bool.or_eq_true, Bool.and_eq_true,
    decide_eq_true_eq, UInt8.le_iff_toNat_le]
  obtain (hd | ⟨hlo, hhi⟩) | ⟨hlo, hhi⟩ := hx
  · exact .inr hd
  · exact .inl (.inl ⟨hlo, hhi.trans (by decide)⟩)
  · exact .inl (.inr ⟨hlo, hhi.trans (by decide)⟩)

/-- What is sent behind the head of a chunked response. -/
abbrev stream (cs : List Chunk) : LuaString := (Body.chunked cs).wire

theorem stream_nil : stream [] = lua "0" ++ (lua "\r\n" ++ lua "\r\n") := rfl

theorem stream_cons (c : Chunk) (cs : List Chunk) :
    stream (c :: cs) = c.size ++ (lua "\r\n" ++ (c.data ++ (lua "\r\n" ++ stream cs))) := by
  simp [stream, Body.wire, Chunk.wire]

/-- The loop reaches the last chunk as soon as the line of its length is complete. -/
theorem chunkloop_take {cs : List Chunk} (hcs : ∀ c ∈ cs, c.WellFormed) {x : LuaString} (hx : Gap x)
    (m : ℕ) {fuel : ℕ} (hf : ((x ++ stream cs).take m).length < fuel) (v : LuaString) :
    ∃ v', chunkloop fuel ((x ++ stream cs).take m) v =
        some (v', decide ((x ++ stream cs).length ≤ m + 2)) ∧
      ((x ++ stream cs).length ≤ m + 2 → v' = v ++ cs.flatMap Chunk.data) := by
  induction cs generalizing x m fuel v with
  | nil =>
      obtain ⟨f, rfl⟩ := Nat.exists_eq_succ_of_ne_zero (by omega : fuel ≠ 0)
      have hfind := sfind_take (w := lua "0") (t := lua "\r\n") hx (by decide)
        (List.all_eq_true.mp (by decide)) m
      have hlen : (x ++ stream []).length = x.length + (lua "0").length + 2 + 2 := by
        rw [stream_nil]
        simp only [List.length_append, show (lua "\r\n").length = 2 from rfl]
        omega
      rw [chunkloop, stream_nil, hfind, ← stream_nil, hlen]
      have hzero : tonumber16 (lua "0") = some 0 := by decide
      by_cases hm : x.length + (lua "0").length + 2 ≤ m
      · rw [if_pos hm]
        dsimp only
        rw [hzero, Option.bind_some, if_pos rfl, decide_eq_true (Nat.add_le_add_right hm 2)]
        exact ⟨v, rfl, fun _ => by simp⟩
      · rw [if_neg hm, decide_eq_false (by omega)]
        exact ⟨v, rfl, fun h => absurd h (by omega)⟩
  | cons c cs ih =>
      obtain ⟨f, rfl⟩ := Nat.exists_eq_succ_of_ne_zero (by omega : fuel ≠ 0)
      obtain ⟨hsize, hdata⟩ := hcs c List.mem_cons_self
      have hrest : ∀ d ∈ cs, d.WellFormed := fun d hd => hcs d (List.mem_cons_of_mem c hd)
      obtain ⟨hne, hw⟩ := tonumber16_alnum hsize
      have hfind := sfind_take (w := c.size) (t := c.data ++ (lua "\r\n" ++ stream cs)) hx hne hw m
      have hpos := List.length_pos_of_ne_nil hne
      have hcrlf : (lua "\r\n").length = 2 := rfl
      have hlast : 5 ≤ (stream cs).length := by
        rw [stream, Body.wire, List.length_append]
        exact Nat.le_add_left 5 _
      have hlen : (x ++ stream (c :: cs)).length =
          x.length + c.size.length + 2 + (c.data.length + (lua "\r\n" ++ stream cs).length) := by
        rw [stream_cons]
        simp only [List.length_append, hcrlf]
        omega
      rw [List.length_take, hlen] at hf
      rw [chunkloop, stream_cons, hfind, ← stream_cons, hlen]
      rw [List.length_append, hcrlf] at hf ⊢
      by_cases hm : x.length + c.size.length + 2 ≤ m
      · -- the data that has come, and the chunks behind it
        have hzero : c.data.length ≠ 0 := by simpa using hdata
        have hdrop : ((c.data ++ (lua "\r\n" ++ stream cs)).take
            (m - (x.length + c.size.length + 2))).drop c.data.length =
              (lua "\r\n" ++ stream cs).take
                (m - (x.length + c.size.length + 2) - c.data.length) := by
          rw [List.drop_take, List.drop_left]
        have hshort : ((lua "\r\n" ++ stream cs).take
            (m - (x.length + c.size.length + 2) - c.data.length)).length < f := by
          rw [List.length_take, List.length_append, hcrlf]
          omega
        obtain ⟨v', hloop, hv'⟩ := ih hrest Gap.line _ hshort
          (v ++ ((c.data ++ (lua "\r\n" ++ stream cs)).take
            (m - (x.length + c.size.length + 2))).take c.data.length)
        rw [List.length_append, hcrlf] at hloop hv'
        rw [if_pos hm]
        dsimp only
        rw [hsize, Option.bind_some, if_neg hzero, hdrop, hloop]
        refine ⟨v', ?_, fun h => ?_⟩
        · congr 2
          apply decide_eq_decide.mpr
          omega
        · rw [hv' (by omega), List.take_take, Nat.min_eq_left (by omega), List.take_left]
          simp
      · rw [if_neg hm, decide_eq_false (by omega)]
        exact ⟨v, rfl, fun h => absurd h (by omega)⟩

/-! ## The head -/

theorem parse_crlf : Lua.parse (lua "\r\n\r\n") =
    some ⟨false, ((lua "\r\n\r\n").map escaped).map (.cls · .one)⟩ := by
  decide

theorem parse_last : Lua.parse (lua "0\r\n\r\n") =
    some ⟨false, ((lua "0\r\n\r\n").map escaped).map (.cls · .one)⟩ := by
  decide

theorem parse_status : Lua.parse (lua "200 OK") =
    some ⟨false, ((lua "200 OK").map escaped).map (.cls · .one)⟩ := by
  decide

theorem parse_chunked : Lua.parse (lua "Transfer%-Encoding: chunked") =
    some ⟨false, ((lua "Transfer-Encoding: chunked").map escaped).map (.cls · .one)⟩ := by
  decide

theorem parse_Chunked : Lua.parse (lua "Transfer%-Encoding: Chunked") =
    some ⟨false, ((lua "Transfer-Encoding: Chunked").map escaped).map (.cls · .one)⟩ := by
  decide

theorem parse_length : Lua.parse (lua "Content%-Length: %d+") =
    some ⟨false, ((lua "Content-Length: ").map escaped).map (.cls · .one) ++
      [.cls (.named 100) .plus]⟩ := by
  decide

theorem status_found {head : LuaString} (h : lua "HTTP/1.1 200 OK\r\n" <+: head) :
    (smatch head (lua "200 OK")).isSome := by
  rw [smatch_plain parse_status (escaped_accept _)]
  have hi : lua "200 OK" <:+: lua "HTTP/1.1 200 OK\r\n" := by decide
  exact hi.trans h.isInfix

theorem chunked_found {head : LuaString} (h : lua "\r\nTransfer-Encoding: chunked\r\n" <:+: head) :
    contentflg head = some .chunk := by
  have hs : (smatch head (lua "Transfer%-Encoding: chunked")).isSome := by
    rw [smatch_plain parse_chunked (escaped_accept _)]
    have hi : lua "Transfer-Encoding: chunked" <:+: lua "\r\nTransfer-Encoding: chunked\r\n" := by
      decide
    exact hi.trans h
  rw [contentflg, if_pos (.inl hs)]

/-- The first pattern for the length finds it. -/
theorem length_found {head ds : LuaString} (hne : ds ≠ []) (hd : ∀ x ∈ ds, isDigit x = true)
    (h : lua "\r\nContent-Length: " ++ ds ++ lua "\r\n" <:+: head) :
    (smatch head (lua "Content%-Length: %d+")).isSome := by
  rw [smatch_isSome parse_length]
  obtain ⟨a, t, ht⟩ := h
  refine ⟨lua "Content-Length: " ++ (ds ++ lua "\r\n" ++ t), ⟨a ++ lua "\r\n", ?_⟩, ?_⟩
  · rw [← ht]
    have hsplit : lua "\r\nContent-Length: " = lua "\r\n" ++ lua "Content-Length: " := rfl
    simp [hsplit]
  · have hpre : (lua "Content-Length: ").isPrefixOf
        (lua "Content-Length: " ++ (ds ++ lua "\r\n" ++ t)) = true := by
      rw [List.isPrefixOf_iff_prefix]
      exact List.prefix_append _ _
    rw [matchItems_text (escaped_accept _), if_pos hpre, List.drop_left]
    have hassoc : ds ++ lua "\r\n" ++ t = ds ++ 13 :: 10 :: t := List.append_assoc ds _ t
    have hrun := matchItems_plusRun (k := .named 100) (p := []) (x := 13) (t := 10 :: t) hne hd rfl
      (fun _ => rfl)
    rw [hassoc, hrun]
    rfl

/-- What the head says of the length. -/
theorem contentflg_length {head ds : LuaString} (hne : ds ≠ []) (hd : ∀ x ∈ ds, isDigit x = true)
    (h : lua "\r\nContent-Length: " ++ ds ++ lua "\r\n" <:+: head)
    (hc : ¬lua "Transfer-Encoding: chunked" <:+: head)
    (hC : ¬lua "Transfer-Encoding: Chunked" <:+: head) :
    contentflg head =
      ((smatch1 head (lua "Content-Length: (%d+)")).map tonumber).map Contentflg.len := by
  have hno : ¬((smatch head (lua "Transfer%-Encoding: chunked")).isSome ∨
      (smatch head (lua "Transfer%-Encoding: Chunked")).isSome) := by
    rw [smatch_plain parse_chunked (escaped_accept _),
      smatch_plain parse_Chunked (escaped_accept _)]
    exact not_or.mpr ⟨hc, hC⟩
  rw [contentflg, if_neg hno, if_pos (length_found hne hd h), Option.map_map]
  rfl

/-! ## A prefix of the response -/

variable {r : Response}

theorem head_short (h : r.WellFormed) {m : ℕ} (hm : m < r.head.length) :
    sfind (r.wire.take m) (lua "\r\n\r\n") = none := by
  refine sfind_eq_none parse_crlf (escaped_accept _) (by decide) fun hi => h.first (hi.trans ?_)
  rw [Response.wire, List.take_append_of_le_length hm.le, List.dropLast_eq_take]
  have hle : m ≤ r.head.length - 1 := by omega
  exact (List.take_prefix_take_left hle).isInfix

theorem wire_take {m : ℕ} (hm : r.head.length ≤ m) :
    r.wire.take m = r.head ++ r.body.wire.take (m - r.head.length) := by
  obtain ⟨k, rfl⟩ := Nat.exists_eq_add_of_le hm
  rw [Response.wire, List.take_length_add_append, Nat.add_sub_cancel_left]

theorem head_found (h : r.WellFormed) (b : LuaString) :
    sfind (r.head ++ b) (lua "\r\n\r\n") = some ([], b) := by
  obtain ⟨a, ha⟩ := h.ends
  rw [← ha]
  refine sfind_first parse_crlf (escaped_accept _) (by decide) ?_ b
  rw [ha]
  exact h.first

/-- Does `parse` hand over the body when the first `m` bytes have been received? -/
def Fires (r : Response) (m : ℕ) : Prop :=
  r.head.length ≤ m ∧ match r.body with
    | .length _ =>
        (smatch1 r.head (lua "Content-Length: (%d+)")).map tonumber = some (m - r.head.length)
    | .chunked cs => lua "0\r\n\r\n" <:+: (stream cs).take (m - r.head.length) ∧
        (stream cs).length ≤ m - r.head.length + 2

theorem parse_take (h : r.WellFormed) {m : ℕ} (hle : m ≤ r.wire.length) {s : State}
    (hs : s.rcvbuf = r.wire.take m) :
    (Fires r m ∧ ∃ v, parse s = some (parsevalidbody { s with rcvalidbody := v }) ∧
        (r.wire.length ≤ m → v = r.body.value)) ∨
      (¬Fires r m ∧ ∃ v, parse s = some { s with rcvalidbody := v }) := by
  by_cases hm : r.head.length ≤ m
  · have hwire := wire_take (r := r) hm
    have hhead : (r.head ++ r.body.wire.take (m - r.head.length)).take
        ((r.head ++ r.body.wire.take (m - r.head.length)).length -
          (r.body.wire.take (m - r.head.length)).length) = r.head := by
      rw [List.length_append, Nat.add_sub_cancel, List.take_left]
    have hok : (smatch r.head (lua "200 OK")).isNone = false := by
      simpa using status_found h.status
    rw [parse, hs, hwire, head_found h]
    dsimp only
    rw [hhead, hok, if_neg Bool.false_ne_true]
    have hbody := h.body
    unfold Fires
    cases hr : r.body with
    | length body =>
        rw [hr] at hbody
        obtain ⟨⟨ds, hne, hd, -, hline⟩, hc, hC⟩ := hbody
        rw [contentflg_length hne hd hline hc hC]
        have hlen : (body.take (m - r.head.length)).length = m - r.head.length := by
          rw [Response.wire, hr, Body.wire, List.length_append] at hle
          rw [List.length_take]
          omega
        cases hn : (smatch1 r.head (lua "Content-Length: (%d+)")).map tonumber with
        | none =>
            refine .inr ⟨nofun, s.rcvalidbody, ?_⟩
            rw [Option.map_none]
            dsimp only
            rw [← hr, ← hwire, ← hs]
        | some n =>
            rw [Option.map_some]
            dsimp only
            rw [Body.wire, hlen]
            by_cases hmn : m - r.head.length = n
            · refine .inl ⟨⟨hm, congrArg some hmn.symm⟩, _, if_neg (not_not.mpr hmn),
                fun hfull => ?_⟩
              rw [Body.value, List.take_of_length_le]
              rw [Response.wire, hr, Body.wire, List.length_append] at hfull
              omega
            · refine .inr ⟨fun hf => hmn (Option.some.inj hf.2).symm, s.rcvalidbody, ?_⟩
              rw [if_pos hmn]
              have hbuf : r.head ++ body.take (m - r.head.length) = s.rcvbuf := by
                rw [hs, hwire, hr, Body.wire]
              rw [hbuf]
    | chunked cs =>
        rw [hr] at hbody
        rw [chunked_found hbody.1]
        dsimp only
        have hbuf : r.head ++ (stream cs).take (m - r.head.length) = s.rcvbuf := by
          rw [hs, hwire, hr]
        by_cases hi : lua "0\r\n\r\n" <:+: (stream cs).take (m - r.head.length)
        · have hsome : (smatch ((stream cs).take (m - r.head.length)) (lua "0\r\n\r\n")).isNone =
              false := by
            simpa using (smatch_plain parse_last (escaped_accept _) _).mpr hi
          obtain ⟨v, hloop, hv⟩ := chunkloop_take hbody.2 Gap.none (m - r.head.length)
            (Nat.lt_succ_self _) []
          rw [List.nil_append] at hloop hv
          rw [hsome, if_neg Bool.false_ne_true, hloop, Option.map_some]
          by_cases hl : (stream cs).length ≤ m - r.head.length + 2
          · refine .inl ⟨⟨hm, hi, hl⟩, v, ?_, fun _ => ?_⟩
            · rw [decide_eq_true hl, if_pos rfl, hbuf]
            · rw [hv hl, List.nil_append]
              rfl
          · refine .inr ⟨fun hf => hl hf.2.2, v, ?_⟩
            rw [decide_eq_false hl, if_neg Bool.false_ne_true, hbuf]
        · have hnone : (smatch ((stream cs).take (m - r.head.length)) (lua "0\r\n\r\n")).isNone =
              true := by
            rw [Option.isNone_iff_eq_none, ← Option.not_isSome_iff_eq_none,
              smatch_plain parse_last (escaped_accept _)]
            exact hi
          refine .inr ⟨fun hf => hi hf.2.1, [], ?_⟩
          rw [hnone, if_pos rfl, hbuf]
  · refine .inr ⟨fun hf => hm hf.1, s.rcvalidbody, ?_⟩
    rw [parse, hs, head_short h (Nat.lt_of_not_le hm)]
    dsimp only
    rw [← hs]

/-! ## Pieces -/

theorem parse_calls {s t : State} (h : parse s = some t) : s.calls <+: t.calls := by
  unfold parse at h
  split at h
  · cases h
    exact List.prefix_rfl
  dsimp only at h
  split at h
  · cases h
    exact List.prefix_rfl
  split at h
  · cases h
    exact List.prefix_rfl
  · split at h
    · cases h
      exact List.prefix_rfl
    · obtain ⟨q, -, rfl⟩ := Option.map_eq_some_iff.mp h
      split
      · exact List.prefix_append _ _
      · exact List.prefix_rfl
  · split at h
    · cases h
      exact List.prefix_rfl
    · cases h
      exact List.prefix_append _ _

theorem run_calls {s t : State} {qs : List LuaString} (h : run rcv s qs = some t) :
    s.calls <+: t.calls := by
  induction qs generalizing s with
  | nil =>
      obtain rfl := Option.some.inj h
      exact List.prefix_rfl
  | cons q qs ih =>
      obtain ⟨u, hu, h⟩ := run_cons_eq_some.mp h
      exact (parse_calls hu).trans (ih h)

/-- Empty pieces after the end do nothing. -/
theorem run_empty {s : State} (hs : s.rcvbuf = []) {qs : List LuaString} (hq : qs.flatten = []) :
    run rcv s qs = some s := by
  induction qs with
  | nil => rfl
  | cons q qs ih =>
      rw [List.flatten_cons, List.append_eq_nil_iff] at hq
      refine run_cons_eq_some.mpr ⟨s, ?_, ih hq.2⟩
      have hnone : sfind s.rcvbuf (lua "\r\n\r\n") = none := by
        rw [hs]
        decide
      rw [rcv, hq.1, List.append_nil, parse]
      dsimp only
      rw [hnone]
      rfl

/-- The response has come up to a cut, and the body has not been handed over. -/
structure Waiting (r : Response) (ps : List LuaString) (s : State) : Prop where
  rcvbuf : s.rcvbuf = ps.flatten
  rcvd : s.rcvd = ps.flatten.length
  calls : s.calls = []

/-- Without the body nothing happens after the end. -/
theorem run_idle (h : r.WellFormed) (hn : ¬Fires r r.wire.length) {s t : State}
    (hs : s.rcvbuf = r.wire) {qs : List LuaString} (hq : qs.flatten = [])
    (ht : run rcv s qs = some t) : t.calls = s.calls := by
  induction qs generalizing s with
  | nil =>
      obtain rfl := Option.some.inj ht
      rfl
  | cons q qs ih =>
      rw [List.flatten_cons, List.append_eq_nil_iff] at hq
      obtain ⟨u, hu, ht⟩ := run_cons_eq_some.mp ht
      rw [rcv, hq.1, List.append_nil] at hu
      have hfull : s.rcvbuf = r.wire.take r.wire.length := by rw [hs, List.take_length]
      obtain ⟨hf, -⟩ | ⟨-, v, hv⟩ := parse_take (s := { s with
        rcvbuf := s.rcvbuf, rcvd := s.rcvd + ([] : LuaString).length }) h le_rfl hfull
      · exact absurd hf hn
      · rw [hv] at hu
        cases hu
        exact ih (s := { s with
          rcvbuf := s.rcvbuf, rcvd := s.rcvd + ([] : LuaString).length, rcvalidbody := v })
            hs hq.2 ht

/-- A cut behind another piece. -/
theorem cuts_cons {P : List LuaString → Prop} (q : LuaString) (qs : List LuaString) :
    (∀ as bs, q :: qs = as ++ bs → as ≠ [] → P as) ↔
      P [q] ∧ ∀ as bs, qs = as ++ bs → as ≠ [] → P (q :: as) := by
  constructor
  · intro h
    refine ⟨h [q] qs rfl (List.cons_ne_nil _ _), fun as bs hq _ => ?_⟩
    exact h (q :: as) bs (by rw [hq, List.cons_append]) (List.cons_ne_nil _ _)
  · rintro ⟨hone, h⟩ as bs hq hne
    cases as with
    | nil => exact absurd rfl hne
    | cons a as =>
        rw [List.cons_append, List.cons.injEq] at hq
        obtain ⟨rfl, hq⟩ := hq
        cases as with
        | nil => exact hone
        | cons b as => exact h (b :: as) bs hq (List.cons_ne_nil _ _)

/-- The body is handed over right exactly if it is when all has come, and at no cut before. -/
theorem run_right (h : r.WellFormed) {ps qs : List LuaString} {s : State} (hs : Waiting r ps s)
    (hw : ps.flatten ++ qs.flatten = r.wire) (hlt : ps.flatten.length < r.wire.length) :
    (∃ t, run rcv s qs = some t ∧ t.calls = [(r.wire.length, r.body.value)] ∧ t.rcvbuf = []) ↔
      Fires r r.wire.length ∧ ∀ as bs, qs = as ++ bs → as ≠ [] →
        (ps ++ as).flatten.length < r.wire.length → ¬Fires r (ps ++ as).flatten.length := by
  induction qs generalizing ps s with
  | nil =>
      rw [List.flatten_nil, List.append_nil] at hw
      rw [hw] at hlt
      exact absurd hlt (lt_irrefl _)
  | cons q qs ih =>
      have hflat : (ps ++ [q]).flatten = ps.flatten ++ q := by simp
      have hw' : (ps ++ [q]).flatten ++ qs.flatten = r.wire := by
        rw [hflat, List.append_assoc, ← List.flatten_cons, hw]
      have hpre : (ps ++ [q]).flatten = r.wire.take (ps ++ [q]).flatten.length := by
        rw [← hw', List.take_left]
      have hle : (ps ++ [q]).flatten.length ≤ r.wire.length := by
        rw [← hw', List.length_append]
        exact Nat.le_add_right _ _
      have hbuf : s.rcvbuf ++ q = (ps ++ [q]).flatten := by rw [hs.rcvbuf, hflat]
      have hrcvd : s.rcvd + q.length = (ps ++ [q]).flatten.length := by
        rw [hs.rcvd, hflat, List.length_append]
      have hstep := parse_take (s := { s with
        rcvbuf := s.rcvbuf ++ q, rcvd := s.rcvd + q.length }) h hle (hbuf.trans hpre)
      rw [cuts_cons]
      obtain ⟨hf, v, hv, hfull⟩ | ⟨hf, v, hv⟩ := hstep
      · by_cases hm : (ps ++ [q]).flatten.length < r.wire.length
        · -- the body is handed over too early
          constructor
          · rintro ⟨t, ht, hcalls, -⟩
            obtain ⟨u, hu, ht⟩ := run_cons_eq_some.mp ht
            rw [rcv, hv] at hu
            cases hu
            have hprefix := run_calls ht
            rw [hcalls, parsevalidbody, hs.calls, hrcvd, List.nil_append,
              List.prefix_cons_iff] at hprefix
            obtain hnil | ⟨l, hl, -⟩ := hprefix
            · cases hnil
            · have hlen : (ps ++ [q]).flatten.length = r.wire.length :=
                (Prod.mk.inj (List.cons.inj hl).1).1
              exact absurd hlen hm.ne
          · rintro ⟨-, hno, -⟩
            exact absurd hf (hno hm)
        · have heq : (ps ++ [q]).flatten.length = r.wire.length := by omega
          have hempty : qs.flatten = [] := by
            have hlen := congrArg List.length hw'
            rw [List.length_append] at hlen
            exact List.length_eq_zero_iff.mp (by omega)
          constructor
          · intro _
            rw [heq] at hf
            refine ⟨hf, fun hlt' => absurd hlt' hm, fun as bs _ _ hlt' => absurd hlt' ?_⟩
            simp only [List.flatten_append, List.flatten_cons, List.length_append,
              List.flatten_nil, List.append_nil] at heq ⊢
            omega
          · intro _
            refine ⟨_, run_cons_eq_some.mpr ⟨_, hv, run_empty rfl hempty⟩, ?_, rfl⟩
            rw [parsevalidbody, hs.calls, List.nil_append]
            dsimp only
            rw [hrcvd, heq, hfull heq.ge]
      · have hnext : Waiting r (ps ++ [q]) { s with
            rcvbuf := s.rcvbuf ++ q, rcvd := s.rcvd + q.length, rcvalidbody := v } :=
          ⟨hbuf, hrcvd, hs.calls⟩
        have hrun (t : State) : run rcv s (q :: qs) = some t ↔ run rcv { s with
            rcvbuf := s.rcvbuf ++ q, rcvd := s.rcvd + q.length, rcvalidbody := v } qs = some t := by
          rw [run_cons_eq_some]
          constructor
          · rintro ⟨u, hu, ht⟩
            rw [rcv, hv] at hu
            cases hu
            exact ht
          · exact fun ht => ⟨_, hv, ht⟩
        simp only [hrun]
        by_cases hm : (ps ++ [q]).flatten.length < r.wire.length
        · rw [ih hnext hw' hm]
          simp only [List.append_assoc, List.singleton_append]
          exact ⟨fun ⟨hfull, hno⟩ => ⟨hfull, fun _ => hf, hno⟩, fun ⟨hfull, _, hno⟩ => ⟨hfull, hno⟩⟩
        · have heq : (ps ++ [q]).flatten.length = r.wire.length := by omega
          have hempty : qs.flatten = [] := by
            have hlen := congrArg List.length hw'
            rw [List.length_append] at hlen
            exact List.length_eq_zero_iff.mp (by omega)
          rw [heq] at hf
          constructor
          · rintro ⟨t, ht, hcalls, -⟩
            have hwire : s.rcvbuf ++ q = r.wire := by
              rw [hbuf, ← hw', hempty, List.append_nil]
            have hidle := run_idle h hf hwire hempty ht
            rw [hcalls, hs.calls] at hidle
            cases hidle
          · rintro ⟨hfull, -⟩
            exact absurd hfull hf

/-- The body is handed over once and right exactly if the condition is met: a length is found only
where the `t` stands in place of the `-`, and a chunked body must not be cut within its last two
bytes when its last line occurs before. -/
theorem response_right_iff (h : r.WellFormed) {pieces : List LuaString}
    (hp : pieces.flatten = r.wire) : Right r pieces ↔ Found r pieces := by
  have hhead : 4 ≤ r.head.length := h.ends.length_le
  have hstart : Waiting r [] connected := ⟨rfl, rfl, rfl⟩
  have hlt : ([] : List LuaString).flatten.length < r.wire.length := by
    rw [Response.wire, List.length_append]
    exact Nat.lt_add_right _ (by simpa using hhead.trans_lt' (by decide))
  rw [Right, run_right h hstart hp hlt]
  simp only [List.nil_append]
  unfold Fires Found
  have hwire : r.wire.length = r.head.length + r.body.wire.length := by
    rw [Response.wire, List.length_append]
  cases hr : r.body with
  | length body =>
      rw [hr, Body.wire] at hwire
      constructor
      · rintro ⟨⟨-, hn⟩, -⟩
        rw [hn, hwire, Nat.add_sub_cancel_left]
      · intro hn
        refine ⟨⟨by omega, ?_⟩, fun as bs _ _ hlt' hf => ?_⟩
        · rw [hn, hwire, Nat.add_sub_cancel_left]
        · have hlen := Option.some.inj (hn.symm.trans hf.2)
          have hle := hf.1
          omega
  | chunked cs =>
      rw [hr] at hwire
      have hwire : r.wire.length = r.head.length + (stream cs).length := hwire
      have hlast : lua "0\r\n\r\n" <:+ stream cs := List.suffix_append _ _
      have hfive : 5 ≤ (stream cs).length := hlast.length_le
      constructor
      · rintro ⟨-, hno⟩ ps qs hsplit k hk hcut hi
        have hk2 : 1 ≤ k ∧ k ≤ 2 := by
          simp only [List.mem_cons, List.not_mem_nil, or_false] at hk
          omega
        have hne : ps ≠ [] := by
          rintro rfl
          rw [List.flatten_nil, List.length_nil] at hcut
          omega
        have hm : ps.flatten.length - r.head.length = (stream cs).length - k := by omega
        refine hno ps qs hsplit hne (by omega) ⟨by omega, ?_, by omega⟩
        rw [hm]
        exact hi
      · intro hcut
        refine ⟨⟨by omega, ?_, by omega⟩, ?_⟩
        · rw [hwire, Nat.add_sub_cancel_left, List.take_length]
          exact hlast.isInfix
        · rintro as bs hsplit - hlt' ⟨hle, hi, hlen⟩
          have hk : r.wire.length - as.flatten.length ∈ [1, 2] := by
            simp only [List.mem_cons, List.not_mem_nil, or_false]
            omega
          refine hcut as bs hsplit _ hk (by omega) ?_
          have hm : (stream cs).length - (r.wire.length - as.flatten.length) =
              as.flatten.length - r.head.length := by
            omega
          rw [hm]
          exact hi

/-- A response with a length, as a server sends it. -/
def sized : Response :=
  ⟨lua "HTTP/1.1 200 OK\r\nContent-Length: 2\r\n\r\n", .length (lua "\x7b\x7d")⟩

theorem sized_wellFormed : sized.WellFormed where
  status := by decide
  ends := by decide
  first := by decide
  body := ⟨⟨lua "2", by decide, List.all_eq_true.mp (by decide), by decide, by decide⟩, by decide,
    by decide⟩

/-- The pattern with the `-` does not find the length, and the body is never handed over. -/
theorem length_not_found : sized.WellFormed ∧ ¬Right sized [sized.wire] := by
  refine ⟨sized_wellFormed, ?_⟩
  rintro ⟨t, ht, hcalls, -⟩
  have hnone : (run rcv connected [sized.wire]).map State.calls = some [] := by
    decide +kernel
  rw [ht, Option.map_some, hcalls] at hnone
  cases hnone

/-- A response in which the text of the last chunk occurs in another one. -/
def echoed : Response :=
  ⟨lua "HTTP/1.1 200 OK\r\nTransfer-Encoding: chunked\r\n\r\n",
    .chunked [⟨lua "7", lua "\x7b0\r\n\r\n\x7d"⟩]⟩

theorem echoed_wellFormed : echoed.WellFormed where
  status := by decide
  ends := by decide
  first := by decide
  body := by
    refine ⟨by decide, fun c hc => ?_⟩
    obtain rfl := List.mem_singleton.mp hc
    exact ⟨by decide, by decide⟩

/-- In one piece it is handed over right. -/
theorem response_right_echoed : Right echoed [echoed.wire] := by
  refine (response_right_iff echoed_wellFormed (by simp)).mpr fun ps qs hsplit k hk hcut => ?_
  have hk2 : 1 ≤ k ∧ k ≤ 2 := by
    simp only [List.mem_cons, List.not_mem_nil, or_false] at hk
    omega
  have hlen : echoed.wire.length = 64 := by decide
  rw [hlen] at hcut
  cases ps with
  | nil =>
      rw [List.flatten_nil, List.length_nil] at hcut
      omega
  | cons p ps =>
      rw [List.cons_append, List.cons.injEq] at hsplit
      rw [List.flatten_cons, List.length_append, ← hsplit.1, hlen] at hcut
      omega

/-- Cut before the last byte it is handed over too early, and that byte stays in the buffer. -/
example : (run rcv connected [echoed.wire.take 63, lua "\n"]).map
    (fun s => (s.calls.map Prod.fst, s.rcvbuf)) = some ([63], lua "\n") := by
  decide +kernel

end LuatAir200.Auth
