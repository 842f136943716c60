import LuatAir200.Decimals
import LuatAir200.LuaFind
import LuatAir200.LuaPattern
import LuatAir200.Machine

/-!
# `net.lua`: reports of the cells

A report has a line for the serving cell and a line for each neighbour. Its numbers are small
enough for Lua to write them as it has read them.
-/
namespace LuatAir200.Net.Cells
open Lua Machine

/-! ## The table of cells -/

/-- An entry of `cellinfo`. -/
structure Info where
  mcc : Option LuaString
  mnc : Option LuaString
  lac : ℕ
  ci : ℕ
  rssi : ℕ
  ta : ℕ
  deriving DecidableEq

def Info.empty : Info := ⟨none, none, 0, 0, 0, 0⟩

def resetcellinfo : List Info := List.replicate 11 .empty

/-- 99 stands for an unknown strength. -/
def strength (n : ℕ) : ℕ := if n = 99 then 0 else n

/-- The position and the entry that a line of a report gives. -/
def cengline (data : LuaString) : Option (ℕ × Info) :=
  if (smatch data (lua "%+CENG:%d+,\".+\"")).isSome then
    (smatch1 data (lua "%+CENG:(%d)")).bind fun id =>
      let id := tonumber id
      match if id = 0 then
          smatch data
            (lua "%+CENG:%d,\"%d+,(%d+),%d+,(%d+),(%d+),%d+,(%d+),%d+,%d+,(%d+),(%d+)\"")
        else smatch data (lua "%+CENG:%d,\"%d+,(%d+),(%d+),(%d+),%d+,(%d+),(%d+)\"") with
      | some [rssi, mcc, mnc, ci, lac, ta] =>
          some (id, ⟨mcc, mnc, tonumber lac, tonumber ci, strength (tonumber rssi), tonumber ta⟩)
      | some [rssi, mcc, mnc, ci, lac] =>
          some (id, ⟨mcc, mnc, tonumber lac, tonumber ci, strength (tonumber rssi), 0⟩)
      | _ => none
  else none

/-- What `getcellinfoext` appends for an entry. -/
def Info.text (v : Info) : LuaString :=
  match v.mcc, v.mnc with
  | some mcc, some mnc =>
      if v.lac ≠ 0 ∧ v.ci ≠ 0 then
        mcc ++ lua "." ++ mnc ++ lua "." ++ decimal v.lac ++ lua "." ++ decimal v.ci ++ lua "." ++
          decimal v.rssi ++ lua ";"
      else []
  | _, _ => []

def getcellinfoext (cellinfo : List Info) : LuaString := cellinfo.flatMap Info.text

/-! ## Reports -/

/-- A number of a report. -/
abbrev Digits : Type := {s : LuaString // s ≠ [] ∧ s.all isDigit = true}

structure Serving where
  arfcn : Digits
  rxl : Digits
  rxq : Digits
  mcc : Digits
  mnc : Digits
  bsic : Digits
  cellid : Digits
  rla : Digits
  txp : Digits
  lac : Digits
  ta : Digits

structure Neighbour where
  arfcn : Digits
  rxl : Digits
  mcc : Digits
  mnc : Digits
  bsic : Digits
  cellid : Digits
  lac : Digits

structure Report where
  serving : Serving
  neighbours : List Neighbour
  few : neighbours.length ≤ 10

def joined : List Digits → LuaString
  | [] => []
  | [d] => d.val ++ [34]
  | d :: ds => d.val ++ 44 :: joined ds

/-- `+CENG:<id>,"<fields>"` -/
def line (id : ℕ) (fields : List Digits) : LuaString :=
  lua "+CENG:" ++ (decimal id ++ 44 :: 34 :: joined fields)

def Serving.line (c : Serving) : LuaString :=
  Cells.line 0 [c.arfcn, c.rxl, c.rxq, c.mcc, c.mnc, c.bsic, c.cellid, c.rla, c.txp, c.lac, c.ta]

def Neighbour.line (id : ℕ) (c : Neighbour) : LuaString :=
  Cells.line id [c.arfcn, c.rxl, c.mcc, c.mnc, c.bsic, c.cellid, c.lac]

/-- A cell of a report. -/
structure Cell where
  mcc : LuaString
  mnc : LuaString
  lac : ℕ
  ci : ℕ
  rssi : ℕ
  deriving DecidableEq

def Serving.cell (c : Serving) : Cell where
  mcc := c.mcc.val
  mnc := c.mnc.val
  lac := tonumber c.lac.val
  ci := tonumber c.cellid.val
  rssi := strength (tonumber c.rxl.val)

def Neighbour.cell (c : Neighbour) : Cell where
  mcc := c.mcc.val
  mnc := c.mnc.val
  lac := tonumber c.lac.val
  ci := tonumber c.cellid.val
  rssi := strength (tonumber c.rxl.val)

def Report.cells (r : Report) : List Cell := r.serving.cell :: r.neighbours.map Neighbour.cell

/-- Does a cell have an area and an identity? -/
def Cell.known (c : Cell) : Bool := c.lac ≠ 0 ∧ c.ci ≠ 0

def Cell.text (c : Cell) : LuaString :=
  c.mcc ++ lua "." ++ c.mnc ++ lua "." ++ decimal c.lac ++ lua "." ++ decimal c.ci ++ lua "." ++
    decimal c.rssi ++ lua ";"

/-- What a callback is to be called with. -/
def Report.text (r : Report) : LuaString := (r.cells.filter Cell.known).flatMap Cell.text

/-! ## What is read of a line -/

def Cell.info (c : Cell) (ta : ℕ) : Info := ⟨c.mcc, c.mnc, c.lac, c.ci, c.rssi, ta⟩

theorem info_text (c : Cell) (ta : ℕ) : (c.info ta).text = if c.known then c.text else [] := by
  simp [Info.text, Cell.info, Cell.known, Cell.text]

/-- The items for `+CENG:`. -/
def header : List Item :=
  [.cls (.named 43) .one, .cls (.char 67) .one, .cls (.char 69) .one, .cls (.char 78) .one,
    .cls (.char 71) .one, .cls (.char 58) .one]

/-- The items for numbers, of which some are captured. -/
def numbers : List Bool → List Item
  | [] => []
  | [b] => number b [.cls (.char 34) .one]
  | b :: bs => number b (.cls (.char 44) .one :: numbers bs)
where
  number : Bool → List Item → List Item
    | true, p => .openCap :: .cls (.named 100) .plus :: .closeCap :: p
    | false, p => .cls (.named 100) .plus :: p

theorem match_header (p : List Item) (t o : LuaString) :
    matchItems (header ++ p) (lua "+CENG:" ++ t) o = matchItems p t o := rfl

theorem match_number {b : Bool} {d : Digits} {p : List Item} {x : UInt8} {t rest : LuaString}
    {caps : List LuaString} (hx : isDigit x = false)
    (hp : ∀ o, matchItems p (x :: t) o = some (rest, caps)) (o : LuaString) :
    matchItems (numbers.number b p) (d.val ++ x :: t) o =
      some (rest, if b then d.val :: caps else caps) := by
  have hd : ∀ c ∈ d.val, (Lua.Class.named 100).accepts c = true :=
    List.all_eq_true.mp d.property.2
  cases b with
  | true => exact matchItems_run d.property.1 hd hx hp o
  | false => exact matchItems_plusRun d.property.1 hd hx hp o

/-- Numbers between commas are captured. -/
theorem match_numbers {fs : List (Bool × Digits)} (hne : fs ≠ []) (o : LuaString) :
    matchItems (numbers (fs.map Prod.fst)) (joined (fs.map Prod.snd)) o =
      some ([], (fs.filter Prod.fst).map (·.2.val)) := by
  induction fs generalizing o with
  | nil => exact absurd rfl hne
  | cons f fs ih =>
      cases fs with
      | nil =>
          have hm := match_number (b := f.1) (d := f.2) (x := 34) rfl
            (matchItems_one (p := []) (k := .char 34) (t := []) rfl fun _ => rfl) o
          obtain ⟨b, d⟩ := f
          cases b <;> exact hm
      | cons g fs =>
          have hm := match_number (b := f.1) (d := f.2) (x := 44) rfl
            (matchItems_one (k := .char 44) rfl (ih (List.cons_ne_nil g fs))) o
          obtain ⟨b, d⟩ := f
          cases b <;> exact hm

/-- A text that ends in a quote is found up to it. -/
theorem match_quoted {s : LuaString} (hne : s ≠ []) (o : LuaString) :
    matchItems [.cls .any .plus, .cls (.char 34) .one] (s ++ [34]) o = some ([], []) := by
  have hwhile : (s ++ [34]).takeWhile Lua.Class.any.accepts = s ++ [34] :=
    List.takeWhile_eq_self_iff.mpr fun _ _ => rfl
  obtain ⟨n, hn⟩ : ∃ n, s.length = n + 1 :=
    ⟨_, (Nat.succ_pred_eq_of_pos (List.length_pos_of_ne_nil hne)).symm⟩
  have hlen : (s ++ [34]).length = n + 1 + 1 := by
    rw [List.length_append, hn, List.length_singleton]
  have hall : (s ++ [34]).drop (n + 1 + 1) = [] := by
    rw [← hlen, List.drop_length]
  have hlast : (s ++ [34]).drop (n + 1) = [34] := by
    rw [← hn, List.drop_left]
  rw [matchItems, hwhile, hlen, List.range_succ, List.range_succ]
  -- the quote itself is taken first and given back
  simp [hall, hlast, matchItems, Lua.Class.accepts]

theorem joined_quoted {ds : List Digits} (hne : ds ≠ []) :
    ∃ s, s ≠ [] ∧ joined ds = s ++ [34] := by
  induction ds with
  | nil => exact absurd rfl hne
  | cons d ds ih =>
      cases ds with
      | nil => exact ⟨d.val, d.property.1, rfl⟩
      | cons e ds =>
          obtain ⟨s, -, hs⟩ := ih (List.cons_ne_nil e ds)
          refine ⟨d.val ++ 44 :: s, List.append_ne_nil_of_left_ne_nil d.property.1 _, ?_⟩
          rw [joined, hs, List.append_assoc, List.cons_append]
          exact List.cons_ne_nil e ds

theorem digits_decimal (n : ℕ) : ∀ x ∈ decimal n, (Lua.Class.named 100).accepts x = true :=
  fun _ hx => isDigit_decimal hx

/-- A line of a report passes the first test. -/
theorem line_found {id : ℕ} {ds : List Digits} (hne : ds ≠ []) :
    (smatch (line id ds) (lua "%+CENG:%d+,\".+\"")).isSome = true := by
  have hp : parse (lua "%+CENG:%d+,\".+\"") = some ⟨false, header ++ [.cls (.named 100) .plus,
      .cls (.char 44) .one, .cls (.char 34) .one, .cls .any .plus, .cls (.char 34) .one]⟩ := by
    decide
  rw [smatch_isSome hp]
  refine ⟨_, List.suffix_refl _, ?_⟩
  obtain ⟨s, hs, hj⟩ := joined_quoted hne
  have hm : matchItems [.cls (.named 100) .plus, .cls (.char 44) .one, .cls (.char 34) .one,
      .cls .any .plus, .cls (.char 34) .one] (decimal id ++ 44 :: 34 :: joined ds) (line id ds) =
        some ([], []) := by
    apply matchItems_plusRun (decimal_ne_nil id) (digits_decimal id) rfl
    apply matchItems_one rfl
    apply matchItems_one rfl
    rw [hj]
    exact match_quoted hs
  rw [line, match_header, ← line, hm]
  rfl

/-- The first digit of the number of a line is read. -/
theorem line_id {id : ℕ} {d : UInt8} {t : LuaString} {ds : List Digits}
    (hd : decimal id = d :: t) : smatch1 (line id ds) (lua "%+CENG:(%d)") = some [d] := by
  have hp : parse (lua "%+CENG:(%d)") =
      some ⟨false, header ++ [.openCap, .cls (.named 100) .one, .closeCap]⟩ := by
    decide
  have hdigit : (Lua.Class.named 100).accepts d = true :=
    digits_decimal id d (hd ▸ List.mem_cons_self)
  have hm : matchItems (header ++ [.openCap, .cls (.named 100) .one, .closeCap]) (line id ds)
      (line id ds) = some (t ++ 44 :: 34 :: joined ds, [[d]]) := by
    have hline : line id ds = lua "+CENG:" ++ d :: (t ++ 44 :: 34 :: joined ds) := by
      rw [line, hd, List.cons_append]
    rw [hline, match_header]
    exact matchItems_byte hdigit (fun _ => rfl) _
  rw [smatch1, smatch_front hp hm (List.cons_ne_nil _ _)]
  rfl

/-- The numbers of a line with a single digit in front of them are captured. -/
theorem line_numbers {id : ℕ} {p : LuaString} (fs : List (Bool × Digits)) (hid : id < 10)
    (hp : parse p = some ⟨false, header ++ .cls (.named 100) .one :: .cls (.char 44) .one ::
      .cls (.char 34) .one :: numbers (fs.map Prod.fst)⟩)
    (hc : fs.filter Prod.fst ≠ []) :
    smatch (line id (fs.map Prod.snd)) p = some ((fs.filter Prod.fst).map (·.2.val)) := by
  have hne : fs ≠ [] := by
    rintro rfl
    exact hc rfl
  have hdigit : (Lua.Class.named 100).accepts (48 + id.toUInt8) = true :=
    digits_decimal id _ (decimal_small hid ▸ List.mem_singleton_self _)
  have hm : matchItems (header ++ .cls (.named 100) .one :: .cls (.char 44) .one ::
      .cls (.char 34) .one :: numbers (fs.map Prod.fst)) (line id (fs.map Prod.snd))
      (line id (fs.map Prod.snd)) = some ([], (fs.filter Prod.fst).map (·.2.val)) := by
    have hline : line id (fs.map Prod.snd) =
        lua "+CENG:" ++ (48 + id.toUInt8) :: 44 :: 34 :: joined (fs.map Prod.snd) := by
      rw [line, decimal_small hid, List.singleton_append]
    rw [hline, match_header]
    apply matchItems_one hdigit
    apply matchItems_one rfl
    apply matchItems_one rfl
    exact match_numbers hne
  exact smatch_front hp hm (mt List.map_eq_nil_iff.mp hc)

theorem serving_line (c : Serving) :
    cengline c.line = some (0, c.cell.info (tonumber c.ta.val)) := by
  have hp : parse (lua "%+CENG:%d,\"%d+,(%d+),%d+,(%d+),(%d+),%d+,(%d+),%d+,%d+,(%d+),(%d+)\"") =
      some ⟨false, header ++ .cls (.named 100) .one :: .cls (.char 44) .one ::
        .cls (.char 34) .one :: numbers
          [false, true, false, true, true, false, true, false, false, true, true]⟩ := by
    decide
  have hfound : (smatch c.line (lua "%+CENG:%d+,\".+\"")).isSome = true :=
    line_found (List.cons_ne_nil _ _)
  have hid : smatch1 c.line (lua "%+CENG:(%d)") = some [48] := line_id rfl
  have hnumbers : smatch c.line
      (lua "%+CENG:%d,\"%d+,(%d+),%d+,(%d+),(%d+),%d+,(%d+),%d+,%d+,(%d+),(%d+)\"") =
        some [c.rxl.val, c.mcc.val, c.mnc.val, c.cellid.val, c.lac.val, c.ta.val] :=
    line_numbers [(false, c.arfcn), (true, c.rxl), (false, c.rxq), (true, c.mcc),
      (true, c.mnc), (false, c.bsic), (true, c.cellid), (false, c.rla), (false, c.txp),
      (true, c.lac), (true, c.ta)] (Nat.zero_lt_succ 9) hp (List.cons_ne_nil _ _)
  have hzero : tonumber [48] = 0 := rfl
  rw [cengline, if_pos hfound, hid, Option.bind_some]
  simp only [hzero, if_true, hnumbers]
  rfl

theorem parse_neighbour :
    parse (lua "%+CENG:%d,\"%d+,(%d+),(%d+),(%d+),%d+,(%d+),(%d+)\"") =
      some ⟨false, header ++ .cls (.named 100) .one :: .cls (.char 44) .one ::
        .cls (.char 34) .one :: numbers [false, true, true, true, false, true, true]⟩ := by
  decide

theorem neighbour_line (c : Neighbour) {id : ℕ} (h0 : id ≠ 0) (hid : id < 10) :
    cengline (c.line id) = some (id, c.cell.info 0) := by
  have hfound : (smatch (c.line id) (lua "%+CENG:%d+,\".+\"")).isSome = true :=
    line_found (List.cons_ne_nil _ _)
  have hfirst : smatch1 (c.line id) (lua "%+CENG:(%d)") = some [48 + id.toUInt8] :=
    line_id (decimal_small hid)
  have hnumbers : smatch (c.line id)
      (lua "%+CENG:%d,\"%d+,(%d+),(%d+),(%d+),%d+,(%d+),(%d+)\"") =
        some [c.rxl.val, c.mcc.val, c.mnc.val, c.cellid.val, c.lac.val] :=
    line_numbers [(false, c.arfcn), (true, c.rxl), (true, c.mcc), (true, c.mnc),
      (false, c.bsic), (true, c.cellid), (true, c.lac)] hid parse_neighbour
      (List.cons_ne_nil _ _)
  have hnumber : tonumber [48 + id.toUInt8] = id := by
    rw [← decimal_small hid, tonumber_decimal]
  rw [cengline, if_pos hfound, hfirst, Option.bind_some]
  simp only [hnumber, if_neg h0, hnumbers]
  rfl

theorem joined_no_plus (ds : List Digits) : ∀ x ∈ joined ds, (x == 43) = false := by
  have hdigit (d : Digits) : ∀ x ∈ d.val, (x == 43) = false := by
    intro x hx
    have hd := List.all_eq_true.mp d.property.2 x hx
    rw [beq_eq_false_iff_ne]
    rintro rfl
    cases hd
  induction ds with
  | nil => exact fun x hx => absurd hx List.not_mem_nil
  | cons d ds ih =>
      intro x hx
      cases ds with
      | nil =>
          obtain hx | hx := List.mem_append.mp hx
          · exact hdigit d x hx
          · rw [List.mem_singleton.mp hx]
            rfl
      | cons e ds =>
          obtain hx | hx := List.mem_append.mp hx
          · exact hdigit d x hx
          obtain rfl | hx := List.mem_cons.mp hx
          · rfl
          · exact ih x hx

/-- The number of the last line has two digits, and it is not read. -/
theorem tenth_line (c : Neighbour) : cengline (c.line 10) = none := by
  have hfound : (smatch (c.line 10) (lua "%+CENG:%d+,\".+\"")).isSome = true :=
    line_found (List.cons_ne_nil _ _)
  have hfirst : smatch1 (c.line 10) (lua "%+CENG:(%d)") = some [49] := line_id rfl
  have hnumbers : smatch (c.line 10)
      (lua "%+CENG:%d,\"%d+,(%d+),(%d+),(%d+),%d+,(%d+),(%d+)\"") = none := by
    obtain ⟨ds, hds⟩ : ∃ ds, c.line 10 = 43 :: (lua "CENG:10,\"" ++ joined ds) := ⟨_, rfl⟩
    rw [hds, smatch_behind parse_neighbour rfl]
    refine smatch_eq_none (c := .named 43) (by rw [parse_neighbour]; rfl) ?_
    intro x hx
    obtain hx | hx := List.mem_append.mp hx
    · have hno : (lua "CENG:10,\"").all (!(Lua.Class.named 43).accepts ·) = true := rfl
      rw [← Bool.not_eq_true']
      exact List.all_eq_true.mp hno x hx
    · exact joined_no_plus ds x hx
  have hone : tonumber [49] = 1 := rfl
  rw [cengline, if_pos hfound, hfirst, Option.bind_some]
  simp only [hone, Nat.one_ne_zero, if_false, hnumbers]

end LuatAir200.Net.Cells
