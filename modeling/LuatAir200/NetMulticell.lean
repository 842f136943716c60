import Mathlib.Data.List.Nodup
import LuatAir200.NetCells

/-!
# `net.lua`: `getmulticell`

What the first line of a report dispatches is delivered when the receive message with that line
has been read. The request of `getmulticell` is left out: a report may come at any time.
History: what the callbacks were called with, how many reports had begun at each call of
`getmulticell`, the reports, and the neighbours of the last one that have been heard and that are
still to come.
-/
namespace LuatAir200.Net.Cells
open Lua Machine

structure State where
  cellinfo : List Info
  /-- The call that waits. -/
  multicellcb : Option ℕ
  /-- The indications that are not yet delivered. -/
  inds : ℕ
  /-- Is a receive message being read? -/
  reading : Bool
  called : List (ℕ × LuaString)
  stamps : List ℕ
  reports : List Report
  heard : List Neighbour
  rest : List Neighbour

def init : State where
  cellinfo := resetcellinfo
  multicellcb := none
  inds := 0
  reading := false
  called := []
  stamps := []
  reports := []
  heard := []
  rest := []

def ceng (data : LuaString) (s : State) : State :=
  match cengline data with
  | some (id, v) =>
      let s := if id = 0 then { s with cellinfo := resetcellinfo } else s
      let s := { s with cellinfo := s.cellinfo.set id v }
      if id = 0 then { s with inds := s.inds + 1 } else s
  | none => s

def cellinfoind (s : State) : State :=
  match s.multicellcb with
  | some cb =>
      { s with multicellcb := none, called := s.called ++ [(cb, getcellinfoext s.cellinfo)] }
  | none => s

def getmulticell (s : State) : State :=
  { s with multicellcb := some s.stamps.length, stamps := s.stamps ++ [s.reports.length] }

inductive Act
  | getmulticell
  /-- A receive message. -/
  | receive
  /-- The first line of a report. -/
  | first (r : Report)
  /-- The next line of the last report. -/
  | next
  /-- All of a receive message has been read. -/
  | finish
  | CELL_INFO_IND

/-- Internal messages are delivered before the next receive message. -/
def step (s : State) : Act → Option State
  | .getmulticell => some (getmulticell s)
  | .receive => if s.reading ∨ s.inds ≠ 0 then none else some { s with reading := true }
  | .first r =>
      if s.reading ∧ s.rest.isEmpty then
        some (ceng r.serving.line
          { s with reports := s.reports ++ [r], heard := [], rest := r.neighbours })
      else none
  | .next =>
      match s.rest with
      | c :: cs =>
          if s.reading then
            some (ceng (c.line (s.heard.length + 1)) { s with heard := s.heard ++ [c], rest := cs })
          else none
      | [] => none
  | .finish => if s.reading then some { s with reading := false } else none
  | .CELL_INFO_IND =>
      if s.reading ∨ s.inds = 0 then none else some (cellinfoind { s with inds := s.inds - 1 })

/-! ## Complete reports -/

/-- All lines of the report have been read. -/
def State.Received (s : State) (i : ℕ) (r : Report) : Prop :=
  s.reports[i]? = some r ∧ (s.rest = [] ∨ i + 1 < s.reports.length)

/-- Each callback is called at most once, with all the cells of a report that began after the
call and has been received; when nothing is to be read or delivered, no call waits after such a
report. -/
structure Right (s : State) : Prop where
  once : (s.called.map Prod.fst).Nodup
  complete : ∀ c ∈ s.called, ∃ stamp i r, s.stamps[c.1]? = some stamp ∧ stamp ≤ i ∧
    s.Received i r ∧ c.2 = r.text
  answered : s.reading = false → s.inds = 0 → ∀ {n stamp i r}, s.stamps[n]? = some stamp →
    stamp ≤ i → s.Received i r → n ∈ s.called.map Prod.fst

/-- Is there nothing to report in line 10? -/
def Report.short (r : Report) : Bool := r.neighbours[9]?.all fun c => !c.cell.known

/-- The condition on actions. -/
def keeps (s : State) : Act → Bool
  -- no earlier call waits, and no indication of an earlier report is to be delivered
  | .getmulticell => s.multicellcb.isNone ∧ (s.reading ∨ s.inds = 0)
  -- the last report has begun after the call that waits, and it ends in this message
  | .finish => s.multicellcb.isNone ∨ s.inds = 0 ∨
      s.rest.isEmpty ∧ s.stamps.getLast?.all (· < s.reports.length) ∧
        s.reports.getLast?.all Report.short
  | .receive | .first _ | .next | .CELL_INFO_IND => true

/-! ## The table -/

def Report.infos (r : Report) (heard : List Neighbour) : List Info :=
  r.serving.cell.info (tonumber r.serving.ta.val) :: heard.map (·.cell.info 0)

/-- The table after these entries have been read. -/
def filled (vs : List Info) : List Info :=
  vs.take 10 ++ List.replicate (11 - (vs.take 10).length) .empty

theorem filled_first (v : Info) : filled [v] = resetcellinfo.set 0 v := rfl

theorem filled_next {vs : List Info} (v : Info) (h : vs.length < 10) :
    filled (vs ++ [v]) = (filled vs).set vs.length v := by
  have hvs : vs.take 10 = vs := List.take_of_length_le (Nat.le_of_lt h)
  have hnext : (vs ++ [v]).take 10 = vs ++ [v] := by
    rw [List.take_of_length_le]
    rw [List.length_append, List.length_singleton]
    omega
  obtain ⟨m, hm⟩ : ∃ m, 11 - vs.length = m + 1 := ⟨10 - vs.length, by omega⟩
  have hm' : 11 - (vs ++ [v]).length = m := by
    rw [List.length_append, List.length_singleton]
    omega
  rw [filled, filled, hvs, hnext, hm, hm', List.set_append_right _ _ (Nat.le_refl _),
    Nat.sub_self, List.replicate_succ, List.set_cons_zero, List.append_assoc,
    List.singleton_append]

theorem filled_full {vs : List Info} (v : Info) (h : 10 ≤ vs.length) :
    filled (vs ++ [v]) = filled vs := by
  rw [filled, filled, List.take_append_of_le_length h]

theorem getcellinfoext_filled (vs : List Info) :
    getcellinfoext (filled vs) = (vs.take 10).flatMap Info.text := by
  have hempty (n : ℕ) : (List.replicate n Info.empty).flatMap Info.text = [] := by
    rw [List.flatMap_eq_nil_iff]
    intro v hv
    rw [List.eq_of_mem_replicate hv]
    rfl
  rw [getcellinfoext, filled, List.flatMap_append, hempty, List.append_nil]

theorem text_infos (r : Report) : r.text = (r.infos r.neighbours).flatMap Info.text := by
  have hcells (cs : List Cell) : (cs.filter Cell.known).flatMap Cell.text =
      cs.flatMap fun c => if c.known then c.text else [] := by
    induction cs with
    | nil => rfl
    | cons c cs ih =>
        rw [List.filter_cons, List.flatMap_cons, ← ih]
        split
        · rw [List.flatMap_cons]
        · rw [List.nil_append]
  rw [Report.text, hcells, Report.cells, Report.infos, List.flatMap_cons, List.flatMap_cons,
    info_text, List.flatMap_map, List.flatMap_map]
  simp only [info_text]

/-- The table holds all the cells when there is nothing to report in line 10. -/
theorem getcellinfoext_short {r : Report} (h : r.short = true) :
    getcellinfoext (filled (r.infos r.neighbours)) = r.text := by
  have hdrop : (r.infos r.neighbours).drop 10 =
      (r.neighbours.drop 9).map (·.cell.info 0) := by
    rw [Report.infos, List.drop_succ_cons, List.map_drop]
  have hlast : ((r.infos r.neighbours).drop 10).flatMap Info.text = [] := by
    rw [hdrop, List.flatMap_map, List.flatMap_eq_nil_iff]
    intro c hc
    have hget : r.neighbours[9]? = some c := by
      obtain ⟨i, hi⟩ := List.mem_iff_getElem?.mp hc
      rw [List.getElem?_drop] at hi
      have hlt := (List.getElem?_eq_some_iff.mp hi).1
      have := r.few
      obtain rfl : i = 0 := by omega
      exact hi
    rw [Report.short, hget, Option.all_some, Bool.not_eq_true'] at h
    rw [info_text, h]
    rfl
  rw [getcellinfoext_filled, text_infos]
  conv_rhs => rw [← List.take_append_drop 10 (r.infos r.neighbours)]
  rw [List.flatMap_append, hlast, List.append_nil]

theorem ceng_serving (c : Serving) (s : State) : ceng c.line s = { s with
    cellinfo := filled [c.cell.info (tonumber c.ta.val)], inds := s.inds + 1 } := by
  rw [ceng, serving_line, filled_first]
  rfl

theorem ceng_neighbour (c : Neighbour) {id : ℕ} (h0 : id ≠ 0) (hid : id < 10) (s : State) :
    ceng (c.line id) s = { s with cellinfo := s.cellinfo.set id (c.cell.info 0) } := by
  rw [ceng, neighbour_line c h0 hid]
  simp only [if_neg h0]

theorem ceng_tenth (c : Neighbour) (s : State) : ceng (c.line 10) s = s := by
  rw [ceng, tenth_line]

/-- The next line of a report is entered, unless it is line 10. -/
theorem ceng_next {r : Report} {heard cs : List Neighbour} {c : Neighbour} {s : State}
    (hr : r.neighbours = heard ++ c :: cs) (hs : s.cellinfo = filled (r.infos heard)) :
    ceng (c.line (heard.length + 1)) s =
      { s with cellinfo := filled (r.infos (heard ++ [c])) } := by
  have hinfos : r.infos (heard ++ [c]) = r.infos heard ++ [c.cell.info 0] := by
    rw [Report.infos, List.map_append, Report.infos, List.cons_append]
    rfl
  have hlen : (r.infos heard).length = heard.length + 1 := by
    rw [Report.infos, List.length_cons, List.length_map]
  have hfew := r.few
  rw [hr, List.length_append, List.length_cons] at hfew
  rw [hinfos]
  by_cases hten : heard.length + 1 < 10
  · rw [ceng_neighbour c (Nat.succ_ne_zero _) hten, hs, filled_next _ (hlen ▸ hten), hlen]
  · have heq : heard.length + 1 = 10 := by omega
    rw [heq, ceng_tenth, filled_full _ (by omega), ← hs]

/-! ## Steps -/

structure Good (s : State) : Prop where
  once : (s.called.map Prod.fst).Nodup
  complete : ∀ c ∈ s.called, ∃ stamp i r, s.stamps[c.1]? = some stamp ∧ stamp ≤ i ∧
    s.Received i r ∧ c.2 = r.text
  /-- The entries of the lines that have been read make the table. -/
  table : ∀ r ∈ s.reports.getLast?, r.neighbours = s.heard ++ s.rest ∧
    s.cellinfo = filled (r.infos s.heard)
  unbegun : s.reports = [] → s.rest = []
  /-- Only the last call waits, and all others have been answered. -/
  waits : ∀ n, s.multicellcb = some n → n + 1 = s.stamps.length ∧ n ∉ s.called.map Prod.fst
  others : ∀ n < s.stamps.length, n ∈ s.called.map Prod.fst ∨ s.multicellcb = some n
  /-- There is an indication for a report that began after the call. -/
  due : s.multicellcb ≠ none → s.stamps.getLast?.all (· < s.reports.length) = true → s.inds ≠ 0
  ready : s.reading = false → keeps s .finish = true

theorem Good.right {s : State} (h : Good s) : Right s := by
  refine ⟨h.once, h.complete, ?_⟩
  intro hread hinds n stamp i r hn hi hr
  obtain hc | hcb := h.others n (List.getElem?_eq_some_iff.mp hn).1
  · exact hc
  · have hlast : s.stamps.getLast? = some stamp := by
      rw [List.getLast?_eq_getElem?, ← (h.waits n hcb).1, Nat.add_sub_cancel, hn]
    have hlt : i < s.reports.length := (List.getElem?_eq_some_iff.mp hr.1).1
    refine absurd hinds (h.due (hcb ▸ Option.some_ne_none n) ?_)
    rw [hlast, Option.all_some, decide_eq_true_eq]
    exact Nat.lt_of_le_of_lt hi hlt

theorem Good.getmulticell {s : State} (h : Good s) (hk : keeps s .getmulticell = true) :
    Good (getmulticell s) := by
  simp only [keeps, Option.isNone_iff_eq_none, decide_eq_true_eq] at hk
  obtain ⟨hcb, hread⟩ := hk
  have hcalled {n : ℕ} (hn : n ∈ s.called.map Prod.fst) : n < s.stamps.length := by
    obtain ⟨c, hc, rfl⟩ := List.mem_map.mp hn
    obtain ⟨stamp, i, r, hstamp, -⟩ := h.complete c hc
    exact (List.getElem?_eq_some_iff.mp hstamp).1
  refine ⟨h.once, ?_, h.table, h.unbegun, ?_, ?_, ?_, ?_⟩
  · intro c hc
    obtain ⟨stamp, i, r, hstamp, hr⟩ := h.complete c hc
    have hlt := hcalled (List.mem_map_of_mem hc)
    exact ⟨stamp, i, r, by rw [← hstamp]; exact List.getElem?_append_left hlt, hr⟩
  · intro n hn
    cases hn
    refine ⟨?_, fun hc => absurd (hcalled hc) (Nat.lt_irrefl _)⟩
    rw [Cells.getmulticell, List.length_append, List.length_singleton]
  · intro n hn
    rw [Cells.getmulticell, List.length_append, List.length_singleton] at hn
    obtain hlt | rfl := Nat.lt_succ_iff_lt_or_eq.mp hn
    · obtain hc | hw := h.others n hlt
      · exact .inl hc
      · rw [hcb] at hw
        cases hw
    · exact .inr rfl
  · intro _ hall
    -- no report has begun since the call
    simp [Cells.getmulticell] at hall
  · intro hr
    have hinds : s.inds = 0 := by
      obtain hread | hinds := hread
      · exact absurd (hread.symm.trans hr) (by decide)
      · exact hinds
    simp [keeps, Cells.getmulticell, hinds]

/-- A report that has been received stays so when another one begins. -/
theorem State.Received.later {s t : State} {i : ℕ} {r q : Report} (h : s.Received i r)
    (ht : t.reports = s.reports ++ [q]) : t.Received i r := by
  have hlt : i < s.reports.length := (List.getElem?_eq_some_iff.mp h.1).1
  refine ⟨?_, .inr ?_⟩
  · rw [ht, List.getElem?_append_left hlt, h.1]
  · rw [ht, List.length_append, List.length_singleton]
    omega

theorem Good.first {s t : State} {r : Report} (h : Good s) (ht : step s (.first r) = some t) :
    Good t := by
  obtain ⟨⟨hread, -⟩, ⟨⟩⟩ := Option.ite_none_right_eq_some.mp ht
  rw [ceng_serving]
  refine ⟨h.once, ?_, ?_, ?_, h.waits, h.others, fun _ _ => Nat.succ_ne_zero _, ?_⟩
  · intro c hc
    obtain ⟨stamp, i, q, hstamp, hi, hq, htext⟩ := h.complete c hc
    exact ⟨stamp, i, q, hstamp, hi, hq.later rfl, htext⟩
  · intro q hq
    rw [List.getLast?_concat, Option.mem_some_iff] at hq
    subst hq
    exact ⟨rfl, rfl⟩
  · intro hnil
    exact absurd hnil (by simp)
  · intro hr
    exact absurd (hread.symm.trans hr) (by decide)

theorem Good.next {s t : State} (h : Good s) (ht : step s .next = some t) : Good t := by
  unfold step at ht
  cases hrest : s.rest with
  | nil =>
      rw [hrest] at ht
      cases ht
  | cons c cs =>
      rw [hrest] at ht
      obtain ⟨hread, ⟨⟩⟩ := Option.ite_none_right_eq_some.mp ht
      obtain ⟨r, hr⟩ : ∃ r, s.reports.getLast? = some r := by
        rw [← Option.isSome_iff_exists, List.getLast?_isSome]
        intro hnil
        rw [h.unbegun hnil] at hrest
        cases hrest
      obtain ⟨hsplit, htable⟩ := h.table r hr
      rw [hrest] at hsplit
      rw [ceng_next (s := { s with heard := s.heard ++ [c], rest := cs }) hsplit htable]
      refine ⟨h.once, ?_, ?_, ?_, h.waits, h.others, h.due, ?_⟩
      · intro c hc
        obtain ⟨stamp, i, q, hstamp, hi, ⟨hq, hrec⟩, htext⟩ := h.complete c hc
        have hlater : i + 1 < s.reports.length := by
          obtain hnil | hlt := hrec
          · rw [hrest] at hnil
            cases hnil
          · exact hlt
        exact ⟨stamp, i, q, hstamp, hi, ⟨hq, .inr hlater⟩, htext⟩
      · intro q hq
        obtain rfl : r = q := Option.some.inj (hr.symm.trans hq)
        exact ⟨by simp [hsplit], rfl⟩
      · intro hnil
        rw [hnil] at hr
        cases hr
      · intro hr
        exact absurd (hread.symm.trans hr) (by decide)

/-- A call is answered with the last report, which has been received. -/
theorem Good.answered {s : State} {n : ℕ} (h : Good s) (hn : s.multicellcb = some n)
    (hread : s.reading = false) (hinds : s.inds ≠ 0) :
    ∃ stamp i r, s.stamps[n]? = some stamp ∧ stamp ≤ i ∧ s.Received i r ∧
      getcellinfoext s.cellinfo = r.text := by
  have hready := h.ready hread
  simp only [keeps, hn, Option.isNone_some, Bool.false_eq_true, hinds, false_or,
    decide_eq_true_eq, List.isEmpty_iff] at hready
  obtain ⟨hrest, hlast, hshort⟩ := hready
  have hlen := (h.waits n hn).1
  obtain ⟨stamp, hstamp⟩ : ∃ stamp, s.stamps[n]? = some stamp :=
    ⟨_, List.getElem?_eq_getElem (hlen ▸ Nat.lt_succ_self n)⟩
  rw [List.getLast?_eq_getElem?, ← hlen, Nat.add_sub_cancel, hstamp, Option.all_some,
    decide_eq_true_eq] at hlast
  obtain ⟨r, hr⟩ : ∃ r, s.reports.getLast? = some r := by
    rw [← Option.isSome_iff_exists, List.getLast?_isSome]
    rintro hnil
    rw [hnil] at hlast
    exact Nat.not_lt_zero _ hlast
  rw [hr, Option.all_some] at hshort
  obtain ⟨hsplit, htable⟩ := h.table r hr
  rw [hrest, List.append_nil] at hsplit
  refine ⟨stamp, s.reports.length - 1, r, hstamp, Nat.le_sub_one_of_lt hlast, ⟨?_, .inl hrest⟩, ?_⟩
  · rw [← List.getLast?_eq_getElem?, hr]
  · rw [htable, ← hsplit, getcellinfoext_short hshort]

theorem cellinfoind_none {s : State} (h : s.multicellcb = none) : cellinfoind s = s := by
  rw [cellinfoind, h]

theorem cellinfoind_some {s : State} {n : ℕ} (h : s.multicellcb = some n) :
    cellinfoind s = { s with
      multicellcb := none, called := s.called ++ [(n, getcellinfoext s.cellinfo)] } := by
  rw [cellinfoind, h]

theorem Good.cellinfoind {s t : State} (h : Good s) (ht : step s .CELL_INFO_IND = some t) :
    Good t := by
  obtain ⟨hno, ⟨⟩⟩ := Option.ite_none_left_eq_some.mp ht
  rw [not_or, Bool.not_eq_true] at hno
  obtain ⟨hread, hinds⟩ := hno
  obtain hcb | ⟨n, hcb⟩ := Option.eq_none_or_eq_some s.multicellcb
  · rw [cellinfoind_none (s := { s with inds := s.inds - 1 }) hcb]
    refine { h with due := fun hne => absurd hcb hne, ready := fun _ => ?_ }
    simp [keeps, hcb]
  · obtain ⟨stamp, i, r, hstamp, hi, hr, htext⟩ := h.answered hcb hread hinds
    have hnew := (h.waits n hcb).2
    rw [cellinfoind_some (s := { s with inds := s.inds - 1 }) hcb]
    refine ⟨?_, ?_, h.table, h.unbegun, nofun, ?_, fun hne => absurd rfl hne, fun _ => rfl⟩
    · rw [List.map_append]
      exact List.nodup_append_comm.mpr (List.nodup_cons.mpr ⟨hnew, h.once⟩)
    · intro c hc
      obtain hc | hc := List.mem_append.mp hc
      · exact h.complete c hc
      · obtain rfl := List.mem_singleton.mp hc
        exact ⟨stamp, i, r, hstamp, hi, hr, htext⟩
    · intro m hm
      left
      rw [List.map_append, List.mem_append]
      obtain hc | hw := h.others m hm
      · exact .inl hc
      · cases hcb.symm.trans hw
        exact .inr List.mem_cons_self

theorem step_good {s t : State} {a : Act} (h : Good s) (hk : keeps s a = true)
    (ht : step s a = some t) : Good t := by
  cases a with
  | getmulticell =>
      cases ht
      exact h.getmulticell hk
  | receive =>
      obtain ⟨-, ⟨⟩⟩ := Option.ite_none_left_eq_some.mp ht
      exact { h with ready := nofun }
  | first r => exact h.first ht
  | next => exact h.next ht
  | finish =>
      obtain ⟨-, ⟨⟩⟩ := Option.ite_none_right_eq_some.mp ht
      exact { h with ready := fun _ => hk }
  | CELL_INFO_IND => exact h.cellinfoind ht

theorem init_good : Good init where
  once := List.nodup_nil
  complete _ hc := absurd hc List.not_mem_nil
  table _ hr := nomatch hr
  unbegun _ := rfl
  waits _ hn := nomatch hn
  others n hn := absurd hn (Nat.not_lt_zero n)
  due hne := absurd rfl hne
  ready _ := rfl

/-- Every call is answered exactly once, with all the cells of a report that began after it, in
the runs in which no call is made while another one waits or an indication is to be
delivered, and each receive message that leaves an indication for a call ends with a report that
began after the call and has no cell in line 10. -/
theorem multicell_complete {acts : List Act}
    (h : Meets step (fun s a => keeps s a = true) init acts) : Along step Right init acts := by
  have hgood : Along step Good init acts := along_of_meets (I := fun _ => True)
    (fun _ _ _ _ _ => trivial) (fun s a t _ hs hk ht => step_good hs hk ht) trivial init_good h
  exact hgood.imp fun s hs => hs.right

/-- A report with two cells. -/
def pair : Report where
  serving :=
    { arfcn := ⟨lua "573", by decide⟩
      rxl := ⟨lua "24", by decide⟩
      rxq := ⟨lua "99", by decide⟩
      mcc := ⟨lua "460", by decide⟩
      mnc := ⟨lua "0", by decide⟩
      bsic := ⟨lua "13", by decide⟩
      cellid := ⟨lua "49234", by decide⟩
      rla := ⟨lua "10", by decide⟩
      txp := ⟨lua "0", by decide⟩
      lac := ⟨lua "6311", by decide⟩
      ta := ⟨lua "255", by decide⟩ }
  neighbours :=
    [{ arfcn := ⟨lua "579", by decide⟩
       rxl := ⟨lua "16", by decide⟩
       mcc := ⟨lua "460", by decide⟩
       mnc := ⟨lua "0", by decide⟩
       bsic := ⟨lua "5", by decide⟩
       cellid := ⟨lua "49233", by decide⟩
       lac := ⟨lua "6311", by decide⟩ }]
  few := by decide

theorem multicell_complete_pair :
    (run step init [.getmulticell, .receive, .first pair, .next, .finish, .CELL_INFO_IND]).map
      (·.called) = some [(0, lua "460.0.6311.49234.24;460.0.6311.49233.16;")] ∧
    Along step Right init
      [.getmulticell, .receive, .first pair, .next, .finish, .CELL_INFO_IND] :=
  ⟨by decide +kernel, multicell_complete (by decide +kernel)⟩

/-- A report that comes in two receive messages is delivered without its second cell. -/
theorem half_report : ¬Along step Right init
    [.getmulticell, .receive, .first pair, .finish, .CELL_INFO_IND] := by
  intro h
  have hrun : (run step init [.getmulticell, .receive, .first pair, .finish, .CELL_INFO_IND]).map
      (fun s => (s.called, s.rest.isEmpty, s.reports.length)) =
        some ([(0, lua "460.0.6311.49234.24;")], false, 1) := by
    decide +kernel
  obtain ⟨t, ht, he⟩ := Option.map_eq_some_iff.mp hrun
  simp only [Prod.mk.injEq] at he
  obtain ⟨hcalled, hrest, hlen⟩ := he
  have hmem : (0, lua "460.0.6311.49234.24;") ∈ t.called := by
    rw [hcalled]
    exact List.mem_cons_self
  obtain ⟨-, i, r, -, -, ⟨hr, hrec⟩, -⟩ := (h.last ht).complete _ hmem
  -- the only report is not complete
  have hlt : i < t.reports.length := (List.getElem?_eq_some_iff.mp hr).1
  obtain hnil | hlater := hrec
  · rw [hnil] at hrest
    cases hrest
  · omega

/-- The second of two calls takes the place of the first. -/
example : (run step init [.getmulticell, .getmulticell, .receive, .first pair, .next, .finish,
    .CELL_INFO_IND]).map (·.called.map Prod.fst) = some [1] := by
  decide +kernel

end LuatAir200.Net.Cells
