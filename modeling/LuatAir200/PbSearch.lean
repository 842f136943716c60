import LuatAir200.LuaPattern
import LuatAir200.PhoneBook
import LuatAir200.RilAnswers

/-!
# Searching the phone book

`procatc` joins the lines of a long answer with line ends between them, and `pbrsp` looks for
records that end in a line end. The last one has none.
-/
namespace LuatAir200.Pb
open Lua Machine

/-! ## Lines of an answer -/

/-- The bytes of a line. -/
def Whole (l : LuaString) : Prop := ∀ x ∈ l, x ≠ 10

instance (l : LuaString) : Decidable (Whole l) :=
  List.decidableBAll (· ≠ 10) l

theorem lines_cons {acc t : LuaString} {c : UInt8} (h : c = 13 → t.head? ≠ some 10) :
    lines acc (c :: t) = lines (c :: acc) t := by
  rw [lines.eq_2]
  rintro u rfl rfl
  exact h rfl rfl

/-- A line is found with its end. -/
theorem lines_received {l : LuaString} (h : Whole l) (acc t : LuaString) :
    lines acc (Ril.received l ++ t) = (acc.reverse ++ l) :: lines [] t := by
  induction l generalizing acc with
  | nil =>
      rw [List.append_nil]
      rfl
  | cons c l ih =>
      have hl : Whole l := fun x hx => h x (List.mem_cons_of_mem c hx)
      have hhead : (Ril.received l ++ t).head? ≠ some 10 := by
        cases l with
        | nil => simp [Ril.received, lua]
        | cons d l =>
            have hd : d ≠ 10 := hl d List.mem_cons_self
            simpa [Ril.received] using hd
      have hrec := ih hl (c :: acc)
      rw [List.reverse_cons, List.append_assoc, List.singleton_append] at hrec
      have hcons : Ril.received (c :: l) ++ t = c :: (Ril.received l ++ t) := rfl
      rw [hcons, lines_cons fun _ => hhead, hrec]

/-- What has no end is no line. -/
theorem lines_whole {l : LuaString} (h : Whole l) (acc : LuaString) : lines acc l = [] := by
  induction l generalizing acc with
  | nil => rfl
  | cons c l ih =>
      have hl : Whole l := fun x hx => h x (List.mem_cons_of_mem c hx)
      have hhead : l.head? ≠ some 10 := by
        intro hx
        exact hl 10 (List.mem_of_mem_head? hx) rfl
      rw [lines_cons fun _ => hhead, ih hl]

theorem lines_joined {ms : List LuaString} {d : LuaString} (hd : Ril.joined ms = some d)
    (h : ∀ m ∈ ms, Whole m) (t : LuaString) :
    lines [] (Ril.received d ++ t) = ms ++ lines [] t := by
  induction ms using List.reverseRecOn generalizing d t with
  | nil => cases hd
  | append_singleton ms m ih =>
      have hm : Whole m := h m (by simp)
      have hms : ∀ x ∈ ms, Whole x := fun x hx => h x (List.mem_append_left [m] hx)
      rw [Ril.joined_concat, Option.some.injEq] at hd
      cases hj : Ril.joined ms with
      | none =>
          rw [hj] at hd
          subst hd
          rw [Ril.joined_eq_none.mp hj, lines_received hm]
          rfl
      | some e =>
          rw [hj] at hd
          subst hd
          have hassoc : Ril.received (e ++ lua "\r\n" ++ m) ++ t =
              Ril.received e ++ (Ril.received m ++ t) := by
            simp [Ril.received]
          rw [hassoc, ih hj hms, lines_received hm]
          simp

/-- The last line is not found. -/
theorem lines_dropLast {ms : List LuaString} {d : LuaString} (hd : Ril.joined ms = some d)
    (h : ∀ m ∈ ms, Whole m) : lines [] d = ms.dropLast := by
  cases ms using List.reverseRecOn with
  | nil => cases hd
  | append_singleton ms m =>
      have hm : Whole m := h m (by simp)
      have hms : ∀ x ∈ ms, Whole x := fun x hx => h x (List.mem_append_left [m] hx)
      rw [Ril.joined_concat, Option.some.injEq] at hd
      rw [List.dropLast_concat]
      cases hj : Ril.joined ms with
      | none =>
          rw [hj] at hd
          subst hd
          rw [Ril.joined_eq_none.mp hj, lines_whole hm]
      | some e =>
          rw [hj] at hd
          subst hd
          have hl := lines_joined hj hms m
          rw [lines_whole hm, List.append_nil] at hl
          exact hl

theorem joined_ne_nil {ms : List LuaString} {d : LuaString} (hd : Ril.joined ms = some d)
    (h : ∀ m ∈ ms, m ≠ []) : d ≠ [] := by
  cases ms using List.reverseRecOn with
  | nil => cases hd
  | append_singleton ms m =>
      have hm : m ≠ [] := h m (by simp)
      rw [Ril.joined_concat, Option.some.injEq] at hd
      cases hj : Ril.joined ms with
      | none =>
          rw [hj] at hd
          exact hd ▸ hm
      | some e =>
          rw [hj] at hd
          subst hd
          exact List.append_ne_nil_of_right_ne_nil _ hm

/-! ## Records -/

/-- A record of an answer to `AT+CPBF`. -/
structure Record where
  index : LuaString
  number : LuaString
  type : LuaString
  name : LuaString
  deriving DecidableEq

/-- `+CPBF: <index>,"<number>",<type>,"<name>"` -/
def Record.line (r : Record) : LuaString :=
  lua "+CPBF: " ++ (r.index ++ (lua ",\"" ++ (r.number ++ (lua "\"," ++
    (r.type ++ (lua ",\"" ++ (r.name ++ lua "\"")))))))

/-- Index and type are numbers, and the number can be dialled. -/
structure Record.Plain (r : Record) : Prop where
  index : r.index ≠ [] ∧ ∀ x ∈ r.index, isDigit x = true
  number : ∀ x ∈ r.number, x = 35 ∨ x = 42 ∨ x = 43 ∨ isDigit x = true
  type : r.type ≠ [] ∧ ∀ x ∈ r.type, isDigit x = true

/-- The pattern for records; `#`, `*`, `+` and digits make a number. -/
def items : List Item :=
  [.cls (.char 43) .one, .cls (.char 67) .one, .cls (.char 80) .one, .cls (.char 66) .one,
    .cls (.char 70) .one, .cls (.char 58) .one, .cls (.named 115) .star, .openCap,
    .cls (.named 100) .plus, .closeCap, .cls (.char 44) .one, .cls (.char 34) .one, .openCap,
    .cls (.set false [.inl (35, 35), .inr 42, .inr 43, .inr 100]) .star, .closeCap,
    .cls (.char 34) .one, .cls (.char 44) .one, .cls (.named 100) .plus, .cls (.char 44) .one]

theorem parse_items : parse (lua "+CPBF:%s*(%d+),\"([#%*%+%d]*)\",%d+,") = some ⟨false, items⟩ := by
  decide

theorem match_line {r : Record} (h : r.Plain) :
    matchItems items r.line r.line =
      some (lua "\"" ++ (r.name ++ lua "\""), [r.index, r.number]) := by
  have hx : ∀ x ∈ r.index.head?, isDigit x = true :=
    fun x hx => h.index.2 x (List.mem_of_mem_head? hx)
  obtain ⟨index, number, type, name⟩ := r
  obtain ⟨⟨hi, hid⟩, hn, ht, htd⟩ := h
  cases index with
  | nil => exact absurd rfl hi
  | cons x xs =>
      have hspace : (Lua.Class.named 115).accepts x = false := not_space (hx x rfl)
      have hindex : ∀ c ∈ x :: xs, (Lua.Class.named 100).accepts c = true := hid
      have htype : ∀ c ∈ type, (Lua.Class.named 100).accepts c = true := htd
      have hnumber : ∀ c ∈ number, (Lua.Class.set false
          [.inl (35, 35), .inr 42, .inr 43, .inr 100]).accepts c = true := by
        intro c hc
        obtain rfl | rfl | rfl | hc := hn c hc
        · rfl
        · rfl
        · rfl
        · have hd : classOf 100 c = true := hc
          simp [Lua.Class.accepts, hd]
      -- each repetition of the pattern ends at the byte behind its field
      simp only [items, Record.line, lua]
      apply matchItems_one rfl
      apply matchItems_one rfl
      apply matchItems_one rfl
      apply matchItems_one rfl
      apply matchItems_one rfl
      apply matchItems_one rfl
      apply matchItems_star rfl hspace
      apply matchItems_run hi hindex rfl
      apply matchItems_one rfl
      apply matchItems_one rfl
      apply matchItems_starRun hnumber rfl
      apply matchItems_one rfl
      apply matchItems_one rfl
      apply matchItems_plusRun ht htype rfl
      apply matchItems_one rfl
      exact fun _ => rfl

/-- A line that is found is reported with its index and its number. -/
theorem found_line {r : Record} (h : r.Plain) (success : Bool) (name : LuaString) :
    found success name r.line = .findCnf success r.index r.number name := by
  have hmatch : smatch2 r.line (lua "+CPBF:%s*(%d+),\"([#%*%+%d]*)\",%d+,") =
      some (r.index, r.number) := by
    rw [smatch2, smatch_front parse_items (match_line h) (List.cons_ne_nil _ _)]
  rw [found, hmatch]
  rfl

/-! ## Searches -/

/-- The name in the command. -/
def searched (name : LuaString) : LuaString :=
  (smatch1 (Cmd.cpbf name).text (lua "AT%+CPBF%s*=%s*\"(%w*)\"")).getD []

theorem dispatch_msgs (f : LuaString → Msg) (ws : List LuaString) (s : State) :
    (ws.foldl (fun s w => dispatch (f w) s) s).msgs = s.msgs ++ ws.map f := by
  induction ws generalizing s with
  | nil => simp
  | cons w ws ih =>
      rw [List.foldl_cons, ih]
      simp [dispatch]

/-- What is dispatched for an answer with lines. -/
theorem pbrsp_msgs {name : LuaString} {ms : List LuaString} (hne : ms ≠ [])
    (hw : ∀ m ∈ ms, Whole m) (hm : ∀ m ∈ ms, m ≠ []) (success : Bool) (s : State) :
    (pbrsp (.cpbf name) success ((Ril.joined ms).getD []) s).msgs =
      s.msgs ++ ms.dropLast.map (found success (searched name)) := by
  obtain ⟨d, hd⟩ := Option.ne_none_iff_exists'.mp (mt Ril.joined_eq_none.mp hne)
  have hdne : d ≠ [] := joined_ne_nil hd hm
  rw [hd, Option.getD_some]
  simp only [pbrsp, hdne, if_false]
  rw [dispatch_msgs, lines_dropLast hd hw]
  rfl

/-- The program around the channel, with the phone book in it. -/
structure Hosts (M : Ril.Modules) where
  pbrsp : M.Rsp
  pb : M.Outside → State
  runs : ∀ {name : LuaString} {success : Bool} {respdata interdata : Option LuaString}
    {out : M.Outside} {r : Ril.Ran M.Outside M.Rsp M.Urc},
    M.rsp pbrsp (Cmd.cpbf name).text success respdata interdata out = some r →
      pb r.out = Pb.pbrsp (.cpbf name) success (interdata.getD []) (pb out)

/-- The command of `find`. -/
structure Searching {ρ : Type} (name : LuaString) (c : Ril.Curr ρ) : Prop where
  cmd : c.entry.req.cmd = (Cmd.cpbf name).text
  rsp : c.entry.req.rsp = none
  head : c.cmdhead = lua "+CPBF"
  mline : c.cmdtype = .MLINE

variable {M : Ril.Modules}

theorem parse_cmdhead : parse (lua "AT([%+%*]*%u+)") = some ⟨false, [.cls (.char 65) .one,
    .cls (.char 84) .one, .openCap, .cls (.set false [.inr 43, .inr 42]) .star,
    .cls (.named 117) .plus, .closeCap]⟩ := by
  decide

/-- The command is one for a long answer. -/
theorem cmdhead_find (name : LuaString) :
    Ril.cmdhead (Cmd.cpbf name).text = some (lua "+CPBF") := by
  obtain ⟨t, ht⟩ : ∃ t, (Cmd.cpbf name).text = lua "AT+CPBF=" ++ t := ⟨_, List.append_assoc _ _ _⟩
  have hwhile : (lua "CPBF=" ++ t).takeWhile (Lua.Class.named 117).accepts = lua "CPBF" := rfl
  have hplus := matchItems_plus_close (o := lua "+CPBF=" ++ t) (hwhile ▸ by decide :
    (lua "CPBF=" ++ t).takeWhile (Lua.Class.named 117).accepts ≠ [])
  have hlen : (lua "+CPBF=" ++ t).length - (lua "=" ++ t).length = 5 := by
    simp [lua]
  have hdrop : (lua "CPBF=" ++ t).drop (lua "CPBF").length = lua "=" ++ t := rfl
  rw [hwhile, hdrop, hlen] at hplus
  have hstar : matchItems [.openCap, .cls (.set false [.inr 43, .inr 42]) .star,
      .cls (.named 117) .plus, .closeCap] (lua "+CPBF=" ++ t) (lua "+CPBF=" ++ t) =
        some (lua "=" ++ t, [lua "+CPBF"]) := by
    have htake : (lua "+CPBF=" ++ t).takeWhile (Lua.Class.set false [.inr 43, .inr 42]).accepts =
      lua "+" := rfl
    have hrange : (List.range ((lua "+").length + 1)).reverse = [1, 0] := rfl
    have hd : (lua "+CPBF=" ++ t).drop 1 = lua "CPBF=" ++ t := rfl
    rw [matchItems, matchItems, htake, hrange, List.findSome?_cons, hd, hplus]
    rfl
  have hall : matchItems [.cls (.char 65) .one, .cls (.char 84) .one, .openCap,
      .cls (.set false [.inr 43, .inr 42]) .star, .cls (.named 117) .plus, .closeCap]
      (lua "AT+CPBF=" ++ t) (lua "AT+CPBF=" ++ t) = some (lua "=" ++ t, [lua "+CPBF"]) := hstar
  rw [Ril.cmdhead, smatch1, ht, smatch_front parse_cmdhead hall (List.cons_ne_nil _ _)]
  rfl

/-- The command that `find` requests is taken for a search. -/
theorem searching_getcmd {name : LuaString} {e : Ril.Entry M.Rsp}
    {s : Ril.State M} (he : e.req = ⟨(Cmd.cpbf name).text, none, none, none⟩)
    (hs : s.rilcmd (lua "+CPBF") = some .MLINE) :
    ∃ c, Ril.getcmd e s = some c ∧ Searching name c := by
  have hhead : Ril.cmdhead e.req.cmd = some (lua "+CPBF") := by
    rw [he, cmdhead_find]
  refine ⟨⟨e, lua "+CPBF", .MLINE, s.formtab (lua "+CPBF")⟩, ?_, ?_⟩
  · have harg : Ril.hasArg (lua "+CPBF") e.req.arg = true := by
      rw [he]
      rfl
    simp only [Ril.getcmd, hhead, harg, if_true, hs, Option.getD_some]
  · exact ⟨by rw [he], by rw [he], rfl, rfl⟩

theorem front_line (r : Record) : foundAtFront r.line (lua "+CPBF") = true := by
  have hp : parse (lua "+CPBF") = some ⟨false, [.cls (.char 43) .one, .cls (.char 67) .one,
      .cls (.char 80) .one, .cls (.char 66) .one, .cls (.char 70) .one]⟩ := by decide
  rw [foundAtFront, hp]
  rfl

/-- A record is no final result. -/
theorem Searching.not_final {name : LuaString} {c : Ril.Curr M.Rsp} (hc : Searching name c)
    (r : Record) : ¬Ril.Final c r.line := by
  have htake : r.line.take 3 = lua "+CP" := rfl
  have hne {l : LuaString} (hl : l.take 3 ≠ lua "+CP") : r.line ≠ l := by
    rintro rfl
    exact hl htake
  have hpre {l : LuaString} (hlen : 3 ≤ l.length) (hl : l.take 3 ≠ lua "+CP") :
      ¬l <+: r.line := by
    rintro ⟨t, ht⟩
    rw [← ht, List.take_append_of_le_length hlen] at htake
    exact hl htake
  rintro ((h | h) | (h | h | h) | ⟨h, -⟩)
  · exact hne (by decide) h
  · exact hne (by decide) h
  · exact hne (by decide) h
  · exact hpre (by decide) (by decide) h
  · exact hpre (by decide) (by decide) h
  · rw [hc.mline] at h
    cases h

/-- The records and `OK` are an answer to the command. -/
theorem Searching.answer {name : LuaString} {c : Ril.Curr M.Rsp} (hc : Searching name c)
    (records : List Record) : Ril.Answer c (records.map Record.line) (lua "OK") where
  single h := absurd hc.mline h
  first m hm := by
    obtain ⟨r, -, rfl⟩ := List.mem_map.mp (List.mem_of_mem_head? hm)
    refine ⟨nofun, ?_, hc.not_final r⟩
    unfold Ril.Intermediate
    rw [hc.mline, hc.head]
    exact front_line r
  rest m hm := by
    obtain ⟨r, -, rfl⟩ := List.mem_map.mp (List.mem_of_mem_tail hm)
    intro h
    exact hc.not_final r (.inl (.inl h))
  final := .inl (.inl rfl)

/-- What the callback does for `OK`. -/
theorem rsp_out {c : Ril.Curr M.Rsp} {s t : Ril.State M} {f : M.Rsp} {success : Bool}
    {respdata interdata : Option LuaString} (hrsp : c.entry.req.rsp = none)
    (hf : s.rsptable c.cmdhead = some f)
    (ht : Ril.rsp c success respdata interdata s = some t) :
    ∃ r, M.rsp f c.entry.req.cmd success respdata interdata s.out = some r ∧ t.out = r.out := by
  have hcb : Ril.callback c s = .table f := by
    rw [Ril.callback, hrsp, hf]
  obtain ⟨u, hu, rfl⟩ := Option.map_eq_some_iff.mp ht
  rw [hcb] at hu
  obtain ⟨r, hr, rfl⟩ := Option.map_eq_some_iff.mp hu
  exact ⟨r, hr, Ril.ran_out r _⟩

/-- The last record is missing: the messages are one for each line in front of the last, and so
they are never one for each record. -/
theorem last_record_lost (H : Hosts M) {name : LuaString} {c : Ril.Curr M.Rsp}
    (hc : Searching name c) {s : Ril.State M} (hs : s.curr = some c) (hd : s.interdata = none)
    {records : List Record} (hne : records ≠ []) (hw : ∀ r ∈ records, Whole r.line)
    {xs : List (Ril.Item M)} (hxs : xs.filterMap Ril.own = records.map Record.line)
    (hb : ∀ x ∈ xs, Ril.Between c x)
    (hm : Meets Ril.advance (Ril.Heeds c) ⟨s, []⟩ (xs ++ [.final (lua "OK")]))
    {w w' : Ril.Session M} (hr : run Ril.advance ⟨s, []⟩ xs = some w)
    (ht : w.ril.rsptable (lua "+CPBF") = some H.pbrsp)
    (hok : Ril.advance w (.final (lua "OK")) = some w') :
    (H.pb w'.ril.out).msgs = (H.pb w.ril.out).msgs ++
        records.dropLast.map (fun r => found true (searched name) r.line) ∧
      (H.pb w'.ril.out).msgs ≠ (H.pb w.ril.out).msgs ++
        records.map fun r => .findCnf true r.index r.number name := by
  have hwaits : Ril.Waits c s ⟨s, []⟩ := ⟨hs, hd, rfl⟩
  have hans : Ril.Answer c ([] ++ xs.filterMap Ril.own) (lua "OK") := by
    rw [List.nil_append, hxs]
    exact hc.answer records
  obtain ⟨htold, hend⟩ := hwaits.told hans hb hm
  have hfinal : Ril.Told c w (.final (lua "OK")) := ((meets_append.mp htold).2 w hr w' hok).1
  have hrun : run Ril.advance ⟨s, []⟩ (xs ++ [.final (lua "OK")]) = some w' :=
    run_append.mpr ⟨w, hr, run_cons_eq_some.mpr ⟨w', hok, rfl⟩⟩
  have hgot : w.got = records.map Record.line := by
    rw [← hxs, ← List.nil_append (xs.filterMap Ril.own), ← (hend w' hrun).2.1,
      Ril.advance_got hok]
    simp [Ril.own]
  obtain ⟨t, hstep, rfl⟩ := Option.map_eq_some_iff.mp hok
  have hp := Ril.step_line hstep
  rw [hfinal] at hp
  have houtcome : Ril.outcome c w.got (lua "OK") = (true, some (lua "OK"), Ril.joined w.got) := by
    rw [Ril.outcome, if_pos (.inl rfl)]
  rw [houtcome] at hp
  obtain ⟨r, hcall, hout⟩ := rsp_out hc.rsp (by rw [hc.head, ht]) hp
  rw [hc.cmd] at hcall
  have hmsgs : (H.pb t.out).msgs = (H.pb w.ril.out).msgs ++
      records.dropLast.map (fun r => found true (searched name) r.line) := by
    rw [hout, H.runs hcall, hgot, pbrsp_msgs]
    · simp [Function.comp_def, List.map_dropLast]
    · simpa using hne
    · simpa using hw
    · simp only [List.mem_map]
      rintro _ ⟨r, -, rfl⟩
      intro hnil
      cases hnil
  refine ⟨hmsgs, fun hall => ?_⟩
  have hlen := congrArg List.length (hmsgs.symm.trans hall)
  have hpos := List.length_pos_of_ne_nil hne
  simp only [List.length_append, List.length_map, List.length_dropLast] at hlen
  omega

/-- `pbrsp` for a command with the prefix `+CPBF`. -/
def cpbfrsp (cmd : LuaString) (success : Bool) (intermediate : LuaString) (s : State) : State :=
  let name := (smatch1 cmd (lua "AT%+CPBF%s*=%s*\"(%w*)\"")).getD []
  if intermediate = [] then dispatch (.findCnf success [] [] name) s
  else (lines [] intermediate).foldl (fun s w => dispatch (found success name w) s) s

/-- A program that searches; `none` is the start of `pb`. -/
def phone : Ril.Modules where
  Outside := State
  Rsp := Unit
  Urc := Unit
  Filter := Unit
  Task := Option LuaString
  rsp _ cmd success _ interdata s := some ⟨cpbfrsp cmd success (interdata.getD []) s, []⟩
  urc _ _ _ s := some (⟨s, []⟩, none)
  filter _ data s := some (⟨s, []⟩, data, none)
  task name s :=
    match name with
    | none => some ⟨s, [.regrsp (lua "+CPBF") () none none]⟩
    | some name => some ⟨(find (some name) s).1,
        if (find (some name) s).2 then [.request ⟨(Cmd.cpbf name).text, none, none, none⟩] else []⟩

def phoneHosts : Hosts phone where
  pbrsp := ()
  pb := id
  runs h := by
    cases h
    rfl

/-- The start of a session, up to a search. -/
def opening (name : LuaString) : List (Ril.Act phone) :=
  [.task none, .read, .line (Ril.received (lua "RDY")), .finish, .read,
    .line (Ril.received (lua "OK")), .finish, .read, .line (Ril.received (lua "OK")), .finish,
    .task (some name), .read]

/-- The state in which the records arrive. -/
def opened (name : LuaString) : Option (Ril.State phone × Ril.Curr phone.Rsp) :=
  (run Ril.step (Ril.boot phone init) (opening name)).bind fun s => s.curr.map (s, ·)

theorem opened_curr {name : LuaString} {p : Ril.State phone × Ril.Curr phone.Rsp}
    (h : opened name = some p) : p.1.curr = some p.2 := by
  obtain ⟨t, -, ht⟩ := Option.bind_eq_some_iff.mp h
  obtain ⟨c, hc, rfl⟩ := Option.map_eq_some_iff.mp ht
  exact hc

/-- Two records for a name. -/
def entries : List Record :=
  [⟨lua "1", lua "10086", lua "129", lua "ANN"⟩, ⟨lua "2", lua "+10010", lua "145", lua "ANN"⟩]

/-- The records, with a pause of the reader. -/
def arriving : List (Ril.Item phone) :=
  [.own (lua "+CPBF: 1,\"10086\",129,\"ANN\""), .act .finish, .act .read,
    .own (lua "+CPBF: 2,\"+10010\",145,\"ANN\"")]

/-- One of two records is reported. -/
theorem last_record_lost_of_two : ∃ p w w', opened (lua "ANN") = some p ∧
    run Ril.advance ⟨p.1, []⟩ arriving = some w ∧
    Ril.advance w (.final (lua "OK")) = some w' ∧
    w'.ril.out.msgs = w.ril.out.msgs ++ [.findCnf true (lua "1") (lua "10086") (lua "ANN")] ∧
    w'.ril.out.msgs ≠ w.ril.out.msgs ++
      entries.map fun r => .findCnf true r.index r.number (lua "ANN") := by
  have h : (opened (lua "ANN")).bind (fun p => (run Ril.advance ⟨p.1, []⟩ arriving).map fun w =>
      decide ((p.1.interdata = none ∧ p.2.entry.req.cmd = (Cmd.cpbf (lua "ANN")).text ∧
        p.2.entry.req.rsp.isNone ∧ p.2.cmdhead = lua "+CPBF" ∧ p.2.cmdtype = .MLINE) ∧
        Meets Ril.advance (Ril.Heeds p.2) ⟨p.1, []⟩ (arriving ++ [.final (lua "OK")]) ∧
        (w.ril.rsptable (lua "+CPBF")).isSome ∧
        (Ril.advance w (.final (lua "OK"))).isSome)) = some true := by
    decide +kernel
  obtain ⟨p, ho, hp⟩ := Option.bind_eq_some_iff.mp h
  obtain ⟨w, hw, hp⟩ := Option.map_eq_some_iff.mp hp
  obtain ⟨⟨hd, hcmd, hrsp, hhead, htype⟩, hm, ht, hok⟩ := of_decide_eq_true hp
  obtain ⟨w', hw'⟩ := Option.isSome_iff_exists.mp hok
  obtain ⟨⟨⟩, ht⟩ := Option.isSome_iff_exists.mp ht
  have hb : ∀ x ∈ arriving, Ril.Between p.2 x := by
    simp only [arriving, List.forall_mem_cons, Ril.Between]
    simp
  have hsearch : Searching (lua "ANN") p.2 :=
    ⟨hcmd, Option.isNone_iff_eq_none.mp hrsp, hhead, htype⟩
  have hne : entries ≠ [] := List.cons_ne_nil _ _
  have hlost := last_record_lost phoneHosts hsearch (opened_curr ho) hd hne (by decide) rfl hb hm hw
    ht hw'
  refine ⟨p, w, w', ho, hw, hw', ?_, hlost.2⟩
  have hfound : entries.dropLast.map (fun r => found true (searched (lua "ANN")) r.line) =
      [.findCnf true (lua "1") (lua "10086") (lua "ANN")] := by
    decide
  rw [← hfound]
  exact hlost.1

/-- The only record of an answer is not reported. -/
theorem only_record_lost : ((opened (lua "ANN")).bind fun p =>
    (run Ril.advance ⟨p.1, []⟩ [.own (lua "+CPBF: 1,\"10086\",129,\"ANN\""),
      .final (lua "OK")]).map fun w => decide (w.ril.curr = none) && w.ril.out.msgs = []) =
    some true := by
  decide +kernel

end LuatAir200.Pb
