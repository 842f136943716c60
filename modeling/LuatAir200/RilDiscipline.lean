import LuatAir200.Fifo
import LuatAir200.RilModel

/-!
# The discipline of the AT channel

Commands go over the port one at a time and in the order of the requests, and a
callback runs for the command that is outstanding.
-/
namespace LuatAir200.Ril
open Lua Machine

variable {M : Modules}

/-- A command is written while none is outstanding, and is outstanding until its callback
runs, which is its own one if it has one. The second argument is the outstanding command. -/
inductive Disciplined {ρ : Type} : List (Event ρ) → Option (Entry ρ) → Prop
  | start : Disciplined [] none
  | write {tr : List (Event ρ)} (e : Entry ρ) (h : Disciplined tr none) :
      Disciplined (tr ++ [.write e]) (some e)
  | data {tr : List (Event ρ)} {e : Entry ρ} (d : LuaString) (h : Disciplined tr (some e)) :
      Disciplined (tr ++ [.data d]) (some e)
  | answer {tr : List (Event ρ)} {e : Entry ρ} (f : Callback ρ) (h : Disciplined tr (some e))
      (hf : ∀ g, f = .currsp g ↔ e.req.rsp = some g) : Disciplined (tr ++ [.answer e f]) none

/-- The commands that have been written to the port. -/
def written {ρ : Type} (tr : List (Event ρ)) : List (Entry ρ) :=
  tr.filterMap fun v => match v with
    | .write e => some e
    | _ => none

/-- The commands for which a callback has run. -/
def answered {ρ : Type} (tr : List (Event ρ)) : List (Entry ρ) :=
  tr.filterMap fun v => match v with
    | .answer e _ => some e
    | _ => none

/-- A recognised head, and an argument where one is needed. -/
def wellFormed {ρ : Type} (e : Entry ρ) : Bool :=
  match cmdhead e.req.cmd with
  | some head => hasArg head e.req.arg
  | none => false

/-- The request without its delay, which has no part in the order. -/
def undelayed {ρ : Type} (e : Entry ρ) : Entry ρ := { e with req := { e.req with delay := none } }

/-- The command that is outstanding. -/
def outstanding (s : State M) : Option (Entry M.Rsp) := s.curr.map Curr.entry

@[simp] theorem wellFormed_undelayed {ρ : Type} (e : Entry ρ) :
    wellFormed (undelayed e) = wellFormed e := rfl

/-- Written commands are answered in order, all but the outstanding one. -/
theorem Disciplined.written_eq {ρ : Type} {tr : List (Event ρ)} {o : Option (Entry ρ)}
    (h : Disciplined tr o) : written tr = answered tr ++ o.toList := by
  induction h with
  | start => rfl
  | write e h ih => simp_all [written, answered]
  | data d h ih => simp_all [written, answered]
  | answer f h hf ih => simp_all [written, answered]

/-- What has happened up to any moment of a disciplined history was disciplined. -/
theorem Disciplined.initial {ρ : Type} {tr : List (Event ρ)} {o : Option (Entry ρ)}
    (h : Disciplined tr o) {front : List (Event ρ)} (hf : front <+: tr) :
    ∃ o, Disciplined front o := by
  induction h with
  | start => exact ⟨none, List.prefix_nil.mp hf ▸ .start⟩
  | write e h ih =>
      obtain rfl | hf := List.prefix_concat_iff.mp hf
      · exact ⟨_, .write e h⟩
      · exact ih hf
  | data d h ih =>
      obtain rfl | hf := List.prefix_concat_iff.mp hf
      · exact ⟨_, .data d h⟩
      · exact ih hf
  | answer f h hfit ih =>
      obtain rfl | hf := List.prefix_concat_iff.mp hf
      · exact ⟨_, .answer f h hfit⟩
      · exact ih hf

/-- The requests are numbered, and the well-formed ones have been written or wait, in order. -/
structure InTurn (s : State M) : Prop where
  numbered : s.requests.map Entry.no = List.range s.requests.length
  order : ((written s.trace ++ s.cmdqueue).filter wellFormed).map undelayed =
    (s.requests.filter wellFormed).map undelayed
  written : ∀ e ∈ written s.trace, wellFormed e

/-! ## Rules for the calls and the received text -/

/-- What holds after registrations and after requests holds after another module has run. -/
theorem ran_induct {P : State M → Prop}
    (hreg : ∀ s out rilcmd rsptable formtab urctable, P s → P { s with
      out := out, rilcmd := rilcmd, rsptable := rsptable, formtab := formtab, urctable := urctable })
    (hreq : ∀ s r, P s → P (request r s)) {s : State M} (h : P s)
    (r : Ran M.Outside M.Rsp M.Urc) : P (ran r s) := by
  have hcall (t : State M) (c : Call M.Rsp M.Urc) (ht : P t) : P (perform c t) := by
    cases c with
    | request r => exact hreq t r ht
    | regrsp head fnc typ formt =>
        simp only [perform, regrsp]
        split
        · exact hreg t _ _ _ _ _ ht
        · split
          · exact ht
          · exact hreg t _ _ _ _ _ ht
    | regurc head handler => exact hreg t _ _ _ _ _ ht
    | deregurc head => exact hreg t _ _ _ _ _ ht
  have hfold (cs : List (Call M.Rsp M.Urc)) (t : State M) (ht : P t) :
      P (cs.foldl (fun s c => perform c s) t) := by
    induction cs generalizing t with
    | nil => exact ht
    | cons c cs ih => exact ih (perform c t) (hcall t c ht)
  exact hfold r.calls _ (hreg s r.out _ _ _ _ h)

theorem sendloop_out (q : List (Entry M.Rsp)) (s : State M) (out : M.Outside) :
    sendloop q { s with out := out } = { sendloop q s with out := out } := by
  induction q with
  | nil => rfl
  | cons e es ih =>
      have hg : getcmd e { s with out := out } = getcmd e s := rfl
      cases hc : getcmd e s with
      | none =>
          simp only [sendloop, hg, hc]
          exact ih
      | some c =>
          simp only [sendloop, hg, hc]
          split <;> rfl

theorem sendat_out (s : State M) (out : M.Outside) :
    sendat { s with out := out } = { sendat s with out := out } := by
  unfold sendat
  split
  · rfl
  · exact sendloop_out s.cmdqueue s out

theorem perform_out (c : Call M.Rsp M.Urc) (s : State M) (out : M.Outside) :
    perform c { s with out := out } = { perform c s with out := out } := by
  cases c with
  | request r =>
      exact sendat_out { s with
        cmdqueue := s.cmdqueue ++ [⟨s.requests.length, r⟩]
        requests := s.requests ++ [⟨s.requests.length, r⟩] } out
  | regrsp head fnc typ formt =>
      simp only [perform, regrsp]
      split
      · rfl
      · split <;> rfl
  | regurc head handler => rfl
  | deregurc head => rfl

/-- The calls neither read nor change what is outside. -/
theorem ran_eq (r : Ran M.Outside M.Rsp M.Urc) (s : State M) :
    ran r s = { r.calls.foldl (fun s c => perform c s) s with out := r.out } := by
  have hfold (cs : List (Call M.Rsp M.Urc)) (t : State M) (out : M.Outside) :
      cs.foldl (fun s c => perform c s) { t with out := out } =
        { cs.foldl (fun s c => perform c s) t with out := out } := by
    induction cs generalizing t with
    | nil => rfl
    | cons c cs ih =>
        simp only [List.foldl_cons, perform_out]
        exact ih (perform c t)
  exact hfold r.calls s r.out

theorem ran_out (r : Ran M.Outside M.Rsp M.Urc) (s : State M) : (ran r s).out = r.out := by
  rw [ran_eq]

/-- What `rsp` does: the answer is recorded, a callback may run, and its command is no
longer the current one. -/
theorem rsp_cases {s t : State M} {c : Curr M.Rsp} {success : Bool}
    {respdata interdata : Option LuaString} (ht : rsp c success respdata interdata s = some t) :
    ∃ s' u, s' = { s with trace := s.trace ++ [.answer c.entry (callback c s)] } ∧
      t = { u with curr := none, interdata := none } ∧
      (u = s' ∨ ∃ f r, M.rsp f c.entry.req.cmd success respdata interdata s.out = some r ∧
        u = ran r s') := by
  obtain ⟨u, hu, rfl⟩ := Option.map_eq_some_iff.mp ht
  refine ⟨_, u, rfl, rfl, ?_⟩
  unfold runCallback at hu
  split at hu
  · obtain ⟨r, hr, rfl⟩ := Option.map_eq_some_iff.mp hu
    exact .inr ⟨_, r, hr, rfl⟩
  · obtain ⟨r, hr, rfl⟩ := Option.map_eq_some_iff.mp hu
    exact .inr ⟨_, r, hr, rfl⟩
  · cases hu
    exact .inl rfl

theorem urc_cases {s t : State M} {data : LuaString} (ht : urc data s = some t) :
    t = { s with radioready := true } ∨ t = { s with urcfilter := none } ∨
    ∃ h head r, s.urctable head = some h ∧ M.urc h data head s.out = some r ∧
      t = { ran r.1 s with urcfilter := r.2 } := by
  unfold urc at ht
  split at ht
  · cases ht
    exact .inl rfl
  · split at ht
    · rename_i head h hm
      obtain ⟨m, -, he⟩ := Option.map_eq_some_iff.mp hm
      obtain ⟨rfl, hh⟩ := Prod.mk.inj he
      obtain ⟨r, hr, rfl⟩ := Option.map_eq_some_iff.mp ht
      exact .inr (.inr ⟨h, m, r, hh, hr, rfl⟩)
    · cases ht
      exact .inr (.inl rfl)

/-- What a piece of AT text may do. -/
inductive Handled (s : State M) : State M → Prop
  | empty : Handled s s
  | urc (data : LuaString) {t : State M} (ht : urc data s = some t) : Handled s t
  | intermediate {c : Curr M.Rsp} (hc : s.curr = some c) (d : LuaString) :
      Handled s { s with interdata := some d }
  | write {c : Curr M.Rsp} (hc : s.curr = some c) (d : LuaString) : Handled s (write d s)
  | rsp {c : Curr M.Rsp} (hc : s.curr = some c) (success : Bool)
      (respdata interdata : Option LuaString) {t : State M}
      (ht : rsp c success respdata interdata s = some t) : Handled s t

theorem prompt_handled {s t : State M} {c : Curr M.Rsp} (hc : s.curr = some c)
    (ht : prompt c s = some t) : Handled s t := by
  unfold prompt at ht
  split at ht
  · obtain ⟨d, -, rfl⟩ := Option.map_eq_some_iff.mp ht
    exact .write hc _
  split at ht
  · obtain ⟨d, -, rfl⟩ := Option.map_eq_some_iff.mp ht
    exact .write hc d
  · cases ht
    exact .empty

theorem response_handled {s t : State M} {c : Curr M.Rsp} {data : LuaString}
    (hc : s.curr = some c) (ht : response c data s = some t) : Handled s t := by
  unfold response at ht
  dsimp only at ht
  generalize (if isError c data then lua "ERROR" else data) = d at ht
  split at ht
  · exact .rsp hc _ _ _ ht
  split at ht
  · exact .rsp hc _ _ _ ht
  split at ht
  · exact prompt_handled hc ht
  split at ht
  · exact .urc d ht
  · cases ht
    exact .intermediate hc _
  · exact .rsp hc _ _ _ ht
  · exact .rsp hc _ _ _ ht

theorem text_handled {s t : State M} {data : LuaString} (ht : text data s = some t) :
    Handled s t := by
  unfold text at ht
  dsimp only at ht
  split at ht
  · cases ht
    exact .empty
  · split at ht
    · exact .urc _ ht
    · rename_i c hc
      exact response_handled hc ht

/-- A line that is not collected goes through the filter, if there is one. -/
theorem filtered_cases {s t : State M} {data : LuaString} (ht : filtered data s = some t) :
    (s.urcfilter = none ∧ text data s = some t) ∨
    ∃ f r, s.urcfilter = some f ∧ M.filter f data s.out = some r ∧
      text r.2.1 { ran r.1 s with urcfilter := r.2.2 } = some t := by
  unfold filtered at ht
  split at ht
  · rename_i f hf
    obtain ⟨r, hr, ht⟩ := Option.bind_eq_some_iff.mp ht
    exact .inr ⟨f, r, hf, hr, ht⟩
  · rename_i hf
    exact .inl ⟨hf, ht⟩

theorem procatc_cases {s t : State M} {data : LuaString} (ht : procatc data s = some t) :
    (∃ d c, s.curr = some c ∧ t = { s with interdata := some d }) ∨ filtered data s = some t := by
  unfold procatc at ht
  split at ht
  · rename_i d hd
    split at ht
    · cases ht
      unfold collecting at hd
      split at hd
      · rename_i c _ hc _
        exact .inl ⟨_, c, hc, rfl⟩
      · cases hd
    · exact .inr ht
  · exact .inr ht

/-! ## Requests -/

theorem getcmd_entry {e : Entry M.Rsp} {s : State M} {c : Curr M.Rsp} (h : getcmd e s = some c) :
    c.entry = e := by
  unfold getcmd at h
  split at h
  · cases h
  · split at h
    · cases h
      rfl
    · cases h

theorem getcmd_isSome (e : Entry M.Rsp) (s : State M) : (getcmd e s).isSome = wellFormed e := by
  unfold getcmd wellFormed
  cases cmdhead e.req.cmd with
  | none => rfl
  | some head =>
      dsimp only
      cases hasArg head e.req.arg <;> rfl

theorem getcmd_eq_none {e : Entry M.Rsp} {s : State M} : getcmd e s = none ↔ wellFormed e = false := by
  rw [← getcmd_isSome e s, Option.isSome_eq_false_iff, Option.isNone_iff_eq_none]

theorem InTurn.wellFormed_of_getcmd {e : Entry M.Rsp} {s : State M} {c : Curr M.Rsp}
    (h : getcmd e s = some c) : wellFormed e = true := by
  rw [← getcmd_isSome e s, h]
  rfl

theorem written_write {ρ : Type} (tr : List (Event ρ)) (e : Entry ρ) :
    written (tr ++ [.write e]) = written tr ++ [e] := by simp [written]

theorem written_answer {ρ : Type} (tr : List (Event ρ)) (e : Entry ρ) (f : Callback ρ) :
    written (tr ++ [.answer e f]) = written tr := by simp [written]

theorem written_data {ρ : Type} (tr : List (Event ρ)) (d : LuaString) :
    written (tr ++ [.data d]) = written tr := by simp [written]

/-- Taking commands from the queue keeps the turn: `q` is what is left of it. -/
theorem sendloop_inTurn (q : List (Entry M.Rsp)) {s : State M}
    (h : InTurn { s with cmdqueue := q }) : InTurn (sendloop q s) := by
  induction q with
  | nil => exact h
  | cons e es ih =>
      obtain ⟨hn, ho, hw⟩ := h
      have hsplit : written s.trace ++ e :: es = (written s.trace ++ [e]) ++ es := by simp
      cases hg : getcmd e s with
      | none =>
          simp only [sendloop, hg]
          have hwf := getcmd_eq_none.mp hg
          refine ih ⟨hn, ?_, hw⟩
          rw [← ho]
          simp [hwf]
      | some c =>
          have hwf := InTurn.wellFormed_of_getcmd hg
          simp only [sendloop, hg]
          split
          · refine ⟨hn, ?_, hw⟩
            rw [← ho]
            have hu : wellFormed { e with req := { e.req with delay := none } } = true := hwf
            simp [hwf, hu, undelayed]
          · refine ⟨hn, ?_, ?_⟩
            · rw [← ho]
              simp only [written_write, hsplit]
            · intro d hd
              simp only [written_write, List.mem_append, List.mem_singleton] at hd
              obtain hd | rfl := hd
              · exact hw d hd
              · exact hwf

theorem sendat_inTurn {s : State M} (h : InTurn s) : InTurn (sendat s) := by
  unfold sendat
  split
  · exact h
  · exact sendloop_inTurn s.cmdqueue h

theorem request_inTurn {s : State M} (h : InTurn s) (r : Req M.Rsp) : InTurn (request r s) := by
  refine sendat_inTurn ⟨?_, ?_, h.written⟩
  · simp [h.numbered, List.range_succ]
  · have ho := h.order
    simp only [List.filter_append, List.map_append] at ho ⊢
    rw [← List.append_assoc, ho]

theorem ran_inTurn {s : State M} (h : InTurn s) (r : Ran M.Outside M.Rsp M.Urc) :
    InTurn (ran r s) :=
  ran_induct (P := InTurn) (fun _ _ _ _ _ _ h => ⟨h.numbered, h.order, h.written⟩)
    (fun _ r h => request_inTurn h r) h r

/-! ## Writing and answering -/

theorem sendloop_disciplined (q : List (Entry M.Rsp)) {s : State M} (hc : s.curr = none)
    (h : Disciplined s.trace none) :
    Disciplined (sendloop q s).trace (outstanding (sendloop q s)) := by
  induction q with
  | nil => simpa [sendloop, outstanding, hc] using h
  | cons e es ih =>
      cases hg : getcmd e s with
      | none =>
          simp only [sendloop, hg]
          exact ih
      | some c =>
          simp only [sendloop, hg]
          split
          · simpa [outstanding, hc] using h
          · have he : outstanding { s with curr := some c, cmdqueue := es
                                           trace := s.trace ++ [.write e] } = some e :=
              congrArg some (getcmd_entry hg)
            rw [he]
            exact .write e h

theorem sendat_disciplined {s : State M} (h : Disciplined s.trace (outstanding s)) :
    Disciplined (sendat s).trace (outstanding (sendat s)) := by
  unfold sendat
  split
  · exact h
  · rename_i hg
    have hc : s.curr = none := by
      cases hc : s.curr with
      | none => rfl
      | some c => simp [hc] at hg
    refine sendloop_disciplined s.cmdqueue hc ?_
    simpa [outstanding, hc] using h

theorem ran_disciplined {s : State M} (h : Disciplined s.trace (outstanding s))
    (r : Ran M.Outside M.Rsp M.Urc) : Disciplined (ran r s).trace (outstanding (ran r s)) :=
  ran_induct (P := fun s => Disciplined s.trace (outstanding s)) (fun _ _ _ _ _ _ h => h)
    (fun _ _ h => sendat_disciplined h) h r

/-- Calls made while a command is outstanding write nothing. -/
theorem ran_outstanding {s : State M} {c : Curr M.Rsp} (hc : s.curr = some c)
    (r : Ran M.Outside M.Rsp M.Urc) : (ran r s).curr = some c ∧ (ran r s).trace = s.trace := by
  refine ran_induct (P := fun t => t.curr = some c ∧ t.trace = s.trace)
    (fun _ _ _ _ _ _ h => h) ?_ ⟨hc, rfl⟩ r
  intro t r ht
  have hs : request r t = { t with
      cmdqueue := t.cmdqueue ++ [⟨t.requests.length, r⟩]
      requests := t.requests ++ [⟨t.requests.length, r⟩] } := by
    rw [request, sendat, if_pos]
    simp [ht.1]
  rw [hs]
  exact ht

theorem callback_currsp (c : Curr M.Rsp) (s : State M) (g : M.Rsp) :
    callback c s = .currsp g ↔ c.entry.req.rsp = some g := by
  unfold callback
  cases hr : c.entry.req.rsp with
  | some f => simp
  | none =>
      cases ht : s.rsptable c.cmdhead <;> simp

structure Regular (s : State M) : Prop where
  disciplined : Disciplined s.trace (outstanding s)
  inTurn : InTurn s

theorem ran_regular {s : State M} (h : Regular s) (r : Ran M.Outside M.Rsp M.Urc) :
    Regular (ran r s) :=
  ⟨ran_disciplined h.disciplined r, ran_inTurn h.inTurn r⟩

theorem sendat_regular {s : State M} (h : Regular s) : Regular (sendat s) :=
  ⟨sendat_disciplined h.disciplined, sendat_inTurn h.inTurn⟩

/-- Two states that agree on the queue and the port. -/
theorem Regular.congr {s t : State M} (h : Regular s) (hq : t.cmdqueue = s.cmdqueue)
    (hc : t.curr = s.curr) (hr : t.requests = s.requests) (ht : t.trace = s.trace) : Regular t := by
  obtain ⟨hd, hn, ho, hw⟩ := h
  refine ⟨?_, ?_, ?_, ?_⟩
  · rw [ht, outstanding, hc]
    exact hd
  · rw [hr]
    exact hn
  · rw [ht, hq, hr]
    exact ho
  · rw [ht]
    exact hw

theorem urc_regular {s t : State M} {data : LuaString} (h : Regular s)
    (ht : urc data s = some t) : Regular t := by
  obtain rfl | rfl | ⟨f, head, r, -, -, rfl⟩ := urc_cases ht
  · exact h.congr rfl rfl rfl rfl
  · exact h.congr rfl rfl rfl rfl
  · exact (ran_regular h r.1).congr rfl rfl rfl rfl

theorem write_regular {s : State M} {c : Curr M.Rsp} (h : Regular s) (hc : s.curr = some c)
    (d : LuaString) : Regular (write d s) := by
  have hd := h.disciplined
  have hi := h.inTurn
  rw [outstanding, hc] at hd
  refine ⟨?_, hi.numbered, ?_, ?_⟩
  · have ho : outstanding (write d s) = some c.entry := by rw [outstanding, write, hc]; rfl
    rw [ho]
    exact .data d hd
  · simp only [write, written_data]
    exact hi.order
  · simp only [write, written_data]
    exact hi.written

/-- A callback runs while its command is outstanding, and writes nothing. -/
theorem rsp_regular {s t : State M} {c : Curr M.Rsp} (h : Regular s) (hc : s.curr = some c)
    {success : Bool} {respdata interdata : Option LuaString}
    (ht : rsp c success respdata interdata s = some t) : Regular t := by
  have hd : Disciplined (s.trace ++ [.answer c.entry (callback c s)]) none := by
    refine .answer _ ?_ (callback_currsp c s)
    have hs := h.disciplined
    rwa [outstanding, hc] at hs
  have hi : InTurn { s with trace := s.trace ++ [.answer c.entry (callback c s)] } := by
    refine ⟨h.inTurn.numbered, ?_, ?_⟩
    · simp only [written_answer]
      exact h.inTurn.order
    · simp only [written_answer]
      exact h.inTurn.written
  obtain ⟨s', u, rfl, rfl, hu⟩ := rsp_cases ht
  have hsame : u.trace = s.trace ++ [.answer c.entry (callback c s)] ∧ InTurn u := by
    obtain rfl | ⟨f, r, -, rfl⟩ := hu
    · exact ⟨rfl, hi⟩
    · exact ⟨(ran_outstanding (by exact hc) r).2, ran_inTurn hi r⟩
  refine ⟨?_, hsame.2.numbered, hsame.2.order, hsame.2.written⟩
  simp only [hsame.1]
  exact hd

theorem text_regular {s t : State M} {data : LuaString} (h : Regular s)
    (ht : text data s = some t) : Regular t := by
  cases text_handled ht with
  | empty => exact h
  | urc data ht => exact urc_regular h ht
  | intermediate hc d => exact h.congr rfl rfl rfl rfl
  | write hc d => exact write_regular h hc d
  | rsp hc success respdata interdata ht => exact rsp_regular h hc ht

theorem procatc_regular {s t : State M} {data : LuaString} (h : Regular s)
    (ht : procatc data s = some t) : Regular t := by
  obtain ⟨d, c, -, rfl⟩ | ht := procatc_cases ht
  · exact h.congr rfl rfl rfl rfl
  · obtain ⟨-, ht⟩ | ⟨f, r, -, -, ht⟩ := filtered_cases ht
    · exact text_regular h ht
    · have hr : Regular { ran r.1 s with urcfilter := r.2.2 } :=
        (ran_regular h r.1).congr rfl rfl rfl rfl
      exact text_regular hr ht

theorem step_regular (s : State M) (a : Act M) (t : State M) (h : Regular s)
    (ht : step s a = some t) : Regular t := by
  cases a with
  | task k =>
      obtain ⟨-, ht⟩ := Option.ite_none_left_eq_some.mp ht
      obtain ⟨r, -, rfl⟩ := Option.map_eq_some_iff.mp ht
      exact ran_regular h r
  | read =>
      obtain ⟨-, ⟨⟩⟩ := Option.ite_none_left_eq_some.mp ht
      exact h.congr rfl rfl rfl rfl
  | line data =>
      obtain ⟨-, ht⟩ := Option.ite_none_right_eq_some.mp ht
      exact procatc_regular h ht
  | finish =>
      obtain ⟨-, ⟨⟩⟩ := Option.ite_none_right_eq_some.mp ht
      exact sendat_regular (h.congr rfl rfl rfl rfl)
  | delayfunc =>
      obtain ⟨-, ⟨⟩⟩ := Option.ite_none_right_eq_some.mp ht
      exact sendat_regular (h.congr rfl rfl rfl rfl)

theorem boot_regular (out : M.Outside) : Regular (boot M out) where
  disciplined := .start
  inTurn := ⟨rfl, rfl, fun e he => by cases he⟩

/-! ## Nothing is left in the queue -/

/-- A command waits only while the channel is not ready or is read, a command is
outstanding or a delay runs. -/
def Drained (s : State M) : Prop :=
  s.radioready = true → s.readat = false → s.curr = none → s.delaying = false → s.cmdqueue = []

theorem sendloop_drained (q : List (Entry M.Rsp)) (s : State M) : Drained (sendloop q s) := by
  induction q with
  | nil => exact fun _ _ _ _ => rfl
  | cons e es ih =>
      cases hg : getcmd e s with
      | none =>
          simp only [sendloop, hg]
          exact ih
      | some c =>
          simp only [sendloop, hg]
          split
          · intro _ _ _ hd
            cases hd
          · intro _ _ hc
            cases hc

theorem sendat_drained (s : State M) : Drained (sendat s) := by
  unfold sendat
  split
  · rename_i hg
    intro h1 h2 h3 h4
    simp [h1, h2, h3, h4] at hg
  · exact sendloop_drained s.cmdqueue s

theorem sendloop_readat (q : List (Entry M.Rsp)) (s : State M) :
    (sendloop q s).readat = s.readat := by
  induction q with
  | nil => rfl
  | cons e es ih =>
      cases hg : getcmd e s with
      | none =>
          simp only [sendloop, hg]
          exact ih
      | some c =>
          simp only [sendloop, hg]
          split <;> rfl

theorem sendat_readat (s : State M) : (sendat s).readat = s.readat := by
  unfold sendat
  split
  · rfl
  · exact sendloop_readat s.cmdqueue s

theorem ran_readat (r : Ran M.Outside M.Rsp M.Urc) (s : State M) :
    (ran r s).readat = s.readat :=
  ran_induct (P := fun t => t.readat = s.readat) (fun _ _ _ _ _ _ h => h)
    (fun _ _ h => (sendat_readat _).trans h) rfl r

theorem ran_drained {s : State M} (h : Drained s) (r : Ran M.Outside M.Rsp M.Urc) :
    Drained (ran r s) :=
  ran_induct (fun _ _ _ _ _ _ h => h) (fun _ _ _ => sendat_drained _) h r

theorem urc_readat {data : LuaString} {s t : State M} (ht : urc data s = some t) :
    t.readat = s.readat := by
  obtain rfl | rfl | ⟨f, head, r, -, -, rfl⟩ := urc_cases ht
  · rfl
  · rfl
  · exact ran_readat r.1 s

theorem text_readat {s t : State M} {data : LuaString} (ht : text data s = some t) :
    t.readat = s.readat := by
  cases text_handled ht with
  | empty => rfl
  | urc data ht => exact urc_readat ht
  | intermediate hc d => rfl
  | write hc d => rfl
  | rsp hc success respdata interdata ht =>
      obtain ⟨s', u, rfl, rfl, rfl | ⟨f, r, -, rfl⟩⟩ := rsp_cases ht
      · rfl
      · exact ran_readat r _

theorem procatc_readat {s t : State M} {data : LuaString} (ht : procatc data s = some t) :
    t.readat = s.readat := by
  obtain ⟨d, c, -, rfl⟩ | ht := procatc_cases ht
  · rfl
  · obtain ⟨-, ht⟩ | ⟨f, r, -, -, ht⟩ := filtered_cases ht
    · exact text_readat ht
    · exact (text_readat ht).trans (ran_readat r.1 s)

theorem step_drained (s : State M) (a : Act M) (t : State M) (h : Drained s)
    (ht : step s a = some t) : Drained t := by
  cases a with
  | task k =>
      obtain ⟨-, ht⟩ := Option.ite_none_left_eq_some.mp ht
      obtain ⟨r, -, rfl⟩ := Option.map_eq_some_iff.mp ht
      exact ran_drained h r
  | read =>
      obtain ⟨-, ⟨⟩⟩ := Option.ite_none_left_eq_some.mp ht
      intro _ hr
      cases hr
  | line data =>
      obtain ⟨hr, ht⟩ := Option.ite_none_right_eq_some.mp ht
      intro _ hf
      rw [procatc_readat ht, hr.1] at hf
      cases hf
  | finish =>
      obtain ⟨-, ⟨⟩⟩ := Option.ite_none_right_eq_some.mp ht
      exact sendat_drained _
  | delayfunc =>
      obtain ⟨-, ⟨⟩⟩ := Option.ite_none_right_eq_some.mp ht
      exact sendat_drained _

/-! ## The discipline -/

/-- On every run of the channel: at any moment of its history at most one command is
outstanding, and each callback has run for the command that was outstanding, with the
command's own function if it has one; the commands on the port are the well-formed
requests in the order of the requests, the rest of which are in the queue; and none
waits without a reason. -/
theorem at_discipline {out : M.Outside} {s : State M} (h : Reachable step (boot M out) s) :
    Disciplined s.trace (outstanding s) ∧
    (∀ front, front <+: s.trace →
      ∃ o : Option (Entry M.Rsp), Disciplined front o ∧ written front = answered front ++ o.toList) ∧
    s.requests.map Entry.no = List.range s.requests.length ∧
    (∀ e ∈ written s.trace, wellFormed e) ∧
    (written s.trace).map undelayed ++ (s.cmdqueue.filter wellFormed).map undelayed =
      (s.requests.filter wellFormed).map undelayed ∧
    Drained s := by
  have hreg : Regular s := h.invariant step_regular (boot_regular out)
  have hlive : Drained s := by
    refine h.invariant step_drained ?_
    intro hr
    cases hr
  obtain ⟨hd, hn, ho, hw⟩ := hreg
  refine ⟨hd, fun front hf => ?_, hn, hw, ?_, hlive⟩
  · obtain ⟨o, hfront⟩ := hd.initial hf
    exact ⟨o, hfront, hfront.written_eq⟩
  · rw [← ho, List.filter_append, List.map_append, List.filter_eq_self.mpr hw]

/-- A program that registers and does nothing. -/
def silent : Modules where
  Outside := Unit
  Rsp := Unit
  Urc := Unit
  Filter := Unit
  Task := Req Unit
  rsp _ _ _ _ _ _ := some ⟨(), []⟩
  urc _ _ _ _ := some (⟨(), []⟩, none)
  filter _ data _ := some (⟨(), []⟩, data, none)
  task r _ := some ⟨(), [.request r]⟩

/-- The start of a session; of the three requests the first one is delayed and the
second one is dropped. -/
def session : List (Act silent) :=
  [.read, .line (lua "RDY\r\n"), .finish, .read, .line (lua "OK\r\n"), .finish,
    .task ⟨lua "AT+CSQ", none, none, some 100⟩, .task ⟨lua "AT+CIPSEND", none, none, none⟩,
    .task ⟨lua "AT+CCLK?", none, some (), none⟩, .read, .line (lua "OK\r\n"), .finish, .delayfunc]

theorem at_discipline_session : ∃ s : State silent, run step (boot silent ()) session = some s ∧
    (written s.trace).map Entry.no = [0, 1, 2] ∧
    (written s.trace).map undelayed ++ (s.cmdqueue.filter wellFormed).map undelayed =
      (s.requests.filter wellFormed).map undelayed := by
  have h : (run step (boot silent ()) session).map (fun s => (written s.trace).map Entry.no) =
      some [0, 1, 2] := by
    decide +kernel
  obtain ⟨s, hr, hs⟩ := Option.map_eq_some_iff.mp h
  exact ⟨s, hr, hs, (at_discipline ⟨session, hr⟩).2.2.2.2.1⟩

end LuatAir200.Ril
