import LuatAir200.MiscModel

/-!
# Whose callback is told what

The answers come in order, so a callback is called for its own command as long as its slot is
not given to another call in between. The copy of a value tells what is stored as long as
nothing else has been written since it was read.
-/
namespace LuatAir200.Misc
open Lua Machine CallbackSlots

/-- The commands whose answers look into the same slot. -/
inductive Lane
  | sn
  | imei
  | clock
  | other
  deriving DecidableEq

def Cmd.lane : Cmd → Lane
  | .wisn _ => .sn
  | .wimei _ => .imei
  | .cclk _ => .clock
  | .atwmft | .wisnread | .cgsn | .amfac _ => .other

def slots (s : State) : Lane → Option Callback
  | .sn => s.wsncb
  | .imei => s.wimeicb
  | .clock => s.setclkcb
  | .other => none

/-- The callbacks of the outstanding commands of a lane. -/
def owns (i : Lane) (s : State) : List (Option Callback) :=
  lane i (s.ril.map fun r => (r.cmd.lane, r.own))

/-- A call that makes a command of lane `i` finds none outstanding; or it has no callback, and
there is none in the slot. -/
def alone (i : Lane) (cb : Bool) (s : State) : Bool := owns i s = [] ∨ cb = false ∧ slots s i = none

/-- The condition on a call. -/
def careful (s : State) : Act → Bool
  | .setsn v cb => if s.sn = some v then cb = false ∨ v = s.store.sn else alone .sn cb s
  | .setimei v cb => if s.imei = some v then cb = false ∨ v = s.store.imei else alone .imei cb s
  | .setclock t cb => t.year > 2038 ∨ alone .clock cb s
  | _ => true

/-! ## Answers -/

@[simp] theorem slots_call (cb : Option Callback) (a : Args) (s : State) :
    slots (call cb a s) = slots s := by
  cases cb <;> rfl

theorem called_call (cb : Option Callback) (a : Args) (s : State) :
    (call cb a s).called = s.called ++ (cb.map fun c => (c, a)).toList := by
  cases cb with
  | none => simp [call]
  | some c => rfl

/-- What the answer to a command does: it calls the callback in the slot of its lane. -/
structure Answers (cmd : Cmd) (a : Args) (s t : State) : Prop where
  ril : t.ril = s.ril
  passed : t.passed = s.passed
  answered : t.answered = s.answered
  called : t.called = s.called ++ ((slots s cmd.lane).map fun c => (c, a)).toList
  slots : slots t = slots s

theorem answers_quiet {cmd : Cmd} {a : Args} {s t : State} (hl : cmd.lane = .other)
    (hr : t.ril = s.ril) (hp : t.passed = s.passed) (ha : t.answered = s.answered)
    (hc : t.called = s.called) (hs : slots t = slots s) : Answers cmd a s t := by
  refine ⟨hr, hp, ha, ?_, hs⟩
  rw [hc, hl]
  exact (List.append_nil _).symm

theorem answers_told {cmd : Cmd} {success : Bool} {stored : LuaString} {s : State}
    {cb : Option Callback} (hcb : cb = slots s cmd.lane) :
    Answers cmd (.done success) s (told cb success stored s) := by
  have hreport (v : LuaString) : slots (report success v stored s) = slots s := by
    cases success <;> rfl
  cases cb with
  | none =>
      refine ⟨rfl, rfl, rfl, ?_, rfl⟩
      rw [← hcb]
      exact (List.append_nil _).symm
  | some c =>
      simp only [told]
      refine ⟨?_, ?_, ?_, ?_, ?_⟩
      · cases success <;> rfl
      · cases success <;> rfl
      · cases success <;> rfl
      · rw [called_call, ← hcb]
        cases success <;> rfl
      · rw [slots_call, hreport]

theorem rsp_answers (cmd : Cmd) (success : Bool) (response : LuaString) (i : Option LuaString)
    (s : State) : Answers cmd (args cmd success response i) s (rsp cmd success response i s) := by
  cases cmd with
  | atwmft => exact answers_quiet rfl rfl rfl rfl rfl (by funext j; cases j <;> rfl)
  | wisnread => exact answers_quiet rfl rfl rfl rfl rfl (by funext j; cases j <;> rfl)
  | cgsn => exact answers_quiet rfl rfl rfl rfl rfl (by funext j; cases j <;> rfl)
  | amfac r => exact answers_quiet rfl rfl rfl rfl rfl rfl
  | wisn v => exact answers_told rfl
  | wimei v => exact answers_told rfl
  | cclk t =>
      refine ⟨?_, ?_, ?_, called_call _ _ s, slots_call _ _ s⟩
      · cases hc : s.setclkcb <;> simp [rsp, call, hc]
      · cases hc : s.setclkcb <;> simp [rsp, call, hc]
      · cases hc : s.setclkcb <;> simp [rsp, call, hc]

/-- The value that a writing command stores. -/
def Cmd.value : Cmd → Option LuaString
  | .wisn v => some v
  | .wimei v => some v
  | _ => none

theorem reports_told {cb : Option Callback} {success : Bool} {stored : LuaString} {s : State}
    (h : Honest s) (hc : ∀ c, cb = some c → success = true → c.wanted = stored) :
    Honest (told cb success stored s) := by
  cases cb with
  | none => exact h
  | some c =>
      cases success with
      | false => exact h
      | true =>
          intro r hr
          obtain hr | hr := List.mem_append.mp hr
          · exact h r hr
          · obtain rfl := List.mem_singleton.mp hr
            exact hc c rfl rfl

/-- The state in which the handler of an answer starts. -/
def taken (r : Req) (ril : List Req) (a : Answer) (s : State) : State :=
  { s with
    ril := ril
    store := s.store.write r.cmd a.success
    answered := s.answered ++
      [(r.own, args r.cmd a.success a.response (s.store.read r.cmd a.success a.intermediate))] }

theorem answer_eq {r : Req} {ril : List Req} {s : State} (hr : s.ril = r :: ril) (a : Answer) :
    answer a s = rsp r.cmd a.success a.response (s.store.read r.cmd a.success a.intermediate)
      (taken r ril a s) := by
  simp only [answer, hr]
  rfl

theorem slots_taken (r : Req) (ril : List Req) (a : Answer) (s : State) :
    slots (taken r ril a s) = slots s := by
  funext j
  cases j <;> rfl

/-- An answer that calls the callback of its own command is honest. -/
theorem honest_answer {r : Req} {ril : List Req} {s : State} (hr : s.ril = r :: ril) (a : Answer)
    (h : Honest s) (hown : slots s r.cmd.lane = r.own)
    (hw : ∀ c v, r.own = some c → r.cmd.value = some v → c.wanted = v) : Honest (answer a s) := by
  rw [answer_eq hr]
  have ht : Honest (taken r ril a s) := h
  obtain ⟨cmd, own⟩ := r
  cases cmd with
  | wisn v =>
      apply reports_told ht
      intro c hc hs
      have hc' : own = some c := hown.symm.trans hc
      rw [hw c v hc' rfl]
      simp [taken, Store.write, hs]
  | wimei v =>
      apply reports_told ht
      intro c hc hs
      have hc' : own = some c := hown.symm.trans hc
      rw [hw c v hc' rfl]
      simp [taken, Store.write, hs]
  | cclk t =>
      intro p hp
      refine ht p ?_
      cases hcb : s.setclkcb <;> simpa [rsp, call, taken, hcb] using hp
  | atwmft | wisnread | cgsn | amfac => exact ht

/-! ## What the slots promise -/

/-- The outstanding commands will find their own callbacks. -/
def Promised (s : State) : Prop :=
  ServesAll keep (slots s) (s.ril.map fun r => (r.cmd.lane, r.own))

/-- Callbacks are numbered, and know what their commands store. -/
structure Tidy (s : State) : Prop where
  below : ∀ r ∈ s.ril, ∀ c, r.own = some c → c.no < s.passed
  wanted : ∀ r ∈ s.ril, ∀ c v, r.own = some c → r.cmd.value = some v → c.wanted = v

section Answer

variable {r : Req} {ril : List Req} {s : State}

theorem right_answer (hr : s.ril = r :: ril) (a : Answer) (h : Right s) :
    Right (answer a s) ↔ slots s r.cmd.lane = r.own := by
  have ha := rsp_answers r.cmd a.success a.response
    (s.store.read r.cmd a.success a.intermediate) (taken r ril a s)
  have hrs : s.called = s.answered.filterMap fun p => p.1.map fun c => (c, p.2) := h
  rw [answer_eq hr, Right, ha.called, ha.answered, slots_taken]
  show s.called ++ _ = (s.answered ++ _).filterMap _ ↔ _
  rw [List.filterMap_append, ← hrs, List.append_cancel_left_eq]
  cases slots s r.cmd.lane <;> cases r.own <;> simp

theorem answer_state (hr : s.ril = r :: ril) (a : Answer) : (answer a s).ril = ril ∧
    (answer a s).passed = s.passed ∧ slots (answer a s) = slots s := by
  have ha := rsp_answers r.cmd a.success a.response
    (s.store.read r.cmd a.success a.intermediate) (taken r ril a s)
  rw [answer_eq hr]
  exact ⟨ha.ril, ha.passed, ha.slots.trans (slots_taken r ril a s)⟩

theorem answer_tidy (hr : s.ril = r :: ril) (a : Answer) (h : Tidy s) : Tidy (answer a s) := by
  obtain ⟨hril, hpassed, -⟩ := answer_state hr a
  constructor
  · intro q hq
    rw [hril] at hq
    rw [hpassed]
    exact h.below q (hr ▸ List.mem_cons_of_mem r hq)
  · intro q hq
    rw [hril] at hq
    exact h.wanted q (hr ▸ List.mem_cons_of_mem r hq)

theorem promised_answer (hr : s.ril = r :: ril) (a : Answer) :
    Promised s ↔ slots s r.cmd.lane = r.own ∧ Promised (answer a s) := by
  obtain ⟨h1, -, h2⟩ := answer_state hr a
  rw [Promised, hr, Promised, h1, h2]
  have hkeep : Function.update (slots s) r.cmd.lane (keep (slots s r.cmd.lane)).2 = slots s :=
    Function.update_eq_self _ _
  rw [List.map_cons, ServesAll, hkeep]
  rfl

end Answer

theorem good_iff {s : State} (ht : Tidy s) : Good s ↔ Right s ∧ Honest s ∧ Promised s := by
  constructor
  · intro h
    refine ⟨(h []).1, (h []).2, ?_⟩
    generalize hn : s.ril.length = n
    induction n generalizing s with
    | zero =>
        rw [List.length_eq_zero_iff] at hn
        rw [Promised, hn]
        trivial
    | succ n ih =>
        obtain ⟨r, ril, hr⟩ := List.exists_cons_of_length_eq_add_one hn
        rw [promised_answer hr ⟨true, [], none⟩]
        refine ⟨(right_answer hr ⟨true, [], none⟩ (h []).1).mp (h [⟨true, [], none⟩]).1, ?_⟩
        apply ih (answer_tidy hr _ ht)
        · exact fun as => h (⟨true, [], none⟩ :: as)
        · rw [(answer_state hr _).1]
          rw [hr, List.length_cons] at hn
          omega
  · rintro ⟨hright, hhonest, hprom⟩ as
    induction as generalizing s with
    | nil => exact ⟨hright, hhonest⟩
    | cons a as ih =>
        rw [List.foldl_cons]
        cases hr : s.ril with
        | nil =>
            have hs : answer a s = s := by simp only [answer, hr]
            rw [hs]
            exact ih ht hright hhonest hprom
        | cons r ril =>
            obtain ⟨hown, hnext⟩ := (promised_answer hr a).mp hprom
            have hw := ht.wanted r (hr ▸ List.mem_cons_self)
            exact ih (answer_tidy hr a ht) ((right_answer hr a hright).mpr hown)
              (honest_answer hr a hhonest hown hw) hnext

/-! ## Calls -/

/-- What a call that makes a command does; a change of the restart setting may go before it. -/
structure Makes (cmd : Cmd) (own : Option Callback) (s t : State) : Prop where
  ril : ∃ pre : List Req, t.ril = s.ril ++ pre ++ [⟨cmd, own⟩] ∧
    ∀ r ∈ pre, r.own = none ∧ r.cmd.lane = .other
  passed : s.passed ≤ t.passed
  answered : t.answered = s.answered
  called : t.called = s.called
  reports : t.reports = s.reports
  slots : slots t = Function.update (slots s) cmd.lane own

section Calls

variable {cmd : Cmd} {own : Option Callback} {s t : State}

theorem lane_other {l : List Req} (h : ∀ r ∈ l, r.own = none ∧ r.cmd.lane = .other) {i : Lane}
    (hi : i ≠ .other) : lane i (l.map fun r => (r.cmd.lane, r.own)) = [] := by
  rw [lane, List.map_eq_nil_iff, List.filter_eq_nil_iff]
  intro c hc
  obtain ⟨r, hr, rfl⟩ := List.mem_map.mp hc
  simpa [(h r hr).2] using hi.symm

theorem lane_append (i : Lane) (l m : List (Lane × Option Callback)) :
    lane i (l ++ m) = lane i l ++ lane i m := by
  rw [lane, List.filter_append, List.map_append]
  rfl

theorem mem_lane_other {l : List Req} (h : ∀ r ∈ l, r.own = none ∧ r.cmd.lane = .other) {i : Lane}
    {o : Option Callback} (ho : o ∈ lane i (l.map fun r => (r.cmd.lane, r.own))) : o = none := by
  obtain ⟨c, hc, rfl⟩ := List.mem_map.mp ho
  obtain ⟨r, hr, rfl⟩ := List.mem_map.mp (List.mem_filter.mp hc).1
  exact (h r hr).1

/-- After a call the promises are kept if its lane's command finds its callback. -/
theorem Makes.good (hm : Makes cmd own s t) (ht : Tidy s) (htt : Tidy t) (hg : Good s)
    (hl : cmd.lane ≠ .other) : Good t ↔ ∀ o ∈ owns cmd.lane s, o = own := by
  rw [good_iff ht] at hg
  rw [good_iff htt]
  obtain ⟨hright, hhonest, hprom⟩ := hg
  obtain ⟨pre, hril, hpre⟩ := hm.ril
  have hr : Right t := by
    rw [Right, hm.called, hm.answered]
    exact hright
  have hh : Honest t := by
    rw [Honest, hm.reports]
    exact hhonest
  have hown (i : Lane) : lane i (t.ril.map fun r => (r.cmd.lane, r.own)) =
      owns i s ++ lane i (pre.map fun r => (r.cmd.lane, r.own)) ++ lane i [(cmd.lane, own)] := by
    rw [hril, List.map_append, List.map_append, lane_append, lane_append]
    rfl
  rw [Promised, servesAll_iff] at hprom ⊢
  constructor
  · rintro ⟨-, -, hs⟩ o ho
    have hi := hs cmd.lane
    rw [hown, hm.slots, Function.update_self, serves_keep] at hi
    exact hi o (List.mem_append_left _ (List.mem_append_left _ ho))
  · intro ho
    refine ⟨hr, hh, fun i => ?_⟩
    rw [hown, hm.slots, serves_keep]
    by_cases hi : i = cmd.lane
    · subst hi
      rw [Function.update_self, lane_other hpre hl]
      intro o hmem
      simp only [List.append_nil, List.mem_append] at hmem
      obtain hmem | hmem := hmem
      · exact ho o hmem
      · simpa [lane] using hmem
    · rw [Function.update_of_ne hi]
      have hself : lane i [(cmd.lane, own)] = [] := by
        simp [lane, Ne.symm hi]
      rw [hself, List.append_nil]
      intro o hmem
      obtain hmem | hmem := List.mem_append.mp hmem
      · exact serves_keep.mp (hprom i) o hmem
      · have hnone := mem_lane_other hpre hmem
        by_cases hio : i = .other
        · subst hio
          exact hnone
        · rw [lane_other hpre hio] at hmem
          cases hmem

theorem Tidy.makes (h : Tidy s) (hm : Makes cmd own s t)
    (hnew : ∀ c, own = some c → c.no < t.passed ∧ ∀ v, cmd.value = some v → c.wanted = v) :
    Tidy t := by
  obtain ⟨pre, hril, hpre⟩ := hm.ril
  have hcases : ∀ r ∈ t.ril, r ∈ s.ril ∨ r.own = none ∨ r = ⟨cmd, own⟩ := by
    intro r hr
    rw [hril] at hr
    obtain hr | hr := List.mem_append.mp hr
    · obtain hr | hr := List.mem_append.mp hr
      · exact .inl hr
      · exact .inr (.inl (hpre r hr).1)
    · exact .inr (.inr (List.mem_singleton.mp hr))
  constructor
  · intro r hr c hc
    obtain hr | hn | rfl := hcases r hr
    · exact Nat.lt_of_lt_of_le (h.below r hr c hc) hm.passed
    · rw [hn] at hc
      cases hc
    · exact (hnew c hc).1
  · intro r hr c v hc hv
    obtain hr | hn | rfl := hcases r hr
    · exact h.wanted r hr c v hc hv
    · rw [hn] at hc
      cases hc
    · exact (hnew c hc).2 v hv

/-- The outstanding commands of a lane keep their callback if there are none of them, or if
neither they nor the new one have any. -/
theorem keeps_iff (ht : Tidy s) (hg : Good s) {cb : Bool} {v : LuaString} {i : Lane} :
    (∀ o ∈ owns i s, o = newcb cb v s) ↔ alone i cb s = true := by
  have hprom := serves_keep.mp (servesAll_iff.mp ((good_iff ht).mp hg).2.2 i)
  simp only [alone, decide_eq_true_eq]
  constructor
  · intro h
    cases hl : owns i s with
    | nil => exact .inl rfl
    | cons o os =>
        have ho : o ∈ owns i s := hl ▸ List.mem_cons_self
        have hslot : o = slots s i := hprom o ho
        cases cb with
        | true =>
            exfalso
            have hnew : o = some ⟨s.passed, v⟩ := h o ho
            obtain ⟨c, hc, hco⟩ := List.mem_map.mp ho
            obtain ⟨r, hr, rfl⟩ := List.mem_map.mp (List.mem_filter.mp hc).1
            exact absurd (ht.below r hr _ (hco.trans hnew)) (Nat.lt_irrefl _)
        | false => exact .inr ⟨rfl, hslot.symm.trans (h o ho)⟩
  · rintro (hl | ⟨rfl, hs⟩) o ho
    · rw [hl] at ho
      cases ho
    · exact (hprom o ho).trans hs

end Calls

/-! ## Steps and runs -/

theorem pass_fields (cb : Bool) (s : State) : (pass cb s).ril = s.ril ∧
    (pass cb s).answered = s.answered ∧ (pass cb s).called = s.called ∧
    (pass cb s).reports = s.reports ∧ slots (pass cb s) = slots s ∧
    (pass cb s).passed = s.passed + cb.toNat := by
  cases cb <;> exact ⟨rfl, rfl, rfl, rfl, rfl, rfl⟩

theorem newcb_new {cb : Bool} {v : LuaString} {s : State} {c : Callback}
    (h : newcb cb v s = some c) : c.no < s.passed + cb.toNat ∧ c.wanted = v := by
  cases cb with
  | true =>
      cases h
      exact ⟨Nat.lt_succ_self _, rfl⟩
  | false => cases h

/-- A value that needs no command: its callback is told so at once. -/
theorem reported_good {s : State} (ht : Tidy s) (hg : Good s) (cb : Bool) (v stored : LuaString) :
    Tidy (pass cb (report cb v stored s)) ∧
      (Good (pass cb (report cb v stored s)) ↔ cb = false ∨ v = stored) := by
  cases cb with
  | false => exact ⟨ht, iff_of_true hg (.inl rfl)⟩
  | true =>
      have htt : Tidy (pass true (report true v stored s)) :=
        ⟨fun r hr c hc => Nat.lt_succ_of_lt (ht.below r hr c hc), ht.wanted⟩
      refine ⟨htt, ?_⟩
      obtain ⟨hright, hhonest, hprom⟩ := (good_iff ht).mp hg
      rw [good_iff htt]
      constructor
      · rintro ⟨-, hh, -⟩
        exact .inr (hh (v, stored) (List.mem_append_right _ (List.mem_singleton_self _)))
      · intro h
        have hv : v = stored := h.resolve_left (by simp)
        refine ⟨hright, ?_, hprom⟩
        intro r hr
        obtain hr | hr := List.mem_append.mp hr
        · exact hhonest r hr
        · obtain rfl := List.mem_singleton.mp hr
          exact hv

/-- A call that makes a command with a slot. -/
theorem made_good {s t : State} {cmd : Cmd} {cb : Bool} {v : LuaString} (ht : Tidy s)
    (hg : Good s) (hl : cmd.lane ≠ .other) (hv : ∀ w, cmd.value = some w → w = v)
    (hm : Makes cmd (newcb cb v s) s (pass cb t)) (hp : t.passed = s.passed) :
    Tidy (pass cb t) ∧ (Good (pass cb t) ↔ alone cmd.lane cb s = true) := by
  have htt : Tidy (pass cb t) := by
    apply ht.makes hm
    intro c hc
    obtain ⟨hlt, hw⟩ := newcb_new hc
    rw [(pass_fields cb t).2.2.2.2.2, hp]
    exact ⟨hlt, fun w h => hw.trans (hv w h).symm⟩
  exact ⟨htt, (hm.good ht htt hg hl).trans (keeps_iff ht hg)⟩

theorem setsn_good {s : State} (ht : Tidy s) (hg : Good s) (v : LuaString) (cb : Bool) :
    Tidy (setsn v cb s) ∧ (Good (setsn v cb s) ↔ careful s (.setsn v cb) = true) := by
  unfold setsn
  split
  · rename_i h
    obtain ⟨htt, hgt⟩ := reported_good ht hg cb v s.store.sn
    refine ⟨htt, hgt.trans ?_⟩
    simp [careful, h]
  · rename_i h
    have hm : Makes (.wisn v) (newcb cb v s) s (pass cb { req (.wisn v) (newcb cb v s)
        (req (.amfac !cb) none s) with wsncb := newcb cb v s }) := by
      have hf := pass_fields cb { req (.wisn v) (newcb cb v s) (req (.amfac !cb) none s) with
        wsncb := newcb cb v s }
      refine ⟨⟨[⟨.amfac !cb, none⟩], hf.1, ?_⟩, ?_, hf.2.1, hf.2.2.1, hf.2.2.2.1, ?_⟩
      · intro r hr
        obtain rfl := List.mem_singleton.mp hr
        exact ⟨rfl, rfl⟩
      · rw [hf.2.2.2.2.2]
        exact Nat.le_add_right _ _
      · rw [hf.2.2.2.2.1]
        funext j
        cases j <;> rfl
    have hv : ∀ w, (Cmd.wisn v).value = some w → w = v := fun w hw => (Option.some.inj hw).symm
    obtain ⟨htt, hgt⟩ := made_good ht hg (fun hl => by cases hl) hv hm rfl
    refine ⟨htt, hgt.trans ?_⟩
    simp [careful, h, Cmd.lane]

theorem setimei_good {s : State} (ht : Tidy s) (hg : Good s) (v : LuaString) (cb : Bool) :
    Tidy (setimei v cb s) ∧ (Good (setimei v cb s) ↔ careful s (.setimei v cb) = true) := by
  unfold setimei
  split
  · rename_i h
    obtain ⟨htt, hgt⟩ := reported_good ht hg cb v s.store.imei
    refine ⟨htt, hgt.trans ?_⟩
    simp [careful, h]
  · rename_i h
    have hm : Makes (.wimei v) (newcb cb v s) s (pass cb { req (.wimei v) (newcb cb v s)
        (req (.amfac !cb) none s) with wimeicb := newcb cb v s }) := by
      have hf := pass_fields cb { req (.wimei v) (newcb cb v s) (req (.amfac !cb) none s) with
        wimeicb := newcb cb v s }
      refine ⟨⟨[⟨.amfac !cb, none⟩], hf.1, ?_⟩, ?_, hf.2.1, hf.2.2.1, hf.2.2.2.1, ?_⟩
      · intro r hr
        obtain rfl := List.mem_singleton.mp hr
        exact ⟨rfl, rfl⟩
      · rw [hf.2.2.2.2.2]
        exact Nat.le_add_right _ _
      · rw [hf.2.2.2.2.1]
        funext j
        cases j <;> rfl
    have hv : ∀ w, (Cmd.wimei v).value = some w → w = v := fun w hw => (Option.some.inj hw).symm
    obtain ⟨htt, hgt⟩ := made_good ht hg (fun hl => by cases hl) hv hm rfl
    refine ⟨htt, hgt.trans ?_⟩
    simp [careful, h, Cmd.lane]

theorem setclock_good {s : State} (ht : Tidy s) (hg : Good s) (t : Clock) (cb : Bool) :
    Tidy (setclock t cb s) ∧ (Good (setclock t cb s) ↔ careful s (.setclock t cb) = true) := by
  unfold setclock
  split
  · rename_i h
    exact ⟨ht, iff_of_true hg (by simp [careful, h])⟩
  · rename_i h
    have hm : Makes (.cclk t) (newcb cb [] s) s (pass cb (req (.cclk t) (newcb cb [] s)
        { s with setclkcb := newcb cb [] s })) := by
      have hf := pass_fields cb (req (.cclk t) (newcb cb [] s) { s with setclkcb := newcb cb [] s })
      refine ⟨⟨[], ?_, ?_⟩, ?_, hf.2.1, hf.2.2.1, hf.2.2.2.1, ?_⟩
      · rw [hf.1, List.append_nil]
        rfl
      · intro r hr
        cases hr
      · rw [hf.2.2.2.2.2]
        exact Nat.le_add_right _ _
      · rw [hf.2.2.2.2.1]
        funext j
        cases j <;> rfl
    obtain ⟨htt, hgt⟩ := made_good ht hg (fun hl => by cases hl) (fun w hw => by cases hw) hm rfl
    refine ⟨htt, hgt.trans ?_⟩
    simp [careful, h, Cmd.lane]

theorem tidy_of_none {s : State} (h : ∀ r ∈ s.ril, r.own = none) : Tidy s := by
  constructor
  · intro r hr c hc
    rw [h r hr] at hc
    cases hc
  · intro r hr c v hc
    rw [h r hr] at hc
    cases hc

theorem init_none (store : Store) : ∀ r ∈ (init store).ril, r.own = none := by
  intro r hr
  simp only [init, List.mem_cons, List.not_mem_nil, or_false] at hr
  obtain rfl | rfl | rfl := hr <;> rfl

/-- After a restart nothing is outstanding but the readings. -/
theorem restart_good {s : State} (hg : Good s) : Tidy (restart s) ∧ Good (restart s) := by
  have ht : Tidy (restart s) := tidy_of_none (init_none s.store)
  exact ⟨ht, (good_iff ht).mpr ⟨(hg []).1, (hg []).2, rfl, rfl, rfl, trivial⟩⟩

theorem step_good {s t : State} {a : Act} (ht : Tidy s) (hg : Good s) (h : step s a = some t) :
    Tidy t ∧ (Good t ↔ careful s a = true) := by
  cases a with
  | setsn v cb =>
      obtain rfl := Option.some.inj h
      exact setsn_good ht hg v cb
  | setimei v cb =>
      obtain rfl := Option.some.inj h
      exact setimei_good ht hg v cb
  | setclock t cb =>
      obtain rfl := Option.some.inj h
      exact setclock_good ht hg t cb
  | answer a =>
      obtain ⟨hne, h⟩ := Option.ite_none_left_eq_some.mp h
      obtain rfl := Option.some.inj h
      obtain ⟨r, ril, hr⟩ := List.exists_cons_of_ne_nil hne
      refine ⟨answer_tidy hr a ht, iff_of_true ?_ rfl⟩
      exact fun as => hg (a :: as)
  | restart =>
      obtain rfl := Option.some.inj h
      obtain ⟨htt, hgt⟩ := restart_good hg
      exact ⟨htt, iff_of_true hgt rfl⟩

theorem init_good (store : Store) : Tidy (init store) ∧ Good (init store) := by
  have ht : Tidy (init store) := tidy_of_none (init_none store)
  refine ⟨ht, (good_iff ht).mpr ⟨rfl, ?_, rfl, rfl, rfl, trivial⟩⟩
  intro r hr
  cases hr

/-- Every callback is called for its own command, once, and a value that is reported to be
stored is stored, also by the answers that are still to come, exactly if the calls are made as
`careful` says. -/
theorem reports_true (store : Store) (acts : List Act) :
    Along step Good (init store) acts ↔
      Meets step (fun s a => careful s a = true) (init store) acts := by
  apply along_iff_meets_via (A := fun _ => True) (Q := fun s => Tidy s ∧ Good s)
  · exact fun s hs => hs.2
  · rintro s a t - ⟨ht, hg⟩ hc h
    obtain ⟨htt, hgt⟩ := step_good ht hg h
    exact ⟨htt, hgt.mpr hc⟩
  · rintro s a t - ⟨ht, hg⟩ hgt h
    exact (step_good ht hg h).2.mp hgt
  · exact init_good store
  · exact fun _ _ => trivial

/-- The first value, another one that is stored, and the first one again: it is reported to be
stored, and is not. -/
theorem first_value_not_stored : ∃ s ∈ run step (init ⟨lua "A", []⟩)
    [.answer ⟨true, [], none⟩, .answer ⟨true, [], none⟩, .answer ⟨true, [], none⟩,
      .setsn (lua "B") true, .answer ⟨true, [], none⟩, .answer ⟨true, [], none⟩,
      .setsn (lua "A") true],
    s.reports = [(lua "B", lua "B"), (lua "A", lua "B")] ∧ ¬Honest s := by
  refine ⟨_, rfl, by decide +kernel, ?_⟩
  intro h
  exact absurd (h (lua "A", lua "B") (by decide +kernel)) (by decide +kernel)

end LuatAir200.Misc
