import LuatAir200.ReceiveHeader
import LuatAir200.RilDiscipline

/-!
# Blocks on the AT channel

When the line that announces a block reaches the handler, the block is delivered as a
whole, whatever its bytes are and however it is cut. The line reaches the handler
unless the outstanding command takes it for its own response.
-/
namespace LuatAir200.Receive
open Lua Ril Machine

variable {O : Others}

/-! ## What is received outside blocks -/

/-- There is intermediate data only for a command. -/
def Idle {M : Modules} (s : Ril.State M) : Prop := s.curr = none → s.interdata = none

/-- Data is kept only inside a block. -/
structure Tidy (s : State O) : Prop where
  idle : Idle s
  data : s.out.rcvd.data = [] ∨ s.urcfilter = some Filter.rcvdfilter ∧
    ∃ len, s.out.rcvd.len = some len ∧ s.out.rcvd.data.length < len

/-- No block is being received. -/
def Between (s : State O) : Prop :=
  s.urcfilter = none ∨ s.urcfilter = some Filter.rcvdfilter ∧ s.out.rcvd.len = some 0

/-- What the interface leaves alone; it may make a queued command the current one. -/
structure Kept {M : Modules} (s t : Ril.State M) : Prop where
  urcfilter : t.urcfilter = s.urcfilter
  interdata : t.interdata = s.interdata
  curr : t.curr = s.curr ∨ s.curr = none

section Kept
variable {M : Modules}

theorem Kept.refl (s : Ril.State M) : Kept s s := ⟨rfl, rfl, .inl rfl⟩

theorem Kept.trans {s t u : Ril.State M} (h : Kept s t) (k : Kept t u) : Kept s u where
  urcfilter := k.urcfilter.trans h.urcfilter
  interdata := k.interdata.trans h.interdata
  curr := by
    obtain hc | hc := h.curr
    · rw [← hc]
      exact k.curr
    · exact .inr hc

theorem sendloop_kept (q : List (Entry M.Rsp)) {s : Ril.State M} (hc : s.curr = none) :
    Kept s (sendloop q s) := by
  induction q with
  | nil => exact ⟨rfl, rfl, .inl rfl⟩
  | cons e es ih =>
      cases hg : getcmd e s with
      | none =>
          simp only [sendloop, hg]
          exact ih
      | some c =>
          simp only [sendloop, hg]
          split
          · exact ⟨rfl, rfl, .inl rfl⟩
          · exact ⟨rfl, rfl, .inr hc⟩

theorem sendat_kept (s : Ril.State M) : Kept s (sendat s) := by
  unfold sendat
  split
  · exact Kept.refl s
  · rename_i hg
    have hc : s.curr = none := by
      cases hc : s.curr with
      | none => rfl
      | some c => simp [hc] at hg
    exact sendloop_kept s.cmdqueue hc

theorem ran_kept (r : Ran M.Outside M.Rsp M.Urc) (s : Ril.State M) : Kept s (ran r s) := by
  refine ran_induct (P := Kept s) (fun t _ _ _ _ _ h => ?_) (fun t q h => ?_) (Kept.refl s) r
  · exact ⟨h.urcfilter, h.interdata, h.curr⟩
  · have hs : Kept t (request q t) := by
      have hk := sendat_kept { t with
        cmdqueue := t.cmdqueue ++ [⟨t.requests.length, q⟩]
        requests := t.requests ++ [⟨t.requests.length, q⟩] }
      exact ⟨hk.urcfilter, hk.interdata, hk.curr⟩
    exact h.trans hs

theorem Kept.idle {s t : Ril.State M} (h : Kept s t) (hi : Idle s) : Idle t := by
  intro hc
  rw [h.interdata]
  obtain he | he := h.curr
  · exact hi (he ▸ hc)
  · exact hi he

end Kept

/-- AT text delivers nothing, and leaves the data of a block as it is. -/
structure Aside (s t : State O) : Prop where
  data : t.out.rcvd.data = s.out.rcvd.data
  recvs : t.out.recvs = s.out.recvs
  idle : Idle s → Idle t

theorem ran_aside (r : Ran (Side O.Rest) O.Rsp (Handler O.Urc)) {s : State O}
    (hd : r.out.rcvd.data = s.out.rcvd.data) (hr : r.out.recvs = s.out.recvs) :
    Aside s (ran (M := system O) r s) := by
  have ho := ran_out (M := system O) r s
  refine ⟨?_, ?_, (ran_kept (M := system O) r s).idle⟩
  · rw [ho]
    exact hd
  · rw [ho]
    exact hr

theorem urc_out {h : Handler O.Urc} {data head : LuaString} {o : Side O.Rest}
    {r : Ran (Side O.Rest) O.Rsp (Handler O.Urc) × Option (Filter O.Filter)}
    (hr : (system O).urc h data head o = some r) :
    r.1.out.rcvd.data = o.rcvd.data ∧ r.1.out.recvs = o.recvs := by
  cases h with
  | link =>
      have hl : linkurc data head o = some r := hr
      unfold linkurc at hl
      split at hl
      · cases hl
        exact ⟨rfl, rfl⟩
      · obtain ⟨q, -, rfl⟩ := Option.map_eq_some_iff.mp hl
        exact ⟨rfl, rfl⟩
  | other h =>
      obtain ⟨q, -, rfl⟩ := Option.map_eq_some_iff.mp hr
      exact ⟨rfl, rfl⟩

theorem rsp_aside {s t : State O} {c : Curr O.Rsp} {success : Bool}
    {respdata interdata : Option LuaString}
    (ht : rsp (M := system O) c success respdata interdata s = some t) : Aside s t := by
  obtain ⟨s', u, rfl, rfl, rfl | ⟨f, r, hr, rfl⟩⟩ := rsp_cases ht
  · exact ⟨rfl, rfl, fun _ _ => rfl⟩
  · obtain ⟨q, -, rfl⟩ := Option.map_eq_some_iff.mp hr
    have ha := ran_aside (lift s.out q) (s := { s with
      trace := s.trace ++ [.answer c.entry (callback (M := system O) c s)] }) rfl rfl
    exact ⟨ha.data, ha.recvs, fun _ _ => rfl⟩

theorem text_aside {s t : State O} {data : LuaString} (ht : text data s = some t) :
    Aside s t := by
  cases text_handled ht with
  | empty => exact ⟨rfl, rfl, id⟩
  | urc data ht =>
      obtain rfl | rfl | ⟨h, head, r, -, hr, rfl⟩ := urc_cases ht
      · exact ⟨rfl, rfl, id⟩
      · exact ⟨rfl, rfl, id⟩
      · obtain ⟨hd, hrecvs⟩ := urc_out hr
        have ha := ran_aside r.1 hd hrecvs
        exact ⟨ha.data, ha.recvs, ha.idle⟩
  | intermediate hc d =>
      refine ⟨rfl, rfl, fun _ hn => ?_⟩
      cases hc.symm.trans hn
  | write hc d => exact ⟨rfl, rfl, id⟩
  | rsp hc success respdata interdata ht => exact rsp_aside ht

/-! ## The data filter -/

/-- Outside a block all data passes the filter. -/
theorem Between.filtered {s : State O} (h : Between s) (data : LuaString) :
    Ril.filtered data s = text data { s with urcfilter := none } := by
  obtain hf | ⟨hf, hl⟩ := h
  · have hs : s = { s with urcfilter := none } := by
      rw [← hf]
    rw [Ril.filtered, hf]
    exact congrArg (text data) hs
  · have hr : rcvdfilter data s.out = some (⟨s.out, []⟩, data, none) := by
      unfold rcvdfilter
      rw [hl]
      rfl
    rw [Ril.filtered, hf]
    dsimp only
    rw [hr]
    rfl

/-- A line outside a block delivers nothing. -/
theorem Between.procatc_recvs {s t : State O} (h : Between s) {data : LuaString}
    (ht : procatc data s = some t) : t.out.recvs = s.out.recvs := by
  obtain ⟨d, c, -, rfl⟩ | ht := procatc_cases ht
  · rfl
  · rw [h.filtered] at ht
    exact (text_aside ht).recvs

/-- The filter keeps the data of a block as long as it is not complete. -/
theorem rcvdfilter_cases {data : LuaString} {o : Side O.Rest}
    {r : Ran (Side O.Rest) O.Rsp (Handler O.Urc) × LuaString × Option (Filter O.Filter)}
    (hr : rcvdfilter data o = some r)
    (ho : o.rcvd.data = [] ∨ ∃ len, o.rcvd.len = some len ∧ o.rcvd.data.length < len) :
    r.1.out.rcvd.data = [] ∨ r.2.1 = [] ∧ r.2.2 = some .rcvdfilter ∧
      ∃ len, r.1.out.rcvd.len = some len ∧ r.1.out.rcvd.data.length < len := by
  obtain ⟨len, hlen, rfl⟩ := Option.map_eq_some_iff.mp hr
  have hfit : len = 0 ∧ o.rcvd.data = [] ∨ o.rcvd.data.length < len := by
    obtain ho | ⟨n, hn, ho⟩ := ho
    · obtain hz | hz := Nat.eq_zero_or_pos len
      · exact .inl ⟨hz, ho⟩
      · rw [ho]
        exact .inr hz
    · rw [hlen, Option.some.injEq] at hn
      exact .inr (hn ▸ ho)
  split
  · rename_i hz
    obtain ⟨-, hd⟩ | hlt := hfit
    · exact .inl hd
    · omega
  · dsimp only
    split
    · exact .inl rfl
    · rename_i hz hne
      right
      simp only [List.length_append, List.length_take] at hne
      refine ⟨List.drop_eq_nil_of_le ?_, rfl, len, hlen, ?_⟩
      · omega
      · simp only [List.length_append, List.length_take]
        omega

theorem filtered_tidy {s t : State O} (h : Tidy s) {data : LuaString}
    (ht : Ril.filtered data s = some t) : Tidy t := by
  have clear {u : State O} {d : LuaString} (hi : Idle u) (hd : u.out.rcvd.data = [])
      (ht : text d u = some t) : Tidy t := by
    have ha := text_aside ht
    exact ⟨ha.idle hi, .inl (ha.data.trans hd)⟩
  obtain ⟨hf, ht⟩ | ⟨f, r, hf, hr, ht⟩ := filtered_cases ht
  · obtain hd | ⟨hn, -⟩ := h.data
    · exact clear h.idle hd ht
    · cases hf.symm.trans hn
  · have hi : Idle { ran r.1 s with urcfilter := r.2.2 } := (ran_kept r.1 s).idle h.idle
    have ho := ran_out r.1 s
    cases f with
    | rcvdfilter =>
        have hfit : s.out.rcvd.data = [] ∨
            ∃ len, s.out.rcvd.len = some len ∧ s.out.rcvd.data.length < len := by
          obtain hd | ⟨-, hl⟩ := h.data
          · exact .inl hd
          · exact .inr hl
        obtain hd | ⟨hrest, hnext, len, hlen, hlt⟩ := rcvdfilter_cases hr hfit
        · refine clear hi ?_ ht
          rw [ho]
          exact hd
        · rw [hrest] at ht
          cases ht
          refine ⟨hi, .inr ⟨hnext, len, ?_⟩⟩
          rw [ho]
          exact ⟨hlen, hlt⟩
    | other f =>
        obtain hd | ⟨hn, -⟩ := h.data
        · obtain ⟨q, -, rfl⟩ := Option.map_eq_some_iff.mp hr
          refine clear hi ?_ ht
          rw [ho]
          exact hd
        · cases hf.symm.trans hn

theorem sendat_same (s : State O) : (sendat s).out = s.out :=
  congrArg (fun u => u.out) (sendat_out s s.out)

/-- The acts that are not lines. -/
theorem step_kept {s t : State O} {a : Act (system O)} (ha : ∀ d, a ≠ .line d)
    (ht : step s a = some t) :
    Kept s t ∧ t.out.rcvd = s.out.rcvd ∧ t.out.recvs = s.out.recvs := by
  have sent (u : State O) : Kept u (sendat u) ∧
      (sendat u).out.rcvd = u.out.rcvd ∧ (sendat u).out.recvs = u.out.recvs := by
    rw [sendat_same]
    exact ⟨sendat_kept u, rfl, rfl⟩
  cases a with
  | task k =>
      obtain ⟨-, ht⟩ := Option.ite_none_left_eq_some.mp ht
      obtain ⟨r, hr, rfl⟩ := Option.map_eq_some_iff.mp ht
      obtain ⟨q, -, rfl⟩ := Option.map_eq_some_iff.mp hr
      refine ⟨ran_kept _ s, ?_⟩
      rw [ran_out]
      exact ⟨rfl, rfl⟩
  | read =>
      obtain ⟨-, ⟨⟩⟩ := Option.ite_none_left_eq_some.mp ht
      exact ⟨⟨rfl, rfl, .inl rfl⟩, rfl, rfl⟩
  | line data => exact absurd rfl (ha data)
  | finish =>
      obtain ⟨-, ⟨⟩⟩ := Option.ite_none_right_eq_some.mp ht
      obtain ⟨hk, hr⟩ := sent { s with readat := false }
      exact ⟨⟨hk.urcfilter, hk.interdata, hk.curr⟩, hr⟩
  | delayfunc =>
      obtain ⟨-, ⟨⟩⟩ := Option.ite_none_right_eq_some.mp ht
      obtain ⟨hk, hr⟩ := sent { s with delaying := false }
      exact ⟨⟨hk.urcfilter, hk.interdata, hk.curr⟩, hr⟩

theorem step_tidy (s : State O) (a : Act (system O)) (t : State O) (h : Tidy s)
    (ht : step s a = some t) : Tidy t := by
  by_cases ha : ∃ data, a = .line data
  · obtain ⟨data, rfl⟩ := ha
    obtain ⟨-, ht⟩ := Option.ite_none_right_eq_some.mp ht
    obtain ⟨d, c, hc, rfl⟩ | ht := procatc_cases ht
    · refine ⟨fun hn => ?_, h.data⟩
      cases hc.symm.trans hn
    · exact filtered_tidy h ht
  · obtain ⟨hk, hr, -⟩ := step_kept (fun d hd => ha ⟨d, hd⟩) ht
    refine ⟨hk.idle h.idle, ?_⟩
    rw [hk.urcfilter, hr]
    exact h.data

/-! ## A block -/

/-- A block has been announced, and nothing of it has come. -/
def announced (id len : ℕ) (s : State O) : State O :=
  { s with
    out := { s.out with rcvd := ⟨some id, some len, []⟩ }
    urcfilter := some .rcvdfilter }

/-- A part of the block has come. -/
def gathered (got : LuaString) (s : State O) : State O :=
  { s with out := { s.out with rcvd := { s.out.rcvd with data := got } } }

/-- The block has been delivered to `f`, the `recv` of its link. -/
def delivered (f : LuaString → Ran O.Rest O.Rsp (Handler O.Urc)) (id : ℕ) (payload : LuaString)
    (s : State O) : State O :=
  let r : Ran (Side O.Rest) O.Rsp (Handler O.Urc) :=
    ⟨⟨⟨some 0, some 0, []⟩, s.out.recvs ++ [(id, payload)], (f payload).out⟩, (f payload).calls⟩
  { ran (M := system O) r s with urcfilter := none }

theorem rcvdfilter_gathers {id len : ℕ} {got c : LuaString} {o : Side O.Rest}
    (ho : o.rcvd = ⟨some id, some len, got⟩) (hlt : got.length + c.length < len) :
    rcvdfilter c o = some (⟨{ o with rcvd := ⟨some id, some len, got ++ c⟩ }, []⟩, [],
      some .rcvdfilter) := by
  have htake : c.take (len - got.length) = c := List.take_of_length_le (by omega)
  have hdrop : c.drop (len - got.length) = [] := List.drop_eq_nil_of_le (by omega)
  have hne : len ≠ (got ++ c).length := by
    rw [List.length_append]
    omega
  simp only [rcvdfilter, ho, Option.map_some, htake, hdrop, if_neg hne]
  rw [if_neg (by omega)]

theorem rcvdfilter_completes {id len : ℕ} {got c : LuaString} {o : Side O.Rest}
    {f : LuaString → Ran O.Rest O.Rsp (Handler O.Urc)}
    (ho : o.rcvd = ⟨some id, some len, got⟩) (hlt : got.length < len)
    (hle : len ≤ got.length + c.length) (hf : O.recv o.rest id = some f) :
    let payload := got ++ c.take (len - got.length)
    rcvdfilter c o = some (⟨⟨⟨some 0, some 0, []⟩, o.recvs ++ [(id, payload)], (f payload).out⟩,
      (f payload).calls⟩, c.drop (len - got.length), none) := by
  have hlen : len = (got ++ c.take (len - got.length)).length := by
    rw [List.length_append, List.length_take]
    omega
  simp only [rcvdfilter, ho, Option.map_some]
  rw [if_neg (by omega), if_pos hlen]
  simp only [recv, Option.bind_some, hf, Option.map_some]

/-- A block is being received, and its first bytes are kept elsewhere. -/
structure Receiving (id len : ℕ) (s : State O) : Prop where
  urcfilter : s.urcfilter = some Filter.rcvdfilter
  rcvd : s.out.rcvd = ⟨some id, some len, []⟩
  collecting : collecting s = none
  idle : Idle s

section Receiving
variable {id len : ℕ} {s : State O} {got c : LuaString}

theorem Receiving.rcvd_gathered (h : Receiving id len s) (got : LuaString) :
    (gathered got s).out.rcvd = ⟨some id, some len, got⟩ := by
  rw [gathered, h.rcvd]

theorem Receiving.filtered (h : Receiving id len s) (got c : LuaString) :
    procatc c (gathered got s) = (rcvdfilter c (gathered got s).out).bind fun r =>
      text r.2.1 { ran (M := system O) r.1 (gathered got s) with urcfilter := r.2.2 } := by
  have hc : Ril.collecting (gathered got s) = none := h.collecting
  have hf : (gathered got s).urcfilter = some Filter.rcvdfilter := h.urcfilter
  unfold procatc
  rw [hc]
  unfold Ril.filtered
  rw [hf]

/-- A chunk that does not complete the block. -/
theorem Receiving.gathers (h : Receiving id len s) (hlt : got.length + c.length < len) :
    procatc c (gathered got s) = some (gathered (got ++ c) s) := by
  rw [h.filtered, rcvdfilter_gathers (h.rcvd_gathered got) hlt]
  have hs : gathered (got ++ c) s = { s with
      out := { s.out with rcvd := ⟨some id, some len, got ++ c⟩ }
      urcfilter := some .rcvdfilter } := by
    rw [gathered, h.rcvd, ← h.urcfilter]
  rw [hs]
  rfl

/-- The chunk that completes the block. -/
theorem Receiving.completes (h : Receiving id len s) (hlt : got.length < len)
    (hle : len ≤ got.length + c.length) {f : LuaString → Ran O.Rest O.Rsp (Handler O.Urc)}
    (hf : O.recv s.out.rest id = some f) :
    procatc c (gathered got s) = text (c.drop (len - got.length))
      (delivered f id (got ++ c.take (len - got.length)) s) := by
  rw [h.filtered, rcvdfilter_completes (h.rcvd_gathered got) hlt hle hf]
  rfl

end Receiving

/-! ## Chunks among other acts -/

/-- What the acts do apart from the lines. -/
def quiet (s : State O) : Act (system O) → Option (State O)
  | .line data => if s.readat ∧ data ≠ [] then some s else none
  | a => step s a

/-- The data of the lines. -/
def bytes : List (Act (system O)) → LuaString
  | [] => []
  | .line data :: as => data ++ bytes as
  | _ :: as => bytes as

theorem quiet_of_ne {s : State O} {a : Act (system O)} (ha : ∀ d, a ≠ .line d) :
    quiet s a = step s a := by
  cases a with
  | line d => exact absurd rfl (ha d)
  | task t => rfl
  | read => rfl
  | finish => rfl
  | delayfunc => rfl

theorem bytes_of_ne {a : Act (system O)} {as : List (Act (system O))} (ha : ∀ d, a ≠ .line d) :
    bytes (a :: as) = bytes as := by
  cases a with
  | line d => exact absurd rfl (ha d)
  | task t => rfl
  | read => rfl
  | finish => rfl
  | delayfunc => rfl

theorem sendat_gathered (got : LuaString) (s : State O) :
    sendat (gathered got s) = gathered got (sendat s) := by
  rw [gathered, sendat_out, gathered, sendat_same]

theorem ran_gathered (got : LuaString) (s : State O) (q : Ran O.Rest O.Rsp (Handler O.Urc)) :
    ran (M := system O) (lift (gathered got s).out q) (gathered got s) =
      gathered got (ran (M := system O) (lift s.out q) s) := by
  have hr : ran (M := system O) (lift (gathered got s).out q) (gathered got s) =
      ran (M := system O) (lift (gathered got s).out q) s := rfl
  rw [hr, ran_eq, ran_eq]
  rfl

/-- The other acts have no part in what has come of the block. -/
theorem step_gathered {s : State O} {a : Act (system O)} (ha : ∀ d, a ≠ .line d)
    (got : LuaString) : step (gathered got s) a = (step s a).map (gathered got) := by
  have hread : (gathered got s).readat = s.readat := rfl
  have hdelay : (gathered got s).delaying = s.delaying := rfl
  cases a with
  | task k =>
      simp only [step, hread]
      split
      · rfl
      · have hrest : (gathered got s).out.rest = s.out.rest := rfl
        rw [hrest]
        cases O.task k s.out.rest with
        | none => rfl
        | some q => exact congrArg some (ran_gathered got s q)
  | read =>
      simp only [step, hread]
      split <;> rfl
  | line d => exact absurd rfl (ha d)
  | finish =>
      simp only [step, hread]
      split
      · exact congrArg some (sendat_gathered got { s with readat := false })
      · rfl
  | delayfunc =>
      simp only [step, hread, hdelay]
      split
      · exact congrArg some (sendat_gathered got { s with delaying := false })
      · rfl

theorem Receiving.kept {id len : ℕ} {s t : State O} (h : Receiving id len s) (hk : Kept s t)
    (hr : t.out.rcvd = s.out.rcvd) : Receiving id len t := by
  refine ⟨hk.urcfilter.trans h.urcfilter, hr.trans h.rcvd, ?_, hk.idle h.idle⟩
  have hc := h.collecting
  obtain he | he := hk.curr
  · unfold Ril.collecting at hc ⊢
    rw [he, hk.interdata]
    exact hc
  · unfold Ril.collecting
    rw [hk.interdata, h.idle he]
    cases t.curr <;> rfl

/-- As long as the block is not complete, its chunks are gathered. -/
theorem Receiving.run {id len : ℕ} {s t : State O} (h : Receiving id len s)
    {acts : List (Act (system O))} (ht : run quiet s acts = some t) (got : LuaString)
    (hlt : bytes acts = [] ∨ got.length + (bytes acts).length < len) :
    Machine.run step (gathered got s) acts = some (gathered (got ++ bytes acts) t) ∧
      Receiving id len t := by
  induction acts generalizing s got with
  | nil =>
      cases ht
      rw [bytes, List.append_nil]
      exact ⟨rfl, h⟩
  | cons a as ih =>
      obtain ⟨u, hu, ht⟩ := run_cons_eq_some.mp ht
      by_cases ha : ∃ d, a = .line d
      · obtain ⟨d, rfl⟩ := ha
        obtain ⟨⟨hread, hd⟩, ⟨⟩⟩ := Option.ite_none_right_eq_some.mp hu
        rw [bytes] at hlt ⊢
        rw [List.length_append] at hlt
        have hlen : got.length + (d.length + (bytes as).length) < len := by
          obtain hn | hlt := hlt
          · exact absurd (List.append_eq_nil_iff.mp hn).1 hd
          · exact hlt
        have hstep : step (gathered got s) (.line d) = some (gathered (got ++ d) s) := by
          have hg : (gathered got s).readat = true := hread
          simp only [step]
          rw [if_pos ⟨hg, hd⟩]
          exact h.gathers (by omega)
        have hrun := ih h ht (got ++ d) (.inr (by rw [List.length_append]; omega))
        rw [List.append_assoc] at hrun
        exact ⟨run_cons_eq_some.mpr ⟨_, hstep, hrun.1⟩, hrun.2⟩
      · have hne : ∀ d, a ≠ .line d := fun d hd => ha ⟨d, hd⟩
        rw [quiet_of_ne hne] at hu
        rw [bytes_of_ne hne] at hlt ⊢
        obtain ⟨hk, hr, -⟩ := step_kept hne hu
        have hstep : step (gathered got s) a = some (gathered got u) := by
          rw [step_gathered hne, hu]
          rfl
        have hrun := ih (h.kept hk hr) ht got hlt
        exact ⟨run_cons_eq_some.mpr ⟨_, hstep, hrun.1⟩, hrun.2⟩

theorem quiet_recvs {s t : State O} {acts : List (Act (system O))}
    (ht : run quiet s acts = some t) : t.out.recvs = s.out.recvs := by
  refine invariant_run (P := fun u => u.out.recvs = s.out.recvs) (fun u a v hu hv => ?_) rfl ht
  by_cases ha : ∃ d, a = .line d
  · obtain ⟨d, rfl⟩ := ha
    obtain ⟨-, ⟨⟩⟩ := Option.ite_none_right_eq_some.mp hv
    exact hu
  · have hne : ∀ d, a ≠ .line d := fun d hd => ha ⟨d, hd⟩
    rw [quiet_of_ne hne] at hv
    exact (step_kept hne hv).2.2.trans hu

/-! ## The announcement -/

section Announcement
variable {i : UInt8} {ds tl : LuaString} {s t : State O}

/-- The outstanding command leaves the announcement to the handler. -/
def Undisturbed (s : State O) (data : LuaString) : Prop :=
  collecting s = none ∧ ∀ c, s.curr = some c → ¬Takes c s.interdata data

theorem Tidy.clear (h : Tidy s) (hb : Between s) : s.out.rcvd.data = [] := by
  obtain hd | ⟨hf, len, hl, hlt⟩ := h.data
  · exact hd
  · obtain hn | ⟨-, hz⟩ := hb
    · cases hf.symm.trans hn
    · cases hl.symm.trans hz
      omega

theorem Announcing.urc (h : Announcing i ds tl) (hd : s.out.rcvd.data = [])
    (hu : s.urctable (lua "+RECEIVE") = some Handler.link) :
    Ril.urc (announcement i ds tl) s = some (announced (tonumber [i]) (tonumber ds) s) := by
  have hne : announcement i ds tl ≠ lua "RDY" := announcement_ne (by decide)
  have hl : linkurc (announcement i ds tl) (lua "+RECEIVE") s.out = some
      (⟨{ s.out with rcvd := ⟨some (tonumber [i]), some (tonumber ds), []⟩ }, []⟩,
        some .rcvdfilter) := by
    rw [linkurc, if_pos rfl, h.handler]
    simp only [Option.map_some, hd]
  unfold Ril.urc
  rw [if_neg hne, announcement_head, Option.map_some, hu]
  dsimp only
  rw [hl]
  rfl

theorem text_line_idle (hc : s.curr = none) :
    text (line i ds tl) s = Ril.urc (announcement i ds tl) s := by
  have hne : announcement i ds tl ≠ [] := announcement_ne (by decide)
  unfold text
  rw [line, chomp_append, if_neg hne, hc]

theorem text_line_busy {c : Curr O.Rsp} (hc : s.curr = some c) :
    text (line i ds tl) s = Ril.response (M := system O) c (announcement i ds tl) s := by
  have hne : announcement i ds tl ≠ [] := announcement_ne (by decide)
  unfold text
  rw [line, chomp_append, if_neg hne, hc]

/-- The line reaches the handler. -/
theorem Announcing.text (h : Announcing i ds tl) (hd : s.out.rcvd.data = [])
    (hu : s.urctable (lua "+RECEIVE") = some Handler.link)
    (ht : ∀ c, s.curr = some c → ¬Takes c s.interdata (announcement i ds tl)) :
    Ril.text (line i ds tl) s = some (announced (tonumber [i]) (tonumber ds) s) := by
  cases hc : s.curr with
  | none =>
      rw [text_line_idle hc]
      exact h.urc hd hu
  | some c =>
      rw [text_line_busy hc]
      have hv := h.response (d := none) (h.verdict_urc (ht c hc))
      exact hv.trans (h.urc hd hu)

/-- The outstanding command takes the line. -/
theorem Announcing.taken (h : Announcing i ds tl) {c : Curr O.Rsp} (hc : s.curr = some c)
    (ht : Takes (M := system O) c s.interdata (announcement i ds tl)) :
    Ril.text (line i ds tl) s = some { s with interdata := some (announcement i ds tl) } := by
  have hv := h.response (d := some _) (Announcing.verdict_takes ht)
  rw [text_line_busy hc]
  exact hv

theorem Announcing.step (h : Announcing i ds tl) (hs : Tidy s) (hb : Between s)
    (hread : s.readat = true) (hu : s.urctable (lua "+RECEIVE") = some Handler.link)
    (hd : Undisturbed s (announcement i ds tl)) :
    Ril.step s (.line (line i ds tl)) = some (announced (tonumber [i]) (tonumber ds) s) := by
  have ht := h.text (s := { s with urcfilter := none }) (hs.clear hb) hu hd.2
  simp only [Ril.step]
  rw [if_pos ⟨hread, line_ne_nil i ds tl⟩]
  unfold procatc
  rw [hd.1]
  exact (hb.filtered _).trans ht

/-- When the line does not reach the handler, or there is nothing to come, no block is
being received after it. -/
theorem Announcing.nothing (h : Announcing i ds tl) (hs : Tidy s) (hb : Between s)
    (hread : s.readat = true) (hu : s.urctable (lua "+RECEIVE") = some Handler.link)
    (hd : ¬(Undisturbed s (announcement i ds tl) ∧ tonumber ds ≠ 0))
    (ht : Ril.step s (.line (line i ds tl)) = some t) :
    Between t ∧ t.out.recvs = s.out.recvs := by
  by_cases hund : Undisturbed s (announcement i ds tl)
  · have hz : tonumber ds = 0 := by
      by_contra hz
      exact hd ⟨hund, hz⟩
    rw [h.step hs hb hread hu hund, hz] at ht
    cases ht
    exact ⟨.inr ⟨rfl, rfl⟩, rfl⟩
  · obtain ⟨-, ht⟩ := Option.ite_none_right_eq_some.mp ht
    unfold procatc at ht
    cases hc : collecting s with
    | some d =>
        rw [hc] at ht
        dsimp only at ht
        rw [if_pos (line_ne_ok i ds tl)] at ht
        cases ht
        exact ⟨hb, rfl⟩
    | none =>
        have htakes : ∃ c, s.curr = some c ∧ Takes c s.interdata (announcement i ds tl) := by
          by_contra hn
          exact hund ⟨hc, fun c hcurr htk => hn ⟨c, hcurr, htk⟩⟩
        obtain ⟨c, hcurr, htk⟩ := htakes
        rw [hc] at ht
        dsimp only at ht
        rw [hb.filtered, h.taken (s := { s with urcfilter := none }) hcurr htk] at ht
        cases ht
        exact ⟨.inl rfl, rfl⟩

end Announcement

/-! ## Transparency -/

/-- In state `s` the block that `header` announces goes to its link: however the payload
and the text after it are cut, and whatever other acts come between the chunks, the `recv`
of the link, which is open by then, gets the payload once, the payload has no other
effect, and the rest of the last chunk is AT text. -/
def Transparent (s : State O) (header payload : LuaString) (id : ℕ) : Prop :=
  ∀ (acts : List (Act (system O))) (c after : LuaString) (t : State O)
    (f : LuaString → Ran O.Rest O.Rsp (Handler O.Urc)),
    run quiet (announced id payload.length s) acts = some t → t.readat = true →
    bytes acts = [] ∨ (bytes acts).length < payload.length →
    c ≠ [] → bytes acts ++ c = payload ++ after → O.recv t.out.rest id = some f →
    run step s (.line header :: (acts ++ [.line c])) = text after (delivered f id payload t) ∧
      ∀ u, text after (delivered f id payload t) = some u →
        u.out.recvs = s.out.recvs ++ [(id, payload)]

theorem delivered_recvs (f : LuaString → Ran O.Rest O.Rsp (Handler O.Urc)) (id : ℕ)
    (payload : LuaString) (s : State O) :
    (delivered f id payload s).out.recvs = s.out.recvs ++ [(id, payload)] := by
  unfold delivered
  dsimp only
  rw [ran_out]

theorem run_line {s : State O} {acts : List (Act (system O))} {d : LuaString} {t : State O}
    (h : run step s acts = some t) (hread : t.readat = true) (hd : d ≠ []) :
    run step s (acts ++ [.line d]) = procatc d t := by
  have hstep : step t (.line d) = procatc d t := if_pos ⟨hread, hd⟩
  cases hp : procatc d t with
  | some u =>
      exact run_append.mpr ⟨t, h, run_cons_eq_some.mpr ⟨u, hstep.trans hp, rfl⟩⟩
  | none =>
      cases hr : run step s (acts ++ [.line d]) with
      | none => rfl
      | some u =>
          obtain ⟨v, hv, hl⟩ := run_append.mp hr
          obtain ⟨w, hw, -⟩ := run_cons_eq_some.mp hl
          cases h.symm.trans hv
          cases (hstep.trans hp).symm.trans hw

section
variable {s : State O} {i : UInt8} {ds tl payload : LuaString}

/-- An announcement that reaches the handler brings its block through. -/
theorem Announcing.transparent (h : Announcing i ds tl) (hs : Tidy s) (hb : Between s)
    (hread : s.readat = true) (hu : s.urctable (lua "+RECEIVE") = some Handler.link)
    (hl : tonumber ds = payload.length) (hd : Undisturbed s (announcement i ds tl))
    (hp : payload ≠ []) : Transparent s (line i ds tl) payload (tonumber [i]) := by
  intro acts c after t f ht hreadt hacts hc he hf
  have hhead := h.step hs hb hread hu hd
  rw [hl] at hhead
  have hrec : Receiving (tonumber [i]) payload.length
      (announced (tonumber [i]) payload.length s) := ⟨rfl, rfl, hd.1, hs.idle⟩
  have hlt : (bytes acts).length < payload.length := by
    obtain hn | hlt := hacts
    · rw [hn]
      exact List.length_pos_iff.mpr hp
    · exact hlt
  obtain ⟨hrun, hrt⟩ := hrec.run ht [] (.inr (by rw [List.length_nil]; omega))
  have hall : run Ril.step s (.line (line i ds tl) :: acts) = some (gathered (bytes acts) t) :=
    run_cons_eq_some.mpr ⟨_, hhead, hrun⟩
  -- the last chunk has the rest of the payload, and the text after it
  have hlen := congrArg List.length he
  rw [List.length_append, List.length_append] at hlen
  have htake := congrArg (List.take payload.length) he
  rw [List.take_append, List.take_of_length_le hlt.le, List.take_left] at htake
  have hdrop := congrArg (List.drop payload.length) he
  rw [List.drop_append, List.drop_of_length_le hlt.le, List.drop_left, List.nil_append] at hdrop
  refine ⟨?_, fun u hu => ?_⟩
  · rw [← List.cons_append, run_line hall hreadt hc, hrt.completes hlt (by omega) hf, htake,
      hdrop]
  · rw [(text_aside hu).recvs, delivered_recvs, quiet_recvs ht]
    rfl

/-- A block that comes through has been announced to the handler, and is not empty. -/
theorem Announcing.undisturbed (h : Announcing i ds tl) (hs : Tidy s) (hb : Between s)
    (hread : s.readat = true) (hu : s.urctable (lua "+RECEIVE") = some Handler.link)
    (hl : tonumber ds = payload.length) (hf : (O.recv s.out.rest (tonumber [i])).isSome)
    (ht : Transparent s (line i ds tl) payload (tonumber [i])) :
    Undisturbed s (announcement i ds tl) ∧ payload ≠ [] := by
  by_contra hn
  obtain ⟨f, hf⟩ := Option.isSome_iff_exists.mp hf
  -- the payload comes in one chunk, or the next line after an empty one
  have hchunk : ∃ c after, c ≠ [] ∧ c = payload ++ after ∧ chomp after = [] := by
    by_cases hp : payload = []
    · exact ⟨lua "\r\n", lua "\r\n", by decide, by rw [hp]; rfl, by decide⟩
    · exact ⟨payload, [], hp, (List.append_nil payload).symm, rfl⟩
  obtain ⟨c, after, hc, he, hempty⟩ := hchunk
  have htext (u : State O) : Ril.text after u = some u := by
    unfold Ril.text
    rw [hempty]
    rfl
  obtain ⟨hrun, hrecvs⟩ := ht [] c after _ f rfl hread (.inl rfl) hc he hf
  rw [htext] at hrun
  obtain ⟨u, hhead, hlast⟩ := run_cons_eq_some.mp hrun
  obtain ⟨v, hlast, ⟨⟩⟩ := run_cons_eq_some.mp hlast
  have hd : ¬(Undisturbed s (announcement i ds tl) ∧ tonumber ds ≠ 0) := by
    rw [hl]
    exact fun hd => hn ⟨hd.1, fun hp => hd.2 (by rw [hp]; rfl)⟩
  obtain ⟨hbu, hru⟩ := h.nothing hs hb hread hu hd hhead
  obtain ⟨-, hlast⟩ := Option.ite_none_right_eq_some.mp hlast
  have hsame := hbu.procatc_recvs hlast
  rw [hru, hrecvs _ (htext _)] at hsame
  have hlen := congrArg List.length hsame
  rw [List.length_append, List.length_singleton] at hlen
  omega

end

/-- In every state of a run, the block that a line announces is transparent exactly if no
command takes the line and the block is not empty. -/
theorem transparent_iff {rest : O.Rest} {s : State O} (hs : Reachable step (boot O rest) s)
    (hb : Between s) (hread : s.readat = true)
    (hu : s.urctable (lua "+RECEIVE") = some Handler.link) {i : UInt8} {ds tl : LuaString}
    (ha : Announcing i ds tl) {payload : LuaString} (hl : tonumber ds = payload.length)
    (hf : (O.recv s.out.rest (tonumber [i])).isSome) :
    Transparent s (line i ds tl) payload (tonumber [i]) ↔
      Undisturbed s (announcement i ds tl) ∧ payload ≠ [] := by
  have htidy : Tidy s := hs.invariant step_tidy ⟨fun _ => rfl, .inl rfl⟩
  constructor
  · exact ha.undisturbed htidy hb hread hu hl hf
  · intro h
    exact ha.transparent htidy hb hread hu hl h.1 h.2

/-- A program with one link, whose other part only makes requests. -/
abbrev reader : Others where
  Rest := Unit
  Rsp := Unit
  Urc := Unit
  Filter := Unit
  Task := LuaString
  rsp _ _ _ _ _ _ := some ⟨(), []⟩
  urc _ _ _ _ := some (⟨(), []⟩, none)
  filter _ data _ := some (⟨(), []⟩, data, none)
  task cmd _ := some ⟨(), [.request ⟨cmd, none, none, none⟩]⟩
  link _ _ _ := some ⟨(), []⟩
  recv _ id := if id = 0 then some fun _ => ⟨(), []⟩ else none

/-- A short message is asked for, and its text is about to come. -/
def reading : List (Act (system reader)) :=
  [.read, .line (lua "RDY\r\n"), .finish, .read, .line (lua "OK\r\n"), .finish,
    .read, .line (lua "OK\r\n"), .finish, .task (lua "AT+CMGR=1"), .read]

theorem announcing_three : Announcing 48 (lua "3") (lua ":") where
  id := by decide
  digits := by
    rw [show lua "3" = [51] by decide]
    intro x hx
    rw [List.mem_singleton.mp hx]
    decide
  nonempty := by decide
  tail := .inr rfl

/-- What the reading of the next line depends on. -/
structure Parser where
  readat : Bool
  urcfilter : Option (Filter Unit)
  handler : Option (Handler Unit)
  interdata : Option LuaString
  curr : Option (RespType × LuaString)
  deriving DecidableEq

def parser (s : State reader) : Parser :=
  ⟨s.readat, s.urcfilter, s.urctable (lua "+RECEIVE"), s.interdata,
    s.curr.map fun c => (c.cmdtype, c.cmdhead)⟩

/-- Before the text of the message comes, a block is transparent. -/
theorem transparent_iff_reading : ∃ s : State reader,
    run step (boot reader ()) reading = some s ∧
      Transparent s (line 48 (lua "3") (lua ":")) (lua "abc") (tonumber [48]) := by
  have h : (run step (boot reader ()) reading).map parser =
      some ⟨true, none, some .link, none, some (.MLINE, lua "+CMGR")⟩ := by
    decide +kernel
  obtain ⟨s, hr, hs⟩ := Option.map_eq_some_iff.mp h
  simp only [parser, Parser.mk.injEq] at hs
  obtain ⟨hread, hfilter, hu, hinter, hcurr⟩ := hs
  refine ⟨s, hr, (transparent_iff ⟨reading, hr⟩ (.inl hfilter) hread hu announcing_three
    (by decide) rfl).mpr ⟨⟨?_, fun c hc ht => ?_⟩, by decide⟩⟩
  · unfold collecting
    rw [hinter]
    cases s.curr <;> rfl
  · rw [hc, Option.map_some, Option.some.injEq, Prod.mk.injEq] at hcurr
    obtain ⟨hty, -⟩ | ⟨-, -, hm⟩ := ht
    · cases hcurr.1.symm.trans hty
    · rw [hcurr.2] at hm
      revert hm
      decide

/-- While the text of the message comes, a block is taken for a part of it. -/
theorem collected_block : ∃ s : State reader,
    Reachable step (boot reader ()) s ∧ Between s ∧ s.readat = true ∧
      s.urctable (lua "+RECEIVE") = some Handler.link ∧
      Announcing 48 (lua "3") (lua ":") ∧ tonumber (lua "3") = (lua "abc").length ∧
      (reader.recv s.out.rest (tonumber [48])).isSome ∧
      ¬Transparent s (line 48 (lua "3") (lua ":")) (lua "abc") (tonumber [48]) := by
  have h : (run step (boot reader ()) (reading ++ [.line (lua "+CMGR: 1\r\n")])).map
      (fun s => (parser s,
        (run step s [.line (line 48 (lua "3") (lua ":")), .line (lua "abc")]).map
          fun t => t.out.recvs)) =
      some (⟨true, none, some .link, some (lua "+CMGR: 1"), some (.MLINE, lua "+CMGR")⟩,
        some []) := by
    decide +kernel
  obtain ⟨s, hr, hs⟩ := Option.map_eq_some_iff.mp h
  simp only [parser, Prod.mk.injEq, Parser.mk.injEq] at hs
  obtain ⟨⟨hread, hfilter, hu, -, -⟩, hlost⟩ := hs
  refine ⟨s, ⟨_, hr⟩, .inl hfilter, hread, hu, announcing_three, by decide, rfl, fun ht => ?_⟩
  obtain ⟨hrun, hrecvs⟩ := ht [] (lua "abc") [] _ (fun _ => ⟨(), []⟩) rfl hread (.inl rfl)
    (by decide) rfl rfl
  obtain ⟨u, hu', hnone⟩ := Option.map_eq_some_iff.mp hlost
  rw [hrecvs u (hrun.symm.trans hu')] at hnone
  exact absurd hnone (List.append_ne_nil_of_right_ne_nil _ (List.cons_ne_nil _ _))

end LuatAir200.Receive
