import LuatAir200.MqttSharing

/-!
# The calls of `mqttdup.lua`

Without the modules of its entries, the shared list is the one of `mqttdup.lua`: a step of the
clients is a sequence of calls of its functions.
-/
namespace LuatAir200.MqttShared
open Lua Keyed Machine OwnedList
open MqttDup (Entry Msg selects DUP_TIME DUP_CNT)

variable {β : Type}

/-- The state of `mqttdup.lua`, which knows no modules. -/
structure Untagged (s : State β) (d : MqttDup.State β) : Prop where
  tlist : d.tlist = s.tlist.map Prod.snd
  qmsg : d.qmsg = s.qmsg.map Prod.snd
  active : d.active = s.active

/-- The calls in a step. -/
def calls (s : State β) : Act β → List (MqttDup.Act β)
  | .create _ => []
  | .put c typ dat seq cb cbtag => [.ins c.2 typ dat seq cb cbtag]
  | .conn c | .connack c => [.rmv c.2 CONN none none]
  | .ack c seq => [.rmv c.2 none none (some seq)]
  | .lost c | .closed c => [.rmvall c.2]
  | .resent c dat => [.rsm c.2 dat]
  | .tick => [.tick]
  | .msg ok =>
      match s.qmsg.map Prod.snd with
      | .dupInd sckidx dat :: _ => if ok then [.msg] else [.msg, .rsm sckidx dat]
      | _ => [.msg]

section
variable {s : State β} {d : MqttDup.State β}

theorem Untagged.timer (h : Untagged s d) (b : Bool) :
    Untagged (MqttShared.timer b s) (MqttDup.timer b d) := by
  have hl : d.tlist = [] ↔ s.tlist = [] := by rw [h.tlist, List.map_eq_nil_iff]
  cases b with
  | true => exact ⟨h.tlist, h.qmsg, rfl⟩
  | false =>
      rw [MqttShared.timer, MqttDup.timer, if_neg Bool.false_ne_true, if_neg Bool.false_ne_true]
      by_cases hs : s.tlist = []
      · rw [if_pos hs, if_pos (hl.mpr hs)]
        exact ⟨h.tlist, h.qmsg, rfl⟩
      · rw [if_neg hs, if_neg (mt hl.mp hs)]
        exact h

theorem Untagged.ins (h : Untagged s d) (c : Client) (typ dat : LuaString) (seq : Option LuaString)
    (cb : Option β) (cbtag : Option LuaString) :
    Untagged (MqttShared.ins c typ dat seq cb cbtag s) (MqttDup.ins c.2 typ dat seq cb cbtag d) := by
  apply Untagged.timer
  refine ⟨?_, h.qmsg, h.active⟩
  simp [MqttDup.record, h.tlist]

theorem Untagged.find (h : Untagged s d) (p : Entry β → Bool) :
    d.tlist.find? p = (s.tlist.find? (p ∘ Prod.snd)).map Prod.snd := by
  rw [h.tlist, List.find?_map]

theorem Untagged.rmv (h : Untagged s d) (c : Client) (why : Cause) (typ dat seq : Option LuaString) :
    Untagged (MqttShared.rmv c why typ dat seq s) (MqttDup.rmv c.2 typ dat seq d) := by
  have hf := h.find (selects c.2 typ dat seq)
  have hp : (selects c.2 typ dat seq ∘ Prod.snd : Held β → Bool) = picks c typ dat seq := rfl
  have he : d.tlist.eraseP (selects c.2 typ dat seq) =
      (s.tlist.eraseP (picks c typ dat seq)).map Prod.snd := by
    rw [h.tlist, List.eraseP_map, hp]
  rw [hp] at hf
  apply Untagged.timer
  rw [hf]
  cases hs : s.tlist.find? (picks c typ dat seq) with
  | none =>
      have hn : s.tlist.eraseP (picks c typ dat seq) = s.tlist :=
        List.eraseP_of_forall_not (by simpa using hs)
      rw [hn] at he
      exact ⟨he, h.qmsg, h.active⟩
  | some x => exact ⟨he, h.qmsg, h.active⟩

theorem Untagged.rmvall (h : Untagged s d) (c : Client) :
    Untagged (MqttShared.rmvall c s) (MqttDup.rmvall c.2 d) := by
  apply Untagged.timer
  exact ⟨rfl, h.qmsg, h.active⟩

theorem Untagged.modify (h : Untagged s d) (p : Entry β → Bool) (f : Entry β → Entry β) :
    Keyed.modify p f d.tlist = (Keyed.modify (p ∘ Prod.snd) (recount f) s.tlist).map Prod.snd := by
  rw [h.tlist]
  exact modify_map (by exact fun _ => rfl) s.tlist

theorem Untagged.rsm (h : Untagged s d) (c : Client) (dat : LuaString) :
    Untagged (MqttShared.rsm c dat s) (MqttDup.rsm c.2 dat d) := by
  let p : Entry β → Bool := fun e => decide (c.2 = e.sckidx ∧ e.dat = dat)
  have hp : p ∘ Prod.snd = matching c dat := rfl
  have hf := h.find p
  rw [hp] at hf
  rw [MqttShared.rsm, MqttDup.rsm]
  dsimp only [MqttDup.record]
  rw [hf]
  cases hs : s.tlist.find? (matching c dat) with
  | none => exact ⟨h.tlist, h.qmsg, h.active⟩
  | some x =>
      dsimp only [Option.map_some]
      split_ifs
      · have hmatch : matching c dat x = true := List.find?_some hs
        have hidx : c.2 = x.2.sckidx := (of_decide_eq_true hmatch).1
        rw [← hidx, MqttShared.rmv, giveup_find hs]
        apply Untagged.timer
        refine ⟨?_, ?_, h.active⟩
        · show (Keyed.modify p _ d.tlist).eraseP (selects c.2 none (some dat) none) = _
          rw [h.modify p, List.eraseP_map]
          rfl
        · simp [MqttDup.dispatch, MqttDup.remove, record, giveup, h.qmsg, hidx]
      · exact ⟨h.modify p _, h.qmsg, h.active⟩

theorem Untagged.tick (h : Untagged s d) : Untagged (timerfnc s) (MqttDup.timerfnc d) := by
  rw [MqttDup.timerfnc_eq]
  refine ⟨?_, ?_, h.active⟩
  · simp [timerfnc, h.tlist]
  · simp [timerfnc, h.tlist, h.qmsg, List.filter_map, Function.comp_def]

end

theorem untagged_told {s : State β} {d : MqttDup.State β} (h : Untagged s d) (c o : Client)
    (cb : Option β) (cbtag : Option LuaString) (suc : Bool) : Untagged (told c o cb cbtag suc s) d := by
  cases cb with
  | none => exact h
  | some f => exact ⟨h.tlist, h.qmsg, h.active⟩

/-- A step of the clients is a run of calls. -/
theorem step_calls {l : List Mod} (hl : ∀ m : Msg β, (handler l m).isSome) {s t : State β}
    {d : MqttDup.State β} (h : Untagged s d) {a : Act β} (hs : step l s a = some t) :
    ∃ d', run MqttDup.step d (calls s a) = some d' ∧ Untagged t d' := by
  cases a with
  | create m =>
      simp only [step] at hs
      split_ifs at hs
      cases hs
      exact ⟨d, rfl, h.tlist, h.qmsg, h.active⟩
  | put c typ dat seq cb cbtag =>
      cases hs
      exact ⟨_, rfl, h.ins c typ dat seq cb cbtag⟩
  | conn c =>
      simp only [step] at hs
      split_ifs at hs
      cases hs
      exact ⟨_, rfl, h.rmv c .conn _ _ _⟩
  | connack c =>
      simp only [step] at hs
      split_ifs at hs
      cases hs
      exact ⟨_, rfl, h.rmv c .connack _ _ _⟩
  | ack c seq =>
      simp only [step] at hs
      split_ifs at hs
      cases hs
      refine ⟨_, rfl, ?_⟩
      rw [ack]
      split
      · exact untagged_told (h.rmv c .ack _ _ _) _ _ _ _ _
      · exact h.rmv c .ack _ _ _
  | lost c =>
      simp only [step] at hs
      split_ifs at hs
      cases hs
      exact ⟨_, rfl, h.rmvall c⟩
  | closed c =>
      simp only [step] at hs
      split_ifs at hs
      cases hs
      have hc : Untagged { s with
          tclients := Function.update s.tclients c.1 ((s.tclients c.1).erase c.2) } d :=
        ⟨h.tlist, h.qmsg, h.active⟩
      exact ⟨_, rfl, hc.rmvall c⟩
  | resent c dat =>
      cases hs
      exact ⟨_, rfl, h.rsm c dat⟩
  | tick =>
      simp only [step] at hs
      split_ifs at hs with ha
      cases hs
      refine ⟨MqttDup.timerfnc d, ?_, h.tick⟩
      simp [calls, run_cons, MqttDup.step, h.active, ha]
  | msg ok =>
      simp only [step] at hs
      split at hs
      · cases hs
      rename_i x qmsg hq
      obtain ⟨k, hk⟩ := Option.isSome_iff_exists.mp (hl x.2)
      rw [hk] at hs
      cases hs
      have hd : d.qmsg = x.2 :: qmsg.map Prod.snd := by rw [h.qmsg, hq, List.map_cons]
      have hmsg : MqttDup.step d .msg = some { d with qmsg := qmsg.map Prod.snd } := by
        simp [MqttDup.step, hd]
      have hrest : Untagged { s with qmsg := qmsg } { d with qmsg := qmsg.map Prod.snd } :=
        ⟨h.tlist, rfl, h.active⟩
      obtain ⟨m, a⟩ := x
      cases a with
      | dupInd sckidx dat =>
          have hrec : Untagged (record (.ind (k, sckidx) (m, sckidx) dat) { s with qmsg := qmsg })
              { d with qmsg := qmsg.map Prod.snd } := ⟨hrest.tlist, hrest.qmsg, hrest.active⟩
          cases ok with
          | true =>
              refine ⟨_, ?_, hrec⟩
              simp [calls, hq, run_cons, hmsg]
          | false =>
              refine ⟨_, ?_, hrec.rsm (k, sckidx) dat⟩
              simp only [calls, hq, List.map_cons, Bool.false_eq_true, if_false, run_cons, hmsg,
                Option.bind_some]
              rfl
      | dupFail sckidx typ seq cb cbtag =>
          refine ⟨{ d with qmsg := qmsg.map Prod.snd }, ?_, ?_⟩
          · simp [calls, hq, run_cons, hmsg]
          · rw [handle]
            apply untagged_told
            exact ⟨hrest.tlist, hrest.qmsg, hrest.active⟩

/-- The actions of a run as calls. -/
def runcalls (l : List Mod) : State β → List (Act β) → List (MqttDup.Act β)
  | _, [] => []
  | s, a :: as =>
      match step l s a with
      | some t => calls s a ++ runcalls l t as
      | none => []

/-- Whatever the clients do, the shared list is what `mqttdup.lua` makes of their calls. -/
theorem run_calls {l : List Mod} (hl : ∀ m : Msg β, (handler l m).isSome) {as : List (Act β)}
    {s t : State β} {d : MqttDup.State β} (h : Untagged s d) (hr : run (step l) s as = some t) :
    ∃ d', run MqttDup.step d (runcalls l s as) = some d' ∧ Untagged t d' := by
  induction as generalizing s d with
  | nil =>
      cases hr
      exact ⟨d, rfl, h⟩
  | cons a as ih =>
      obtain ⟨u, hu, hr⟩ := run_cons_eq_some.mp hr
      obtain ⟨e, he, hue⟩ := step_calls hl h hu
      obtain ⟨d', hd', htd⟩ := ih hue hr
      refine ⟨d', ?_, htd⟩
      rw [runcalls, hu]
      exact run_append.mpr ⟨e, he, hd'⟩

end LuatAir200.MqttShared
