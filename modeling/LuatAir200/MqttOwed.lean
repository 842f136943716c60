import LuatAir200.MqttDupRuns

/-!
# The callbacks that `mqttdup.lua` owes

A callback comes in with an entry. It is owed while the entry is in the list, and while the
message that gives the entry up has not been processed.
-/
namespace LuatAir200.MqttDup
open Lua Keyed

variable {β : Type}

/-- Counting in a list from which the first selected element is taken. -/
theorem countP_eraseP (p q : Entry β → Bool) (l : List (Entry β)) :
    (l.eraseP p).countP q + (l.find? p).toList.countP q = l.countP q := by
  induction l with
  | nil => rfl
  | cons e l ih =>
      by_cases hp : p e
      · rw [List.eraseP_cons_of_pos hp, List.find?_cons_of_pos hp, Option.toList_some,
          List.countP_cons, List.countP_cons, List.countP_nil]
        omega
      · rw [List.eraseP_cons_of_neg hp, List.find?_cons_of_neg hp, List.countP_cons,
          List.countP_cons]
        omega

theorem countP_modify {p q : Entry β → Bool} {f : Entry β → Entry β} (hf : ∀ e, q (f e) = q e)
    (l : List (Entry β)) : (modify p f l).countP q = l.countP q := by
  induction l with
  | nil => rfl
  | cons e l ih =>
      rw [Keyed.modify]
      split
      · rw [List.countP_cons, List.countP_cons, hf]
      · rw [List.countP_cons, List.countP_cons, ih]

/-- The callback of the message that gives an entry up. -/
def Msg.cb : Msg β → Option β
  | .dupInd _ _ => none
  | .dupFail _ _ _ cb _ => cb

theorem failure_cb (e : Entry β) : e.failure.cb = e.cb := rfl

section
variable [DecidableEq β]

/-- How often callback `n` is owed. -/
def owed (n : β) (s : State β) : ℕ :=
  s.tlist.countP (fun e => e.cb = some n) + s.qmsg.countP (fun m => m.cb = some n)

/-- One when the callback is `n`. -/
def one (n : β) (cb : Option β) : ℕ := if cb = some n then 1 else 0

@[simp] theorem one_none (n : β) : one n (none : Option β) = 0 := if_neg (by simp)

theorem owed_ins (n : β) (sckidx : ℕ) (typ dat : LuaString) (seq : Option LuaString)
    (cb : Option β) (cbtag : Option LuaString) (s : State β) :
    owed n (ins sckidx typ dat seq cb cbtag s) = owed n s + one n cb := by
  simp only [owed, ins, timer_tlist, timer_qmsg, record, List.countP_append, List.countP_singleton,
    one, decide_eq_true_eq]
  omega

theorem owed_rmv (n : β) (sckidx : ℕ) (typ dat seq : Option LuaString) (s : State β) :
    owed n (rmv sckidx typ dat seq s) +
        one n ((s.tlist.find? (selects sckidx typ dat seq)).bind Entry.cb) = owed n s := by
  obtain ⟨htl, hq, -⟩ := rmv_fields sckidx typ dat seq s
  have hc := countP_eraseP (selects sckidx typ dat seq) (fun e => e.cb = some n) s.tlist
  rw [owed, htl, hq, owed]
  cases hf : s.tlist.find? (selects sckidx typ dat seq) with
  | none =>
      rw [hf] at hc
      simp only [Option.toList_none, List.countP_nil, Option.bind_none, one_none] at hc ⊢
      omega
  | some e =>
      rw [hf] at hc
      simp only [Option.toList_some, List.countP_singleton, decide_eq_true_eq, Option.bind_some,
        one] at hc ⊢
      omega

/-- `rmvall` gives up what is in the list. -/
theorem owed_rmvall (n : β) (sckidx : ℕ) (s : State β) :
    owed n (rmvall sckidx s) ≤ owed n s ∧
      ((∀ e ∈ s.tlist, e.cb ≠ some n) → owed n (rmvall sckidx s) = owed n s) := by
  obtain ⟨htl, hq, -⟩ := rmvall_fields sckidx s
  rw [owed, htl, hq, owed]
  refine ⟨by simp, fun hn => ?_⟩
  have h0 : s.tlist.countP (fun e => e.cb = some n) = 0 := by
    rw [List.countP_eq_zero]
    simpa using hn
  rw [h0, List.countP_nil]

theorem owed_rsm (n : β) (sckidx : ℕ) (dat : LuaString) (s : State β) :
    owed n (rsm sckidx dat s) = owed n s := by
  cases he : entryOf (sckidx, dat) s with
  | none =>
      rw [rsm_none he]
      rfl
  | some e =>
      by_cases hc : e.cnt - 1 = 0
      swap
      · rw [rsm_again he hc, owed, owed, countP_modify (by exact fun _ => rfl)]
      · have hm : ∀ l : List (Entry β), l.find? (fun e => e.key = (sckidx, dat)) = some e →
            (modify (fun e => e.key = (sckidx, dat)) (fun e => { e with cnt := e.cnt - 1 }) l).find?
              (fun e => e.key = (sckidx, dat)) = some { e with cnt := e.cnt - 1 } := by
          intro l hl
          have hk : e.key = (sckidx, dat) := by simpa using List.find?_some hl
          rw [find_modify Entry.key (by exact fun _ => rfl), if_pos rfl, hl, Option.map_some]
        have hcount := countP_eraseP (fun e => decide (e.key = (sckidx, dat)))
          (fun e => decide (e.cb = some n))
          (modify (fun e => e.key = (sckidx, dat)) (fun e => { e with cnt := e.cnt - 1 }) s.tlist)
        rw [hm s.tlist he, countP_modify (by exact fun _ => rfl)] at hcount
        rw [rsm_last he hc]
        simp only [owed, timer_tlist, timer_qmsg, List.countP_append, List.countP_singleton,
          Option.toList_some, failure_cb] at hcount ⊢
        by_cases hn : e.cb = some n <;> simp only [hn, decide_true, decide_false, if_true,
          Bool.false_eq_true, if_false] at hcount ⊢ <;> omega

theorem owed_tick (n : β) (s : State β) : owed n (timerfnc s) = owed n s := by
  rw [timerfnc_eq, owed, owed, List.countP_map, List.countP_append, List.countP_map]
  have h0 : (s.tlist.filter (·.tm = 1)).countP
      ((fun m : Msg β => decide (m.cb = some n)) ∘ fun e => .dupInd e.sckidx e.dat) = 0 := by
    rw [List.countP_eq_zero]
    simp [Msg.cb]
  rw [h0]
  rfl

/-- `getyp` and `rmv` find the same entry. -/
theorem getyp_rmv (n : β) (sckidx : ℕ) (seq : LuaString) (s : State β) :
    owed n (rmv sckidx none none (some seq) s) +
      one n ((getyp sckidx seq s).bind fun v => v.2.1) = owed n s := by
  have hp : (selects sckidx none none (some seq) : Entry β → Bool) =
      fun e => decide (some seq = e.seq ∧ sckidx = e.sckidx) := by
    funext e
    simp [selects, and_comm]
  have hr := owed_rmv n sckidx none none (some seq) s
  rw [hp] at hr
  rw [← hr, getyp, Option.bind_map]
  rfl

end

/-! ## Entries without a callback -/

/-- The entries of `t` have their types and callbacks from entries of `s`. -/
def Stems (s t : State β) : Prop := ∀ e ∈ t.tlist, ∃ d ∈ s.tlist, d.typ = e.typ ∧ d.cb = e.cb

theorem rmv_stems (sckidx : ℕ) (typ dat seq : Option LuaString) (s : State β) :
    Stems s (rmv sckidx typ dat seq s) := by
  intro e he
  rw [(rmv_fields sckidx typ dat seq s).1] at he
  exact ⟨e, List.mem_of_mem_eraseP he, rfl, rfl⟩

theorem rmvall_stems (sckidx : ℕ) (s : State β) : Stems s (rmvall sckidx s) := by
  intro e he
  rw [(rmvall_fields sckidx s).1] at he
  cases he

theorem modify_stems {p : Entry β → Bool} {f : Entry β → Entry β} (ht : ∀ e, (f e).typ = e.typ)
    (hc : ∀ e, (f e).cb = e.cb) {l : List (Entry β)} {e : Entry β} (h : e ∈ modify p f l) :
    ∃ d ∈ l, d.typ = e.typ ∧ d.cb = e.cb := by
  induction l with
  | nil => cases h
  | cons a l ih =>
      rw [Keyed.modify] at h
      split at h
      · obtain rfl | h := List.mem_cons.mp h
        · exact ⟨a, List.mem_cons_self, (ht a).symm, (hc a).symm⟩
        · exact ⟨e, List.mem_cons_of_mem a h, rfl, rfl⟩
      · obtain rfl | h := List.mem_cons.mp h
        · exact ⟨e, List.mem_cons_self, rfl, rfl⟩
        · obtain ⟨d, hd, he⟩ := ih h
          exact ⟨d, List.mem_cons_of_mem a hd, he⟩

theorem rsm_stems (sckidx : ℕ) (dat : LuaString) (s : State β) : Stems s (rsm sckidx dat s) := by
  intro e he
  cases ho : entryOf (sckidx, dat) s with
  | none =>
      rw [rsm_none ho] at he
      exact ⟨e, he, rfl, rfl⟩
  | some d =>
      by_cases hc : d.cnt - 1 = 0
      · rw [rsm_last ho hc, timer_tlist] at he
        exact modify_stems (by exact fun _ => rfl) (by exact fun _ => rfl)
          (List.mem_of_mem_eraseP he)
      · rw [rsm_again ho hc] at he
        exact modify_stems (by exact fun _ => rfl) (by exact fun _ => rfl) he

theorem tick_stems (s : State β) : Stems s (timerfnc s) := by
  intro e he
  rw [timerfnc_eq] at he
  obtain ⟨d, hd, rfl⟩ := List.mem_map.mp he
  exact ⟨d, hd, rfl, rfl⟩

end LuatAir200.MqttDup
