import LuatAir200.LbslocModel
import Mathlib.Data.List.Nodup

/-!
# The answers to the requests

A request is answered once as long as no other one comes before its answer: `request` calls the
callback of the second one with 1, but then goes on and puts it in the place of the first.
Neither `nofity` nor `rcv` asks for the link, so an event of a link that `reqend` has closed is
taken for one of the link of the next request.
-/
namespace LuatAir200.Lbsloc
open Lua Machine

/-- Every request is answered or waits, once, and the timer runs for one that waits. -/
structure Inv (s : State) : Prop where
  answered : (s.calls.map Prod.fst ++ s.usercb.toList).Perm (List.range s.issued)
  timed : s.usercb ≠ none → s.tmouttm ≠ none
  linked : s.usercb ≠ none → s.linksta = true

/-- What `Inv` reads. -/
def view (s : State) : Option ℕ × Option ℕ × Bool × ℕ × List (ℕ × Result) :=
  (s.usercb, s.tmouttm, s.linksta, s.issued, s.calls)

theorem Inv.keep {s t : State} (hi : Inv s) (hv : view t = view s) : Inv t := by
  simp only [view, Prod.mk.injEq] at hv
  obtain ⟨hu, ht, hl, hn, hc⟩ := hv
  constructor
  · rw [hc, hu, hn]
    exact hi.answered
  · rw [hu, ht]
    exact hi.timed
  · rw [hu, hl]
    exact hi.linked

/-- A state in which no request waits. -/
theorem Inv.quiet {s : State} (hu : s.usercb = none)
    (h : (s.calls.map Prod.fst).Perm (List.range s.issued)) : Inv s := by
  constructor
  · rw [hu, Option.toList_none, List.append_nil]
    exact h
  · exact fun hn => absurd hu hn
  · exact fun hn => absurd hu hn

theorem Inv.all_answered {s : State} (hi : Inv s) (hu : s.usercb = none) :
    (s.calls.map Prod.fst).Perm (List.range s.issued) := by
  have h := hi.answered
  rw [hu, Option.toList_none, List.append_nil] at h
  exact h

/-- A request when none waits. -/
theorem Inv.request {s : State} (hi : Inv s) (hu : s.usercb = none) (locstr : Bool)
    (tmout id : Option ℕ) (busy : State → State) : Inv (request locstr tmout id busy s) := by
  have hall := hi.all_answered hu
  have hnew : (s.calls.map Prod.fst ++ [s.issued]).Perm (List.range (s.issued + 1)) := by
    rw [List.range_succ]
    exact hall.append_right _
  unfold Lbsloc.request
  simp only [hu, ne_eq, not_true_eq_false, if_false]
  split
  · rename_i hlink
    exact ⟨hnew, fun _ => by simp, fun _ => hlink⟩
  · exact ⟨hnew, fun _ => by simp, fun _ => rfl⟩

/-- At most one request, and none while another one waits. -/
def Code.Polite (waiting : Bool) : Code → Prop
  | .done => True
  | .request _ _ _ _ next => waiting = false ∧ next = .done

instance (next : Code) : Decidable (next = .done) :=
  match next with
  | .done => isTrue rfl
  | .request .. => isFalse fun h => by cases h

instance (waiting : Bool) (code : Code) : Decidable (code.Polite waiting) := by
  unfold Code.Polite
  cases code <;> infer_instance

theorem Inv.code {s : State} (hi : Inv s) {code : Code} (hp : code.Polite s.usercb.isSome) :
    Inv (code.run s) := by
  cases code with
  | done => exact hi
  | request locstr tmout id busy next =>
      obtain ⟨hu, rfl⟩ := hp
      rw [Option.isSome_eq_false_iff, Option.isNone_iff_eq_none] at hu
      exact hi.request hu locstr tmout id busy.run

/-- The request that waits is answered, whatever has become of its link and timer. -/
theorem finish_inv {s : State} {code : Code} (r : Result)
    (ha : (s.calls.map Prod.fst ++ s.usercb.toList).Perm (List.range s.issued))
    (hp : s.usercb ≠ none → code.Polite false) : Inv (finish r code s) := by
  unfold finish
  cases hu : s.usercb with
  | none =>
      simp only
      rw [hu, Option.toList_none, List.append_nil] at ha
      exact Inv.quiet rfl ha
  | some n =>
      simp only
      have hdone : Inv (callback n r { s with usercb := none, tmouttm := none }) := by
        apply Inv.quiet rfl
        rw [hu, Option.toList_some] at ha
        simpa [callback] using ha
      exact hdone.code (hp (by simp [hu]))

theorem Inv.reqend {s : State} {code : Code} (hi : Inv s)
    (hp : s.usercb ≠ none → code.Polite false) : Inv (reqend false code s) := by
  unfold Lbsloc.reqend
  exact finish_inv .failed hi.answered hp

theorem Inv.retry {s : State} {code : Code} (hi : Inv s)
    (hp : s.usercb ≠ none → code.Polite false) : Inv (retry code s) := by
  unfold Lbsloc.retry
  simp only
  split
  · exact hi.keep rfl
  · exact Inv.reqend (hi.keep rfl) hp

theorem Inv.nofity {s : State} {code : Code} (hi : Inv s) (evt val : LuaString)
    (hp : s.usercb ≠ none → code.Polite false) : Inv (nofity evt val code s) := by
  unfold Lbsloc.nofity
  split_ifs
  · exact hi.keep rfl
  · exact hi.reqend hp
  · exact hi.reqend hp
  · exact hi

theorem Inv.rcv {s : State} {code : Code} (hi : Inv s) (data : LuaString)
    (hp : s.usercb ≠ none → code.Polite false) : Inv (rcv data code s) := by
  unfold Lbsloc.rcv
  split
  · exact hi
  · exact finish_inv _ hi.answered hp

/-! ## Runs -/

/-- The event of a link that ends a request. -/
def ends (evt val : LuaString) : Bool :=
  (evt == lua "CONNECT" && val != lua "CONNECT OK") ||
    (evt == lua "STATE" && (val == lua "CLOSED" || val == lua "SHUTED"))

/-- No request comes while another one waits, also from inside of a callback, and while one
waits no event that ends a request comes from another link than the one that is open. -/
def Careful (s : State) : Act → Prop
  | .user code => code.Polite s.usercb.isSome
  | .nofity id evt val code => s.usercb ≠ none →
      code.Polite false ∧ (ends evt val → s.links id = some s.conns)
  | .rcv id data code => s.usercb ≠ none →
      code.Polite false ∧ (11 ≤ data.length → s.links id = some s.conns)
  | .getcellcb => True
  | .retrytm code => s.usercb ≠ none → code.Polite false
  | .tmouttm code => s.usercb ≠ none → code.Polite false

instance (s : State) (a : Act) : Decidable (Careful s a) := by
  unfold Careful
  cases a <;> infer_instance

theorem leave_view (id : ℕ) (evt : LuaString) (s : State) : view (leave id evt s) = view s := by
  unfold leave
  split <;> rfl

theorem Inv.step {s t : State} {a : Act} (hi : Inv s) (hd : Careful s a)
    (h : step s a = some t) : Inv t := by
  cases a with
  | user code =>
      cases h
      exact hi.code hd
  | nofity id evt val code =>
      obtain ⟨-, ⟨⟩⟩ := Option.ite_none_right_eq_some.mp h
      apply Inv.nofity (hi.keep (leave_view id evt s))
      have hu : (leave id evt s).usercb = s.usercb := congrArg Prod.fst (leave_view id evt s)
      rw [hu]
      exact fun hn => (hd hn).1
  | rcv id data code =>
      obtain ⟨-, ⟨⟩⟩ := Option.ite_none_right_eq_some.mp h
      exact hi.rcv data fun hn => (hd hn).1
  | getcellcb =>
      obtain ⟨-, ⟨⟩⟩ := Option.ite_none_right_eq_some.mp h
      exact hi.keep rfl
  | retrytm code =>
      obtain ⟨-, ⟨⟩⟩ := Option.ite_none_right_eq_some.mp h
      have hi' : Inv { s with retrytm := none } := hi.keep rfl
      exact hi'.retry hd
  | tmouttm code =>
      obtain ⟨-, ⟨⟩⟩ := Option.ite_none_right_eq_some.mp h
      exact finish_inv .timeout hi.answered hd

theorem Inv.initial : Inv initial := Inv.quiet rfl (by simp [Lbsloc.initial])

/-- The link that an action is an event of. -/
def Act.link : Act → Option ℕ
  | .nofity id _ _ _ => some id
  | .rcv id _ _ => some id
  | _ => none

/-- `reqend` has closed the link of this id. -/
def Closed (s : State) (id : ℕ) : Prop := s.links id ≠ some s.conns ∨ s.linksta = false

theorem finish_idle {s : State} {r : Result} {code : Code} (hu : s.usercb = none) :
    (finish r code s).usercb = none ∧ (finish r code s).calls = s.calls := by
  unfold finish
  simp [hu]

theorem reqend_idle {s : State} {suc : Bool} {code : Code} (hu : s.usercb = none) :
    (reqend suc code s).usercb = none ∧ (reqend suc code s).calls = s.calls := by
  unfold reqend
  simp only
  split
  · exact ⟨hu, rfl⟩
  · exact finish_idle (s := { emit (.close s.lid) { s with retrytm := none } with
      linksta := false }) hu

theorem nofity_other {s : State} {evt val : LuaString} {code : Code}
    (h : ends evt val = false ∨ s.usercb = none) :
    (nofity evt val code s).usercb = s.usercb ∧ (nofity evt val code s).calls = s.calls := by
  unfold nofity
  rcases h with h | hu
  · simp only [ends, Bool.or_eq_false_iff, Bool.and_eq_false_iff] at h
    split_ifs with h₁ h₂ h₃
    · exact ⟨rfl, rfl⟩
    · simp [h₁, h₂] at h
    · simp only [h₃.1, beq_self_eq_true, Bool.true_eq_false, false_or] at h
      simp_all
    · exact ⟨rfl, rfl⟩
  · split_ifs
    · exact ⟨rfl, rfl⟩
    · exact hu.symm ▸ reqend_idle hu
    · exact hu.symm ▸ reqend_idle hu
    · exact ⟨rfl, rfl⟩

/-- An event of a link that `reqend` has closed. -/
theorem Inv.late {s t : State} {a : Act} {i : ℕ} (hi : Inv s) (hd : Careful s a)
    (hlink : a.link = some i) (hc : Closed s i) (h : Lbsloc.step s a = some t) :
    t.usercb = s.usercb ∧ t.calls = s.calls := by
  have hlate (hu : s.usercb ≠ none) : s.links i ≠ some s.conns := by
    rcases hc with hne | hsta
    · exact hne
    · rw [hi.linked hu] at hsta
      cases hsta
  cases a with
  | nofity id evt val code =>
      cases hlink
      obtain ⟨-, ⟨⟩⟩ := Option.ite_none_right_eq_some.mp h
      have hv := leave_view i evt s
      simp only [view, Prod.mk.injEq] at hv
      obtain ⟨hu, -, -, -, hcalls⟩ := hv
      rw [← hu, ← hcalls]
      apply nofity_other
      by_cases hn : s.usercb = none
      · right
        rw [hu, hn]
      · left
        rw [← Bool.not_eq_true]
        exact fun he => hlate hn ((hd hn).2 he)
  | rcv id data code =>
      cases hlink
      obtain ⟨-, ⟨⟩⟩ := Option.ite_none_right_eq_some.mp h
      unfold Lbsloc.rcv
      by_cases hn : s.usercb = none
      · split
        · exact ⟨rfl, rfl⟩
        · have hend : (Lbsloc.reqend true code s).usercb = none ∧
              (Lbsloc.reqend true code s).calls = s.calls := reqend_idle hn
          obtain ⟨hu, hcalls⟩ := finish_idle hend.1
          exact ⟨hu.trans hn.symm, hcalls.trans hend.2⟩
      · have hshort : data.length < 11 := by
          by_contra hlong
          exact hlate hn ((hd hn).2 (by omega))
        rw [if_pos hshort]
        exact ⟨rfl, rfl⟩
  | _ => cases hlink

/-- In a careful run no callback is called twice, when the timer of the requests does not run
each of them has been called once, and an event of a link that `reqend` has closed does not
complete a request. -/
theorem requests_answered {acts : List Act} {s : State} (hr : run step initial acts = some s)
    (hm : Meets step Careful initial acts) :
    (∀ n, (s.calls.map Prod.fst).count n ≤ 1) ∧
    (s.tmouttm = none → ∀ n < s.issued, (s.calls.map Prod.fst).count n = 1) ∧
    ∀ (a : Act) (t : State) (i : ℕ), a.link = some i → Closed s i → Careful s a →
      step s a = some t → t.usercb = s.usercb ∧ t.calls = s.calls := by
  have hi : Inv s := guarded_run (fun _ _ _ hi hd ht => hi.step hd ht) Inv.initial hm hr
  refine ⟨?_, ?_, ?_⟩
  · intro n
    have hle : (s.calls.map Prod.fst ++ s.usercb.toList).count n ≤ 1 := by
      rw [hi.answered.count_eq]
      exact List.nodup_iff_count_le_one.mp List.nodup_range n
    rw [List.count_append] at hle
    omega
  · intro htm n hn
    have hu : s.usercb = none := by
      by_contra hne
      exact hi.timed hne htm
    rw [(hi.all_answered hu).count_eq]
    exact List.count_eq_one_of_mem List.nodup_range (List.mem_range.mpr hn)
  · intro a t i hlink hc hd ht
    exact hi.late hd hlink hc ht

/-- The callback of the first request asks for the next location, and the first link is closed
after that. -/
def again : List Act :=
  [.user (.request true none (some 0) .done .done), .nofity 0 (lua "CONNECT") (lua "CONNECT OK") .done,
    .getcellcb, .rcv 0 (0 :: List.replicate 11 18) (.request false (some 5) (some 1) .done .done),
    .nofity 0 (lua "CLOSE") [] .done, .tmouttm .done]

theorem requests_answered_again : ∃ s, run step initial again = some s ∧
    s.calls = [(0, .location (0 :: List.replicate 11 18)), (1, .timeout)] ∧
    (∀ n, (s.calls.map Prod.fst).count n ≤ 1) ∧
    (s.tmouttm = none → ∀ n < s.issued, (s.calls.map Prod.fst).count n = 1) ∧
    ∀ (a : Act) (t : State) (i : ℕ), a.link = some i → Closed s i → Careful s a →
      step s a = some t → t.usercb = s.usercb ∧ t.calls = s.calls := by
  have hh : (run step initial again).map (·.calls) =
      some [(0, .location (0 :: List.replicate 11 18)), (1, .timeout)] := by decide +kernel
  obtain ⟨s, hs, hcalls⟩ := Option.map_eq_some_iff.mp hh
  have hm : Meets step Careful initial again := by decide +kernel
  exact ⟨s, hs, hcalls, requests_answered hs hm⟩

/-- Two requests and one reply: the first callback is never called, the second one twice. -/
theorem first_forgotten : ∃ s, run step initial
    [.user (.request true none (some 0) .done .done), .user (.request true none (some 1) .done .done),
      .nofity 0 (lua "CONNECT") (lua "CONNECT OK") .done, .getcellcb,
      .rcv 0 (0 :: List.replicate 11 18) .done] = some s ∧
    s.tmouttm = none ∧ s.issued = 2 ∧
    s.calls = [(1, .pending), (1, .location (0 :: List.replicate 11 18))] := by
  have hh : (run step initial
      [.user (.request true none (some 0) .done .done),
        .user (.request true none (some 1) .done .done),
        .nofity 0 (lua "CONNECT") (lua "CONNECT OK") .done, .getcellcb,
        .rcv 0 (0 :: List.replicate 11 18) .done]).map
      (fun s => (s.tmouttm, s.issued, s.calls)) =
      some (none, 2, [(1, .pending), (1, .location (0 :: List.replicate 11 18))]) := by
    decide +kernel
  obtain ⟨s, hs, heq⟩ := Option.map_eq_some_iff.mp hh
  simp only [Prod.mk.injEq] at heq
  exact ⟨s, hs, heq⟩

end LuatAir200.Lbsloc
