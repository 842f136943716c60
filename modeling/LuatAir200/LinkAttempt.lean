import LuatAir200.LinkPending
import LuatAir200.LinkConnecting

/-!
# Connection attempts

What a link in the state `CONNECTING` waits for, seen from an earlier state: its
`AT+CIPSTART` is parked, the failure of the attempt is reported by a message, or an
`AT+CIPSTART` has been requested since then.
-/
namespace LuatAir200.Links
open Lua Machine

variable {ν : Type}

/-- The `AT+CIPSTART` of the link is parked, or was requested after `b`; in a call, the failure
is reported by a message. -/
def Underway (b : State ν) (id : ℕ) (s : State ν) : Prop :=
  (∃ l, s.linklist id = some l ∧ l.pending ≠ none) ∨
    .statusind id (lua "CONNECT FAIL") ∈ s.qmsg ∨ issued id b < issued id s

/-- The link is in the state `CONNECTING` by an attempt that was made after `b`. -/
def Attempting (b : State ν) (id : ℕ) (s : State ν) : Prop := Waits id s ∧ Underway b id s

/-- Every attempt of the link is one that was made after `b`. -/
structure Fresh (b : State ν) (id : ℕ) (s : State ν) : Prop where
  grown : issued id b ≤ issued id s
  underway : Waits id s → Underway b id s

/-- Before an attempt is made. -/
theorem fresh_self {id : ℕ} {s : State ν} (h : ¬Waits id s) : Fresh s id s :=
  ⟨le_rfl, fun hw => absurd hw h⟩

theorem fresh_of_view {b t : State ν} {id : ℕ} {v : View ν} (hv : view id t = v)
    (hg : issued id b ≤ v.starts)
    (hu : ∀ l, v.link = some l → l.state = .connecting →
      l.pending ≠ none ∨ .statusind id (lua "CONNECT FAIL") ∈ v.msgs ∨ issued id b < v.starts) :
    Fresh b id t := by
  subst hv
  refine ⟨hg, ?_⟩
  rintro ⟨l, hl, hs⟩
  obtain hp | hm | hi := hu l hl hs
  · exact .inl ⟨l, hl, hp⟩
  · exact .inr (.inl (List.mem_filter.mp hm).1)
  · exact .inr (.inr hi)

/-- A message that has left the queue is the one that the step handles. -/
theorem mem_taken {s : State ν} {a : Act ν} {id : ℕ} {st : LuaString}
    (h : .statusind id st ∈ s.qmsg) :
    .statusind id st ∈ (taken s a).qmsg ∨ statusOf s a = some (id, st) := by
  cases a with
  | msg =>
      cases hq : s.qmsg with
      | nil => simp [hq] at h
      | cons m ms =>
          rw [hq] at h
          obtain rfl | hm := List.mem_cons.mp h
          · exact .inr (by simp [statusOf, hq])
          · exact .inl (by simpa [taken, hq] using hm)
  | _ => exact .inl h

theorem taken_issued (s : State ν) (a : Act ν) (id : ℕ) : issued id (taken s a) = issued id s := by
  cases a <;> rfl

theorem Underway.taken {b s t : State ν} {a : Act ν} {id : ℕ} (h : Underway b id s)
    (hs : step s a = some t) (ht : Waits id t) : Underway b id (taken s a) := by
  obtain ⟨l, hl, hp⟩ | hm | hi := h
  · exact .inl ⟨l, (congrFun (taken_linklist s a) id).trans hl, hp⟩
  · obtain hm | hm := mem_taken (a := a) hm
    · exact .inr (.inl hm)
    · obtain ⟨k, hk, hc⟩ := ht
      cases hl : (Links.taken s a).linklist id with
      | none =>
          rw [step_statusOf hs hm] at hk
          simp [statusind, hl] at hk
      | some l =>
          have hf : lua "CONNECT FAIL" ≠ lua "SEND FAIL" := by decide
          have hv := view_statusind hf hl
          rw [← step_statusOf hs hm] at hv
          have hk' := (congrArg View.link hv).symm.trans hk
          cases hk'
          rw [if_neg (by decide)] at hc
          cases hc
  · exact .inr (.inr (by rwa [taken_issued]))

/-- What is under way of a waiting link, in terms of its view. -/
theorem Underway.view {b u : State ν} {id : ℕ} {l : Link ν} (h : Underway b id u)
    (hl : (Links.view id u).link = some l) :
    l.pending ≠ none ∨ .statusind id (lua "CONNECT FAIL") ∈ (Links.view id u).msgs ∨
      issued id b < (Links.view id u).starts := by
  obtain ⟨k, hk, hp⟩ | hm | hi := h
  · rw [show k = l from Option.some.inj (hk.symm.trans hl)] at hp
    exact .inl hp
  · exact .inr (.inl (List.mem_filter.mpr ⟨hm, by simp [Msg.id?]⟩))
  · exact .inr (.inr hi)

theorem step_fresh {b s t : State ν} {a : Act ν} {id : ℕ} (hs : Shape s) (hf : Fresh b id s)
    (h : step s a = some t) : Fresh b id t := by
  have he := step_effect hs h id
  generalize hv : view id t = v at he
  have hg := hf.grown
  have hgt : issued id b ≤ (view id (taken s a)).starts :=
    hg.trans_eq (taken_issued s a id).symm
  have gone {k : Link ν} {st : LinkState} (hst : st ≠ .connecting) {l : Link ν}
      (hl : some { k with state := st } = some l) (hc : l.state = .connecting) : False := by
    cases hl
    exact hst hc
  cases he with
  | quiet =>
      apply fresh_of_view hv hgt
      intro l hl hc
      have ht : Waits id t := ⟨l, (congrArg View.link hv).trans hl, hc⟩
      have hw : Waits id s := ⟨l, (congrFun (taken_linklist s a) id).symm.trans hl, hc⟩
      exact ((hf.underway hw).taken h ht).view hl
  | opened n tag ho hn =>
      apply fresh_of_view hv hg
      intro l hl hc
      cases hl
      cases hc
  | closing k ha =>
      exact fresh_of_view hv hg fun l hl hc => (gone (by simp) hl hc).elim
  | called k =>
      apply fresh_of_view hv hg
      intro l hl hc
      right
      left
      simp
  | parked k =>
      apply fresh_of_view hv hg
      intro l hl hc
      cases hl
      exact .inl (by simp)
  | started k =>
      apply fresh_of_view hv (by exact hg.trans (Nat.le_succ _))
      intro l hl hc
      exact .inr (.inr (Nat.lt_succ_of_le hg))
  | withdrawn k ha =>
      apply fresh_of_view hv hg
      intro l hl hc
      cases hl
      cases hc
  | disconnecting k ha =>
      apply fresh_of_view hv hg
      intro l hl hc
      cases hl
      cases hc
  | sent k data ha hk hks =>
      apply fresh_of_view hv hg
      intro l hl hc
      exact (hf.underway ⟨l, hl, hc⟩).view hl
  | dropped =>
      apply fresh_of_view hv hg
      intro l hl hc
      exact (hf.underway ⟨l, hl, hc⟩).view hl
  | released k c n hr hi hk =>
      apply fresh_of_view hv (by exact hg.trans (Nat.le_succ _))
      intro l hl hc
      exact .inr (.inr (Nat.lt_succ_of_le hg))
  | status k st hso hst hk =>
      refine fresh_of_view hv hgt fun l hl hc => (gone ?_ hl hc).elim
      split <;> simp
  | shuted k hm' hk =>
      exact fresh_of_view hv hg fun l hl hc => (gone (by simp) hl hc).elim
  | disconnected k hc hk hks =>
      exact fresh_of_view hv hgt fun l hl hc => (gone (by simp) hl hc).elim
  | closed k hc hk hks =>
      apply fresh_of_view hv hgt
      intro l hl
      cases hl

end LuatAir200.Links
