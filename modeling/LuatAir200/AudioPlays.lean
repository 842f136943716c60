import LuatAir200.AudioModel
import Mathlib.Data.List.Nodup

/-!
# The callbacks of the sounds

Every sound with a callback that has been started or parked plays, has had its callback called,
or has been stopped by the program, and only one of these. The source calls the callbacks before
it clears or replaces the variables of the sound, so a request to play from inside a callback
still sees the sound that is over. Other ways to lose a callback are a loop that is replaced by
a sound of the same priority, a parked sound or a loop that cannot be started, and a report
that is about an earlier sound.
-/
namespace LuatAir200.Audio
open Lua Machine

/-- The sound whose callback is still to come. -/
def owed : Option Playback → List ℕ
  | some c => if c.cb then [c.num] else []
  | none => []

theorem owed_some (c : Playback) : owed (some c) = if c.cb then [c.num] else [] := rfl

structure Inv (s : State) : Prop where
  acct : s.accepted.Perm (s.calls.map Prod.fst ++ s.cancelled ++ owed s.cur)
  nodup : s.accepted.Nodup
  fresh : ∀ n ∈ s.accepted, n < s.issued
  reported : ∀ n, n ∈ s.ends ∨ n ∈ s.errors → n < s.issued
  due : ∀ c, s.cur = some c → c.cb → (c.dup = false → c.num ∉ s.ends) ∧ c.num ∉ s.errors
  right : ∀ e ∈ s.calls, (e.2 = .ended → e.1 ∈ s.ends) ∧ (e.2 = .failed → e.1 ∈ s.errors)
  timed : ∀ p ∈ s.timers, p.cb → s.cur = some p ∧ p.dup
  parked : s.spending → s.cur ≠ none
  stopping : s.stopreqcb.toNat + s.spending.toNat ≤ s.ttsstops + s.recordstops

theorem Inv.current {s : State} (hi : Inv s) {c : Playback} (hc : s.cur = some c) (hcb : c.cb) :
    c.num ∈ s.accepted := by
  rw [hi.acct.mem_iff, hc]
  simp [owed, hcb]

theorem perm_answered (l m : List ℕ) (n : ℕ) : (l ++ m ++ [n]).Perm (l ++ [n] ++ m) := by
  rw [List.append_assoc, List.append_assoc]
  exact List.perm_append_comm.append_left l

/-- Nothing plays any more, and what was owed has been given or cancelled. -/
theorem Inv.idle {s t : State} (hi : Inv s) (hcur : t.cur = none) (hsp : t.spending = false)
    (ht : ∀ p ∈ t.timers, p.cb = false) (hacc : t.accepted = s.accepted)
    (hiss : s.issued ≤ t.issued) (hends : t.ends = s.ends) (herr : t.errors = s.errors)
    (hacct : (s.calls.map Prod.fst ++ s.cancelled ++ owed s.cur).Perm
      (t.calls.map Prod.fst ++ t.cancelled))
    (hright : ∀ e ∈ t.calls, (e.2 = .ended → e.1 ∈ s.ends) ∧ (e.2 = .failed → e.1 ∈ s.errors))
    (hstop : t.stopreqcb.toNat ≤ t.ttsstops + t.recordstops) : Inv t := by
  constructor
  · rw [hacc, hcur, owed, List.append_nil]
    exact hi.acct.trans hacct
  · rw [hacc]
    exact hi.nodup
  · rw [hacc]
    exact fun n hn => (hi.fresh n hn).trans_le hiss
  · rw [hends, herr]
    exact fun n hn => (hi.reported n hn).trans_le hiss
  · intro c hc
    rw [hcur] at hc
    cases hc
  · rw [hends, herr]
    exact hright
  · intro p hp hcb
    rw [ht p hp] at hcb
    cases hcb
  · intro h
    rw [hsp] at h
    cases h
  · rw [hsp]
    simpa using hstop

/-- A sound that was not there before. -/
structure Fresh (s : State) (p : Playback) : Prop where
  new : p.cb → p.num ∉ s.accepted
  issued : p.cb → p.num < s.issued
  unreported : p.cb → p.num ∉ s.ends ∧ p.num ∉ s.errors

theorem accept_eq {s : State} {p : Playback} (h : p.cb → p.num ∉ s.accepted) :
    accept p s = { s with accepted := owed (some p) ++ s.accepted } := by
  unfold accept
  split
  · rename_i hcb
    rw [List.insert_of_not_mem (h hcb)]
    simp [owed, hcb]
  · rename_i hcb
    simp [owed, hcb]

/-- A new sound takes the place of nothing that is owed. -/
theorem Inv.accept {s : State} {p : Playback} (hi : Inv s) (hp : Fresh s p)
    (howed : owed s.cur = []) (ht : ∀ q ∈ s.timers, q.cb = false) (sp : Bool)
    (name : Option LuaString) (vol : ℕ)
    (hstop : s.stopreqcb.toNat + sp.toNat ≤ s.ttsstops + s.recordstops) :
    Inv (accept p { s with cur := some p, spending := sp, playname := name, speakervol := vol }) := by
  rw [accept_eq (s := { s with cur := some p, spending := sp, playname := name, speakervol := vol })
    hp.new]
  constructor
  · have h := hi.acct
    rw [howed, List.append_nil] at h
    exact (List.perm_append_comm).trans (h.append_right _)
  · show (owed (some p) ++ s.accepted).Nodup
    rw [owed_some]
    split
    · rename_i hcb
      exact List.nodup_cons.mpr ⟨hp.new hcb, hi.nodup⟩
    · exact hi.nodup
  · intro n hn
    rcases List.mem_append.mp hn with h | h
    · rw [owed_some] at h
      split at h
      · rw [List.mem_singleton.mp h]
        rename_i hcb
        exact hp.issued hcb
      · cases h
    · exact hi.fresh n h
  · exact hi.reported
  · intro c hc hcb
    cases hc
    exact ⟨fun _ => (hp.unreported hcb).1, (hp.unreported hcb).2⟩
  · exact hi.right
  · intro q hq hcb
    rw [ht q hq] at hcb
    cases hcb
  · intro _ h
    cases h
  · exact hstop

theorem playbegin_eq (ok : Bool) (p : Playback) (s : State) :
    playbegin ok p s =
      if begins p.typ ok then
        accept p { s with
          cur := some p, spending := false
          playname := loopname p s.playname, speakervol := p.vol.getD s.speakervol }
      else { s with
        cur := none, spending := false
        playname := loopname p s.playname, speakervol := p.vol.getD s.speakervol } := by
  unfold playbegin setspeakervol
  cases p.vol <;> rfl

theorem Inv.playbegin {s : State} {p : Playback} (hi : Inv s) (hp : Fresh s p)
    (howed : owed s.cur = []) (ht : ∀ q ∈ s.timers, q.cb = false) (ok : Bool) :
    Inv (playbegin ok p s) := by
  have hstop : s.stopreqcb.toNat ≤ s.ttsstops + s.recordstops :=
    Nat.le_trans (Nat.le_add_right _ _) hi.stopping
  rw [playbegin_eq]
  split
  · exact hi.accept hp howed ht false _ _ (by simpa using hstop)
  · refine hi.idle rfl rfl ht rfl le_rfl rfl rfl ?_ hi.right hstop
    rw [howed, List.append_nil]

/-- A sound that is parked or plays in a loop begins to play. -/
theorem Inv.playagain {s : State} {c : Playback} (hi : Inv s) (hc : s.cur = some c) {ok : Bool}
    (hok : c.cb → begins c.typ ok) : Inv (Audio.playbegin ok c s) := by
  have hle : s.stopreqcb.toNat ≤ s.ttsstops + s.recordstops :=
    Nat.le_trans (Nat.le_add_right _ _) hi.stopping
  rw [playbegin_eq]
  split
  · have hacc : Audio.accept c { s with
          cur := some c, spending := false
          playname := loopname c s.playname, speakervol := c.vol.getD s.speakervol } = { s with
            cur := some c, spending := false
            playname := loopname c s.playname, speakervol := c.vol.getD s.speakervol } := by
      unfold Audio.accept
      split
      · rename_i hcb
        rw [List.insert_of_mem (hi.current hc hcb)]
      · rfl
    rw [hacc]
    refine ⟨hc ▸ hi.acct, hi.nodup, hi.fresh, hi.reported, hc ▸ hi.due, hi.right, hc ▸ hi.timed,
      ?_, ?_⟩
    · intro h
      cases h
    · simpa using hle
  · rename_i hno
    have hcb : c.cb = false := by
      rw [← Bool.not_eq_true]
      exact fun h => hno (hok h)
    refine hi.idle rfl rfl ?_ rfl le_rfl rfl rfl ?_ hi.right hle
    · intro p hp
      rw [← Bool.not_eq_true]
      intro hpcb
      have hcur := (hi.timed p hp hpcb).1
      rw [hc, Option.some.injEq] at hcur
      rw [hcur, hpcb] at hcb
      cases hcb
    · rw [hc, owed_some, hcb]
      simp

/-! ## Stopping -/

/-- What `stop` leaves alone. -/
theorem stoptyp_eq (typ : Typ) (s : State) :
    stoptyp typ s = { s with
      ttsstops := (stoptyp typ s).ttsstops, recordstops := (stoptyp typ s).recordstops } := by
  cases typ <;> rfl

theorem stoptyp_le (typ : Typ) (s : State) :
    s.ttsstops + s.recordstops + (!sync typ).toNat =
      (stoptyp typ s).ttsstops + (stoptyp typ s).recordstops := by
  cases typ <;> simp [stoptyp, sync] <;> omega

theorem stop_none {s : State} (hc : s.cur = none) : stop s = s := by
  unfold stop
  rw [hc]

theorem stop_eq {s : State} {c : Playback} (hc : s.cur = some c) :
    stop s = { s with
      cur := none, spending := false, timers := [], playname := none
      ttsstops := (stoptyp c.typ s).ttsstops
      recordstops := (stoptyp c.typ s).recordstops } := by
  unfold stop
  rw [hc]
  simp only
  rw [stoptyp_eq]
  cases c.typ <;> rfl

theorem stops_eq {s : State} {c : Playback} (hc : s.cur = some c) : stops s = sync c.typ := by
  unfold stops
  rw [hc]

theorem answer_eq {s : State} {c : Playback} (hc : s.cur = some c) (r : Result)
    (code : State → State) :
    answer r code s = if c.cb then code { s with calls := s.calls ++ [(c.num, r)] } else s := by
  unfold answer
  rw [hc]

/-! ## Preemption -/

def Code.size : Code → ℕ
  | .done => 0
  | .play _ _ next => next.size + 1

/-- Everything that is asked for is refused while `c` plays. -/
def Code.Refused (c : Playback) : Code → Prop
  | .done => True
  | .play r _ next =>
      (r.priority < c.priority ∨ r.priority = c.priority ∧ c.dup = false) ∧ next.Refused c

theorem play_refused {s : State} {c p : Playback} (hc : s.cur = some c) (ok : Bool)
    (code : State → State)
    (h : p.priority < c.priority ∨ p.priority = c.priority ∧ c.dup = false) :
    play ok p code s = s := by
  unfold play
  rw [hc]
  simp only
  rcases h with h | ⟨h, hdup⟩
  · rw [if_neg (by omega), if_pos h]
  · rw [if_neg (by omega), if_neg (by omega), hdup]
    rfl

theorem Code.run_refused {c : Playback} {code : Code} {s : State} (hc : s.cur = some c)
    (h : code.Refused c) : code.run s = { s with issued := s.issued + code.size } := by
  induction code generalizing s with
  | done => rfl
  | play r inside next _ ih =>
      have hask : ask r inside.run s = { s with issued := s.issued + 1 } := by
        unfold ask
        exact play_refused (s := { s with issued := s.issued + 1 }) hc r.ok inside.run h.1
      rw [Code.run, hask, ih (s := { s with issued := s.issued + 1 }) hc h.2]
      simp only [Code.size, State.mk.injEq, and_true, true_and]
      omega

/-- The state in which the callback of a sound that is preempted returns. -/
def preempted (c : Playback) (code : Code) (s : State) : State :=
  if c.cb then
    { s with calls := s.calls ++ [(c.num, .preempted)], issued := s.issued + code.size }
  else s

theorem answer_preempted {s : State} {c : Playback} {code : Code} (hc : s.cur = some c)
    (h : c.cb → code.Refused c) : answer .preempted code.run s = preempted c code s := by
  rw [answer_eq hc, preempted]
  split
  · rename_i hcb
    exact Code.run_refused (s := { s with calls := s.calls ++ [(c.num, .preempted)] }) hc (h hcb)
  · rfl

theorem preempted_cur (c : Playback) (code : Code) (s : State) :
    (preempted c code s).cur = s.cur := by
  unfold preempted
  split <;> rfl

theorem Inv.preempted {s : State} {c : Playback} (hi : Inv s) (hc : s.cur = some c) (code : Code) :
    Inv (stop (preempted c code s)) := by
  have hcur : (Audio.preempted c code s).cur = some c := (preempted_cur c code s).trans hc
  have hle := hi.stopping
  rw [stop_eq hcur]
  unfold Audio.preempted
  split
  · rename_i hcb
    have hstop := stoptyp_le c.typ { s with
      calls := s.calls ++ [(c.num, .preempted)], issued := s.issued + code.size }
    refine hi.idle rfl rfl (by simp) rfl (Nat.le_add_right _ _) rfl rfl ?_ ?_ ?_
    · rw [hc, owed_some, if_pos hcb, List.map_append]
      exact perm_answered _ _ c.num
    · intro e he
      rcases List.mem_append.mp he with he | he
      · exact hi.right e he
      · rw [List.mem_singleton.mp he]
        simp
    · dsimp only at hstop ⊢
      omega
  · rename_i hcb
    have hstop := stoptyp_le c.typ s
    refine hi.idle rfl rfl (by simp) rfl le_rfl rfl rfl ?_ hi.right ?_
    · rw [hc, owed_some, if_neg hcb, List.append_nil]
    · dsimp only at hstop ⊢
      omega

/-! ## Requests -/

/-- What the code does with `p` as the claims of the two sounds ask for: inside the callback of a
sound that is preempted everything is refused, and a loop with a callback is replaced by itself
only. -/
def Fair (s : State) (ok : Bool) (p : Playback) (code : Code) : Prop :=
  match s.cur with
  | some c =>
      if c.priority < p.priority ∧ c.cb then
        code.Refused c ∧ (code ≠ .done → sync c.typ → begins p.typ ok)
      else
        code = .done ∧ (c.priority = p.priority → c.dup → c.cb → c = p ∧ begins p.typ ok)
  | none => code = .done

theorem Fresh.mono {s t : State} {p : Playback} (h : Fresh s p) (hacc : t.accepted = s.accepted)
    (hiss : s.issued ≤ t.issued) (hends : t.ends = s.ends) (herr : t.errors = s.errors) :
    Fresh t p := by
  constructor
  · rw [hacc]
    exact h.new
  · exact fun hcb => (h.issued hcb).trans_le hiss
  · rw [hends, herr]
    exact h.unreported

theorem Fresh.preempted {s : State} {c p : Playback} (h : Fresh s p) (hc : s.cur = some c)
    (code : Code) : Fresh (stop (preempted c code s)) p := by
  rw [stop_eq ((preempted_cur c code s).trans hc)]
  unfold Audio.preempted
  split
  · exact h.mono rfl (Nat.le_add_right _ _) rfl rfl
  · exact h.mono rfl le_rfl rfl rfl

theorem Inv.play {s : State} {ok : Bool} {p : Playback} {code : Code} (hi : Inv s)
    (hp : Fresh s p ∨ s.cur = some p) (hf : Fair s ok p code) : Inv (play ok p code.run s) := by
  unfold Audio.play
  cases hc : s.cur with
  | none =>
      have hp : Fresh s p := hp.resolve_right (by simp [hc])
      refine hi.playbegin hp (by rw [hc]; rfl) ?_ ok
      intro q hq
      rw [← Bool.not_eq_true]
      intro hcb
      have hcur := (hi.timed q hq hcb).1
      rw [hc] at hcur
      cases hcur
  | some c =>
      simp only [Fair, hc] at hf
      simp only
      split
      · rename_i hlt
        have hp : Fresh s p := by
          refine hp.resolve_right fun hcp => ?_
          rw [hc, Option.some.injEq] at hcp
          rw [hcp] at hlt
          omega
        have hcode : c.cb → code.Refused c := by
          intro hcb
          rw [if_pos ⟨hlt, hcb⟩] at hf
          exact hf.1
        have hcur := (preempted_cur c code s).trans hc
        have hi' := hi.preempted hc code
        have hp' := hp.preempted hc code
        have hstop := stop_eq hcur
        rw [answer_preempted hc hcode, stops_eq hcur]
        split
        · refine hi'.playbegin hp' ?_ ?_ ok
          · rw [hstop]
            rfl
          · rw [hstop]
            simp
        · rename_i hsync
          have hle := stoptyp_le c.typ (Audio.preempted c code s)
          have hpark := hi'.accept hp' (by rw [hstop]; rfl) (by rw [hstop]; simp) true
            (stop (Audio.preempted c code s)).playname (stop (Audio.preempted c code s)).speakervol
          apply hpark
          rw [Bool.not_eq_true] at hsync
          have hle' : (Audio.preempted c code s).stopreqcb.toNat ≤
              (Audio.preempted c code s).ttsstops + (Audio.preempted c code s).recordstops := by
            have hsum := hi.stopping
            unfold Audio.preempted
            split
            · show s.stopreqcb.toNat ≤ s.ttsstops + s.recordstops
              omega
            · omega
          rw [hstop]
          simp only [hsync, Bool.not_false, Bool.toNat_true] at hle ⊢
          omega
      · rename_i hlt
        rw [if_neg (by simp [hlt])] at hf
        split
        · exact hi
        split
        · rename_i hgt hdup
          have heq : c.priority = p.priority := by omega
          by_cases hcb : c.cb
          · obtain ⟨rfl, hok⟩ := hf.2 heq hdup hcb
            exact hi.playagain hc fun _ => hok
          · rcases hp with hp | hp
            · refine hi.playbegin hp ?_ ?_ ok
              · rw [hc, owed_some, if_neg hcb]
              · intro q hq
                rw [← Bool.not_eq_true]
                intro hqcb
                have hcur := (hi.timed q hq hqcb).1
                rw [hc, Option.some.injEq] at hcur
                exact hcb (hcur ▸ hqcb)
            · rw [hc, Option.some.injEq] at hp
              subst hp
              exact hi.playagain hc fun h => absurd h hcb
        · exact hi

/-! ## Reports -/

/-- The report that a sound has ended comes for the one that plays. -/
def EndFair (s : State) (num : ℕ) : Prop :=
  ∀ c ∈ s.cur, c.cb → c.dup = false → c.num = num ∧ s.spending = false

/-- An error is reported of the sound that plays and does not wait for its next turn. -/
def ErrFair (s : State) (num : ℕ) : Prop :=
  ∀ c ∈ s.cur, c.cb → c.num = num ∧ s.spending = false ∧ c ∉ s.timers

theorem Inv.report {s : State} (hi : Inv s) {ends errors : List ℕ}
    (hlt : ∀ n, n ∈ ends ∨ n ∈ errors → n < s.issued)
    (hends : s.ends ⊆ ends) (herr : s.errors ⊆ errors)
    (hdue : ∀ c, s.cur = some c → c.cb → (c.dup = false → c.num ∉ ends) ∧ c.num ∉ errors) :
    Inv { s with ends := ends, errors := errors } := by
  refine ⟨hi.acct, hi.nodup, hi.fresh, hlt, hdue, ?_, hi.timed, hi.parked, hi.stopping⟩
  intro e he
  exact ⟨fun h => hends ((hi.right e he).1 h), fun h => herr ((hi.right e he).2 h)⟩

theorem over_eq {s : State} {c : Playback} (hc : s.cur = some c) (r : Result) :
    clear (answer r Code.done.run (stoptyp c.typ s)) = { s with
      cur := none, spending := false
      calls := if c.cb then s.calls ++ [(c.num, r)] else s.calls
      ttsstops := (stoptyp c.typ s).ttsstops, recordstops := (stoptyp c.typ s).recordstops } := by
  have hcur : (stoptyp c.typ s).cur = some c := by
    rw [stoptyp_eq]
    exact hc
  rw [answer_eq hcur, clear]
  split
  · rename_i hcb
    rw [stoptyp_eq]
    rfl
  · rw [stoptyp_eq]

/-- The sound that plays is over with the callback `r`, which a report accounts for. -/
theorem Inv.finished {s : State} {c : Playback} {r : Result} (hi : Inv s) (hc : s.cur = some c)
    (hnot : c.cb → c ∉ s.timers) {ends errors : List ℕ} (hends : s.ends ⊆ ends)
    (herr : s.errors ⊆ errors) (hlt : ∀ n, n ∈ ends ∨ n ∈ errors → n < s.issued)
    (hr : c.cb → (r = .ended → c.num ∈ ends) ∧ (r = .failed → c.num ∈ errors))
    (name : Option LuaString) :
    Inv (clear (answer r Code.done.run (stoptyp c.typ
      { s with ends := ends, errors := errors, playname := name }))) := by
  have hacct := hi.acct
  have hle := stoptyp_le c.typ { s with ends := ends, errors := errors, playname := name }
  have hsum := hi.stopping
  rw [over_eq (s := { s with ends := ends, errors := errors, playname := name }) hc]
  constructor
  · rw [hc, owed_some] at hacct
    show s.accepted.Perm (List.map Prod.fst (if c.cb then s.calls ++ [(c.num, r)] else s.calls) ++
      s.cancelled ++ [])
    rw [List.append_nil]
    split at hacct
    · rename_i hcb
      rw [if_pos hcb, List.map_append]
      exact hacct.trans (perm_answered _ _ c.num)
    · rename_i hcb
      rw [if_neg hcb]
      simpa using hacct
  · exact hi.nodup
  · exact hi.fresh
  · exact hlt
  · intro d hd
    cases hd
  · intro e he
    have hold (he : e ∈ s.calls) := hi.right e he
    dsimp only at he ⊢
    split at he
    · rename_i hcb
      rcases List.mem_append.mp he with he | he
      · exact ⟨fun h => hends ((hold he).1 h), fun h => herr ((hold he).2 h)⟩
      · rw [List.mem_singleton.mp he]
        exact hr hcb
    · exact ⟨fun h => hends ((hold he).1 h), fun h => herr ((hold he).2 h)⟩
  · intro p hp hcb
    have hpc := (hi.timed p hp hcb).1
    rw [hc, Option.some.injEq] at hpc
    subst hpc
    exact absurd hp (hnot hcb)
  · intro h
    cases h
  · dsimp only at hle ⊢
    simp only [Bool.toNat_false, Nat.add_zero]
    omega

theorem clear_none {s : State} (hi : Inv s) (hc : s.cur = none) : clear s = s := by
  have hsp : s.spending = false := by
    rw [← Bool.not_eq_true]
    exact fun h => hi.parked h hc
  rw [clear, ← hc, ← hsp]

theorem playend_loop {s : State} {c : Playback} (hi : Inv s) (hc : s.cur = some c)
    (hdup : c.dup = true) (ok : Bool) : Inv (playend ok Code.done.run s) := by
  cases hprd : c.duprd with
  | some prd =>
      have heq : playend ok Code.done.run s = { s with timers := s.timers.insert c } := by
        unfold playend
        simp only [hc, hdup, hprd, if_true]
      rw [heq]
      refine ⟨hi.acct, hi.nodup, hi.fresh, hi.reported, hi.due, hi.right, ?_, hi.parked,
        hi.stopping⟩
      intro p hp hcb
      rcases List.mem_insert_iff.mp hp with rfl | hp
      · exact ⟨hc, hdup⟩
      · exact hi.timed p hp hcb
  | none =>
      have heq : playend ok Code.done.run s =
          if sync c.typ then s else play ok c Code.done.run s := by
        unfold playend
        simp only [hc, hdup, hprd, if_true]
      rw [heq]
      split
      · exact hi
      · rename_i hsync
        refine @Inv.play _ _ _ .done hi (.inr hc) ?_
        have hbegins : begins c.typ ok = true := by
          cases htyp : c.typ <;> simp_all [sync, begins]
        simp [Fair, hc, hbegins]

theorem Inv.playend {s : State} {num : ℕ} (hi : Inv s) (hnum : num < s.issued)
    (hf : EndFair s num) (ok : Bool) :
    Inv (playend ok Code.done.run { s with ends := s.ends ++ [num] }) := by
  have hlt (n : ℕ) : n ∈ s.ends ++ [num] ∨ n ∈ s.errors → n < s.issued := by
    rintro (h | h)
    · rcases List.mem_append.mp h with h | h
      · exact hi.reported n (.inl h)
      · rw [List.mem_singleton.mp h]
        exact hnum
    · exact hi.reported n (.inr h)
  have hsub : s.ends ⊆ s.ends ++ [num] := List.subset_append_left _ _
  by_cases hover : ∃ c, s.cur = some c ∧ c.dup = false
  · obtain ⟨c, hc, hdup⟩ := hover
    have heq : Audio.playend ok Code.done.run { s with ends := s.ends ++ [num] } =
        clear (answer .ended Code.done.run (stoptyp c.typ { s with ends := s.ends ++ [num] })) := by
      unfold Audio.playend
      simp only [hc, hdup, Bool.false_eq_true, if_false]
    rw [heq]
    refine hi.finished hc ?_ hsub (List.Subset.refl _) hlt ?_ s.playname
    · intro hcb hmem
      have htimed := (hi.timed c hmem hcb).2
      rw [hdup] at htimed
      cases htimed
    · intro hcb
      refine ⟨fun _ => ?_, fun h => by cases h⟩
      rw [(hf c hc hcb hdup).1]
      exact List.mem_append_right _ (List.mem_singleton_self num)
  · have hi' : Inv { s with ends := s.ends ++ [num] } := by
      refine hi.report hlt hsub (List.Subset.refl _) ?_
      intro c hc hcb
      exact ⟨fun hdup => absurd ⟨c, hc, hdup⟩ hover, (hi.due c hc hcb).2⟩
    rcases Option.eq_none_or_eq_some s.cur with hc | ⟨c, hc⟩
    · have heq : Audio.playend ok Code.done.run { s with ends := s.ends ++ [num] } =
          clear { s with ends := s.ends ++ [num] } := by
        unfold Audio.playend
        simp only [hc]
      rw [heq, clear_none hi' hc]
      exact hi'
    · refine playend_loop hi' hc ?_ ok
      rw [← Bool.not_eq_false]
      exact fun hdup => hover ⟨c, hc, hdup⟩

theorem Inv.playerr {s : State} {num : ℕ} (hi : Inv s) (hnum : num < s.issued)
    (hf : ErrFair s num) (name : Option LuaString) :
    Inv (playerr Code.done.run { s with errors := s.errors ++ [num], playname := name }) := by
  have hlt (n : ℕ) : n ∈ s.ends ∨ n ∈ s.errors ++ [num] → n < s.issued := by
    rintro (h | h)
    · exact hi.reported n (.inl h)
    · rcases List.mem_append.mp h with h | h
      · exact hi.reported n (.inr h)
      · rw [List.mem_singleton.mp h]
        exact hnum
  have hsub : s.errors ⊆ s.errors ++ [num] := List.subset_append_left _ _
  rcases Option.eq_none_or_eq_some s.cur with hc | ⟨c, hc⟩
  · have hi' : Inv { s with errors := s.errors ++ [num], playname := name } := by
      have hr := hi.report hlt (List.Subset.refl _) hsub fun c h => by rw [hc] at h; cases h
      exact ⟨hr.acct, hr.nodup, hr.fresh, hr.reported, hr.due, hr.right, hr.timed, hr.parked,
        hr.stopping⟩
    have heq : Audio.playerr Code.done.run
        { s with errors := s.errors ++ [num], playname := name } =
        clear { s with errors := s.errors ++ [num], playname := name } := by
      unfold Audio.playerr
      simp only [hc]
    rw [heq, clear_none hi' hc]
    exact hi'
  · have heq : Audio.playerr Code.done.run
        { s with errors := s.errors ++ [num], playname := name } =
        clear (answer .failed Code.done.run (stoptyp c.typ
          { s with errors := s.errors ++ [num], playname := name })) := by
      unfold Audio.playerr
      simp only [hc]
    rw [heq]
    refine hi.finished hc (fun hcb => (hf c hc hcb).2.2) (List.Subset.refl _) hsub hlt ?_ name
    intro hcb
    constructor
    · intro h
      cases h
    · intro _
      rw [(hf c hc hcb).1]
      exact List.mem_append_right _ (List.mem_singleton_self num)

/-- The end of a file is not seen while another file plays in a loop. -/
theorem Inv.audiomsgend {s : State} {num : ℕ} (hi : Inv s) (hnum : num < s.issued)
    (hend : s.playname = none → EndFair s num)
    (hloop : s.playname ≠ none → ∀ c ∈ s.cur, c.cb → c.dup = false → c.num ≠ num) (ok : Bool) :
    Inv (audiomsgend ok Code.done.run { s with ends := s.ends ++ [num] }) := by
  unfold Audio.audiomsgend
  split
  · rename_i hname
    refine hi.report ?_ (List.subset_append_left _ _) (List.Subset.refl _) ?_
    · rintro n (h | h)
      · rcases List.mem_append.mp h with h | h
        · exact hi.reported n (.inl h)
        · rw [List.mem_singleton.mp h]
          exact hnum
      · exact hi.reported n (.inr h)
    · intro c hc hcb
      refine ⟨fun hdup hmem => ?_, (hi.due c hc hcb).2⟩
      rcases List.mem_append.mp hmem with hmem | hmem
      · exact (hi.due c hc hcb).1 hdup hmem
      · exact hloop hname c hc hcb hdup (List.mem_singleton.mp hmem)
  · rename_i hname
    exact hi.playend hnum (hend (not_not.mp hname)) ok

/-! ## The program stops a sound -/

theorem cancel_cur (s : State) : (cancel s).cur = s.cur := by
  unfold cancel
  split
  · split <;> rfl
  · rfl

/-- After `stop` nothing plays, and a sound that cannot be stopped at once has its command. -/
theorem Inv.cancelled {s : State} (hi : Inv s) : Inv (stop (cancel s)) ∧
    (stop (cancel s)).spending = false ∧
    (stops (cancel s) = false →
      1 ≤ (stop (cancel s)).ttsstops + (stop (cancel s)).recordstops) := by
  rcases Option.eq_none_or_eq_some s.cur with hc | ⟨c, hc⟩
  · have hcan : cancel s = s := by
      unfold cancel
      rw [hc]
    have hsync : stops s = true := by
      unfold stops
      rw [hc]
    rw [hcan, stop_none hc, hsync]
    refine ⟨hi, ?_, fun h => by cases h⟩
    rw [← Bool.not_eq_true]
    exact fun h => hi.parked h hc
  · have hcur : (cancel s).cur = some c := (cancel_cur s).trans hc
    have hle := stoptyp_le c.typ (cancel s)
    have hsum := hi.stopping
    have hcan : cancel s = { s with
        cancelled := if c.cb then s.cancelled ++ [c.num] else s.cancelled } := by
      unfold cancel
      split
      · rename_i d hd
        rw [hc, Option.some.injEq] at hd
        subst hd
        split <;> rfl
      · rename_i hn
        rw [hc] at hn
        cases hn
    rw [stop_eq hcur, stops_eq hcur]
    have hstart : s.ttsstops + s.recordstops = (cancel s).ttsstops + (cancel s).recordstops := by
      rw [hcan]
    refine ⟨?_, rfl, ?_⟩
    · rw [hcan] at hle ⊢
      refine hi.idle rfl rfl (by simp) rfl le_rfl rfl rfl ?_ hi.right ?_
      · rw [hc, owed_some]
        dsimp only
        split
        · rw [List.append_assoc]
        · rw [List.append_nil]
      · dsimp only at hle ⊢
        omega
    · intro hsync
      dsimp only
      rw [hsync, Bool.not_false, Bool.toNat_true] at hle
      omega

theorem Inv.audstopreq {s : State} (hi : Inv s) (cb : Bool) : Inv (audstopreq cb (cancel s)) := by
  obtain ⟨hi', hsp, hone⟩ := hi.cancelled
  unfold Audio.audstopreq
  split
  · exact hi'
  · rename_i hno
    refine ⟨hi'.acct, hi'.nodup, hi'.fresh, hi'.reported, hi'.due, hi'.right, hi'.timed, hi'.parked,
      ?_⟩
    show cb.toNat + (stop (cancel s)).spending.toNat ≤ _
    rw [hsp, Bool.toNat_false, Nat.add_zero]
    cases cb with
    | false => exact Nat.zero_le _
    | true =>
        apply hone
        rw [← Bool.not_eq_true]
        exact fun h => hno ⟨h, rfl⟩

theorem Inv.stopind {s : State} {tts record : ℕ} (hi : Inv s) {ok : Bool}
    (hone : tts + record + 1 = s.ttsstops + s.recordstops)
    (hf : s.stopreqcb = false → s.spending → ∀ c ∈ s.cur, c.cb → begins c.typ ok) :
    Inv (stopind ok { s with ttsstops := tts, recordstops := record }) := by
  have hsum := hi.stopping
  unfold Audio.stopind
  split
  · rename_i hreq
    refine ⟨hi.acct, hi.nodup, hi.fresh, hi.reported, hi.due, hi.right, hi.timed, hi.parked, ?_⟩
    rw [hreq, Bool.toNat_true] at hsum
    show false.toNat + s.spending.toNat ≤ tts + record
    rw [Bool.toNat_false]
    omega
  · rename_i hreq
    rw [Bool.not_eq_true] at hreq
    -- what is left when the parked sound is not looked at
    have hi' : Inv { s with ttsstops := tts, recordstops := record, spending := false } := by
      refine ⟨hi.acct, hi.nodup, hi.fresh, hi.reported, hi.due, hi.right, hi.timed, ?_, ?_⟩
      · intro h
        cases h
      · show s.stopreqcb.toNat + 0 ≤ tts + record
        rw [hreq, Bool.toNat_false]
        omega
    split
    · rename_i c hc
      split
      · rename_i hsp
        exact hi'.playagain hc (hf hreq hsp c hc)
      · rename_i hsp
        rw [Bool.not_eq_true] at hsp
        rw [← hsp] at hi'
        exact hi'
    · rename_i hc
      have hsp : s.spending = false := by
        rw [← Bool.not_eq_true]
        exact fun h => hi.parked h hc
      rw [← hsp] at hi'
      exact hi'

/-! ## Runs -/

/-- Requests are fair, and no callback of a sound that has ended or failed asks for another one.
Reports are about the sound that plays, and neither a parked sound nor the loop of another file
is in their way. A parked sound with a callback can be started. -/
def Careful (s : State) : Act → Prop
  | .play r code => Fair s r.ok (r.playback s.issued) code
  | .stop => True
  | .stopreq _ => True
  | .fileend num _ code => code = .done ∧ (s.playname = none → EndFair s num) ∧
      (s.playname ≠ none → ∀ c ∈ s.cur, c.cb → c.dup = false → c.num ≠ num)
  | .fileerr num code => code = .done ∧ ErrFair s num
  | .urcend num _ code => code = .done ∧ EndFair s num
  | .urcerr num code => code = .done ∧ ErrFair s num
  | .ttstopind ok => s.stopreqcb = false → s.spending → ∀ c ∈ s.cur, c.cb → begins c.typ ok
  | .recordstopind ok => s.stopreqcb = false → s.spending → ∀ c ∈ s.cur, c.cb → begins c.typ ok
  | .timer p ok code => Fair s ok p code

instance (code : Code) : Decidable (code = .done) :=
  match code with
  | .done => isTrue rfl
  | .play .. => isFalse fun h => by cases h

instance decidableRefused (c : Playback) : (code : Code) → Decidable (code.Refused c)
  | .done => isTrue trivial
  | .play _ _ next =>
      have := decidableRefused c next
      inferInstanceAs (Decidable (_ ∧ _))

instance (s : State) (ok : Bool) (p : Playback) (code : Code) : Decidable (Fair s ok p code) := by
  unfold Fair
  cases s.cur <;> infer_instance

instance (s : State) (num : ℕ) : Decidable (EndFair s num) := by
  unfold EndFair
  infer_instance

instance (s : State) (num : ℕ) : Decidable (ErrFair s num) := by
  unfold ErrFair
  infer_instance

instance (s : State) (a : Act) : Decidable (Careful s a) := by
  unfold Careful
  cases a <;> infer_instance

theorem Inv.step {s t : State} {a : Act} (hi : Inv s) (hd : Careful s a)
    (h : step s a = some t) : Inv t := by
  cases a with
  | play r code =>
      cases h
      have hi' : Inv { s with issued := s.issued + 1 } :=
        ⟨hi.acct, hi.nodup, fun n hn => Nat.lt_succ_of_lt (hi.fresh n hn),
          fun n hn => Nat.lt_succ_of_lt (hi.reported n hn), hi.due, hi.right, hi.timed, hi.parked,
          hi.stopping⟩
      refine hi'.play (.inl ⟨fun _ hmem => ?_, fun _ => Nat.lt_succ_self _, fun _ => ⟨?_, ?_⟩⟩) hd
      · exact (hi.fresh _ hmem).ne rfl
      · exact fun hmem => (hi.reported _ (.inl hmem)).ne rfl
      · exact fun hmem => (hi.reported _ (.inr hmem)).ne rfl
  | stop =>
      cases h
      exact hi.cancelled.1
  | stopreq cb =>
      cases h
      exact hi.audstopreq cb
  | fileend num ok code =>
      obtain ⟨hnum, ⟨⟩⟩ := Option.ite_none_right_eq_some.mp h
      obtain ⟨rfl, hend, hloop⟩ := hd
      exact hi.audiomsgend hnum hend hloop ok
  | fileerr num code =>
      obtain ⟨hnum, ⟨⟩⟩ := Option.ite_none_right_eq_some.mp h
      obtain ⟨rfl, hf⟩ := hd
      exact hi.playerr hnum hf none
  | urcend num ok code =>
      obtain ⟨hnum, ⟨⟩⟩ := Option.ite_none_right_eq_some.mp h
      obtain ⟨rfl, hf⟩ := hd
      exact hi.playend hnum hf ok
  | urcerr num code =>
      obtain ⟨hnum, ⟨⟩⟩ := Option.ite_none_right_eq_some.mp h
      obtain ⟨rfl, hf⟩ := hd
      exact hi.playerr hnum hf s.playname
  | ttstopind ok =>
      obtain ⟨hpos, ⟨⟩⟩ := Option.ite_none_right_eq_some.mp h
      exact hi.stopind (by omega) hd
  | recordstopind ok =>
      obtain ⟨hpos, ⟨⟩⟩ := Option.ite_none_right_eq_some.mp h
      exact hi.stopind (by omega) hd
  | timer p ok code =>
      obtain ⟨hmem, ⟨⟩⟩ := Option.ite_none_right_eq_some.mp h
      have hi' : Inv { s with timers := s.timers.erase p } :=
        ⟨hi.acct, hi.nodup, hi.fresh, hi.reported, hi.due, hi.right,
          fun q hq => hi.timed q (List.mem_of_mem_erase hq), hi.parked, hi.stopping⟩
      refine hi'.play ?_ hd
      by_cases hcb : p.cb
      · exact .inr (hi.timed p hmem hcb).1
      · exact .inl ⟨fun h => absurd h hcb, fun h => absurd h hcb, fun h => absurd h hcb⟩

theorem Inv.initial : Inv initial := by
  constructor <;> simp [Audio.initial, owed]

/-! ## Requests from inside a callback -/

def Act.code : Act → Code
  | .play _ code | .fileend _ _ code | .fileerr _ code | .urcend _ _ code | .urcerr _ code
  | .timer _ _ code => code
  | _ => .done

/-- The action with a callback that asks for nothing. -/
def Act.plain : Act → Act
  | .play r _ => .play r .done
  | .fileend num ok _ => .fileend num ok .done
  | .fileerr num _ => .fileerr num .done
  | .urcend num ok _ => .urcend num ok .done
  | .urcerr num _ => .urcerr num .done
  | .timer p ok _ => .timer p ok .done
  | a => a

def skip (k : ℕ) (s : State) : State := { s with issued := s.issued + k }

theorem accept_cur (p : Playback) (s : State) : (accept p s).cur = s.cur := by
  unfold accept
  split <;> rfl

theorem Code.Refused.mono {c p : Playback} {code : Code} (h : code.Refused c)
    (hlt : c.priority < p.priority) : code.Refused p := by
  induction code with
  | done => trivial
  | play r inside next _ ih =>
      refine ⟨.inl ?_, ih h.2⟩
      rcases h.1 with h | ⟨h, -⟩ <;> omega

theorem play_preempt {s : State} {c p : Playback} {code : Code} (hc : s.cur = some c)
    (hlt : c.priority < p.priority) (hcode : c.cb → code.Refused c) (ok : Bool) :
    play ok p code.run s =
      if sync c.typ then playbegin ok p (stop (preempted c code s))
      else accept p { stop (preempted c code s) with cur := some p, spending := true } := by
  unfold play
  rw [hc]
  simp only
  rw [if_pos hlt, answer_preempted hc hcode,
    stops_eq ((preempted_cur c code s).trans hc)]

/-- A sound that does not play any more and was not stopped by the program has had its callback
called once, that of no sound is called twice, and the sound that plays or is parked still
waits for its own report or for the response to the command that stops the one before. -/
structure Accounted (s : State) : Prop where
  once : ∀ n ∈ s.accepted, n ∉ s.cancelled → n ∉ owed s.cur → (s.calls.map Prod.fst).count n = 1
  never_twice : ∀ n, (s.calls.map Prod.fst).count n ≤ 1
  playing : ∀ c ∈ s.cur, c.cb → (s.calls.map Prod.fst).count c.num = 0 ∧
    (c.dup = false → c.num ∉ s.ends) ∧ c.num ∉ s.errors
  parked : s.spending → 0 < s.ttsstops + s.recordstops
  right : ∀ e ∈ s.calls, (e.2 = .ended → e.1 ∈ s.ends) ∧ (e.2 = .failed → e.1 ∈ s.errors)

theorem Inv.accounted {s : State} (hi : Inv s) : Accounted s := by
  have hcount (n : ℕ) : (s.calls.map Prod.fst).count n + s.cancelled.count n +
      (owed s.cur).count n = s.accepted.count n := by
    rw [hi.acct.count_eq, List.count_append, List.count_append]
  have hle (n : ℕ) : s.accepted.count n ≤ 1 := List.nodup_iff_count_le_one.mp hi.nodup n
  constructor
  · intro n hn hcan howed
    have h := hcount n
    rw [List.count_eq_zero_of_not_mem hcan, List.count_eq_zero_of_not_mem howed,
      List.count_eq_one_of_mem hi.nodup hn] at h
    exact h
  · intro n
    have h := hcount n
    have h' := hle n
    omega
  · intro c hc hcb
    refine ⟨?_, hi.due c hc hcb⟩
    have h := hcount c.num
    have h' := hle c.num
    have howed : (owed s.cur).count c.num = 1 := by
      rw [Option.mem_def.mp hc, owed_some, if_pos hcb]
      exact List.count_singleton_self
    omega
  · intro hsp
    have h := hi.stopping
    rw [hsp, Bool.toNat_true] at h
    omega
  · exact hi.right

def text (priority : ℤ) : Request := ⟨priority, .TTS (lua "4F60"), none, true, false, none, true⟩

def file (priority : ℤ) : Request :=
  ⟨priority, .FILE (lua "/ldata/call.mp3"), some 7, true, false, none, true⟩

end LuatAir200.Audio
