import LuatAir200.AudioPlays

/-!
# Requests to stop the sound

The requests AUDIO_STOP_REQ with a callback are numbered. `audstopreq` keeps one callback, and
`ttstopind` and `recordstopind` call it with the next response, whatever was stopped. What a
callback of a request plays comes right after it: nothing that the code does then is seen by
`play`, so it is an action of its own here.
-/
namespace LuatAir200.Audio
open Machine

/-- The commands to stop a text or a record that have no response. -/
def unanswered (s : State) : ℕ := s.ttsstops + s.recordstops

structure Requests where
  audio : State
  asked : ℕ
  /-- The request whose callback is `stopreqcb`. -/
  waiting : Option ℕ
  /-- The requests whose callbacks have been called, with the state in which they were. -/
  called : List (ℕ × State)

def start : Requests := ⟨initial, 0, none, []⟩

/-- The callback that waits is called. -/
def answered (w : Requests) (t : State) : Requests :=
  match w.waiting with
  | some i => { w with audio := t, waiting := none, called := w.called ++ [(i, t)] }
  | none => { w with audio := t }

def requested (w : Requests) (cb : Bool) (t : State) : Requests :=
  if cb then
    if stops w.audio then
      { w with audio := t, asked := w.asked + 1, called := w.called ++ [(w.asked, t)] }
    else { w with audio := t, asked := w.asked + 1, waiting := some w.asked }
  else { w with audio := t, waiting := none }

def next (w : Requests) (a : Act) (t : State) : Requests :=
  match a with
  | .stopreq cb => requested w cb t
  | .ttstopind _ | .recordstopind _ => answered w t
  | _ => { w with audio := t }

def stopStep (w : Requests) (a : Act) : Option Requests := (step w.audio a).map (next w a)

theorem requested_audio (w : Requests) (cb : Bool) (t : State) : (requested w cb t).audio = t := by
  unfold requested
  split
  · split <;> rfl
  · rfl

theorem answered_audio (w : Requests) (t : State) : (answered w t).audio = t := by
  unfold answered
  split <;> rfl

theorem next_audio (w : Requests) (a : Act) (t : State) : (next w a t).audio = t := by
  cases a with
  | stopreq cb => exact requested_audio w cb t
  | ttstopind | recordstopind => exact answered_audio w t
  | play | stop | fileend | fileerr | urcend | urcerr | timer => rfl

/-! ## The slot -/

theorem accept_slot (p : Playback) (s : State) : (accept p s).stopreqcb = s.stopreqcb := by
  unfold accept
  split <;> rfl

theorem answer_slot {code : State → State} (hcode : ∀ s, (code s).stopreqcb = s.stopreqcb) (r : Result)
    (s : State) : (answer r code s).stopreqcb = s.stopreqcb := by
  unfold answer
  split
  · split
    · exact hcode _
    · rfl
  · rfl

theorem playbegin_slot (ok : Bool) (p : Playback) (s : State) :
    (playbegin ok p s).stopreqcb = s.stopreqcb := by
  rw [playbegin_eq]
  split
  · exact accept_slot p _
  · rfl

theorem stoptyp_slot (typ : Typ) (s : State) : (stoptyp typ s).stopreqcb = s.stopreqcb := by
  rw [stoptyp_eq]

theorem stop_slot (s : State) : (stop s).stopreqcb = s.stopreqcb := by
  rcases Option.eq_none_or_eq_some s.cur with hc | ⟨c, hc⟩
  · rw [stop_none hc]
  · rw [stop_eq hc]

theorem play_slot {code : State → State} (hcode : ∀ s, (code s).stopreqcb = s.stopreqcb) (ok : Bool)
    (p : Playback) (s : State) : (play ok p code s).stopreqcb = s.stopreqcb := by
  have ha := answer_slot hcode .preempted s
  unfold play
  split
  · split
    · dsimp only
      split
      · rw [playbegin_slot, stop_slot, ha]
      · rw [accept_slot]
        exact (stop_slot _).trans ha
    · split
      · rfl
      · split
        · exact playbegin_slot ok p s
        · rfl
  · exact playbegin_slot ok p s

theorem Code.run_slot (code : Code) (s : State) : (code.run s).stopreqcb = s.stopreqcb := by
  induction code generalizing s with
  | done => rfl
  | play r inside next hinside hnext =>
      rw [Code.run, hnext, ask]
      exact play_slot hinside r.ok _ _

theorem playend_slot {code : State → State} (hcode : ∀ s, (code s).stopreqcb = s.stopreqcb)
    (ok : Bool) (s : State) : (playend ok code s).stopreqcb = s.stopreqcb := by
  unfold playend
  split
  · split
    · split
      · rfl
      · split
        · rfl
        · exact play_slot hcode ok _ s
    · exact (answer_slot hcode _ _).trans (stoptyp_slot _ s)
  · rfl

theorem playerr_slot {code : State → State} (hcode : ∀ s, (code s).stopreqcb = s.stopreqcb) (s : State) :
    (playerr code s).stopreqcb = s.stopreqcb := by
  unfold playerr
  split
  · exact (answer_slot hcode _ _).trans (stoptyp_slot _ s)
  · rfl

theorem cancel_slot (s : State) : (cancel s).stopreqcb = s.stopreqcb := by
  unfold cancel
  split
  · split <;> rfl
  · rfl

theorem stops_cancel (s : State) : stops (cancel s) = stops s := by
  unfold stops
  rw [cancel_cur]

theorem audstopreq_slot (cb : Bool) (s : State) : (audstopreq cb (cancel s)).stopreqcb =
    if stops s ∧ cb then s.stopreqcb else cb := by
  unfold audstopreq
  rw [stops_cancel]
  split
  · rw [stop_slot, cancel_slot]
  · rfl

theorem stopind_slot (ok : Bool) (s : State) : (stopind ok s).stopreqcb = false := by
  unfold stopind
  split
  · rfl
  · rename_i h
    have hf : s.stopreqcb = false := Bool.eq_false_iff.mpr h
    split
    · split
      · rw [playbegin_slot, hf]
      · exact hf
    · exact hf

/-- Every other action leaves the slot alone. -/
theorem step_slot {s t : State} {a : Act} (h : step s a = some t) : t.stopreqcb =
    match a with
    | .stopreq cb => if stops s ∧ cb then s.stopreqcb else cb
    | .ttstopind _ | .recordstopind _ => false
    | _ => s.stopreqcb := by
  cases a with
  | play r code =>
      cases h
      exact play_slot code.run_slot r.ok _ _
  | stop =>
      cases h
      exact (stop_slot _).trans (cancel_slot s)
  | stopreq cb =>
      cases h
      exact audstopreq_slot cb s
  | fileend num ok code =>
      obtain ⟨-, ⟨⟩⟩ := Option.ite_none_right_eq_some.mp h
      unfold audiomsgend
      split
      · rfl
      · exact playend_slot code.run_slot ok _
  | fileerr num code =>
      obtain ⟨-, ⟨⟩⟩ := Option.ite_none_right_eq_some.mp h
      exact playerr_slot code.run_slot _
  | urcend num ok code =>
      obtain ⟨-, ⟨⟩⟩ := Option.ite_none_right_eq_some.mp h
      exact playend_slot code.run_slot ok _
  | urcerr num code =>
      obtain ⟨-, ⟨⟩⟩ := Option.ite_none_right_eq_some.mp h
      exact playerr_slot code.run_slot _
  | ttstopind ok =>
      obtain ⟨-, ⟨⟩⟩ := Option.ite_none_right_eq_some.mp h
      exact stopind_slot ok _
  | recordstopind ok =>
      obtain ⟨-, ⟨⟩⟩ := Option.ite_none_right_eq_some.mp h
      exact stopind_slot ok _
  | timer p ok code =>
      obtain ⟨-, ⟨⟩⟩ := Option.ite_none_right_eq_some.mp h
      exact play_slot code.run_slot ok p _

/-! ## Stops that are under way -/

/-- A callback waits, and a sound is parked, for the only command that is unanswered. -/
structure Steady (s : State) : Prop where
  waits : s.stopreqcb → s.cur = none ∧ unanswered s = 1 ∧ s.timers = []
  parked : s.spending → s.cur ≠ none ∧ unanswered s = 1 ∧ s.timers = []

theorem Steady.free {s : State} (hs : s.stopreqcb = false) (hp : s.spending = false) : Steady s := by
  constructor
  · intro h
    rw [hs] at h
    cases h
  · intro h
    rw [hp] at h
    cases h

/-- Nothing plays while a callback waits. -/
theorem Steady.slot {s : State} (hs : Steady s) {c : Playback} (hc : s.cur = some c) :
    s.stopreqcb = false := by
  apply Bool.eq_false_iff.mpr
  intro h
  rw [(hs.waits h).1] at hc
  cases hc

theorem Steady.idle {s : State} (hs : Steady s) (hc : s.cur = none) : s.spending = false := by
  apply Bool.eq_false_iff.mpr
  intro h
  exact (hs.parked h).1 hc

/-- No sound begins while a callback waits; the callback of a sound that is preempted asks for
nothing that is not refused; and a sound is parked only if nothing else is unanswered. -/
def PlayGood (s : State) (ok : Bool) (p : Playback) (code : Code) : Prop :=
  match s.cur with
  | none => s.stopreqcb → begins p.typ ok = false
  | some c => c.priority < p.priority → (c.cb → code.Refused c) ∧
      (sync c.typ = false → unanswered s = 0)

/-- A report comes of no parked sound, and what its callback asks for is refused. -/
def ReportGood (s : State) (code : Code) : Prop :=
  s.spending = false ∧ ∀ c ∈ s.cur, c.cb → code.Refused c

def Good (s : State) : Act → Prop
  | .play r code => PlayGood s r.ok (r.playback s.issued) code
  | .timer p ok code => PlayGood s ok p code
  | .stop => True
  | .stopreq cb => if cb then unanswered s = 0 else s.stopreqcb = false
  | .fileend _ _ code | .fileerr _ code | .urcend _ _ code | .urcerr _ code => ReportGood s code
  | .ttstopind _ | .recordstopind _ => True

theorem accept_spending (p : Playback) (s : State) : (accept p s).spending = s.spending := by
  unfold accept
  split <;> rfl

theorem playbegin_spending (ok : Bool) (p : Playback) (s : State) :
    (playbegin ok p s).spending = false := by
  rw [playbegin_eq]
  split
  · rw [accept_spending]
  · rfl

theorem playbegin_cur (ok : Bool) (p : Playback) (s : State) :
    (playbegin ok p s).cur = if begins p.typ ok then some p else none := by
  rw [playbegin_eq]
  split
  · exact accept_cur p _
  · rfl

theorem accept_unanswered (p : Playback) (s : State) : unanswered (accept p s) = unanswered s := by
  unfold accept
  split <;> rfl

theorem playbegin_unanswered (ok : Bool) (p : Playback) (s : State) :
    unanswered (playbegin ok p s) = unanswered s := by
  rw [playbegin_eq]
  split
  · exact accept_unanswered p _
  · rfl

theorem stop_unanswered {s : State} {c : Playback} (hc : s.cur = some c) :
    unanswered (stop s) = unanswered s + (!sync c.typ).toNat := by
  rw [stop_eq hc]
  exact (stoptyp_le c.typ s).symm

theorem Steady.begins {s : State} (hs : s.stopreqcb = false) (ok : Bool) (p : Playback) :
    Steady (playbegin ok p s) :=
  .free ((playbegin_slot ok p s).trans hs) (playbegin_spending ok p s)

/-- What is left when a sound is preempted. -/
theorem preempted_steady {s : State} {c : Playback} (hc : s.cur = some c) (code : Code) :
    (stop (preempted c code s)).stopreqcb = s.stopreqcb ∧
    unanswered (stop (preempted c code s)) = unanswered s + (!sync c.typ).toNat ∧
    (stop (preempted c code s)).timers = [] := by
  have hcur := (preempted_cur c code s).trans hc
  have hun : unanswered (preempted c code s) = unanswered s := by
    unfold preempted
    split <;> rfl
  refine ⟨?_, ?_, ?_⟩
  · rw [stop_slot]
    unfold preempted
    split <;> rfl
  · rw [stop_unanswered hcur, hun]
  · rw [stop_eq hcur]

theorem Steady.play {s : State} {ok : Bool} {p : Playback} {code : Code} (hs : Steady s)
    (hg : PlayGood s ok p code) : Steady (play ok p code.run s) := by
  rcases Option.eq_none_or_eq_some s.cur with hc | ⟨c, hc⟩
  · have hplay : Audio.play ok p code.run s = playbegin ok p s := by
      unfold Audio.play
      rw [hc]
    rw [hplay]
    by_cases hslot : s.stopreqcb
    · unfold PlayGood at hg
      simp only [hc] at hg
      obtain ⟨-, hun, ht⟩ := hs.waits hslot
      rw [playbegin_eq, if_neg (by simp [hg hslot])]
      exact ⟨fun _ => ⟨rfl, hun, ht⟩, fun h => by cases h⟩
    · exact .begins (Bool.eq_false_iff.mpr hslot) ok p
  · have hslot := hs.slot hc
    unfold PlayGood at hg
    simp only [hc] at hg
    by_cases hlt : c.priority < p.priority
    · obtain ⟨hcode, hun⟩ := hg hlt
      obtain ⟨hpslot, hpun, hpt⟩ := preempted_steady hc code
      rw [play_preempt hc hlt hcode]
      by_cases hsync : sync c.typ
      · rw [if_pos hsync]
        exact .begins (hpslot.trans hslot) ok p
      · rw [if_neg hsync]
        have hsync' : sync c.typ = false := Bool.eq_false_iff.mpr hsync
        rw [hun hsync', hsync'] at hpun
        refine ⟨?_, fun _ => ⟨?_, ?_, ?_⟩⟩
        · intro h
          rw [accept_slot] at h
          have h : (Audio.stop (preempted c code s)).stopreqcb = true := h
          rw [hpslot, hslot] at h
          cases h
        · rw [accept_cur]
          exact fun h => by cases h
        · rw [accept_unanswered]
          exact hpun
        · unfold accept
          split <;> exact hpt
    · unfold Audio.play
      rw [hc]
      simp only [if_neg hlt]
      split
      · exact hs
      · split
        · exact .begins hslot ok p
        · exact hs

theorem Steady.stop_spending {s : State} (hs : Steady s) : (Audio.stop s).spending = false := by
  rcases Option.eq_none_or_eq_some s.cur with hc | ⟨c, hc⟩
  · rw [stop_none hc]
    exact hs.idle hc
  · rw [stop_eq hc]

theorem Steady.stop {s : State} (hs : Steady s) : Steady (Audio.stop s) := by
  rcases Option.eq_none_or_eq_some s.cur with hc | ⟨c, hc⟩
  · rwa [stop_none hc]
  · exact .free ((stop_slot s).trans (hs.slot hc)) hs.stop_spending

theorem Steady.cancel {s : State} (hs : Steady s) : Steady (Audio.cancel s) := by
  unfold Audio.cancel
  split
  · split
    · exact ⟨hs.waits, hs.parked⟩
    · exact hs
  · exact hs

theorem cancel_unanswered (s : State) : unanswered (cancel s) = unanswered s := by
  unfold cancel
  split
  · split <;> rfl
  · rfl

theorem Steady.audstopreq {s : State} (hs : Steady s) {cb : Bool}
    (hg : if cb then unanswered s = 0 else s.stopreqcb = false) :
    Steady (Audio.audstopreq cb (Audio.cancel s)) := by
  have hc := hs.cancel
  have hsp := hc.stop_spending
  have hslot := audstopreq_slot cb s
  cases cb with
  | false =>
      refine .free (by simpa using hslot) ?_
      simpa [Audio.audstopreq] using hsp
  | true =>
      have hun : unanswered s = 0 := hg
      have hfree : s.stopreqcb = false := by
        apply Bool.eq_false_iff.mpr
        intro h
        have hone := (hs.waits h).2.1
        omega
      unfold Audio.audstopreq
      rw [stops_cancel]
      by_cases hstops : stops s
      · rw [if_pos ⟨hstops, rfl⟩]
        exact hc.stop
      · rw [if_neg (by simp [hstops])]
        refine ⟨fun _ => ?_, fun h => ?_⟩
        · rcases Option.eq_none_or_eq_some s.cur with hcur | ⟨c, hcur⟩
          · rw [stops, hcur] at hstops
            exact absurd rfl hstops
          · have hcur' := (cancel_cur s).trans hcur
            have hsync : sync c.typ = false := by
              rw [stops_eq hcur] at hstops
              exact Bool.eq_false_iff.mpr hstops
            have hcount := stop_unanswered hcur'
            rw [cancel_unanswered, hun, hsync] at hcount
            rw [stop_eq hcur'] at hcount ⊢
            exact ⟨rfl, hcount, rfl⟩
        · have h : (Audio.stop (Audio.cancel s)).spending = true := h
          rw [hsp] at h
          cases h

theorem playend_spending {s : State} (hs : s.spending = false) (ok : Bool) (code : State → State) :
    (playend ok code s).spending = false := by
  unfold playend
  split
  · split
    · rename_i c hc hdup
      split
      · exact hs
      · split
        · exact hs
        · unfold play
          rw [hc]
          simp only [Int.lt_irrefl, if_false, if_pos hdup]
          exact playbegin_spending ok c s
    · rfl
  · rfl

/-- A report changes nothing but what plays. -/
theorem Steady.report {s t : State} (hs : Steady s) (hslot : t.stopreqcb = s.stopreqcb)
    (hsp : t.spending = false) (hnone : s.cur = none → t.cur = none ∧ unanswered t = unanswered s ∧
      t.timers = s.timers) : Steady t := by
  rcases Option.eq_none_or_eq_some s.cur with hc | ⟨c, hc⟩
  · obtain ⟨hcur, hun, ht⟩ := hnone hc
    constructor
    · intro h
      rw [hslot] at h
      obtain ⟨-, hu, htimers⟩ := hs.waits h
      exact ⟨hcur, hun.trans hu, ht.trans htimers⟩
    · intro h
      rw [hsp] at h
      cases h
  · exact .free (hslot.trans (hs.slot hc)) hsp

theorem playend_none {s : State} (hc : s.cur = none) (ok : Bool) (code : State → State) :
    playend ok code s = clear s := by
  unfold playend
  rw [hc]

theorem playerr_none {s : State} (hc : s.cur = none) (code : State → State) :
    playerr code s = clear s := by
  unfold playerr
  rw [hc]

theorem playerr_spending (code : State → State) (s : State) : (playerr code s).spending = false := by
  unfold playerr
  split <;> rfl

theorem Steady.stopind {s : State} (hs : Steady s) (ok : Bool) {tts record : ℕ} :
    Steady (Audio.stopind ok { s with ttsstops := tts, recordstops := record }) := by
  refine .free (stopind_slot ok _) ?_
  unfold Audio.stopind
  split
  · rename_i h
    exact hs.idle (hs.waits h).1
  · split
    · split
      · exact playbegin_spending ok _ _
      · rename_i hsp
        exact Bool.eq_false_iff.mpr hsp
    · rename_i hc
      exact hs.idle hc

theorem Steady.step {s t : State} {a : Act} (hs : Steady s) (hg : Good s a)
    (h : step s a = some t) : Steady t := by
  have hslot := step_slot h
  cases a with
  | play r code =>
      cases h
      exact @Steady.play { s with issued := s.issued + 1 } _ _ _ ⟨hs.waits, hs.parked⟩ hg
  | stop =>
      cases h
      exact hs.cancel.stop
  | stopreq cb =>
      cases h
      exact hs.audstopreq hg
  | fileend num ok code =>
      obtain ⟨-, ⟨⟩⟩ := Option.ite_none_right_eq_some.mp h
      refine hs.report hslot ?_ ?_
      · unfold audiomsgend
        split
        · exact hg.1
        · apply playend_spending
          exact hg.1
      · intro hc
        unfold audiomsgend
        split
        · exact ⟨hc, rfl, rfl⟩
        · rw [@playend_none { s with ends := s.ends ++ [num] } hc]
          exact ⟨rfl, rfl, rfl⟩
  | fileerr num code =>
      obtain ⟨-, ⟨⟩⟩ := Option.ite_none_right_eq_some.mp h
      refine hs.report hslot (playerr_spending _ _) ?_
      intro hc
      rw [audiomsgerr, @playerr_none { s with errors := s.errors ++ [num], playname := none } hc]
      exact ⟨rfl, rfl, rfl⟩
  | urcend num ok code =>
      obtain ⟨-, ⟨⟩⟩ := Option.ite_none_right_eq_some.mp h
      refine hs.report hslot ?_ ?_
      · apply playend_spending
        exact hg.1
      · intro hc
        rw [@playend_none { s with ends := s.ends ++ [num] } hc]
        exact ⟨rfl, rfl, rfl⟩
  | urcerr num code =>
      obtain ⟨-, ⟨⟩⟩ := Option.ite_none_right_eq_some.mp h
      refine hs.report hslot (playerr_spending _ _) ?_
      intro hc
      rw [@playerr_none { s with errors := s.errors ++ [num] } hc]
      exact ⟨rfl, rfl, rfl⟩
  | ttstopind ok =>
      obtain ⟨-, ⟨⟩⟩ := Option.ite_none_right_eq_some.mp h
      exact hs.stopind ok
  | recordstopind ok =>
      obtain ⟨-, ⟨⟩⟩ := Option.ite_none_right_eq_some.mp h
      exact hs.stopind ok
  | timer p ok code =>
      obtain ⟨hmem, ⟨⟩⟩ := Option.ite_none_right_eq_some.mp h
      have hempty (h : s.timers = []) : False := by
        rw [h] at hmem
        cases hmem
      have hs' : Steady { s with timers := s.timers.erase p } :=
        ⟨fun h => (hempty (hs.waits h).2.2).elim, fun h => (hempty (hs.parked h).2.2).elim⟩
      exact hs'.play hg

/-! ## Runs -/

/-- Every callback but the one that waits has been called once, and each of them when nothing
played and no command was unanswered; what waits and what is parked still gets a response. -/
structure Served (w : Requests) : Prop where
  once : ∀ i < w.asked, (w.called.map Prod.fst).count i = if w.waiting = some i then 0 else 1
  calm : ∀ e ∈ w.called, e.2.cur = none ∧ unanswered e.2 = 0
  comes : w.waiting ≠ none → 0 < unanswered w.audio
  resumes : w.audio.spending → 0 < unanswered w.audio

/-- A parked sound is started when the command that stops the one before is answered. Before that it
stays parked, unless the sounds are stopped or `play` puts another sound in its place. -/
def Resumes (s : State) (a : Act) (t : State) : Prop :=
  ∀ c, s.cur = some c → s.spending →
    match a with
    | .ttstopind ok | .recordstopind ok =>
        t.cur = (if begins c.typ ok then some c else none) ∧ t.spending = false ∧ unanswered t = 0
    | .play r _ => t.cur = some c ∧ t.spending ∨ c.priority < r.priority ∨
        c.priority = r.priority ∧ c.dup
    | .stop | .stopreq _ => True
    | _ => t.cur = some c ∧ t.spending

structure Tracked (w : Requests) : Prop where
  steady : Steady w.audio
  slot : w.waiting.isSome = w.audio.stopreqcb
  counted : ∀ i, (w.called.map Prod.fst).count i + w.waiting.toList.count i =
    if i < w.asked then 1 else 0
  calm : ∀ e ∈ w.called, e.2.cur = none ∧ unanswered e.2 = 0

theorem Tracked.served {w : Requests} (hw : Tracked w) : Served w where
  once i hi := by
    have h := hw.counted i
    rw [if_pos hi] at h
    split
    · rename_i hwait
      rw [hwait, Option.toList_some, List.count_singleton_self] at h
      omega
    · rename_i hwait
      have hz : w.waiting.toList.count i = 0 := by
        apply List.count_eq_zero_of_not_mem
        rw [Option.mem_toList]
        exact hwait
      omega
  calm := hw.calm
  comes h := by
    have hs : w.audio.stopreqcb = true := by
      rw [← hw.slot]
      exact Option.isSome_iff_ne_none.mpr h
    rw [(hw.steady.waits hs).2.1]
    exact Nat.one_pos
  resumes h := by
    rw [(hw.steady.parked h).2.1]
    exact Nat.one_pos

theorem Tracked.start : Tracked start where
  steady := .free rfl rfl
  slot := rfl
  counted i := by simp [Audio.start]
  calm e he := by cases he

/-- A request that is answered at once finds nothing that plays or is unanswered. -/
theorem audstopreq_calm {s : State} (hun : unanswered s = 0) (hstops : stops s) :
    (audstopreq true (cancel s)).cur = none ∧ unanswered (audstopreq true (cancel s)) = 0 := by
  have hstop : audstopreq true (cancel s) = stop (cancel s) := by
    unfold audstopreq
    rw [stops_cancel, if_pos ⟨hstops, rfl⟩]
  rw [hstop]
  rcases Option.eq_none_or_eq_some s.cur with hc | ⟨c, hc⟩
  · have hc' := (cancel_cur s).trans hc
    rw [stop_none hc', cancel_unanswered]
    exact ⟨hc', hun⟩
  · have hc' := (cancel_cur s).trans hc
    have hsync : sync c.typ = true := (stops_eq hc).symm.trans hstops
    have hcount := stop_unanswered hc'
    rw [cancel_unanswered, hun, hsync] at hcount
    refine ⟨?_, hcount⟩
    rw [stop_eq hc']

/-- The response that a callback waits for. -/
theorem stopind_calm {s : State} (hs : Steady s) (hslot : s.stopreqcb) {ok : Bool} {tts record : ℕ}
    (hcount : tts + record + 1 = unanswered s) :
    (stopind ok { s with ttsstops := tts, recordstops := record }).cur = none ∧
    unanswered (stopind ok { s with ttsstops := tts, recordstops := record }) = 0 := by
  obtain ⟨hc, hun, -⟩ := hs.waits hslot
  unfold stopind
  simp only [hslot, if_true]
  refine ⟨hc, ?_⟩
  unfold unanswered at *
  dsimp only
  omega

theorem count_answered {l : List ℕ} {n i k : ℕ} (h : l.count i = if i < n then 1 else 0) (hk : k = n) :
    (l ++ [k]).count i = if i < n + 1 then 1 else 0 := by
  rw [List.count_append, h, List.count_singleton, hk]
  by_cases hi : n = i
  · subst hi
    simp
  · have hne : (n == i) = false := by simpa using hi
    rw [hne]
    by_cases hlt : i < n
    · have hlt' : i < n + 1 := by omega
      simp [hlt, hlt']
    · have hlt' : ¬i < n + 1 := by
        intro h
        exact hi (by omega)
      simp [hlt, hlt']

theorem Tracked.answered {w : Requests} {t : State} (hw : Tracked w)
    (ht : Steady t) (hslot : t.stopreqcb = false)
    (hcalm : w.audio.stopreqcb → t.cur = none ∧ unanswered t = 0) : Tracked (answered w t) := by
  unfold Audio.answered
  cases hwait : w.waiting with
  | none =>
      have hcounted := hw.counted
      rw [hwait] at hcounted
      exact ⟨ht, by simp [hslot], by simpa [hwait] using hcounted, hw.calm⟩
  | some n =>
      have hs : w.audio.stopreqcb = true := by
        rw [← hw.slot, hwait, Option.isSome_some]
      refine ⟨ht, hslot.symm, fun i => ?_, fun e he => ?_⟩
      · have h := hw.counted i
        rw [hwait, Option.toList_some] at h
        rw [List.map_append, List.count_append, Option.toList_none, List.count_nil, Nat.add_zero]
        exact h
      · rcases List.mem_append.mp he with he | he
        · exact hw.calm e he
        · rw [List.mem_singleton.mp he]
          exact hcalm hs

theorem Tracked.requested {w : Requests} {t : State} (hw : Tracked w) {cb : Bool}
    (ht : Steady t) (hslot : t.stopreqcb = if stops w.audio ∧ cb then w.audio.stopreqcb else cb)
    (hg : if cb then unanswered w.audio = 0 else w.audio.stopreqcb = false)
    (hcalm : cb → stops w.audio → t.cur = none ∧ unanswered t = 0) : Tracked (requested w cb t) := by
  unfold Audio.requested
  have hfree : w.waiting = none := by
    rw [← Option.not_isSome_iff_eq_none, hw.slot]
    intro h
    cases cb with
    | false =>
        have hf : w.audio.stopreqcb = false := hg
        rw [hf] at h
        cases h
    | true =>
        have hun : unanswered w.audio = 0 := hg
        have hone := (hw.steady.waits h).2.1
        omega
  have hcounted := hw.counted
  have hfreeslot : w.audio.stopreqcb = false := by
    rw [← hw.slot, hfree, Option.isSome_none]
  simp only [hfree, Option.toList_none, List.count_nil, Nat.add_zero] at hcounted
  cases cb with
  | false =>
      have hf : t.stopreqcb = false := by simpa using hslot
      exact ⟨ht, hf.symm, by simpa using hcounted, hw.calm⟩
  | true =>
      by_cases hstops : stops w.audio
      · simp only [hstops, if_true]
        refine ⟨ht, ?_, fun i => ?_, fun e he => ?_⟩
        · rw [hslot, if_pos ⟨hstops, rfl⟩]
          exact hw.slot
        · dsimp only
          rw [hfree, Option.toList_none, List.count_nil, Nat.add_zero, List.map_append]
          exact count_answered (hcounted i) rfl
        · rcases List.mem_append.mp he with he | he
          · exact hw.calm e he
          · rw [List.mem_singleton.mp he]
            exact hcalm rfl hstops
      · simp only [hstops, if_true, if_false, Bool.false_eq_true]
        refine ⟨ht, ?_, fun i => ?_, hw.calm⟩
        · rw [hslot]
          simp [hstops]
        · dsimp only
          rw [Option.toList_some, ← List.count_append]
          exact count_answered (hcounted i) rfl

theorem Tracked.step {w v : Requests} {a : Act} (hw : Tracked w) (hg : Good w.audio a)
    (h : stopStep w a = some v) : Tracked v := by
  obtain ⟨t, hstep, rfl⟩ := Option.map_eq_some_iff.mp h
  have ht := hw.steady.step hg hstep
  have hslot := step_slot hstep
  cases a with
  | stopreq cb =>
      refine hw.requested ht hslot hg ?_
      intro hcb hstops
      cases hstep
      have hun : unanswered w.audio = 0 := by simpa [Good, hcb] using hg
      rw [hcb]
      exact audstopreq_calm hun hstops
  | ttstopind ok =>
      refine hw.answered ht hslot ?_
      intro hs
      obtain ⟨hpos, ⟨⟩⟩ := Option.ite_none_right_eq_some.mp hstep
      apply stopind_calm hw.steady hs
      unfold unanswered
      omega
  | recordstopind ok =>
      refine hw.answered ht hslot ?_
      intro hs
      obtain ⟨hpos, ⟨⟩⟩ := Option.ite_none_right_eq_some.mp hstep
      apply stopind_calm hw.steady hs
      unfold unanswered
      omega
  | play | stop | fileend | fileerr | urcend | urcerr | timer =>
      exact ⟨ht, hw.slot.trans hslot.symm, hw.counted, hw.calm⟩

/-- A step leaves a parked sound alone or starts it, as far as `Good` goes. -/
theorem resumes_of_steady {s t : State} {a : Act} (hs : Steady s) (hg : Good s a)
    (h : step s a = some t) : Resumes s a t := by
  intro c hc hsp
  have hslot := hs.slot hc
  obtain ⟨-, hun, htimers⟩ := hs.parked hsp
  have hind (ok : Bool) (tts record : ℕ) (hcount : tts + record + 1 = unanswered s) :
      (stopind ok { s with ttsstops := tts, recordstops := record }).cur =
        (if begins c.typ ok then some c else none) ∧
      (stopind ok { s with ttsstops := tts, recordstops := record }).spending = false ∧
      unanswered (stopind ok { s with ttsstops := tts, recordstops := record }) = 0 := by
    have hbegin : stopind ok { s with ttsstops := tts, recordstops := record } =
        playbegin ok c { s with ttsstops := tts, recordstops := record } := by
      unfold stopind
      simp only [hslot, hc, hsp, Bool.false_eq_true, if_false, if_true]
    rw [hbegin, playbegin_cur, playbegin_unanswered]
    refine ⟨rfl, playbegin_spending ok c _, ?_⟩
    unfold unanswered at *
    dsimp only
    omega
  cases a with
  | play r code =>
      cases h
      dsimp only [ask]
      unfold Audio.play
      simp only [hc]
      by_cases hlt : c.priority < (r.playback s.issued).priority
      · exact .inr (.inl hlt)
      · rw [if_neg hlt]
        by_cases hgt : (r.playback s.issued).priority < c.priority
        · rw [if_pos hgt]
          exact .inl ⟨rfl, hsp⟩
        · rw [if_neg hgt]
          have heq : c.priority = r.priority := by
            have hp : (r.playback s.issued).priority = r.priority := rfl
            omega
          by_cases hdup : c.dup
          · exact .inr (.inr ⟨heq, hdup⟩)
          · rw [if_neg hdup]
            exact .inl ⟨rfl, hsp⟩
  | stop | stopreq => trivial
  | fileend | fileerr | urcend | urcerr =>
      have hf := hg.1
      rw [hsp] at hf
      cases hf
  | ttstopind ok =>
      obtain ⟨hpos, ⟨⟩⟩ := Option.ite_none_right_eq_some.mp h
      apply hind
      unfold unanswered
      omega
  | recordstopind ok =>
      obtain ⟨hpos, ⟨⟩⟩ := Option.ite_none_right_eq_some.mp h
      apply hind
      unfold unanswered
      omega
  | timer p ok code =>
      obtain ⟨hmem, -⟩ := Option.ite_none_right_eq_some.mp h
      rw [htimers] at hmem
      cases hmem

instance (s : State) (ok : Bool) (p : Playback) (code : Code) : Decidable (PlayGood s ok p code) := by
  unfold PlayGood
  exact match s.cur with
    | none => inferInstance
    | some _ => inferInstance

instance (s : State) (code : Code) : Decidable (ReportGood s code) := by
  unfold ReportGood
  infer_instance

instance (s : State) : (a : Act) → Decidable (Good s a)
  | .play r code => inferInstanceAs (Decidable (PlayGood s r.ok (r.playback s.issued) code))
  | .timer p ok code => inferInstanceAs (Decidable (PlayGood s ok p code))
  | .stopreq cb => inferInstanceAs (Decidable (if cb then unanswered s = 0 else s.stopreqcb = false))
  | .fileend _ _ code | .fileerr _ code | .urcend _ _ code | .urcerr _ code =>
      inferInstanceAs (Decidable (ReportGood s code))
  | .stop | .ttstopind _ | .recordstopind _ => isTrue trivial

/-- Where a callback is asked for only when nothing is unanswered, no other request and no sound
comes in its way, and a sound is parked for one command only and gets no report, every callback is
called once when all is quiet, and every parked sound is started. -/
theorem stop_requests_served {acts : List Act}
    (hm : Meets stopStep (fun w => Good w.audio) start acts) :
    Along stopStep Served start acts ∧
    Meets stopStep (fun w a => ∀ v, stopStep w a = some v → Resumes w.audio a v.audio) start acts := by
  suffices hall : ∀ w, Tracked w → Meets stopStep (fun w => Good w.audio) w acts →
      Along stopStep Served w acts ∧
      Meets stopStep (fun w a => ∀ v, stopStep w a = some v → Resumes w.audio a v.audio) w acts from
    hall start .start hm
  clear hm
  induction acts with
  | nil => exact fun w hw _ => ⟨hw.served, trivial⟩
  | cons a acts ih =>
      intro w hw hm
      constructor
      · refine ⟨hw.served, fun v hv => ?_⟩
        exact (ih v (hw.step (hm v hv).1 hv) (hm v hv).2).1
      · intro v hv
        refine ⟨fun v' hv' => ?_, (ih v (hw.step (hm v hv).1 hv) (hm v hv).2).2⟩
        obtain ⟨t, hstep, rfl⟩ := Option.map_eq_some_iff.mp hv'
        rw [next_audio]
        exact resumes_of_steady hw.steady (hm v hv).1 hstep

/-- A text is stopped by a request, and then another one by a file. -/
def quiet : List Act :=
  [.play (text 1) .done, .stopreq true, .ttstopind true, .play (text 1) .done, .play (file 2) .done,
    .ttstopind true, .stopreq true]

theorem stop_requests_served_quiet : Along stopStep Served start quiet ∧
    Meets stopStep (fun w a => ∀ v, stopStep w a = some v → Resumes w.audio a v.audio) start quiet ∧
    (run stopStep start quiet).map (fun w => w.called.map Prod.fst) = some [0, 1] := by
  have hm : Meets stopStep (fun w => Good w.audio) start quiet := by decide +kernel
  obtain ⟨hs, hr⟩ := stop_requests_served hm
  exact ⟨hs, hr, by decide +kernel⟩

/-- A call comes in while the callback of a request waits: the second request, which has none, takes
the callback away. -/
theorem stop_request_lost : ∃ w, run stopStep start
    [.play (text 1) .done, .stopreq true, .stopreq false, .ttstopind true] = some w ∧
    w.asked = 1 ∧ w.called.map Prod.fst = [] ∧ w.waiting = none ∧ unanswered w.audio = 0 ∧
    ¬Served w := by
  have hh : (run stopStep start
      [.play (text 1) .done, .stopreq true, .stopreq false, .ttstopind true]).map
      (fun w => (w.asked, w.called.map Prod.fst, w.waiting, unanswered w.audio)) =
      some (1, [], none, 0) := by decide +kernel
  obtain ⟨w, hw, heq⟩ := Option.map_eq_some_iff.mp hh
  simp only [Prod.mk.injEq] at heq
  obtain ⟨hasked, hcalled, hwait, hun⟩ := heq
  refine ⟨w, hw, hasked, hcalled, hwait, hun, fun hs => ?_⟩
  have honce := hs.once 0 (by omega)
  rw [hcalled, hwait] at honce
  exact absurd honce (by decide)

end LuatAir200.Audio
