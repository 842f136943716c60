import LuatAir200.MqttDup
import Mathlib.Algebra.Order.Ring.Nat
import Mathlib.Data.List.Nodup

/-!
# The life of a packet that waits for its acknowledgement

The events of one key are read by an automaton, whose phase says what has become of the
entry that was inserted last with this key. Its rules bound the announcements. The
invariant says that the history is read to its end for every key, and that the entry in
the list has the counters of its phase.
-/
namespace LuatAir200.MqttDup
open Lua Machine Keyed

variable {β : Type}

/-! ## The phases of a key -/

inductive Phase (β : Type)
  /-- No entry has the key; `d` announcements have not been answered. -/
  | gone (d : ℕ)
  /-- `n` announcements have been answered, the last one `t` ticks ago. -/
  | counting (e : Entry β) (n t : ℕ)
  /-- The `n`-th announcement has not been answered. -/
  | announced (e : Entry β) (n : ℕ)
  /-- The last announcement has been answered. -/
  | expiring (e : Entry β)

/-- The message with which an entry is given up. -/
def Entry.failure (e : Entry β) : Msg β := .dupFail e.sckidx e.typ e.seq e.cb e.cbtag

def Event.key : Event β → Option Key
  | .ins e => some e.key
  | .tick => none
  | .ind k | .fail k _ | .rmv k | .rsm k => some k

/-- What an event does to the phase of the key `k`. -/
inductive Next (k : Key) : Phase β → Event β → Phase β → Prop
  | ins {e} : e.key = k → Next k (.gone 0) (.ins e) (.counting e 0 0)
  | tick {e n t} : Next k (.counting e n t) .tick (.counting e n (t + 1))
  | tick_gone {d} : Next k (.gone d) .tick (.gone d)
  | tick_announced {e n} : Next k (.announced e n) .tick (.announced e n)
  | ind {e n} : n < DUP_CNT → Next k (.counting e n DUP_TIME) (.ind k) (.announced e (n + 1))
  | rsm {e n} : n < DUP_CNT → Next k (.announced e n) (.rsm k) (.counting e n 0)
  | rsm_last {e} : Next k (.announced e DUP_CNT) (.rsm k) (.expiring e)
  | rsm_gone {d} : Next k (.gone (d + 1)) (.rsm k) (.gone d)
  | fail {e} : Next k (.expiring e) (.fail k e.failure) (.gone 0)
  | rmv {e n t} : Next k (.counting e n t) (.rmv k) (.gone 0)
  | rmv_announced {e n} : Next k (.announced e n) (.rmv k) (.gone 1)
  | other {ph v} : v.key ≠ none → v.key ≠ some k → Next k ph v ph

/-- The events `l` lead from one phase to another. -/
def Path (k : Key) : Phase β → List (Event β) → Phase β → Prop
  | p, [], q => p = q
  | p, v :: l, q => ∃ r, Next k p v r ∧ Path k r l q

theorem path_append {k : Key} {p q : Phase β} {l l' : List (Event β)} :
    Path k p (l ++ l') q ↔ ∃ r, Path k p l r ∧ Path k r l' q := by
  induction l generalizing p with
  | nil => simp [Path]
  | cons v l ih =>
      simp only [List.cons_append, Path, ih]
      constructor
      · rintro ⟨r, hr, t, ht, hq⟩
        exact ⟨t, ⟨r, hr, ht⟩, hq⟩
      · rintro ⟨t, ⟨r, hr, ht⟩, hq⟩
        exact ⟨r, hr, t, ht, hq⟩

theorem path_single {k : Key} {p q : Phase β} {v : Event β} : Path k p [v] q ↔ Next k p v q := by
  simp [Path]

/-- Events of other keys do not change the phase. -/
theorem path_others {k : Key} {p : Phase β} {l : List (Event β)}
    (h : ∀ v ∈ l, v.key ≠ none ∧ v.key ≠ some k) : Path k p l p := by
  induction l with
  | nil => rfl
  | cons v l ih =>
      obtain ⟨hn, hk⟩ := h v List.mem_cons_self
      exact ⟨p, .other hn hk, ih fun w hw => h w (List.mem_cons_of_mem v hw)⟩

/-- One event for each of several keys: the phase of `k` sees its own event only. -/
theorem path_events {k : Key} {p q : Phase β} {f : Key → Event β} (hf : ∀ k, (f k).key = some k)
    {ks : List Key} (h : ks.Nodup) (hq : k ∈ ks → Next k p (f k) q) (hp : k ∉ ks → p = q) :
    Path k p (ks.map f) q := by
  have hothers : ∀ ks : List Key, k ∉ ks → ∀ v ∈ ks.map f, v.key ≠ none ∧ v.key ≠ some k := by
    intro ks hk v hv
    obtain ⟨k', hk', rfl⟩ := List.mem_map.mp hv
    rw [hf]
    exact ⟨by simp, fun he => hk (Option.some.inj he ▸ hk')⟩
  by_cases hk : k ∈ ks
  · have hnext := hq hk
    obtain ⟨as, bs, rfl⟩ := List.append_of_mem hk
    have hn := List.nodup_middle.mp h
    rw [List.nodup_cons, List.mem_append, not_or] at hn
    rw [List.map_append, List.map_cons, path_append]
    exact ⟨p, path_others (hothers as hn.1.1), q, hnext, path_others (hothers bs hn.1.2)⟩
  · rw [← hp hk]
    exact path_others (hothers ks hk)

/-! ## What a path says about its events -/

def Event.isInd (k : Key) : Event β → Bool
  | .ind k' => k' = k
  | _ => false

def Event.isRsm (k : Key) : Event β → Bool
  | .rsm k' => k' = k
  | _ => false

/-- The announcements of a key. -/
def inds (k : Key) (l : List (Event β)) : ℕ := l.countP (Event.isInd k)

/-- The answers to the announcements of a key. -/
def rsms (k : Key) (l : List (Event β)) : ℕ := l.countP (Event.isRsm k)

def Event.ticks : Event β → ℕ
  | .tick => 1
  | _ => 0

/-- The ticks since the last of the events that `p` selects; there were `t` before. -/
def ticks (p : Event β → Bool) (t : ℕ) (l : List (Event β)) : ℕ :=
  l.foldl (fun t v => if p v then 0 else t + v.ticks) t

/-- The announcements of the entry. -/
def Phase.spent : Phase β → ℕ
  | .gone _ => DUP_CNT
  | .counting _ n _ | .announced _ n => n
  | .expiring _ => DUP_CNT

/-- The announcements that have not been answered. -/
def Phase.due : Phase β → ℕ
  | .gone d => d
  | .counting .. | .expiring _ => 0
  | .announced .. => 1

/-- The ticks since the last answer. -/
def Phase.age : Phase β → ℕ
  | .counting _ _ t => t
  | _ => 0

def Phase.entry : Phase β → Option (Entry β)
  | .gone _ => none
  | .counting e _ _ | .announced e _ | .expiring e => some e

section Paths
variable {k : Key} {p q : Phase β} {v : Event β} {l : List (Event β)}

/-- An event of another key is neither an announcement nor an answer, nor a tick. -/
theorem Event.other (hn : v.key ≠ none) (hk : v.key ≠ some k) :
    v.isInd k = false ∧ v.isRsm k = false ∧ v.ticks = 0 := by
  cases v with
  | tick => exact absurd rfl hn
  | ind l | rsm l =>
      have hl : l ≠ k := fun h => hk (congrArg some h)
      simp [Event.isInd, Event.isRsm, Event.ticks, hl]
  | _ => exact ⟨rfl, rfl, rfl⟩

theorem inds_other (hn : v.key ≠ none) (hk : v.key ≠ some k) : inds k [v] = 0 := by
  simp [inds, (Event.other hn hk).1]

/-- Announcements and answers balance. -/
theorem Next.due (h : Next k p v q) : p.due + inds k [v] = q.due + rsms k [v] := by
  cases h with
  | other hn hk =>
      rw [inds_other hn hk]
      simp [rsms, (Event.other hn hk).2.1]
  | _ => simp [Phase.due, inds, rsms, Event.isInd, Event.isRsm]

theorem Path.due (h : Path k p l q) : p.due + inds k l = q.due + rsms k l := by
  induction l generalizing p with
  | nil => rw [h]; rfl
  | cons v l ih =>
      obtain ⟨r, hr, hq⟩ := h
      have h₁ := hr.due
      have h₂ := ih hq
      rw [inds, rsms] at *
      rw [← List.singleton_append, List.countP_append, List.countP_append]
      omega

/-- An entry whose key is not inserted again stays gone, and nothing is heard of it. -/
theorem Path.gone {d : ℕ} (h : Path k (.gone d) l q) (hl : ∀ e : Entry β, .ins e ∈ l → e.key ≠ k) :
    (∃ d', q = .gone d') ∧ inds k l = 0 ∧ ∀ m, .fail k m ∉ l := by
  induction l generalizing d with
  | nil => exact ⟨⟨d, h.symm⟩, rfl, by simp⟩
  | cons v l ih =>
      obtain ⟨r, hr, hq⟩ := h
      have hr' : (∃ d', r = .gone d') ∧ inds k [v] = 0 ∧ ∀ m, .fail k m ≠ v := by
        cases hr with
        | ins he => exact absurd he (hl _ List.mem_cons_self)
        | other hn hk =>
            refine ⟨⟨d, rfl⟩, ?_, ?_⟩
            · exact inds_other hn hk
            · rintro m rfl
              exact hk rfl
        | _ => simp [inds, Event.isInd]
      obtain ⟨⟨d', rfl⟩, hi, hf⟩ := hr'
      obtain ⟨hg, hi', hf'⟩ := ih hq fun e he => hl e (List.mem_cons_of_mem v he)
      refine ⟨hg, ?_, ?_⟩
      · rw [inds, ← List.singleton_append, List.countP_append]
        exact Nat.add_eq_zero_iff.mpr ⟨hi, hi'⟩
      · intro m hm
        rcases List.mem_cons.mp hm with hm | hm
        · exact hf m hm
        · exact hf' m hm

/-- While an entry waits, the phases count its announcements. -/
theorem Path.waiting {e : Entry β} (h : Path k p l q) (hq : q.entry = some e)
    (hl : ∀ e : Entry β, .ins e ∈ l → e.key ≠ k) :
    p.entry = some e ∧ p.spent + inds k l = q.spent ∧ .rmv k ∉ l ∧ ∀ m, .fail k m ∉ l := by
  induction l generalizing p with
  | nil => rw [h]; exact ⟨hq, rfl, by simp, by simp⟩
  | cons v l ih =>
      obtain ⟨r, hr, hq⟩ := h
      obtain ⟨he, hs, hm, hf⟩ := ih hq fun e he => hl e (List.mem_cons_of_mem v he)
      have hv : p.entry = some e ∧ p.spent + inds k [v] = r.spent ∧ .rmv k ≠ v ∧
          ∀ m, .fail k m ≠ v := by
        cases hr with
        | ins hk => exact absurd hk (hl _ List.mem_cons_self)
        | other hn hk =>
            refine ⟨he, by rw [inds_other hn hk, Nat.add_zero], ?_, ?_⟩
            · rintro rfl
              exact hk rfl
            · rintro m rfl
              exact hk rfl
        | _ => simp_all [Phase.entry, Phase.spent, inds, Event.isInd]
      refine ⟨hv.1, ?_, ?_, ?_⟩
      · rw [← hs, ← hv.2.1, inds, ← List.singleton_append, List.countP_append]
        exact Nat.add_assoc _ _ _ |>.symm
      · rw [List.mem_cons, not_or]
        exact ⟨hv.2.2.1, hm⟩
      · intro m
        rw [List.mem_cons, not_or]
        exact ⟨hv.2.2.2 m, hf m⟩

/-- The announcements of an entry are bounded. -/
theorem Path.bound (h : Path k p l q) (hl : ∀ e : Entry β, .ins e ∈ l → e.key ≠ k)
    (hp : p.spent ≤ DUP_CNT) : p.spent + inds k l ≤ DUP_CNT := by
  induction l generalizing p with
  | nil => exact hp
  | cons v l ih =>
      obtain ⟨r, hr, hq⟩ := h
      have hv : p.spent + inds k [v] ≤ r.spent ∧ r.spent ≤ DUP_CNT := by
        cases hr with
        | ins hk => exact absurd hk (hl _ List.mem_cons_self)
        | other hn hk =>
            rw [inds_other hn hk, Nat.add_zero]
            exact ⟨le_rfl, hp⟩
        | ind hn => simpa [Phase.spent, inds, Event.isInd] using Nat.succ_le_of_lt hn
        | _ => simp_all [Phase.spent, inds, Event.isInd]
      have hrest := ih hq (fun e he => hl e (List.mem_cons_of_mem v he)) hv.2
      have hsplit : inds k (v :: l) = inds k [v] + inds k l := by
        rw [inds, ← List.singleton_append, List.countP_append]
        rfl
      omega

/-- An entry that waited and is gone was removed or given up. -/
theorem Path.ended {e : Entry β} {d : ℕ} (h : Path k p l (.gone d)) (hp : p.entry = some e) :
    .rmv k ∈ l ∨ ∃ m, .fail k m ∈ l := by
  induction l generalizing p with
  | nil => rw [h] at hp; cases hp
  | cons v l ih =>
      obtain ⟨r, hr, hq⟩ := h
      have hr' : r.entry = some e ∨ v = .rmv k ∨ ∃ m, v = .fail k m := by
        cases hr <;> simp_all [Phase.entry]
      rcases hr' with hr' | rfl | ⟨m, rfl⟩
      · rcases ih hq hr' with hm | ⟨m, hm⟩
        · exact .inl (List.mem_cons_of_mem v hm)
        · exact .inr ⟨m, List.mem_cons_of_mem v hm⟩
      · exact .inl List.mem_cons_self
      · exact .inr ⟨m, List.mem_cons_self⟩

theorem Next.age_le {t : ℕ} (h : Next k p v q) (ht : p.age ≤ t) :
    q.age ≤ if v.isInd k then 0 else t + v.ticks := by
  cases h with
  | other hn hk =>
      obtain ⟨hi, -, ht'⟩ := Event.other hn hk
      simpa [hi, ht'] using ht
  | tick => exact Nat.succ_le_succ ht
  | _ => exact Nat.zero_le _

/-- The last announcement lies at least as far back as the last answer. -/
theorem Path.age_le {t : ℕ} (h : Path k p l q) (ht : p.age ≤ t) :
    q.age ≤ ticks (Event.isInd k) t l := by
  induction l generalizing p t with
  | nil => rw [← h]; exact ht
  | cons v l ih =>
      obtain ⟨r, hr, hq⟩ := h
      exact ih hq (hr.age_le ht)

/-- `t` ticks have passed since a counting entry was answered or inserted. -/
def Phase.At (t : ℕ) : Phase β → Prop
  | .counting _ _ a => a = t
  | _ => True

theorem Next.at {t : ℕ} (h : Next k p v q) (hins : ∀ e : Entry β, .ins e = v → e.key ≠ k)
    (ht : p.At t) : q.At (if v.isRsm k then 0 else t + v.ticks) := by
  cases h with
  | ins hk => exact absurd hk (hins _ rfl)
  | other hn hk =>
      obtain ⟨-, hr, ht'⟩ := Event.other hn hk
      simpa [hr, ht'] using ht
  | tick => exact congrArg (· + 1) ht
  | rsm => simp [Phase.At, Event.isRsm]
  | _ => trivial

theorem Path.at {t : ℕ} (h : Path k p l q) (hl : ∀ e : Entry β, .ins e ∈ l → e.key ≠ k)
    (ht : p.At t) : q.At (ticks (Event.isRsm k) t l) := by
  induction l generalizing p t with
  | nil => rw [← h]; exact ht
  | cons v l ih =>
      obtain ⟨r, hr, hq⟩ := h
      refine ih hq (fun e he => hl e (List.mem_cons_of_mem v he)) (hr.at (fun e he => ?_) ht)
      exact hl e (he ▸ List.mem_cons_self)

end Paths

/-! ## The invariant -/

/-- The entry in the list has the counters of its phase. -/
def Fits : Phase β → Option (Entry β) → Prop
  | .gone _, o => o = none
  | .counting e n t, o => n < DUP_CNT ∧ t < DUP_TIME ∧
      o = some { e with cnt := DUP_CNT - n, tm := DUP_TIME - t }
  | .announced e n, o => 0 < n ∧ n ≤ DUP_CNT ∧
      o = some { e with cnt := DUP_CNT - n + 1, tm := 0 }
  | .expiring _, _ => False

/-- The entry with a key. -/
def entryOf (k : Key) (s : State β) : Option (Entry β) := s.tlist.find? fun e => e.key = k

/-- The message that an event sends. -/
def Event.msg : Event β → Option (Msg β)
  | .ind k => some (.dupInd k.1 k.2)
  | .fail _ m => some m
  | _ => none

structure Inv (s : State β) : Prop where
  nodup : (s.tlist.map Entry.key).Nodup
  active : s.active = true ↔ s.tlist ≠ []
  sent : ∃ done, done ++ s.qmsg = s.hist.filterMap Event.msg
  life : ∀ k, ∃ p, Path k (.gone 0) s.hist p ∧ Fits p (entryOf k s)

/-- The answers of the program: an announcement is answered once, and a key is used again
only when no entry has it and all its announcements have been answered. -/
def Answers (s : State β) : Act β → Prop
  | .ins sckidx _ dat _ _ _ => (∀ e ∈ s.tlist, e.key ≠ (sckidx, dat)) ∧
      inds (sckidx, dat) s.hist = rsms (sckidx, dat) s.hist
  | .rsm sckidx dat => rsms (sckidx, dat) s.hist < inds (sckidx, dat) s.hist
  | _ => True

instance (s : State β) : (a : Act β) → Decidable (Answers s a)
  | .ins .. => inferInstanceAs (Decidable (_ ∧ _))
  | .rsm .. => inferInstanceAs (Decidable (_ < _))
  | .rmv .. | .rmvall _ | .tick | .msg => isTrue trivial

/-- What a step adds to the history continues the paths. -/
theorem Inv.extend {s t : State β} (hi : Inv s) {l : List (Event β)} (hl : t.hist = s.hist ++ l)
    (h : ∀ k p, Path k (.gone 0) s.hist p → Fits p (entryOf k s) →
      ∃ q, Path k p l q ∧ Fits q (entryOf k t)) (k : Key) :
    ∃ p, Path k (.gone 0) t.hist p ∧ Fits p (entryOf k t) := by
  obtain ⟨p, hp, hf⟩ := hi.life k
  obtain ⟨q, hq, hg⟩ := h k p hp hf
  exact ⟨q, hl ▸ path_append.mpr ⟨p, hp, hq⟩, hg⟩

/-- A step that concerns one key. -/
theorem Inv.one_key {s t : State β} (hi : Inv s) (k₀ : Key) {l : List (Event β)}
    (hl : t.hist = s.hist ++ l) (hk : ∀ v ∈ l, v.key = some k₀)
    (ho : ∀ k, k ≠ k₀ → entryOf k t = entryOf k s)
    (h : ∀ p, Path k₀ (.gone 0) s.hist p → Fits p (entryOf k₀ s) →
      ∃ q, Path k₀ p l q ∧ Fits q (entryOf k₀ t)) (k : Key) :
    ∃ p, Path k (.gone 0) t.hist p ∧ Fits p (entryOf k t) := by
  refine hi.extend hl (fun k p hp hf => ?_) k
  by_cases hne : k = k₀
  · subst hne
    exact h p hp hf
  · rw [ho k hne]
    refine ⟨p, path_others fun v hv => ?_, hf⟩
    rw [hk v hv]
    exact ⟨by simp, fun he => hne (Option.some.inj he).symm⟩

theorem entryOf_none {k : Key} {s : State β} :
    entryOf k s = none ↔ ∀ e ∈ s.tlist, e.key ≠ k := by
  simp [entryOf, List.find?_eq_none]

/-- A phase without an entry in the list. -/
theorem Fits.gone {p : Phase β} (h : Fits p none) : ∃ d, p = .gone d := by
  cases p with
  | gone d => exact ⟨d, rfl⟩
  | _ => simp [Fits] at h

/-! ## The operations -/

/-- One tick for an entry. -/
def Entry.dec (e : Entry β) : Entry β := { e with tm := e.tm - 1 }

theorem timerloop_eq (es : List (Entry β)) (s : State β) :
    timerloop es s =
      { s with
        tlist := s.tlist ++ es.map Entry.dec
        qmsg := s.qmsg ++ (es.filter (·.tm = 1)).map fun e => .dupInd e.sckidx e.dat
        hist := s.hist ++ ((es.filter (·.tm = 1)).map Entry.key).map .ind } := by
  induction es generalizing s with
  | nil => simp [timerloop]
  | cons e es ih =>
      rw [timerloop]
      split
      · rename_i he
        have htm : e.tm - 1 = 0 ↔ e.tm = 1 := by omega
        simp only [ih, htm, List.filter_cons, decide_eq_true_eq]
        split <;> simp [announce, dispatch, record, Entry.dec, Entry.key]
      · rename_i he
        have h0 : e.tm = 0 := by omega
        have hd : e.dec = e := by
          obtain ⟨_, _, _, _, _, _, _, tm⟩ := e
          cases h0
          rfl
        simp [ih, h0, hd]

theorem timerfnc_eq (s : State β) :
    timerfnc s =
      { s with
        tlist := s.tlist.map Entry.dec
        qmsg := s.qmsg ++ (s.tlist.filter (·.tm = 1)).map fun e => .dupInd e.sckidx e.dat
        hist := s.hist ++ (.tick :: ((s.tlist.filter (·.tm = 1)).map Entry.key).map .ind) } := by
  simp [timerfnc, timerloop_eq, record]

theorem entryOf_tick (k : Key) (s : State β) :
    entryOf k (timerfnc s) = (entryOf k s).map Entry.dec := by
  rw [timerfnc_eq]
  exact find_map Entry.key (f := Entry.dec) (fun _ => rfl) k

theorem mem_due {s : State β} (h : (s.tlist.map Entry.key).Nodup) {k : Key} :
    k ∈ (s.tlist.filter (·.tm = 1)).map Entry.key ↔ ∃ e, entryOf k s = some e ∧ e.tm = 1 := by
  simp only [List.mem_map, List.mem_filter, decide_eq_true_eq, entryOf, find_iff Entry.key h]
  exact exists_congr fun e => by tauto

theorem Inv.boot : Inv (boot : State β) :=
  ⟨List.nodup_nil, by simp [MqttDup.boot], ⟨[], rfl⟩, fun k => ⟨.gone 0, rfl, rfl⟩⟩

theorem Inv.tick {s : State β} (hi : Inv s) : Inv (timerfnc s) := by
  have hkeys : ((s.tlist.filter (·.tm = 1)).map Entry.key).Nodup :=
    hi.nodup.sublist (List.filter_sublist.map _)
  refine ⟨?_, ?_, ?_, hi.extend (l := .tick :: ((s.tlist.filter (·.tm = 1)).map Entry.key).map .ind)
    (by rw [timerfnc_eq]) ?_⟩
  · rw [timerfnc_eq, List.map_map]
    exact hi.nodup
  · rw [timerfnc_eq]
    simpa using hi.active
  · obtain ⟨done, hd⟩ := hi.sent
    refine ⟨done, ?_⟩
    rw [timerfnc_eq]
    simp [← hd, Event.msg, List.filterMap_cons, Function.comp_def, Entry.key]
  · intro k p _ hf
    have hpath {q r : Phase β} (hq : Next k p .tick q)
        (hr : (∃ e, entryOf k s = some e ∧ e.tm = 1) → Next k q (.ind k) r)
        (hs : (¬∃ e, entryOf k s = some e ∧ e.tm = 1) → q = r) :
        Path k p (.tick :: ((s.tlist.filter (·.tm = 1)).map Entry.key).map .ind) r :=
      ⟨q, hq, path_events (fun _ => rfl) hkeys (fun hk => hr ((mem_due hi.nodup).mp hk))
        fun hk => hs (mt (mem_due hi.nodup).mpr hk)⟩
    rw [entryOf_tick]
    cases p with
    | gone d =>
        have ho : entryOf k s = none := hf
        refine ⟨.gone d, hpath .tick_gone ?_ fun _ => rfl, by rw [ho]; rfl⟩
        rintro ⟨e, he, -⟩
        rw [ho] at he
        cases he
    | counting e n t =>
        obtain ⟨hn, ht, ho⟩ := hf
        by_cases hlast : t + 1 = DUP_TIME
        · refine ⟨.announced e (n + 1), hpath .tick ?_ ?_, Nat.succ_pos n, hn, ?_⟩
          · intro _
            rw [hlast]
            exact .ind hn
          · intro h
            have htm : DUP_TIME - t = 1 := by omega
            exact absurd ⟨_, ho, htm⟩ h
          · rw [ho]
            have htm : DUP_TIME - t - 1 = 0 := by omega
            have hcnt : (DUP_CNT : ℤ) - n = DUP_CNT - (n + 1) + 1 := by omega
            simp [Entry.dec, htm, hcnt]
        · refine ⟨.counting e n (t + 1), hpath .tick ?_ fun _ => rfl, hn, by omega, ?_⟩
          · rintro ⟨e', he', htm⟩
            rw [ho] at he'
            cases he'
            have htm' : DUP_TIME - t = 1 := htm
            omega
          · rw [ho]
            simp [Entry.dec, Nat.sub_sub]
    | announced e n =>
        obtain ⟨h0, hn, ho⟩ := hf
        refine ⟨.announced e n, hpath .tick_announced ?_ fun _ => rfl, h0, hn, by rw [ho]; rfl⟩
        rintro ⟨e', he', htm⟩
        rw [ho] at he'
        cases he'
        cases htm
    | expiring e => exact hf.elim

theorem timer_start (s : State β) : timer true s = { s with active := true } := rfl

theorem Inv.ins {s : State β} (hi : Inv s) {sckidx : ℕ} {typ dat : LuaString}
    {seq : Option LuaString} {cb : Option β} {cbtag : Option LuaString}
    (hg : Answers s (.ins sckidx typ dat seq cb cbtag)) :
    Inv (ins sckidx typ dat seq cb cbtag s) := by
  obtain ⟨hnew, hdue⟩ := hg
  let e : Entry β := ⟨sckidx, typ, dat, seq, cb, cbtag, DUP_CNT, DUP_TIME⟩
  refine ⟨?_, ?_, ?_, ?_⟩
  · show ((s.tlist ++ [e]).map Entry.key).Nodup
    rw [List.map_append, List.nodup_append]
    refine ⟨hi.nodup, List.nodup_singleton _, ?_⟩
    intro a ha b hb
    obtain ⟨e', he', rfl⟩ := List.mem_map.mp ha
    rw [List.map_singleton, List.mem_singleton] at hb
    exact hb ▸ hnew e' he'
  · show true = true ↔ s.tlist ++ [e] ≠ []
    simp
  · obtain ⟨done, hd⟩ := hi.sent
    refine ⟨done, ?_⟩
    show done ++ s.qmsg = (s.hist ++ [Event.ins e]).filterMap Event.msg
    simp [← hd, Event.msg]
  · have hfind (k : Key) : entryOf k (MqttDup.ins sckidx typ dat seq cb cbtag s) =
        (entryOf k s).or (if e.key = k then some e else none) := by
      show (s.tlist ++ [e]).find? _ = _
      rw [List.find?_append, List.find?_singleton]
      simp only [decide_eq_true_eq]
      rfl
    refine hi.one_key e.key (l := [.ins e]) rfl (by simp [Event.key]) ?_ ?_
    · intro k hk
      rw [hfind, if_neg (Ne.symm hk), Option.or_none]
    · intro p hp hf
      have ho : entryOf e.key s = none := entryOf_none.mpr hnew
      rw [ho] at hf
      obtain ⟨d, rfl⟩ := hf.gone
      have hbal := hp.due
      have hd : d = 0 := by
        have h0 : inds e.key s.hist = rsms e.key s.hist := hdue
        simp only [Phase.due] at hbal
        omega
      subst hd
      refine ⟨.counting e 0 0, path_single.mpr (.ins rfl), by decide, by decide, ?_⟩
      rw [hfind, ho, if_pos rfl]
      rfl

/-- `timer` when it is not asked to start. -/
theorem timer_active {s : State β} (h : s.tlist ≠ [] → s.active = true) :
    (timer false s).active = true ↔ s.tlist ≠ [] := by
  unfold timer
  split
  · contradiction
  · split <;> simp_all

/-- The timer after some entries are gone. -/
theorem Inv.still_active {s t : State β} (hi : Inv s) (ht : t.active = s.active)
    (hl : (t.tlist.map Entry.key).Sublist (s.tlist.map Entry.key)) :
    (timer false t).active = true ↔ t.tlist ≠ [] := by
  refine timer_active fun hn => ?_
  rw [ht, hi.active]
  rintro hs
  rw [hs, List.map_nil, List.sublist_nil, List.map_eq_nil_iff] at hl
  exact hn hl

/-- The phase after `rmv` of the entry. -/
theorem Fits.removed {k : Key} {p : Phase β} {e : Entry β} (h : Fits p (some e)) :
    ∃ d, Next k p (.rmv k) (.gone d) := by
  cases p with
  | gone d => cases h
  | counting e n t => exact ⟨0, .rmv⟩
  | announced e n => exact ⟨1, .rmv_announced⟩
  | expiring e => exact h.elim

theorem rmv_fields (sckidx : ℕ) (typ dat seq : Option LuaString) (s : State β) :
    (rmv sckidx typ dat seq s).tlist = s.tlist.eraseP (selects sckidx typ dat seq) ∧
      (rmv sckidx typ dat seq s).qmsg = s.qmsg ∧
      (rmv sckidx typ dat seq s).hist = s.hist ++
        (s.tlist.find? (selects sckidx typ dat seq)).toList.map fun e => .rmv e.key := by
  cases hfind : s.tlist.find? (selects sckidx typ dat seq) <;> simp [rmv, hfind, remove, record]

theorem Inv.rmv {s : State β} (hi : Inv s) (sckidx : ℕ) (typ dat seq : Option LuaString) :
    Inv (rmv sckidx typ dat seq s) := by
  obtain ⟨htl, hq, hh⟩ := rmv_fields sckidx typ dat seq s
  have hsub : ((s.tlist.eraseP (selects sckidx typ dat seq)).map Entry.key).Sublist
      (s.tlist.map Entry.key) := List.eraseP_sublist.map _
  refine ⟨?_, ?_, ?_, ?_⟩
  · rw [htl]
    exact hi.nodup.sublist hsub
  · rw [htl]
    cases hfind : s.tlist.find? (selects sckidx typ dat seq) with
    | none =>
        simp only [MqttDup.rmv, hfind]
        exact hi.still_active (t := remove (selects sckidx typ dat seq) s) rfl hsub
    | some e =>
        simp only [MqttDup.rmv, hfind]
        exact hi.still_active (t := remove (selects sckidx typ dat seq) (record (.rmv e.key) s))
          rfl hsub
  · obtain ⟨done, hd⟩ := hi.sent
    refine ⟨done, ?_⟩
    rw [hq, hh, List.filterMap_append, ← hd]
    cases s.tlist.find? (selects sckidx typ dat seq) <;> simp [Event.msg]
  · cases hfind : s.tlist.find? (selects sckidx typ dat seq) with
    | none =>
        have hsame : s.tlist.eraseP (selects sckidx typ dat seq) = s.tlist :=
          List.eraseP_of_forall_not (by simpa [List.find?_eq_none] using hfind)
        simpa [hh, hfind, entryOf, htl, hsame] using hi.life
    | some e =>
        have herase := fun k => find_eraseP Entry.key hi.nodup hfind k
        rw [← htl] at herase
        refine hi.one_key e.key (l := [.rmv e.key]) (by simp [hh, hfind])
          (by simp [Event.key]) ?_ ?_
        · intro k hk
          rw [entryOf, herase, if_neg (Ne.symm hk)]
          rfl
        · intro p _ hf
          have ho : entryOf e.key s = some e :=
            (find_iff Entry.key hi.nodup).mpr ⟨List.mem_of_find?_eq_some hfind, rfl⟩
          rw [ho] at hf
          obtain ⟨d, hd⟩ := hf.removed (k := e.key)
          refine ⟨.gone d, path_single.mpr hd, ?_⟩
          rw [entryOf, herase, if_pos rfl]
          rfl

theorem rmvall_fields (sckidx : ℕ) (s : State β) :
    (rmvall sckidx s).tlist = [] ∧ (rmvall sckidx s).qmsg = s.qmsg ∧
      (rmvall sckidx s).hist = s.hist ++ (s.tlist.map Entry.key).map .rmv := by
  simp [rmvall, Function.comp_def]

theorem Inv.rmvall {s : State β} (hi : Inv s) (sckidx : ℕ) : Inv (rmvall sckidx s) := by
  obtain ⟨htl, hq, hh⟩ := rmvall_fields sckidx s
  refine ⟨?_, ?_, ?_, hi.extend hh ?_⟩
  · rw [htl]
    exact List.nodup_nil
  · rw [htl]
    exact hi.still_active rfl (List.nil_sublist _)
  · obtain ⟨done, hd⟩ := hi.sent
    refine ⟨done, ?_⟩
    rw [hq, hh]
    simp [← hd, Event.msg, List.filterMap_map, Function.comp_def]
  · intro k p _ hf
    have hnone : entryOf k (MqttDup.rmvall sckidx s) = none := by rw [entryOf, htl]; rfl
    rw [hnone]
    cases ho : entryOf k s with
    | none =>
        rw [ho] at hf
        refine ⟨p, path_events (fun _ => rfl) hi.nodup ?_ fun _ => rfl, hf⟩
        intro hk
        obtain ⟨e, he, hek⟩ := List.mem_map.mp hk
        exact absurd hek (entryOf_none.mp ho e he)
    | some e =>
        rw [ho] at hf
        obtain ⟨d, hd⟩ := hf.removed (k := k)
        refine ⟨.gone d, path_events (fun _ => rfl) hi.nodup (fun _ => hd) ?_, rfl⟩
        intro hk
        obtain ⟨hm, hek⟩ := (find_iff Entry.key hi.nodup).mp ho
        exact absurd (List.mem_map.mpr ⟨e, hm, hek⟩) hk

/-- `rsm` looks for the entry with its key. -/
theorem rsm_selects (sckidx : ℕ) (dat : LuaString) :
    (fun e : Entry β => decide (sckidx = e.sckidx ∧ e.dat = dat)) =
      fun e => decide (e.key = (sckidx, dat)) := by
  funext e
  simp [Entry.key, eq_comm]

theorem selects_key (sckidx : ℕ) (dat : LuaString) :
    selects sckidx none (some dat) none =
      fun e : Entry β => decide (e.key = (sckidx, dat)) := by
  funext e
  simp [selects, Entry.key, eq_comm]

/-- `rsm` when no entry has the key. -/
theorem rsm_none {sckidx : ℕ} {dat : LuaString} {s : State β}
    (h : entryOf (sckidx, dat) s = none) :
    rsm sckidx dat s = record (.rsm (sckidx, dat)) s := by
  rw [entryOf] at h
  simp only [rsm, record, rsm_selects, h]

/-- `rsm` when the entry stays. -/
theorem rsm_again {sckidx : ℕ} {dat : LuaString} {s : State β} {e : Entry β}
    (h : entryOf (sckidx, dat) s = some e) (hc : e.cnt - 1 ≠ 0) :
    rsm sckidx dat s =
      { s with
        tlist := modify (fun e => e.key = (sckidx, dat))
          (fun e => { e with cnt := e.cnt - 1, tm := DUP_TIME }) s.tlist
        hist := s.hist ++ [.rsm (sckidx, dat)] } := by
  rw [entryOf] at h
  simp only [rsm, record, rsm_selects, h, if_neg hc]

/-- `rsm` when the entry is given up. -/
theorem rsm_last {sckidx : ℕ} {dat : LuaString} {s : State β} {e : Entry β}
    (h : entryOf (sckidx, dat) s = some e) (hc : e.cnt - 1 = 0) :
    rsm sckidx dat s =
      timer false
        { s with
          tlist := (modify (fun e => e.key = (sckidx, dat)) (fun e => { e with cnt := e.cnt - 1 })
            s.tlist).eraseP fun e => e.key = (sckidx, dat)
          qmsg := s.qmsg ++ [e.failure]
          hist := s.hist ++ [.rsm (sckidx, dat), .fail (sckidx, dat) e.failure] } := by
  have hk : e.key = (sckidx, dat) := by simpa using List.find?_some h
  have hs : e.sckidx = sckidx := congrArg Prod.fst hk
  rw [entryOf] at h
  simp only [rsm, record, dispatch, remove, rsm_selects, h, if_pos hc, hs, selects_key, hk,
    List.append_assoc, List.singleton_append, Entry.failure]

/-- An entry whose announcement has not been answered. -/
theorem Fits.due {p : Phase β} {e : Entry β} (h : Fits p (some e)) (hd : 0 < p.due) :
    ∃ e₀ n, p = .announced e₀ n ∧ 0 < n ∧ n ≤ DUP_CNT ∧
      e = { e₀ with cnt := DUP_CNT - n + 1, tm := 0 } := by
  cases p with
  | gone d => cases h
  | counting e₀ n t => exact absurd hd (lt_irrefl 0)
  | announced e₀ n => exact ⟨e₀, n, rfl, h.1, h.2.1, Option.some.inj h.2.2⟩
  | expiring e₀ => exact h.elim

theorem Answers.due {s : State β} {sckidx : ℕ} {dat : LuaString} {p : Phase β}
    (h : Answers s (.rsm sckidx dat)) (hp : Path (sckidx, dat) (.gone 0) s.hist p) :
    0 < p.due := by
  have hbal := hp.due
  have hlt : rsms (sckidx, dat) s.hist < inds (sckidx, dat) s.hist := h
  simp only [Phase.due] at hbal ⊢
  omega

section Rsm
variable {s : State β} {sckidx : ℕ} {dat : LuaString} {e : Entry β}

/-- The answer to an announcement of an entry that is not in the list any more. -/
theorem Inv.rsm_none (hi : Inv s) (hg : Answers s (.rsm sckidx dat))
    (ho : entryOf (sckidx, dat) s = none) : Inv (rsm sckidx dat s) := by
  obtain ⟨done, hd⟩ := hi.sent
  rw [MqttDup.rsm_none ho]
  refine ⟨hi.nodup, hi.active, ⟨done, ?_⟩, ?_⟩
  · simp [record, ← hd, Event.msg]
  · refine hi.one_key (sckidx, dat) (l := [.rsm (sckidx, dat)]) rfl (by simp [Event.key])
      (fun _ _ => rfl) ?_
    intro p hp hf
    have hpos := hg.due hp
    rw [ho] at hf
    obtain ⟨d, rfl⟩ := hf.gone
    obtain ⟨d', rfl⟩ := Nat.exists_eq_succ_of_ne_zero hpos.ne'
    exact ⟨.gone d', path_single.mpr .rsm_gone, ho⟩

theorem Inv.rsm_again (hi : Inv s) (hg : Answers s (.rsm sckidx dat))
    (ho : entryOf (sckidx, dat) s = some e) (hc : e.cnt - 1 ≠ 0) : Inv (rsm sckidx dat s) := by
  obtain ⟨done, hd⟩ := hi.sent
  rw [MqttDup.rsm_again ho hc]
  have hkey (a : Entry β) : ({ a with cnt := a.cnt - 1, tm := DUP_TIME } : Entry β).key = a.key :=
    rfl
  refine ⟨?_, ?_, ⟨done, ?_⟩, ?_⟩
  · rw [map_modify Entry.key hkey]
    exact hi.nodup
  · rw [hi.active, Ne, Ne, modify_eq_nil]
  · simp [← hd, Event.msg]
  · refine hi.one_key (sckidx, dat) (l := [.rsm (sckidx, dat)]) rfl (by simp [Event.key]) ?_ ?_
    · intro k hk
      rw [entryOf, find_modify Entry.key hkey, if_neg hk]
      rfl
    · intro p hp hf
      rw [ho] at hf
      obtain ⟨e₀, n, rfl, h0, hn, he⟩ := hf.due (hg.due hp)
      have hn' : n < DUP_CNT := by
        have hcnt : e.cnt = DUP_CNT - n + 1 := by rw [he]
        omega
      refine ⟨.counting e₀ n 0, path_single.mpr (.rsm hn'), hn', by decide, ?_⟩
      rw [entryOf, find_modify Entry.key hkey, if_pos rfl]
      rw [entryOf] at ho
      rw [ho, he]
      simp

theorem Inv.rsm_last (hi : Inv s) (hg : Answers s (.rsm sckidx dat))
    (ho : entryOf (sckidx, dat) s = some e) (hc : e.cnt - 1 = 0) : Inv (rsm sckidx dat s) := by
  obtain ⟨done, hd⟩ := hi.sent
  rw [MqttDup.rsm_last ho hc]
  have hkey (a : Entry β) : ({ a with cnt := a.cnt - 1 } : Entry β).key = a.key := rfl
  have hmap := map_modify Entry.key (l := s.tlist) (p := fun e => e.key = (sckidx, dat)) hkey
  have hsub := (List.eraseP_sublist (p := fun e : Entry β => decide (e.key = (sckidx, dat)))
    (l := modify (fun e => e.key = (sckidx, dat)) (fun e => { e with cnt := e.cnt - 1 })
      s.tlist)).map Entry.key
  rw [hmap] at hsub
  have hek : e.key = (sckidx, dat) := by simpa using List.find?_some ho
  have hfound : (modify (fun e => e.key = (sckidx, dat)) (fun e => { e with cnt := e.cnt - 1 })
      s.tlist).find? (fun e => e.key = (sckidx, dat)) = some { e with cnt := e.cnt - 1 } := by
    rw [entryOf] at ho
    rw [find_modify Entry.key hkey, if_pos rfl, ho]
    rfl
  have herase := find_eraseP Entry.key (hmap ▸ hi.nodup) hfound
  refine ⟨?_, ?_, ⟨done, ?_⟩, ?_⟩
  · rw [timer_tlist]
    exact hi.nodup.sublist hsub
  · rw [timer_tlist]
    exact hi.still_active rfl hsub
  · simp [← hd, Event.msg, List.filterMap_cons]
  · refine hi.one_key (sckidx, dat) (l := [.rsm (sckidx, dat), .fail (sckidx, dat) e.failure])
      (by rw [timer_hist]) (by simp [Event.key]) ?_ ?_
    · intro k hk
      rw [entryOf, timer_tlist, herase, hkey, hek, if_neg (Ne.symm hk),
        find_modify Entry.key hkey, if_neg hk]
      rfl
    · intro p hp hf
      rw [ho] at hf
      obtain ⟨e₀, n, rfl, h0, hn, he⟩ := hf.due (hg.due hp)
      have hn' : n = DUP_CNT := by
        have hcnt : e.cnt = DUP_CNT - n + 1 := by rw [he]
        omega
      have hfail : e.failure = e₀.failure := by rw [he]; rfl
      rw [hfail]
      refine ⟨.gone 0, ⟨.expiring e₀, hn' ▸ .rsm_last, path_single.mpr .fail⟩, ?_⟩
      rw [entryOf, timer_tlist, herase, hkey, hek, if_pos rfl]
      rfl

end Rsm

/-! ## Runs -/

theorem Inv.step {s t : State β} {a : Act β} (hi : Inv s) (hg : Answers s a)
    (h : step s a = some t) : Inv t := by
  cases a with
  | ins sckidx typ dat seq cb cbtag =>
      cases h
      exact hi.ins hg
  | rmv sckidx typ dat seq =>
      cases h
      exact hi.rmv sckidx typ dat seq
  | rmvall sckidx =>
      cases h
      exact hi.rmvall sckidx
  | rsm sckidx dat =>
      cases h
      cases ho : entryOf (sckidx, dat) s with
      | none => exact hi.rsm_none hg ho
      | some e =>
          by_cases hc : e.cnt - 1 = 0
          · exact hi.rsm_last hg ho hc
          · exact hi.rsm_again hg ho hc
  | tick =>
      rw [MqttDup.step] at h
      split at h
      · cases h
        exact hi.tick
      · cases h
  | msg =>
      rw [MqttDup.step] at h
      split at h
      · cases h
      · rename_i hq
        cases h
        obtain ⟨done, hd⟩ := hi.sent
        obtain ⟨m, ms, hms⟩ := List.exists_cons_of_ne_nil hq
        refine ⟨hi.nodup, hi.active, ⟨done ++ [m], ?_⟩, hi.life⟩
        rw [← hd, hms]
        simp

/-- What the events `post` after the insertion of `e` say, when its key is not inserted
again; `o` is the entry that the list has for the key after them. -/
structure Told (e : Entry β) (post : List (Event β)) (o : Option (Entry β)) : Prop where
  bound : inds e.key post ≤ DUP_CNT
  apart : ∀ l l', post = l ++ .ind e.key :: l' → DUP_TIME ≤ ticks (Event.isInd e.key) 0 l
  removed : ∀ l l', post = l ++ .rmv e.key :: l' →
    inds e.key l' = 0 ∧ (∀ m, .fail e.key m ∉ l') ∧ o = none
  failed : ∀ l m l', post = l ++ .fail e.key m :: l' →
    m = .dupFail e.sckidx e.typ e.seq e.cb e.cbtag ∧ inds e.key l = DUP_CNT ∧
      .rmv e.key ∉ l ∧ (∀ m', .fail e.key m' ∉ l) ∧
      inds e.key l' = 0 ∧ (∀ m', .fail e.key m' ∉ l') ∧ o = none
  /-- An entry that is not removed is given up, or is in the list and either waits for an
  answer or is soon announced again. -/
  kept : .rmv e.key ∉ post → (∃ m, .fail e.key m ∈ post) ∨
    (∃ cnt tm, o = some { e with cnt := cnt, tm := tm }) ∧
      (inds e.key post = rsms e.key post →
        inds e.key post < DUP_CNT ∧ ticks (Event.isRsm e.key) 0 post < DUP_TIME)

theorem Next.rmv_gone {k : Key} {p q : Phase β} (h : Next k p (.rmv k) q) : ∃ d, q = .gone d := by
  cases h with
  | rmv => exact ⟨0, rfl⟩
  | rmv_announced => exact ⟨1, rfl⟩
  | other _ hk => exact absurd rfl hk

theorem Next.ind_due {k : Key} {p q : Phase β} (h : Next k p (.ind k) q) : p.age = DUP_TIME := by
  cases h with
  | ind => rfl
  | other _ hk => exact absurd rfl hk

theorem Next.fail_inv {k : Key} {p q : Phase β} {m : Msg β} (h : Next k p (.fail k m) q) :
    ∃ e, p = .expiring e ∧ m = e.failure ∧ q = .gone 0 := by
  cases h with
  | fail => exact ⟨_, rfl, rfl, rfl⟩
  | other _ hk => exact absurd rfl hk

/-- An accepted history tells the life of each entry. -/
theorem told {e : Entry β} {post : List (Event β)} {p : Phase β} {o : Option (Entry β)}
    (hp : Path e.key (.counting e 0 0) post p) (hf : Fits p o)
    (hnew : ∀ e' : Entry β, .ins e' ∈ post → e'.key ≠ e.key) : Told e post o := by
  have hgone {d : ℕ} {l l' : List (Event β)} {v : Event β} (hl : post = l ++ v :: l')
      (hq : Path e.key (.gone d) l' p) :
      inds e.key l' = 0 ∧ (∀ m, .fail e.key m ∉ l') ∧ o = none := by
    have hnew' : ∀ e' : Entry β, .ins e' ∈ l' → e'.key ≠ e.key := by
      intro e' he'
      exact hnew e' (hl ▸ List.mem_append_right l (List.mem_cons_of_mem v he'))
    obtain ⟨⟨d', rfl⟩, hi, hm⟩ := hq.gone hnew'
    exact ⟨hi, hm, hf⟩
  have hsplit {l l' : List (Event β)} {v : Event β} (hl : post = l ++ v :: l') :
      ∃ q r, Path e.key (.counting e 0 0) l q ∧ Next e.key q v r ∧ Path e.key r l' p := by
    obtain ⟨q, hq, r, hr, hp'⟩ := path_append.mp (hl ▸ hp)
    exact ⟨q, r, hq, hr, hp'⟩
  constructor
  case bound => simpa [Phase.spent] using hp.bound hnew (Nat.zero_le DUP_CNT)
  case apart =>
    intro l l' hl
    obtain ⟨q, r, hq, hr, -⟩ := hsplit hl
    exact hr.ind_due ▸ hq.age_le (le_refl 0)
  case removed =>
    intro l l' hl
    obtain ⟨q, r, -, hr, hp'⟩ := hsplit hl
    obtain ⟨d, rfl⟩ := hr.rmv_gone
    exact hgone hl hp'
  case failed =>
    intro l m l' hl
    obtain ⟨q, r, hq, hr, hp'⟩ := hsplit hl
    obtain ⟨e', rfl, rfl, rfl⟩ := hr.fail_inv
    have hnew' : ∀ e' : Entry β, .ins e' ∈ l → e'.key ≠ e.key := by
      intro e' he'
      exact hnew e' (hl ▸ List.mem_append_left _ he')
    obtain ⟨he, hs, hrmv, hfail⟩ := hq.waiting rfl hnew'
    cases he
    refine ⟨rfl, ?_, hrmv, hfail, hgone hl hp'⟩
    simpa [Phase.spent] using hs
  case kept =>
    intro hrmv
    have hbal := hp.due
    have hat := hp.at hnew (t := 0) rfl
    cases p with
    | gone d => exact .inl ((hp.ended rfl).resolve_left hrmv)
    | expiring e' => exact hf.elim
    | counting e' n t =>
        obtain ⟨he, hs, -⟩ := hp.waiting rfl hnew
        cases he
        refine .inr ⟨⟨_, _, hf.2.2⟩, fun _ => ⟨?_, ?_⟩⟩
        · have hn : 0 + inds e.key post = n := hs
          have := hf.1
          omega
        · have ht : t = ticks (Event.isRsm e.key) 0 post := hat
          exact ht ▸ hf.2.1
    | announced e' n =>
        obtain ⟨he, -⟩ := hp.waiting rfl hnew
        cases he
        refine .inr ⟨⟨_, _, hf.2.2⟩, fun h => ?_⟩
        simp only [Phase.due] at hbal
        omega

/-- Bounded retransmission: the timer runs exactly while there are entries; the messages
are those of the history, in order; and every entry is announced and given up as it
should be. -/
theorem retransmission_bound {acts : List (Act β)} {s : State β}
    (hm : Meets step Answers boot acts) (hr : run step boot acts = some s) :
    (s.active = true ↔ s.tlist ≠ []) ∧
      (∃ done, done ++ s.qmsg = s.hist.filterMap Event.msg) ∧
      ∀ pre e post, s.hist = pre ++ .ins e :: post →
        (∀ e' : Entry β, .ins e' ∈ post → e'.key ≠ e.key) → Told e post (entryOf e.key s) := by
  have hi : Inv s := guarded_run (fun _ _ _ hi hg ht => hi.step hg ht) Inv.boot hm hr
  refine ⟨hi.active, hi.sent, fun pre e post hh hnew => ?_⟩
  obtain ⟨p, hp, hf⟩ := hi.life e.key
  rw [hh] at hp
  obtain ⟨q, -, r, hr', hp'⟩ := path_append.mp hp
  cases hr' with
  | ins _ => exact told hp' hf hnew
  | other _ hk => exact absurd rfl hk

/-- Two packets wait; the second one is acknowledged, the first one is given up. -/
theorem retransmission_bound_two : ∃ (s : State Unit) (e f : Entry Unit) (post : List (Event Unit)),
    run step boot ([.ins 5 (lua "MQTTPUB") (lua "a") (some (lua "1")) (some ()) none,
        .ins 5 (lua "MQTTPUB") (lua "b") (some (lua "2")) none none] ++
      List.replicate 10 .tick ++ [.msg, .rsm 5 (lua "a"), .msg, .rsm 5 (lua "b"),
        .rmv 5 none none (some (lua "2"))] ++
      List.replicate 10 .tick ++ [.msg, .rsm 5 (lua "a")] ++
      List.replicate 10 .tick ++ [.msg, .rsm 5 (lua "a")]) = some s ∧
    s.hist = .ins e :: .ins f :: post ∧ e.key = (5, lua "a") ∧ inds e.key post = 3 ∧
    s.qmsg = [.dupFail 5 (lua "MQTTPUB") (some (lua "1")) (some ()) none] ∧ s.active = false ∧
    Told e (.ins f :: post) none := by
  let e : Entry Unit :=
    ⟨5, lua "MQTTPUB", lua "a", some (lua "1"), some (), none, DUP_CNT, DUP_TIME⟩
  let f : Entry Unit := ⟨5, lua "MQTTPUB", lua "b", some (lua "2"), none, none, DUP_CNT, DUP_TIME⟩
  let ticks : List (Event Unit) := List.replicate 10 .tick
  let first : List (Event Unit) :=
    [.ind e.key, .ind f.key, .rsm e.key, .rsm f.key, .rmv f.key]
  let last : List (Event Unit) := [.ind e.key, .rsm e.key, .fail e.key e.failure]
  let post := ticks ++ first ++ ticks ++ [.ind e.key, .rsm e.key] ++ ticks ++ last
  let s : State Unit := ⟨[], false, [e.failure], .ins e :: .ins f :: post⟩
  have htold : ∀ {acts : List (Act Unit)}, Meets step Answers boot acts →
      run step boot acts = some s → Told e (.ins f :: post) none := by
    intro acts hm hr
    apply (retransmission_bound hm hr).2.2 [] e (.ins f :: post) rfl
    intro e' he'
    have hf : e' = f := by simpa [post, ticks, first, last] using he'
    rw [hf]
    decide
  refine ⟨s, e, f, post, ?hr, rfl, rfl, ?_, rfl, rfl, htold ?hm ?hr⟩
  · decide +kernel
  · decide +kernel
  · decide +kernel

/-! ## Two sockets -/

/-- `rmvall` keeps the entries of the other sockets only when there are none. -/
theorem rmvall_isolates_iff (sckidx : ℕ) (s : State β) :
    ((rmvall sckidx s).tlist = (s.tlist.filter fun e => e.sckidx ≠ sckidx) ∧
      ∀ k : Key, k.1 ≠ sckidx → entryOf k (rmvall sckidx s) = entryOf k s) ↔
      ∀ e ∈ s.tlist, e.sckidx = sckidx := by
  obtain ⟨htl, -, -⟩ := rmvall_fields sckidx s
  rw [htl]
  constructor
  · rintro ⟨h, -⟩ e he
    by_contra hne
    have hmem : e ∈ s.tlist.filter fun e => e.sckidx ≠ sckidx := by
      simpa using ⟨he, hne⟩
    rw [← h] at hmem
    cases hmem
  · intro h
    refine ⟨?_, fun k hk => ?_⟩
    · symm
      rw [List.filter_eq_nil_iff]
      intro e he
      simpa using h e he
    · have hnone : entryOf k s = none := by
        rw [entryOf_none]
        rintro e he rfl
        exact hk (h e he)
      rw [hnone, entryOf, htl]
      rfl

/-- A loss of socket 5 drops the packet of socket 4, whose timer stops with it. -/
theorem rmvall_drops_other : ∃ (s t : State Unit) (e : Entry Unit),
    run step boot [.ins 5 (lua "MQTTPUB") (lua "a") (some (lua "1")) (some ()) none,
      .ins 4 (lua "MQTTPUB") (lua "b") (some (lua "1")) (some ()) none] = some s ∧
    step s (.rmvall 5) = some t ∧ e ∈ s.tlist ∧ e.sckidx = 4 ∧
    t.tlist ≠ (s.tlist.filter fun e => e.sckidx ≠ 5) ∧ t.tlist = [] ∧ t.active = false ∧
    t.qmsg = [] :=
  ⟨_, _, ⟨4, lua "MQTTPUB", lua "b", some (lua "1"), some (), none, DUP_CNT, DUP_TIME⟩, rfl, rfl,
    by decide, rfl, by decide, rfl, rfl, rfl⟩

end LuatAir200.MqttDup
