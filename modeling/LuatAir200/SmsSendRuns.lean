import LuatAir200.SmsSend
import Mathlib.Data.List.Perm.Basic

/-!
# Every message gets its own result

At any time at most one message is in flight, the first of the queue, as long as nothing
is put before it and the callback of a result does not send into the empty queue.
-/
namespace LuatAir200.SmsSend
open Lua Sms Sparse Machine

def Cmd.isCmgs : Cmd → Bool
  | .cmgs _ _ _ => true
  | .other _ => false

/-- The commands of messages that are queued or outstanding in `ril`. -/
def outstanding (s : State) : List Cmd := s.ril.items.filter Cmd.isCmgs

/-- The answers to the segments of the message `n`. -/
def resultsOf (n : ℕ) (s : State) : List Bool :=
  (s.results.filter fun p => p.1 = n).map Prod.snd

/-- What holds of the messages in every state: `Q` waits in `tsmsnd`. -/
structure Ledger (Q : List Item) (s : State) : Prop where
  holds : Holds s.tsmsnd Q
  /-- Every message is finished or waits, and never both. -/
  kept : (s.finished.map Prod.fst ++ Q).Perm s.accepted
  numbered : s.accepted.map Item.no = List.range s.accepted.length
  /-- The commands are those of the transmitted messages, each in one block. -/
  commands : s.requests.filter Cmd.isCmgs = s.sent.flatMap segments
  block : ∀ x ∈ s.sent, segments x <:+: s.requests
  /-- A finished message has been answered in full, and its result tells whether all its
  segments have succeeded. -/
  verdict : ∀ p ∈ s.finished, ∃ x ∈ s.sent, x.item = p.1 ∧
    (resultsOf p.1.no s).length = (segments x).length ∧ p.2 = (resultsOf p.1.no s).all id
  called : s.cbs = (s.finished.filter fun p => p.1.cb).map fun p => (p.1.no, p.2)
  /-- Only transmitted messages are answered. -/
  answered : ∀ n, n ∉ s.sent.map (fun x => x.item.no) → resultsOf n s = []

/-- Nothing is in flight: what has been transmitted is finished. -/
structure Quiet (s : State) : Prop where
  tsend : s.tsend = []
  outstanding : outstanding s = []
  sent : s.sent.map Sent.item = s.finished.map Prod.fst

/-- The phases of the queue `Q`. -/
inductive Phase (s : State) (Q : List Item) : Prop
  | dormant : Quiet s → s.ready = false → s.qmsg = [] → s.sndtm = none → s.incb = false → Phase s Q
  | starting : Quiet s → s.ready = true → s.qmsg = [.SMS_READY] → s.sndtm = none →
      s.incb = false → Phase s Q
  | idle : Quiet s → s.ready = true → s.qmsg = [] → s.sndtm = none → s.incb = false → Q = [] →
      Phase s Q
  | spacing : Quiet s → s.ready = true → s.qmsg = [] → s.sndtm ≠ none → s.incb = false → Q ≠ [] →
      Phase s Q
  | calling : Quiet s → s.ready = true → s.qmsg = [] → s.sndtm = none → s.incb = true → Phase s Q
  /-- The first `k` segments of the message `y` have been answered. -/
  | flying (rest : List Item) (prev : List Sent) (y : Sent) (k : ℕ) : Q = y.item :: rest →
      s.sent = prev ++ [y] → prev.map Sent.item = s.finished.map Prod.fst →
      s.tsend = [⟨pducnt y.item.data, k, (resultsOf y.item.no s).all id⟩] →
      (resultsOf y.item.no s).length = k → k < pducnt y.item.data →
      outstanding s = (segments y).drop k →
      s.ready = true → s.qmsg = [] → s.sndtm = none → s.incb = false → Phase s Q
  | confirmed (rest : List Item) (prev : List Sent) (y : Sent) : Q = y.item :: rest →
      s.sent = prev ++ [y] → prev.map Sent.item = s.finished.map Prod.fst → s.tsend = [] →
      (resultsOf y.item.no s).length = pducnt y.item.data → outstanding s = [] →
      s.ready = true → s.qmsg = [.SMS_SEND_CNF ((resultsOf y.item.no s).all id)] →
      s.sndtm = none → s.incb = false → Phase s Q

/-- What the code owes to its callers. -/
structure Delivered (s : State) : Prop where
  ledger : ∃ Q, Ledger Q s
  /-- Messages are transmitted once each and in the order in which they are finished; at most
  the first of the queue has been transmitted and is not finished. -/
  handed : s.sent.map Sent.item = s.finished.map Prod.fst ∨
    ∃ x, s.tsmsnd.get 1 = some x ∧ s.sent.map Sent.item = s.finished.map Prod.fst ++ [x]
  /-- A waiting message is not forgotten. -/
  awaited : s.ready = true → s.incb = false → s.tsmsnd.get 1 ≠ none →
    s.sndtm ≠ none ∨ s.qmsg ≠ [] ∨ outstanding s ≠ []

theorem delivered_of {Q : List Item} {s : State} (hl : Ledger Q s) (hp : Phase s Q) :
    Delivered s := by
  have hfirst := hl.holds.first
  refine ⟨⟨Q, hl⟩, ?_, ?_⟩
  · cases hp with
    | dormant hq | starting hq | idle hq | spacing hq | calling hq => exact .inl hq.sent
    | flying rest prev y k hQ hs hf | confirmed rest prev y hQ hs hf =>
        refine .inr ⟨y.item, by rw [hfirst, hQ, List.head?_cons], ?_⟩
        rw [hs, List.map_append, hf, List.map_singleton]
  · intro hr hc hn
    cases hp with
    | dormant _ hr' =>
        rw [hr] at hr'
        cases hr'
    | starting _ _ hm => exact .inr (.inl (by rw [hm]; simp))
    | idle _ _ _ _ _ hQ =>
        rw [hfirst, hQ] at hn
        exact absurd rfl hn
    | spacing _ _ _ ht => exact .inl ht
    | calling _ _ _ _ hc' =>
        rw [hc] at hc'
        cases hc'
    | flying rest prev y k _ _ _ _ _ hk ho =>
        refine .inr (.inr ?_)
        rw [ho, ← List.length_pos_iff, List.length_drop, segments, List.length_map,
          List.length_range']
        omega
    | confirmed _ _ _ _ _ _ _ _ _ _ hm => exact .inr (.inl (by rw [hm]; simp))

/-! ## Requests -/

theorem reqs_eq (cs : List Cmd) (s : State) :
    reqs cs s = { s with ril := (reqs cs s).ril, requests := s.requests ++ cs } ∧
      (reqs cs s).ril.items = s.ril.items ++ cs := by
  induction cs generalizing s with
  | nil => simp [reqs]
  | cons c cs ih =>
      obtain ⟨h1, h2⟩ := ih (req c s)
      rw [show reqs (c :: cs) s = reqs cs (req c s) from rfl]
      refine ⟨?_, ?_⟩
      · rw [h1]
        simp [req]
      · rw [h2, show (req c s).ril = s.ril.push c from rfl, Fifo.items_push, List.append_assoc,
          List.singleton_append]

theorem segments_isCmgs (x : Sent) : (segments x).filter Cmd.isCmgs = segments x := by
  rw [List.filter_eq_self]
  intro c hc
  obtain ⟨i, -, rfl⟩ := List.mem_map.mp hc
  rfl

theorem length_segments (x : Sent) : (segments x).length = pducnt x.item.data := by
  rw [segments, List.length_map, List.length_range']

theorem pducnt_pos (data : LuaString) : 0 < pducnt data := by
  rw [pducnt]
  split <;> omega

/-! ## What each function does to the accounts -/

/-- Items that are finished or wait have different numbers. -/
theorem Ledger.distinct {Q : List Item} {s : State} (h : Ledger Q s) :
    ((s.finished.map Prod.fst ++ Q).map Item.no).Nodup := by
  rw [(h.kept.map Item.no).nodup_iff, h.numbered]
  exact List.nodup_range

theorem Ledger.first_fresh {x : Item} {Q : List Item} {s : State} (h : Ledger (x :: Q) s) :
    ∀ p ∈ s.finished, p.1.no ≠ x.no := by
  intro p hp
  have hd := h.distinct
  rw [List.map_append, List.nodup_append] at hd
  exact hd.2.2 _ (List.mem_map_of_mem (List.mem_map_of_mem hp)) _
    (List.mem_map_of_mem List.mem_cons_self)

/-- Other commands, messages and timers do not count. -/
theorem Ledger.frame {Q : List Item} {s t : State} (h : Ledger Q s) (h1 : t.tsmsnd = s.tsmsnd)
    (h2 : t.finished = s.finished) (h3 : t.accepted = s.accepted)
    (h4 : ∃ cs, t.requests = s.requests ++ cs ∧ cs.filter Cmd.isCmgs = []) (h5 : t.sent = s.sent)
    (h6 : t.results = s.results) (h7 : t.cbs = s.cbs) : Ledger Q t := by
  obtain ⟨cs, hreq, hcs⟩ := h4
  have hres : ∀ n, resultsOf n t = resultsOf n s := by
    intro n
    rw [resultsOf, h6, resultsOf]
  refine ⟨h1 ▸ h.holds, by rw [h2, h3]; exact h.kept, by rw [h3]; exact h.numbered, ?_, ?_, ?_,
    by rw [h7, h2]; exact h.called, ?_⟩
  · rw [hreq, List.filter_append, hcs, List.append_nil, h5]
    exact h.commands
  · rw [h5, hreq]
    intro x hx
    exact (h.block x hx).trans (List.infix_append' [] s.requests cs)
  · rw [h2, h5]
    intro p hp
    rw [hres]
    exact h.verdict p hp
  · rw [h5]
    intro n hn
    rw [hres]
    exact h.answered n hn

theorem Phase.frame {Q : List Item} {s : State} (h : Phase s Q) {q : Fifo Cmd} (cs : List Cmd)
    (hq : q.items.filter Cmd.isCmgs = outstanding s) :
    Phase { s with ril := q, requests := cs } Q := by
  have quiet (h : Quiet s) : Quiet { s with ril := q, requests := cs } :=
    ⟨h.tsend, hq.trans h.outstanding, h.sent⟩
  cases h with
  | dormant h1 h2 h3 h4 h5 => exact .dormant (quiet h1) h2 h3 h4 h5
  | starting h1 h2 h3 h4 h5 => exact .starting (quiet h1) h2 h3 h4 h5
  | idle h1 h2 h3 h4 h5 h6 => exact .idle (quiet h1) h2 h3 h4 h5 h6
  | spacing h1 h2 h3 h4 h5 h6 => exact .spacing (quiet h1) h2 h3 h4 h5 h6
  | calling h1 h2 h3 h4 h5 => exact .calling (quiet h1) h2 h3 h4 h5
  | flying rest prev y k h1 h2 h3 h4 h5 h6 h7 h8 h9 h10 h11 =>
      exact .flying rest prev y k h1 h2 h3 h4 h5 h6 (hq.trans h7) h8 h9 h10 h11
  | confirmed rest prev y h1 h2 h3 h4 h5 h6 h7 h8 h9 h10 =>
      exact .confirmed rest prev y h1 h2 h3 h4 h5 (hq.trans h6) h7 h8 h9 h10

theorem outstanding_other (cmd : LuaString) (s : State) :
    outstanding (req (.other cmd) s) = outstanding s := by
  rw [outstanding, show (req (.other cmd) s).ril = s.ril.push (.other cmd) from rfl,
    Fifo.items_push, List.filter_append]
  exact List.append_nil _

/-- The first of the queue is transmitted while nothing is in flight. -/
theorem transmit_spec {x : Item} {Q : List Item} {s : State} (hl : Ledger (x :: Q) s)
    (hq : Quiet s) (hr : s.ready = true) (hm : s.qmsg = []) (ht : s.sndtm = none)
    (hc : s.incb = false) :
    Ledger (x :: Q) (transmit x s) ∧ Phase (transmit x s) (x :: Q) := by
  -- the serial number the message gets
  obtain ⟨isn, hisn⟩ : ∃ isn, transmit x s = reqs (segments ⟨x, isn⟩) { s with
      isn := isn
      tsend := s.tsend ++ [⟨pducnt x.data, 0, true⟩]
      sent := s.sent ++ [⟨x, isn⟩] } := by
    rw [transmit, if_pos hr]
    exact ⟨_, rfl⟩
  let y : Sent := ⟨x, isn⟩
  obtain ⟨heq, hitems⟩ := reqs_eq (segments y) { s with
    isn := isn
    tsend := s.tsend ++ [⟨pducnt x.data, 0, true⟩]
    sent := s.sent ++ [y] }
  have hnew : x.no ∉ s.sent.map fun z => z.item.no := by
    intro hmem
    obtain ⟨z, hz, hno⟩ := List.mem_map.mp hmem
    have hfin : z.item ∈ s.finished.map Prod.fst := by
      rw [← hq.sent]
      exact List.mem_map_of_mem hz
    obtain ⟨p, hp, hpz⟩ := List.mem_map.mp hfin
    exact hl.first_fresh p hp (by rw [hpz, hno])
  have hnone : resultsOf x.no s = [] := hl.answered x.no hnew
  rw [hisn, heq]
  refine ⟨⟨hl.holds, hl.kept, hl.numbered, ?_, ?_, ?_, hl.called, ?_⟩, ?_⟩
  · show (s.requests ++ segments y).filter Cmd.isCmgs = (s.sent ++ [y]).flatMap segments
    rw [List.filter_append, hl.commands, segments_isCmgs, List.flatMap_append,
      List.flatMap_singleton]
  · intro z hz
    obtain hz | hz := List.mem_append.mp hz
    · exact (hl.block z hz).trans (List.infix_append' [] s.requests (segments y))
    · rw [List.mem_singleton.mp hz]
      exact (List.suffix_append s.requests (segments y)).isInfix
  · intro p hp
    obtain ⟨z, hz, hrest⟩ := hl.verdict p hp
    exact ⟨z, List.mem_append_left _ hz, hrest⟩
  · intro n hn
    apply hl.answered n
    intro hmem
    apply hn
    rw [List.map_append]
    exact List.mem_append_left _ hmem
  · refine .flying Q s.sent y 0 rfl rfl hq.sent ?_ ?_ (pducnt_pos x.data) ?_ hr hm ht hc
    · show s.tsend ++ [⟨pducnt x.data, 0, true⟩] = [⟨pducnt x.data, 0, (resultsOf x.no s).all id⟩]
      rw [hq.tsend, hnone]
      rfl
    · show (resultsOf x.no s).length = 0
      rw [hnone]
      rfl
    · show (reqs (segments y) _).ril.items.filter Cmd.isCmgs = _
      rw [hitems, List.filter_append, segments_isCmgs]
      show outstanding s ++ segments y = _
      rw [hq.outstanding]
      rfl

/-- After a result the next message waits for the spacing timer. -/
theorem spacing_phase (b : Border Item) {Q : List Item} {s : State} (hh : Holds s.tsmsnd Q)
    (hq : Quiet s) (hr : s.ready = true) (hm : s.qmsg = []) (ht : s.sndtm = none)
    (hc : s.incb = false) : Phase (spacing b s) Q := by
  rw [spacing, hh.getn b]
  split
  · rename_i hpos
    refine .spacing ⟨hq.tsend, hq.outstanding, hq.sent⟩ hr hm (by simp) hc ?_
    rintro rfl
    exact absurd hpos (Nat.lt_irrefl 0)
  · rename_i hpos
    exact .idle hq hr hm ht hc (List.eq_nil_of_length_eq_zero (by omega))

theorem spacing_ledger (b : Border Item) {Q : List Item} {s : State} (h : Ledger Q s) :
    Ledger Q (spacing b s) := by
  rw [spacing]
  split
  · exact h.frame rfl rfl rfl ⟨[], (List.append_nil _).symm, rfl⟩ rfl rfl rfl
  · exact h

/-- A result finishes the message that has been transmitted. -/
theorem sendcnf_spec (b : Border Item) {rest : List Item} {prev : List Sent} {y : Sent}
    {s t : State} (hl : Ledger (y.item :: rest) s) (hs : s.sent = prev ++ [y])
    (hf : prev.map Sent.item = s.finished.map Prod.fst) (hts : s.tsend = [])
    (hn : (resultsOf y.item.no s).length = pducnt y.item.data) (ho : outstanding s = [])
    (hr : s.ready = true) (hm : s.qmsg = []) (ht : s.sndtm = none) (hc : s.incb = false)
    (h : sendcnf b ((resultsOf y.item.no s).all id) s = some t) : ∃ Q, Ledger Q t ∧ Phase t Q := by
  refine ⟨rest, ?_⟩
  rw [sendcnf, hl.holds.first, List.head?_cons, Option.map_some, Option.some.injEq] at h
  let v := (resultsOf y.item.no s).all id
  let u : State := { s with
    tsmsnd := removeFirst b s.tsmsnd, finished := s.finished ++ [(y.item, v)] }
  have hquiet : Quiet u := by
    refine ⟨hts, ho, ?_⟩
    show s.sent.map Sent.item = (s.finished ++ [(y.item, v)]).map Prod.fst
    rw [hs, List.map_append, List.map_append, hf]
    rfl
  have hbook (cbs : List (ℕ × Bool)) (c : Bool)
      (hcbs : cbs = s.cbs ++ if y.item.cb then [(y.item.no, v)] else []) :
      Ledger rest { u with cbs := cbs, incb := c } := by
    refine ⟨hl.holds.removeFirst b, ?_, hl.numbered, hl.commands, hl.block, ?_, ?_, hl.answered⟩
    · show ((s.finished ++ [(y.item, v)]).map Prod.fst ++ rest).Perm s.accepted
      rw [List.map_append, List.append_assoc]
      exact hl.kept
    · intro p hp
      obtain hp | hp := List.mem_append.mp hp
      · exact hl.verdict p hp
      · rw [List.mem_singleton.mp hp]
        refine ⟨y, ?_, rfl, hn.trans (length_segments y).symm, rfl⟩
        show y ∈ s.sent
        rw [hs]
        exact List.mem_append_right _ (List.mem_singleton_self y)
    · show cbs = ((s.finished ++ [(y.item, v)]).filter fun p => p.1.cb).map _
      rw [hcbs, hl.called, List.filter_append, List.map_append]
      cases hcb : y.item.cb <;> simp [hcb]
  by_cases hcb : y.item.cb = true
  · rw [if_pos hcb] at h
    rw [← h]
    exact ⟨hbook _ true (by rw [if_pos hcb]), .calling ⟨hts, ho, hquiet.sent⟩ hr hm ht rfl⟩
  · rw [if_neg hcb] at h
    rw [← h]
    have hbook' : Ledger rest u := hbook s.cbs s.incb (by rw [if_neg hcb, List.append_nil])
    exact ⟨spacing_ledger b hbook', spacing_phase b hbook'.holds hquiet hr hm ht hc⟩

/-- An answer to a segment. -/
def answer (n : ℕ) (success : Bool) (s : State) : State :=
  { s with results := s.results ++ [(n, success)] }

theorem resultsOf_answer_self (n : ℕ) (success : Bool) (s : State) :
    resultsOf n (answer n success s) = resultsOf n s ++ [success] := by
  simp [resultsOf, answer]

theorem resultsOf_answer_ne {m n : ℕ} (h : m ≠ n) (success : Bool) (s : State) :
    resultsOf m (answer n success s) = resultsOf m s := by
  simp [resultsOf, answer, Ne.symm h]

theorem answer_ledger {rest : List Item} {y : Sent} {s : State} (hl : Ledger (y.item :: rest) s)
    (hy : y ∈ s.sent) (success : Bool) :
    Ledger (y.item :: rest) (answer y.item.no success s) := by
  refine ⟨hl.holds, hl.kept, hl.numbered, hl.commands, hl.block, ?_, hl.called, ?_⟩
  · intro p hp
    rw [resultsOf_answer_ne (hl.first_fresh p hp)]
    exact hl.verdict p hp
  · intro n hn
    have hne : n ≠ y.item.no := by
      rintro rfl
      exact hn (List.mem_map_of_mem (f := fun x => x.item.no) hy)
    rw [resultsOf_answer_ne hne]
    exact hl.answered n hn

theorem segments_drop {y : Sent} {k : ℕ} {c : Cmd} {out : List Cmd}
    (h : (segments y).drop k = c :: out) :
    (∃ len pdu, c = .cmgs y.item.no len pdu) ∧ out = (segments y).drop (k + 1) := by
  have hk : k < (segments y).length := by
    by_contra hn
    rw [List.drop_eq_nil_of_le (by omega)] at h
    cases h
  rw [List.drop_eq_getElem_cons hk, List.cons.injEq] at h
  obtain ⟨i, -, hi⟩ := List.mem_map.mp (List.getElem_mem hk)
  exact ⟨⟨_, _, by rw [← h.1, ← hi]⟩, h.2.symm⟩

/-- The answer to a segment is booked for the message in flight, and the last one gives the
result. -/
theorem rsp_spec {Q : List Item} {no len : ℕ} {pdu : LuaString} {success : Bool} {s t : State}
    (hl : Ledger Q s) (hp : Phase s Q) (hcur : s.ril.current = some (.cmgs no len pdu))
    (h : rsp no success { s with ril := s.ril.finish } = some t) :
    Ledger Q t ∧ Phase t Q := by
  have hout : outstanding s = .cmgs no len pdu :: s.ril.finish.items.filter Cmd.isCmgs := by
    rw [outstanding, Fifo.items_eq_cons hcur]
    rfl
  have quiet (hq : Quiet s) : False := by
    rw [hq.outstanding] at hout
    cases hout
  cases hp with
  | dormant hq | starting hq | idle hq | spacing hq | calling hq => exact (quiet hq).elim
  | confirmed _ _ _ _ _ _ _ _ ho =>
      rw [ho] at hout
      cases hout
  | flying rest prev y k hQ hs hf hts hn hk ho hr hm ht hc =>
      subst hQ
      obtain ⟨⟨_, _, he⟩, hrest⟩ := segments_drop (ho.symm.trans hout)
      cases he
      have hy : y ∈ s.sent := by
        rw [hs]
        exact List.mem_append_right _ (List.mem_singleton_self y)
      have hall : (resultsOf y.item.no (answer y.item.no success s)).all id =
          (if success then (resultsOf y.item.no s).all id else false) := by
        rw [resultsOf_answer_self, List.all_append]
        cases success <;> simp
      have hlen : (resultsOf y.item.no (answer y.item.no success s)).length = k + 1 := by
        rw [resultsOf_answer_self, List.length_append, hn, List.length_singleton]
      -- the ledger does not see the queue, the commands in it and the messages
      have hbook (q : Fifo Cmd) (es : List Sending) (ms : List Msg) : Ledger (y.item :: rest)
          { answer y.item.no success s with ril := q, tsend := es, qmsg := ms } :=
        (answer_ledger hl hy success).frame rfl rfl rfl ⟨[], (List.append_nil _).symm, rfl⟩ rfl rfl
          rfl
      have hconf (hlast : k + 1 = pducnt y.item.data) : Phase
          { answer y.item.no success s with
            ril := s.ril.finish, tsend := []
            qmsg := [.SMS_SEND_CNF (if success then (resultsOf y.item.no s).all id else false)] }
          (y.item :: rest) := by
        refine .confirmed rest prev y rfl hs hf rfl (hlen.trans hlast) ?_ hr ?_ ht hc
        · show s.ril.finish.items.filter Cmd.isCmgs = []
          rw [hrest, List.drop_eq_nil_of_le]
          rw [length_segments]
          omega
        · show _ = [Msg.SMS_SEND_CNF ((resultsOf y.item.no (answer y.item.no success s)).all id)]
          rw [hall]
      simp only [rsp, hts] at h
      split at h
      · rename_i hone
        have hnil : resultsOf y.item.no s = [] := List.eq_nil_of_length_eq_zero (by omega)
        have hres : (if success then (resultsOf y.item.no s).all id else false) = success := by
          rw [hnil]
          cases success <;> rfl
        cases h
        rw [hres] at hconf
        rw [dispatch, hm]
        exact ⟨hbook _ _ _, hconf (by omega)⟩
      · split at h
        · rename_i hlast
          cases h
          rw [dispatch, hm]
          exact ⟨hbook _ _ _, hconf hlast.symm⟩
        · rename_i hmore
          cases h
          refine ⟨hbook _ _ _, .flying rest prev y (k + 1) rfl hs hf ?_ hlen ?_ hrest hr hm ht hc⟩
          · show [Sending.mk _ _ _] = [Sending.mk _ _
              ((resultsOf y.item.no (answer y.item.no success s)).all id)]
            rw [hall]
          · have hne : pducnt y.item.data ≠ k + 1 := hmore
            omega

/-! ## New messages -/

/-- A message has been transmitted and its result has not come back. -/
def InFlight (s : State) : Prop :=
  s.tsend ≠ [] ∨ .SMS_SEND_CNF true ∈ s.qmsg ∨ .SMS_SEND_CNF false ∈ s.qmsg

/-- The positions of the queue are asked for, the first one only while no message is in
flight. A callback, and everyone between the report and its message, sends only when other
messages are waiting. The modem reports itself ready once. -/
def Careful (s : State) : Act → Prop
  | .send b _ _ _ idx =>
      (∀ i ∈ idx, 1 ≤ i ∧ i ≤ b.getn s.tsmsnd + 1 ∧ (i = 1 → ¬ InFlight s)) ∧
        (s.incb = true ∨ .SMS_READY ∈ s.qmsg → b.getn s.tsmsnd ≠ 0)
  | .urc data => data = lua "SMS READY" → s.ready = false
  | _ => True

instance (s : State) : Decidable (InFlight s) := by
  unfold InFlight
  infer_instance

instance (s : State) : (a : Act) → Decidable (Careful s a)
  | .send _ _ _ _ _ => by
      unfold Careful
      infer_instance
  | .urc _ => by
      unfold Careful
      infer_instance
  | .request _ | .sendat | .respond _ | .msg _ | .timer _ | .ret _ => isTrue trivial

variable (encode : LuaString → LuaString)

/-- A message that is put into the queue is one more that waits. -/
theorem insert_ledger (b : Border Item) {Q : List Item} {s : State} (hl : Ledger Q s) {pos : ℕ}
    (h1 : 1 ≤ pos) (hle : pos ≤ Q.length + 1) {x : Item} (hx : x.no = s.accepted.length) :
    Ledger (Q.insertIdx (pos - 1) x)
      { s with tsmsnd := insert b pos x s.tsmsnd, accepted := s.accepted ++ [x] } := by
  refine ⟨hl.holds.insert b x h1 hle, ?_, ?_, hl.commands, hl.block, hl.verdict, hl.called,
    hl.answered⟩
  · show (s.finished.map Prod.fst ++ Q.insertIdx (pos - 1) x).Perm (s.accepted ++ [x])
    have hins := List.perm_insertIdx x Q (i := pos - 1) (by omega)
    have hmid := (hins.append_left (s.finished.map Prod.fst)).trans List.perm_middle
    exact (hmid.trans (hl.kept.cons x)).trans (List.perm_append_singleton x s.accepted).symm
  · show (s.accepted ++ [x]).map Item.no = List.range (s.accepted ++ [x]).length
    rw [List.map_append, hl.numbered, List.map_singleton, hx, List.length_append,
      List.length_singleton, List.range_succ]

/-- Behind the first position the first message stays where it is. -/
theorem insertIdx_first (y x : Item) (rest : List Item) {pos : ℕ} (h : 2 ≤ pos) :
    ∃ rest', (y :: rest).insertIdx (pos - 1) x = y :: rest' := by
  obtain ⟨j, rfl⟩ := Nat.exists_eq_add_of_le' h
  exact ⟨rest.insertIdx j x, rfl⟩

theorem waiting_phase (b : Border Item) {Q : List Item} {s : State} (hp : Phase s Q) {pos : ℕ}
    (x : Item) (hfirst : pos = 1 → ¬ InFlight s) (h1 : 1 ≤ pos) (hle : pos ≤ Q.length + 1)
    (hQ : Q ≠ []) : Phase
      { s with tsmsnd := insert b pos x s.tsmsnd, accepted := s.accepted ++ [x] }
      (Q.insertIdx (pos - 1) x) := by
  have quiet (h : Quiet s) : Quiet
      { s with tsmsnd := insert b pos x s.tsmsnd, accepted := s.accepted ++ [x] } :=
    ⟨h.tsend, h.outstanding, h.sent⟩
  cases hp with
  | dormant h1 h2 h3 h4 h5 => exact .dormant (quiet h1) h2 h3 h4 h5
  | starting h1 h2 h3 h4 h5 => exact .starting (quiet h1) h2 h3 h4 h5
  | idle _ _ _ _ _ h6 => exact absurd h6 hQ
  | spacing h1 h2 h3 h4 h5 h6 =>
      refine .spacing (quiet h1) h2 h3 h4 h5 ?_
      rw [← List.length_pos_iff, List.length_insertIdx]
      split <;> omega
  | calling h1 h2 h3 h4 h5 => exact .calling (quiet h1) h2 h3 h4 h5
  | flying rest prev y k h1 h2 h3 h4 h5 h6 h7 h8 h9 h10 h11 =>
      subst h1
      have hpos : 2 ≤ pos := by
        by_contra hn
        exact hfirst (by omega) (.inl (by rw [h4]; simp))
      obtain ⟨rest', hrest⟩ := insertIdx_first y.item x rest hpos
      exact .flying rest' prev y k hrest h2 h3 h4 h5 h6 h7 h8 h9 h10 h11
  | confirmed rest prev y h1 h2 h3 h4 h5 h6 h7 h8 h9 h10 =>
      subst h1
      have hpos : 2 ≤ pos := by
        by_contra hn
        apply hfirst (by omega)
        rw [InFlight, h8]
        cases (resultsOf y.item.no s).all id <;> simp
      obtain ⟨rest', hrest⟩ := insertIdx_first y.item x rest hpos
      exact .confirmed rest' prev y hrest h2 h3 h4 h5 h6 h7 h8 h9 h10

theorem send_spec (b : Border Item) (num data : LuaString) (cb : Bool) (idx : Option ℕ)
    {Q : List Item} {s : State} (hl : Ledger Q s) (hp : Phase s Q)
    (hc : Careful s (.send b num data cb idx)) :
    ∃ Q', Ledger Q' (send encode b num data cb idx s) ∧
      Phase (send encode b num data cb idx s) Q' := by
  obtain ⟨hidx, hbusy⟩ := hc
  rw [send]
  split
  · exact ⟨Q, hl, hp⟩
  split
  · exact ⟨Q, hl, hp⟩
  obtain ⟨pos, hpos⟩ : ∃ pos, pos = idx.getD (b.getn s.tsmsnd + 1) := ⟨_, rfl⟩
  have hb := hl.holds.getn b
  have hrange : 1 ≤ pos ∧ pos ≤ Q.length + 1 ∧ (pos = 1 → ¬ InFlight s ∨ Q = []) := by
    rw [← hb, hpos]
    cases idx with
    | none =>
        refine ⟨by simp, by simp, fun h1 => .inr (List.eq_nil_of_length_eq_zero ?_)⟩
        rw [Option.getD_none] at h1
        omega
    | some i =>
        obtain ⟨h1, h2, h3⟩ := hidx i rfl
        exact ⟨h1, h2, fun h => .inl (h3 h)⟩
  obtain ⟨h1, hle, hfree⟩ := hrange
  dsimp only
  rw [← hpos]
  let x : Item := ⟨num, binstohexs (encode data), cb, s.accepted.length⟩
  have hl' := insert_ledger b hl h1 hle (x := x) rfl
  refine ⟨Q.insertIdx (pos - 1) x, ?_⟩
  rw [hl'.holds.getn b]
  by_cases hQ : Q = []
  · subst hQ
    have hp1 : pos = 1 := by
      rw [List.length_nil] at hle
      omega
    subst hp1
    rw [show ([] : List Item).insertIdx (1 - 1) x = [x] from rfl] at hl' ⊢
    rw [if_pos (List.length_singleton)]
    have hempty : b.getn s.tsmsnd = 0 := hb
    cases hp with
    | dormant hq hr hm ht hc =>
        rw [transmit, if_neg (by simp [hr])]
        exact ⟨hl', .dormant ⟨hq.tsend, hq.outstanding, hq.sent⟩ hr hm ht hc⟩
    | starting _ _ hm => exact absurd hempty (hbusy (.inr (by rw [hm]; simp)))
    | idle hq hr hm ht hc =>
        exact transmit_spec hl' ⟨hq.tsend, hq.outstanding, hq.sent⟩ hr hm ht hc
    | spacing _ _ _ _ _ hne => exact absurd rfl hne
    | calling _ _ _ _ hc => exact absurd hempty (hbusy (.inl hc))
    | flying _ _ _ _ hne => cases hne
    | confirmed _ _ _ hne => cases hne
  · have hlen : (Q.insertIdx (pos - 1) x).length ≠ 1 := by
      have hpos := List.length_pos_iff.mpr hQ
      rw [List.length_insertIdx]
      split <;> omega
    rw [if_neg hlen]
    exact ⟨hl', waiting_phase b hp x (fun h => (hfree h).resolve_right hQ) h1 hle hQ⟩

/-! ## Steps and runs -/

theorem sndnxt_spec (b : Border Item) {Q : List Item} {s t : State} (hl : Ledger Q s)
    (hq : Quiet s) (hr : s.ready = true) (hm : s.qmsg = []) (ht : s.sndtm = none)
    (hc : s.incb = false) (h : sndnxt b s = some t) : Ledger Q t ∧ Phase t Q := by
  rw [sndnxt, hl.holds.getn b, hl.holds.first] at h
  cases Q with
  | nil =>
      cases h
      exact ⟨hl, .idle hq hr hm ht hc rfl⟩
  | cons x Q =>
      rw [if_pos (by simp), List.head?_cons, Option.map_some, Option.some.injEq] at h
      rw [← h]
      exact transmit_spec hl hq hr hm ht hc

/-- What the run keeps: the accounts, and a phase of the queue. -/
def Kept (s : State) : Prop := ∃ Q, Ledger Q s ∧ Phase s Q

theorem kept_boot : Kept boot := by
  refine ⟨[], ⟨holds_empty, List.Perm.nil, rfl, rfl, ?_, ?_, rfl, fun _ _ => rfl⟩,
    .dormant ⟨rfl, rfl, rfl⟩ rfl rfl rfl rfl⟩
  · rintro x ⟨⟩
  · rintro p ⟨⟩

theorem kept_step (s : State) (a : Act) (t : State) (hk : Kept s) (hc : Careful s a)
    (ht : step encode s a = some t) : Kept t := by
  obtain ⟨Q, hl, hp⟩ := hk
  cases a with
  | send b num data cb idx =>
      cases ht
      exact send_spec encode b num data cb idx hl hp hc
  | urc data =>
      obtain ⟨hcb, he⟩ := Option.ite_none_left_eq_some.mp ht
      cases he
      rw [urc]
      split
      · rename_i hready
        refine ⟨Q, hl.frame rfl rfl rfl ⟨_, List.append_assoc _ _ _, rfl⟩ rfl rfl rfl, ?_⟩
        have hnot := hc hready
        have hout : outstanding (req (.other (lua "AT+CSCS=\"UCS2\"")) (req (.other (lua "AT+CMGF=0"))
            { s with ready := true })) = outstanding s := by
          rw [outstanding_other, outstanding_other]
          rfl
        cases hp with
        | dormant hq hr hm htm hcb =>
            refine .starting ⟨hq.tsend, hout.trans hq.outstanding, hq.sent⟩ rfl ?_ htm hcb
            show s.qmsg ++ [Msg.SMS_READY] = _
            rw [hm]
            rfl
        | starting _ hr | idle _ hr | spacing _ hr | calling _ hr
          | flying _ _ _ _ _ _ _ _ _ _ _ hr | confirmed _ _ _ _ _ _ _ _ _ hr =>
            rw [hnot] at hr
            cases hr
      · exact ⟨Q, hl, hp⟩
  | request cmd =>
      cases ht
      exact ⟨Q, hl.frame rfl rfl rfl ⟨[.other cmd], rfl, rfl⟩ rfl rfl rfl,
        hp.frame _ (outstanding_other cmd s)⟩
  | sendat =>
      obtain ⟨q, hq, rfl⟩ := Option.map_eq_some_iff.mp ht
      have hitems : q.items = s.ril.items := by
        obtain he | ⟨c, hf, -⟩ := Fifo.start_cases hq
        · exact he
        · cases hf
      exact ⟨Q, hl.frame rfl rfl rfl ⟨[], (List.append_nil _).symm, rfl⟩ rfl rfl rfl,
        hp.frame s.requests (by rw [hitems]; rfl)⟩
  | respond success =>
      simp only [step] at ht
      split at ht
      · rename_i hcur
        obtain ⟨hl', hp'⟩ := rsp_spec hl hp hcur ht
        exact ⟨Q, hl', hp'⟩
      · rename_i hcur
        cases ht
        refine ⟨Q, hl.frame rfl rfl rfl ⟨[], (List.append_nil _).symm, rfl⟩ rfl rfl rfl,
          hp.frame s.requests ?_⟩
        rw [outstanding, Fifo.items_eq_cons hcur]
        rfl
      · cases ht
  | msg b =>
      simp only [step] at ht
      split at ht
      · rename_i result ms hcb hm
        cases hp with
        | dormant _ _ hm' | idle _ _ hm' | spacing _ _ hm' | calling _ _ hm'
          | flying _ _ _ _ _ _ _ _ _ _ _ _ hm' | starting _ _ hm' =>
            rw [hm] at hm'
            cases hm'
        | confirmed rest prev y hQ hs hf hts hn ho hr hm' htm hc' =>
            rw [hm] at hm'
            cases hm'
            subst hQ
            have hl' : Ledger (y.item :: rest) { s with qmsg := [] } :=
              hl.frame rfl rfl rfl ⟨[], (List.append_nil _).symm, rfl⟩ rfl rfl rfl
            exact sendcnf_spec b hl' hs hf hts hn ho hr rfl htm hc' ht
      · rename_i ms hcb hm
        cases hp with
        | dormant _ _ hm' | idle _ _ hm' | spacing _ _ hm' | calling _ _ hm'
          | flying _ _ _ _ _ _ _ _ _ _ _ _ hm' | confirmed _ _ _ _ _ _ _ _ _ _ hm' =>
            rw [hm] at hm'
            cases hm'
        | starting hq hr hm' htm hc' =>
            rw [hm] at hm'
            cases hm'
            have hl' : Ledger Q { s with qmsg := [] } :=
              hl.frame rfl rfl rfl ⟨[], (List.append_nil _).symm, rfl⟩ rfl rfl rfl
            exact ⟨Q, sndnxt_spec b hl' ⟨hq.tsend, hq.outstanding, hq.sent⟩ hr rfl htm hc' ht⟩
      · cases ht
  | timer b =>
      obtain ⟨⟨hcb, htm⟩, ht⟩ := Option.ite_none_right_eq_some.mp ht
      cases hp with
      | dormant _ _ _ hn | starting _ _ _ hn | idle _ _ _ hn | calling _ _ _ hn
        | flying _ _ _ _ _ _ _ _ _ _ _ _ _ hn | confirmed _ _ _ _ _ _ _ _ _ _ _ hn =>
          exact absurd hn htm
      | spacing hq hr hm _ hc' =>
          have hl' : Ledger Q { s with sndtm := none } :=
            hl.frame rfl rfl rfl ⟨[], (List.append_nil _).symm, rfl⟩ rfl rfl rfl
          exact ⟨Q, sndnxt_spec b hl' ⟨hq.tsend, hq.outstanding, hq.sent⟩ hr hm rfl hc' ht⟩
  | ret b =>
      obtain ⟨hcb, he⟩ := Option.ite_none_right_eq_some.mp ht
      cases he
      have hl' : Ledger Q { s with incb := false } :=
        hl.frame rfl rfl rfl ⟨[], (List.append_nil _).symm, rfl⟩ rfl rfl rfl
      cases hp with
      | dormant _ _ _ _ hn | starting _ _ _ _ hn | idle _ _ _ _ hn | spacing _ _ _ _ hn
        | flying _ _ _ _ _ _ _ _ _ _ _ _ _ _ hn | confirmed _ _ _ _ _ _ _ _ _ _ _ _ hn =>
          rw [hcb] at hn
          cases hn
      | calling hq hr hm htm _ =>
          exact ⟨Q, spacing_ledger b hl', spacing_phase b hl'.holds
            ⟨hq.tsend, hq.outstanding, hq.sent⟩ hr hm htm rfl⟩

/-- In a run whose steps are all careful every message is transmitted once, its callback is
called once with its own result, and none is forgotten. -/
theorem delivered_of_careful {acts : List Act} (h : Meets (step encode) Careful boot acts) :
    Along (step encode) Delivered boot acts := by
  apply Along.imp (P := Kept)
  · rintro s ⟨Q, hl, hp⟩
    exact delivered_of hl hp
  · exact along_of_meets (I := fun _ => True) (fun _ _ _ _ _ => trivial)
      (fun s a t _ hk hc ht => kept_step encode s a t hk hc ht) trivial kept_boot h

section Examples

/-- The conversion of plain text. -/
def ucs2be (s : LuaString) : LuaString := s.flatMap fun c => [0, c]

def sendLast (data : String) (idx : Option ℕ) : Act :=
  .send Border.last (lua "10086") (lua data) true idx

/-- The modem is ready, and what `urc` has asked of it is answered. -/
def started : List Act :=
  [.urc (lua "SMS READY"), .sendat, .respond true, .sendat, .respond true, .msg Border.last]

/-- Two messages, the second one taken while the first is in flight. -/
theorem delivered_pair : Along (step ucs2be) Delivered boot
    (started ++ [sendLast "a" none, .sendat, sendLast "b" none, .respond true, .msg Border.last,
      .ret Border.last, .timer Border.last, .sendat, .respond false, .msg Border.last]) :=
  delivered_of_careful ucs2be (by decide +kernel)

theorem not_delivered {s : State} {x y : Item} {xs ys : List Item}
    (hs : s.sent.map Sent.item = x :: xs) (hf : s.finished.map Prod.fst = y :: ys) (hne : x ≠ y) :
    ¬ Delivered s := by
  intro h
  obtain he | ⟨z, -, he⟩ := h.handed
  · rw [hs, hf, List.cons.injEq] at he
    exact hne he.1
  · rw [hs, hf, List.cons_append, List.cons.injEq] at he
    exact hne he.1

/-- The message `b` is put in front of `a`, which is in flight: the result of `a` goes to `b`. -/
theorem credited_wrongly : ∃ s, run (step ucs2be) boot
    (started ++ [sendLast "a" none, .sendat, sendLast "b" (some 1), .respond true,
      .msg Border.last]) = some s ∧ ¬ Delivered s := by
  have hrun : (run (step ucs2be) boot (started ++ [sendLast "a" none, .sendat,
      sendLast "b" (some 1), .respond true, .msg Border.last])).map
      (fun s => (s.sent.map Sent.item, s.finished.map Prod.fst)) =
      some ([⟨lua "10086", lua "0061", true, 0⟩], [⟨lua "10086", lua "0062", true, 1⟩]) := by
    decide +kernel
  obtain ⟨s, hs, he⟩ := Option.map_eq_some_iff.mp hrun
  obtain ⟨h1, h2⟩ := Prod.mk.injEq _ _ _ _ ▸ he
  exact ⟨s, hs, not_delivered h1 h2 (by decide)⟩

end Examples

end LuatAir200.SmsSend
