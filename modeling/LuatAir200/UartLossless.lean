import LuatAir200.UartModel
import Mathlib.Tactic.Cases

/-!
# No byte is lost

The bytes read so far, those in the staging buffer and those in the ring are together
what came in, as long as the ring never runs over. On the virtual AT port a ring that is
not empty always has a receive message on its way or its reader in the loop. On a
physical port this fails for a block of exactly 256 bytes, whose length is taken for zero.
-/
namespace LuatAir200.Uart
open Machine

/-! ## Staging -/

/-- The staging buffer still has the bytes `xs`, and the ring behind it has `ys`. -/
structure Staged.Holds (s : Staged) (xs ys : List UInt8) : Prop where
  ring : s.rxqueue.Holds ys
  size : s.readindex + xs.length = s.readsize
  cells : ∀ i (h : i < xs.length), s.readbuf (s.readindex + i) = xs[i]

theorem Staged.holds_staged {size : ℕ} (h : 0 < size) : (staged size).Holds [] [] where
  ring := CycleQueue.Holds.of_clean (q := Uart.ring size) h
  size := rfl
  cells := fun i hi => absurd hi (Nat.not_lt_zero i)

theorem Staged.Holds.insert {s : Staged} {xs ys : List UInt8} (h : s.Holds xs ys)
    {data : List UInt8} (hn : ys.length + data.length ≤ s.rxqueue.size) :
    Staged.Holds { s with rxqueue := s.rxqueue.insert data } xs (ys ++ data) :=
  ⟨h.ring.insert hn, h.size, h.cells⟩

theorem Staged.Holds.eq_nil_iff {s : Staged} {xs ys : List UInt8} (h : s.Holds xs ys) :
    s.readsize ≤ s.readindex ↔ xs = [] := by
  have := h.size
  rw [← List.length_eq_zero_iff]
  omega

theorem Staged.Holds.refill {s : Staged} {ys : List UInt8} (h : s.Holds [] ys) {n width : ℕ}
    (hn : n < width) : (refill n width s).Holds (ys.take n) (ys.drop n) := by
  obtain ⟨hout, hring⟩ := h.ring.delete n
  refine ⟨hring, ?_, fun i hi => ?_⟩
  · have : (ys.take n).length ≤ n := by simp
    simp only [Uart.refill, hout]
    rw [Nat.mod_eq_of_lt (by omega)]
    omega
  · simp [Uart.refill, hout, fill, List.getElem?_eq_getElem hi]

theorem Staged.Holds.readsize_refill {s : Staged} {ys : List UInt8} (h : s.Holds [] ys)
    {n width : ℕ} (h0 : 0 < n) (hn : n < width) : (Uart.refill n width s).readsize = 0 ↔ ys = [] := by
  have hs := (h.refill hn).size
  have hi : (Uart.refill n width s).readindex = 0 := rfl
  rw [hi, Nat.zero_add] at hs
  rw [← hs, List.length_take, ← List.length_eq_zero_iff]
  omega

@[simp] theorem take_rxqueue (width : ℕ) (s : Staged) :
    (Uart.take width s).2.rxqueue = s.rxqueue := rfl

theorem Staged.Holds.take {s : Staged} {x : UInt8} {xs ys : List UInt8} (h : s.Holds (x :: xs) ys)
    {width : ℕ} (hw : s.readsize < width) :
    (Uart.take width s).1 = x ∧ (Uart.take width s).2.Holds xs ys := by
  have hs := h.size
  simp only [List.length_cons] at hs
  have hi : (s.readindex + 1) % width = s.readindex + 1 := Nat.mod_eq_of_lt (by omega)
  refine ⟨?_, h.ring, ?_, fun i hlt => ?_⟩
  · have := h.cells 0 (by simp)
    simp only [Nat.add_zero, List.getElem_cons_zero] at this
    exact this
  · simp only [Uart.take, hi]
    omega
  · have := h.cells (i + 1) (by simpa using hlt)
    simp only [List.getElem_cons_succ] at this
    simp only [Uart.take, hi]
    rw [← this]
    congr 1
    omega

/-! ## The virtual AT port -/

/-- The data fits into what the ring has left. -/
def Vatc.Fits (s : Vatc) : VatcAct → Prop
  | .receive data => s.io.rxqueue.unread + data.length ≤ VATC_RX_BUF_SIZE
  | _ => True

instance (s : Vatc) : (a : VatcAct) → Decidable (s.Fits a)
  | .receive data =>
      inferInstanceAs (Decidable (s.io.rxqueue.unread + data.length ≤ VATC_RX_BUF_SIZE))
  | .post => .isTrue trivial
  | .wake => .isTrue trivial
  | .recv => .isTrue trivial

/-- A receive message is queued or about to be posted, or the reader is in its loop. -/
def Vatc.Woken (s : Vatc) : Prop := 0 < s.queued ∨ 0 < s.posting ∨ s.line ≠ none

/-- What has been read is the start of what came in, and unread bytes will be read. -/
structure Vatc.Safe (s : Vatc) : Prop where
  order : s.lines.flatten <+: s.received
  woken : s.io.rxqueue.empty = false → s.Woken

/-- `xs` is in the staging buffer and `ys` in the ring. -/
structure Vatc.Inv (s : Vatc) (xs ys : List UInt8) : Prop where
  holds : s.io.Holds xs ys
  size : s.io.rxqueue.size = VATC_RX_BUF_SIZE
  staging : s.io.readsize ≤ VATC_READ_BUF_SIZE
  received : s.lines.flatten ++ s.line.getD [] ++ xs ++ ys = s.received
  idle : s.line = none → xs = []
  woken : ys ≠ [] → s.Woken

theorem Vatc.Inv.safe {s : Vatc} {xs ys : List UInt8} (h : s.Inv xs ys) : s.Safe where
  order := by
    rw [← h.received, List.append_assoc, List.append_assoc]
    apply List.prefix_append
  woken := by
    intro he
    apply h.woken
    rw [h.holds.ring.empty] at he
    simpa using he

theorem Vatc.inv_init : Vatc.init.Inv [] [] where
  holds := Staged.holds_staged (by decide)
  size := rfl
  staging := Nat.zero_le _
  received := rfl
  idle := fun _ => rfl
  woken := fun h => absurd rfl h

theorem Vatc.Inv.receiveData {s : Vatc} {xs ys : List UInt8} (h : s.Inv xs ys) {data : List UInt8}
    (hf : s.Fits (.receive data)) : (Uart.receiveData data s).Inv xs (ys ++ data) := by
  have hroom : ys.length + data.length ≤ s.io.rxqueue.size := by
    rw [h.size, ← h.holds.ring.unread]
    exact hf
  refine ⟨h.holds.insert hroom, ?_, h.staging, ?_, h.idle, fun _ => ?_⟩
  · simpa [Uart.receiveData] using h.size
  · have := h.received
    simp only [Uart.receiveData]
    rw [← this]
    simp
  · cases ys with
    | nil =>
        -- the ring was empty, so this call posts a message
        have he : s.io.rxqueue.empty = true := h.holds.ring.empty
        right
        left
        simp [Uart.receiveData, he]
    | cons y ys =>
        have he : s.io.rxqueue.empty = false := h.holds.ring.empty
        simpa [Vatc.Woken, Uart.receiveData, he] using h.woken (by simp)

theorem Vatc.Inv.endLine {s : Vatc} {xs ys l : List UInt8} (h : s.Inv xs ys)
    (hl : s.line = some l) (hn : l = [] → xs = [] ∧ ys = []) : (Uart.endLine l s).Inv xs ys := by
  have hr := h.received
  rw [hl, Option.getD_some] at hr
  unfold Uart.endLine
  split
  case isTrue he =>
    subst he
    obtain ⟨rfl, rfl⟩ := hn rfl
    exact ⟨h.holds, h.size, h.staging, hr, fun _ => rfl, fun hy => absurd rfl hy⟩
  case isFalse he =>
    refine ⟨h.holds, h.size, h.staging, ?_, nofun, fun _ => .inr (.inr (by simp))⟩
    simpa using hr

theorem Vatc.Inv.recv {s : Vatc} {xs ys l : List UInt8} (h : s.Inv xs ys)
    (hl : s.line = some l) : ∃ xs' ys', (Uart.recv l s).Inv xs' ys' := by
  have hr := h.received
  have hin : ∀ {t : Vatc}, t.line = some l → t.Woken := fun ht => .inr (.inr (by simp [ht]))
  rw [hl, Option.getD_some] at hr
  unfold Uart.recv
  split
  case isTrue hi =>
    obtain rfl := h.holds.eq_nil_iff.mp hi
    have hw : VATC_READ_BUF_SIZE < 65536 := by decide
    have hio : Vatc.Inv { s with io := refill VATC_READ_BUF_SIZE 65536 s.io }
        (ys.take VATC_READ_BUF_SIZE) (ys.drop VATC_READ_BUF_SIZE) := by
      refine ⟨h.holds.refill hw, ?_, ?_, ?_, ?_, fun _ => hin hl⟩
      · exact (CycleQueue.delete_size _ _).trans h.size
      · have := (h.holds.refill hw).size
        simp only [List.length_take] at this
        simp only [refill] at this ⊢
        omega
      · simpa [hl] using hr
      · simp [hl]
    refine ⟨ys.take VATC_READ_BUF_SIZE, ys.drop VATC_READ_BUF_SIZE, ?_⟩
    simp only
    split
    case isTrue hz =>
      have hy := (h.holds.readsize_refill (by decide) hw).mp hz
      exact hio.endLine hl fun _ => by simp [hy]
    case isFalse hz => exact hio
  case isFalse hi =>
    rw [h.holds.eq_nil_iff] at hi
    obtain ⟨x, xs, rfl⟩ := List.exists_cons_of_ne_nil hi
    have hw : s.io.readsize < 65536 := by
      have := h.staging
      have : VATC_READ_BUF_SIZE = 512 := rfl
      omega
    obtain ⟨hx, ht⟩ := h.holds.take hw
    have hio : Vatc.Inv { s with io := (take 65536 s.io).2, line := some (l ++ [x]) } xs ys := by
      refine ⟨ht, h.size, h.staging, ?_, nofun, fun _ => .inr (.inr (by simp))⟩
      simpa using hr
    refine ⟨xs, ys, ?_⟩
    simp only [hx]
    split
    case isTrue hc =>
      have := hio.endLine rfl (by simp)
      simpa [Uart.endLine] using this
    case isFalse hc => exact hio

theorem Vatc.Inv.step {s t : Vatc} {a : VatcAct} {xs ys : List UInt8} (h : s.Inv xs ys)
    (hf : s.Fits a) (ht : s.step a = some t) : ∃ xs' ys', t.Inv xs' ys' := by
  cases a with
  | receive data =>
      cases ht
      exact ⟨_, _, h.receiveData hf⟩
  | post =>
      simp only [Vatc.step, Option.ite_none_right_eq_some, Option.some.injEq] at ht
      obtain ⟨-, rfl⟩ := ht
      refine ⟨xs, ys, h.holds, h.size, h.staging, h.received, h.idle, fun _ => .inl ?_⟩
      simp
  | wake =>
      simp only [Vatc.step, Option.ite_none_right_eq_some, Option.some.injEq] at ht
      obtain ⟨⟨-, hl⟩, rfl⟩ := ht
      refine ⟨xs, ys, h.holds, h.size, h.staging, ?_, nofun, fun _ => .inr (.inr (by simp))⟩
      simpa [hl] using h.received
  | recv =>
      simp only [Vatc.step, Option.map_eq_some_iff] at ht
      obtain ⟨l, hl, rfl⟩ := ht
      exact h.recv hl

/-- With no receive message under way and the reader out of its loop, all that came in has
been read. -/
theorem Vatc.Inv.quiet {s : Vatc} {xs ys : List UInt8} (h : s.Inv xs ys) (hw : ¬s.Woken) :
    s.lines.flatten = s.received := by
  have hl : s.line = none := by
    by_contra hne
    apply hw
    exact .inr (.inr hne)
  have hy : ys = [] := by
    by_contra hne
    apply hw
    exact h.woken hne
  simpa [hl, h.idle hl, hy] using h.received

theorem vatc_inv {as : List VatcAct} (hf : Meets Vatc.step Vatc.Fits Vatc.init as) :
    Along Vatc.step (fun s => ∃ xs ys, s.Inv xs ys) Vatc.init as := by
  apply along_of_meets (I := fun _ => True) _ _ trivial ⟨[], [], Vatc.inv_init⟩ hf
  · exact fun _ _ _ _ _ => trivial
  · rintro s a t - ⟨xs, ys, h⟩ hfit ht
    exact h.step hfit ht

theorem vatc_quiet_read {as : List VatcAct} (hf : Meets Vatc.step Vatc.Fits Vatc.init as) :
    Along Vatc.step (fun s => ¬s.Woken → s.lines.flatten = s.received) Vatc.init as := by
  apply (vatc_inv hf).imp
  rintro s ⟨xs, ys, h⟩
  exact h.quiet

/-! ## A physical port -/

/-- The data fits into what the ring has left. -/
def Phy.Fits (s : Phy) : PhyAct → Prop
  | .receive data => s.context.rxqueue.unread + data.length ≤ UART_RX_BUF_SIZE
  | .read _ _ => True

instance (s : Phy) : (a : PhyAct) → Decidable (s.Fits a)
  | .receive data =>
      inferInstanceAs (Decidable (s.context.rxqueue.unread + data.length ≤ UART_RX_BUF_SIZE))
  | .read _ _ => .isTrue trivial

/-- What has been read is the start of what was delivered, and each event that found the
ring empty has posted a message. -/
structure Phy.Safe (s : Phy) : Prop where
  order : s.returned <+: s.delivered
  posts : ∀ e ∈ s.events, e.1 = true → e.2 = true

/-- The driver delivers between one byte and a full buffer. -/
def Delivers : PhyAct → Prop
  | .receive data => 1 ≤ data.length ∧ data.length ≤ RX_BUFFER_SIZE
  | .read _ _ => True

/-- The number of bytes does not become zero in a `uint8`. -/
def Partial : PhyAct → Prop
  | .receive data => data.length ≠ 256
  | .read _ _ => True

structure Phy.Inv (s : Phy) (xs ys : List UInt8) : Prop where
  opened : s.opened = true
  workmode : s.workmode ≠ 1
  holds : s.context.Holds xs ys
  size : s.context.rxqueue.size = UART_RX_BUF_SIZE
  staging : s.context.readsize ≤ READ_BUFFER_SIZE
  delivered : s.returned ++ xs ++ ys = s.delivered
  posts : ∀ e ∈ s.events, e.1 = true → e.2 = true

theorem Phy.Inv.safe {s : Phy} {xs ys : List UInt8} (h : s.Inv xs ys) : s.Safe where
  order := by
    rw [← h.delivered, List.append_assoc]
    apply List.prefix_append
  posts := h.posts

theorem Phy.inv_init {workmode : ℕ} (h : workmode ≠ 1) : (Phy.init workmode).Inv [] [] where
  opened := rfl
  workmode := h
  holds := Staged.holds_staged (by decide)
  size := rfl
  staging := Nat.zero_le _
  delivered := rfl
  posts := nofun

theorem Phy.Inv.receive {s : Phy} {xs ys : List UInt8} (h : s.Inv xs ys) {data : List UInt8}
    (hf : s.Fits (.receive data)) (hd : Delivers (.receive data)) (hp : Partial (.receive data)) :
    (uart_message_handle data s).Inv xs (ys ++ data) := by
  have hroom : ys.length + data.length ≤ s.context.rxqueue.size := by
    rw [h.size, ← h.holds.ring.unread]
    exact hf
  have hl : data.length % 256 = data.length := by
    have : data.length ≤ 256 := hd.2
    have : data.length ≠ 256 := hp
    omega
  have h0 : data.length ≠ 0 := by
    have : 1 ≤ data.length := hd.1
    omega
  unfold uart_message_handle
  simp only [hl, ne_eq, h0, not_false_eq_true, if_true, List.take_length]
  refine ⟨h.opened, h.workmode, h.holds.insert hroom, ?_, h.staging, ?_, fun e he => ?_⟩
  · simpa using h.size
  · rw [← h.delivered]
    simp
  · obtain he | he := List.mem_append.mp he
    · exact h.posts e he
    · rw [List.mem_singleton.mp he]
      exact id

/-- A read that gives `r.1` and leaves `r.2` has taken the start of the bytes `all`. -/
def Staged.Reads (size : ℕ) (all : List UInt8) (r : List UInt8 × Staged) : Prop :=
  ∃ xs ys, r.2.Holds xs ys ∧ r.1 ++ xs ++ ys = all ∧ r.2.readsize ≤ READ_BUFFER_SIZE ∧
    r.2.rxqueue.size = size

theorem Staged.Reads.cons {size : ℕ} {all : List UInt8} {r : List UInt8 × Staged}
    (h : Staged.Reads size all r) (b : UInt8) : Staged.Reads size (b :: all) (b :: r.1, r.2) := by
  obtain ⟨xs, ys, hh, hout, hs, hq⟩ := h
  exact ⟨xs, ys, hh, by simp [← hout], hs, hq⟩

/-- The loop of `uart_phy_read` takes bytes in order. -/
theorem Staged.Holds.readLoop {s : Staged} {xs ys : List UInt8} (h : s.Holds xs ys)
    (hs : s.readsize ≤ READ_BUFFER_SIZE) (n : ℕ) :
    Staged.Reads s.rxqueue.size (xs ++ ys) (Uart.readLoop n s) := by
  have hw : READ_BUFFER_SIZE < 256 := by decide
  induction n generalizing s xs ys with
  | zero => exact ⟨xs, ys, h, rfl, hs, rfl⟩
  | succ n ih =>
      unfold Uart.readLoop
      split
      case isTrue hi =>
        obtain rfl := h.eq_nil_iff.mp hi
        have hr := h.refill hw
        have hsize : (Uart.refill READ_BUFFER_SIZE 256 s).readsize ≤ READ_BUFFER_SIZE := by
          have := hr.size
          simp only [List.length_take] at this
          simp only [Uart.refill] at this ⊢
          omega
        have hq : (Uart.refill READ_BUFFER_SIZE 256 s).rxqueue.size = s.rxqueue.size :=
          CycleQueue.delete_size _ _
        have hz := h.readsize_refill (by decide) hw
        simp only
        split
        case isTrue he =>
          obtain rfl := hz.mp he
          exact ⟨_, _, hr, by simp, hsize, hq⟩
        case isFalse he =>
          obtain ⟨x, xs, hx⟩ : ∃ x xs, ys.take READ_BUFFER_SIZE = x :: xs := by
            apply List.exists_cons_of_ne_nil
            intro hn
            apply he
            rw [hz]
            simpa [READ_BUFFER_SIZE] using hn
          rw [hx] at hr
          obtain ⟨hb, ht⟩ := hr.take (show _ < 256 by omega)
          have hl := (ih ht hsize).cons x
          rw [← List.cons_append, ← hx, List.take_append_drop] at hl
          simpa only [hb, ← hq, List.nil_append, take_rxqueue] using hl
      case isFalse hi =>
        rw [h.eq_nil_iff] at hi
        obtain ⟨x, xs, rfl⟩ := List.exists_cons_of_ne_nil hi
        obtain ⟨hb, ht⟩ := h.take (show _ < 256 by omega)
        simpa only [hb, List.cons_append, take_rxqueue] using (ih ht hs).cons x

theorem Phy.Inv.read {s : Phy} {xs ys : List UInt8} (h : s.Inv xs ys) (length : ℕ)
    (driver : List UInt8) {t : Phy} (ht : s.step (.read length driver) = some t) :
    ∃ xs' ys', t.Inv xs' ys' := by
  have hread : uart_phy_read length driver s = Uart.readLoop length s.context := by
    simp [uart_phy_read, h.opened, h.workmode]
  cases ht
  obtain ⟨xs', ys', hh, hout, hsize, hq⟩ := h.holds.readLoop h.staging length
  rw [hread]
  refine ⟨xs', ys', h.opened, h.workmode, hh, hq.trans h.size, hsize, ?_, h.posts⟩
  rw [← h.delivered]
  simpa using hout

theorem Phy.Inv.step {s t : Phy} {a : PhyAct} {xs ys : List UInt8} (h : s.Inv xs ys)
    (hf : s.Fits a) (hd : Delivers a) (hp : Partial a) (ht : s.step a = some t) :
    ∃ xs' ys', t.Inv xs' ys' := by
  cases a with
  | receive data =>
      cases ht
      exact ⟨_, _, h.receive hf hd hp⟩
  | read length driver => exact h.read length driver ht

/-- A block of 256 bytes leaves no trace but in what the driver delivered. -/
theorem full_block_lost (s : Phy) {data : List UInt8} (hd : data.length = 256) :
    uart_message_handle data s =
      { s with
        events := s.events ++ [(s.context.rxqueue.empty, false)]
        delivered := s.delivered ++ data } := by
  simp [uart_message_handle, hd]

/-- As long as no block has exactly 256 bytes, no byte is lost and no message is missing;
a block of 256 bytes that finds the ring empty is not announced. -/
theorem phy_lossless {workmode : ℕ} {as : List PhyAct} (hw : workmode ≠ 1)
    (hd : ∀ a ∈ as, Delivers a) (hf : Meets Phy.step Phy.Fits (Phy.init workmode) as)
    (hp : ∀ a ∈ as, Partial a) :
    Along Phy.step Phy.Safe (Phy.init workmode) as ∧
      ∀ s data, run Phy.step (Phy.init workmode) as = some s → s.context.rxqueue.empty = true →
        data.length = 256 → ¬(uart_message_handle data s).Safe := by
  constructor
  · have hdel : Meets Phy.step (fun _ a => Delivers a) (Phy.init workmode) as :=
      meets_of_forall (fun a ha _ => hd a ha) _
    have hpart : Meets Phy.step (fun _ a => Partial a) (Phy.init workmode) as :=
      meets_of_forall (fun a ha _ => hp a ha) _
    have hm := (hf.and hdel).and hpart
    have hinv : Along Phy.step (fun s => ∃ xs ys, s.Inv xs ys) (Phy.init workmode) as := by
      apply along_of_meets (I := fun _ => True) _ _ trivial ⟨[], [], Phy.inv_init hw⟩ hm
      · exact fun _ _ _ _ _ => trivial
      · rintro s a t - ⟨xs, ys, h⟩ ⟨⟨hfit, hdel⟩, hpart⟩ ht
        exact h.step hfit hdel hpart ht
    apply hinv.imp
    rintro s ⟨xs, ys, h⟩
    exact h.safe
  · intro s data hr he hlen hsafe
    rw [full_block_lost s hlen] at hsafe
    have := hsafe.posts (true, false) (by simp [he]) rfl
    cases this

theorem phy_lossless_blocks :
    Along Phy.step Phy.Safe (Phy.init 0)
      [.receive [65, 66, 67], .read 2 [], .receive [68], .read 300 []] :=
  (phy_lossless (by decide) (by simp [Delivers, RX_BUFFER_SIZE]) (by decide +kernel)
    (by simp [Partial])).1

/-- A full buffer vanishes, and what comes after it is read in its place. -/
theorem phy_block_vanishes :
    let as : List PhyAct := [.receive (List.replicate 256 65), .receive [66], .read 1 []]
    (∀ a ∈ as, Delivers a) ∧ Meets Phy.step Phy.Fits (Phy.init 0) as ∧
      ¬Along Phy.step Phy.Safe (Phy.init 0) as := by
  refine ⟨fun a ha => ?_, by decide +kernel, fun h => ?_⟩
  · have hl : (List.replicate 256 (65 : UInt8)).length = 256 := List.length_replicate
    simp only [List.mem_cons, List.not_mem_nil, or_false] at ha
    obtain rfl | rfl | rfl := ha
    · exact ⟨by omega, hl.le⟩
    · exact ⟨by decide, by decide⟩
    · trivial
  have hread := (((h.2 _ rfl).2 _ rfl).2 _ rfl).order
  revert hread
  decide +kernel

end LuatAir200.Uart
