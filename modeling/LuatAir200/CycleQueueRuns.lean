import LuatAir200.BoundedFifo
import LuatAir200.CycleQueue

/-!
# Ring buffers that run over

A ring that has no room any more overwrites its oldest values, and its tail follows the head when
the insertion is over. What is inserted or deleted is copied between two arrays of a memory of
2 ^ 32 bytes, so no count that is returned is too large for an `int`.
-/
namespace LuatAir200.CycleQueue
open BoundedFifo

variable {α : Type*}

/-- The end of an insertion. -/
def settled (q : CycleQueue α) : CycleQueue α := if q.overflow then { q with tail := q.head } else q

/-- The unread cells of the ring are `xs`; if some have been overwritten, it is full. -/
structure Keeps (q : CycleQueue α) (xs : List α) : Prop extends Lies q xs where
  full : q.full = decide (xs.length = q.size)
  whole : q.overflow = true → xs.length = q.size

theorem Holds.keeps {q : CycleQueue α} {xs : List α} (h : Holds q xs) : Keeps q xs where
  toLies := h.toLies
  full := h.full
  whole ho := by
    rw [h.overflow] at ho
    cases ho

theorem Keeps.holds {q : CycleQueue α} {xs : List α} (h : Keeps q xs) (ho : q.overflow = false) :
    Holds q xs where
  toLies := h.toLies
  full := h.full
  overflow := ho

theorem Lies.head_lt {q : CycleQueue α} {xs : List α} (h : Lies q xs) : q.head < q.size := by
  have ht := h.tail_lt
  rw [h.head]
  apply Nat.mod_lt
  omega

/-- A full ring has its head where its tail is. -/
theorem Lies.head_tail {q : CycleQueue α} {xs : List α} (h : Lies q xs) (hl : xs.length = q.size) :
    q.head = q.tail := by
  rw [h.head, hl, Nat.add_mod_right, Nat.mod_eq_of_lt h.tail_lt]

theorem Keeps.settled {q : CycleQueue α} {xs : List α} (h : Keeps q xs) : q.settled = q := by
  unfold CycleQueue.settled
  split
  · rename_i ho
    exact congrArg (fun t => { q with tail := t }) (h.toLies.head_tail (h.whole ho))
  · rfl

/-! ## Insertion -/

/-- The tail of a ring that has run over does not matter to the loop. -/
theorem settled_insertOne {q : CycleQueue α} (hf : q.overflow = true → q.full = true) (b : α) :
    (q.insertOne b).settled = (q.settled.insertOne b).settled := by
  unfold CycleQueue.settled
  cases ho : q.overflow with
  | false => simp
  | true => simp [CycleQueue.insertOne, ho, hf ho]

theorem Keeps.insertOne_full {q : CycleQueue α} {xs : List α} (h : Keeps q xs)
    (hl : xs.length = q.size) (b : α) : Keeps (q.insertOne b).settled (xs.drop 1 ++ [b]) := by
  have hpos : 0 < q.size := by
    have ht := h.tail_lt
    omega
  have hht := h.toLies.head_tail hl
  have hfull : q.full = true := by rw [h.full, decide_eq_true hl]
  have hset : (q.insertOne b).settled = { q.insertOne b with tail := (q.head + 1) % q.size } := by
    simp [CycleQueue.settled, CycleQueue.insertOne, hfull, hht]
  have hlen : (xs.drop 1 ++ [b]).length = q.size := by
    rw [List.length_append, List.length_drop, List.length_singleton]
    omega
  rw [hset]
  constructor
  · constructor
    · exact hlen.le
    · exact Nat.mod_lt _ hpos
    · rw [hlen]
      simp [CycleQueue.insertOne]
    · intro i hi
      rw [hlen] at hi
      simp only [CycleQueue.insertOne, Nat.mod_add_mod]
      by_cases hx : i + 1 < q.size
      · have hne : (q.head + 1 + i) % q.size ≠ q.head := by
          intro he
          have hplace : (q.tail + (i + 1)) % q.size = q.tail := by
            rw [← hht, Nat.add_comm i 1, ← Nat.add_assoc]
            exact he
          have hz := wrap_eq_self h.tail_lt hx hplace
          omega
        have hcell : q.buf ((q.head + 1 + i) % q.size) = xs[i + 1] := by
          rw [← h.cells (i + 1) (by omega), hht, Nat.add_comm i 1, Nat.add_assoc]
        have hlt : i < (xs.drop 1).length := by
          rw [List.length_drop]
          omega
        rw [Function.update_of_ne hne, hcell, List.getElem_append_left hlt, List.getElem_drop]
        congr 1
        omega
      · have hi' : q.head + 1 + i = q.head + q.size := by omega
        rw [hi', Nat.add_mod_right, Nat.mod_eq_of_lt h.toLies.head_lt, Function.update_self,
          List.getElem_append_right (by rw [List.length_drop]; omega)]
        simp
    · simp [CycleQueue.insertOne]
  · rw [hlen]
    simp [CycleQueue.insertOne, hfull]
  · exact fun _ => hlen

theorem Keeps.insertOne {q : CycleQueue α} {xs : List α} (h : Keeps q.settled xs) (b : α) :
    Keeps (q.insertOne b).settled (BoundedFifo.insert q.size xs [b]) := by
  have hsize : q.settled.size = q.size := by
    unfold CycleQueue.settled
    split <;> rfl
  have hf : q.overflow = true → q.full = true := by
    intro ho
    have hso : q.settled.overflow = true := by
      unfold CycleQueue.settled
      rw [if_pos ho]
      exact ho
    have hfull := h.full
    rw [h.whole hso, decide_eq_true rfl] at hfull
    unfold CycleQueue.settled at hfull
    rwa [if_pos ho] at hfull
  rw [settled_insertOne hf]
  by_cases hl : xs.length = q.size
  · rw [insert_full hl (by have ht := h.tail_lt; omega)]
    exact h.insertOne_full (hl.trans hsize.symm) b
  · have hroom := h.room
    have hlt : xs.length < q.size := by omega
    have hover : q.settled.overflow = false := by
      apply Bool.eq_false_iff.mpr
      intro ho
      exact hl ((h.whole ho).trans hsize)
    have hk := ((h.holds hover).insertOne (by rwa [hsize]) b).keeps
    rw [insert_room hlt, hk.settled]
    exact hk

theorem settled_size (q : CycleQueue α) : q.settled.size = q.size := by
  unfold settled
  split <;> rfl

theorem Keeps.foldl_insertOne {q : CycleQueue α} {xs : List α} (h : Keeps q.settled xs) (data : List α) :
    Keeps (data.foldl CycleQueue.insertOne q).settled (BoundedFifo.insert q.size xs data) := by
  induction data generalizing q xs with
  | nil =>
      have hroom := h.room
      rw [settled_size] at hroom
      rwa [BoundedFifo.insert, List.append_nil, keep_of_le hroom]
  | cons b data ih =>
      have hb := ih (h.insertOne b)
      rwa [insertOne_size, insert_cons] at hb

/-- Insertion appends the data and keeps as many values as there are cells. -/
theorem Keeps.insert {q : CycleQueue α} {xs : List α} (h : Keeps q xs) (data : List α) :
    Keeps (q.insert data) (BoundedFifo.insert q.size xs data) := by
  have hs : Keeps q.settled xs := by rwa [h.settled]
  exact hs.foldl_insertOne data

/-! ## Deletion -/

/-- The deletion loop does not look at the flag `overflow`. -/
theorem deleteLoop_overflow (q : CycleQueue α) (o : Bool) (n : ℕ) :
    deleteLoop { q with overflow := o } n =
      ({ (q.deleteLoop n).1 with overflow := o }, (q.deleteLoop n).2) := by
  induction n generalizing q with
  | zero => rfl
  | succ n ih =>
      simp only [deleteLoop]
      split
      · rfl
      · rw [ih { q with tail := (q.tail + 1) % q.size }]

/-- Deletion takes the oldest values out, also of a ring that has run over. -/
theorem Keeps.delete {q : CycleQueue α} {xs : List α} (h : Keeps q xs) (n : ℕ) :
    (q.delete n).2 = xs.take n ∧ Keeps (q.delete n).1 (xs.drop n) := by
  have hk : Keeps { q with overflow := false } xs :=
    ⟨⟨h.room, h.tail_lt, h.head, h.cells, h.empty⟩, h.full, fun ho => by cases ho⟩
  obtain ⟨hout, hrest⟩ := (hk.holds rfl).delete n
  cases ho : q.overflow with
  | false =>
      have hq : { q with overflow := false } = q := congrArg (fun o => { q with overflow := o }) ho.symm
      rw [hq] at hout hrest
      exact ⟨hout, hrest.keeps⟩
  | true =>
      have hl := h.whole ho
      have ht := h.tail_lt
      have hfull : q.full = true := by rw [h.full, decide_eq_true hl]
      have hempty : q.empty = false := by
        rw [h.empty, List.isEmpty_eq_false_iff]
        exact List.ne_nil_of_length_pos (by omega)
      obtain ⟨hf, -⟩ := deleteLoop_flags q n
      cases n with
      | zero =>
          have hd : q.delete 0 = (q, []) := by simp [CycleQueue.delete, hempty, deleteLoop]
          rw [hd]
          exact ⟨rfl, h⟩
      | succ n =>
          have hsome : 0 < (q.deleteLoop (n + 1)).2.length := by
            simp only [deleteLoop]
            split <;> simp
          have hd : q.delete (n + 1) = { q with overflow := false }.delete (n + 1) := by
            rw [CycleQueue.delete, CycleQueue.delete]
            dsimp only
            rw [deleteLoop_overflow q false (n + 1)]
            simp only [hempty, Bool.false_eq_true, if_false, hf, hfull, hsome, and_self, if_true]
          rw [hd]
          exact ⟨hout, hrest.keeps⟩

/-! ## Runs -/

/-- The calls of `QueueInsert` and `QueueDelete`. -/
inductive Op (α : Type*)
  | insert (data : List α)
  | delete (len : ℕ)

/-- The ring after a call, and what is taken out. -/
def Op.run (q : CycleQueue α) : Op α → CycleQueue α × List α
  | .insert data => (q.insert data, [])
  | .delete len => q.delete len

/-- The same call on a list of at most `size` values. -/
def Op.fifo (size : ℕ) (xs : List α) : Op α → List α × List α
  | .insert data => (BoundedFifo.insert size xs data, [])
  | .delete len => (xs.drop len, xs.take len)

/-- The cells that the insertion loop writes. -/
def insertIndexes (q : CycleQueue α) : List α → List ℕ
  | [] => []
  | b :: data => q.head :: insertIndexes (q.insertOne b) data

/-- The cells that the deletion loop reads. -/
def deleteLoopIndexes (q : CycleQueue α) : ℕ → List ℕ
  | 0 => []
  | len + 1 =>
      let tail := (q.tail + 1) % q.size
      q.tail :: if tail = q.head then [] else deleteLoopIndexes { q with tail := tail } len

def Op.indexes (q : CycleQueue α) : Op α → List ℕ
  | .insert data => insertIndexes q data
  | .delete len => if q.empty then [] else deleteLoopIndexes q len

theorem insertIndexes_lt {q : CycleQueue α} {xs : List α} (h : Keeps q.settled xs) (data : List α) :
    ∀ i ∈ insertIndexes q data, i < q.size := by
  induction data generalizing q xs with
  | nil =>
      intro i hi
      cases hi
  | cons b data ih =>
      intro i hi
      rcases List.mem_cons.mp hi with rfl | hi
      · have hlt := h.toLies.head_lt
        rw [settled_size] at hlt
        unfold settled at hlt
        split at hlt <;> exact hlt
      · exact ih (h.insertOne b) i hi

theorem deleteLoopIndexes_lt {q : CycleQueue α} (ht : q.tail < q.size) (n : ℕ) :
    ∀ i ∈ deleteLoopIndexes q n, i < q.size := by
  induction n generalizing q with
  | zero =>
      intro i hi
      cases hi
  | succ n ih =>
      intro i hi
      simp only [deleteLoopIndexes] at hi
      rcases List.mem_cons.mp hi with rfl | hi
      · exact ht
      · split at hi
        · cases hi
        · apply @ih { q with tail := (q.tail + 1) % q.size } _ i hi
          apply Nat.mod_lt
          omega

/-- What can be seen of a ring agrees with a list: the flag `empty` before each call, the values
that are taken out and how many they are, and no cell is out of bounds. -/
def Agrees (q : CycleQueue α) (xs : List α) : List (Op α) → Prop
  | [] => xs.length ≤ q.size ∧ (q.empty = true ↔ xs = [])
  | op :: ops => xs.length ≤ q.size ∧ (q.empty = true ↔ xs = []) ∧
      (∀ i ∈ op.indexes q, i < q.size) ∧ (op.run q).2 = (op.fifo q.size xs).2 ∧
      Agrees (op.run q).1 (op.fifo q.size xs).1 ops

theorem Keeps.run {q : CycleQueue α} {xs : List α} (h : Keeps q xs) (op : Op α) :
    (∀ i ∈ op.indexes q, i < q.size) ∧ (op.run q).2 = (op.fifo q.size xs).2 ∧
    Keeps (op.run q).1 (op.fifo q.size xs).1 := by
  cases op with
  | insert data =>
      have hs : Keeps q.settled xs := by rwa [h.settled]
      exact ⟨insertIndexes_lt hs data, rfl, h.insert data⟩
  | delete len =>
      refine ⟨?_, h.delete len⟩
      intro i hi
      have hi : i ∈ if q.empty then [] else deleteLoopIndexes q len := hi
      split at hi
      · cases hi
      · exact deleteLoopIndexes_lt h.tail_lt len i hi

theorem Keeps.agrees {q : CycleQueue α} {xs : List α} (h : Keeps q xs) (ops : List (Op α)) :
    Agrees q xs ops := by
  have hempty : q.empty = true ↔ xs = [] := by rw [h.empty, List.isEmpty_iff]
  induction ops generalizing q xs with
  | nil => exact ⟨h.room, hempty⟩
  | cons op ops ih =>
      obtain ⟨hi, hout, hk⟩ := h.run op
      refine ⟨h.room, hempty, hi, hout, ih hk ?_⟩
      rw [hk.empty, List.isEmpty_iff]

/-- From a clean ring on, the two operations are those of a queue that drops its oldest values. -/
theorem ring_refines_fifo (q : CycleQueue α) (hsize : 1 ≤ q.size) (ops : List (Op α)) :
    Agrees q.clean [] ops :=
  (Holds.of_clean hsize).keeps.agrees ops

/-- A ring of three cells, whose flags have not been set yet. -/
def three : CycleQueue UInt8 := ⟨fun _ => 0, 3, 2, 1, false, true, true⟩

/-- It runs over twice. -/
theorem ring_refines_fifo_three : Agrees three.clean []
    [.insert [1, 2, 3, 4, 5, 6, 7], .delete 2, .insert [8], .delete 0, .insert [9, 10, 11, 12], .delete 9] :=
  ring_refines_fifo three (by decide) _

end LuatAir200.CycleQueue
