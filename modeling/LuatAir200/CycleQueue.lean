import Mathlib.Data.List.TakeDrop
import Mathlib.Data.Nat.ModEq
import Mathlib.Logic.Function.Basic
import Mathlib.Tactic.SplitIfs

/-!
# Ring buffers

A ring of `size` cells with its head, its tail and three flags, where insertion
runs on over unread cells and deletion stops at the head. `Holds q xs` says that
the unread cells of the ring are `xs`, in order; as long as the ring has room,
the two operations are those of a queue of values.
-/
namespace LuatAir200

/-- The cells and indices of a ring; `head` is the next cell to write. -/
structure CycleQueue (α : Type*) where
  buf : ℕ → α
  size : ℕ
  head : ℕ
  tail : ℕ
  empty : Bool
  full : Bool
  overflow : Bool

namespace CycleQueue

variable {α : Type*}

def clean (q : CycleQueue α) : CycleQueue α :=
  { q with head := 0, tail := 0, empty := true, full := false, overflow := false }

/-- One round of the insertion loop. -/
def insertOne (q : CycleQueue α) (b : α) : CycleQueue α :=
  let head := (q.head + 1) % q.size
  { q with
    buf := Function.update q.buf q.head b
    overflow := q.overflow || (q.full && q.head == q.tail)
    head := head
    full := q.full || head == q.tail
    empty := false }

def insert (q : CycleQueue α) (data : List α) : CycleQueue α :=
  let q := data.foldl insertOne q
  if q.overflow then { q with tail := q.head } else q

/-- The deletion loop: at most `len` cells, up to the head. -/
def deleteLoop (q : CycleQueue α) : ℕ → CycleQueue α × List α
  | 0 => (q, [])
  | len + 1 =>
      let tail := (q.tail + 1) % q.size
      if tail = q.head then ({ q with tail := tail, empty := true }, [q.buf q.tail])
      else
        let r := deleteLoop { q with tail := tail } len
        (r.1, q.buf q.tail :: r.2)

def delete (q : CycleQueue α) (len : ℕ) : CycleQueue α × List α :=
  let r := if q.empty then (q, []) else deleteLoop q len
  if 0 < r.2.length ∧ r.1.full = true then
    ({ r.1 with full := false, overflow := false }, r.2)
  else r

/-- The number of unread cells, read off the indices. -/
def unread (q : CycleQueue α) : ℕ :=
  if q.empty then 0
  else if q.tail < q.head then q.head - q.tail
  else q.head + q.size - q.tail

/-- The cells from the tail to the head are `xs`, whatever the flag `full` says. -/
structure Lies (q : CycleQueue α) (xs : List α) : Prop where
  room : xs.length ≤ q.size
  tail_lt : q.tail < q.size
  head : q.head = (q.tail + xs.length) % q.size
  cells : ∀ i (h : i < xs.length), q.buf ((q.tail + i) % q.size) = xs[i]
  empty : q.empty = xs.isEmpty

/-- The ring holds the unread values `xs` and none has been overwritten. -/
structure Holds (q : CycleQueue α) (xs : List α) : Prop extends Lies q xs where
  full : q.full = decide (xs.length = q.size)
  overflow : q.overflow = false

/-- Two cells of a ring at the same distance below its size are the same cell. -/
theorem wrap_inj {size t i j : ℕ} (hi : i < size) (hj : j < size)
    (h : (t + i) % size = (t + j) % size) : i = j := by
  apply Nat.ModEq.eq_of_lt_of_lt _ hi hj
  exact Nat.ModEq.add_left_cancel' t h

theorem wrap_eq_self {size t i : ℕ} (ht : t < size) (hi : i < size)
    (h : (t + i) % size = t) : i = 0 := by
  apply wrap_inj (t := t) hi (by omega)
  rw [h, Nat.add_zero, Nat.mod_eq_of_lt ht]

/-- The head meets the tail exactly when the last free cell is written. -/
theorem wrap_eq_iff {size t n : ℕ} (ht : t < size) (hn : n < size) :
    (t + (n + 1)) % size = t ↔ n + 1 = size := by
  constructor
  · intro h
    by_contra hne
    have := wrap_eq_self ht (by omega : n + 1 < size) h
    omega
  · intro h
    rw [h, Nat.add_mod_right, Nat.mod_eq_of_lt ht]

theorem Holds.of_clean {q : CycleQueue α} (h : 0 < q.size) : Holds q.clean [] where
  room := Nat.zero_le _
  tail_lt := h
  head := by simp [clean]
  cells := fun i hi => absurd hi (Nat.not_lt_zero i)
  empty := rfl
  full := by
    have : 0 ≠ q.size := by omega
    simp [clean, this]
  overflow := rfl

@[simp] theorem insertOne_size (q : CycleQueue α) (b : α) : (q.insertOne b).size = q.size := rfl

theorem Holds.insertOne {q : CycleQueue α} {xs : List α} (h : Holds q xs)
    (hn : xs.length < q.size) (b : α) : Holds (q.insertOne b) (xs ++ [b]) := by
  have hhead : (q.head + 1) % q.size = (q.tail + (xs.length + 1)) % q.size := by
    rw [h.head, Nat.mod_add_mod, Nat.add_assoc]
  have hfree : q.full = false := by rw [h.full]; simp; omega
  constructor
  · constructor
    · simp; omega
    · exact h.tail_lt
    · simpa [CycleQueue.insertOne] using hhead
    · intro i hi
      simp only [List.length_append, List.length_singleton] at hi
      simp only [CycleQueue.insertOne, h.head]
      by_cases hx : i < xs.length
      · rw [Function.update_of_ne, List.getElem_append_left hx]
        · apply h.cells i hx
        · intro he
          have := wrap_inj (hx.trans hn) hn he
          omega
      · obtain rfl : i = xs.length := by omega
        simp
    · simp [CycleQueue.insertOne]
  · simp only [CycleQueue.insertOne, hhead, hfree, Bool.false_or, List.length_append,
      List.length_singleton]
    rw [Bool.eq_iff_iff]
    simpa using wrap_eq_iff h.tail_lt hn
  · simp [CycleQueue.insertOne, h.overflow, hfree]

theorem Holds.foldl_insertOne {q : CycleQueue α} {xs : List α} (h : Holds q xs) {data : List α}
    (hn : xs.length + data.length ≤ q.size) :
    Holds (data.foldl CycleQueue.insertOne q) (xs ++ data) := by
  induction data generalizing q xs with
  | nil => simpa using h
  | cons b data ih =>
      simp only [List.length_cons] at hn
      have hb := h.insertOne (by omega) b
      simpa using ih hb (by simp; omega)

/-- Insertion into a ring with room appends the data. -/
theorem Holds.insert {q : CycleQueue α} {xs : List α} (h : Holds q xs) {data : List α}
    (hn : xs.length + data.length ≤ q.size) : Holds (q.insert data) (xs ++ data) := by
  have hf := h.foldl_insertOne hn
  rw [CycleQueue.insert, if_neg (by simp [hf.overflow])]
  exact hf

@[simp] theorem foldl_insertOne_size (q : CycleQueue α) (data : List α) :
    (data.foldl insertOne q).size = q.size := by
  induction data generalizing q with
  | nil => rfl
  | cons b data ih => simp [ih]

@[simp] theorem insert_size (q : CycleQueue α) (data : List α) :
    (q.insert data).size = q.size := by
  rw [insert]
  split
  · simp
  · simp

theorem deleteLoop_size (q : CycleQueue α) (n : ℕ) : (q.deleteLoop n).1.size = q.size := by
  induction n generalizing q with
  | zero => rfl
  | succ n ih =>
      simp only [deleteLoop]
      split
      · rfl
      · simp [ih]

theorem deleteLoop_flags (q : CycleQueue α) (n : ℕ) :
    (q.deleteLoop n).1.full = q.full ∧ (q.deleteLoop n).1.overflow = q.overflow := by
  induction n generalizing q with
  | zero => simp [deleteLoop]
  | succ n ih =>
      simp only [deleteLoop]
      split
      · simp
      · simpa using ih _

/-- What one round of the deletion loop leaves. -/
theorem Lies.advance {q : CycleQueue α} {x : α} {xs : List α} (h : Lies q (x :: xs)) :
    q.buf q.tail = x ∧ ((q.tail + 1) % q.size = q.head ↔ xs = []) ∧
      ∀ e, e = xs.isEmpty → Lies { q with tail := (q.tail + 1) % q.size, empty := e } xs := by
  have hroom : xs.length < q.size := h.room
  have hhead : q.head = ((q.tail + 1) % q.size + xs.length) % q.size := by
    rw [h.head, Nat.mod_add_mod, List.length_cons]
    congr 1
    omega
  refine ⟨?_, ?_, fun e he => ?_⟩
  · have := h.cells 0 (by simp)
    simpa [Nat.mod_eq_of_lt h.tail_lt] using this
  · have hlt : (q.tail + 1) % q.size < q.size := Nat.mod_lt _ (by omega)
    constructor
    · intro he
      rw [hhead] at he
      simpa using wrap_eq_self hlt hroom he.symm
    · rintro rfl
      simp [hhead]
  · constructor
    · exact hroom.le
    · exact Nat.mod_lt _ (by omega)
    · exact hhead
    · intro i hi
      have := h.cells (i + 1) (by simpa using hi)
      simp only [List.getElem_cons_succ] at this
      simp only [Nat.mod_add_mod]
      rw [← this]
      congr 2
      omega
    · exact he

theorem Lies.deleteLoop {q : CycleQueue α} {x : α} {xs : List α} (h : Lies q (x :: xs)) (n : ℕ) :
    (q.deleteLoop n).2 = (x :: xs).take n ∧ Lies (q.deleteLoop n).1 ((x :: xs).drop n) := by
  induction n generalizing q x xs with
  | zero => exact ⟨rfl, h⟩
  | succ n ih =>
      obtain ⟨hx, hend, hnext⟩ := h.advance
      simp only [CycleQueue.deleteLoop, hx, List.take_succ_cons, List.drop_succ_cons]
      cases xs with
      | nil =>
          rw [if_pos (hend.mpr rfl)]
          simpa using hnext true rfl
      | cons y ys =>
          rw [if_neg (by rw [hend]; simp)]
          have he : q.empty = false := by simpa using h.empty
          have hl := hnext q.empty (by simpa using he)
          simpa using ih hl

/-- Deletion takes the oldest values out of the ring. -/
theorem Holds.delete {q : CycleQueue α} {xs : List α} (h : Holds q xs) (n : ℕ) :
    (q.delete n).2 = xs.take n ∧ Holds (q.delete n).1 (xs.drop n) := by
  cases xs with
  | nil =>
      have he : q.empty = true := by simpa using h.empty
      simpa [CycleQueue.delete, he] using h
  | cons x xs =>
      have he : q.empty = false := by simpa using h.empty
      obtain ⟨hout, hl⟩ := h.toLies.deleteLoop n
      obtain ⟨hfull, hover⟩ := deleteLoop_flags q n
      have hsize := deleteLoop_size q n
      have hroom := h.room
      simp only [CycleQueue.delete, he, Bool.false_eq_true, if_false, hout, hfull]
      split
      case isTrue hc =>
        refine ⟨hout ▸ rfl, ⟨⟨hl.room, hl.tail_lt, hl.head, hl.cells, hl.empty⟩, ?_, rfl⟩⟩
        simp only [List.length_take, List.length_cons] at hc hroom
        symm
        simp only [decide_eq_false_iff_not, List.length_drop, List.length_cons, hsize]
        omega
      case isFalse hc =>
        refine ⟨hout, ⟨hl, ?_, hover.trans h.overflow⟩⟩
        rw [hfull, hsize, h.full]
        rw [h.full] at hc
        simp only [List.length_take, List.length_cons, decide_eq_true_eq] at hc hroom
        rw [decide_eq_decide]
        simp only [List.length_drop, List.length_cons]
        omega

theorem delete_size (q : CycleQueue α) (n : ℕ) : (q.delete n).1.size = q.size := by
  have hs : (if q.empty then (q, []) else deleteLoop q n).1.size = q.size := by
    split
    · rfl
    · apply deleteLoop_size
  simp only [delete]
  split_ifs at hs ⊢
  all_goals exact hs

/-- The indices count the unread values. -/
theorem Holds.unread {q : CycleQueue α} {xs : List α} (h : Holds q xs) :
    q.unread = xs.length := by
  have hroom := h.room
  have htail := h.tail_lt
  have hhead := h.head
  rw [CycleQueue.unread, h.empty]
  cases xs with
  | nil => rfl
  | cons x xs =>
      simp only [List.isEmpty_cons, Bool.false_eq_true, if_false]
      by_cases hw : q.tail + (x :: xs).length < q.size
      · rw [Nat.mod_eq_of_lt hw] at hhead
        rw [if_pos (by simp at hhead; omega)]
        omega
      · have hm : (q.tail + (x :: xs).length) % q.size
            = q.tail + (x :: xs).length - q.size := by
          rw [Nat.mod_eq_sub_mod (by omega), Nat.mod_eq_of_lt (by omega)]
        rw [hm] at hhead
        rw [if_neg (by omega)]
        omega

end CycleQueue
end LuatAir200
