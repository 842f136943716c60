import Mathlib.Data.List.Basic

/-!
# Cutting a stream into messages

A splitter takes the first message from a buffer, or nothing when the buffer holds
no whole one. A receiver adds each piece of data that arrives to its buffer and takes
messages from it as long as there are any. When the messages are coded such that a
whole one is found at the front and a part of one is not, the receiver gets the messages
that were sent, however their codes are cut into pieces.
-/
namespace LuatAir200

structure Splitter (α β : Type*) where
  split : List α → Option (β × List α)
  shortens : ∀ {buf b rest}, split buf = some (b, rest) → rest.length < buf.length

namespace Splitter

variable {α β γ : Type*} (d : Splitter α β)

/-- The messages that a buffer holds, and what is left of it. -/
def drain (buf : List α) : List β × List α :=
  match h : d.split buf with
  | none => ([], buf)
  | some (b, rest) =>
      have : rest.length < buf.length := d.shortens h
      (b :: (drain rest).1, (drain rest).2)
termination_by buf.length

/-- A piece of data arrives; the messages so far are kept in front. -/
def feed (st : List β × List α) (piece : List α) : List β × List α :=
  (st.1 ++ (d.drain (st.2 ++ piece)).1, (d.drain (st.2 ++ piece)).2)

variable {d}

theorem drain_none {buf : List α} (h : d.split buf = none) : d.drain buf = ([], buf) := by
  rw [drain]
  split
  · rfl
  · rename_i heq
    rw [h] at heq
    cases heq

theorem drain_some {buf rest : List α} {b : β} (h : d.split buf = some (b, rest)) :
    d.drain buf = (b :: (d.drain rest).1, (d.drain rest).2) := by
  rw [drain]
  split
  · rename_i heq
    rw [h] at heq
    cases heq
  · rename_i c r heq
    rw [h, Option.some.injEq, Prod.mk.injEq] at heq
    obtain ⟨rfl, rfl⟩ := heq
    rfl

/-- A code of messages that the splitter reads; `val` is what it takes a message for. -/
structure Reads (d : Splitter α β) (code : γ → List α) (val : γ → β) : Prop where
  whole : ∀ c rest, d.split (code c ++ rest) = some (val c, rest)
  part : ∀ c p, p <+: code c → p ≠ code c → d.split p = none

section Reads
variable {code : γ → List α} {val : γ → β}

theorem split_nil (d : Splitter α β) : d.split [] = none := by
  by_contra hn
  obtain ⟨⟨b, rest⟩, hs⟩ := Option.ne_none_iff_exists'.mp hn
  exact absurd (d.shortens hs) (Nat.not_lt_zero _)

/-- What is drained from the beginning of a stream: some of the messages, and a rest
that holds no whole one. -/
theorem Reads.drain (h : Reads d code val) {cs : List γ} {buf tail : List α}
    (hb : buf ++ tail = cs.flatMap code) :
    ∃ done todo rest, cs = done ++ todo ∧ d.drain buf = (done.map val, rest) ∧
      rest ++ tail = todo.flatMap code ∧ d.split rest = none := by
  induction cs generalizing buf with
  | nil =>
      rw [List.flatMap_nil, List.append_eq_nil_iff] at hb
      obtain ⟨rfl, rfl⟩ := hb
      exact ⟨[], [], [], rfl, drain_none (split_nil d), rfl, split_nil d⟩
  | cons c cs ih =>
      rw [List.flatMap_cons] at hb
      by_cases hp : code c <+: buf
      · obtain ⟨buf', rfl⟩ := hp
        rw [List.append_assoc] at hb
        obtain ⟨done, todo, rest, hcs, hd, hr, hn⟩ := ih (List.append_cancel_left hb)
        refine ⟨c :: done, todo, rest, ?_, ?_, hr, hn⟩
        · rw [hcs, List.cons_append]
        · rw [drain_some (h.whole c buf'), hd, List.map_cons]
      · have hlen : buf <+: code c := by
          obtain hl | hl := Nat.le_total buf.length (code c).length
          · exact List.prefix_of_prefix_length_le ⟨tail, hb⟩ ⟨cs.flatMap code, rfl⟩ hl
          · exact absurd (List.prefix_of_prefix_length_le ⟨cs.flatMap code, rfl⟩ ⟨tail, hb⟩ hl) hp
        have hne : buf ≠ code c := by
          intro he
          exact hp (he ▸ List.prefix_refl buf)
        have hn : d.split buf = none := h.part c buf hlen hne
        refine ⟨[], c :: cs, buf, rfl, drain_none hn, ?_, hn⟩
        rw [hb, List.flatMap_cons]

/-- The receiver in the middle of a stream: `todo` is what its buffer and the pieces to
come are the code of. -/
theorem Reads.feed_rest (h : Reads d code val) {pieces : List (List α)} {got : List β} {todo : List γ}
    {buf : List α} (hn : d.split buf = none) (hb : buf ++ pieces.flatten = todo.flatMap code) :
    pieces.foldl d.feed (got, buf) = (got ++ todo.map val, []) := by
  induction pieces generalizing got buf todo with
  | nil =>
      rw [List.flatten_nil, List.append_nil] at hb
      cases todo with
      | nil => rw [hb, List.flatMap_nil, List.map_nil, List.append_nil, List.foldl_nil]
      | cons c cs =>
          rw [hb, List.flatMap_cons, h.whole] at hn
          cases hn
  | cons p ps ih =>
      rw [List.flatten_cons, ← List.append_assoc] at hb
      obtain ⟨done, todo', rest, rfl, hd, hr, hn'⟩ := h.drain hb
      rw [List.foldl_cons, feed, hd, ih hn' hr, List.append_assoc, List.map_append]

/-- However a stream of messages is cut, the receiver gets the messages in order and is
left with an empty buffer. -/
theorem Reads.feed_pieces (h : Reads d code val) {cs : List γ} {pieces : List (List α)}
    (hp : pieces.flatten = cs.flatMap code) : pieces.foldl d.feed ([], []) = (cs.map val, []) :=
  h.feed_rest (split_nil d) (by rw [List.nil_append, hp])

end Reads

end Splitter

end LuatAir200
