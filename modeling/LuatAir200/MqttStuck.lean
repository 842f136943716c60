import LuatAir200.MqttFrame

/-!
# Buffers that no packet comes out of any more

`iscomplete` steps over bytes that are no type of a packet, and waits for more when it has found
one. A length of more than four bytes is never complete, and nothing takes it out of the buffer.
-/
namespace LuatAir200.Mqtt
open Lua

/-- A byte that `iscomplete` steps over. -/
def Skipped (b : UInt8) : Prop := ¬(CONNECT ≤ b.toNat / 16 ∧ b.toNat / 16 ≤ DISCONNECT)

/-- After whole packets and bytes that are stepped over, the data go on with the type of a packet
and a length whose first four bytes all say that there is one more. -/
inductive Stuck : LuaString → Prop
  | skip {b : UInt8} {s : LuaString} (h : Skipped b) (hs : Stuck s) : Stuck (b :: s)
  | packet (w : Wire) {s : LuaString} (hs : Stuck s) : Stuck (w.bytes ++ s)
  | long {b : UInt8} {f s : LuaString} (h : ¬Skipped b) (hl : f.length = 4)
      (hf : ∀ c ∈ f, 128 ≤ c.toNat) : Stuck (b :: (f ++ s))

/-! ## Lengths -/

/-- What `declen` reads is a length. -/
theorem declenLoop_some {s : LuaString} {v m i value n : ℕ} (h : declenLoop s v m i = some (value, n)) :
    ∃ f rest, s = f ++ rest ∧ IsLength f ∧ value = v + lenvalue f * m ∧ n = i + f.length := by
  induction s generalizing v m i with
  | nil => cases h
  | cons b s ih =>
      rw [declenLoop] at h
      by_cases hb : b.toNat &&& 128 = 0
      · rw [if_pos hb] at h
        cases h
        rw [byte_high] at hb
        refine ⟨[b], s, rfl, .last hb, ?_, rfl⟩
        rw [byte_low]
        simp [lenvalue]
      · rw [if_neg hb] at h
        obtain ⟨f, rest, rfl, hf, rfl, rfl⟩ := ih h
        rw [byte_high] at hb
        refine ⟨b :: f, rest, rfl, .more (by omega) hf, ?_, ?_⟩
        · rw [byte_low, lenvalue]
          ring
        · rw [List.length_cons]
          omega

/-- A length of at most `n` bytes can follow, or `n` bytes say that there is one more. -/
theorem length_or_long (n : ℕ) (s : LuaString) :
    (∃ f rest, s = f ++ rest ∧ f.length = n ∧ ∀ c ∈ f, 128 ≤ c.toNat) ∨
    ∃ f, IsLength f ∧ f.length ≤ n ∧ (f <+: s ∨ s <+: f) := by
  induction n generalizing s with
  | zero => exact .inl ⟨[], s, rfl, rfl, fun c hc => by cases hc⟩
  | succ n ih =>
      cases s with
      | nil => exact .inr ⟨[0], .last (by decide), by simp, .inr List.nil_prefix⟩
      | cons b s =>
          by_cases hb : b.toNat < 128
          · exact .inr ⟨[b], .last hb, by simp, .inl ⟨s, rfl⟩⟩
          · have hb : 128 ≤ b.toNat := by omega
            obtain ⟨f, rest, rfl, hl, hf⟩ | ⟨f, hf, hl, hp⟩ := ih s
            · refine .inl ⟨b :: f, rest, rfl, by rw [List.length_cons, hl], ?_⟩
              intro c hc
              rcases List.mem_cons.mp hc with rfl | hc
              · exact hb
              · exact hf c hc
            · refine .inr ⟨b :: f, .more hb hf, by rw [List.length_cons]; omega, ?_⟩
              rw [List.prefix_cons_inj, List.prefix_cons_inj]
              exact hp

/-- Too long a length. -/
theorem declenLoop_long {f s : LuaString} (hf : ∀ c ∈ f, 128 ≤ c.toNat) {v m i value n : ℕ}
    (h : declenLoop (f ++ s) v m i = some (value, n)) : i + f.length < n := by
  induction f generalizing v m i with
  | nil =>
      obtain ⟨f, rest, -, hl, -, rfl⟩ := declenLoop_some h
      have hpos : 0 < f.length := by
        cases hl <;> simp
      rw [List.length_nil]
      omega
  | cons b f ih =>
      have hb : ¬b.toNat &&& 128 = 0 := by
        have := hf b List.mem_cons_self
        rw [byte_high]
        omega
      rw [List.cons_append, declenLoop] at h
      rw [if_neg hb] at h
      have hlt := ih (fun c hc => hf c (List.mem_cons_of_mem b hc)) h
      rw [List.length_cons]
      omega

/-! ## Packets in the buffer -/

theorem iscompleteFrom_isSome (i j : ℕ) (s : LuaString) :
    (iscompleteFrom i s).isSome = (iscompleteFrom j s).isSome := by
  induction s generalizing i j with
  | nil => rfl
  | cons b s ih =>
      rw [iscompleteFrom, iscompleteFrom]
      split
      · split
        · split <;> rfl
        · rfl
      · exact ih _ _

theorem iscomplete_skip {b : UInt8} (h : Skipped b) (s : LuaString) :
    (iscomplete (b :: s)).isSome = (iscomplete s).isSome := by
  rw [iscomplete, iscompleteFrom, byte_typ, if_neg h]
  exact iscompleteFrom_isSome _ _ s

theorem iscomplete_skip_none {b : UInt8} (h : Skipped b) (s : LuaString) :
    iscomplete (b :: s) = none ↔ iscomplete s = none := by
  rw [← Option.not_isSome_iff_eq_none, ← Option.not_isSome_iff_eq_none, iscomplete_skip h]

/-- What is in front of the packet that `iscomplete` finds is stepped over. -/
theorem iscompleteFrom_some {i : ℕ} {s : LuaString} {f : Found} (h : iscompleteFrom (i + 1) s = some f) :
    ∃ g rest, ∃ w : Wire, (∀ b ∈ g, Skipped b) ∧ s = g ++ (w.bytes ++ rest) ∧
      f.t = i + g.length + w.bytes.length := by
  induction s generalizing i with
  | nil => cases h
  | cons b s ih =>
      rw [iscompleteFrom, byte_typ] at h
      split at h
      · rename_i ht
        split at h
        · rename_i len cnt hd
          split at h
          · rename_i hc
            cases h
            obtain ⟨f, rest, rfl, hf, rfl, rfl⟩ := declenLoop_some hd
            have hbody : (rest.take (0 + lenvalue f * 1)).length = lenvalue f := by
              rw [List.length_append] at hc
              rw [List.length_take]
              omega
            have hshort : f.length ≤ 4 := by omega
            have hwire : b :: (f ++ rest) = (⟨b, f, rest.take (0 + lenvalue f * 1), ht, hf, hshort, hbody⟩ :
                Wire).bytes ++ rest.drop (0 + lenvalue f * 1) := by
              rw [Wire.bytes, List.cons_append, List.append_assoc, List.take_append_drop]
            refine ⟨[], _, _, ?_, hwire, ?_⟩
            · intro c hc
              cases hc
            simp only [Wire.bytes, List.length_cons, List.length_append, hbody, List.length_nil]
            omega
          · cases h
        · cases h
      · rename_i ht
        obtain ⟨g, rest, w, hg, rfl, hft⟩ := ih h
        refine ⟨b :: g, rest, w, ?_, rfl, ?_⟩
        · intro c hc
          rcases List.mem_cons.mp hc with rfl | hc
          · exact ht
          · exact hg c hc
        · rw [hft, List.length_cons]
          omega

theorem nextpacket_some {s p rest : LuaString} (h : nextpacket s = some (p, rest)) :
    ∃ g, ∃ w : Wire, (∀ b ∈ g, Skipped b) ∧ s = g ++ (w.bytes ++ rest) := by
  obtain ⟨f, hf, he⟩ := Option.map_eq_some_iff.mp h
  obtain ⟨g, r, w, hg, rfl, ht⟩ := iscompleteFrom_some hf
  obtain ⟨-, rfl⟩ := Prod.mk.inj he
  refine ⟨g, w, hg, ?_⟩
  have hlen : f.t = (g ++ w.bytes).length := by
    rw [List.length_append, ht]
    omega
  rw [hlen, ← List.append_assoc, List.drop_left, List.append_assoc]

/-! ## Stuck buffers -/

theorem Wire.not_skipped (w : Wire) : ¬Skipped w.first := fun h => h w.typ

/-- The length of a packet has an end. -/
theorem IsLength.not_long {f g s t : LuaString} (hf : IsLength f) (hl : f.length ≤ g.length)
    (hg : ∀ c ∈ g, 128 ≤ c.toNat) : f ++ s ≠ g ++ t := by
  induction hf generalizing g with
  | @last b h =>
      intro he
      cases g with
      | nil => simp at hl
      | cons c g =>
          obtain ⟨rfl, -⟩ := List.cons.inj he
          have := hg b List.mem_cons_self
          omega
  | @more b f h hf ih =>
      intro he
      cases g with
      | nil => simp at hl
      | cons c g =>
          obtain ⟨rfl, hrest⟩ := List.cons.inj he
          refine ih ?_ (fun c hc => hg c (List.mem_cons_of_mem b hc)) hrest
          simpa using hl

theorem stuck_skip {b : UInt8} (h : Skipped b) (s : LuaString) : Stuck (b :: s) ↔ Stuck s := by
  constructor
  · intro hs
    generalize hx : b :: s = x at hs
    cases hs with
    | skip _ hs =>
        obtain ⟨rfl, rfl⟩ := List.cons.inj hx
        exact hs
    | packet w hs =>
        obtain ⟨rfl, -⟩ := List.cons.inj hx
        exact absurd h w.not_skipped
    | long ht hl hf =>
        obtain ⟨rfl, -⟩ := List.cons.inj hx
        exact absurd h ht
  · exact .skip h

theorem stuck_packet (w : Wire) (s : LuaString) : Stuck (w.bytes ++ s) ↔ Stuck s := by
  constructor
  · intro hs
    have hnext := w.whole s
    generalize hx : w.bytes ++ s = x at hs hnext
    cases hs with
    | skip h hs =>
        obtain ⟨rfl, -⟩ := List.cons.inj hx
        exact absurd h w.not_skipped
    | packet w' hs =>
        rw [w'.whole] at hnext
        obtain ⟨-, rfl⟩ := Prod.mk.inj (Option.some.inj hnext)
        exact hs
    | long ht hl hf =>
        rw [Wire.bytes, List.cons_append, List.append_assoc] at hx
        have hshort := w.short
        exact absurd (List.cons.inj hx).2 (w.isLength.not_long (by omega) hf)
  · exact .packet w

theorem stuck_skips {g : LuaString} (hg : ∀ b ∈ g, Skipped b) (s : LuaString) :
    Stuck (g ++ s) ↔ Stuck s := by
  induction g with
  | nil => exact Iff.rfl
  | cons b g ih =>
      rw [List.cons_append, stuck_skip (hg b List.mem_cons_self)]
      exact ih fun c hc => hg c (List.mem_cons_of_mem b hc)

/-- Taking packets from the front changes nothing. -/
theorem stuck_drain (buf more : LuaString) :
    Stuck ((receiver.drain buf).2 ++ more) ↔ Stuck (buf ++ more) := by
  induction hn : buf.length using Nat.strongRecOn generalizing buf with
  | ind n ih =>
      subst hn
      cases hs : receiver.split buf with
      | none => rw [Splitter.drain_none hs]
      | some q =>
          obtain ⟨p, rest⟩ := q
          rw [Splitter.drain_some hs]
          obtain ⟨g, w, hg, hbuf⟩ := nextpacket_some hs
          rw [ih rest.length (receiver.shortens hs) rest rfl, hbuf, List.append_assoc,
            List.append_assoc, stuck_skips hg, stuck_packet]

theorem drain_rest (buf : LuaString) : nextpacket (receiver.drain buf).2 = none := by
  induction hn : buf.length using Nat.strongRecOn generalizing buf with
  | ind n ih =>
      subst hn
      cases hs : receiver.split buf with
      | none =>
          rw [Splitter.drain_none hs]
          exact hs
      | some q =>
          rw [Splitter.drain_some hs]
          exact ih q.2.length (receiver.shortens hs) q.2 rfl

/-- The calls of `rcv` leave a buffer that is stuck exactly if the data are. -/
theorem stuck_rcvs (datas : List LuaString) (st : List LuaString × LuaString)
    (hn : nextpacket st.2 = none) : nextpacket (datas.foldl rcvs st).2 = none ∧
    (Stuck (datas.foldl rcvs st).2 ↔ Stuck (st.2 ++ datas.flatten)) := by
  induction datas generalizing st with
  | nil =>
      rw [List.flatten_nil, List.append_nil]
      exact ⟨hn, Iff.rfl⟩
  | cons data datas ih =>
      obtain ⟨hnone, hiff⟩ := ih (rcvs st data) (drain_rest _)
      refine ⟨hnone, ?_⟩
      rw [List.foldl_cons, hiff, List.flatten_cons, ← List.append_assoc]
      exact stuck_drain _ _

theorem nextpacket_none {s : LuaString} : nextpacket s = none ↔ iscomplete s = none :=
  Option.map_eq_none_iff

/-- Nothing that follows completes a packet in a stuck buffer. -/
theorem Stuck.never {s : LuaString} (h : Stuck s) (hn : nextpacket s = none) (more : LuaString) :
    iscomplete (s ++ more) = none := by
  induction h with
  | @skip b s hb hs ih =>
      rw [nextpacket_none, iscomplete_skip_none hb, ← nextpacket_none] at hn
      rw [List.cons_append, iscomplete_skip_none hb]
      exact ih hn
  | packet w hs ih =>
      rw [w.whole] at hn
      cases hn
  | @long b f s ht hl hf =>
      rw [List.cons_append, List.append_assoc, iscomplete, iscompleteFrom, byte_typ]
      rw [if_pos (not_not.mp ht)]
      split
      · rename_i len cnt hd
        have hlong := declenLoop_long hf hd
        rw [if_neg]
        omega
      · rfl

/-- A type, a length and enough bytes are a packet. -/
theorem iscomplete_enough {b : UInt8} {f x : LuaString} (ht : ¬Skipped b) (hf : IsLength f)
    (hs : f.length ≤ 4) (hx : lenvalue f ≤ x.length) : (iscomplete (b :: (f ++ x))).isSome := by
  have hbody : (x.take (lenvalue f)).length = lenvalue f := by
    rw [List.length_take]
    omega
  have hw : b :: (f ++ x) = (⟨b, f, x.take (lenvalue f), not_not.mp ht, hf, hs, hbody⟩ : Wire).bytes ++
      x.drop (lenvalue f) := by
    rw [Wire.bytes, List.cons_append, List.append_assoc, List.take_append_drop]
  rw [hw, Wire.iscomplete]
  rfl

/-- A buffer without a whole packet that is not stuck can be continued to one. -/
theorem completed {s : LuaString} (h : ¬Stuck s) : ∃ more, (iscomplete (s ++ more)).isSome := by
  induction s with
  | nil => exact ⟨[0xd0, 0], by decide⟩
  | cons b s ih =>
      by_cases hb : Skipped b
      · rw [stuck_skip hb] at h
        obtain ⟨more, hmore⟩ := ih h
        exact ⟨more, by rwa [List.cons_append, iscomplete_skip hb]⟩
      · obtain ⟨f, rest, rfl, hl, hf⟩ | ⟨f, hf, hl, ⟨t, rfl⟩ | ⟨t, rfl⟩⟩ := length_or_long 4 s
        · exact absurd (Stuck.long hb hl hf) h
        · refine ⟨List.replicate (lenvalue f) 0, ?_⟩
          rw [List.cons_append, List.append_assoc]
          apply iscomplete_enough hb hf hl
          rw [List.length_append, List.length_replicate]
          omega
        · refine ⟨t ++ List.replicate (lenvalue (s ++ t)) 0, ?_⟩
          rw [List.cons_append, ← List.append_assoc]
          apply iscomplete_enough hb hf hl
          rw [List.length_replicate]

/-- Whatever has been received, and however it was cut, `iscomplete` can still succeed exactly if
the data have not come to a length of more than four bytes. -/
theorem completed_iff (datas : List LuaString) :
    (∃ more, (iscomplete ((datas.foldl rcvs ([], [])).2 ++ more)).isSome) ↔ ¬Stuck datas.flatten := by
  obtain ⟨hn, hiff⟩ := stuck_rcvs datas ([], []) rfl
  rw [List.nil_append] at hiff
  rw [← hiff]
  constructor
  · rintro ⟨more, hmore⟩ hs
    rw [hs.never hn] at hmore
    cases hmore
  · exact fun hs => completed hs

/-- A type and a length of five bytes: nothing makes a packet of it. -/
theorem five_byte_length : ([[0x30], [0xff, 0xff, 0xff, 0xff, 0x7f]].foldl rcvs ([], [])).2 =
      [0x30, 0xff, 0xff, 0xff, 0xff, 0x7f] ∧
    ¬∃ more, (iscomplete (([[0x30], [0xff, 0xff, 0xff, 0xff, 0x7f]].foldl rcvs ([], [])).2 ++ more)).isSome := by
  have hs : Stuck [0x30, 0xff, 0xff, 0xff, 0xff, 0x7f] := by
    have ht : ¬Skipped 0x30 := by
      unfold Skipped
      decide
    have hf : ∀ c ∈ ([0xff, 0xff, 0xff, 0xff] : LuaString), 128 ≤ c.toNat := by
      intro c hc
      obtain rfl : c = 0xff := by simpa using hc
      decide
    exact @Stuck.long 0x30 [0xff, 0xff, 0xff, 0xff] [0x7f] ht rfl hf
  have hbuf : ([[0x30], [0xff, 0xff, 0xff, 0xff, 0x7f]].foldl rcvs ([], [])).2 =
      [0x30, 0xff, 0xff, 0xff, 0xff, 0x7f] := by
    have h1 : receiver.split [0x30] = none := by decide
    have h2 : receiver.split [0x30, 0xff, 0xff, 0xff, 0xff, 0x7f] = none := by decide
    simp only [List.foldl_cons, List.foldl_nil, rcvs, rcv, List.nil_append, Splitter.drain_none h1,
      List.cons_append, Splitter.drain_none h2]
  refine ⟨hbuf, ?_⟩
  rintro ⟨more, hmore⟩
  rw [hbuf, hs.never (by decide)] at hmore
  cases hmore

end LuatAir200.Mqtt
