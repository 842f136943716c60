import LuatAir200.SocketHeld
import LuatAir200.SocketTables

/-!
# The sockets that are told

A call for an item that was sent finds the entry of its socket, and the entry goes when the
call for `CLOSE` returns.
-/
namespace LuatAir200.Sockets
open Lua Machine

/-- The step calls `rsp` once at most; `p` holds of a socket that is told that an item was
sent. -/
def Told (p : ℕ → Prop) (s t : State) : Prop :=
  t.calls = s.calls ∨ ∃ c f, Calls s t c ∧ t.frame = some f ∧
    (∀ idx item, c = .send idx true item → p idx) ∧ ∀ idx, c = .close idx → f = .closed idx

section
variable {p q : ℕ → Prop} {s u : State}

theorem Told.imp {t : State} (h : Told p s t) (hi : ∀ idx, p idx → q idx) : Told q s t := by
  obtain h | ⟨c, f, hc, hf, hs, hcl⟩ := h
  · exact .inl h
  · exact .inr ⟨c, f, hc, hf, fun idx item he => hi idx (hs idx item he), hcl⟩

theorem call_told (h : u.calls = s.calls) {c : Call} {f : Frame}
    (hs : ∀ idx item, c = .send idx true item → p idx) (hc : ∀ idx, c = .close idx → f = .closed idx) :
    Told p s (call c f u) := .inr ⟨c, f, by simp [Calls, call, h], rfl, hs, hc⟩

theorem failFirst_told (h : u.calls = s.calls) (idx : ℕ) (f : Frame) {r : State → State}
    (hr : Told p s (r u)) : Told p s (failFirst idx f r u) := by
  unfold failFirst
  split
  · apply call_told
    · exact h
    · exact nofun
    · exact nofun
  · exact hr

theorem conack_told (h : u.calls = s.calls) (id idx : ℕ) (cause : Option ℕ) (suc : Bool) :
    Told p s (conack id idx cause suc u) := by
  unfold conack
  split
  · exact call_told h nofun nofun
  · exact failFirst_told h idx _ (call_told h nofun nofun)

theorem lostLoop_told (h : u.calls = s.calls) (idx : ℕ) (val : LuaString) :
    Told p s (lostLoop idx val u) := failFirst_told h idx _ (call_told h nofun nofun)

theorem sckrsp_told (h : u.calls = s.calls) (id : ℕ) (evt : Links.Evt) (val : LuaString) :
    Told (fun idx => getidxbyid id u = some idx) s (sckrsp id evt val u) := by
  unfold sckrsp
  split
  · exact .inl h
  rename_i idx hidx
  split
  · exact .inl h
  cases evt with
  | connect =>
      dsimp only
      split
      · rw [if_pos (Nat.le_add_left 1 _)]
        exact conack_told (by exact h) id idx _ false
      · exact conack_told h id idx _ true
  | send =>
      dsimp only
      split
      · rw [if_pos (Nat.le_add_left 1 _)]
        exact call_told (by exact h) nofun nofun
      · refine call_told (by exact h) ?_ nofun
        rintro i item ⟨⟩
        exact hidx
  | disconnect =>
      dsimp only
      refine call_told ?_ nofun nofun
      split <;> exact h
  | close =>
      refine call_told h nofun ?_
      rintro i ⟨⟩
      rfl
  | state =>
      dsimp only
      split
      · exact lostLoop_told h idx val
      · exact call_told h nofun nofun

theorem deliver_told (h : u.calls = s.calls) : Told (fun idx => sckid idx u ≠ none) s (deliver u) := by
  unfold deliver
  split
  · split
    · rename_i n _ _ _
      refine (sckrsp_told h n.id n.evt n.val).imp fun idx hidx => ?_
      rw [getidxbyid_sckid hidx]
      exact Option.some_ne_none _
    · exact .inl h
  · exact .inl h

/-- What is left of `sckrsp` reports failures only. -/
theorem resume_told (f : Frame) (h : u.calls = s.calls) : Told p s (resume f u) := by
  cases f with
  | conack id idx cause => exact failFirst_told h idx _ (call_told h nofun nofun)
  | connected id idx suc =>
      refine .inl (Eq.trans ?_ h)
      simp only [resume]
      split
      · split
        · exact sndnxt_calls _ idx _
        · rfl
      · rfl
  | sndack id idx suc =>
      simp only [resume]
      split
      · refine .inl (Eq.trans ?_ h)
        split
        · split
          · exact sndnxt_calls _ idx u
          · rfl
        · rfl
      · exact failFirst_told h idx _ (.inl h)
  | flush idx => exact failFirst_told h idx _ (.inl h)
  | closed idx => exact .inl h
  | lost idx val => exact lostLoop_told h idx val
  | done => exact .inl h

theorem resumed_told (s : State) : Told p s (resumed s) := by
  unfold resumed
  split
  · exact resume_told _ rfl
  · exact .inl rfl

end

/-- The entry of `idx` is there, and does not go when the callback returns. -/
def Lasts (idx : ℕ) (s : State) : Prop := sckid idx s ≠ none ∧ leaving s.frame ≠ some idx

theorem resumed_leaving {s : State} {idx : ℕ} (h : leaving s.frame = some idx) :
    sckid idx (resumed s) = none := by
  cases hf : s.frame with
  | none =>
      rw [hf] at h
      cases h
  | some f =>
      rw [hf] at h
      cases f with
      | closed i =>
          cases h
          simp [resumed, hf, resume, sckid]
      | _ => cases h

theorem leaving_closed {s : State} {idx : ℕ} (h : leaving s.frame ≠ some idx) :
    s.frame ≠ some (.closed idx) := by
  intro hf
  rw [hf] at h
  exact h rfl

theorem step_told {s t : State} {a : Act} (hw : Wired s) (h : step s a = some t) :
    Told (Lasts · s) s t := by
  by_cases ha : eventful a
  swap
  · exact .inl (step_calls ha h)
  cases a with
  | link b =>
      obtain ⟨-, h⟩ := Option.ite_none_right_eq_some.mp h
      obtain ⟨l, -, rfl⟩ := Option.map_eq_some_iff.mp h
      split
      · rename_i hlink
        have hf : s.frame = none := by
          by_contra hf
          exact hw.frame hf (Option.isNone_iff_eq_none.mp hlink)
        refine (deliver_told (u := { s with link := l }) rfl).imp fun idx hidx => ⟨hidx, ?_⟩
        rw [hf]
        exact nofun
      · exact .inl rfl
  | ret =>
      obtain ⟨-, rfl⟩ | ⟨hf, l, -, rfl⟩ := step_ret.mp h
      · exact resumed_told s
      · refine (deliver_told (u := { resumed s with link := l }) (frame_none_calls hf)).imp ?_
        intro idx hidx
        have hidx : sckid idx (resumed s) ≠ none := hidx
        have hl : leaving s.frame ≠ some idx := fun hl => hidx (resumed_leaving hl)
        exact ⟨sckid_resumed (leaving_closed hl) ▸ hidx, hl⟩
  | _ => exact ha.elim

theorem Told.calls {p : ℕ → Prop} {s t : State} (h : Told p s t) {c : Call} (hc : Calls s t c) :
    ∃ f, t.frame = some f ∧ (∀ idx item, c = .send idx true item → p idx) ∧
      ∀ idx, c = .close idx → f = .closed idx := by
  have hc : t.calls = s.calls ++ [c] := hc
  obtain h | ⟨d, f, hd, hf, hs, hcl⟩ := h
  · rw [hc] at h
    simp at h
  · have hd : t.calls = s.calls ++ [d] := hd
    rw [hc, List.append_cancel_left_eq] at hd
    cases hd
    exact ⟨f, hf, hs, hcl⟩

/-! ## The entries -/

/-- An entry with a link that was not there before comes from a call for it. -/
theorem step_sckid_none {s t : State} {a : Act} {idx : ℕ} (h : step s a = some t)
    (hid : sckid idx s = none)
    (hc : ∀ prot addr port cause, a ≠ .connect idx prot addr port cause)
    (hn : ∀ prot addr port cause, a ≠ .create idx prot addr port cause) : sckid idx t = none := by
  have kept {u : State} (hu : ∀ i, sckid i u = sckid i s) : sckid idx u = none := (hu idx).trans hid
  have other {u : State} {j : ℕ} (hj : idx ≠ j) {m : Option ℕ} (cause : Option ℕ)
      (prot addr port : LuaString) (discause : Option ℕ) (hu : ∀ i, sckid i u = sckid i s) :
      sckid idx (init j m cause prot addr port discause u) = none := by
    rw [sckid_init, if_neg hj]
    exact kept hu
  cases a with
  | create j prot addr port cause =>
      have hj : idx ≠ j := fun he => hn prot addr port cause (he ▸ rfl)
      cases h
      unfold create
      split
      · exact hid
      · exact other hj cause prot addr port none fun _ => rfl
  | connect j prot addr port cause =>
      have hj : idx ≠ j := fun he => hc prot addr port cause (he ▸ rfl)
      cases h
      unfold connect
      split
      · exact hid
      split
      · rename_i k _
        split
        · split
          · exact hid
          · exact other hj cause prot addr port _ fun i => by cases k.id <;> rfl
        · have hs := steady_linkConnect k.id prot addr port s
          split
          · rename_i t he
            rw [he] at hs
            exact other hj cause prot addr port none hs.ids
          · rename_i t he
            rw [he] at hs
            exact kept hs.ids
      · have hs := (steady_linkOpen s).trans (steady_linkConnect (linkOpen s).2 prot addr port _)
        dsimp only
        split
        · rename_i t he
          rw [he] at hs
          exact other hj cause prot addr port none hs.ids
        · rename_i t he
          rw [he] at hs
          exact kept hs.ids
  | ret =>
      have hr : sckid idx (resumed s) = none := by
        by_cases hcl : s.frame = some (.closed idx)
        · simp [resumed, hcl, resume, sckid]
        · exact (sckid_resumed hcl).trans hid
      obtain ⟨-, rfl⟩ | ⟨-, l, -, rfl⟩ := step_ret.mp h
      · exact hr
      · exact ((steady_deliver { resumed s with link := l }).ids idx).trans hr
  | link b =>
      obtain ⟨-, h⟩ := Option.ite_none_right_eq_some.mp h
      obtain ⟨l, -, rfl⟩ := Option.map_eq_some_iff.mp h
      split
      · exact kept (steady_deliver { s with link := l }).ids
      · exact hid
  | send j data para pos ins =>
      obtain ⟨-, ⟨⟩⟩ := Option.ite_none_right_eq_some.mp h
      exact kept (steady_send j data para pos ins s).1.ids
  | setwaitingrspitem j item =>
      cases h
      exact kept (steady_setwaitingrspitem j item s).1.ids
  | disconnect j cause =>
      cases h
      unfold disconnect
      split
      · rename_i k _ _
        have hu := fun i => sckid_upd (f := fun k => { k with discause := cause })
          (fun _ => rfl) j i s
        exact kept fun i => (show _ = sckid i s by rw [← hu i]; cases k.id <;> rfl)
      · exact hid
  | close j =>
      cases h
      unfold close
      split
      · rename_i k _ _
        exact kept fun i => by cases k.id <;> rfl
      · exact hid

/-- The socket whose entry goes stays that one until it has gone. -/
theorem step_leaves {s t : State} {a : Act} {idx : ℕ} (hw : Wired s) (h : step s a = some t)
    (hl : leaving s.frame = some idx) : sckid idx t = none ∨ t.frame = s.frame := by
  cases a with
  | create j prot addr port cause =>
      cases h
      exact .inr (frame_create j prot addr port cause s)
  | connect j prot addr port cause =>
      cases h
      exact .inr (frame_connect j prot addr port cause s)
  | send j data para pos ins =>
      obtain ⟨-, ⟨⟩⟩ := Option.ite_none_right_eq_some.mp h
      exact .inr (frame_send j data para pos ins s)
  | disconnect j cause =>
      cases h
      exact .inr (frame_disconnect j cause s)
  | close j =>
      cases h
      exact .inr (frame_close j s)
  | setwaitingrspitem j item =>
      cases h
      exact .inr (frame_setwaitingrspitem j item s)
  | link b =>
      obtain ⟨-, h⟩ := Option.ite_none_right_eq_some.mp h
      obtain ⟨l, -, rfl⟩ := Option.map_eq_some_iff.mp h
      have hf : s.frame ≠ none := by
        intro hf
        rw [hf] at hl
        cases hl
      rw [if_neg]
      · exact .inr rfl
      · rw [Option.isNone_iff_eq_none]
        exact hw.frame hf
  | ret =>
      have hr := resumed_leaving hl
      obtain ⟨-, rfl⟩ | ⟨-, l, -, rfl⟩ := step_ret.mp h
      · exact .inl hr
      · exact .inl (((steady_deliver { resumed s with link := l }).ids idx).trans hr)

end LuatAir200.Sockets
