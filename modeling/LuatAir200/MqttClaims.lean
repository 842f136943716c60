import LuatAir200.MqttConning
import LuatAir200.SocketTold

/-!
# The sockets of the MQTT clients

A socket with an index of the module belongs to a client from its first connection until
its entry goes.
-/
namespace LuatAir200.MqttClients
open Lua Machine Mqtt

variable {conv : Conv}

theorem mem_ids {idx : ℕ} {s : State} : idx ∈ ids s ↔ ∃ r, client idx s = some r := by
  constructor
  · intro h
    obtain ⟨q, hq, he⟩ := List.mem_map.mp h
    rw [client_find]
    exact Option.isSome_iff_exists.mp (List.find?_isSome.mpr ⟨q, hq, by simpa using he⟩)
  · rintro ⟨r, hr⟩
    obtain ⟨hmem, he⟩ := client_sckidx hr
    exact List.mem_map.mpr ⟨r, hmem, he⟩

/-- Every socket with a link has a client, or its entry is about to go. -/
def Claimed (s : State) : Prop :=
  ∀ idx, OTHER_MAX < idx → Sockets.sckid idx s.sock ≠ none →
    idx ∈ ids s ∨ Sockets.leaving s.sock.frame = some idx

/-- The clients stay, and only they get sockets. -/
structure Claims (s t : State) : Prop where
  same : Same s t
  frame : t.sock.frame = s.sock.frame
  sckid : ∀ idx, Sockets.sckid idx t.sock ≠ none → Sockets.sckid idx s.sock ≠ none ∨ idx ∈ ids s

theorem Claims.refl (s : State) : Claims s s := ⟨.refl s, rfl, fun _ => .inl⟩

theorem Claims.trans {s t u : State} (h : Claims s t) (h' : Claims t u) : Claims s u where
  same := h.same.trans h'.same
  frame := h'.frame.trans h.frame
  sckid idx hu := by
    obtain ht | ht := h'.sckid idx hu
    · exact h.sckid idx ht
    · exact .inr (h.same.ids ▸ ht)

/-- The sockets make a step that is not a connection, within the callback. -/
theorem Claims.of_step {s : State} {u : Sockets.State} {b : Sockets.Act} (hf : u.frame = s.sock.frame)
    (h : Sockets.step s.sock b = some u)
    (hc : ∀ idx prot addr port cause, b ≠ .connect idx prot addr port cause)
    (hn : ∀ idx prot addr port cause, b ≠ .create idx prot addr port cause) :
    Claims s { s with sock := u } := by
  refine ⟨⟨rfl, rfl, fun _ => rfl⟩, hf, fun idx hu => .inl fun hs => hu ?_⟩
  exact Sockets.step_sckid_none h hs (hc idx) (hn idx)

theorem sending_claims (s₀ s : Sockets.State) (a : Sockets.Act) (t : Sockets.State)
    (ha : Sending a)
    (hs : s.frame = s₀.frame ∧ ∀ idx, Sockets.sckid idx s = Sockets.sckid idx s₀)
    (h : Sockets.step s a = some t) :
    t.frame = s₀.frame ∧ ∀ idx, Sockets.sckid idx t = Sockets.sckid idx s₀ := by
  cases ha with
  | send idx data para =>
      rw [step_send] at h
      cases h
      have hst := Sockets.steady_send idx data para none false s
      exact ⟨hst.2.trans hs.1, fun i => (hst.1.ids i).trans (hs.2 i)⟩
  | shut =>
      rw [step_shut] at h
      cases h
      exact hs

theorem claims_kept : Kept Claims where
  calm {s t} h := by
    have hm := h.sock.invariant (sending_claims s.sock) ⟨rfl, fun _ => rfl⟩
    exact ⟨h.same, hm.1, fun idx ht => .inl (hm.2 idx ▸ ht)⟩
  trans h h' := h.trans h'
  upd r _ s hf := ⟨upd_same hf r s, rfl, fun _ => .inl⟩
  record _ _ := ⟨⟨rfl, rfl, fun _ => rfl⟩, rfl, fun _ => .inl⟩
  connect idx r prot host port s hr := by
    refine ⟨⟨rfl, rfl, fun _ => rfl⟩, Sockets.frame_connect idx prot host port none s.sock, ?_⟩
    intro i hi
    by_cases he : i = idx
    · exact .inr (mem_ids.mpr ⟨r, he ▸ hr⟩)
    · refine .inl fun hs => hi ?_
      refine Sockets.step_sckid_none (a := .connect idx prot host port none) rfl hs ?_ (by simp)
      rintro _ _ _ _ ⟨⟩
      exact he rfl
  disconnect idx cause s :=
    .of_step (b := .disconnect idx cause) (Sockets.frame_disconnect idx cause s.sock) rfl
      (by simp) (by simp)
  close idx s := .of_step (b := .close idx) (Sockets.frame_close idx s.sock) rfl (by simp) (by simp)

theorem Claimed.claims {s t : State} (hs : Claimed s) (h : Claims s t) : Claimed t := by
  intro idx hidx ht
  rw [h.same.ids, h.frame]
  obtain hid | hid := h.sckid idx ht
  · exact hs idx hidx hid
  · exact .inl hid

/-- Others connect and create sockets of their own only. -/
theorem sockact_other {s : State} {a : Act} {b : Sockets.Act} (h : sockact s a = some b) {idx : ℕ}
    (hidx : OTHER_MAX < idx) (prot addr port : LuaString) (cause : Option ℕ) :
    b ≠ .connect idx prot addr port cause ∧ b ≠ .create idx prot addr port cause := by
  cases a with
  | sock c =>
      obtain ⟨⟨ho, -⟩, ⟨⟩⟩ := Option.ite_none_right_eq_some.mp h
      constructor
      · rintro rfl
        simp only [other, decide_eq_true_eq] at ho
        omega
      · rintro rfl
        simp only [other, decide_eq_true_eq] at ho
        omega
  | ret =>
      obtain ⟨-, ⟨⟩⟩ := Option.ite_none_right_eq_some.mp h
      constructor
      · intro hb
        cases hb
      · intro hb
        cases hb
  | _ => cases h

theorem calls_newcall {s u : Sockets.State} {b : Sockets.Act} {c : Sockets.Call}
    (h : Sockets.step s b = some u) (hc : newcall s u = some c) : Sockets.Calls s u c := by
  rw [newcall] at hc
  obtain he | ⟨d, hd⟩ := Sockets.step_once h
  · rw [he] at hc
    simp at hc
  · have hd : u.calls = s.calls ++ [d] := hd
    rw [hd] at hc
    simp only [List.getElem?_concat_length, Option.some.injEq] at hc
    exact hc ▸ hd

/-- A step of the sockets that no client has asked for. -/
theorem Claimed.sockact {s : State} {a : Act} {b : Sockets.Act} {u : Sockets.State}
    (hs : Claimed s) (hw : Sockets.Wired s.sock) (ha : sockact s a = some b)
    (hu : Sockets.step s.sock b = some u) : Claimed { s with sock := u } := by
  intro idx hidx hid
  have hno := sockact_other ha hidx
  have hs' : Sockets.sckid idx s.sock ≠ none := fun hn => hid
    (Sockets.step_sckid_none hu hn (fun p q r c => (hno p q r c).1) fun p q r c => (hno p q r c).2)
  obtain hi | hl := hs idx hidx hs'
  · exact .inl hi
  · obtain hn | hf := Sockets.step_leaves hw hu hl
    · exact absurd hn hid
    · exact .inr (hf ▸ hl)

theorem step_claimed (s : State) (a : Act) (t : State) (hl : Linked s) (hs : Claimed s)
    (h : step conv s a = some t) : Claimed t := by
  cases claims_kept.of_step h with
  | kept hr => exact hs.claims hr
  | created prot host port ver ha hc =>
      obtain ⟨-, ht, -, hi, ho⟩ := create_shift hc
      have hsock : t.sock = s.sock := by
        unfold create at hc
        split at hc
        · cases hc
        · cases hc
          rfl
      intro idx hidx hid
      rw [hsock] at hid ⊢
      rw [ids_append hl.tabled ht hi ho, List.mem_append]
      exact (hs idx hidx hid).imp_left .inl
  | replaced k r v hr hsame hv hk ht =>
      have hids : ids { v with tclients := v.tclients.set k r } = ids v :=
        ids_set hk rfl fun _ => rfl
      refine Claimed.claims (fun idx hidx hid => ?_) ht
      rw [hids]
      exact hs.claims hv idx hidx hid
  | served b u ha hu hsrv =>
      have hc := hs.sockact hl.wired ha hu
      obtain hr | ⟨idx, k, hcall, hk, hr⟩ := claims_kept.of_serve hsrv
      · exact hc.claims hr
      · refine Claimed.claims (fun i hi hid => ?_) hr
        obtain ⟨f, hf, -, hcl⟩ :=
          (Sockets.step_told hl.wired hu).calls (calls_newcall hu hcall)
        by_cases he : i = idx
        · refine .inr ?_
          rw [hf, hcl idx rfl, he]
          rfl
        · refine (hc i hi hid).imp_left fun hmem => ?_
          obtain ⟨r, hr⟩ := mem_ids.mp hmem
          refine mem_ids.mpr ⟨r, ?_⟩
          have hcl := eraseIdx_client (s := { s with sock := u }) hk (Ne.symm he)
          exact hcl.trans hr

end LuatAir200.MqttClients
