import LuatAir200.LinksslKeeps

/-!
# The copy of the IP context

`ipstatus` and `shuting` of `linkssl.lua` follow the messages of `link.lua`. They are
right when no message is on its way, unless an `AT+CIPSHUT` failed while the IP context
was usable: `IP_SHUTING_IND` does not carry the result, and every end of a shutdown is
taken for its success.
-/
namespace LuatAir200.Linkssl
open Lua Machine Replica
open Links (LinkState Action Evt Notice Msg ids MAXLINKS usable hears Announced)

variable {ν : Type}

/-! ## What is kept -/

structure Faithful (s : State ν) : Prop where
  announced : Announced (copy s) s.link
  /-- No connection waits for an IP context that is there. -/
  released : s.ipstatus = true → s.shuting = false → ∀ id, ¬ Parked s id
  low : ∀ id, s.linklist id ≠ none → id ≤ MAXLINKS

theorem Faithful.of_keeps {s t : State ν} (h : Faithful s) (hk : Keeps s t) : Faithful t := by
  have hc := hk.copied
  rw [copy, copy, Prod.mk.injEq] at hc
  refine ⟨?_, fun hi hs id hp => ?_, fun id hl => ?_⟩
  · rw [hk.copied]
    exact h.announced.of_signal hk.signal
  · exact h.released (hc.1 ▸ hi) (hc.2 ▸ hs) id (hk.parked id hp)
  · obtain hl | hl := hk.low id hl
    · exact h.low id hl
    · exact hl

theorem faithful_boot : Faithful (boot : State ν) := by
  have hu : usable (lua "IP INITIAL") = false := by decide
  have hs : Synced hears [] (false, false) (usable (lua "IP INITIAL"), false) := by
    rw [hu]
    exact synced_nil.mpr rfl
  exact ⟨⟨rfl, hs, nofun⟩, nofun, fun id h => absurd rfl h⟩

theorem Faithful.connect {s : State ν} (h : Faithful s) (id : ℕ) (address port : LuaString)
    (chksvrcrt : Bool) (crtconfig : Option Crtconfig) :
    Faithful (connect id address port chksvrcrt crtconfig s).1 := by
  obtain he | ⟨l, -, hl, -, ⟨hw, he⟩ | ⟨-, he⟩⟩ :=
    connect_cases id address port chksvrcrt crtconfig s
  · rw [he]
    exact h
  · rw [he]
    refine ⟨h.announced, fun hi hs => ?_, fun k hk => ?_⟩
    · obtain hw | hw := hw
      · exact absurd (hi.symm.trans hw) (by simp)
      · exact absurd (hs.symm.trans hw) (by simp)
    · by_cases hki : k = id
      · exact h.low k (by rw [hki, hl]; nofun)
      · simp only [setLink, Function.update_of_ne hki] at hk
        exact h.low k hk
  · rw [he]
    exact h.of_keeps (((Keeps.setState hl .connecting).trans (Keeps.init _)).trans (Keeps.reqs _ _))

/-- A message is heard. -/
theorem Faithful.procer {s : State ν} {m : Msg} (ha : Announced (hears (copy s) m) s.link)
    (hr : s.ipstatus = true → s.shuting = false → ∀ id, ¬ Parked s id)
    (hl : ∀ id, s.linklist id ≠ none → id ≤ MAXLINKS) : Faithful (procer m s) := by
  have quiet (hm : hears (copy s) m = copy s) : Faithful s := ⟨hm ▸ ha, hr, hl⟩
  cases m with
  | ipStatusInd b =>
      unfold Linkssl.procer ipstatusind
      dsimp only
      split
      · rename_i hb
        exact quiet (by simp [hears, copy, hb])
      split
      · rename_i hb
        have hk : Keeps { s with ipstatus := b } (connpend ids { s with ipstatus := b }) :=
          Keeps.connpend ids _
        have hclear : ∀ id, ¬ Parked (connpend ids { s with ipstatus := b }) id := by
          intro id hp
          obtain ⟨⟨l, hid, -⟩, hm⟩ := parked_connpend hp
          refine hm ?_
          rw [ids, List.mem_range]
          have := hl id (by
            rw [show s.linklist id = some l from hid]
            nofun)
          omega
        refine ⟨?_, fun _ _ => hclear, fun id hid => ?_⟩
        · rw [hk.copied]
          exact ha.of_signal hk.signal
        · obtain hid | hid := hk.low id hid
          · exact hl id hid
          · exact hid
      · rename_i hb
        refine ⟨ha, fun hi => ?_, hl⟩
        exact absurd hi hb
  | ipShutingInd b =>
      unfold Linkssl.procer ipshutingind
      dsimp only
      split
      · rename_i hb
        subst hb
        exact ⟨ha, nofun, hl⟩
      · rename_i hb
        have hb : b = false := by simpa using hb
        subst hb
        -- the IP context is gone, whatever the result was
        have he : ipstatusind false { s with shuting := false } =
            { s with shuting := false, ipstatus := false } := by
          unfold ipstatusind
          split
          · rename_i hi
            rw [← hi]
          · rfl
        have hi : Faithful { s with shuting := false, ipstatus := false } := ⟨ha, nofun, hl⟩
        unfold shutcnf
        dsimp only
        rw [if_pos rfl, he]
        exact hi.of_keeps (Keeps.shutLoop ids _)
  | netGprsReady b => exact (quiet rfl).of_keeps (Keeps.gprsind b s)
  | _ => exact quiet rfl

/-- The condition on the AT+CIPSHUT responses. -/
def ShutsUsable (s : State ν) : Act ν → Prop
  | .link a => Links.ShutsUsable s.link a
  | _ => True

instance (s : State ν) (a : Act ν) : Decidable (ShutsUsable s a) := by
  unfold ShutsUsable
  split <;> infer_instance

theorem Faithful.step {s t : State ν} {a : Act ν} (h : Faithful s) (hg : ShutsUsable s a)
    (ht : step s a = some t) : Faithful t := by
  cases a with
  | link a =>
      unfold Linkssl.step at ht
      dsimp only at ht
      split at ht
      · cases ht
      obtain ⟨l, hl, ht⟩ := Option.bind_eq_some_iff.mp ht
      have ha := h.announced.step hg hl
      have quiet (hn : Links.told s.link a (copy s) = copy s) : Faithful { s with link := l } :=
        ⟨by rw [hn] at ha; exact ha, h.released, h.low⟩
      cases a with
      | respond success response intermediate =>
          have hf := quiet rfl
          unfold heard at ht
          dsimp only at ht
          split at ht
          · split at ht
            · exact hf.of_keeps (Keeps.rsp ht)
            · cases ht
              exact hf
          · cases ht
            exact hf
      | urc data =>
          have hf := quiet rfl
          cases ht
          split
          · split
            · exact hf.of_keeps (Keeps.urc _ _ _)
            · exact hf
          · exact hf
      | msg =>
          cases ht
          split
          · rename_i m ms hm
            have hto : Links.told s.link .msg (copy s) = hears (copy s) m := by
              simp only [Links.told, hm]
            rw [hto] at ha
            exact Faithful.procer (s := { s with link := l }) ha h.released h.low
          · rename_i hm
            simp [Links.step, hm] at hl
      | _ =>
          cases ht
          exact quiet rfl
  | openid id n tag => cases ht; exact h.of_keeps (Keeps.openid id n tag s)
  | openlink n tag => cases ht; exact h.of_keeps (Keeps.openlink n tag s)
  | close id => cases ht; exact h.of_keeps (Keeps.close id s)
  | connect id address port chksvrcrt crtconfig =>
      cases ht
      exact h.connect id address port chksvrcrt crtconfig
  | disconnect id => cases ht; exact h.of_keeps (Keeps.disconnect id s)
  | send id data => cases ht; exact h.of_keeps (Keeps.send id data s)
  | inputcrt u f d => cases ht; exact h.of_keeps (Keeps.still rfl rfl rfl)
  | ret =>
      obtain ⟨f, -, rfl⟩ := Option.map_eq_some_iff.mp ht
      have hf : Faithful { s with frame := none } := h.of_keeps (Keeps.still rfl rfl rfl)
      exact hf.of_keeps (Keeps.resume f.2 _)

/-- What `linkssl.lua` knows about the IP context is true when no message is on its way, and
while the context is usable a connection waits only for a shutdown that is under way. -/
structure Agrees (s : State ν) : Prop where
  ipstatus : s.link.qmsg = [] → (s.ipstatus = true ↔ usable s.link.ipstatus = true)
  shuting : s.link.qmsg = [] → (s.shuting = true ↔ s.link.shuting = true)
  parked : s.link.qmsg = [] → usable s.link.ipstatus = true → ∀ id, Parked s id →
    s.link.shuting = true ∧ ∃ c ∈ s.link.ril.items, c.cmd = .cipshut

theorem Faithful.agrees {s : State ν} (h : Faithful s) : Agrees s := by
  have hq (he : s.link.qmsg = []) :
      s.ipstatus = usable s.link.ipstatus ∧ s.shuting = s.link.shuting := by
    have := h.announced.synced
    rw [he, synced_nil, copy, Prod.mk.injEq] at this
    exact this
  refine ⟨fun he => ?_, fun he => ?_, fun he hu id hp => ?_⟩
  · rw [(hq he).1]
  · rw [(hq he).2]
  · have hs : s.link.shuting = true := by
      rw [← (hq he).2]
      by_contra hn
      exact h.released ((hq he).1.trans hu) (by simpa using hn) id hp
    exact ⟨hs, h.announced.shut hs⟩

theorem context_agrees (acts : List (Act ν)) (hm : Meets step ShutsUsable boot acts) :
    Along step Agrees boot acts :=
  (along_of_meets (I := fun _ => True) (fun _ _ _ _ _ => trivial)
    (fun _ _ _ _ h hg ht => h.step hg ht) trivial faithful_boot hm).imp fun _ h => h.agrees

section Examples

/-- A connection waits for the IP context and is sent; another one is parked during a
shutdown, which succeeds. -/
theorem context_agrees_shut : Along step Agrees (boot : State Unit)
    ([.openlink () false, .connect 0 (lua "a.b") (lua "443") false none,
      .link (.urc (lua "STATE: IP STATUS")), .link .msg, .link .sendat,
      .link (.respond true (lua "OK") none), .link .shut, .link .msg, .openlink () false,
      .connect 1 (lua "a.b") (lua "443") false none, .link .sendat,
      .link (.respond true (lua "OK") none), .link .sendat, .link (.respond true (lua "OK") none),
      .link .sendat, .link (.respond true (lua "SHUT OK") none), .link .msg, .ret, .link .msg,
      .link .msg]) :=
  context_agrees _ (by decide +kernel)

/-- An `AT+CIPSHUT` fails while the status is `IP STATUS`: the IP context stays, and
`linkssl.lua` takes it for gone and parks the next connection. -/
theorem failed_shut_misheard : ∃ t : State Unit,
    run step boot [.openlink () false, .link (.simstatus true),
      .link (.urc (lua "STATE: IP STATUS")), .link .msg, .link .shut, .link .msg, .link .sendat,
      .link (.respond false (lua "ERROR") none), .link .msg,
      .connect 0 (lua "a.b") (lua "443") false none] = some t ∧
    t.link.qmsg = [] ∧ usable t.link.ipstatus = true ∧ t.link.shuting = false ∧
    t.ipstatus = false ∧ t.link.ril.items = [] ∧ Parked t 0 := by
  refine ⟨_, rfl, rfl, ?_, rfl, rfl, rfl, _, rfl, nofun⟩
  decide

end Examples

end LuatAir200.Linkssl
