import LuatAir200.LinkInputs
import LuatAir200.LinksslKeeps
import LuatAir200.LinksslTable

/-!
# Links on their way out

A link that is `DISCONNECTING` or `CLOSING` waits for the confirmation of a close command.
In `link.lua` the command or a message that stands for it is always there. In
`linkssl.lua` it is missing after a `disconnect` that withdraws a request before the IP
context was there. Apart from that the two modules tell the same to the owners of their
links, because their tables follow the same machine.
-/
namespace LuatAir200

namespace Links
open Lua Machine

variable {ν : Type}

/-- The command, or the message that calls `closecnf`, is there. -/
def Due (s : State ν) : Prop :=
  ∀ id l, s.linklist id = some l → l.state = .disconnecting ∨ l.state = .closing →
    (∃ c ∈ s.ril.items, c.cmd = .cipclose id) ∨ .closecnf id ∈ s.qmsg

theorem due_iff (s : State ν) : Due s ↔ ∀ id l, (view id s).link = some l →
    l.state = .disconnecting ∨ l.state = .closing →
      (∃ c ∈ (view id s).cmds, c.cmd = .cipclose id) ∨ .closecnf id ∈ (view id s).msgs := by
  have hc (id : ℕ) : (∃ c ∈ (view id s).cmds, c.cmd = .cipclose id) ↔
      ∃ c ∈ s.ril.items, c.cmd = .cipclose id := by
    simp only [view, List.mem_filter, decide_eq_true_eq]
    constructor
    · rintro ⟨c, ⟨hc, -⟩, he⟩
      exact ⟨c, hc, he⟩
    · rintro ⟨c, hc, he⟩
      exact ⟨c, ⟨hc, by rw [he]; rfl⟩, he⟩
  have hm (id : ℕ) : .closecnf id ∈ (view id s).msgs ↔ .closecnf id ∈ s.qmsg := by
    simp [view, List.mem_filter]
  simp only [hc, hm]
  rfl

theorem step_due {s t : State ν} {a : Act ν} (hs : Shape s) (hd : Due s)
    (h : step s a = some t) : Due t := by
  rw [due_iff] at hd ⊢
  intro id l
  have he := step_effect hs h id
  -- what is due before an event is due after it, unless the event is the confirmation
  have htaken (hl : ∀ l, s.linklist id = some l → closeOf s a ≠ some id) :
      ∀ l, s.linklist id = some l → l.state = .disconnecting ∨ l.state = .closing →
        (∃ c ∈ (view id (taken s a)).cmds, c.cmd = .cipclose id) ∨
          .closecnf id ∈ (view id (taken s a)).msgs := by
    intro k hk hst
    obtain hv | ⟨c, hc, hv⟩ | ⟨m, hm, hv⟩ := view_taken s a id
    · rw [hv]
      exact hd id k hk hst
    · obtain ⟨d, hdm, hdc⟩ | hq := hd id k hk hst
      · rw [hv] at hdm
        obtain rfl | hdm := List.mem_cons.mp hdm
        · exact absurd (hc hdc) (hl k hk)
        · exact .inl ⟨d, hdm, hdc⟩
      · rw [hv] at hq
        exact .inr hq
    · obtain hq | hq := hd id k hk hst
      · rw [hv] at hq
        exact .inl hq
      · rw [hv] at hq
        obtain he | hq := List.mem_cons.mp hq
        · exact absurd (hm he.symm) (hl k hk)
        · exact .inr hq
  generalize hv : view id t = v at he
  intro hl hst
  cases he with
  | quiet hc =>
      have hl' : s.linklist id = some l := by rw [← taken_linklist s a]; exact hl
      by_cases hclose : closeOf s a = some id
      · obtain ⟨h1, h2⟩ := hc hclose l hl'
        exact hst.elim (fun h => absurd h h1) fun h => absurd h h2
      · exact htaken (fun _ _ => hclose) l hl' hst
  | opened n tag =>
      cases hl
      simp at hst
  | closing k => exact .inl ⟨_, List.mem_append_right _ List.mem_cons_self, rfl⟩
  | called k =>
      cases hl
      simp at hst
  | parked k =>
      cases hl
      simp at hst
  | started k =>
      cases hl
      simp at hst
  | withdrawn k => exact .inr (List.mem_append_right _ List.mem_cons_self)
  | disconnecting k => exact .inl ⟨_, List.mem_append_right _ List.mem_cons_self, rfl⟩
  | sent k data ha hk =>
      obtain ⟨c, hc, he⟩ | hq := hd id l hl hst
      · exact .inl ⟨c, List.mem_append_left _ hc, he⟩
      · exact .inr hq
  | dropped no data cs ha hc =>
      obtain ⟨c, hm, he⟩ | hq := hd id l hl hst
      · rw [hc] at hm
        obtain rfl | hm := List.mem_cons.mp hm
        · cases he
        · exact .inl ⟨c, hm, he⟩
      · exact .inr hq
  | released k c n hr hi hk =>
      cases hl
      obtain ⟨d, hm, he⟩ | hq := hd id k hk hst
      · exact .inl ⟨d, List.mem_append_left _ hm, he⟩
      · exact .inr hq
  | status k st =>
      cases hl
      dsimp only at hst
      split at hst <;> simp at hst
  | shuted k =>
      cases hl
      simp at hst
  | disconnected k =>
      cases hl
      simp at hst
  | closed k => cases hl

theorem run_due (as : List (Act ν)) : Along step Due boot as :=
  along_of_meets (I := Shape) (fun s a t hs => step_shape s a t hs)
    (fun _ _ _ hs hd _ h => step_due hs hd h) boot_shape (fun _ _ h => by cases h)
    (meets_true boot as)

end Links

namespace Linkssl
open Lua Machine Tracing
open Links (LinkState Action Evt Notice Msg ids MAXLINKS)
open LinkTable (Input Table Leaving)

variable {ν : Type}

/-! ## The queue and the ids -/

theorem step_within {s t : State ν} {a : Act ν} (h : step s a = some t) :
    (∀ c ∈ s.link.ril.items, c.cmd.wellFormed = true → c ∈ t.link.ril.items ∨
      s.link.ril.current = some c ∧ ∃ success response intermediate,
        a = .link (.respond success response intermediate)) ∧
    ∀ id, t.linklist id ≠ none → s.linklist id ≠ none ∨ id ≤ MAXLINKS := by
  have plain (h : Within s t) : (∀ c ∈ s.link.ril.items, c.cmd.wellFormed = true →
      c ∈ t.link.ril.items ∨ s.link.ril.current = some c ∧ ∃ success response intermediate,
        a = .link (.respond success response intermediate)) ∧
      ∀ id, t.linklist id ≠ none → s.linklist id ≠ none ∨ id ≤ MAXLINKS :=
    ⟨fun c hc _ => .inl (h.adds.subset hc), h.low⟩
  cases a with
  | link a =>
      unfold step at h
      dsimp only at h
      split at h
      · cases h
      obtain ⟨l, hl, h⟩ := Option.bind_eq_some_iff.mp h
      have hw : Within { s with link := l } t := by
        cases a with
        | respond success response intermediate =>
            unfold heard at h
            dsimp only at h
            split at h
            · split at h
              · exact (Keeps.rsp h).toWithin
              · cases h
                exact (Keeps.refl _).toWithin
            · cases h
              exact (Keeps.refl _).toWithin
        | urc data =>
            cases h
            split
            · split
              · exact (Keeps.urc _ _ _).toWithin
              · exact (Keeps.refl _).toWithin
            · exact (Keeps.refl _).toWithin
        | msg =>
            cases h
            split
            · exact Within.procer _ _
            · exact (Keeps.refl _).toWithin
        | _ =>
            cases h
            exact (Keeps.refl _).toWithin
      refine ⟨fun c hc hwf => ?_, hw.low⟩
      obtain hc | ⟨hcur, success, response, intermediate, rfl⟩ := Links.step_stays hl hc hwf
      · exact .inl (hw.adds.subset hc)
      · exact .inr ⟨hcur, success, response, intermediate, rfl⟩
  | openid id n tag => cases h; exact plain (Keeps.openid id n tag s).toWithin
  | openlink n tag => cases h; exact plain (Keeps.openlink n tag s).toWithin
  | close id => cases h; exact plain (Keeps.close id s).toWithin
  | connect id address port chksvrcrt crtconfig =>
      cases h
      exact plain (Within.connect id address port chksvrcrt crtconfig s)
  | disconnect id => cases h; exact plain (Keeps.disconnect id s).toWithin
  | send id data => cases h; exact plain (Keeps.send id data s).toWithin
  | inputcrt u f d =>
      cases h
      have hk : Keeps s (inputcrt u f d s) := Keeps.still rfl rfl rfl
      exact plain hk.toWithin
  | ret =>
      obtain ⟨f, -, rfl⟩ := Option.map_eq_some_iff.mp h
      have hf : Keeps s { s with frame := none } := Keeps.still rfl rfl rfl
      exact plain (hf.trans (Keeps.resume f.2 _)).toWithin

/-! ## The close command is due -/

/-- An `AT+SSLDESTROY` for `id` is queued or outstanding. -/
def Destroys (s : State ν) (id : ℕ) : Prop :=
  ∃ c ∈ s.link.ril.items, c.cmd = .other (destroystr id)

instance (s : State ν) (id : ℕ) : Decidable (Destroys s id) := by
  unfold Destroys
  infer_instance

/-- No message calls `closecnf` here, so the command is the only thing to wait for. -/
def Due (s : State ν) : Prop :=
  ∀ id l, s.linklist id = some l → l.state = .disconnecting ∨ l.state = .closing → Destroys s id

theorem due_iff (s : State ν) : Due s ↔ ∀ id, Leaving (table s) id → Destroys s id := by
  constructor
  · rintro h id ⟨e, he, hst⟩
    obtain ⟨l, hl, rfl⟩ := Option.map_eq_some_iff.mp he
    exact h id l hl hst
  · exact fun h id l hl hst => h id ⟨entry l, entries_some hl, hst⟩

/-- The request of link `id` waits for the IP context, which is not there. -/
def withdraws (s : State ν) (id : ℕ) : Bool :=
  match s.linklist id with
  | some l => l.pending.isSome && !s.ipstatus && l.state = .connecting
  | none => false

/-- A `disconnect` that withdraws a request finds an older `AT+SSLDESTROY` under way. -/
def KeepsDue (s : State ν) : Act ν → Prop
  | .disconnect id => withdraws s id = true → Destroys s id
  | _ => True

instance (s : State ν) : (a : Act ν) → Decidable (KeepsDue s a)
  | .disconnect id => inferInstanceAs (Decidable (withdraws s id = true → Destroys s id))
  | .link _ => .isTrue trivial
  | .openid _ _ _ => .isTrue trivial
  | .openlink _ _ => .isTrue trivial
  | .close _ => .isTrue trivial
  | .connect _ _ _ _ _ => .isTrue trivial
  | .send _ _ => .isTrue trivial
  | .inputcrt _ _ _ => .isTrue trivial
  | .ret => .isTrue trivial

/-- The response to an `AT+SSLDESTROY` is the confirmation for its link. -/
theorem destroystr_closes {id : ℕ} (h : id ≤ MAXLINKS) (response : LuaString) :
    regrsp (destroystr id) = true ∧
      (rspInputs (destroystr id) response : List (Input ν)) = [.closed id] := by
  have hp : ∀ id ≤ MAXLINKS, regrsp (destroystr id) = true ∧
      smatch1 (destroystr id) (lua "AT(%+%u+)") = some (lua "+SSLDESTROY") ∧
      (smatch1 (destroystr id) (lua "AT%+%u+=(%d)")).map tonumber = some id := by decide +kernel
  obtain ⟨hr, h1, h2⟩ := hp id h
  refine ⟨hr, ?_⟩
  unfold rspInputs
  dsimp only
  rw [h1, h2, if_neg (by decide), if_neg (by decide), if_pos rfl]

/-- An event is no call. -/
theorem linkInputs_event {s : State ν} {a : Links.Act ν} {i : Input ν} (h : i ∈ linkInputs s a)
    (id : ℕ) : i ≠ .close id ∧ i ≠ .disconnect id := by
  cases a with
  | respond success response intermediate =>
      simp only [linkInputs] at h
      split at h
      · split at h
        · unfold rspInputs at h
          dsimp only at h
          split at h
          · split at h
            · split at h
              · simp [List.mem_singleton.mp h]
              · cases h
            · cases h
          split at h
          · split at h
            · simp [List.mem_singleton.mp h]
            · cases h
          split at h
          · split at h
            · simp [List.mem_singleton.mp h]
            · cases h
          · cases h
        · cases h
      · cases h
  | urc data =>
      simp only [linkInputs] at h
      split at h
      · cases h
      split at h
      · cases h
      split at h
      · simp [List.mem_singleton.mp h]
      · cases h
  | msg =>
      simp only [linkInputs] at h
      split at h
      · split at h
        · cases h
        · simp [List.mem_singleton.mp h]
      · simp [List.mem_singleton.mp h]
      · cases h
  | _ => cases h

theorem leaving_inputs {s t : State ν} {a : Act ν} {id : ℕ} (h : step s a = some t)
    (hl : Leaving (table t) id) :
    (Leaving (table s) id ∧ .closed id ∉ inputs s a) ∨ a = .close id ∨ a = .disconnect id := by
  rw [follows_table s a t h] at hl
  obtain hl | hm | hm := LinkTable.leaving_foldl hl
  · exact .inl hl
  · right
    cases a with
    | link a => exact absurd rfl (linkInputs_event hm id).1
    | _ => simp_all [inputs]
  · right
    cases a with
    | link a => exact absurd rfl (linkInputs_event hm id).2
    | _ => simp_all [inputs]

theorem destroys_req (id : ℕ) (s : State ν) : Destroys (req (destroystr id) s) id := by
  refine ⟨⟨s.link.requests.length, .other (destroystr id)⟩, ?_, rfl⟩
  simp [req, Links.req]

/-- A link that was on its way out before the step. -/
theorem step_destroys {s t : State ν} {a : Act ν} {id : ℕ} (h : step s a = some t)
    (hid : id ≤ MAXLINKS) (hd : Destroys s id) (hc : .closed id ∉ inputs s a) : Destroys t id := by
  obtain ⟨c, hm, he⟩ := hd
  obtain hm | ⟨hcur, success, response, intermediate, rfl⟩ :=
    (step_within h).1 c hm (by rw [he]; rfl)
  · exact ⟨c, hm, he⟩
  · obtain ⟨no, cmd⟩ := c
    subst he
    obtain ⟨hr, hi⟩ := destroystr_closes (ν := ν) hid response
    refine absurd ?_ hc
    simp only [inputs, linkInputs, hcur, hr, if_true, hi]
    exact List.mem_cons_self

theorem close_destroys {s : State ν} {id : ℕ} (hd : Due s)
    (hl : Leaving (table (close id s).1) id) : Destroys (close id s).1 id := by
  unfold close at hl ⊢
  split at hl
  · exact destroys_req id _
  · exact (due_iff s).mp hd id hl

theorem withdraws_iff {s : State ν} {id : ℕ} {l : Link ν} (hl : s.linklist id = some l) :
    withdraws s id = true ↔ l.pending ≠ none ∧ !s.ipstatus ∧ l.state = .connecting := by
  simp [withdraws, hl, Option.isSome_iff_ne_none, and_assoc]

/-- Only the shortcut of `disconnect` can leave a link without its command. -/
theorem disconnect_destroys {s : State ν} {id : ℕ} (hd : Due s)
    (hl : Leaving (table (disconnect id s).1) id) :
    Destroys (disconnect id s).1 id ↔ (withdraws s id = true → Destroys s id) := by
  unfold disconnect at hl ⊢
  split at hl
  · rename_i l hv hlink
    by_cases hw : l.pending ≠ none ∧ !s.ipstatus ∧ l.state = .connecting
    · rw [if_pos hw]
      constructor
      · exact fun h _ => h
      · exact fun h => h ((withdraws_iff hlink).mpr hw)
    · rw [if_neg hw]
      constructor
      · exact fun _ h => absurd ((withdraws_iff hlink).mp h) hw
      · exact fun _ => destroys_req id _
  · exact ⟨fun h _ => h, fun _ => (due_iff s).mp hd id hl⟩

/-- The request is withdrawn and the link waits for a confirmation. -/
theorem withdraws_leaving {s : State ν} {id : ℕ} (h : withdraws s id = true) :
    Leaving (table (disconnect id s).1) id := by
  cases hl : s.linklist id with
  | none => simp [withdraws, hl] at h
  | some l =>
      have hw := (withdraws_iff hl).mp h
      have hv : validaction s id .disconnect = true := by
        simp only [validaction, hl, hw.2.2]
        decide
      refine ⟨entry { l with pending := none, state := .disconnecting }, ?_, .inl rfl⟩
      unfold disconnect
      rw [hv, hl]
      dsimp only
      rw [if_pos hw, table_setLink]
      simp [Table.set]

theorem step_due {s t : State ν} {a : Act ν} (hlow : ∀ id, s.linklist id ≠ none → id ≤ MAXLINKS)
    (hd : Due s) (h : step s a = some t) : Due t ↔ KeepsDue s a := by
  constructor
  · intro ht
    cases a with
    | disconnect id =>
        intro hw
        cases h
        have hl := withdraws_leaving hw
        exact (disconnect_destroys hd hl).mp ((due_iff _).mp ht id hl) hw
    | _ => trivial
  · intro hk
    rw [due_iff]
    intro id hl
    obtain ⟨hs, hc⟩ | rfl | rfl := leaving_inputs h hl
    · have hid : id ≤ MAXLINKS := by
        obtain ⟨e, he, -⟩ := hs
        refine hlow id fun hn => ?_
        rw [entries_none hn] at he
        cases he
      exact step_destroys h hid ((due_iff s).mp hd id hs) hc
    · cases h
      exact close_destroys hd hl
    · cases h
      exact (disconnect_destroys hd hl).mpr hk

/-! ## Both modules -/

/-- `linkssl.lua` keeps a close command for each link on its way out exactly if every request
is withdrawn under one; `link.lua` always does. And whatever calls and events come, as long
as there is no `SEND FAIL` and no result of a send that says `ERROR`, the owners are told the
same. -/
theorem transitional_due (as : List (Links.Act ν)) (bs : List (Act ν)) :
    (Along step Due boot bs ↔ Meets step KeepsDue boot bs) ∧
    Along Links.step Links.Due Links.boot as ∧
    ∀ s t, run Links.step Links.boot as = some s → run step boot bs = some t →
      trace Links.step Links.inputs Links.boot as = trace step inputs boot bs →
      (∀ i ∈ trace step inputs boot bs, i.Common Links.dialect dialect) → s.log = t.log := by
  refine ⟨?_, Links.run_due as, ?_⟩
  · refine along_iff_meets (I := fun s => ∀ id, s.linklist id ≠ none → id ≤ MAXLINKS) ?_
      (fun _ _ _ hlow hd h => step_due hlow hd h) (fun _ h => absurd rfl h)
      (fun _ _ h => by cases h) bs
    intro s a t hs h id hl
    obtain hl | hl := (step_within h).2 id hl
    · exact hs id hl
    · exact hl
  · intro s t hs ht he hcom
    have h1 := Links.follows_table.run hs
    have h2 := follows_table.run ht
    have hb : Links.table (Links.boot : Links.State ν) = table boot := rfl
    rw [he, hb, foldl_congr (fun i hi v => LinkTable.step_common (hcom i hi) v), ← h2] at h1
    exact congrArg Table.log h1

section Examples

/-- A connection that waits for the IP context, is made and is taken down again. -/
def linkRun : List (Links.Act Unit) :=
  [.openlink () false, .connect 0 (lua "TCP") (lua "a.b") (lua "80"), .urc (lua "STATE: IP STATUS"),
    .sendat, .respond true (lua "OK") none, .urc (lua "0, CONNECT OK"), .ret, .disconnect 0,
    .sendat, .respond true (lua "0, CLOSE OK") none, .ret]

/-- The same over SSL. -/
def sslRun : List (Act Unit) :=
  [.openlink () false, .connect 0 (lua "a.b") (lua "80") false none,
    .link (.urc (lua "STATE: IP STATUS")), .link .msg, .link .sendat,
    .link (.respond true (lua "OK") none), .link .sendat, .link (.respond true (lua "OK") none),
    .link .sendat, .link (.respond true (lua "OK") none), .link (.urc (lua "SSL&0, CONNECT OK")),
    .ret, .disconnect 0, .link .sendat, .link (.respond true (lua "SSL&0, CLOSE OK") none), .ret]

theorem transitional_due_same : ∃ s t, run Links.step Links.boot linkRun = some s ∧
    run step boot sslRun = some t ∧ Along step Due boot sslRun ∧ s.log.length = 2 ∧
    s.log = t.log := by
  obtain ⟨hdue, -, hsame⟩ := transitional_due linkRun sslRun
  have hs : (run Links.step Links.boot linkRun).map (fun s => s.log.length) = some 2 := by
    decide +kernel
  have ht : (run step boot sslRun).isSome = true := by decide +kernel
  obtain ⟨s, hs, hlog⟩ := Option.map_eq_some_iff.mp hs
  obtain ⟨t, ht⟩ := Option.isSome_iff_exists.mp ht
  exact ⟨s, t, hs, ht, hdue.mpr (by decide +kernel), hlog,
    hsame s t hs ht (by decide +kernel) (by decide +kernel)⟩

/-- A request that waits for the IP context is withdrawn: the link stays `DISCONNECTING`,
with nothing in any queue, and refuses every later `connect`. -/
theorem withdrawn_stuck : ∃ t : State Unit,
    run step boot [.openlink () false, .connect 0 (lua "a.b") (lua "443") false none,
      .disconnect 0] = some t ∧
    (t.linklist 0).map Link.state = some .disconnecting ∧ t.link.ril.items = [] ∧
    t.link.qmsg = [] ∧ t.log = [] ∧ (connect 0 (lua "a.b") (lua "443") false none t).2 = false :=
  ⟨_, rfl, rfl, rfl, rfl, rfl, rfl⟩

end Examples

end Linkssl
end LuatAir200
