import LuatAir200.MqttLeave
import LuatAir200.MqttWithin

/-!
# No timer for a dead client

The timers of `mqtt.lua` know a client by the index of its socket, and not all of them stop
when it goes. The one of `datinactive` restarts the device.
-/
namespace LuatAir200.MqttClients
open Lua Machine Mqtt

variable {conv : Conv}

/-- Each active timer and each packet has a client, and the timer of `datinactive` one that
is to stay. -/
structure Live (s : State) : Prop where
  timers : ∀ f idx, s.timers f idx = true → idx ∈ ids s
  tlist : ∀ e ∈ s.dup.tlist, e.sckidx ∈ ids s
  active : ∀ idx r, s.timers .datinactive idx = true → client idx s = some r →
    gone r s.hist = false

theorem boot_live : Live boot := ⟨nofun, nofun, nofun⟩

section
variable {s t : State}

theorem Live.within (hs : Live s) (h : Within s t) : Live t where
  timers f idx ht := by
    rw [h.same.ids]
    obtain ht | hi := h.timers f idx ht
    · exact hs.timers f idx ht
    · exact hi
  tlist e he := by
    rw [h.same.ids]
    obtain ⟨d, hd, hde⟩ | hi := h.tlist e he
    · exact hde ▸ hs.tlist d hd
    · exact hi
  active idx r ht hr := by
    rw [h.datinactive] at ht
    rw [h.same.client] at hr
    rw [h.gone]
    exact hs.active idx r ht hr

/-- What holds of the timer of `datinactive` held before. -/
theorem Within.active (h : Within s t) (ht : Live t) (idx r : ℕ)
    (hd : s.timers .datinactive idx = true) (hr : client idx s = some r) :
    MqttClients.gone r s.hist = false := by
  rw [← h.gone]
  apply ht.active idx r
  · rw [h.datinactive, hd]
  · rw [h.same.client, hr]

theorem gone_record (r : ℕ) (v : Event) : gone r (record v s).hist = v.leaves r (gone r s.hist) :=
  gone_append r s.hist v

/-- A client is told to go: its timer must not be active then. -/
theorem left_live {r : ℕ} {v : Event} (hv : ∀ g, v.leaves r g = true)
    (hq : ∀ q, q ≠ r → ∀ g, v.leaves q g = g) {f : Client → Client}
    (hf : ∀ c, (f c).sckidx = c.sckidx) (hs : Live s) (h : Within (record v (upd r f s)) t) :
    Live t ↔ (client (s.objs r).sckidx s = some r →
      s.timers .datinactive (s.objs r).sckidx = false) := by
  have hsame : Same s (record v (upd r f s)) := (upd_same hf r s).record v
  constructor
  · intro ht hr
    by_contra hd
    rw [Bool.not_eq_false] at hd
    have hg := h.active ht (s.objs r).sckidx r hd (by rw [hsame.client, hr])
    rw [gone_record, hv] at hg
    cases hg
  · intro hc
    have hu : Live (record v (upd r f s)) := by
      refine ⟨fun g idx hg => hsame.ids ▸ hs.timers g idx hg, fun e he => hsame.ids ▸ hs.tlist e he, ?_⟩
      intro idx q hd hqc
      rw [hsame.client] at hqc
      rw [gone_record]
      by_cases he : q = r
      · subst he
        have hidx := (client_sckidx hqc).2
        rw [← hidx] at hqc hd
        have hn := hc hqc
        rw [show s.timers .datinactive (s.objs q).sckidx = true from hd] at hn
        cases hn
      · rw [hq q he]
        exact hs.active idx q hd hqc
    exact hu.within h

/-- `checkdatactive` is called for a client that is to stay. -/
theorem checkdatactive_live {idx : ℕ} {u : State} (hs : Live s)
    (h : checkdatactive idx s = some u) (hu : Within u t) :
    Live t ↔ ∀ r, client idx s = some r → gone r s.hist = false := by
  obtain ⟨p, hp, h⟩ := Option.bind_eq_some_iff.mp h
  obtain ⟨k, -, rfl⟩ := Option.map_eq_some_iff.mp h
  have hsame : Same s (timer_start .datinactive idx s) := ⟨rfl, rfl, fun _ => rfl⟩
  constructor
  · intro ht r hr
    apply hu.active ht idx r
    · rw [timer_start_timers, if_pos ⟨rfl, rfl⟩]
    · rw [hsame.client, hr]
  · intro hg
    refine Live.within (s := timer_start .datinactive idx s) ⟨?_, hs.tlist, ?_⟩ hu
    · intro f i hf
      rw [timer_start_timers] at hf
      split at hf
      · rename_i he
        exact mem_ids.mpr ⟨p, he.2 ▸ hp⟩
      · exact hs.timers f i hf
    · intro i r hi hr
      rw [hsame.client] at hr
      rw [timer_start_timers] at hi
      split at hi
      · rename_i he
        exact hg r (he.2 ▸ hr)
      · exact hs.active i r hi hr

theorem create_live {prot host port : LuaString} {ver : Option LuaString} (htab : Tabled s)
    (hs : Live s) (h : create prot host port ver s = some t) : Live t := by
  obtain ⟨-, ht, -, hi, ho⟩ := create_shift h
  have hids := ids_append htab ht hi ho
  have hrest : t.timers = s.timers ∧ t.dup = s.dup ∧ t.hist = s.hist := by
    unfold create at h
    split at h
    · cases h
    · cases h
      exact ⟨rfl, rfl, rfl⟩
  obtain ⟨htimers, hdup, hhist⟩ := hrest
  refine ⟨fun f idx hf => ?_, fun e he => ?_, fun idx r hd hr => ?_⟩
  · rw [hids]
    exact List.mem_append_left _ (hs.timers f idx (htimers ▸ hf))
  · rw [hids]
    exact List.mem_append_left _ (hs.tlist e (hdup ▸ he))
  · rw [htimers] at hd
    rw [hhist]
    obtain ⟨q, hq⟩ := mem_ids.mp (hs.timers .datinactive idx hd)
    refine hs.active idx r hd ?_
    rw [client_find, ht, List.find?_append] at hr
    have hold : s.tclients.find? (fun i => decide ((t.objs i).sckidx = idx)) =
        s.tclients.find? fun i => decide ((s.objs i).sckidx = idx) := by
      refine List.find?_congr fun i hmem => ?_
      rw [ho i (htab.exist i hmem)]
    rw [hold, ← client_find, hq, Option.some_or] at hr
    rw [hq, hr]

end

/-! ## Events of the sockets -/

/-- A client goes only when its timers have stopped, but for that of `pingreq`. -/
def Spared (b : Sockets.Act) (s : State) : Prop :=
  ∀ u idx, Sockets.step s.sock b = some u → newcall s.sock u = some (.close idx) →
    OTHER_MAX < idx → ∀ f, f ≠ .pingreq → s.timers f idx = false

section
variable {s t : State}

/-- The event `CLOSE` takes the only client with the index out of `tclients`. -/
theorem close_live {idx : ℕ} (hs : Live s) (hn : (ids s).Nodup)
    (h : ntfy conv (.close idx) s = some t) :
    Live t ↔ ∀ f, f ≠ .pingreq → s.timers f idx = false := by
  obtain ⟨k, hk, h⟩ := Option.bind_eq_some_iff.mp h
  obtain ⟨r, hr, h⟩ := Option.map_eq_some_iff.mp h
  have hw := told_within (v := .destroycb) (by exact fun _ _ _ => rfl) (s.objs r).destroycb
    { rmvall idx (timer_stop .pingreq idx s) with tclients := s.tclients.eraseIdx k }
  have htold : (told .destroycb (s.objs r).destroycb
      { rmvall idx (timer_stop .pingreq idx s) with tclients := s.tclients.eraseIdx k }).timers =
        (timer_stop .pingreq idx s).timers := by
    cases (s.objs r).destroycb <;> rfl
  rw [show told .destroycb (s.objs r).destroycb
    { rmvall idx (timer_stop .pingreq idx s) with tclients := s.tclients.eraseIdx k } = t from h]
    at hw htold
  have hids : ids t = (ids s).eraseIdx k := hw.same.ids.trans (ids_eraseIdx rfl fun _ => rfl)
  have hother {i : ℕ} (hi : i ≠ idx) : client i t = client i s := by
    rw [hw.same.client]
    exact eraseIdx_client hk (Ne.symm hi)
  have hgone : idx ∉ ids t := by
    rw [hids]
    rw [getclient_ids] at hk
    obtain ⟨hlt, hval, -⟩ := List.findIdx?_eq_some_iff_getElem.mp hk
    have hval : (ids s)[k] = idx := by simpa using hval
    rw [← hn.erase_getElem k hlt, hval]
    exact hn.not_mem_erase
  constructor
  · intro ht f hf
    by_contra hd
    rw [Bool.not_eq_false] at hd
    refine hgone (ht.timers f idx ?_)
    rw [htold, timer_stop_timers, if_neg]
    · exact hd
    · exact fun he => hf he.1
  · intro hf
    have hstop {f : TimerFnc} {i : ℕ} (hd : t.timers f i = true) :
        i ≠ idx ∧ s.timers f i = true := by
      rw [htold, timer_stop_timers] at hd
      split at hd
      · cases hd
      · rename_i he
        refine ⟨?_, hd⟩
        rintro rfl
        rw [hf f fun hp => he ⟨hp, rfl⟩] at hd
        cases hd
    refine ⟨fun f i hi => ?_, fun e he => ?_, fun i q hi hq => ?_⟩
    · obtain ⟨hne, hd⟩ := hstop hi
      obtain ⟨q, hq⟩ := mem_ids.mp (hs.timers f i hd)
      exact mem_ids.mpr ⟨q, (hother hne).trans hq⟩
    · obtain ⟨d, hd, -⟩ | hi := hw.tlist e he
      · rw [show ({ rmvall idx (timer_stop .pingreq idx s) with
          tclients := s.tclients.eraseIdx k } : State).dup.tlist = [] from rmvall_tlist idx _] at hd
        cases hd
      · exact hw.same.ids ▸ hi
    · obtain ⟨hne, hd⟩ := hstop hi
      rw [hw.gone]
      exact hs.active i q hd ((hother hne).symm.trans hq)

theorem serve_live {b : Sockets.Act} {u : Sockets.State} (hl : Linked s) (hc : Claimed s)
    (hn : (ids s).Nodup) (hs : Live s) (hu : Sockets.step s.sock b = some u)
    (h : serve conv u s = some t) : Live t ↔ Spared b s := by
  have hq : Within s { s with sock := u } := .of_eq rfl rfl rfl rfl rfl rfl
  have hspared : Spared b s ↔ ∀ idx, newcall s.sock u = some (.close idx) → OTHER_MAX < idx →
      ∀ f, f ≠ .pingreq → s.timers f idx = false := by
    constructor
    · intro hb idx
      exact hb u idx hu
    · intro hb v idx hv
      rw [hu] at hv
      cases hv
      exact hb idx
  rw [hspared]
  unfold serve at h
  split at h
  · rename_i c hcall
    rw [hcall]
    split at h
    · rename_i hidx
      by_cases hclose : ∃ idx, c = .close idx
      · obtain ⟨idx, rfl⟩ := hclose
        rw [close_live (hs.within hq) hn h]
        constructor
        · rintro hf i ⟨⟩ -
          exact hf
        · exact fun hf => hf idx rfl hidx
      · refine iff_of_true ((hs.within hq).within ?_) ?_
        · refine ntfy_within (fun idx he => hclose ⟨idx, he⟩) (fun idx item he => ?_) h
          subst he
          obtain ⟨f, -, hlasts, -⟩ :=
            (Sockets.step_told hl.wired hu).calls (calls_newcall hu hcall)
          obtain ⟨hid, hleave⟩ := hlasts idx item rfl
          exact (hc idx hidx hid).resolve_right hleave
        · rintro idx ⟨⟩
          exact absurd ⟨idx, rfl⟩ hclose
    · rename_i hidx
      cases h
      refine iff_of_true (hs.within hq) ?_
      rintro idx ⟨⟩ hi
      exact absurd hi hidx
  · rename_i hcall
    cases h
    refine iff_of_true (hs.within hq) ?_
    rw [hcall]
    exact nofun

end

/-! ## Runs -/

/-- No client goes, or is told to go, while a timer of its own is active that would not
stop, and no data comes for a client that is to go. -/
def Orderly (s : State) : Act → Prop
  | .destroy r _ | .disconnect r _ => client (s.objs r).sckidx s = some r →
      s.timers .datinactive (s.objs r).sckidx = false
  | .sock b => Spared b s
  | .ret =>
      match s.frame with
      | some (.rcv idx _ true) => ∀ r, client idx s = some r → gone r s.hist = false
      | some _ => True
      | none => Spared .ret s
  | _ => True

section
variable {s t : State}

/-- The client that calls `connect` is one that is to stay. -/
theorem replaced_live {k r : ℕ} {v : State} (hs : Live s) (hsame : Same s v)
    (htimers : v.timers = s.timers) (hdup : v.dup = s.dup)
    (hgone : ∀ q, gone q v.hist = (Event.connect r).leaves q (gone q s.hist))
    (hk : getclient (v.objs r).sckidx v = some k) :
    Live { v with tclients := v.tclients.set k r } ∧ gone r v.hist = false := by
  have hset : ids { v with tclients := v.tclients.set k r } = ids v :=
    ids_set hk rfl (by exact fun _ => rfl)
  have hids := hset.trans hsame.ids
  have hr : gone r v.hist = false := by
    rw [hgone]
    simp [Event.leaves]
  refine ⟨⟨fun g idx hg => ?_, fun e he => ?_, fun idx q hd hq => ?_⟩, hr⟩
  · rw [hids]
    exact hs.timers g idx (htimers ▸ hg)
  · rw [hids]
    exact hs.tlist e (hdup ▸ he)
  · by_cases hi : (v.objs r).sckidx = idx
    · have hq' := (replaced_client hk).symm.trans (hi ▸ hq)
      cases hq'
      exact hr
    · rw [set_client hk hi, hsame.client] at hq
      have hne : r ≠ q := by
        rintro rfl
        exact hi ((hsame.sckidx r).trans (client_sckidx hq).2)
      have hold := hs.active idx q (htimers ▸ hd) hq
      rw [show ({ v with tclients := v.tclients.set k r } : State).hist = v.hist from rfl, hgone, hold]
      simp [Event.leaves]

theorem tmqttConnect_live {r : ℕ} {clientid : Option LuaString} {keepalive : Option ℕ}
    {user password : Option LuaString} {cbs : ConnectCbs} (hs : Live s)
    (h : tmqtt.connect conv r clientid keepalive user password cbs s = some t) : Live t := by
  unfold tmqtt.connect at h
  generalize hf : (fun c : Client => _) = f at h
  have hf' (c : Client) : (f c).sckidx = c.sckidx := by rw [← hf]
  have hsame : Same s (record (.connect r) (upd r f s)) := (upd_same hf' r s).record _
  have hgone (q : ℕ) := gone_record (s := upd r f s) q (.connect r)
  dsimp only at h
  obtain ⟨k, hk, h⟩ := Option.bind_eq_some_iff.mp h
  obtain ⟨hw, hr⟩ := replaced_live hs hsame rfl rfl hgone hk
  have hself := replaced_client hk
  split at h
  · cases h
    exact hw
  split at h
  · exact hw.within (mqttsnd_within h)
  · obtain ⟨x, hx, h⟩ := Option.bind_eq_some_iff.mp h
    have hwx := connect_within hx
    refine (checkdatactive_live (hw.within hwx) h (.refl t)).mpr fun q hq => ?_
    rw [hwx.same.client, hself] at hq
    cases hq
    rw [hwx.gone]
    exact hr

theorem step_live {a : Act} (hl : Linked s) (hc : Claimed s) (hn : (ids s).Nodup) (hs : Live s)
    (h : step conv s a = some t) : Live t ↔ Orderly s a := by
  have guard {r : ℕ} {o : Option State} (h : (if r < s.count then o else none) = some t) :
      o = some t := (Option.ite_none_right_eq_some.mp h).2
  have quiet {f : Client → Client} (hf : ∀ c, (f c).sckidx = c.sckidx) (r : ℕ) :
      Within s (upd r f s) := upd_within hf r s
  have within (hw : Within s t) : Live t := hs.within hw
  cases a with
  | create prot host port ver => exact iff_of_true (create_live hl.tabled hs h) trivial
  | change r prot host port =>
      cases guard h
      exact iff_of_true (within (quiet (by exact fun _ => rfl) r)) trivial
  | destroy r destroycb =>
      cases guard h
      exact left_live (v := .destroy r destroycb) (by simp [Event.leaves]) (by
        intro q hq g
        simp [Event.leaves, hq.symm]) (by exact fun _ => rfl) hs (closeAll_within _ _ _)
  | disconnect r discb =>
      have h := guard h
      unfold tmqtt.disconnect MqttClients.disconnect at h
      exact left_live (v := .disconnect r discb) (by simp [Event.leaves]) (by
        intro q hq g
        simp [Event.leaves, hq.symm]) (by exact fun _ => rfl) hs (mqttsnd_within h)
  | configwill r will =>
      cases guard h
      exact iff_of_true (within (quiet (by exact fun _ => rfl) r)) trivial
  | connect r clientid keepalive user password cbs =>
      exact iff_of_true (tmqttConnect_live hs (guard h)) trivial
  | publish r topic payload qos ackcb usertag =>
      exact iff_of_true (within (publish_within (guard h))) trivial
  | subscribe r topics ackcb usertag =>
      exact iff_of_true (within (subscribe_within (guard h))) trivial
  | regevtcb r message =>
      cases guard h
      exact iff_of_true (within ((quiet (by exact fun _ => rfl) r).trans
        (record_within (by exact fun _ _ => rfl) _))) trivial
  | timer f idx =>
      obtain ⟨-, h⟩ := Option.ite_none_right_eq_some.mp h
      refine iff_of_true (within ?_) trivial
      cases f with
      | reconn => exact (timer_stop_within (by simp) idx s).trans (reconn_within h)
      | pingreq => exact (timer_stop_within (by simp) idx s).trans (pingreq_within h)
      | disconnect =>
          unfold expire MqttClients.disconnect at h
          exact (timer_stop_within (by simp) idx s).trans (mqttsnd_within h)
      | datinactive => cases h
  | duptick =>
      obtain ⟨-, h⟩ := Option.ite_none_right_eq_some.mp h
      obtain ⟨d, hd, rfl⟩ := Option.map_eq_some_iff.mp h
      obtain ⟨-, ⟨⟩⟩ := Option.ite_none_right_eq_some.mp hd
      exact iff_of_true (within (dup_within (MqttDup.timerfnc_within s.dup))) trivial
  | dupmsg =>
      simp only [step] at h
      split at h
      · cases h
        rename_i m ms _ _
        have hm : Within s { s with dup := { s.dup with qmsg := ms } } :=
          .of_eq rfl rfl rfl rfl rfl rfl
        exact iff_of_true (within (hm.trans (procer_within m _))) trivial
      · cases h
  | rcv idx data =>
      obtain ⟨-, h⟩ := Option.ite_none_right_eq_some.mp h
      exact iff_of_true (within (rcv_within h)) trivial
  | sock b =>
      obtain ⟨-, h⟩ := Option.ite_none_right_eq_some.mp h
      obtain ⟨u, hu, h⟩ := Option.bind_eq_some_iff.mp h
      exact serve_live hl hc hn hs hu h
  | ret =>
      simp only [step] at h
      cases hf : s.frame with
      | none =>
          simp only [Orderly, hf] at h ⊢
          obtain ⟨u, hu, h⟩ := Option.bind_eq_some_iff.mp h
          exact serve_live hl hc hn hs hu h
      | some f =>
          simp only [Orderly, hf] at h ⊢
          have hw := frame_within none s
          cases f with
          | discb k =>
              obtain ⟨r, -, rfl⟩ := Option.map_eq_some_iff.mp h
              exact iff_of_true (within (hw.trans (upd_within (by exact fun _ => rfl) r _))) trivial
          | rcv idx k active =>
              cases active with
              | false => exact iff_of_true (within (hw.trans (rcvloop_within h))) trivial
              | true =>
                  obtain ⟨u, hu, h⟩ := Option.bind_eq_some_iff.mp h
                  exact checkdatactive_live (s := { s with frame := none }) (hs.within hw) hu (rcvloop_within h)

end

/-- Timers and packets have their clients, and no client that is to go restarts the device, in
exactly those runs that are orderly. -/
theorem live_iff_orderly {as : List Act} (hd : Along (step conv) Identified boot as) :
    Along (step conv) Live boot as ↔ Meets (step conv) Orderly boot as := by
  have hboth : Along (step conv) (fun s => (ids s).Nodup ∧ Live s) boot as ↔
      Meets (step conv) (fun s a => FirstIndex s a ∧ Orderly s a) boot as := by
    apply along_iff_meets (I := fun s => Linked s ∧ Claimed s)
    · exact fun s a t hs h => ⟨step_linked s a t hs.1 h, step_claimed s a t hs.1 hs.2 h⟩
    · intro s a t hs hp h
      have hid := step_identified s a t hs.1.tabled ((identified_iff hs.1.tabled).mpr hp.1) h
      rw [identified_iff (step_tabled s a t hs.1.tabled h)] at hid
      rw [hid, step_live hs.1 hs.2 hp.1 hp.2 h]
    · exact ⟨boot_linked, by exact fun idx _ hid => absurd rfl hid⟩
    · exact ⟨List.nodup_nil, boot_live⟩
  have hfirst := (identified_iff_created as).mp hd
  constructor
  · intro h
    exact (hboth.mp ((hd.imp fun _ => Identified.distinct).and h)).imp fun _ _ => And.right
  · intro h
    exact (hboth.mpr (hfirst.and h)).imp fun _ => And.right

instance (s : State) : DecidablePred (FirstIndex s)
  | .create _ _ _ _ =>
      @List.decidableBAll _ (fun r => (s.objs r).sckidx = Sockets.SCK_MAX_CNT) _ s.tclients
  | .change _ _ _ _ | .destroy _ _ | .disconnect _ _ | .configwill _ _ | .connect _ _ _ _ _ _
  | .publish _ _ _ _ _ _ | .subscribe _ _ _ _ | .regevtcb _ _ | .timer _ _ | .duptick | .dupmsg
  | .rcv _ _ | .sock _ | .ret => isTrue trivial

theorem live_connecting : ∃ s : State, run (step ⟨id, id⟩) boot connecting = some s ∧
    s.timers .datinactive 5 = true ∧ Along (step ⟨id, id⟩) Live boot connecting := by
  have h : (run (step ⟨id, id⟩) boot connecting).map (fun s => s.timers .datinactive 5) =
      some true := by decide +kernel
  obtain ⟨s, hr, hs⟩ := Option.map_eq_some_iff.mp h
  have hd : Along (step ⟨id, id⟩) Identified boot connecting :=
    (identified_iff_created connecting).mpr (by decide +kernel)
  refine ⟨s, hr, hs, (live_iff_orderly hd).mpr ?_⟩
  exact fun _ _ => ⟨trivial, fun _ _ => ⟨trivial, trivial⟩⟩

/-- A client is destroyed while it waits for its next attempt to connect. -/
def refused : List Act :=
  let urc (data : LuaString) : Act := .sock (.link (.urc data))
  [.create (lua "TCP") (lua "a.b") (lua "1883") none,
    .connect 0 none none none none ⟨false, false, false⟩, urc (lua "STATE: IP STATUS")] ++
  answer (lua "OK") ++ [urc (lua "0, CONNECT FAIL"), .ret, .destroy 0 false, .sock (.link .sendat),
    .sock (.link (.respond true [] none)), .ret]

/-- The timers of `reconn` and `datinactive` outlive the client, the former ends in an error,
and a client that is disconnected keeps the latter too. -/
theorem timers_outlive :
    (∃ s : State, run (step ⟨id, id⟩) boot refused = some s ∧ ids s = [] ∧ idle s = true ∧
      s.timers .reconn 5 = true ∧ s.timers .datinactive 5 = true ∧
      reconn 5 (timer_stop .reconn 5 s) = none) ∧
    (∃ s : State, run (step ⟨id, id⟩) boot (connected ++ [.disconnect 0 false]) = some s ∧
      client 5 s = some 0 ∧ gone 0 s.hist = true ∧ idle s = true ∧
      s.timers .datinactive 5 = true) ∧
    ¬∀ as, Along (step ⟨id, id⟩) Identified boot as → Along (step ⟨id, id⟩) Live boot as := by
  have h : (run (step ⟨id, id⟩) boot refused).map (fun s => (ids s, idle s, s.timers .reconn 5,
      s.timers .datinactive 5, (client 5 s).isNone)) = some ([], true, true, true, true) := by
    decide +kernel
  have h' : (run (step ⟨id, id⟩) boot (connected ++ [.disconnect 0 false])).map (fun s =>
      (client 5 s, gone 0 s.hist, idle s, s.timers .datinactive 5)) =
      some (some 0, true, true, true) := by
    decide +kernel
  obtain ⟨s, hs, hv⟩ := Option.map_eq_some_iff.mp h
  obtain ⟨t, ht, hw⟩ := Option.map_eq_some_iff.mp h'
  simp only [Prod.mk.injEq, Option.isNone_iff_eq_none] at hv hw
  obtain ⟨hids, hidle, hreconn, hdat, hnone⟩ := hv
  have herror : reconn 5 (timer_stop .reconn 5 s) = none := by
    rw [reconn, show client 5 (timer_stop .reconn 5 s) = client 5 s from rfl, hnone]
    rfl
  refine ⟨⟨s, hs, hids, hidle, hreconn, hdat, herror⟩, ⟨t, ht, hw⟩, fun hall => ?_⟩
  have hd : Along (step ⟨id, id⟩) Identified boot refused :=
    (identified_iff_created refused).mpr (by decide +kernel)
  have hl := ((hall refused hd).last hs).timers .reconn 5 hreconn
  rw [hids] at hl
  exact absurd hl List.not_mem_nil

end LuatAir200.MqttClients
