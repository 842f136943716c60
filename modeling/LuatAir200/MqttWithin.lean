import LuatAir200.MqttClaims

/-!
# Timers and packets of the clients

The functions of `mqtt.lua` start timers for clients that are there, and keep packets of
such ones. Only `checkdatactive` starts the timer of `datinactive`, and only calls of the
application say that a client is to go.
-/
namespace LuatAir200.MqttDup
open Lua

variable {β : Type}

/-- The packets of `t` belong to sockets that have some in `s`. -/
def Within (s t : List (Entry β)) : Prop := ∀ e ∈ t, ∃ d ∈ s, d.sckidx = e.sckidx

theorem Within.of_subset {s t : List (Entry β)} (h : t ⊆ s) : Within s t := fun e he => ⟨e, h he, rfl⟩

theorem remove_within (p : Entry β → Bool) (s : State β) : Within s.tlist (remove p s).tlist :=
  .of_subset List.eraseP_subset

theorem rmv_within (sckidx : ℕ) (typ dat seq : Option LuaString) (s : State β) :
    Within s.tlist (rmv sckidx typ dat seq s).tlist := by
  unfold rmv
  dsimp only
  rw [timer_tlist]
  split
  · exact remove_within _ (record _ s)
  · exact remove_within _ s

theorem modify_within {p : Entry β → Bool} {f : Entry β → Entry β}
    (hf : ∀ e, (f e).sckidx = e.sckidx) (l : List (Entry β)) : Within l (Keyed.modify p f l) := by
  intro e he
  have hmap := Keyed.map_modify (fun e : Entry β => e.sckidx) (l := l) (p := p) hf
  have hmem := List.mem_map_of_mem (f := fun e : Entry β => e.sckidx) he
  rw [hmap] at hmem
  exact List.mem_map.mp hmem

theorem rsm_within (sckidx : ℕ) (dat : LuaString) (s : State β) :
    Within s.tlist (rsm sckidx dat s).tlist := by
  unfold rsm
  dsimp only
  split
  · exact .of_subset fun _ he => he
  split
  · rw [timer_tlist]
    intro e he
    obtain ⟨d, hd, hde⟩ := remove_within _ _ e he
    obtain ⟨c, hc, hcd⟩ := modify_within (by exact fun _ => rfl) _ d hd
    exact ⟨c, hc, hcd.trans hde⟩
  · exact modify_within (by exact fun _ => rfl) _

theorem timerloop_within {l es : List (Entry β)} {s : State β} (hs : Within l s.tlist)
    (he : Within l es) : Within l (timerloop es s).tlist := by
  induction es generalizing s with
  | nil => exact hs
  | cons e es ih =>
      have hes : Within l es := fun d hd => he d (List.mem_cons_of_mem e hd)
      obtain ⟨d, hd, hde⟩ := he e List.mem_cons_self
      have hadd {x : Entry β} (hx : x.sckidx = e.sckidx) : Within l (s.tlist ++ [x]) := by
        intro y hy
        obtain hy | hy := List.mem_append.mp hy
        · exact hs y hy
        · rw [List.mem_singleton.mp hy]
          exact ⟨d, hd, hde.trans hx.symm⟩
      rw [timerloop]
      split
      · apply ih _ hes
        split <;> exact hadd rfl
      · exact ih (hadd rfl) hes

theorem timerfnc_within (s : State β) : Within s.tlist (timerfnc s).tlist :=
  timerloop_within nofun (.of_subset fun _ he => he)

end LuatAir200.MqttDup

namespace LuatAir200.MqttClients
open Lua Machine Mqtt

variable {conv : Conv}

/-! ## Calls of the application -/

/-- Whether a call says that client `r` is to go, or to stay. -/
def Event.leaves (r : ℕ) (g : Bool) : Event → Bool
  | .connect q => if q = r then false else g
  | .disconnect q _ | .destroy q _ => if q = r then true else g
  | _ => g

/-- Client `r` was destroyed or disconnected, and not connected again. -/
def gone (r : ℕ) (h : List Event) : Bool := h.foldl (fun g v => v.leaves r g) false

theorem gone_append (r : ℕ) (h : List Event) (v : Event) :
    gone r (h ++ [v]) = v.leaves r (gone r h) := by
  rw [gone, List.foldl_append]
  rfl

/-- The event is no such call. -/
def Event.mute (v : Event) : Prop := ∀ r g, v.leaves r g = g

/-! ## Timers and packets -/

/-- Timers are started, and packets kept, for clients that are there. -/
structure Within (s t : State) : Prop where
  same : Same s t
  timers : ∀ f idx, t.timers f idx = true → s.timers f idx = true ∨ idx ∈ ids s
  tlist : ∀ e ∈ t.dup.tlist, (∃ d ∈ s.dup.tlist, d.sckidx = e.sckidx) ∨ e.sckidx ∈ ids s
  datinactive : t.timers .datinactive = s.timers .datinactive
  gone : ∀ r, gone r t.hist = gone r s.hist

/-- Neither timers, nor packets, nor events. -/
theorem Within.of_same {s t : State} (h : Same s t) (ht : t.timers = s.timers)
    (hd : t.dup.tlist = s.dup.tlist) (hh : t.hist = s.hist) : Within s t where
  same := h
  timers f idx hf := .inl (ht ▸ hf)
  tlist e he := .inl ⟨e, hd ▸ he, rfl⟩
  datinactive := by rw [ht]
  gone r := by rw [hh]

theorem Within.of_eq {s t : State} (hc : t.tclients = s.tclients) (hn : t.count = s.count)
    (ho : t.objs = s.objs) (ht : t.timers = s.timers) (hd : t.dup.tlist = s.dup.tlist)
    (hh : t.hist = s.hist) : Within s t :=
  .of_same ⟨hc, hn, fun r => by rw [ho]⟩ ht hd hh

theorem Within.refl (s : State) : Within s s := .of_eq rfl rfl rfl rfl rfl rfl

theorem Within.trans {s t u : State} (h : Within s t) (h' : Within t u) : Within s u where
  same := h.same.trans h'.same
  timers f idx hu := by
    obtain ht | hi := h'.timers f idx hu
    · exact h.timers f idx ht
    · exact .inr (h.same.ids ▸ hi)
  tlist e he := by
    obtain ⟨d, hd, hde⟩ | hi := h'.tlist e he
    · rw [← hde]
      exact h.tlist d hd
    · exact .inr (h.same.ids ▸ hi)
  datinactive := h'.datinactive.trans h.datinactive
  gone r := (h'.gone r).trans (h.gone r)

theorem record_within {v : Event} (hv : v.mute) (s : State) : Within s (record v s) where
  same := ⟨rfl, rfl, fun _ => rfl⟩
  timers _ _ := .inl
  tlist e he := .inl ⟨e, he, rfl⟩
  datinactive := rfl
  gone r := by rw [record, gone_append, hv]

theorem told_within {v : ℕ → Event} (hv : ∀ n, (v n).mute) (cb : Option ℕ) (s : State) :
    Within s (told v cb s) := by
  cases cb with
  | none => exact .refl s
  | some n => exact record_within (hv n) s

theorem upd_within {f : Client → Client} (hf : ∀ c, (f c).sckidx = c.sckidx) (r : ℕ) (s : State) :
    Within s (upd r f s) := .of_same (upd_same hf r s) rfl rfl rfl

theorem timer_start_timers (f g : TimerFnc) (idx i : ℕ) (s : State) :
    (timer_start f idx s).timers g i = if g = f ∧ i = idx then true else s.timers g i := by
  by_cases hg : g = f
  · subst hg
    by_cases hi : i = idx
    · simp [timer_start, hi]
    · simp [timer_start, hi]
  · simp [timer_start, hg]

theorem timer_stop_timers (f g : TimerFnc) (idx i : ℕ) (s : State) :
    (timer_stop f idx s).timers g i = if g = f ∧ i = idx then false else s.timers g i := by
  by_cases hg : g = f
  · subst hg
    by_cases hi : i = idx
    · simp [timer_stop, hi]
    · simp [timer_stop, hi]
  · simp [timer_stop, hg]

theorem timer_start_within {f : TimerFnc} (hf : f ≠ .datinactive) {idx : ℕ} {s : State}
    (hi : idx ∈ ids s) : Within s (timer_start f idx s) where
  same := ⟨rfl, rfl, fun _ => rfl⟩
  timers g i hg := by
    rw [timer_start_timers] at hg
    split at hg
    · rename_i he
      exact .inr (he.2 ▸ hi)
    · exact .inl hg
  tlist e he := .inl ⟨e, he, rfl⟩
  datinactive := by
    ext i
    rw [timer_start_timers, if_neg]
    exact fun he => hf he.1.symm
  gone _ := rfl

theorem timer_stop_within {f : TimerFnc} (hf : f ≠ .datinactive) (idx : ℕ) (s : State) :
    Within s (timer_stop f idx s) where
  same := ⟨rfl, rfl, fun _ => rfl⟩
  timers g i hg := by
    rw [timer_stop_timers] at hg
    split at hg
    · cases hg
    · exact .inl hg
  tlist e he := .inl ⟨e, he, rfl⟩
  datinactive := by
    ext i
    rw [timer_stop_timers, if_neg]
    exact fun he => hf he.1.symm
  gone _ := rfl

theorem dup_within {s : State} {d : MqttDup.State ℕ} (hd : MqttDup.Within s.dup.tlist d.tlist) :
    Within s { s with dup := d } where
  same := ⟨rfl, rfl, fun _ => rfl⟩
  timers _ _ := .inl
  tlist e he := .inl (hd e he)
  datinactive := rfl
  gone _ := rfl

theorem ins_within {sckidx : ℕ} {s : State} (hi : sckidx ∈ ids s) (typ dat : LuaString)
    (seq : Option LuaString) (cb : Option ℕ) (cbtag : Option LuaString) :
    Within s (ins sckidx typ dat seq cb cbtag s) where
  same := ⟨rfl, rfl, fun _ => rfl⟩
  timers _ _ := .inl
  tlist e he := by
    have he : e ∈ s.dup.tlist ++
        [⟨sckidx, typ, dat, seq, cb, cbtag, MqttDup.DUP_CNT, MqttDup.DUP_TIME⟩] := he
    obtain he | he := List.mem_append.mp he
    · exact .inl ⟨e, he, rfl⟩
    · rw [List.mem_singleton.mp he]
      exact .inr hi
  datinactive := rfl
  gone _ := rfl

theorem rmv_within (sckidx : ℕ) (typ dat seq : Option LuaString) (s : State) :
    Within s (rmv sckidx typ dat seq s) := dup_within (MqttDup.rmv_within sckidx typ dat seq s.dup)

/-- `rmvall` leaves no packet. -/
theorem rmvall_tlist (sckidx : ℕ) (s : State) : (rmvall sckidx s).dup.tlist = [] := by
  simp [rmvall, MqttDup.rmvall]

theorem rmvall_within (sckidx : ℕ) (s : State) : Within s (rmvall sckidx s) := by
  refine dup_within fun e he => ?_
  have hnil := rmvall_tlist sckidx s
  rw [rmvall] at hnil
  rw [hnil] at he
  cases he

/-! ## Packets that are sent -/

theorem shut_within (s : State) : Within s (shut s) := .of_eq rfl rfl rfl rfl rfl rfl

theorem snd_within (sckidx : ℕ) (data : LuaString) (para : Para) (s : State) :
    Within s (snd sckidx data para s).1 := .of_eq rfl rfl rfl rfl rfl rfl

theorem sckdisconnect_within (sckidx : ℕ) (cause : Option ℕ) (s : State) :
    Within s (sckdisconnect sckidx cause s) := .of_eq rfl rfl rfl rfl rfl rfl

theorem sckclose_within (sckidx : ℕ) (s : State) : Within s (sckclose sckidx s) :=
  .of_eq rfl rfl rfl rfl rfl rfl

theorem mqttsubcb_within {sckidx : ℕ} {val : Subscribe} {usertag : Option LuaString}
    {ackcb : Option ℕ} {s t : State} (h : mqttsubcb conv sckidx val usertag ackcb s = some t) :
    Within s t := by
  obtain ⟨r, hr, rfl⟩ := Option.map_eq_some_iff.mp h
  exact ins_within (mem_ids.mpr ⟨r, hr⟩) _ _ _ _ _

theorem mqttpubcb_within {sckidx : ℕ} {result : Bool} {val : Publish} {qos : ℕ}
    {usertag : Option LuaString} {ackcb : Option ℕ} {s t : State}
    (h : mqttpubcb conv sckidx result val qos usertag ackcb s = some t) : Within s t := by
  unfold mqttpubcb at h
  split at h
  · cases h
    exact told_within (by exact fun _ _ _ => rfl) ackcb s
  split at h
  · obtain ⟨r, hr, rfl⟩ := Option.map_eq_some_iff.mp h
    exact ins_within (mem_ids.mpr ⟨r, hr⟩) _ _ _ _ _
  · cases h
    exact .refl s

theorem mqttdiscb_within {sckidx : ℕ} {usertag : Option ℕ} {s t : State}
    (h : mqttdiscb sckidx usertag s = some t) : Within s t := by
  obtain ⟨r, -, rfl⟩ := Option.map_eq_some_iff.mp h
  exact (upd_within (by exact fun _ => rfl) r s).trans (sckdisconnect_within sckidx usertag _)

theorem mqttsnd_within {sckidx : ℕ} {typ : Pack} {usrtag : Option ℕ} {s t : State}
    (h : mqttsnd conv sckidx typ usrtag s = some t) : Within s t := by
  cases typ with
  | MQTTCONN =>
      obtain ⟨dat, hdat, h⟩ := Option.map_eq_some_iff.mp h
      obtain ⟨r, hr, -⟩ := Option.bind_eq_some_iff.mp hdat
      have hs := (rmv_within sckidx (some (lua "CONN")) none none s).trans
        (snd_within sckidx dat (.MQTTCONN dat) _)
      cases he : snd sckidx dat (.MQTTCONN dat) (rmv sckidx (some (lua "CONN")) none none s) with
      | mk u b =>
          rw [he] at h hs
          cases b with
          | true =>
              cases h
              exact hs
          | false =>
              cases h
              refine hs.trans (ins_within ?_ _ _ _ _ _)
              rw [hs.same.ids]
              exact mem_ids.mpr ⟨r, hr⟩
  | MQTTPINGREQ =>
      obtain ⟨r, -, rfl⟩ := Option.map_eq_some_iff.mp h
      exact snd_within sckidx _ _ s
  | MQTTDISC =>
      obtain ⟨r, -, h⟩ := Option.bind_eq_some_iff.mp h
      have hs := snd_within sckidx packDisconnect .MQTTDISC s
      obtain ⟨-, h⟩ | ⟨-, h⟩ := snd_match h
      · cases h
        exact hs
      · exact hs.trans (mqttdiscb_within h)

theorem pingreq_within {sckidx : ℕ} {s t : State} (h : pingreq conv sckidx s = some t) :
    Within s t := by
  obtain ⟨u, hu, h⟩ := Option.bind_eq_some_iff.mp h
  have hs := mqttsnd_within hu
  split at h
  · cases h
    exact hs
  · obtain ⟨r, hr, h⟩ := Option.bind_eq_some_iff.mp h
    obtain ⟨k, -, rfl⟩ := Option.map_eq_some_iff.mp h
    exact hs.trans (timer_start_within (by simp) (mem_ids.mpr ⟨r, hr⟩))

/-! ## Connections -/

theorem connect_within {sckidx : ℕ} {prot host port : LuaString} {s t : State}
    (h : connect sckidx prot host port s = some t) : Within s t := by
  obtain ⟨r, -, rfl⟩ := Option.map_eq_some_iff.mp h
  refine .trans ?_ (upd_within (by exact fun _ => rfl) r _)
  refine .trans ?_ (record_within (by exact fun _ _ => rfl) _)
  exact .of_eq rfl rfl rfl rfl rfl rfl

theorem connectAll_within {rs : List ℕ} {s t : State} (h : connectAll rs s = some t) :
    Within s t := by
  induction rs generalizing s with
  | nil =>
      cases h
      exact .refl _
  | cons r rs ih =>
      obtain ⟨u, hu, h⟩ := Option.bind_eq_some_iff.mp h
      exact (connect_within hu).trans (ih h)

theorem reconn_within {sckidx : ℕ} {s t : State} (h : reconn sckidx s = some t) : Within s t := by
  obtain ⟨r, hr, h⟩ := Option.bind_eq_some_iff.mp h
  have hi : sckidx ∈ ids s := mem_ids.mpr ⟨r, hr⟩
  have quiet {f : Client → Client} (hf : ∀ c, (f c).sckidx = c.sckidx) (u : State) :
      Within u (upd r f u) := upd_within hf r u
  dsimp only at h
  split at h
  · cases h
    exact .refl _
  split at h
  · have hu := (quiet (f := fun c => { c with sckreconncnt := c.sckreconncnt + 1 })
      (by exact fun _ => rfl) s).trans (shut_within _)
    exact hu.trans (connectAll_within h)
  split at h
  · obtain ⟨n, -, rfl⟩ := Option.map_eq_some_iff.mp h
    exact ((quiet (by exact fun _ => rfl) s).trans (quiet (by exact fun _ => rfl) _)).trans
      (record_within (by exact fun _ _ => rfl) _)
  · cases h
    have hu := quiet (f := fun c => { c with
      sckreconncnt := 0, sckreconncyclecnt := c.sckreconncyclecnt + 1 }) (by exact fun _ => rfl) s
    exact hu.trans (timer_start_within (by simp) (hu.same.ids ▸ hi))

/-! ## Events of the sockets -/

theorem ended_within (idx r : ℕ) (s : State) : Within s (ended idx r s) :=
  ((timer_stop_within (by simp) idx s).trans (rmvall_within idx _)).trans
    (upd_within (by exact fun _ => rfl) r _)

theorem left_within (k r : ℕ) (s : State) : Within s (left k r s) := by
  unfold left
  split
  · exact (record_within (by exact fun _ _ => rfl) s).trans (.of_eq rfl rfl rfl rfl rfl rfl)
  · exact upd_within (by exact fun _ => rfl) r s

theorem sent_within {idx : ℕ} {item : Sockets.Item} {s t : State} (hi : idx ∈ ids s)
    (h : sent conv idx item s = some t) : Within s t := by
  unfold sent at h
  split at h
  · exact mqttpubcb_within h
  · exact mqttsubcb_within h
  · cases h
    exact dup_within (MqttDup.rsm_within idx item.data s.dup)
  · cases h
    exact ins_within hi _ _ _ _ _
  · exact mqttdiscb_within h
  all_goals
    cases h
    exact .refl s

/-- All events but `CLOSE`. -/
theorem ntfy_within {c : Sockets.Call} {s t : State} (hc : ∀ idx, c ≠ .close idx)
    (hi : ∀ idx item, c = .send idx true item → idx ∈ ids s) (h : ntfy conv c s = some t) :
    Within s t := by
  cases c with
  | connect idx result cause =>
      obtain ⟨r, hr, h⟩ := Option.bind_eq_some_iff.mp h
      have hu := upd_within (f := fun c => { c with sckconning := false })
        (by exact fun _ => rfl) r s
      dsimp only at h
      split at h
      · have hv := upd_within (f := fun c => { c with
            sckconnected := true, sckreconncnt := 0, sckreconncyclecnt := 0, sckrcvs := [] })
          (by exact fun _ => rfl) r (upd r (fun c => { c with sckconning := false }) s)
        exact ((hu.trans hv).trans (timer_stop_within (by simp) idx _)).trans (mqttsnd_within h)
      · cases h
        refine hu.trans (timer_start_within (by simp) ?_)
        rw [hu.same.ids]
        exact mem_ids.mpr ⟨r, hr⟩
  | send idx result item =>
      simp only [ntfy] at h
      split at h
      · rename_i hres
        cases item with
        | none =>
            cases h
            exact .refl s
        | some item => exact sent_within (hi idx (some item) (by rw [hres])) h
      · cases h
        exact shut_within s
  | state idx val =>
      simp only [ntfy] at h
      split at h
      · obtain ⟨k, -, h⟩ := Option.bind_eq_some_iff.mp h
        obtain ⟨r, -, h⟩ := Option.bind_eq_some_iff.mp h
        have he := ended_within idx r s
        split at h
        · cases h
          exact he.trans (left_within k r _)
        · exact he.trans (reconn_within h)
      split at h
      · obtain ⟨r, -, h⟩ := Option.bind_eq_some_iff.mp h
        exact (ended_within idx r s).trans (reconn_within h)
      · cases h
        split
        · exact shut_within s
        · exact .refl s
  | disconnect idx cause =>
      obtain ⟨k, -, h⟩ := Option.bind_eq_some_iff.mp h
      obtain ⟨r, -, h⟩ := Option.bind_eq_some_iff.mp h
      have he := ended_within idx r s
      dsimp only at h
      split at h
      · cases h
        exact he.trans (left_within k r _)
      · exact he.trans (reconn_within h)
  | close idx => exact absurd rfl (hc idx)

/-! ## Received packets and messages -/

theorem connack_within {sckidx : ℕ} {packet : Packet} {s t : State}
    (h : connack sckidx packet s = some t) : Within s t := by
  obtain ⟨r, -, rfl⟩ := Option.map_eq_some_iff.mp h
  split
  · have hu := upd_within (f := fun c => { c with mqttconnected := true }) (by exact fun _ => rfl) r s
    exact (hu.trans (rmv_within sckidx (some (lua "CONN")) none none _)).trans
      (told_within (by exact fun _ _ _ => rfl) _ _)
  · exact told_within (by exact fun _ _ _ => rfl) _ s

theorem ack_within (sckidx : ℕ) (packet : Packet) (s : State) : Within s (ack sckidx packet s) := by
  have hr := rmv_within sckidx none none (some packet.seq) s
  unfold ack
  dsimp only
  split
  · exact hr.trans (told_within (by exact fun _ _ _ => rfl) _ _)
  · exact hr

theorem svrpublish_within {sckidx : ℕ} {packet : Packet} {s t : State}
    (h : svrpublish conv sckidx packet s = some t) : Within s t := by
  obtain ⟨r, -, rfl⟩ := Option.map_eq_some_iff.mp h
  dsimp only
  split
  · exact (snd_within sckidx _ _ s).trans (told_within (by exact fun _ _ _ => rfl) _ _)
  · exact told_within (by exact fun _ _ _ => rfl) _ s

theorem mqttcmds_within {sckidx : ℕ} {packet : Packet} {s t : State}
    (h : mqttcmds conv packet sckidx s = some t) : Within s t := by
  unfold mqttcmds at h
  split at h
  · exact connack_within h
  split at h
  · cases h
    exact ack_within sckidx packet s
  split at h
  · exact svrpublish_within h
  · cases h
    exact timer_stop_within (by simp) _ s

theorem frame_within (f : Option Frame) (s : State) : Within s { s with frame := f } :=
  .of_eq rfl rfl rfl rfl rfl rfl

theorem rcvloop_within {idx k : ℕ} {s t : State} (h : rcvloop conv idx k s = some t) :
    Within s t := by
  obtain ⟨r, -, h⟩ := Option.bind_eq_some_iff.mp h
  split at h
  · cases h
    exact .refl s
  · rename_i data rest _
    have hu := upd_within (f := fun c => { c with sckrcvs := rest }) (by exact fun _ => rfl) r s
    refine hu.trans ?_
    dsimp only at h
    split at h
    · split at h
      · obtain ⟨u, hm, rfl⟩ := Option.map_eq_some_iff.mp h
        exact (mqttcmds_within hm).trans (frame_within _ u)
      · cases h
        exact frame_within _ _
    · cases h
      exact frame_within _ _

theorem rcv_within {idx : ℕ} {data : LuaString} {s t : State} (h : rcv conv idx data s = some t) :
    Within s t := by
  obtain ⟨k, -, h⟩ := Option.bind_eq_some_iff.mp h
  obtain ⟨r, hr, h⟩ := Option.bind_eq_some_iff.mp h
  obtain ⟨_, -, h⟩ := Option.bind_eq_some_iff.mp h
  have hp : Within s (timer_start .pingreq idx s) :=
    timer_start_within (by simp) (mem_ids.mpr ⟨r, hr⟩)
  have hu := upd_within (f := fun c => { c with sckrcvs := c.sckrcvs ++ data })
    (by exact fun _ => rfl) r (timer_start .pingreq idx s)
  exact (hp.trans hu).trans (rcvloop_within h)

theorem mqttdupind_within (sckidx : ℕ) (dat : LuaString) (s : State) :
    Within s (mqttdupind sckidx dat s) := by
  have hs := snd_within sckidx dat .MQTTDUP s
  unfold mqttdupind
  split
  · rename_i u he
    rw [he] at hs
    exact hs
  · rename_i u he
    rw [he] at hs
    exact hs.trans (dup_within (MqttDup.rsm_within sckidx dat u.dup))

theorem procer_within (m : MqttDup.Msg ℕ) (s : State) : Within s (procer m s) := by
  cases m with
  | dupInd sckidx dat => exact mqttdupind_within sckidx dat s
  | dupFail sckidx typ seq cb cbtag => exact told_within (by exact fun _ _ _ => rfl) cb s

/-! ## The interface -/

theorem offer_within {sckidx : ℕ} {data : LuaString} {para : Para} {s t : State}
    {g : State → Option State} (hg : ∀ u v, g u = some v → Within u v)
    (h : (match snd sckidx data para s with
      | (s, true) => some s
      | (s, false) => g s) = some t) : Within s t := by
  have hs := snd_within sckidx data para s
  obtain ⟨-, h⟩ | ⟨-, h⟩ := snd_match h
  · cases h
    exact hs
  · exact hs.trans (hg _ _ h)

theorem getseq_within (s : State) : Within s (getseq s).1 := .of_eq rfl rfl rfl rfl rfl rfl

theorem publish_within {r : ℕ} {topic payload : LuaString} {qos : Option ℕ} {ackcb : Bool}
    {usertag : Option LuaString} {s t : State}
    (h : tmqtt.publish conv r topic payload qos ackcb usertag s = some t) : Within s t := by
  unfold tmqtt.publish at h
  refine .trans (record_within (v := .publish r (qos.getD 0) ackcb) (by exact fun _ _ => rfl) s) ?_
  dsimp only at h
  split at h
  · cases h
    exact told_within (by exact fun _ _ _ => rfl) _ _
  split at h
  · cases h
  · exact (getseq_within _).trans (offer_within (fun u v => mqttpubcb_within) h)

theorem subscribe_within {r : ℕ} {topics : List (LuaString × ℕ)} {ackcb : Bool}
    {usertag : Option LuaString} {s t : State}
    (h : tmqtt.subscribe conv r topics ackcb usertag s = some t) : Within s t := by
  unfold tmqtt.subscribe at h
  refine .trans (record_within (v := .subscribe r ackcb) (by exact fun _ _ => rfl) s) ?_
  dsimp only at h
  split at h
  · cases h
    exact told_within (by exact fun _ _ _ => rfl) _ _
  split at h
  · cases h
  · exact (getseq_within _).trans (offer_within (fun u v => mqttsubcb_within) h)

theorem closeAll_within (sckidx : ℕ) (rs : List ℕ) (s : State) : Within s (closeAll sckidx s rs) := by
  induction rs generalizing s with
  | nil => exact .refl s
  | cons r rs ih =>
      refine .trans ?_ (ih _)
      split
      · exact sckclose_within sckidx s
      · exact .refl s

end LuatAir200.MqttClients
