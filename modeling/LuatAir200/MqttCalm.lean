import LuatAir200.LinkNotice
import LuatAir200.MqttModel

/-!
# What most of `mqtt.lua` leaves alone

Only few functions connect, disconnect or close a socket, or change who is in `tclients`.
All others make a calm change: of the sockets they only use `send` and `link.shut`, and no
client that was connected is not any more.
-/
namespace LuatAir200.MqttClients
open Lua Machine Mqtt

variable {conv : Conv}

/-! ## The sockets -/

/-- The actions of the sockets that a calm change makes. -/
inductive Sending : Sockets.Act → Prop
  | send (idx : ℕ) (data : LuaString) (para : ℕ) : Sending (.send idx data para none false)
  | shut : Sending (.link .shut)

/-- A run of the sockets whose actions are all of one kind. -/
def Moved (K : Sockets.Act → Prop) (s t : Sockets.State) : Prop :=
  ∃ as, (∀ a ∈ as, K a) ∧ run Sockets.step s as = some t

theorem Moved.refl {K : Sockets.Act → Prop} (s : Sockets.State) : Moved K s s :=
  ⟨[], by simp, rfl⟩

theorem Moved.one {K : Sockets.Act → Prop} {s t : Sockets.State} {a : Sockets.Act} (ha : K a)
    (h : Sockets.step s a = some t) : Moved K s t :=
  ⟨[a], by simpa using ha, run_cons_eq_some.mpr ⟨t, h, rfl⟩⟩

theorem Moved.trans {K : Sockets.Act → Prop} {s t u : Sockets.State} (h : Moved K s t)
    (h' : Moved K t u) : Moved K s u := by
  obtain ⟨as, ha, hr⟩ := h
  obtain ⟨bs, hb, hq⟩ := h'
  refine ⟨as ++ bs, fun a hmem => ?_, run_append.mpr ⟨t, hr, hq⟩⟩
  obtain hmem | hmem := List.mem_append.mp hmem
  · exact ha a hmem
  · exact hb a hmem

/-- What the actions of a kind preserve lasts. -/
theorem Moved.invariant {K : Sockets.Act → Prop} {P : Sockets.State → Prop}
    (hstep : ∀ s a t, K a → P s → Sockets.step s a = some t → P t) {s t : Sockets.State}
    (h : Moved K s t) (hs : P s) : P t := by
  obtain ⟨as, ha, hr⟩ := h
  exact guarded_run (G := fun _ a => K a) (fun s a t hp hk ht => hstep s a t hk hp ht) hs
    (meets_of_forall (fun a hmem _ => ha a hmem) s) hr

theorem step_shut (s : Sockets.State) :
    Sockets.step s (.link .shut) = some { s with link := Links.shut s.link } := by
  cases hf : s.link.frame with
  | some f => simp [Sockets.step, Sockets.foreign, Links.step, hf]
  | none => simp [Sockets.step, Sockets.foreign, Links.step, Sockets.deliver, hf]

theorem step_send (idx : ℕ) (data : LuaString) (para : ℕ) (s : Sockets.State) :
    Sockets.step s (.send idx data para none false) =
      some (Sockets.send idx data para none false s).1 := by
  simp [Sockets.step, Sockets.posOk]

/-! ## Calm changes -/

/-- The clients are the same, in the same places and with the same sockets. -/
structure Same (s t : State) : Prop where
  tclients : t.tclients = s.tclients
  count : t.count = s.count
  sckidx : ∀ r, (t.objs r).sckidx = (s.objs r).sckidx

theorem Same.refl (s : State) : Same s s := ⟨rfl, rfl, fun _ => rfl⟩

theorem Same.trans {s t u : State} (h : Same s t) (h' : Same t u) : Same s u :=
  ⟨h'.tclients.trans h.tclients, h'.count.trans h.count,
    fun r => (h'.sckidx r).trans (h.sckidx r)⟩

theorem Same.symm {s t : State} (h : Same s t) : Same t s :=
  ⟨h.tclients.symm, h.count.symm, fun r => (h.sckidx r).symm⟩

theorem Same.getclient {s t : State} (h : Same s t) (idx : ℕ) :
    getclient idx t = getclient idx s := by
  simp only [MqttClients.getclient, h.tclients, h.sckidx]

theorem Same.client {s t : State} (h : Same s t) (idx : ℕ) : client idx t = client idx s := by
  rw [MqttClients.client, h.getclient, h.tclients, MqttClients.client]

/-- Neither a call of `socket.connect` nor one of `discb`. -/
def Event.minor : Event → Prop
  | .sckconnect _ | .discb _ => False
  | _ => True

/-- The socket of a client is connected, or even its connection to the broker. -/
def Client.connected (c : Client) : Bool := c.mqttconnected || c.sckconnected

structure Calm (s t : State) : Prop where
  same : Same s t
  sckconning : ∀ r, (t.objs r).sckconning = (s.objs r).sckconning
  connected : ∀ r, (s.objs r).connected → (t.objs r).connected
  sock : Moved Sending s.sock t.sock
  hist : ∃ l, t.hist = s.hist ++ l ∧ ∀ v ∈ l, v.minor

theorem Calm.refl (s : State) : Calm s s :=
  ⟨.refl s, fun _ => rfl, fun _ => id, .refl _, [], by simp, by simp⟩

theorem Calm.trans {s t u : State} (h : Calm s t) (h' : Calm t u) : Calm s u where
  same := h.same.trans h'.same
  sckconning r := (h'.sckconning r).trans (h.sckconning r)
  connected r hr := h'.connected r (h.connected r hr)
  sock := h.sock.trans h'.sock
  hist := by
    obtain ⟨l, hl, hm⟩ := h.hist
    obtain ⟨m, hq, hn⟩ := h'.hist
    refine ⟨l ++ m, by rw [hq, hl, List.append_assoc], fun v hv => ?_⟩
    obtain hv | hv := List.mem_append.mp hv
    · exact hm v hv
    · exact hn v hv

/-- The clients, the sockets and the history are as before. -/
theorem Calm.of_eq {s t : State} (hc : t.tclients = s.tclients) (hn : t.count = s.count)
    (ho : t.objs = s.objs) (hs : t.sock = s.sock) (hh : t.hist = s.hist) : Calm s t where
  same := ⟨hc, hn, fun r => by rw [ho]⟩
  sckconning r := by rw [ho]
  connected r := by rw [ho]; exact id
  sock := hs ▸ .refl _
  hist := ⟨[], by simp [hh], by simp⟩

/-- A change of fields that play no part in connections. -/
structure Minor (f : Client → Client) : Prop where
  sckidx : ∀ c, (f c).sckidx = c.sckidx
  sckconning : ∀ c, (f c).sckconning = c.sckconning
  connected : ∀ c, c.connected → (f c).connected

theorem upd_objs (r i : ℕ) (f : Client → Client) (s : State) :
    (upd r f s).objs i = if i = r then f (s.objs r) else s.objs i := by
  simp [upd, Function.update_apply]

/-- A field that `f` keeps is kept in all clients. -/
theorem upd_field {α : Type} (g : Client → α) {f : Client → Client} (h : ∀ c, g (f c) = g c)
    (r i : ℕ) (s : State) : g ((upd r f s).objs i) = g (s.objs i) := by
  rw [upd_objs]
  split
  · rename_i he
    rw [h, he]
  · rfl

theorem upd_same {f : Client → Client} (h : ∀ c, (f c).sckidx = c.sckidx) (r : ℕ) (s : State) :
    Same s (upd r f s) := ⟨rfl, rfl, fun i => upd_field Client.sckidx h r i s⟩

theorem Same.upd {f : Client → Client} {s t : State} (h : Same s t)
    (hf : ∀ c, (f c).sckidx = c.sckidx) (r : ℕ) : Same s (upd r f t) := h.trans (upd_same hf r t)

theorem Same.record {s t : State} (h : Same s t) (v : Event) : Same s (record v t) :=
  ⟨h.tclients, h.count, h.sckidx⟩

theorem Same.calm {s t u : State} (h : Same s t) (h' : Calm t u) : Same s u := h.trans h'.same

theorem upd_calm {f : Client → Client} (h : Minor f) (r : ℕ) (s : State) : Calm s (upd r f s) where
  same := upd_same h.sckidx r s
  sckconning i := upd_field Client.sckconning h.sckconning r i s
  connected i hi := by
    rw [upd_objs]
    split
    · rename_i he
      exact h.connected _ (he ▸ hi)
    · exact hi
  sock := .refl _
  hist := ⟨[], by simp [upd], by simp⟩

theorem Calm.upd {f : Client → Client} {s t : State} (h : Calm s t) (hf : Minor f) (r : ℕ) :
    Calm s (upd r f t) := h.trans (upd_calm hf r t)

theorem record_calm {v : Event} (h : v.minor) (s : State) : Calm s (record v s) where
  same := ⟨rfl, rfl, fun _ => rfl⟩
  sckconning _ := rfl
  connected _ := id
  sock := .refl _
  hist := ⟨[v], rfl, by simpa using h⟩

theorem told_calm {v : ℕ → Event} (h : ∀ n, (v n).minor) (cb : Option ℕ) (s : State) :
    Calm s (told v cb s) := by
  cases cb with
  | none => exact .refl s
  | some n => exact record_calm (h n) s

/-- The sockets move by sending, and nothing else changes that matters. -/
theorem Calm.of_sock {s t : State} (hc : t.tclients = s.tclients) (hn : t.count = s.count)
    (ho : t.objs = s.objs) (hs : Moved Sending s.sock t.sock) (hh : t.hist = s.hist) :
    Calm s t where
  same := ⟨hc, hn, fun r => by rw [ho]⟩
  sckconning r := by rw [ho]
  connected r := by rw [ho]; exact id
  sock := hs
  hist := ⟨[], by simp [hh], by simp⟩

theorem shut_calm (s : State) : Calm s (shut s) :=
  .of_sock rfl rfl rfl (.one .shut (step_shut s.sock)) rfl

theorem snd_calm (sckidx : ℕ) (data : LuaString) (para : Para) (s : State) :
    Calm s (snd sckidx data para s).1 :=
  .of_sock rfl rfl rfl (.one (.send sckidx data s.paras.length) (step_send _ _ _ _)) rfl

theorem mqttconncb_calm (sckidx : ℕ) (val : LuaString) (s : State) :
    Calm s (mqttconncb sckidx val s) := .of_eq rfl rfl rfl rfl rfl

theorem mqttsubcb_calm {sckidx : ℕ} {val : Subscribe} {usertag : Option LuaString}
    {ackcb : Option ℕ} {s t : State} (h : mqttsubcb conv sckidx val usertag ackcb s = some t) :
    Calm s t := by
  obtain ⟨r, -, rfl⟩ := Option.map_eq_some_iff.mp h
  exact .of_eq rfl rfl rfl rfl rfl

theorem mqttpubcb_calm {sckidx : ℕ} {result : Bool} {val : Publish} {qos : ℕ}
    {usertag : Option LuaString} {ackcb : Option ℕ} {s t : State}
    (h : mqttpubcb conv sckidx result val qos usertag ackcb s = some t) : Calm s t := by
  unfold mqttpubcb at h
  split at h
  · cases h
    exact told_calm (by exact fun _ => trivial) ackcb s
  split at h
  · obtain ⟨r, -, rfl⟩ := Option.map_eq_some_iff.mp h
    exact .of_eq rfl rfl rfl rfl rfl
  · cases h
    exact .refl s

/-- A `snd` with what follows when it is refused. -/
theorem snd_match {sckidx : ℕ} {data : LuaString} {para : Para} {s : State}
    {f g : State → Option State} {t : State}
    (h : (match snd sckidx data para s with
      | (s, true) => f s
      | (s, false) => g s) = some t) :
    (snd sckidx data para s).2 = true ∧ f (snd sckidx data para s).1 = some t ∨
      (snd sckidx data para s).2 = false ∧ g (snd sckidx data para s).1 = some t := by
  cases hs : snd sckidx data para s with
  | mk u b =>
      rw [hs] at h
      cases b with
      | true => exact .inl ⟨rfl, h⟩
      | false => exact .inr ⟨rfl, h⟩

theorem rmv_calm (sckidx : ℕ) (typ dat seq : Option LuaString) (s : State) :
    Calm s (rmv sckidx typ dat seq s) := .of_eq rfl rfl rfl rfl rfl

/-- Only `MQTTDISC` can end a connection at once. -/
theorem mqttsnd_calm {sckidx : ℕ} {typ : Pack} {usrtag : Option ℕ} {s t : State}
    (ht : typ ≠ .MQTTDISC) (h : mqttsnd conv sckidx typ usrtag s = some t) : Calm s t := by
  cases typ with
  | MQTTCONN =>
      obtain ⟨dat, -, rfl⟩ := Option.map_eq_some_iff.mp h
      refine (rmv_calm sckidx (some (lua "CONN")) none none s).trans ?_
      have hs := snd_calm sckidx dat (.MQTTCONN dat) (rmv sckidx (some (lua "CONN")) none none s)
      split
      · rename_i u he
        rw [he] at hs
        exact hs
      · rename_i u he
        rw [he] at hs
        exact hs.trans (mqttconncb_calm sckidx dat u)
  | MQTTPINGREQ =>
      obtain ⟨r, -, rfl⟩ := Option.map_eq_some_iff.mp h
      exact snd_calm sckidx _ _ s
  | MQTTDISC => exact absurd rfl ht

theorem timer_start_calm (f : TimerFnc) (idx : ℕ) (s : State) : Calm s (timer_start f idx s) :=
  .of_eq rfl rfl rfl rfl rfl

theorem timer_stop_calm (f : TimerFnc) (idx : ℕ) (s : State) : Calm s (timer_stop f idx s) :=
  .of_eq rfl rfl rfl rfl rfl

theorem pingreq_calm {sckidx : ℕ} {s t : State} (h : pingreq conv sckidx s = some t) :
    Calm s t := by
  obtain ⟨u, hu, h⟩ := Option.bind_eq_some_iff.mp h
  have hs : Calm s u := mqttsnd_calm (by simp) hu
  split at h
  · cases h
    exact hs
  · obtain ⟨r, -, h⟩ := Option.bind_eq_some_iff.mp h
    obtain ⟨k, -, rfl⟩ := Option.map_eq_some_iff.mp h
    exact hs.trans (timer_start_calm _ _ u)

theorem checkdatactive_calm {sckidx : ℕ} {s t : State} (h : checkdatactive sckidx s = some t) :
    Calm s t := by
  obtain ⟨r, -, h⟩ := Option.bind_eq_some_iff.mp h
  obtain ⟨k, -, rfl⟩ := Option.map_eq_some_iff.mp h
  exact timer_start_calm _ _ s

/-- The fields that the end of a connection leaves alone. -/
theorem ended_field {α : Type} (g : Client → α) (hg : ∀ c : Client, g { c with
    sckconnected := false, mqttconnected := false, sckrcvs := [] } = g c) {idx r : ℕ} (q : ℕ)
    {s : State} : g ((ended idx r s).objs q) = g (s.objs q) := upd_field g hg r q _

theorem rmvall_calm (idx : ℕ) (s : State) :
    Calm s (rmvall idx (timer_stop .pingreq idx s)) := .of_eq rfl rfl rfl rfl rfl

/-- Only the confirmation of `DISCONNECT` ends a connection. -/
theorem sent_calm {idx : ℕ} {item : Sockets.Item} {s t : State}
    (hp : s.paras[item.para]? ≠ some .MQTTDISC) (h : sent conv idx item s = some t) :
    Calm s t := by
  unfold sent at h
  split at h
  · exact mqttpubcb_calm h
  · exact mqttsubcb_calm h
  · cases h
    exact .of_eq rfl rfl rfl rfl rfl
  · cases h
    exact mqttconncb_calm idx _ s
  · rename_i hd
    exact absurd hd hp
  all_goals
    cases h
    exact .refl s

/-! ## Received packets and messages -/

theorem connack_calm {sckidx : ℕ} {packet : Packet} {s t : State}
    (h : connack sckidx packet s = some t) : Calm s t := by
  obtain ⟨r, -, rfl⟩ := Option.map_eq_some_iff.mp h
  split
  · have hu := (Calm.refl s).upd
      (f := fun c => { c with mqttconnected := true })
      (by exact ⟨fun _ => rfl, fun _ => rfl, fun _ _ => rfl⟩) r
    exact (hu.trans (rmv_calm sckidx (some (lua "CONN")) none none _)).trans
      (told_calm (by exact fun _ => trivial) _ _)
  · exact told_calm (by exact fun _ => trivial) _ s

theorem ack_calm (sckidx : ℕ) (packet : Packet) (s : State) : Calm s (ack sckidx packet s) := by
  have hr := rmv_calm sckidx none none (some packet.seq) s
  unfold ack
  dsimp only
  split
  · exact hr.trans (told_calm (by exact fun _ => trivial) _ _)
  · exact hr

theorem svrpublish_calm {sckidx : ℕ} {packet : Packet} {s t : State}
    (h : svrpublish conv sckidx packet s = some t) : Calm s t := by
  obtain ⟨r, -, rfl⟩ := Option.map_eq_some_iff.mp h
  dsimp only
  split
  · exact (snd_calm sckidx _ _ s).trans (told_calm (by exact fun _ => trivial) _ _)
  · exact told_calm (by exact fun _ => trivial) _ s

theorem mqttcmds_calm {sckidx : ℕ} {packet : Packet} {s t : State}
    (h : mqttcmds conv packet sckidx s = some t) : Calm s t := by
  unfold mqttcmds at h
  split at h
  · exact connack_calm h
  split at h
  · cases h
    exact ack_calm sckidx packet s
  split at h
  · exact svrpublish_calm h
  · cases h
    exact timer_stop_calm _ _ s

theorem frame_calm (f : Option Frame) (s : State) : Calm s { s with frame := f } :=
  .of_eq rfl rfl rfl rfl rfl

theorem rcvloop_calm {idx k : ℕ} {s t : State} (h : rcvloop conv idx k s = some t) :
    Calm s t := by
  obtain ⟨r, -, h⟩ := Option.bind_eq_some_iff.mp h
  split at h
  · cases h
    exact .refl s
  · rename_i data rest _
    have hu : Calm s (upd r (fun c => { c with sckrcvs := rest }) s) :=
      (Calm.refl s).upd (by exact ⟨fun _ => rfl, fun _ => rfl, fun _ => id⟩) r
    refine hu.trans ?_
    dsimp only at h
    split at h
    · split at h
      · obtain ⟨u, hm, rfl⟩ := Option.map_eq_some_iff.mp h
        exact (mqttcmds_calm hm).trans (frame_calm _ u)
      · cases h
        exact frame_calm _ _
    · cases h
      exact frame_calm _ _

theorem rcv_calm {idx : ℕ} {data : LuaString} {s t : State} (h : rcv conv idx data s = some t) :
    Calm s t := by
  obtain ⟨k, -, h⟩ := Option.bind_eq_some_iff.mp h
  obtain ⟨r, -, h⟩ := Option.bind_eq_some_iff.mp h
  obtain ⟨_, -, h⟩ := Option.bind_eq_some_iff.mp h
  have hu := (timer_start_calm .pingreq idx s).upd
    (f := fun c => { c with sckrcvs := c.sckrcvs ++ data })
    (by exact ⟨fun _ => rfl, fun _ => rfl, fun _ => id⟩) r
  exact hu.trans (rcvloop_calm h)

theorem mqttdupind_calm (sckidx : ℕ) (dat : LuaString) (s : State) :
    Calm s (mqttdupind sckidx dat s) := by
  have hs := snd_calm sckidx dat .MQTTDUP s
  unfold mqttdupind
  split
  · rename_i u he
    rw [he] at hs
    exact hs
  · rename_i u he
    rw [he] at hs
    exact hs.trans (.of_eq rfl rfl rfl rfl rfl)

theorem procer_calm (m : MqttDup.Msg ℕ) (s : State) : Calm s (procer m s) := by
  cases m with
  | dupInd sckidx dat => exact mqttdupind_calm sckidx dat s
  | dupFail sckidx typ seq cb cbtag => exact told_calm (by exact fun _ => trivial) cb s

theorem getseq_calm (s : State) : Calm s (getseq s).1 := .of_eq rfl rfl rfl rfl rfl

/-- A publication or a subscription is sent, or kept for a repetition. -/
theorem offer_calm {sckidx : ℕ} {data : LuaString} {para : Para} {s t : State}
    {g : State → Option State} (hg : ∀ u v, g u = some v → Calm u v)
    (h : (match snd sckidx data para s with
      | (s, true) => some s
      | (s, false) => g s) = some t) : Calm s t := by
  have hs := snd_calm sckidx data para s
  obtain ⟨-, h⟩ | ⟨-, h⟩ := snd_match h
  · cases h
    exact hs
  · exact hs.trans (hg _ _ h)

theorem publish_calm {r : ℕ} {topic payload : LuaString} {qos : Option ℕ} {ackcb : Bool}
    {usertag : Option LuaString} {s t : State}
    (h : tmqtt.publish conv r topic payload qos ackcb usertag s = some t) : Calm s t := by
  unfold tmqtt.publish at h
  refine Calm.trans (record_calm (v := .publish r (qos.getD 0) ackcb) trivial s) ?_
  dsimp only at h
  split at h
  · cases h
    exact told_calm (by exact fun _ => trivial) _ _
  split at h
  · cases h
  · exact (getseq_calm _).trans (offer_calm (fun u v => mqttpubcb_calm) h)

theorem subscribe_calm {r : ℕ} {topics : List (LuaString × ℕ)} {ackcb : Bool}
    {usertag : Option LuaString} {s t : State}
    (h : tmqtt.subscribe conv r topics ackcb usertag s = some t) : Calm s t := by
  unfold tmqtt.subscribe at h
  refine Calm.trans (record_calm (v := .subscribe r ackcb) trivial s) ?_
  dsimp only at h
  split at h
  · cases h
    exact told_calm (by exact fun _ => trivial) _ _
  split at h
  · cases h
  · exact (getseq_calm _).trans (offer_calm (fun u v => mqttsubcb_calm) h)

/-! ## Steps -/

theorem resume_calm {f : Frame} {s t : State} (h : resume conv f s = some t) : Calm s t := by
  cases f with
  | discb k =>
      obtain ⟨r, -, rfl⟩ := Option.map_eq_some_iff.mp h
      exact (Calm.refl s).upd (by exact ⟨fun _ => rfl, fun _ => rfl, fun _ => id⟩) r
  | rcv idx k active =>
      simp only [resume] at h
      split at h
      · obtain ⟨u, hu, h⟩ := Option.bind_eq_some_iff.mp h
        exact (checkdatactive_calm hu).trans (rcvloop_calm h)
      · exact rcvloop_calm h

/-- The actions that make a calm change in every state, and the return of a callback. -/
def Plain (s : State) : Act → Prop
  | .create _ _ _ _ | .destroy _ _ | .disconnect _ _ | .connect _ _ _ _ _ _ | .sock _ => False
  | .timer .reconn _ | .timer .disconnect _ => False
  | .ret => s.frame ≠ none
  | _ => True

theorem step_calm {s t : State} {a : Act} (ha : Plain s a) (h : step conv s a = some t) :
    Calm s t := by
  have guard {r : ℕ} {o : Option State} (h : (if r < s.count then o else none) = some t) :
      o = some t := (Option.ite_none_right_eq_some.mp h).2
  have quiet {f : Client → Client} (r : ℕ) (hf : Minor f) : Calm s (upd r f s) := upd_calm hf r s
  cases a with
  | change r prot host port =>
      cases guard h
      exact quiet r (by exact ⟨fun _ => rfl, fun _ => rfl, fun _ => id⟩)
  | configwill r will =>
      cases guard h
      exact quiet r (by exact ⟨fun _ => rfl, fun _ => rfl, fun _ => id⟩)
  | publish r topic payload qos ackcb usertag => exact publish_calm (guard h)
  | subscribe r topics ackcb usertag => exact subscribe_calm (guard h)
  | regevtcb r message =>
      cases guard h
      exact (quiet r (by exact ⟨fun _ => rfl, fun _ => rfl, fun _ => id⟩)).trans
        (record_calm (by trivial) _)
  | timer f idx =>
      obtain ⟨-, h⟩ := Option.ite_none_right_eq_some.mp h
      cases f with
      | pingreq => exact (timer_stop_calm .pingreq idx s).trans (pingreq_calm h)
      | datinactive => cases h
      | reconn => exact ha.elim
      | disconnect => exact ha.elim
  | duptick =>
      obtain ⟨-, h⟩ := Option.ite_none_right_eq_some.mp h
      obtain ⟨d, -, rfl⟩ := Option.map_eq_some_iff.mp h
      exact .of_eq rfl rfl rfl rfl rfl
  | dupmsg =>
      simp only [step] at h
      split at h
      · cases h
        rename_i m ms _ _
        have hm : Calm s { s with dup := { s.dup with qmsg := ms } } := .of_eq rfl rfl rfl rfl rfl
        exact hm.trans (procer_calm m _)
      · cases h
  | rcv idx data =>
      obtain ⟨-, h⟩ := Option.ite_none_right_eq_some.mp h
      exact rcv_calm h
  | ret =>
      simp only [step] at h
      split at h
      · exact (frame_calm none s).trans (resume_calm h)
      · rename_i hf
        exact absurd hf ha
  | _ => exact ha.elim

end LuatAir200.MqttClients
