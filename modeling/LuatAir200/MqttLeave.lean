import LuatAir200.MqttIdentity
import Mathlib.Data.List.Find

/-!
# The end of an MQTT connection that the user asks for

`tmqtt:disconnect` sends the packet `DISCONNECT`, and the socket is disconnected when this
has been sent. That the user asked for the end is known from a cause, which is lost on the
way, and from the flag `discing`. It is respected when the server closes the connection in
time, and as long as no client makes a new attempt to connect.
-/
namespace LuatAir200.MqttClients
open Lua Machine Mqtt

variable {conv : Conv}

/-! ## What may happen meanwhile -/

/-- `reconn` makes a new attempt, for all clients. -/
def attempts (idx : ℕ) (s : State) : Bool :=
  (client idx s).any fun q =>
    !(s.objs q).sckconning && decide ((s.objs q).sckreconncnt < RECONN_MAX_CNT)

/-- No client has the socket index. -/
def Absent (idx : ℕ) (s : State) : Prop := ∀ q ∈ s.tclients, (s.objs q).sckidx ≠ idx

/-- The callback that call `n` has passed has not been called yet. -/
def Uncalled (n : ℕ) (s : State) : Prop := .discb n ∉ s.hist.drop n

/-- Neither is socket `idx` connected, nor callback `n` called, nor an end of a connection
heard. -/
structure Discreet (n idx : ℕ) (s t : State) : Prop where
  same : Same s t
  connected : ∀ r, (s.objs r).connected → (t.objs r).connected
  hist : ∃ l, t.hist = s.hist ++ l ∧ .sckconnect idx ∉ l ∧ .discb n ∉ l

section
variable {n idx : ℕ}

theorem Discreet.refl (s : State) : Discreet n idx s s :=
  ⟨.refl s, fun _ => id, [], by simp, by simp, by simp⟩

theorem Discreet.trans {s t u : State} (h : Discreet n idx s t) (h' : Discreet n idx t u) :
    Discreet n idx s u := by
  obtain ⟨l, hl, hs, hd⟩ := h.hist
  obtain ⟨m, hm, hs', hd'⟩ := h'.hist
  refine ⟨h.same.trans h'.same, fun r hr => h'.connected r (h.connected r hr), l ++ m, ?_, ?_, ?_⟩
  · rw [hm, hl, List.append_assoc]
  · exact fun hmem => (List.mem_append.mp hmem).elim hs hs'
  · exact fun hmem => (List.mem_append.mp hmem).elim hd hd'

theorem Calm.discreet {s t : State} (h : Calm s t) : Discreet n idx s t := by
  obtain ⟨l, hl, hm⟩ := h.hist
  exact ⟨h.same, h.connected, l, hl, fun hs => hm _ hs, fun hd => hm _ hd⟩

/-- The clients and the history are as before. -/
theorem Discreet.of_eq {s t : State} (hc : t.tclients = s.tclients) (hn : t.count = s.count)
    (ho : t.objs = s.objs) (hh : t.hist = s.hist) : Discreet n idx s t :=
  ⟨⟨hc, hn, fun r => by rw [ho]⟩, fun r => by rw [ho]; exact id, [], by simp [hh], by simp, by simp⟩

theorem record_discreet {v : Event} (hs : v ≠ .sckconnect idx) (hd : v ≠ .discb n) (s : State) :
    Discreet n idx s (record v s) :=
  ⟨⟨rfl, rfl, fun _ => rfl⟩, fun _ => id, [v], rfl, by simpa using hs.symm, by simpa using hd.symm⟩

theorem upd_discreet {f : Client → Client} (hf : ∀ c, (f c).sckidx = c.sckidx)
    (hc : ∀ c, c.connected → (f c).connected) (r : ℕ) (s : State) :
    Discreet n idx s (upd r f s) := by
  refine ⟨upd_same hf r s, fun i hi => ?_, [], by simp [upd], by simp, by simp⟩
  rw [upd_objs]
  split
  · rename_i he
    exact hc _ (he ▸ hi)
  · exact hi

theorem connect_discreet {i : ℕ} {prot host port : LuaString} {s t : State} (hi : i ≠ idx)
    (h : connect i prot host port s = some t) : Discreet n idx s t := by
  obtain ⟨r, -, rfl⟩ := Option.map_eq_some_iff.mp h
  have hs : Discreet n idx s
      { s with sock := (Sockets.connect i prot host port none s.sock).1 } := .of_eq rfl rfl rfl rfl
  exact (hs.trans (record_discreet (by simpa using hi) (by simp) _)).trans
    (upd_discreet (by exact fun _ => rfl) (by exact fun _ => id) r _)

theorem connectAll_discreet {rs : List ℕ} {s t : State}
    (hrs : ∀ r ∈ rs, (s.objs r).sckidx ≠ idx) (h : connectAll rs s = some t) :
    Discreet n idx s t := by
  induction rs generalizing s with
  | nil =>
      cases h
      exact .refl _
  | cons r rs ih =>
      obtain ⟨u, hu, h⟩ := Option.bind_eq_some_iff.mp h
      have hs := connect_discreet (n := n) (hrs r List.mem_cons_self) hu
      refine hs.trans (ih (fun q hq => ?_) h)
      rw [hs.same.sckidx]
      exact hrs q (List.mem_cons_of_mem r hq)

theorem reconn_discreet {i : ℕ} {s t : State} (ha : attempts i s → Absent idx s)
    (h : reconn i s = some t) : Discreet n idx s t := by
  obtain ⟨r, hr, h⟩ := Option.bind_eq_some_iff.mp h
  have quiet {f : Client → Client} (hf : ∀ c, (f c).sckidx = c.sckidx)
      (hc : ∀ c, c.connected → (f c).connected) : Discreet n idx s (upd r f s) :=
    upd_discreet hf hc r s
  dsimp only at h
  split at h
  · cases h
    exact .refl _
  rename_i hcon
  split at h
  · rename_i hcnt
    have habs : Absent idx s := ha (by simp [attempts, hr, hcon, hcnt])
    have hu := (quiet (f := fun c => { c with sckreconncnt := c.sckreconncnt + 1 })
      (by exact fun _ => rfl) (by exact fun _ => id)).trans (shut_calm _).discreet
    refine hu.trans (connectAll_discreet (fun q hq => ?_) h)
    rw [hu.same.sckidx]
    exact habs q hq
  split at h
  · obtain ⟨m, -, rfl⟩ := Option.map_eq_some_iff.mp h
    have hu := (quiet (f := fun c => { c with
        sckreconncnt := 0, sckreconncyclecnt := c.sckreconncyclecnt + 1 })
      (by exact fun _ => rfl) (by exact fun _ => id)).trans
      (upd_discreet (f := fun c => { c with sckreconncnt := 0, sckreconncyclecnt := 0 })
        (by exact fun _ => rfl) (by exact fun _ => id) r _)
    exact hu.trans (record_discreet (by simp) (by simp) _)
  · cases h
    exact (quiet (by exact fun _ => rfl) (by exact fun _ => id)).trans
      (timer_start_calm _ _ _).discreet

theorem mqttdiscb_discreet {i : ℕ} {usertag : Option ℕ} {s t : State}
    (h : mqttdiscb i usertag s = some t) : Discreet n idx s t := by
  obtain ⟨r, -, rfl⟩ := Option.map_eq_some_iff.mp h
  have hu : Discreet n idx s (upd r (fun c => { c with discing := true }) s) :=
    upd_discreet (by exact fun _ => rfl) (by exact fun _ => id) r s
  exact hu.trans (.of_eq rfl rfl rfl rfl)

theorem disconnect_discreet {i : ℕ} {usrtag : Option ℕ} {s t : State}
    (h : disconnect conv i usrtag s = some t) : Discreet n idx s t := by
  obtain ⟨r, -, h⟩ := Option.bind_eq_some_iff.mp h
  have hs : Discreet n idx s _ := (snd_calm i packDisconnect .MQTTDISC s).discreet
  obtain ⟨-, h⟩ | ⟨-, h⟩ := snd_match h
  · cases h
    exact hs
  · exact hs.trans (mqttdiscb_discreet h)

theorem closeAll_discreet (i : ℕ) (rs : List ℕ) (s : State) :
    Discreet n idx s (closeAll i s rs) := by
  induction rs generalizing s with
  | nil => exact .refl s
  | cons r rs ih =>
      refine Discreet.trans ?_ (ih _)
      split
      · exact .of_eq rfl rfl rfl rfl
      · exact .refl s

end

/-! ## The request of the user -/

/-- Since call `h.length`, which was made when `h` had happened and asked for the end of
the connection of client `r`, the socket of the client has not been connected. The callback
that it may have given has been called once, or the end has not come yet. -/
def Respected (h : List Event) (r : ℕ) (given : Bool) (s : State) : Prop :=
  ∃ l, s.hist = h ++ l ∧ .sckconnect (s.objs r).sckidx ∉ l ∧
    (given = true → l.count (.discb h.length) = 1 ∨ l.count (.discb h.length) = 0 ∧
      client (s.objs r).sckidx s = some r ∧ (s.objs r).connected = true)

theorem Respected.discreet {h : List Event} {r : ℕ} {given : Bool} {s t : State}
    (hs : Respected h r given s) (hd : Discreet h.length (s.objs r).sckidx s t) :
    Respected h r given t := by
  obtain ⟨l, hl, hq, ho⟩ := hs
  obtain ⟨m, hm, hq', hd'⟩ := hd.hist
  have hcount : (l ++ m).count (.discb h.length) = l.count (.discb h.length) := by
    rw [List.count_append, List.count_eq_zero.mpr hd', Nat.add_zero]
  refine ⟨l ++ m, by rw [hm, hl, List.append_assoc], ?_, fun hg => ?_⟩
  · rw [hd.same.sckidx]
    exact fun hmem => (List.mem_append.mp hmem).elim hq hq'
  · rw [hcount, hd.same.sckidx, hd.same.client]
    exact (ho hg).imp_right fun hp => ⟨hp.1, hp.2.1, hd.connected r hp.2.2⟩

/-- A connection ends with a call of `discb`. If it calls back the request, it has not
before, and if it ends the connection of the client, it does. -/
def Leaves (n r q : ℕ) (s : State) : Prop :=
  ((s.objs q).discb = some n → Uncalled n s) ∧
    (q = r → Uncalled n s → (s.objs r).discb = some n)

/-- A connection ends without a call of `discb`. It is not the one of the client, and if
all clients are connected anew the client is not among them. -/
def Breaks (n r : ℕ) (given : Bool) (i : ℕ) (s : State) : Prop :=
  (given = true → i = (s.objs r).sckidx → ¬Uncalled n s) ∧
    (attempts i s → Absent (s.objs r).sckidx s)

/-- The call of `ntfy` respects the request. -/
def Heeds (n r : ℕ) (given : Bool) (s : State) : Sockets.Call → Prop
  | .state i val =>
      if val = lua "CLOSED" then
        ∀ q ∈ client i s,
          if (s.objs q).discing then given = true → Leaves n r q s else Breaks n r given i s
      else if val = lua "SHUTED" then Breaks n r given i s
      else True
  | .disconnect i cause =>
      if cause = some USER then ∀ q ∈ client i s, given = true → Leaves n r q s
      else Breaks n r given i s
  | .close i => given = true → i = (s.objs r).sckidx → ¬Uncalled n s
  | .send _ _ _ | .connect _ _ _ => True

section
variable {h : List Event} {r : ℕ} {given : Bool}

theorem uncalled_iff {l : List Event} {s : State} (hl : s.hist = h ++ l) :
    Uncalled h.length s ↔ l.count (.discb h.length) = 0 := by
  rw [Uncalled, hl, List.drop_left, List.count_eq_zero]

/-- The end of the connection of another client. -/
theorem Respected.ended {i q : ℕ} {s : State} (hs : Respected h r given s)
    (hc : client i s = some q)
    (hb : given = true → i = (s.objs r).sckidx → ¬Uncalled h.length s) :
    Respected h r given (ended i q s) := by
  obtain ⟨l, hl, hq, ho⟩ := hs
  have hr : ((MqttClients.ended i q s).objs r).sckidx = (s.objs r).sckidx :=
    ended_field Client.sckidx (by exact fun _ => rfl) r
  have hsame : Same s (MqttClients.ended i q s) := same_kept.of_ended i q s
  refine ⟨l, hl, by rwa [hr], fun hg => (ho hg).imp_right fun hp => ⟨hp.1, ?_, ?_⟩⟩
  · rw [hr, hsame.client]
    exact hp.2.1
  · have hi : i ≠ (s.objs r).sckidx := fun he => hb hg he ((uncalled_iff hl).mpr hp.1)
    have hne : r ≠ q := by
      rintro rfl
      exact hi (client_sckidx hc).2.symm
    rw [MqttClients.ended, upd_objs, if_neg hne]
    exact hp.2.2

theorem Respected.broken {i q : ℕ} {s t : State} (hs : Respected h r given s)
    (hc : client i s = some q) (hb : Breaks h.length r given i s)
    (ht : reconn i (MqttClients.ended i q s) = some t) : Respected h r given t := by
  have hsame : Same s (MqttClients.ended i q s) := same_kept.of_ended i q s
  refine (hs.ended hc hb.1).discreet (reconn_discreet (fun ha p hp => ?_) ht)
  have ha : attempts i s := by
    simpa only [attempts, hsame.client, ended_field Client.sckconning (by exact fun _ => rfl),
      ended_field Client.sckreconncnt (by exact fun _ => rfl)] using ha
  rw [hsame.tclients] at hp
  rw [hsame.sckidx, hsame.sckidx]
  exact hb.2 ha p hp

/-- The connection of client `q` has ended, and its callback is called. -/
theorem Respected.left {i k q : ℕ} {s : State} (hs : Respected h r given s)
    (hc : client i s = some q) (hv : given = true → Leaves h.length r q s) :
    Respected h r given (left k q (MqttClients.ended i q s)) := by
  obtain ⟨l, hl, hq, ho⟩ := hs
  have hd : ((MqttClients.ended i q s).objs q).discb = (s.objs q).discb :=
    ended_field Client.discb (by exact fun _ => rfl) q
  have hu := uncalled_iff (h := h) hl
  -- Without this callback the client itself cannot be leaving.
  have stays (m : List Event) {t : State} (ht : t.hist = h ++ (l ++ m)) (hsame : Same s t)
      (hm : .sckconnect (s.objs r).sckidx ∉ m) (hn : .discb h.length ∉ m)
      (ho' : r ≠ q → (t.objs r).connected = (s.objs r).connected)
      (hne : (s.objs q).discb ≠ some h.length) : Respected h r given t := by
    refine ⟨l ++ m, ht, ?_, fun hg => ?_⟩
    · rw [hsame.sckidx]
      exact fun hmem => (List.mem_append.mp hmem).elim hq hm
    · rw [List.count_append, List.count_eq_zero.mpr hn, Nat.add_zero, hsame.sckidx, hsame.client]
      refine (ho hg).imp_right fun hp => ⟨hp.1, hp.2.1, ?_⟩
      have hrq : r ≠ q := by
        rintro rfl
        exact hne ((hv hg).2 rfl (hu.mpr hp.1))
      rw [ho' hrq]
      exact hp.2.2
  have hsame : Same s (MqttClients.left k q (MqttClients.ended i q s)) :=
    same_kept.trans (same_kept.of_ended i q s) (same_kept.of_left k q _)
  have hobjs (hrq : r ≠ q) : (MqttClients.ended i q s).objs r = s.objs r := by
    rw [MqttClients.ended, upd_objs, if_neg hrq]
    rfl
  unfold MqttClients.left at hsame ⊢
  rw [hd] at hsame ⊢
  cases hcb : (s.objs q).discb with
  | none =>
      rw [hcb] at hsame
      refine stays [] (by rw [List.append_nil]; exact hl) hsame (by simp) (by simp) (fun hrq => ?_)
        (by rw [hcb]; simp)
      rw [upd_objs, if_neg hrq, hobjs hrq]
  | some m =>
      rw [hcb] at hsame
      have hhist : (MqttClients.ended i q s).hist ++ [.discb m] = h ++ (l ++ [.discb m]) := by
        rw [← List.append_assoc, ← hl]
        rfl
      by_cases hm : m = h.length
      · subst hm
        refine ⟨l ++ [Event.discb h.length], hhist, ?_, fun hg => .inl ?_⟩
        · rw [hsame.sckidx]
          simpa using hq
        · rw [List.count_append, hu.mp ((hv hg).1 hcb), List.count_singleton_self]
      · refine stays [.discb m] hhist hsame (by simp) (by simpa using Ne.symm hm) (fun hrq => ?_)
          (by simpa [hcb] using hm)
        exact congrArg Client.connected (hobjs hrq)

theorem ntfy_respected {c : Sockets.Call} {s t : State} (hs : Respected h r given s)
    (hh : Heeds h.length r given s c) (ht : ntfy conv c s = some t) :
    Respected h r given t := by
  cases c with
  | connect i result cause =>
      obtain ⟨q, -, ht⟩ := Option.bind_eq_some_iff.mp ht
      have hu : Discreet h.length (s.objs r).sckidx s _ := upd_discreet
        (f := fun c => { c with sckconning := false })
        (by exact fun _ => rfl) (by exact fun _ => id) q s
      dsimp only at ht
      split at ht
      · refine hs.discreet ((hu.trans (upd_discreet (f := fun c => { c with
            sckconnected := true, sckreconncnt := 0, sckreconncyclecnt := 0, sckrcvs := [] })
          (by exact fun _ => rfl) (fun c _ => ?_) q _)).trans
          ((timer_stop_calm .reconn i _).trans (mqttsnd_calm (by simp) ht)).discreet)
        simp [Client.connected]
      · cases ht
        exact hs.discreet (hu.trans (timer_start_calm .reconn i _).discreet)
  | send i result item =>
      simp only [ntfy] at ht
      split at ht
      · cases item with
        | none =>
            cases ht
            exact hs
        | some item =>
            by_cases hp : s.paras[item.para]? = some .MQTTDISC
            · simp only [Option.elim_some, sent, hp] at ht
              exact hs.discreet (mqttdiscb_discreet ht)
            · exact hs.discreet (sent_calm hp ht).discreet
      · cases ht
        exact hs.discreet (shut_calm s).discreet
  | state i val =>
      simp only [ntfy] at ht
      simp only [Heeds] at hh
      split at ht
      · rename_i hval
        rw [if_pos hval] at hh
        obtain ⟨k, -, ht⟩ := Option.bind_eq_some_iff.mp ht
        obtain ⟨q, hq, ht⟩ := Option.bind_eq_some_iff.mp ht
        have hh := hh q hq
        rw [ended_field Client.discing (by exact fun _ => rfl)] at ht
        split at ht
        · rename_i hd
          cases ht
          rw [if_pos hd] at hh
          exact hs.left hq hh
        · rename_i hd
          rw [if_neg hd] at hh
          exact hs.broken hq hh ht
      rename_i hval
      rw [if_neg hval] at hh
      split at ht
      · rename_i hval
        rw [if_pos hval] at hh
        obtain ⟨q, hq, ht⟩ := Option.bind_eq_some_iff.mp ht
        exact hs.broken hq hh ht
      · cases ht
        split
        · exact hs.discreet (shut_calm s).discreet
        · exact hs
  | disconnect i cause =>
      obtain ⟨k, -, ht⟩ := Option.bind_eq_some_iff.mp ht
      obtain ⟨q, hq, ht⟩ := Option.bind_eq_some_iff.mp ht
      simp only [Heeds] at hh
      dsimp only at ht
      split at ht
      · rename_i hcause
        cases ht
        rw [if_pos hcause] at hh
        exact hs.left hq (hh q hq)
      · rename_i hcause
        rw [if_neg hcause] at hh
        exact hs.broken hq hh ht
  | close i =>
      obtain ⟨k, hk, ht⟩ := Option.bind_eq_some_iff.mp ht
      obtain ⟨q, -, rfl⟩ := Option.map_eq_some_iff.mp ht
      have he : Respected h r given { s with tclients := s.tclients.eraseIdx k } := by
        obtain ⟨l, hl, hq, ho⟩ := hs
        refine ⟨l, hl, hq, fun hg => (ho hg).imp_right fun hp => ⟨hp.1, ?_, hp.2.2⟩⟩
        have hne : i ≠ (s.objs r).sckidx := fun he => hh hg he ((uncalled_iff hl).mpr hp.1)
        exact (eraseIdx_client hk hne).trans hp.2.1
      exact he.discreet ((rmvall_calm i _).trans
        (told_calm (v := .destroycb) (by exact fun _ => trivial) _ _)).discreet

end

/-! ## Runs -/

/-- The event that the step of the sockets brings respects the request. -/
def Brings (n r : ℕ) (given : Bool) (b : Sockets.Act) (s : State) : Prop :=
  ∀ u ∈ Sockets.step s.sock b, ∀ c ∈ newcall s.sock u, OTHER_MAX < callidx c →
    Heeds n r given { s with sock := u } c

/-- The step respects the request: it makes no new attempt for the client, and no end of its
connection passes unnoticed or is taken for a second one. -/
def Obeys (n r : ℕ) (given : Bool) (s : State) : Act → Prop
  | .connect q _ _ _ _ _ => (s.objs q).sckidx = (s.objs r).sckidx →
      (s.objs q).connected = true ∧ (given = true → ¬Uncalled n s)
  | .timer .reconn i => attempts i s → Absent (s.objs r).sckidx s
  | .sock b => Brings n r given b s
  | .ret => s.frame = none → Brings n r given .ret s
  | _ => True

section
variable (n r : ℕ) (given : Bool) (s : State)

instance decidableUncalled : Decidable (Uncalled n s) := by unfold Uncalled; infer_instance

instance decidableAbsent (idx : ℕ) : Decidable (Absent idx s) := by unfold Absent; infer_instance

instance decidableLeaves (q : ℕ) : Decidable (Leaves n r q s) := by unfold Leaves; infer_instance

instance decidableBreaks (i : ℕ) : Decidable (Breaks n r given i s) := by
  unfold Breaks; infer_instance

instance decidableHeeds (c : Sockets.Call) : Decidable (Heeds n r given s c) := by
  cases c <;> unfold Heeds <;> infer_instance

instance decidableBrings (b : Sockets.Act) : Decidable (Brings n r given b s) := by
  unfold Brings; infer_instance

instance decidableObeys (a : Act) : Decidable (Obeys n r given s a) := by
  unfold Obeys; split <;> infer_instance

end

section
variable {h : List Event} {r : ℕ} {given : Bool}

theorem serve_respected {b : Sockets.Act} {u : Sockets.State} {s t : State}
    (hs : Respected h r given s) (hb : Brings h.length r given b s)
    (hu : Sockets.step s.sock b = some u) (ht : serve conv u s = some t) :
    Respected h r given t := by
  have hq : Respected h r given { s with sock := u } := hs
  unfold serve at ht
  split at ht
  · rename_i c hc
    split at ht
    · rename_i hidx
      exact ntfy_respected hq (hb u hu c hc hidx) ht
    · cases ht
      exact hq
  · cases ht
    exact hq

theorem create_respected {prot host port : LuaString} {ver : Option LuaString} {s t : State}
    (htab : Tabled s) (hr : r < s.count) (hs : Respected h r given s)
    (ht : create prot host port ver s = some t) : Respected h r given t := by
  obtain ⟨-, hc, -, -, ho⟩ := create_shift ht
  have hhist : t.hist = s.hist := by
    unfold create at ht
    split at ht <;> cases ht
    rfl
  obtain ⟨l, hl, hq, hp⟩ := hs
  have hobj : t.objs r = s.objs r := ho r hr
  refine ⟨l, hhist.trans hl, by rwa [hobj], fun hg => (hp hg).imp_right fun hp => ⟨hp.1, ?_, ?_⟩⟩
  · have hfind : client (s.objs r).sckidx t = (client (s.objs r).sckidx s).or
        ([s.count].find? fun q => (t.objs q).sckidx = (s.objs r).sckidx) := by
      rw [client_find, hc, List.find?_append, client_find]
      congr 1
      exact List.find?_congr fun q hq => by rw [ho q (htab.exist q hq)]
    rw [hobj, hfind, hp.2.1, Option.some_or]
  · rw [hobj]
    exact hp.2.2

theorem tmqttConnect_respected {q : ℕ} {clientid : Option LuaString} {keepalive : Option ℕ}
    {user password : Option LuaString} {cbs : ConnectCbs} {s t : State}
    (hs : Respected h r given s) (hm : Obeys h.length r given s
      (.connect q clientid keepalive user password cbs))
    (ht : tmqtt.connect conv q clientid keepalive user password cbs s = some t) :
    Respected h r given t := by
  unfold tmqtt.connect at ht
  generalize hf : (fun c : Client => _) = f at ht
  have hsck (c : Client) : (f c).sckidx = c.sckidx := by rw [← hf]
  have hcon (c : Client) : (f c).connected = c.connected := by rw [← hf]; rfl
  have hd (u : State) : Discreet h.length (s.objs r).sckidx u (record (.connect q) (upd q f u)) :=
    (upd_discreet hsck (fun c hc => by rwa [hcon]) q u).trans (record_discreet (by simp) (by simp) _)
  obtain ⟨k, hk, ht⟩ := Option.bind_eq_some_iff.mp ht
  have hk : getclient (s.objs q).sckidx s = some k := by
    rwa [(hd s).same.getclient, (hd s).same.sckidx] at hk
  have hset : Respected h r given { s with tclients := s.tclients.set k q } := by
    obtain ⟨l, hl, hq, hp⟩ := hs
    refine ⟨l, hl, hq, fun hg => (hp hg).imp_right fun hp => ⟨hp.1, ?_, hp.2.2⟩⟩
    have hne : (s.objs q).sckidx ≠ (s.objs r).sckidx :=
      fun he => (hm he).2 hg ((uncalled_iff hl).mpr hp.1)
    exact (set_client hk hne).trans hp.2.1
  have hw : Respected h r given
      (record (.connect q) (upd q f { s with tclients := s.tclients.set k q })) :=
    hset.discreet (hd _)
  have hidx : ((upd q f s).objs q).sckidx = (s.objs q).sckidx := upd_field Client.sckidx hsck q q s
  have hc : ((upd q f s).objs q).connected = (s.objs q).connected :=
    upd_field Client.connected hcon q q s
  dsimp only at ht
  split at ht
  · cases ht
    exact hw
  rename_i hn
  split at ht
  · exact hw.discreet (mqttsnd_calm (by simp) ht).discreet
  · rename_i hn'
    obtain ⟨x, hx, ht⟩ := Option.bind_eq_some_iff.mp ht
    have hne : (s.objs q).sckidx ≠ (s.objs r).sckidx := fun he => by
      have hcn := (hm he).1
      rw [← hc, Client.connected, Bool.or_eq_true] at hcn
      exact hcn.elim hn hn'
    refine hw.discreet (Discreet.trans (connect_discreet ?_ hx) (checkdatactive_calm ht).discreet)
    have hr : ((record (.connect q) (upd q f { s with tclients := s.tclients.set k q })).objs
        r).sckidx = (s.objs r).sckidx := upd_field Client.sckidx hsck q r _
    rw [hr]
    exact hidx ▸ hne

theorem step_respected {s t : State} {a : Act} (htab : Tabled s) (hr : r < s.count)
    (hs : Respected h r given s) (hm : Obeys h.length r given s a)
    (ht : step conv s a = some t) : Respected h r given t := by
  have guard {q : ℕ} {o : Option State} (ht : (if q < s.count then o else none) = some t) :
      o = some t := (Option.ite_none_right_eq_some.mp ht).2
  by_cases hp : Plain s a
  · exact hs.discreet (step_calm hp ht).discreet
  cases a with
  | create prot host port ver => exact create_respected htab hr hs ht
  | destroy q destroycb =>
      cases guard ht
      have hu : Discreet h.length (s.objs r).sckidx s
          (upd q (fun c => { c with destroycb := callback destroycb s }) s) :=
        upd_discreet (by exact fun _ => rfl) (by exact fun _ => id) q s
      exact hs.discreet ((hu.trans (record_discreet (by simp) (by simp) _)).trans
        (closeAll_discreet _ _ _))
  | disconnect q discb =>
      have hu : Discreet h.length (s.objs r).sckidx s
          (upd q (fun c => { c with discb := callback discb s }) s) :=
        upd_discreet (by exact fun _ => rfl) (by exact fun _ => id) q s
      exact hs.discreet ((hu.trans (record_discreet (by simp) (by simp) _)).trans
        (disconnect_discreet (guard ht)))
  | connect q clientid keepalive user password cbs => exact tmqttConnect_respected hs hm (guard ht)
  | timer f i =>
      obtain ⟨-, ht⟩ := Option.ite_none_right_eq_some.mp ht
      have hu : Discreet h.length (s.objs r).sckidx s _ := (timer_stop_calm f i s).discreet
      cases f with
      | reconn => exact hs.discreet (hu.trans (reconn_discreet hm ht))
      | disconnect => exact hs.discreet (hu.trans (disconnect_discreet ht))
      | pingreq => exact absurd trivial hp
      | datinactive => exact absurd trivial hp
  | sock b =>
      obtain ⟨-, ht⟩ := Option.ite_none_right_eq_some.mp ht
      obtain ⟨u, hu, ht⟩ := Option.bind_eq_some_iff.mp ht
      exact serve_respected hs hm hu ht
  | ret =>
      have hf : s.frame = none := not_not.mp hp
      simp only [step, hf] at ht
      obtain ⟨u, hu, ht⟩ := Option.bind_eq_some_iff.mp ht
      exact serve_respected hs (hm hf) hu ht
  | _ => exact absurd trivial hp

/-- After a client that is connected has been told to disconnect, its socket is not connected
again, and its `discb` is called once, when the connection ends, as long as all steps respect
the request. -/
theorem disconnect_respected {s t : State} {as : List Act} (hs : Reachable (step conv) boot s)
    (hr : client (s.objs r).sckidx s = some r) (hc : (s.objs r).connected = true)
    (ht : step conv s (.disconnect r given) = some t)
    (hm : Meets (step conv) (Obeys s.hist.length r given) t as) :
    Along (step conv) (Respected s.hist r given) t as := by
  have htab : Tabled s := hs.invariant step_tabled boot_tabled
  have hlt : r < s.count := htab.exist r (client_sckidx hr).1
  have hbegin : Respected s.hist r given s := ⟨[], by simp, by simp, fun _ => .inr ⟨by simp, hr, hc⟩⟩
  refine along_of_meets (I := fun s => Tabled s ∧ r < s.count) (fun u a v hu hv => ?_)
    (fun u a v hu hp hm hv => step_respected hu.1 hu.2 hp hm hv) ⟨?_, ?_⟩ ?_ hm
  · exact ⟨step_tabled u a v hu.1 hv, hu.2.trans_le (step_count hv)⟩
  · exact step_tabled s _ t htab ht
  · exact hlt.trans_le (step_count ht)
  · exact step_respected (a := .disconnect r given) htab hlt hbegin trivial ht

end

/-- A client is created, and its connection to the broker is made. -/
def connected : List Act :=
  let urc (data : LuaString) : Act := .sock (.link (.urc data))
  [.create (lua "TCP") (lua "a.b") (lua "1883") none,
    .connect 0 none none none none ⟨false, false, false⟩, urc (lua "STATE: IP STATUS")] ++
  answer (lua "OK") ++ [urc (lua "0, CONNECT OK"), .ret] ++
  answer (lua "DATA ACCEPT:0,20") ++ [.ret, .rcv 5 [0x20, 2, 0, 0], .ret]

/-- The server closes the connection when it has got the packet `DISCONNECT`. -/
def closedFirst : List Act :=
  answer (lua "DATA ACCEPT:0,2") ++ [.ret, .sock (.link (.urc (lua "0, CLOSED"))), .ret, .ret] ++
  answer (lua "0, CLOSE OK")

theorem disconnect_closedFirst : ∃ s t u : State,
    run (step ⟨id, id⟩) boot connected = some s ∧ (s.objs 0).mqttconnected = true ∧
    step ⟨id, id⟩ s (.disconnect 0 true) = some t ∧ run (step ⟨id, id⟩) t closedFirst = some u ∧
    u.hist.drop s.hist.length = [.disconnect 0 true, .discb s.hist.length] ∧
    Along (step ⟨id, id⟩) (Respected s.hist 0 true) t closedFirst := by
  have h : (run (step ⟨id, id⟩) boot connected).map (fun s => ((s.objs 0).mqttconnected,
      client (s.objs 0).sckidx s,
      (step ⟨id, id⟩ s (.disconnect 0 true)).map fun t =>
        (decide (Meets (step ⟨id, id⟩) (Obeys s.hist.length 0 true) t closedFirst),
          (run (step ⟨id, id⟩) t closedFirst).map fun u =>
            decide (u.hist.drop s.hist.length = [.disconnect 0 true, .discb s.hist.length])))) =
      some (true, some 0, some (true, some true)) := by decide +kernel
  obtain ⟨s, hs, h⟩ := Option.map_eq_some_iff.mp h
  simp only [Prod.mk.injEq] at h
  obtain ⟨hm, hr, h⟩ := h
  obtain ⟨t, ht, h⟩ := Option.map_eq_some_iff.mp h
  simp only [Prod.mk.injEq, decide_eq_true_eq] at h
  obtain ⟨hmeets, h⟩ := h
  obtain ⟨u, hu, h⟩ := Option.map_eq_some_iff.mp h
  exact ⟨s, t, u, hs, hm, ht, hu, of_decide_eq_true h,
    disconnect_respected ⟨connected, hs⟩ hr (by simp [Client.connected, hm]) ht hmeets⟩

/-- The module confirms the end of the connection before the server closes it: the client
connects anew, and its `discb` is not called. -/
theorem disconnect_reconnects : ∃ s t u : State,
    run (step ⟨id, id⟩) boot connected = some s ∧ (s.objs 0).mqttconnected = true ∧
    step ⟨id, id⟩ s (.disconnect 0 true) = some t ∧
    run (step ⟨id, id⟩) t (answer (lua "DATA ACCEPT:0,2") ++ [.ret] ++
      answer (lua "0, CLOSE OK")) = some u ∧
    (u.objs 0).sckconnected = false ∧
    u.hist.drop s.hist.length = [.disconnect 0 true, .sckconnect (u.objs 0).sckidx] ∧
    ¬Respected s.hist 0 true u := by
  have h : (run (step ⟨id, id⟩) boot connected).map (fun s => ((s.objs 0).mqttconnected,
      (step ⟨id, id⟩ s (.disconnect 0 true)).map fun t =>
        (run (step ⟨id, id⟩) t (answer (lua "DATA ACCEPT:0,2") ++ [.ret] ++
          answer (lua "0, CLOSE OK"))).map fun u => ((u.objs 0).sckconnected,
            decide (u.hist.drop s.hist.length =
              [.disconnect 0 true, .sckconnect (u.objs 0).sckidx])))) =
      some (true, some (some (false, true))) := by decide +kernel
  obtain ⟨s, hs, h⟩ := Option.map_eq_some_iff.mp h
  simp only [Prod.mk.injEq] at h
  obtain ⟨hm, h⟩ := h
  obtain ⟨t, ht, h⟩ := Option.map_eq_some_iff.mp h
  obtain ⟨u, hu, h⟩ := Option.map_eq_some_iff.mp h
  simp only [Prod.mk.injEq, decide_eq_true_eq] at h
  obtain ⟨hc, hh⟩ := h
  refine ⟨s, t, u, hs, hm, ht, hu, hc, hh, ?_⟩
  rintro ⟨l, hl, hq, -⟩
  rw [hl, List.drop_left] at hh
  exact hq (by simp [hh])

end LuatAir200.MqttClients
