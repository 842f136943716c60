import LuatAir200.SysDelivery

/-!
# Arguments of internal messages

`dispatch` keeps its arguments as a table, and `callapp` expands it again up to the length
operator, which may give any border of a table with `nil` in it.
-/
namespace LuatAir200.Sys
open Lua Machine

variable {φ α : Type}

section
variable [DecidableEq α]

/-- The loop of `callapp` over the apps when `#msg` is `n`. -/
def apploopAt (n : ℕ) (apps : List (App φ α)) (msg : Args (Value α)) : ℕ → Option (Next φ α)
  | 0 => some .done
  | i + 1 =>
      match apps[i]? with
      | none => none
      | some app =>
          match app.procer with
          | some procer =>
              match itemloop (msgid msg) app.items with
              | some rest => some (.call procer (msg.take n) ⟨msg, i + 1, app, rest⟩)
              | none => apploopAt n apps msg i
          | none =>
              match (msgid msg).bind app.fields with
              | some f => some (.call f (msg.take n).tail ⟨msg, i + 1, app, []⟩)
              | none => apploopAt n apps msg i

/-- The delivery after a handler has returned. -/
def resumeAt (n : ℕ) (apps : List (App φ α)) (c : Cursor φ α) (result : Bool) : Option (Next φ α) :=
  if result then
    match c.app.procer with
    | some procer =>
        match itemloop (msgid c.msg) c.rest with
        | some rest => some (.call procer (c.msg.take n) { c with rest := rest })
        | none => apploopAt n apps c.msg (c.i - 1)
    | none => apploopAt n apps c.msg (c.i - 1)
  else some .done

/-- `callapp(msg)` calls `f` with `arg`, for some results of the handlers that it has called before.
The two ids of registration are for no handler. -/
inductive Called (n : ℕ) (apps : List (App φ α)) (msg : Args (Value α)) :
    φ → Args (Value α) → Cursor φ α → Prop
  | first {f : φ} {arg : Args (Value α)} {c : Cursor φ α} (hid : ¬reserved msg)
      (h : apploopAt n apps msg apps.length = some (.call f arg c)) : Called n apps msg f arg c
  | next {f g : φ} {arg arg' : Args (Value α)} {c c' : Cursor φ α} {result : Bool}
      (hc : Called n apps msg f arg c) (h : resumeAt n apps c result = some (.call g arg' c')) :
      Called n apps msg g arg' c'

/-- The handler of an app is called for a message with the id of `msg`. -/
def App.Handles (app : App φ α) (msg : Args (Value α)) : Prop :=
  match app.procer with
  | some _ => (itemloop (msgid msg) app.items).isSome
  | none => ((msgid msg).bind app.fields).isSome

end

/-- A handler of the table form is not given the id. -/
def App.takes (app : App φ α) (msg : Args (Value α)) : Args (Value α) :=
  if app.procer.isSome then msg else msg.tail

theorem App.takes_agree {s t : Args (Value α)} (h : Agree s t) (app : App φ α) :
    Agree (app.takes s) (app.takes t) := by
  rw [takes, takes]
  split
  · exact h
  · exact h.tail

/-! ## What is called -/

section
variable [DecidableEq α]

theorem apploopAt_call {n : ℕ} {apps : List (App φ α)} {msg : Args (Value α)} {i : ℕ} {f : φ}
    {arg : Args (Value α)} {c : Cursor φ α} (h : apploopAt n apps msg i = some (.call f arg c)) :
    c.msg = msg ∧ c.app ∈ apps ∧ c.app.Handles msg ∧ arg = c.app.takes (msg.take n) := by
  induction i with
  | zero => cases h
  | succ i ih =>
      rw [apploopAt] at h
      split at h
      · cases h
      · rename_i app happ
        have hmem := List.mem_of_getElem? happ
        split at h
        · rename_i procer hp
          split at h
          · rename_i rest hl
            cases h
            refine ⟨rfl, hmem, ?_, ?_⟩
            · simp only [App.Handles, hp, hl, Option.isSome_some]
            · simp only [App.takes, hp, Option.isSome_some, if_true]
          · exact ih h
        · rename_i hp
          split at h
          · rename_i g hl
            cases h
            refine ⟨rfl, hmem, ?_, ?_⟩
            · simp only [App.Handles, hp, hl, Option.isSome_some]
            · simp only [App.takes, hp, Option.isSome_none, Bool.false_eq_true, if_false]
          · exact ih h

theorem Called.spec {n : ℕ} {apps : List (App φ α)} {msg : Args (Value α)} {f : φ}
    {arg : Args (Value α)} {c : Cursor φ α} (h : Called n apps msg f arg c) :
    ¬reserved msg ∧ c.msg = msg ∧ c.app ∈ apps ∧ c.app.Handles msg ∧
      arg = c.app.takes (msg.take n) := by
  induction h with
  | first hid h => exact ⟨hid, apploopAt_call h⟩
  | next hc h ih =>
      obtain ⟨hid, rfl, hmem, hh, -⟩ := ih
      refine ⟨hid, ?_⟩
      rw [resumeAt] at h
      split at h
      · split at h
        · rename_i procer hp
          split at h
          · cases h
            refine ⟨rfl, hmem, hh, ?_⟩
            simp only [App.takes, hp, Option.isSome_some, if_true]
          · exact apploopAt_call h
        · exact apploopAt_call h
      · cases h

/-- An app that handles the message: some handler is called. -/
theorem apploopAt_handled {n : ℕ} {apps : List (App φ α)} {msg : Args (Value α)} {i : ℕ}
    (hi : i ≤ apps.length) (h : ∃ app ∈ apps.take i, app.Handles msg) :
    ∃ f arg c, apploopAt n apps msg i = some (.call f arg c) := by
  induction i with
  | zero =>
      obtain ⟨app, hmem, -⟩ := h
      cases hmem
  | succ i ih =>
      have happ : apps[i]? = some apps[i] := List.getElem?_eq_getElem (by omega)
      have hrest : ¬apps[i].Handles msg → ∃ f arg c, apploopAt n apps msg i = some (.call f arg c) := by
        intro hnot
        apply ih (by omega)
        obtain ⟨app, hmem, hh⟩ := h
        rw [List.take_add_one, happ] at hmem
        obtain hmem | hmem := List.mem_append.mp hmem
        · exact ⟨app, hmem, hh⟩
        · obtain rfl : app = apps[i] := by simpa using hmem
          exact absurd hh hnot
      rw [apploopAt, happ]
      simp only
      cases hp : apps[i].procer with
      | some procer =>
          simp only
          cases hl : itemloop (msgid msg) apps[i].items with
          | some rest => exact ⟨_, _, _, rfl⟩
          | none =>
              apply hrest
              simp [App.Handles, hp, hl]
      | none =>
          simp only
          cases hl : (msgid msg).bind apps[i].fields with
          | some f => exact ⟨_, _, _, rfl⟩
          | none =>
              apply hrest
              simp [App.Handles, hp, hl]

/-! ## The interpreter -/

theorem apploop_len (apps : List (App φ α)) (msg : Args (Value α)) (i : ℕ) :
    apploop apps msg i = apploopAt (len msg) apps msg i := by
  induction i with
  | zero => rfl
  | succ i ih =>
      rw [apploop, apploopAt, ih]
      rfl

theorem resume_len (apps : List (App φ α)) (c : Cursor φ α) (result : Bool) :
    resume apps c result = resumeAt (len c.msg) apps c result := by
  rw [resume, resumeAt, apploop_len]
  rfl

/-- The program dispatches no message with an id of registration, and a handler is called for the
message that was taken last. -/
structure Serves (s : State φ α) : Prop where
  free : ∀ msg, .other msg ∈ dispatched s.hist → ¬reserved msg
  handler : ∀ c, s.control = .handler c →
    (.other c.msg ∈ dispatched s.hist ∨ c.msg = refreshmsg) ∧
    ∃ f arg, (calls s.hist).getLast? = some (f, arg) ∧ Called (len c.msg) s.apps c.msg f arg c

theorem refreshmsg_free : ¬reserved (refreshmsg : Args (Value α)) := by
  have h1 : lua "MMI_REFRESH_IND" ≠ lua "SYS_ADD_APP" := by decide
  have h2 : lua "MMI_REFRESH_IND" ≠ lua "SYS_REMOVE_APP" := by decide
  simp [reserved, refreshmsg, msgid, h1, h2]

/-- Outside a handler only the messages count. -/
theorem Serves.outside {s t : State φ α} (hs : Serves s) (hc : ∀ c, t.control ≠ .handler c)
    (hd : dispatched t.hist = dispatched s.hist) : Serves t :=
  ⟨fun msg hmem => hs.free msg (hd ▸ hmem), fun c h => absurd h (hc c)⟩

/-- The delivery of a message begins. -/
theorem Serves.taken {s u : State φ α} {msg : Args (Value α)} {n : Next φ α} (hs : Serves s)
    (hd : dispatched u.hist = dispatched s.hist)
    (hmsg : .other msg ∈ dispatched s.hist ∨ msg = refreshmsg) (hid : ¬reserved msg)
    (h : apploop u.apps msg u.apps.length = some n) : Serves (proceed n u) := by
  cases n with
  | done =>
      refine hs.outside ?_ hd
      intro c hc
      cases hc
  | call f arg c =>
      rw [apploop_len] at h
      have hspec := apploopAt_call h
      constructor
      · intro m hm
        apply hs.free m
        rw [← hd]
        simpa [proceed, record, Event.dispatched] using hm
      · intro c' hc
        cases hc
        rw [hspec.1]
        refine ⟨?_, f, arg, ?_, .first hid h⟩
        · rw [← hd] at hmsg
          simpa [proceed, record, Event.dispatched] using hmsg
        · simp [proceed, record, Event.called]

theorem Serves.ret {s t : State φ α} {c : Cursor φ α} {result : Bool} (hs : Serves s)
    (hc : s.control = .handler c)
    (h : ((resume s.apps c result).map fun n => proceed n (record (.ret result) s)) = some t) :
    Serves t := by
  obtain ⟨n, hn, rfl⟩ := Option.map_eq_some_iff.mp h
  have hd : dispatched (s.hist ++ [.ret result]) = dispatched s.hist := by
    simp [Event.dispatched]
  cases n with
  | done =>
      refine hs.outside ?_ hd
      intro c' hc'
      cases hc'
  | call g arg' c' =>
      obtain ⟨hmsg, f, arg, -, hcalled⟩ := hs.handler c hc
      rw [resume_len] at hn
      have hnext := hcalled.next hn
      constructor
      · intro m hm
        apply hs.free m
        rw [← hd]
        simpa [proceed, record, Event.dispatched] using hm
      · intro d hd'
        cases hd'
        rw [hnext.spec.2.1]
        refine ⟨?_, g, arg', ?_, hnext⟩
        · rw [← hd] at hmsg
          simpa [proceed, record, Event.dispatched] using hmsg
        · simp [proceed, record, Event.called]

/-- The program puts a message into the queue. -/
theorem Serves.dispatch {s : State φ α} (hs : Serves s) {m : Msg φ α}
    (hm : ∀ msg, m = .other msg → ¬reserved msg) : Serves (dispatch m s) := by
  have hd : dispatched (s.hist ++ [.dispatch m]) = dispatched s.hist ++ [m] := by
    simp [Event.dispatched]
  constructor
  · intro msg hmem
    have hmem : .other msg ∈ dispatched s.hist ++ [m] := hd ▸ hmem
    obtain hmem | hmem := List.mem_append.mp hmem
    · exact hs.free msg hmem
    · exact hm msg (List.mem_singleton.mp hmem).symm
  · intro c hc
    obtain ⟨hmsg, f, arg, hlast, hcalled⟩ := hs.handler c hc
    refine ⟨?_, f, arg, ?_, hcalled⟩
    · exact hmsg.imp_left fun h => hd ▸ List.mem_append_left _ h
    · simpa [Sys.dispatch, record, Event.called] using hlast

end

section
variable [DecidableEq φ] [DecidableEq α]

theorem Serves.round {s t : State φ α} (hi : Inv s) (hs : Serves s) (hc : s.control = .loop)
    (h : round s = some t) : Serves t := by
  rw [Sys.round] at h
  split at h
  · rename_i m qmsg hq
    have hmem : m ∈ dispatched s.hist := by
      rw [hi.order, hq]
      exact List.mem_append_right _ List.mem_cons_self
    have hd : dispatched (s.hist ++ [.getmsg m]) = dispatched s.hist := by
      simp [Event.dispatched]
    cases m with
    | SYS_ADD_APP app | SYS_REMOVE_APP id =>
        cases h
        refine hs.outside ?_ hd
        intro c hcur
        rw [record, hc] at hcur
        cases hcur
    | other msg =>
        obtain ⟨n, hn, rfl⟩ := Option.map_eq_some_iff.mp h
        exact hs.taken hd (.inl hmem) (hs.free msg hmem) hn
  · have hd : dispatched (s.hist ++ [.refreshmsg]) = dispatched s.hist := by
      simp [Event.dispatched]
    split at h
    · obtain ⟨n, hn, rfl⟩ := Option.map_eq_some_iff.mp h
      exact hs.taken hd (.inr rfl) refreshmsg_free hn
    · cases h
      refine hs.outside ?_ rfl
      intro c hc
      cases hc

theorem Serves.step {s t : State φ α} {a : Act φ α} (hi : Inv s) (hs : Serves s)
    (h : step s a = some t) : Serves t := by
  cases a with
  | runqmsg =>
      simp only [Sys.step] at h
      split at h
      · cases h
        refine hs.outside ?_ rfl
        intro c hc
        cases hc
      · cases h
  | round =>
      simp only [Sys.step] at h
      split at h
      · rename_i hc
        exact hs.round hi hc h
      · cases h
  | ret result =>
      simp only [Sys.step] at h
      split at h
      · rename_i c hc
        exact hs.ret hc h
      · cases h
  | dispatch msg =>
      obtain ⟨hp, ⟨⟩⟩ := Option.ite_none_right_eq_some.mp h
      apply hs.dispatch
      rintro _ ⟨⟩
      simpa using hp.2
  | regapp app | deregapp id =>
      obtain ⟨-, ⟨⟩⟩ := Option.ite_none_right_eq_some.mp h
      apply hs.dispatch
      rintro _ ⟨⟩
  | refresh =>
      obtain ⟨-, ⟨⟩⟩ := Option.ite_none_right_eq_some.mp h
      exact ⟨hs.free, hs.handler⟩

theorem serves_reachable {s : State φ α} (h : Reachable step boot s) : Inv s ∧ Serves s := by
  have hboot : Serves (boot : State φ α) := by
    refine ⟨fun msg hmem => ?_, fun c hc => ?_⟩
    · cases hmem
    · cases hc
  exact h.invariant (P := fun s => Inv s ∧ Serves s)
    (fun s a t hi ht => ⟨hi.1.step ht, hi.2.step hi.1 ht⟩) ⟨Inv.boot, hboot⟩

/-- Every handler is given the values of the message at their positions, with every length that the
table may have, exactly if there is no value behind a `nil`, or no handler for the message at all.
And the handlers of every run are called for a message that was dispatched, with one of these
lengths. -/
theorem arguments_kept (apps : List (App φ α)) (msg : Args (Value α)) :
    ((∀ n, IsBorder msg n → ∀ f arg c, Called n apps msg f arg c → Agree arg (c.app.takes msg)) ↔
      NoHole msg ∨ reserved msg ∨ ∀ app ∈ apps, ¬app.Handles msg) ∧
    ∀ s : State φ α, Reachable step boot s → ∀ c, s.control = .handler c →
      (.other c.msg ∈ dispatched s.hist ∨ c.msg = refreshmsg) ∧ IsBorder c.msg (len c.msg) ∧
      ∃ f arg, (calls s.hist).getLast? = some (f, arg) ∧
        Called (len c.msg) s.apps c.msg f arg c ∧ (NoHole c.msg → Agree arg (c.app.takes c.msg)) := by
  have hkept : ∀ (apps : List (App φ α)) msg n f arg c, IsBorder msg n → NoHole msg →
      Called n apps msg f arg c → Agree arg (c.app.takes msg) := by
    intro apps msg n f arg c hn hhole hc
    obtain ⟨-, -, -, -, rfl⟩ := hc.spec
    exact App.takes_agree (take_agree hn hhole) c.app
  refine ⟨⟨?_, ?_⟩, ?_⟩
  · intro hall
    by_contra hnot
    push Not at hnot
    obtain ⟨hhole, hid, hex⟩ := hnot
    obtain ⟨n, hn, j, hj, hsome⟩ := border_hole hhole
    rw [← List.take_length (l := apps)] at hex
    obtain ⟨f, arg, c, hcall⟩ := @apploopAt_handled _ _ _ n apps msg _ (le_refl _) hex
    have hagree := hall n hn f arg c (.first hid hcall)
    obtain ⟨-, -, -, rfl⟩ := apploopAt_call hcall
    have hnone : (msg.take n)[j]? = none := List.getElem?_take_eq_none (Nat.le_of_lt hj)
    simp only [App.takes] at hagree
    split at hagree
    · have hval := hagree j
      rw [← hval, hnone] at hsome
      cases hsome
    · have hval := hagree (j - 1)
      have hsub : j - 1 + 1 = j := by omega
      rw [List.getElem?_tail, List.getElem?_tail, hsub] at hval
      rw [← hval, hnone] at hsome
      cases hsome
  · rintro (hhole | hid | hnone) n hn f arg c hc
    · exact hkept apps msg n f arg c hn hhole hc
    · exact absurd hid hc.spec.1
    · exact absurd hc.spec.2.2.2.1 (hnone _ hc.spec.2.2.1)
  · intro s hs c hc
    obtain ⟨hmsg, f, arg, hlast, hcalled⟩ := (serves_reachable hs).2.handler c hc
    have hb := len_isBorder c.msg
    exact ⟨hmsg, hb, f, arg, hlast, hcalled, fun hhole => hkept _ _ _ _ _ _ hb hhole hcalled⟩

end

/-- An app in the table form with one message. -/
def listener (id : LuaString) : App ℕ ℕ := ⟨0, none, [], fun v => if v = .str id then some 1 else none⟩

/-- What `rsm` dispatches for a packet without callback, whose `cbtag` is set. -/
def dupfail : Args (Value ℕ) :=
  [some (.str (lua "MQTT_DUP_FAIL")), some (.other 1), some (.str (lua "MQTTSUB")),
    some (.str [0, 1]), none, some (.str (lua "tag"))]

/-- A message of a program. -/
def holed : Args (Value ℕ) := [some (.str (lua "USER")), none, some (.str (lua "a")), none]

/-- The tag is lost with one of the two lengths that the table may have; and the interpreter takes a
length with which the second argument of `holed` is lost. -/
theorem hole_lost : IsBorder dupfail 4 ∧
    (∃ arg c, Called 4 [listener (lua "MQTT_DUP_FAIL")] dupfail 1 arg c ∧
      arg = [some (.other 1), some (.str (lua "MQTTSUB")), some (.str [0, 1])] ∧
      ¬Agree arg (c.app.takes dupfail)) ∧
    len holed = 1 ∧
    ∃ c, Called (len holed) [listener (lua "USER")] holed 1 [] c ∧ ¬Agree [] (c.app.takes holed) := by
  refine ⟨⟨.inr rfl, rfl⟩, ⟨_, _, .first (by decide) rfl, rfl, ?_⟩, rfl, _, .first (by decide) rfl, ?_⟩
  · intro h
    cases h 4
  · intro h
    cases h 1

/-- A message with `nil` at its end only. -/
def ready : Args (Value ℕ) := [some (.str (lua "READY")), some (.other 7), none]

theorem arguments_kept_ready : ∀ n, IsBorder ready n → ∀ f arg c,
    Called n [listener (lua "READY")] ready f arg c → Agree arg (c.app.takes ready) := by
  refine (arguments_kept [listener (lua "READY")] ready).1.mpr (.inl ?_)
  intro i j hij hj
  have hlt : j < 2 := by
    by_contra hge
    obtain rfl | hge : j = 2 ∨ 3 ≤ j := by omega
    · cases hj
    · rw [List.getElem?_eq_none hge] at hj
      cases hj
  obtain rfl : i = 0 := by omega
  rfl

end LuatAir200.Sys
