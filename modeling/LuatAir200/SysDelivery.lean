import LuatAir200.SysModel

/-!
# Delivery of internal messages

The messages are processed in the order in which they were dispatched, the registrations
among them change the table of apps at their own place in the queue and only there, and
each message is offered to the apps from the newest to the oldest until a handler does
not return `true`.
-/
namespace LuatAir200.Sys
open Lua Machine

variable {φ α : Type}

/-! ## What the history says -/

def Event.dispatched : Event φ α → Option (Msg φ α)
  | .dispatch m => some m
  | _ => none

def Event.processed : Event φ α → Option (Msg φ α)
  | .getmsg m => some m
  | _ => none

def Event.called : Event φ α → Option (φ × Args (Value α))
  | .call f arg => some (f, arg)
  | _ => none

def Event.result : Event φ α → Option Bool
  | .ret result => some result
  | _ => none

/-- The messages that were put into the queue. -/
def dispatched (hist : List (Event φ α)) : List (Msg φ α) := hist.filterMap Event.dispatched

/-- The messages that were taken from the queue. -/
def processed (hist : List (Event φ α)) : List (Msg φ α) := hist.filterMap Event.processed

/-- The calls of handlers. -/
def calls (hist : List (Event φ α)) : List (φ × Args (Value α)) := hist.filterMap Event.called

/-- Which handlers have returned `true`. -/
def rets (hist : List (Event φ α)) : List Bool := hist.filterMap Event.result

@[simp] theorem dispatched_append (h h' : List (Event φ α)) : dispatched (h ++ h') = dispatched h ++ dispatched h' :=
  List.filterMap_append

@[simp] theorem processed_append (h h' : List (Event φ α)) : processed (h ++ h') = processed h ++ processed h' :=
  List.filterMap_append

@[simp] theorem calls_append (h h' : List (Event φ α)) : calls (h ++ h') = calls h ++ calls h' :=
  List.filterMap_append

@[simp] theorem rets_append (h h' : List (Event φ α)) : rets (h ++ h') = rets h ++ rets h' :=
  List.filterMap_append

@[simp] theorem dispatched_cons (v : Event φ α) (h : List (Event φ α)) :
    dispatched (v :: h) = (Event.dispatched v).toList ++ dispatched h := by
  cases v <;> rfl

@[simp] theorem dispatched_nil : dispatched ([] : List (Event φ α)) = [] := rfl

@[simp] theorem processed_cons (v : Event φ α) (h : List (Event φ α)) :
    processed (v :: h) = (Event.processed v).toList ++ processed h := by
  cases v <;> rfl

@[simp] theorem processed_nil : processed ([] : List (Event φ α)) = [] := rfl

@[simp] theorem calls_cons (v : Event φ α) (h : List (Event φ α)) :
    calls (v :: h) = (Event.called v).toList ++ calls h := by
  cases v <;> rfl

@[simp] theorem calls_nil : calls ([] : List (Event φ α)) = [] := rfl

@[simp] theorem rets_cons (v : Event φ α) (h : List (Event φ α)) :
    rets (v :: h) = (Event.result v).toList ++ rets h := by
  cases v <;> rfl

@[simp] theorem rets_nil : rets ([] : List (Event φ α)) = [] := rfl

section
variable [DecidableEq φ]

/-- What a message does to the table of apps. -/
def register (apps : List (App φ α)) : Msg φ α → List (App φ α)
  | .SYS_ADD_APP app => addapp app apps
  | .SYS_REMOVE_APP id => removeapp id apps
  | .other _ => apps

/-- The table of apps, as the messages that were processed have made it. -/
def appsAfter (hist : List (Event φ α)) : List (App φ α) := (processed hist).foldl register []

end

section
variable [DecidableEq α]

/-- The calls for the items of an app. -/
def itemCalls (msg : Args (Value α)) (procer : φ) (items : Args (Value α)) :
    List (φ × Args (Value α)) :=
  ((items.takeWhile Option.isSome).filter fun v => v = msgid msg).map fun _ => (procer, unpack msg)

/-- The calls that an app wants for a message: one for each registration of its id, or
the one of the field with the id. -/
def appCalls (msg : Args (Value α)) (app : App φ α) : List (φ × Args (Value α)) :=
  match app.procer with
  | some procer => itemCalls msg procer app.items
  | none => ((msgid msg).bind app.fields).toList.map fun f => (f, (unpack msg).tail)

/-- The calls for a message when all handlers return `true`, from the app that was added
last to the oldest one. -/
def targets (apps : List (App φ α)) (msg : Args (Value α)) : List (φ × Args (Value α)) :=
  apps.reverse.flatMap (appCalls msg)

/-- The calls for what is taken by `runqmsg`; `none` for the other events. -/
def Event.targets (apps : List (App φ α)) : Event φ α → Option (List (φ × Args (Value α)))
  | .getmsg (.other msg) => some (Sys.targets apps msg)
  | .getmsg _ => some []
  | .refreshmsg => some (Sys.targets apps Sys.refreshmsg)
  | _ => none

end

/-- Does the event begin the processing of a message? -/
def Event.begins : Event φ α → Bool
  | .getmsg _ | .refreshmsg => true
  | _ => false

/-! ## The last message -/

/-- The last message begins before events that begin none. -/
theorem split_quiet {hist evs pre post : List (Event φ α)} {v : Event φ α}
    (h : hist ++ evs = pre ++ v :: post) (hv : v.begins = true)
    (hevs : ∀ w ∈ evs, w.begins = false) :
    ∃ post', hist = pre ++ v :: post' ∧ post = post' ++ evs := by
  rcases List.append_eq_append_iff.mp h with ⟨a, hp, he⟩ | ⟨a, hh, he⟩
  · have hmem : v ∈ evs := by
      rw [he]
      exact List.mem_append_right a List.mem_cons_self
    rw [hevs v hmem] at hv
    cases hv
  · rcases List.cons_eq_append_iff.mp he with ⟨rfl, he'⟩ | ⟨a', rfl, he'⟩
    · have hmem : v ∈ evs := by
        rw [he']
        exact List.mem_cons_self
      rw [hevs v hmem] at hv
      cases hv
    · exact ⟨a', hh, he'⟩

/-- The last message is the one that begins behind `hist`. -/
theorem split_begins {hist evs pre post : List (Event φ α)} {v w : Event φ α}
    (h : hist ++ w :: evs = pre ++ v :: post) (hw : w.begins = true) (hv : v.begins = true)
    (hevs : ∀ x ∈ evs, x.begins = false) (hpost : ∀ x ∈ post, x.begins = false) :
    pre = hist ∧ v = w ∧ post = evs := by
  have h' : (hist ++ [w]) ++ evs = pre ++ v :: post := by
    rw [List.append_assoc]
    exact h
  obtain ⟨post', hp, rfl⟩ := split_quiet h' hv hevs
  rcases List.eq_nil_or_concat post' with rfl | ⟨post'', x, rfl⟩
  · obtain ⟨rfl, hvw⟩ := List.append_inj' hp rfl
    exact ⟨rfl, (List.singleton_inj.mp hvw).symm, rfl⟩
  · rw [List.concat_eq_append, ← List.cons_append, ← List.append_assoc] at hp
    obtain ⟨-, hx⟩ := List.append_inj' hp rfl
    obtain rfl : w = x := List.singleton_inj.mp hx
    rw [hpost w (by simp)] at hw
    cases hw

theorem proceed_control (n : Next φ α) (s : State φ α) : (proceed n s).control ≠ .out := by
  cases n <;> simp [proceed, record]

/-! ## The loops of `callapp` -/

/-- A handler is called for an app up to `i`. -/
def Next.upTo (i : ℕ) : Next φ α → Prop
  | .done => True
  | .call _ _ c => c.i ≤ i

theorem Next.upTo.mono {n : Next φ α} {i j : ℕ} (h : n.upTo i) (hij : i ≤ j) : n.upTo j := by
  cases n with
  | done => trivial
  | call f arg c => exact Nat.le_trans h hij

section
variable [DecidableEq α]

theorem itemCalls_loop (msg : Args (Value α)) (procer : φ) (items : Args (Value α)) :
    itemCalls msg procer items = (itemloop (msgid msg) items).elim [] fun rest =>
      (procer, unpack msg) :: itemCalls msg procer rest := by
  induction items with
  | nil => rfl
  | cons v items ih =>
      cases v with
      | none => rfl
      | some v =>
          rw [itemloop]
          by_cases hv : some v = msgid msg
          · rw [if_pos hv]
            simp [itemCalls, ← hv]
          · rw [if_neg hv, ← ih]
            simp [itemCalls, hv]

/-- The calls that the delivery at a cursor still has before it. -/
def pending (apps : List (App φ α)) (c : Cursor φ α) : List (φ × Args (Value α)) :=
  (match c.app.procer with
    | some procer => itemCalls c.msg procer c.rest
    | none => []) ++ targets (apps.take (c.i - 1)) c.msg

/-- The calls that are made or still to be made when the delivery goes on. -/
def Next.calls (apps : List (App φ α)) : Next φ α → List (φ × Args (Value α))
  | .done => []
  | .call f arg c => (f, arg) :: pending apps c

theorem begins_of_targets {apps : List (App φ α)} {v : Event φ α}
    {ts : List (φ × Args (Value α))} (h : v.targets apps = some ts) : v.begins = true := by
  cases v with
  | getmsg m => rfl
  | refreshmsg => rfl
  | _ => cases h

theorem targets_succ {apps : List (App φ α)} {msg : Args (Value α)} {i : ℕ} {app : App φ α}
    (h : apps[i]? = some app) :
    targets (apps.take (i + 1)) msg = appCalls msg app ++ targets (apps.take i) msg := by
  rw [targets, targets, List.take_add_one, h]
  simp

/-- The loop over the apps makes the first of the calls that are wanted. -/
theorem apploop_calls {apps : List (App φ α)} (msg : Args (Value α)) {i : ℕ}
    (h : i ≤ apps.length) :
    ∃ n, apploop apps msg i = some n ∧ n.calls apps = targets (apps.take i) msg ∧ n.upTo i := by
  induction i with
  | zero => exact ⟨.done, rfl, by simp [Next.calls, targets], trivial⟩
  | succ i ih =>
      obtain ⟨n, hn, hc, hi⟩ := ih (by omega)
      have happ : apps[i]? = some apps[i] := List.getElem?_eq_getElem (by omega)
      rw [targets_succ happ, apploop, happ]
      simp only
      cases hp : apps[i].procer with
      | some procer =>
          have hcalls := itemCalls_loop msg procer apps[i].items
          have hwant : appCalls msg apps[i] = itemCalls msg procer apps[i].items := by
            rw [appCalls, hp]
          simp only
          cases hl : itemloop (msgid msg) apps[i].items with
          | some rest =>
              rw [hl] at hcalls
              refine ⟨_, rfl, ?_, Nat.le_refl _⟩
              rw [hwant, hcalls]
              simp [Next.calls, pending, hp]
          | none =>
              rw [hl] at hcalls
              refine ⟨n, hn, ?_, hi.mono (Nat.le_succ i)⟩
              rw [hwant, hcalls, hc]
              rfl
      | none =>
          simp only
          cases hl : (msgid msg).bind apps[i].fields with
          | some f =>
              refine ⟨_, rfl, ?_, Nat.le_refl _⟩
              simp [appCalls, hp, hl, Next.calls, pending]
          | none =>
              refine ⟨n, hn, ?_, hi.mono (Nat.le_succ i)⟩
              simp [appCalls, hp, hl, hc]

/-- A handler that returns `true` lets the delivery go on with the next call. -/
theorem resume_calls {apps : List (App φ α)} {c : Cursor φ α} (h : c.i - 1 ≤ apps.length) :
    ∃ n, resume apps c true = some n ∧ n.calls apps = pending apps c ∧ n.upTo c.i := by
  obtain ⟨n, hn, hc, hi⟩ := apploop_calls c.msg h
  have hi' : n.upTo c.i := hi.mono (Nat.sub_le c.i 1)
  rw [resume, if_pos rfl, pending]
  cases hp : c.app.procer with
  | some procer =>
      have hcalls := itemCalls_loop c.msg procer c.rest
      simp only
      cases hl : itemloop (msgid c.msg) c.rest with
      | some rest =>
          rw [hl] at hcalls
          refine ⟨_, rfl, ?_, Nat.le_refl _⟩
          rw [hcalls]
          simp [Next.calls, pending, hp]
      | none =>
          rw [hl] at hcalls
          exact ⟨n, hn, by rw [hcalls, hc]; rfl, hi'⟩
  | none => exact ⟨n, hn, by rw [hc]; rfl, hi'⟩

/-! ## The invariant -/

/-- In the handler at `c`: the calls so far and the pending ones are those that are wanted. -/
structure Busy (ts : List (φ × Args (Value α))) (post : List (Event φ α)) (apps : List (App φ α))
    (c : Cursor φ α) : Prop where
  calls : ts = calls post ++ pending apps c
  returned : (Sys.calls post).length = (rets post).length + 1
  true : ∀ r ∈ rets post, r = Bool.true

/-- The delivery is over: all wanted calls were made, or the last one did not return `true`. -/
structure Finished (ts : List (φ × Args (Value α))) (post : List (Event φ α)) : Prop where
  calls : calls post <+: ts
  returned : (Sys.calls post).length = (rets post).length
  true : ∀ r ∈ (rets post).dropLast, r = Bool.true
  stop : Sys.calls post = ts ∨ (rets post).getLast? = some false

end

section
variable [DecidableEq φ] [DecidableEq α]

structure Inv (s : State φ α) : Prop where
  order : dispatched s.hist = processed s.hist ++ s.qmsg
  apps : s.apps = appsAfter s.hist
  cursor : ∀ c, s.control = .handler c → c.i - 1 ≤ s.apps.length
  delivery : ∀ pre v post ts, s.hist = pre ++ v :: post → v.targets (appsAfter pre) = some ts →
    (∀ w ∈ post, w.begins = false) →
    (∀ c, s.control = .handler c → Busy ts post s.apps c) ∧
      ((∀ c, s.control ≠ .handler c) → Finished ts post)

/-- Calls of the program, and the beginning and the end of `runqmsg`: the queue grows by
what is dispatched, and the delivery stands still. -/
theorem Inv.quiet {s t : State φ α} (hi : Inv s) (evs : List (Event φ α))
    (hh : t.hist = s.hist ++ evs) (hb : ∀ v ∈ evs, v.begins = false) (hc : calls evs = [])
    (hr : rets evs = []) (hp : processed evs = []) (hq : t.qmsg = s.qmsg ++ dispatched evs)
    (ha : t.apps = s.apps) (hctl : ∀ c, t.control = .handler c ↔ s.control = .handler c) :
    Inv t where
  order := by
    rw [hh, hq, dispatched_append, processed_append, hi.order, hp, List.append_nil,
      List.append_assoc]
  apps := by
    rw [ha, hi.apps, appsAfter, appsAfter, hh, processed_append, hp, List.append_nil]
  cursor c hcur := ha ▸ hi.cursor c ((hctl c).mp hcur)
  delivery pre v post ts heq hts hpost := by
    obtain ⟨post', hs, rfl⟩ := split_quiet (hh ▸ heq) (begins_of_targets hts) hb
    obtain ⟨hbusy, hfin⟩ := hi.delivery pre v post' ts hs hts fun w hw =>
      hpost w (List.mem_append_left _ hw)
    have hcalls : calls (post' ++ evs) = calls post' := by
      rw [calls_append, hc, List.append_nil]
    have hrets : rets (post' ++ evs) = rets post' := by
      rw [rets_append, hr, List.append_nil]
    constructor
    · intro c hcur
      obtain ⟨h₁, h₂, h₃⟩ := hbusy c ((hctl c).mp hcur)
      exact ⟨by rw [hcalls, ha]; exact h₁, by rw [hcalls, hrets]; exact h₂,
        by rw [hrets]; exact h₃⟩
    · intro hno
      obtain ⟨h₁, h₂, h₃, h₄⟩ := hfin fun c hcur => hno c ((hctl c).mpr hcur)
      exact ⟨by rw [hcalls]; exact h₁, by rw [hcalls, hrets]; exact h₂, by rw [hrets]; exact h₃,
        by rw [hcalls, hrets]; exact h₄⟩

/-- A message is offered to the apps: the first call is made, or there is none. -/
theorem Inv.offer {s u : State φ α} {w : Event φ α} (msg : Args (Value α))
    (hh : u.hist = s.hist ++ [w]) (hw : ∀ apps, w.targets apps = some (targets apps msg))
    (ho : dispatched u.hist = processed u.hist ++ u.qmsg) (ha : u.apps = appsAfter s.hist)
    (hreg : appsAfter u.hist = appsAfter s.hist) :
    ∃ n, apploop u.apps msg u.apps.length = some n ∧ Inv (proceed n u) := by
  obtain ⟨n, hn, hc, hup⟩ := apploop_calls msg (Nat.le_refl u.apps.length)
  rw [List.take_length] at hc
  refine ⟨n, hn, ?_⟩
  have hbegin : w.begins = true := begins_of_targets (hw [])
  cases n with
  | done =>
      refine ⟨ho, ha.trans hreg.symm, ?_, ?_⟩
      · intro c hcur
        cases hcur
      intro pre v post ts heq hts hpost
      have heq' : s.hist ++ w :: [] = pre ++ v :: post := hh ▸ heq
      obtain ⟨rfl, rfl, rfl⟩ := split_begins heq' hbegin (begins_of_targets hts) (by simp) hpost
      rw [hw, ← ha, ← hc] at hts
      cases hts
      constructor
      · intro c hcur
        cases hcur
      · exact fun _ => ⟨List.nil_prefix, rfl, by simp, .inl rfl⟩
  | call f arg c =>
      refine ⟨?_, ?_, ?_, ?_⟩
      · simpa [proceed, record, Event.dispatched, Event.processed] using ho
      · rw [appsAfter] at hreg ⊢
        simpa [proceed, record, Event.processed, hreg] using ha
      · intro c' hcur
        cases hcur
        have hle : c.i ≤ u.apps.length := hup
        show c.i - 1 ≤ u.apps.length
        omega
      · intro pre v post ts heq hts hpost
        have heq' : s.hist ++ w :: [.call f arg] = pre ++ v :: post := by
          rw [← heq]
          simp [proceed, record, hh]
        obtain ⟨rfl, rfl, rfl⟩ := split_begins heq' hbegin (begins_of_targets hts)
          (by simp [Event.begins]) hpost
        rw [hw, ← ha, ← hc] at hts
        cases hts
        refine ⟨fun c' hcur => ?_, fun hno => absurd rfl (hno c)⟩
        cases hcur
        exact ⟨rfl, rfl, by simp [Event.result]⟩

/-- A registration takes effect when its message is processed. -/
theorem Inv.registered {s u : State φ α} {m : Msg φ α} (hi : Inv s)
    (hm : ∀ apps, (Event.getmsg m).targets apps = some []) (hh : u.hist = s.hist ++ [.getmsg m])
    (hq : s.qmsg = m :: u.qmsg) (ha : u.apps = register s.apps m) (hc : u.control = .loop) :
    Inv u where
  order := by simp [hh, hi.order, hq, Event.dispatched, Event.processed]
  apps := by
    rw [ha, hi.apps, appsAfter, appsAfter, hh, processed_append, List.foldl_append]
    rfl
  cursor c hcur := by
    rw [hc] at hcur
    cases hcur
  delivery pre v post ts heq hts hpost := by
    have heq' : s.hist ++ .getmsg m :: [] = pre ++ v :: post := hh ▸ heq
    obtain ⟨rfl, rfl, rfl⟩ := split_begins heq' rfl (begins_of_targets hts) (by simp) hpost
    rw [hm] at hts
    cases hts
    constructor
    · intro c hcur
      rw [hc] at hcur
      cases hcur
    · exact fun _ => ⟨List.nil_prefix, rfl, by simp, .inl rfl⟩

theorem Inv.round {s t : State φ α} (hi : Inv s) (hc : s.control = .loop)
    (h : round s = some t) : Inv t := by
  unfold Sys.round at h
  split at h
  · rename_i m qmsg hq
    cases m with
    | SYS_ADD_APP app =>
        cases h
        exact hi.registered (fun _ => rfl) rfl hq rfl hc
    | SYS_REMOVE_APP id =>
        cases h
        exact hi.registered (fun _ => rfl) rfl hq rfl hc
    | other msg =>
        obtain ⟨n, hn, rfl⟩ := Option.map_eq_some_iff.mp h
        have hoffer := Inv.offer (s := s) (u := record (.getmsg (.other msg)) { s with qmsg := qmsg })
          (w := .getmsg (.other msg)) msg rfl (fun _ => rfl)
          (by simp [record, hi.order, hq, Event.dispatched, Event.processed]) hi.apps
          (by simp [appsAfter, record, Event.processed, register])
        obtain ⟨n', hn', hinv⟩ := hoffer
        rw [hn] at hn'
        cases hn'
        exact hinv
  · rename_i hq
    split at h
    · obtain ⟨n, hn, rfl⟩ := Option.map_eq_some_iff.mp h
      have hoffer := Inv.offer (s := s) (u := record .refreshmsg { s with refreshflag := false })
        (w := .refreshmsg) refreshmsg rfl (fun _ => rfl)
        (by simp [record, hi.order, Event.dispatched, Event.processed]) hi.apps
        (by simp [appsAfter, record, Event.processed])
      obtain ⟨n', hn', hinv⟩ := hoffer
      rw [hn] at hn'
      cases hn'
      exact hinv
    · cases h
      refine hi.quiet [] (List.append_nil _).symm (by simp) rfl rfl rfl
        (List.append_nil _).symm rfl fun c => ?_
      rw [hc]
      simp

/-- A handler returns. -/
theorem Inv.ret {s t : State φ α} {c : Cursor φ α} {result : Bool} (hi : Inv s)
    (hc : s.control = .handler c)
    (h : ((resume s.apps c result).map fun n => proceed n (record (.ret result) s)) = some t) :
    Inv t := by
  obtain ⟨n, hn, rfl⟩ := Option.map_eq_some_iff.mp h
  have hcur := hi.cursor c hc
  have horder : dispatched (s.hist ++ [.ret result]) =
      processed (s.hist ++ [.ret result]) ++ s.qmsg := by
    simp [hi.order, Event.dispatched, Event.processed]
  have happs : s.apps = appsAfter (s.hist ++ [.ret result]) := by
    simp [appsAfter, Event.processed, hi.apps]
  have hsplit {evs : List (Event φ α)} {pre post : List (Event φ α)} {v : Event φ α}
      {ts : List (φ × Args (Value α))} (heq : s.hist ++ evs = pre ++ v :: post)
      (hevs : ∀ w ∈ evs, w.begins = false) (hts : v.targets (appsAfter pre) = some ts)
      (hpost : ∀ w ∈ post, w.begins = false) :
      ∃ post', post = post' ++ evs ∧ Busy ts post' s.apps c := by
    obtain ⟨post', hs, rfl⟩ := split_quiet heq (begins_of_targets hts) hevs
    exact ⟨post', rfl, (hi.delivery pre v post' ts hs hts fun w hw =>
      hpost w (List.mem_append_left _ hw)).1 c hc⟩
  have hdone (hlast : result = false ∨ pending s.apps c = []) :
      Inv (proceed .done (record (.ret result) s)) := by
    refine ⟨horder, happs, ?_, ?_⟩
    · intro c' hcur
      cases hcur
    · intro pre v post ts heq hts hpost
      obtain ⟨post', rfl, hbusy⟩ := hsplit heq (by simp [Event.begins]) hts hpost
      obtain ⟨hcalls, hlen, htrue⟩ := hbusy
      constructor
      · intro c' hcur
        cases hcur
      · intro _
        refine ⟨?_, ?_, ?_, ?_⟩
        · simp [hcalls, Event.called]
        · simp [Event.called, Event.result, hlen]
        · simpa [Event.result] using htrue
        · rcases hlast with rfl | hnone
          · exact .inr (by simp [Event.result])
          · exact .inl (by simp [Event.called, hcalls, hnone])
  cases result with
  | false =>
      cases hn
      exact hdone (.inl rfl)
  | true =>
      obtain ⟨n', hn', hcalls', hup⟩ := resume_calls hcur
      rw [hn] at hn'
      cases hn'
      cases n with
      | done => exact hdone (.inr hcalls'.symm)
      | call f arg c' =>
          refine ⟨?_, ?_, ?_, ?_⟩
          · simpa [proceed, record, Event.dispatched, Event.processed] using horder
          · simpa [proceed, record, appsAfter, Event.processed] using happs
          · intro d hd
            cases hd
            have hle : c'.i ≤ c.i := hup
            show c'.i - 1 ≤ s.apps.length
            omega
          · intro pre v post ts heq hts hpost
            have heq' : s.hist ++ [.ret true, .call f arg] = pre ++ v :: post := by
              rw [← heq]
              simp [proceed, record]
            obtain ⟨post', rfl, hbusy⟩ := hsplit heq' (by simp [Event.begins]) hts hpost
            obtain ⟨hcalls, hlen, htrue⟩ := hbusy
            refine ⟨fun d hd => ?_, fun hno => absurd rfl (hno c')⟩
            cases hd
            have hc₂ : calls (post' ++ [.ret true, .call f arg]) = calls post' ++ [(f, arg)] := by
              simp [Event.called]
            have hr₂ : rets (post' ++ [.ret true, .call f arg]) = rets post' ++ [true] := by
              simp [Event.result]
            refine ⟨?_, ?_, ?_⟩
            · rw [hc₂, hcalls, ← hcalls']
              simp [Next.calls, proceed, record]
            · rw [hc₂, hr₂, List.length_append, List.length_append, hlen]
              rfl
            · rw [hr₂]
              intro r hr
              rcases List.mem_append.mp hr with hr | hr
              · exact htrue r hr
              · exact List.mem_singleton.mp hr

/-! ## Runs -/

theorem Inv.boot : Inv (boot : State φ α) := by
  refine ⟨rfl, rfl, ?_, ?_⟩
  · intro c hc
    cases hc
  · intro pre v post ts h
    have hlen := congrArg List.length h
    simp [Sys.boot] at hlen

theorem Inv.step {s t : State φ α} {a : Act φ α} (hi : Inv s) (h : step s a = some t) : Inv t := by
  -- a call of the program, with what it puts into the queue
  have huser {m : Msg φ α} : Inv (Sys.dispatch m s) :=
    hi.quiet [.dispatch m] rfl (by simp [Event.begins]) rfl rfl rfl rfl rfl
      fun _ => Iff.rfl
  cases a with
  | runqmsg =>
      simp only [Sys.step] at h
      split at h
      · rename_i hc
        cases h
        refine hi.quiet [] (List.append_nil _).symm (by simp) rfl rfl rfl
          (List.append_nil _).symm rfl fun c => ?_
        rw [hc]
        simp
      · cases h
  | round =>
      simp only [Sys.step] at h
      split at h
      · rename_i hc
        exact hi.round hc h
      · cases h
  | ret result =>
      simp only [Sys.step] at h
      split at h
      · rename_i c hc
        exact hi.ret hc h
      · cases h
  | dispatch msg =>
      obtain ⟨-, ⟨⟩⟩ := Option.ite_none_right_eq_some.mp h
      exact huser
  | regapp app =>
      obtain ⟨-, ⟨⟩⟩ := Option.ite_none_right_eq_some.mp h
      exact huser
  | deregapp id =>
      obtain ⟨-, ⟨⟩⟩ := Option.ite_none_right_eq_some.mp h
      exact huser
  | refresh =>
      obtain ⟨-, ⟨⟩⟩ := Option.ite_none_right_eq_some.mp h
      exact hi.quiet [] (List.append_nil _).symm (by simp) rfl rfl rfl
        (List.append_nil _).symm rfl fun _ => Iff.rfl

/-- The loops of `callapp` never leave the table of apps. -/
theorem Inv.possible {s : State φ α} (hi : Inv s) :
    (s.control = .loop → ∃ t, Sys.step s .round = some t) ∧
      ∀ c result, s.control = .handler c → ∃ t, Sys.step s (.ret result) = some t := by
  constructor
  · intro hc
    simp only [Sys.step, hc, Sys.round]
    cases hq : s.qmsg with
    | nil =>
        obtain ⟨n, hn, -⟩ := apploop_calls (refreshmsg : Args (Value α))
          (Nat.le_refl s.apps.length)
        cases hf : s.refreshflag with
        | true => exact ⟨_, by simp [callapp, record, hn]; rfl⟩
        | false => exact ⟨_, rfl⟩
    | cons m qmsg =>
        cases m with
        | SYS_ADD_APP app => exact ⟨_, rfl⟩
        | SYS_REMOVE_APP id => exact ⟨_, rfl⟩
        | other msg =>
            obtain ⟨n, hn, -⟩ := apploop_calls msg (Nat.le_refl s.apps.length)
            exact ⟨_, by simp [callapp, record, hn]; rfl⟩
  · intro c result hc
    simp only [Sys.step, hc]
    cases result with
    | false => exact ⟨_, rfl⟩
    | true =>
        obtain ⟨n, hn, -⟩ := resume_calls (hi.cursor c hc)
        exact ⟨_, by rw [hn]; rfl⟩

/-- `runqmsg` returns when nothing is left to do. -/
theorem round_out {s t : State φ α} (hc : s.control = .loop) (h : Sys.round s = some t)
    (ho : t.control = .out) : t.qmsg = [] ∧ t.refreshflag = false := by
  unfold Sys.round at h
  split at h
  · rename_i m qmsg hq
    cases m with
    | other msg =>
        obtain ⟨n, -, rfl⟩ := Option.map_eq_some_iff.mp h
        exact absurd ho (proceed_control n _)
    | _ =>
        cases h
        have hl : s.control = .out := ho
        rw [hc] at hl
        cases hl
  · rename_i hq
    split at h
    · obtain ⟨n, -, rfl⟩ := Option.map_eq_some_iff.mp h
      exact absurd ho (proceed_control n _)
    · rename_i hf
      cases h
      exact ⟨hq, by simpa using hf⟩

/-- Is a handler active? -/
def Control.busy : Control φ α → Bool
  | .handler _ => true
  | _ => false

/-- The calls for a message, of which `ts` are wanted: they are made in this order, each
after the one before has returned `true`; when no handler is active any more, all were made
or the last one did not return `true`. -/
structure Delivered (ts : List (φ × Args (Value α))) (post : List (Event φ α)) (busy : Bool) :
    Prop where
  order : calls post <+: ts
  returned : (calls post).length = (rets post).length + if busy then 1 else 0
  true : ∀ r ∈ if busy then rets post else (rets post).dropLast, r = Bool.true
  stop : busy = false → calls post = ts ∨ (rets post).getLast? = some false

/-- Delivery of internal messages: what was dispatched has been processed in that order or
waits in the queue; the table of apps is what the processed registrations have made of it;
`runqmsg` does not fail, and returns only when the queue is empty; and the calls since the
last message `v` began are those of its delivery, during which the table stays the same. -/
theorem delivery {acts : List (Act φ α)} {s : State φ α} (hr : run step boot acts = some s) :
    dispatched s.hist = processed s.hist ++ s.qmsg ∧
      s.apps = appsAfter s.hist ∧
      ((s.control = .loop → ∃ t, Sys.step s .round = some t) ∧
        ∀ c result, s.control = .handler c → ∃ t, Sys.step s (.ret result) = some t) ∧
      (∀ t, Sys.step s .round = some t → t.control = .out →
        t.qmsg = [] ∧ t.refreshflag = false) ∧
      ∀ pre v post ts, s.hist = pre ++ v :: post → (∀ w ∈ post, w.begins = false) →
        v.targets (appsAfter pre) = some ts →
        Delivered ts post s.control.busy ∧
          s.apps = v.processed.toList.foldl register (appsAfter pre) := by
  have hi : Inv s := invariant_run (fun _ _ _ hi ht => hi.step ht) Inv.boot hr
  refine ⟨hi.order, hi.apps, hi.possible, ?_, ?_⟩
  · intro t ht hout
    simp only [Sys.step] at ht
    split at ht
    · rename_i hc
      exact round_out hc ht hout
    · cases ht
  · intro pre v post ts heq hpost hts
    obtain ⟨hbusy, hfin⟩ := hi.delivery pre v post ts heq hts hpost
    constructor
    · cases hc : s.control with
      | handler c =>
          obtain ⟨h₁, h₂, h₃⟩ := hbusy c hc
          exact ⟨h₁ ▸ List.prefix_append _ _, h₂, h₃, fun h => by cases h⟩
      | out =>
          obtain ⟨h₁, h₂, h₃, h₄⟩ := hfin fun c h => by rw [hc] at h; cases h
          exact ⟨h₁, h₂, h₃, fun _ => h₄⟩
      | loop =>
          obtain ⟨h₁, h₂, h₃, h₄⟩ := hfin fun c h => by rw [hc] at h; cases h
          exact ⟨h₁, h₂, h₃, fun _ => h₄⟩
    · have hnone : processed post = [] := by
        refine List.filterMap_eq_nil_iff.mpr fun w hw => ?_
        have hb := hpost w hw
        cases w with
        | getmsg m => cases hb
        | _ => rfl
      rw [hi.apps, heq, appsAfter, appsAfter, processed_append, processed_cons, hnone,
        List.append_nil, List.foldl_append]

end

/-- An app in the function form is registered twice for a message that a newer app takes
first and deregisters itself for; the last handler stops the delivery. -/
def session : List (Act ℕ Unit) :=
  [.regapp ⟨0, some 1, [some (.str (lua "M")), some (.str (lua "M"))], fun _ => none⟩,
    .regapp ⟨1, none, [], fun v => if v = .str (lua "M") then some 2 else none⟩,
    .dispatch [some (.str (lua "M"))], .runqmsg, .round, .round, .round, .deregapp (.tbl 1),
    .ret true, .ret true, .ret false, .round, .round]

theorem delivery_session : ∃ s : State ℕ Unit, run step boot session = some s ∧
    calls s.hist = [(2, []), (1, [some (.str (lua "M"))]), (1, [some (.str (lua "M"))])] ∧
    s.apps.map App.ref = [0] ∧ (dispatched s.hist).length = 4 ∧
    dispatched s.hist = processed s.hist ++ s.qmsg := by
  have hcalls : (run step boot session).map (fun s => calls s.hist) =
      some [(2, []), (1, [some (.str (lua "M"))]), (1, [some (.str (lua "M"))])] := by
    decide +kernel
  have happs : (run step boot session).map
      (fun s => (s.apps.map App.ref, (dispatched s.hist).length)) = some ([0], 4) := by
    decide +kernel
  obtain ⟨s, hs, h₁⟩ := Option.map_eq_some_iff.mp hcalls
  rw [hs, Option.map_some, Option.some.injEq, Prod.mk.injEq] at happs
  exact ⟨s, hs, h₁, happs.1, happs.2, (delivery hs).1⟩

end LuatAir200.Sys
