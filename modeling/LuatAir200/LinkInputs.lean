import LuatAir200.LinkLife
import LuatAir200.LinkTable

/-!
# The table of `link.lua`

The calls and events that reach the table of `link.lua` in a step, and that the table
follows them.
-/
namespace LuatAir200.Links
open Lua Machine Tracing
open LinkTable (Input Table Entry Pause Dialect)

variable {ν : Type}

def entry (l : Link ν) : Entry ν := ⟨l.notify, l.state, l.pending.isSome⟩

def pause : Rest → Pause
  | .shut i is => .shut i is
  | _ => .event

def table (s : State ν) : Table ν where
  entries id := (s.linklist id).map entry
  pause := s.frame.map fun f => pause f.2
  log := s.log

def dialect : Dialect := ⟨true, fun _ => none, nofun⟩

/-- What the response to `AT+CIPSEND` says about the data. -/
def sendresult (response : LuaString) : Option LuaString :=
  let response := if response = lua "+PDP: DEACT" then lua "ERROR" else response
  if (smatch response (lua "DATA ACCEPT")).isSome then some (lua "SEND OK") else getresult response

def inputs (s : State ν) : Act ν → List (Input ν)
  | .openid id n _ => [.openid id n]
  | .openlink n _ => [.openlink n]
  | .close id => [.close id]
  | .connect id _ _ _ => [.connect id (!s.callexist && (!ipready s || s.shuting))]
  | .disconnect id => [.disconnect id]
  | .respond _ response _ =>
      match s.ril.current with
      | some ⟨_, .cipstart c⟩ => if response = lua "ERROR" then [.status c.id (lua "ERROR")] else []
      | some ⟨_, .cipsend id _⟩ => ((sendresult response).map (.sent id)).toList
      | some ⟨_, .cipclose id⟩ => [.closed id]
      | some ⟨_, .cipshut⟩ => if response = lua "SHUT OK" ∨ !s.simready then [.shut] else []
      | _ => []
  | .urc data =>
      match smatch1 data (lua "(%+*[%u%d& ]+)") with
      | none => []
      | some pfx =>
          if !registered s pfx ∨ pfx = lua "C" ∨ pfx = lua "+PDP" ∨ pfx = lua "+RECEIVE" then []
          else if pfx = lua "STATE" then
            if data.drop 7 = lua "IP STATUS" ∧ s.ipstatus ≠ lua "IP STATUS" then [.pend] else []
          else
            match smatch2 data (lua "(%d), *([%u :%d]+)") with
            | some (lid, lstate) => [.status (tonumber lid) lstate]
            | none => []
  | .msg =>
      match s.qmsg with
      | .statusind id state :: _ => [.status id state]
      | .closecnf id :: _ => [.closed id]
      | _ => []
  | .ret => [.ret]
  | _ => []

/-! ## Functions that leave the table alone -/

theorem entries_none {s : State ν} {id : ℕ} (h : s.linklist id = none) :
    (table s).entries id = none := by simp [table, h]

theorem entries_some {s : State ν} {id : ℕ} {l : Link ν} (h : s.linklist id = some l) :
    (table s).entries id = some (entry l) := by simp [table, h]

theorem table_setLink (id : ℕ) (l : Option (Link ν)) (s : State ν) :
    table (setLink id l s) = (table s).set id (l.map entry) := by
  unfold table setLink Table.set
  congr 1
  funext k
  by_cases hk : k = id
  · subst hk
    simp
  · simp [hk]

theorem table_notify (l : Link ν) (id : ℕ) (evt : Evt) (val : LuaString) (r : Rest) (s : State ν) :
    table (notify l id evt val r s) =
      Table.notify (entry l) id evt val (pause r) (table s) := rfl

@[simp] theorem table_req (c : AtCmd) (s : State ν) : table (req c s) = table s := rfl

@[simp] theorem table_dispatch (m : Msg) (s : State ν) : table (dispatch m s) = table s := rfl

@[simp] theorem table_timer_start (k : Timer) (ms : ℕ) (s : State ν) :
    table (timer_start k ms s) = table s := rfl

@[simp] theorem table_timer_stop (k : Timer) (s : State ν) : table (timer_stop k s) = table s := rfl

@[simp] theorem table_stopconnectingtimer (id : ℕ) (s : State ν) :
    table (stopconnectingtimer id s) = table s := rfl

@[simp] theorem table_startconnectingtimer (id : ℕ) (s : State ν) :
    table (startconnectingtimer id s) = table s := by
  unfold startconnectingtimer
  split <;> rfl

@[simp] theorem table_stopcheckciicr (s : State ν) : table (stopcheckciicr s) = table s := by
  unfold stopcheckciicr
  split <;> rfl

@[simp] theorem table_setupIP (s : State ν) : table (setupIP s) = table s := by
  unfold setupIP
  split
  · rfl
  split <;> rfl

@[simp] theorem table_usersckntfy (l : Link ν) (s : State ν) :
    table (usersckntfy l s) = table s := by
  unfold usersckntfy
  split <;> rfl

@[simp] theorem table_shut (s : State ν) : table (shut s) = table s := by
  unfold shut
  split
  · rfl
  · dsimp only
    split <;> rfl

@[simp] theorem table_querycgatt (s : State ν) : table (querycgatt s) = table s := by
  unfold querycgatt
  split <;> rfl

@[simp] theorem table_endOf (s : State ν) : table (endOf s) = table s := by
  unfold endOf
  split
  · exact table_shut s
  · rfl

@[simp] theorem table_send (id : ℕ) (data : LuaString) (s : State ν) :
    table (send id data s).1 = table s := by
  obtain he | ⟨l, -, -, -, he⟩ := send_cases id data s <;> rw [he]
  rfl

theorem table_proc (p : Proc) (s : State ν) : table (proc p s) = table s := by
  cases p with
  | imsiReady code =>
      simp only [proc]
      split <;> rfl
  | flymode on =>
      simp only [proc]
      split <;> rfl
  | update on => cases on with
    | true => rfl
    | false => exact table_endOf _
  | dbg on => cases on with
    | true => rfl
    | false => exact table_endOf _
  | ntp on => cases on with
    | true => rfl
    | false => exact table_endOf _
  | registered =>
      unfold proc initial
      dsimp only
      split
      · rfl
      · simp only [table_timer_start, table_req]
        rfl

theorem table_cgattrsp (i : Option LuaString) (s : State ν) : table (cgattrsp i s) = table s := by
  unfold cgattrsp
  split
  · dsimp only
    split
    · split
      · exact table_setupIP _
      · rfl
    · rfl
  split
  · dsimp only
    split <;> rfl
  · rfl

/-! ## Functions that the table follows -/

theorem valid_table (s : State ν) (id : ℕ) (action : Action) :
    (table s).valid id action = validaction s id action := by
  cases hl : s.linklist id with
  | none => simp [Table.valid, validaction, table, hl]
  | some l => simp [Table.valid, validaction, table, hl, entry]

theorem table_openid (id : ℕ) (n : ν) (tag : Bool) (s : State ν) :
    table (openid id n tag s).1 = (table s).openid id n := by
  have hiff : (MAXLINKS < id ∨ s.linklist id ≠ none) ↔
      (MAXLINKS < id ∨ ((table s).entries id).isSome) := by
    simp [table, Option.isSome_iff_ne_none]
  unfold openid Table.openid
  by_cases h : MAXLINKS < id ∨ s.linklist id ≠ none
  · rw [if_pos h, if_pos (hiff.mp h)]
  · have hs := table_setLink id (some ⟨n, tag, .initial, none⟩) s
    rw [if_neg h, if_neg fun h' => h (hiff.mpr h')]
    dsimp only
    split
    · exact hs
    · rw [table_setupIP]
      exact hs

theorem table_openlink (n : ν) (tag : Bool) (s : State ν) :
    table (openlink n tag s).1 = (table s).openlink n := by
  have hf : (ids.find? fun i => ((table s).entries i).isNone) = emptylink s := by
    simp [emptylink, table]
  unfold openlink Table.openlink
  rw [hf]
  cases emptylink s with
  | none => rfl
  | some id => exact table_openid id n tag s

theorem table_close (id : ℕ) (s : State ν) : table (close id s).1 = (table s).close id := by
  unfold close Table.close
  rw [valid_table]
  cases validaction s id .close with
  | false => rfl
  | true =>
      cases hl : s.linklist id with
      | none => simp only [entries_none hl]
      | some l =>
          simp only [entries_some hl, table_req, table_setLink]
          rfl

theorem table_connect (id : ℕ) (prot addr port : LuaString) (s : State ν) :
    table (connect id prot addr port s).1 =
      (table s).connect id (!s.callexist && (!ipready s || s.shuting)) := by
  unfold connect Table.connect
  rw [valid_table]
  cases validaction s id .connect with
  | false => rfl
  | true =>
      cases hl : s.linklist id with
      | none => simp only [entries_none hl]
      | some l =>
          simp only [entries_some hl]
          by_cases hc : l.state = .connected
          · simp only [hc, entry, if_true]
          have hc' : ¬(entry l).state = .connected := hc
          rw [if_neg hc, if_neg hc']
          split
          · rename_i hcall
            have hcall : s.callexist = true := hcall
            rw [table_dispatch, table_setLink]
            simp [hcall, entry]
          rename_i hcall
          have hcall : s.callexist = false := Bool.eq_false_iff.mpr hcall
          split
          · rename_i hw
            have hw : (!ipready s) = true ∨ s.shuting = true := hw
            have hp : (!s.callexist && (!ipready s || s.shuting)) = true := by
              simpa [hcall] using hw
            rw [setLink_setLink, table_setLink, hp, Bool.or_true]
            rfl
          · rename_i hw
            have hw : ¬((!ipready s) = true ∨ s.shuting = true) := hw
            have hp : (!s.callexist && (!ipready s || s.shuting)) = false := by
              simpa [hcall] using hw
            rw [table_startconnectingtimer, table_req, table_setLink, hp, Bool.or_false]
            rfl

theorem table_disconnect (id : ℕ) (s : State ν) :
    table (disconnect id s).1 = (table s).disconnect id := by
  unfold disconnect Table.disconnect
  rw [valid_table]
  cases validaction s id .disconnect with
  | false => rfl
  | true =>
      cases hl : s.linklist id with
      | none => simp only [entries_none hl]
      | some l =>
          simp only [entries_some hl]
          split
          · simp only [table_dispatch, table_setLink]
            rfl
          · simp only [table_req, table_setLink]
            rfl

theorem table_sendcnf {id : ℕ} {r : LuaString} {s t : State ν} (h : sendcnf id r s = some t) :
    table t = (table s).sent dialect id r := by
  rw [sendcnf_eq] at h
  obtain ⟨l, hl, rfl⟩ := Option.map_eq_some_iff.mp h
  simp only [table_notify, table_setLink, Table.sent, entries_some hl]
  rfl

theorem table_freed (id : ℕ) (l : Link ν) (s : State ν) :
    table (freed l id s) =
      Table.notify (entry l) id .close (lua "OK") .event ((table s).set id none) := by
  have hs := table_setLink id none s
  rw [Option.map_none] at hs
  rw [← hs]
  rfl

theorem table_closecnf (id : ℕ) (s : State ν) : table (closecnf id s) = (table s).closed id := by
  cases hl : s.linklist id with
  | none => simp only [closecnf, hl, Table.closed, entries_none hl]
  | some l =>
      simp only [closecnf_eq hl, Table.closed, entries_some hl]
      by_cases h1 : l.state = .disconnecting
      · have h1' : (entry l).state = .disconnecting := h1
        rw [if_pos h1, if_pos h1', table_notify, table_setLink]
        rfl
      have h1' : ¬(entry l).state = .disconnecting := h1
      rw [if_neg h1, if_neg h1']
      by_cases h2 : l.state = .closing
      · have h2' : (entry l).state = .closing := h2
        rw [if_pos h2, if_pos h2', table_freed, table_usersckntfy]
      · have h2' : ¬(entry l).state = .closing := h2
        rw [if_neg h2, if_neg h2']

theorem table_statusind (id : ℕ) (st : LuaString) (s : State ν) :
    table (statusind id st s) = (table s).status dialect id st := by
  cases hl : s.linklist id with
  | none => simp only [statusind, hl, Table.status, entries_none hl]
  | some l =>
      simp only [statusind, hl, Table.status, entries_some hl, dialect, true_and]
      by_cases hf : st = lua "SEND FAIL"
      · rw [if_pos hf, if_pos hf]
        by_cases hc : l.state = .connected
        · have hc' : (entry l).state = .connected := hc
          rw [if_pos hc, if_pos hc', table_notify]
          rfl
        · have hc' : ¬(entry l).state = .connected := hc
          rw [if_neg hc, if_neg hc']
      · rw [if_neg hf, if_neg hf, table_notify, table_usersckntfy, table_setLink]
        rfl

theorem table_shutLoop (is : List ℕ) (s : State ν) :
    table (shutLoop is s) = (table s).shutLoop is := by
  induction is generalizing s with
  | nil => exact table_stopcheckciicr s
  | cons i is ih =>
      cases hl : s.linklist i with
      | none =>
          simp only [shutLoop, hl, Table.shutLoop, entries_none hl]
          exact ih s
      | some l =>
          simp only [shutLoop, hl, Table.shutLoop, entries_some hl]
          by_cases h : l.state = .connecting ∧ l.pending ≠ none ∨ l.state = .initial
          · have h' : (entry l).state = .connecting ∧ (entry l).parked = true ∨
                (entry l).state = .initial := by
              simpa [entry, Option.isSome_iff_ne_none] using h
            rw [if_pos h, if_pos h', ih, table_stopconnectingtimer]
          · have h' : ¬((entry l).state = .connecting ∧ (entry l).parked = true ∨
                (entry l).state = .initial) := by
              simpa [entry, Option.isSome_iff_ne_none] using h
            rw [if_neg h, if_neg h', table_notify, table_setLink]
            rfl

/-- The loop of `connpend` releases the links that it visits. -/
theorem table_connpend (is : List ℕ) (s : State ν) :
    table (connpend is s) = (table s).release is := by
  induction is generalizing s with
  | nil => exact (Table.release_nil _).symm
  | cons i is ih =>
      cases hl : s.linklist i with
      | none =>
          simp only [connpend, hl]
          rw [ih, Table.release_skip (by simp [entries_none hl])]
      | some l =>
          cases hp : l.pending with
          | none =>
              simp only [connpend, hl, hp]
              rw [ih, Table.release_skip (by rw [entries_some hl]; rintro e ⟨⟩; simp [entry, hp])]
          | some c =>
              have ht : table (setLink i (some { l with pending := none })
                  (startconnectingtimer c.id (req (.cipstart c) s))) =
                  (table s).set i (some { entry l with parked := false }) := by
                rw [table_setLink, table_startconnectingtimer, table_req]
                rfl
              simp only [connpend, hl, hp]
              rw [ih, ht, Table.release_set (entries_some hl)]

theorem table_ipstatusChanged {s : State ν} (h : s.ipstatus ≠ lua "IP STATUS") :
    table (ipstatusChanged s) = table s := by
  unfold ipstatusChanged
  rw [if_neg h]
  split
  · rfl
  split
  · rfl
  split
  · rfl
  split
  · rfl
  · exact table_shut s

theorem table_setIPStatus (status : LuaString) (s : State ν) :
    table (setIPStatus status s) =
      if status = lua "IP STATUS" ∧ s.ipstatus ≠ lua "IP STATUS" then (table s).release ids
      else table s := by
  have hr : ∀ u, table { reported u s with ipstatus := u } = table s := by
    intro u
    unfold reported
    dsimp only
    split <;> split <;> rfl
  rw [setIPStatus_eq]
  by_cases hst : status = lua "IP STATUS"
  · subst hst
    by_cases hi : s.ipstatus = lua "IP STATUS"
    · rw [if_neg (by simp [hi, show repeated (lua "IP STATUS") = false by decide]),
        if_neg (by simp [hi])]
    · rw [if_pos (.inl hi), if_pos ⟨rfl, hi⟩]
      have hc : ipstatusChanged { reported (lua "IP STATUS") s with ipstatus := lua "IP STATUS" } =
          connpend ids { reported (lua "IP STATUS") s with ipstatus := lua "IP STATUS" } := by
        simp only [ipstatusChanged, if_true, show lua "IP STATUS" ≠ lua "IP PROCESSING" by decide,
          if_false]
      rw [hc, table_connpend, hr]
  · have hn : (if status = lua "IP STATUS" ∧ s.ipstatus ≠ lua "IP STATUS" then
        (table s).release ids else table s) = table s := if_neg fun h => hst h.1
    rw [hn]
    split
    · rw [table_ipstatusChanged hst]
      exact hr status
    · rfl

theorem table_shutcnf (response : LuaString) (s : State ν) :
    table (shutcnf response s) =
      if response = lua "SHUT OK" ∨ !s.simready then (table s).shutLoop ids else table s := by
  have he : table (shutEnded s) = table s := by
    unfold shutEnded
    split <;> rfl
  rw [shutcnf_eq]
  split
  · rw [table_shutLoop, table_setIPStatus, if_neg (fun h => absurd h.1 (by decide)), he]
  · rw [table_stopcheckciicr, table_timer_start, he]

theorem table_resume (n : Notice ν) (r : Rest) (s : State ν) (hf : s.frame = some (n, r)) :
    table (resume r { s with frame := none }) = (table s).ret := by
  have hp : (table s).pause = some (pause r) := by simp [table, hf]
  cases r with
  | done => simp only [Table.ret, hp]; rfl
  | stopconnectingtimer id => simp only [Table.ret, hp]; rfl
  | disconnected id =>
      simp only [Table.ret, hp, resume]
      split
      · rw [table_stopconnectingtimer, table_usersckntfy]
        rfl
      · rfl
  | shut i is =>
      simp only [Table.ret, hp, resume]
      cases hl : s.linklist i with
      | none =>
          simp only [pause, entries_none hl]
          rfl
      | some l =>
          simp only [pause, entries_some hl]
          rw [table_shutLoop, table_stopconnectingtimer, table_usersckntfy]
          rfl

/-! ## Steps -/

theorem table_respond {no : ℕ} {cmd : AtCmd} {success : Bool} {response : LuaString}
    {intermediate : Option LuaString} {s t : State ν} (hcur : s.ril.current = some ⟨no, cmd⟩)
    (h : rsp cmd success response intermediate { s with ril := s.ril.finish } = some t) :
    table t = (inputs s (.respond success response intermediate)).foldl (Table.step dialect)
      (table s) := by
  cases cmd with
  | cipstart c =>
      cases h
      simp only [inputs, hcur]
      by_cases hr : response = lua "ERROR"
      · rw [if_pos hr, if_pos hr, table_statusind]
        rfl
      · rw [if_neg hr, if_neg hr]
        rfl
  | cipsend id data =>
      have hsent {r : LuaString} {u : State ν} (h : sendcnf id r u = some t)
          (hu : table u = table s) : table t = (table s).sent dialect id r := by
        rw [table_sendcnf h, hu]
      have hall {x : Option LuaString} {u : State ν}
          (h : (x.bind fun r => sendcnf id r u) = some t) (hu : table u = table s) :
          table t = (x.map fun r => (.sent id r : Input ν)).toList.foldl (Table.step dialect) (table s) := by
        obtain ⟨r, rfl, h⟩ := Option.bind_eq_some_iff.mp h
        exact hsent h hu
      simp only [rsp] at h
      simp only [inputs, hcur, sendresult]
      by_cases hd : response = lua "+PDP: DEACT"
      · simp only [hd, if_true] at h ⊢
        split at h
        · rename_i hm
          rw [if_pos hm]
          exact hsent h rfl
        · rename_i hm
          rw [if_neg hm]
          exact hall h rfl
      · simp only [hd, if_false] at h ⊢
        split at h
        · rename_i hm
          rw [if_pos hm]
          exact hsent h rfl
        · rename_i hm
          rw [if_neg hm]
          exact hall h rfl
  | cipclose id =>
      cases h
      simp only [inputs, hcur]
      exact table_closecnf id _
  | cipshut =>
      cases h
      simp only [inputs, hcur]
      rw [table_shutcnf]
      split <;> rfl
  | ciicr =>
      cases h
      simp only [inputs, hcur]
      split
      · split
        · split <;> rfl
        · rfl
      · exact table_shut _
  | cgatt =>
      cases h
      simp only [inputs, hcur]
      exact table_cgattrsp intermediate _
  | _ =>
      cases h
      simp only [inputs, hcur]
      rfl

theorem table_urc (data : LuaString) (s : State ν) :
    table (match smatch1 data (lua "(%+*[%u%d& ]+)") with
      | some pfx => if registered s pfx then urc data pfx s else s
      | none => s) = (inputs s (.urc data)).foldl (Table.step dialect) (table s) := by
  cases hp : smatch1 data (lua "(%+*[%u%d& ]+)") with
  | none => simp [inputs, hp]
  | some pfx =>
      simp only [inputs, hp]
      by_cases hr : registered s pfx = true
      · rw [if_pos hr]
        unfold urc
        by_cases h1 : pfx = lua "STATE"
        · subst h1
          have hn : ¬((!registered s (lua "STATE")) = true ∨ lua "STATE" = lua "C" ∨
              lua "STATE" = lua "+PDP" ∨ lua "STATE" = lua "+RECEIVE") := by
            simp [hr, show lua "STATE" ≠ lua "C" by decide, show lua "STATE" ≠ lua "+PDP" by decide,
              show lua "STATE" ≠ lua "+RECEIVE" by decide]
          rw [if_pos rfl, if_neg hn, if_pos rfl, table_setIPStatus]
          split <;> rfl
        rw [if_neg h1]
        by_cases h2 : pfx = lua "C"
        · rw [if_pos h2, if_pos (.inr (.inl h2))]
          rfl
        rw [if_neg h2]
        by_cases h3 : pfx = lua "+PDP"
        · rw [if_pos h3, if_pos (.inr (.inr (.inl h3))), table_timer_stop, table_shut]
          rfl
        rw [if_neg h3]
        by_cases h4 : pfx = lua "+RECEIVE"
        · rw [if_pos h4, if_pos (.inr (.inr (.inr h4)))]
          rfl
        have hn : ¬((!registered s pfx) = true ∨ pfx = lua "C" ∨ pfx = lua "+PDP" ∨
            pfx = lua "+RECEIVE") := by simp [hr, h2, h3, h4]
        rw [if_neg h4, if_neg hn, if_neg h1]
        cases smatch2 data (lua "(%d), *([%u :%d]+)") with
        | none => rfl
        | some r => exact table_statusind _ _ s
      · rw [if_neg hr, if_pos (.inl (by simpa using hr))]
        rfl

theorem follows_table : Follows step inputs table (Table.step dialect : Table ν → Input ν → Table ν) := by
  intro s a t h
  cases a with
  | openid id n tag => cases h; exact table_openid id n tag s
  | openlink n tag => cases h; exact table_openlink n tag s
  | close id => cases h; exact table_close id s
  | connect id prot addr port => cases h; exact table_connect id prot addr port s
  | disconnect id => cases h; exact table_disconnect id s
  | send id data => cases h; exact table_send id data s
  | shut => cases h; exact table_shut s
  | querycgatt => cases h; exact table_querycgatt s
  | sendat =>
      obtain ⟨q, -, rfl⟩ := Option.map_eq_some_iff.mp h
      rfl
  | respond success response intermediate =>
      simp only [step] at h
      split at h
      · rename_i c hf hcur
        exact table_respond hcur h
      · cases h
  | urc data =>
      obtain ⟨-, ⟨⟩⟩ := Option.ite_none_right_eq_some.mp h
      exact table_urc data s
  | msg =>
      simp only [step] at h
      split at h
      · rename_i m ms hf hm
        cases h
        simp only [inputs, hm]
        cases m with
        | statusind id st => exact table_statusind id st _
        | closecnf id => exact table_closecnf id _
        | _ => rfl
      · cases h
  | proc p =>
      obtain ⟨-, ⟨⟩⟩ := Option.ite_none_right_eq_some.mp h
      exact table_proc p s
  | expire k =>
      obtain ⟨-, he⟩ := Option.ite_none_right_eq_some.mp h
      cases k with
      | setupIP => cases he; exact table_setupIP _
      | cipstatus => cases he; rfl
      | querycgatt => cases he; exact table_querycgatt _
      | checkciicr => cases he
      | connecting id =>
          simp only [expire] at he
          split at he
          · cases he
          · cases he
            rfl
  | ret =>
      obtain ⟨⟨n, r⟩, hf, rfl⟩ := Option.map_eq_some_iff.mp h
      exact table_resume n r s hf
  | _ => cases h; rfl

end LuatAir200.Links
