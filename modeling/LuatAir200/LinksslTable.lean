import LuatAir200.LinksslModel
import LuatAir200.LinkTable

/-!
# The table of `linkssl.lua`

The calls and events that reach the table of `linkssl.lua` in a step, and that the table
follows them.
-/
namespace LuatAir200.Linkssl
open Lua Machine Tracing
open Links (LinkState Action Evt Notice Msg ids MAXLINKS)
open LinkTable (Input Table Entry Pause Dialect)

variable {ν : Type}

def entry (l : Link ν) : Entry ν := ⟨l.notify, l.state, l.pending.isSome⟩

def pause : Rest → Pause
  | .shut i is => .shut i is
  | _ => .event

def table (s : State ν) : Table ν where
  entries id := (s.linklist id).map entry
  pause := s.frame.map fun f => pause f.2
  log := s.log

def dialect : Dialect where
  sendfail := false
  failed r := if (smatch r (lua "ERROR")).isSome then some (.result (lua "ERROR")) else none
  settled r st h := by
    obtain ⟨-, he⟩ := Option.ite_none_right_eq_some.mp h
    cases he
    simp

/-- What the response to a command reports. -/
def rspInputs (cmd response : LuaString) : List (Input ν) :=
  let pfx := smatch1 cmd (lua "AT(%+%u+)")
  let id := (smatch1 cmd (lua "AT%+%u+=(%d)")).map tonumber
  if pfx = some (lua "+SSLCONNECT") then
    match id with
    | some id => if response = lua "ERROR" then [.status id (lua "ERROR")] else []
    | none => []
  else if pfx = some (lua "+SSLSEND") then
    match id, getresult response with
    | some id, some result => [.sent id result]
    | _, _ => []
  else if pfx = some (lua "+SSLDESTROY") then
    match id with
    | some id => [.closed id]
    | none => []
  else []

def linkInputs (s : State ν) : Links.Act ν → List (Input ν)
  | .respond _ response _ =>
      match s.link.ril.current with
      | some ⟨_, .other cmd⟩ => if regrsp cmd then rspInputs cmd response else []
      | _ => []
  | .urc data =>
      match smatch1 data (lua "(%+*[%u%d& ]+)") with
      | none => []
      | some pfx =>
          if !regurc s pfx ∨ pfx = lua "+SSL RECEIVE" then []
          else
            match smatch2 data (lua "(%d), *([%u :%d]+)") with
            | some (lid, lstate) => [.status (tonumber lid) lstate]
            | none => []
  | .msg =>
      match s.link.qmsg with
      | .ipStatusInd true :: _ => if s.ipstatus then [] else [.pend]
      | .ipShutingInd false :: _ => [.shut]
      | _ => []
  | _ => []

def inputs (s : State ν) : Act ν → List (Input ν)
  | .link a => linkInputs s a
  | .openid id n _ => [.openid id n]
  | .openlink n _ => [.openlink n]
  | .close id => [.close id]
  | .connect id _ _ _ _ => [.connect id (!s.ipstatus || s.shuting)]
  | .disconnect id => [.disconnect id]
  | .send _ _ => []
  | .inputcrt _ _ _ => []
  | .ret => [.ret]

/-! ## Functions that leave the table alone -/

theorem entries_none {s : State ν} {id : ℕ} (h : s.linklist id = none) :
    (table s).entries id = none := by simp [table, h]

theorem entries_some {s : State ν} {id : ℕ} {l : Link ν} (h : s.linklist id = some l) :
    (table s).entries id = some (entry l) := by simp [table, h]

theorem table_of_frame {s t : State ν} (h : t.linklist = s.linklist ∧ t.frame = s.frame ∧
    t.log = s.log) : table t = table s := by
  obtain ⟨h1, h2, h3⟩ := h
  simp only [table, h1, h2, h3]

theorem table_setLink (id : ℕ) (l : Option (Link ν)) (s : State ν) :
    table (setLink id l s) = (table s).set id (l.map entry) := by
  unfold table setLink Table.set
  congr 1
  funext k
  by_cases hk : k = id
  · subst hk
    simp
  · simp [hk]

theorem table_notify (l : Link ν) (id : ℕ) (evt : Evt) (val : LuaString) (r : Rest) (s : State ν) :
    table (notify l id evt val r s) =
      Table.notify (entry l) id evt val (pause r) (table s) := rfl

@[simp] theorem table_req (cmd : LuaString) (s : State ν) : table (req cmd s) = table s := rfl

@[simp] theorem table_setupIP (s : State ν) : table (setupIP s) = table s := rfl

@[simp] theorem table_reqs (cmds : List LuaString) (s : State ν) :
    table (reqs cmds s) = table s := table_of_frame (reqs_frame cmds s)

@[simp] theorem table_init (s : State ν) : table (init s) = table s := table_of_frame (init_frame s)

@[simp] theorem table_usersckntfy (l : Link ν) (s : State ν) :
    table (usersckntfy l s) = table s := table_of_frame (usersckntfy_frame l s)

/-! ## Functions that the table follows -/

theorem valid_table (s : State ν) (id : ℕ) (action : Action) :
    (table s).valid id action = validaction s id action := by
  cases hl : s.linklist id with
  | none => simp [Table.valid, validaction, table, hl]
  | some l => simp [Table.valid, validaction, table, hl, entry]

theorem table_openid (id : ℕ) (n : ν) (tag : Bool) (s : State ν) :
    table (openid id n tag s).1 = (table s).openid id n := by
  have hiff : (MAXLINKS < id ∨ (s.linklist id).isSome) ↔
      (MAXLINKS < id ∨ ((table s).entries id).isSome) := by simp [table]
  unfold openid Table.openid
  by_cases h : MAXLINKS < id ∨ (s.linklist id).isSome
  · rw [if_pos h, if_pos (hiff.mp h)]
  · have hs := table_setLink id (some ⟨n, tag, .initial, none⟩) s
    rw [if_neg h, if_neg fun h' => h (hiff.mpr h')]
    dsimp only
    split
    · exact hs
    · rw [table_setupIP]
      exact hs

theorem table_openlink (n : ν) (tag : Bool) (s : State ν) :
    table (openlink n tag s).1 = (table s).openlink n := by
  have hf : (ids.find? fun i => ((table s).entries i).isNone) = emptylink s := by
    simp [emptylink, table]
  unfold openlink Table.openlink
  rw [hf]
  cases emptylink s with
  | none => rfl
  | some id => exact table_openid id n tag s

theorem table_close (id : ℕ) (s : State ν) : table (close id s).1 = (table s).close id := by
  unfold close Table.close
  rw [valid_table]
  cases validaction s id .close with
  | false => rfl
  | true =>
      cases hl : s.linklist id with
      | none => simp only [entries_none hl]
      | some l =>
          simp only [entries_some hl, table_req, table_setLink]
          rfl

theorem table_connect (id : ℕ) (address port : LuaString) (chksvrcrt : Bool)
    (crtconfig : Option Crtconfig) (s : State ν) :
    table (connect id address port chksvrcrt crtconfig s).1 =
      (table s).connect id (!s.ipstatus || s.shuting) := by
  unfold connect Table.connect
  rw [valid_table]
  cases validaction s id .connect with
  | false => rfl
  | true =>
      cases hl : s.linklist id with
      | none => simp only [entries_none hl]
      | some l =>
          simp only [entries_some hl]
          by_cases hc : l.state = .connected
          · simp only [hc, entry, if_true]
          have hc' : ¬(entry l).state = .connected := hc
          rw [if_neg hc, if_neg hc']
          split
          · rename_i hw
            have hp : (!s.ipstatus || s.shuting) = true := by simpa [setLink] using hw
            rw [hp, Bool.or_true, table_setLink, table_setLink]
            simp only [Table.set, Function.update_idem]
            rfl
          · rename_i hw
            have hp : (!s.ipstatus || s.shuting) = false := by simpa [setLink] using hw
            rw [hp, Bool.or_false, table_reqs, table_init, table_setLink]
            rfl

theorem table_disconnect (id : ℕ) (s : State ν) :
    table (disconnect id s).1 = (table s).disconnect id := by
  unfold disconnect Table.disconnect
  rw [valid_table]
  cases validaction s id .disconnect with
  | false => rfl
  | true =>
      cases hl : s.linklist id with
      | none => simp only [entries_none hl]
      | some l =>
          simp only [entries_some hl]
          split
          · simp only [table_setLink]
            rfl
          · simp only [table_req, table_setLink]
            rfl

theorem table_send (id : ℕ) (data : LuaString) (s : State ν) :
    table (send id data s).1 = table s := by
  unfold send
  split
  · rfl
  · split <;> rfl

theorem table_sendcnf {id : ℕ} {r : LuaString} {s t : State ν} (h : sendcnf id r s = some t) :
    table t = (table s).sent dialect id r := by
  obtain ⟨l, hl, rfl⟩ := Option.map_eq_some_iff.mp h
  simp only [table_notify, table_setLink, Table.sent, entries_some hl, dialect]
  split <;> rfl

theorem table_closecnf (id : ℕ) (s : State ν) : table (closecnf id s) = (table s).closed id := by
  cases hl : s.linklist id with
  | none => simp only [closecnf, hl, Table.closed, entries_none hl]
  | some l =>
      simp only [closecnf, hl, Table.closed, entries_some hl]
      by_cases h1 : l.state = .disconnecting
      · have h1' : (entry l).state = .disconnecting := h1
        rw [if_pos h1, if_pos h1', table_notify, table_setLink]
        rfl
      have h1' : ¬(entry l).state = .disconnecting := h1
      rw [if_neg h1, if_neg h1']
      by_cases h2 : l.state = .closing
      · have h2' : (entry l).state = .closing := h2
        have hs := table_setLink id none (usersckntfy l s)
        rw [Option.map_none, table_usersckntfy] at hs
        rw [if_pos h2, if_pos h2', table_notify, ← hs]
        rfl
      · have h2' : ¬(entry l).state = .closing := h2
        rw [if_neg h2, if_neg h2']

theorem table_statusind (id : ℕ) (st : LuaString) (s : State ν) :
    table (statusind id st s) = (table s).status dialect id st := by
  cases hl : s.linklist id with
  | none => simp only [statusind, hl, Table.status, entries_none hl]
  | some l =>
      simp only [statusind, hl, Table.status, entries_some hl, dialect, Bool.false_eq_true,
        false_and, if_false]
      rw [table_notify, table_usersckntfy, table_setLink]
      rfl

theorem table_connpend (is : List ℕ) (s : State ν) :
    table (connpend is s) = (table s).release is := by
  induction is generalizing s with
  | nil => exact (Table.release_nil _).symm
  | cons i is ih =>
      cases hl : s.linklist i with
      | none =>
          simp only [connpend, hl]
          rw [ih, Table.release_skip (by simp [entries_none hl])]
      | some l =>
          cases hp : l.pending with
          | none =>
              simp only [connpend, hl, hp]
              rw [ih, Table.release_skip (by rw [entries_some hl]; rintro e ⟨⟩; simp [entry, hp])]
          | some p =>
              have ht : table (setLink i (some { l with pending := none })
                  (reqs (gmatch (lua "(.-)\r\n") p.length p) (init s))) =
                  (table s).set i (some { entry l with parked := false }) := by
                rw [table_setLink, table_reqs, table_init]
                rfl
              simp only [connpend, hl, hp]
              rw [ih, ht, Table.release_set (entries_some hl)]

theorem table_shutLoop (is : List ℕ) (s : State ν) :
    table (shutLoop is s) = (table s).shutLoop is := by
  induction is with
  | nil => rfl
  | cons i is ih =>
      cases hl : s.linklist i with
      | none =>
          simp only [shutLoop, hl, Table.shutLoop, entries_none hl]
          exact ih
      | some l =>
          simp only [shutLoop, hl, Table.shutLoop, entries_some hl]
          by_cases h : l.state = .connecting ∧ l.pending ≠ none ∨ l.state = .initial
          · have h' : (entry l).state = .connecting ∧ (entry l).parked = true ∨
                (entry l).state = .initial := by
              simpa [entry, Option.isSome_iff_ne_none] using h
            rw [if_pos h, if_pos h', ih]
          · have h' : ¬((entry l).state = .connecting ∧ (entry l).parked = true ∨
                (entry l).state = .initial) := by
              simpa [entry, Option.isSome_iff_ne_none] using h
            rw [if_neg h, if_neg h', table_notify, table_setLink]
            rfl

theorem table_resume (n : Notice ν) (r : Rest) (s : State ν) (hf : s.frame = some (n, r)) :
    table (resume r { s with frame := none }) = (table s).ret := by
  have hp : (table s).pause = some (pause r) := by simp [table, hf]
  cases r with
  | done => simp only [Table.ret, hp]; rfl
  | disconnected id =>
      simp only [Table.ret, hp, resume]
      split
      · rw [table_usersckntfy]
        rfl
      · rfl
  | shut i is =>
      simp only [Table.ret, hp, resume]
      cases hl : s.linklist i with
      | none =>
          simp only [pause, entries_none hl]
          rfl
      | some l =>
          simp only [pause, entries_some hl]
          rw [table_shutLoop, table_usersckntfy]
          rfl

/-! ## Steps -/

theorem table_rsp {cmd response : LuaString} {s t : State ν} (h : rsp cmd response s = some t) :
    table t = (rspInputs cmd response).foldl (Table.step dialect) (table s) := by
  unfold rsp at h
  unfold rspInputs
  dsimp only at h ⊢
  by_cases h1 : smatch1 cmd (lua "AT(%+%u+)") = some (lua "+SSLCONNECT")
  · rw [if_pos h1] at h ⊢
    cases hid : (smatch1 cmd (lua "AT%+%u+=(%d)")).map tonumber with
    | none =>
        rw [hid] at h
        cases h
        rfl
    | some id =>
        rw [hid] at h
        cases h
        by_cases hr : response = lua "ERROR"
        · simp only [hr, if_true]
          exact table_statusind id _ s
        · simp only [hr, if_false]
          rfl
  rw [if_neg h1] at h ⊢
  by_cases h2 : smatch1 cmd (lua "AT(%+%u+)") = some (lua "+SSLSEND")
  · rw [if_pos h2] at h ⊢
    cases hid : (smatch1 cmd (lua "AT%+%u+=(%d)")).map tonumber with
    | none =>
        rw [hid] at h
        cases h
    | some id =>
        rw [hid] at h
        cases hg : getresult response with
        | none =>
            rw [hg] at h
            cases h
        | some result =>
            rw [hg] at h
            exact table_sendcnf h
  rw [if_neg h2] at h ⊢
  by_cases h3 : smatch1 cmd (lua "AT(%+%u+)") = some (lua "+SSLDESTROY")
  · rw [if_pos h3] at h ⊢
    cases hid : (smatch1 cmd (lua "AT%+%u+=(%d)")).map tonumber with
    | none =>
        rw [hid] at h
        cases h
        rfl
    | some id =>
        rw [hid] at h
        cases h
        exact table_closecnf id s
  · rw [if_neg h3] at h ⊢
    cases h
    rfl

theorem table_procer (m : Msg) (s : State ν) :
    table (procer m s) = (match m with
      | .ipStatusInd true => if s.ipstatus then [] else [Input.pend]
      | .ipShutingInd false => [.shut]
      | _ => []).foldl (Table.step dialect) (table s) := by
  cases m with
  | ipStatusInd b =>
      unfold procer ipstatusind
      cases b with
      | false =>
          dsimp only
          split <;> rfl
      | true =>
          cases hi : s.ipstatus with
          | true => simp
          | false =>
              simp only [Bool.false_eq_true, if_false, if_true]
              exact table_connpend ids _
  | ipShutingInd b =>
      cases b with
      | true => rfl
      | false =>
          have hi : table (ipstatusind false { s with shuting := false }) = table s := by
            unfold ipstatusind
            split <;> rfl
          refine (table_shutLoop ids _).trans ?_
          rw [hi]
          rfl
  | netGprsReady b =>
      unfold procer gprsind
      dsimp only
      split <;> rfl
  | _ => rfl

theorem follows_table : Follows step inputs table (Table.step dialect : Table ν → Input ν → Table ν) := by
  intro s a t h
  cases a with
  | link a =>
      unfold step at h
      dsimp only at h
      split at h
      · cases h
      obtain ⟨l, hl, h⟩ := Option.bind_eq_some_iff.mp h
      have hs : table { s with link := l } = table s := rfl
      cases a with
      | respond success response intermediate =>
          unfold heard at h
          simp only [inputs, linkInputs]
          dsimp only at h
          cases hcur : s.link.ril.current with
          | none =>
              rw [hcur] at h
              cases h
              rfl
          | some c =>
              obtain ⟨no, cmd⟩ := c
              rw [hcur] at h
              cases cmd with
              | other cmd =>
                  dsimp only at h ⊢
                  by_cases hr : regrsp cmd = true
                  · rw [if_pos hr] at h ⊢
                    have ht := table_rsp h
                    exact ht
                  · rw [if_neg hr] at h ⊢
                    cases h
                    rfl
              | _ =>
                  cases h
                  rfl
      | urc data =>
          cases h
          simp only [inputs, linkInputs]
          cases smatch1 data (lua "(%+*[%u%d& ]+)") with
          | none => rfl
          | some pfx =>
              dsimp only
              by_cases hr : regurc s pfx = true
              · have hr' : regurc { s with link := l } pfx = true := hr
                rw [if_pos hr']
                unfold urc
                by_cases hp : pfx = lua "+SSL RECEIVE"
                · rw [if_pos hp, if_pos (.inr hp)]
                  rfl
                · rw [if_neg hp, if_neg (by simp [hr, hp])]
                  cases smatch2 data (lua "(%d), *([%u :%d]+)") with
                  | none => rfl
                  | some r => exact table_statusind _ _ _
              · have hr' : ¬regurc { s with link := l } pfx = true := hr
                rw [if_neg hr', if_pos (.inl (by simpa using hr))]
                rfl
      | msg =>
          cases h
          simp only [inputs, linkInputs]
          cases s.link.qmsg with
          | nil => rfl
          | cons m ms =>
              refine (table_procer m _).trans ?_
              cases m with
              | ipStatusInd b => cases b <;> rfl
              | ipShutingInd b => cases b <;> rfl
              | _ => rfl
      | _ => cases h; rfl
  | openid id n tag => cases h; exact table_openid id n tag s
  | openlink n tag => cases h; exact table_openlink n tag s
  | close id => cases h; exact table_close id s
  | connect id address port chksvrcrt crtconfig =>
      cases h
      exact table_connect id address port chksvrcrt crtconfig s
  | disconnect id => cases h; exact table_disconnect id s
  | send id data => cases h; exact table_send id data s
  | inputcrt u f d => cases h; rfl
  | ret =>
      obtain ⟨⟨n, r⟩, hf, rfl⟩ := Option.map_eq_some_iff.mp h
      exact table_resume n r s hf

end LuatAir200.Linkssl
