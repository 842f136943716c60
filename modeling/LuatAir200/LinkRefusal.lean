import LuatAir200.LinkInputs
import LuatAir200.LinkNotice

/-!
# Failed sends

`sendcnf` looks for the results of a failed send with a pattern that finds a single byte, so that the
state of the link stays what it was. A link that is not connected refuses to send until a
connection is reported.
-/
namespace LuatAir200.Links
open Lua Machine

variable {ν : Type}

/-! ## Responses -/

/-- The responses to `AT+CIPSEND` that say that the data were not sent. -/
inductive Fails : LuaString → Prop
  | error : Fails (lua "ERROR")
  | deact : Fails (lua "+PDP: DEACT")
  | tcp {d : UInt8} (h : isDigit d) (rest : LuaString) : Fails (d :: (lua ", TCP ERROR" ++ rest))
  | udp {d : UInt8} (h : isDigit d) (rest : LuaString) : Fails (d :: (lua ", UDP ERROR" ++ rest))

/-- The ones that say that they were. -/
inductive Accepted : LuaString → Prop
  | sent {d : UInt8} (h : isDigit d) (rest : LuaString) : Accepted (d :: (lua ", SEND OK" ++ rest))
  | accept {response : LuaString} (h : (smatch response (lua "DATA ACCEPT")).isSome) : Accepted response

/-- The bytes of a result. -/
def resultClass : Lua.Class := .set false [.inr 117, .inl (32, 32), .inl (58, 58), .inr 100]

theorem parse_result : parse (lua "%d, *([%u :%d]+)") = some ⟨false, [.cls (.named 100) .one,
    .cls (.char 44) .one, .cls (.char 32) .star, .openCap, .cls resultClass .plus, .closeCap]⟩ := by
  decide

/-- `getresult` finds what begins with a capital letter. -/
theorem getresult_isSome {d x : UInt8} (hd : isDigit d) (hx : isUpper x) (rest : LuaString) :
    (getresult (d :: 44 :: 32 :: x :: rest)).isSome := by
  have hset : resultClass.accepts x = true := by
    have hu : classOf 117 x = isUpper x := rfl
    simp [resultClass, Lua.Class.accepts, hu, hx]
  have hspace : x ≠ 32 := by
    rintro rfl
    cases hx
  have hwhile : (32 :: x :: rest).takeWhile (Lua.Class.char 32).accepts = [32] := by
    simp [Lua.Class.accepts, hspace]
  have hcap : (x :: rest).takeWhile resultClass.accepts ≠ [] := by
    rw [List.takeWhile_cons_of_pos hset]
    exact List.cons_ne_nil _ _
  have hfound := matchItems_capture hcap
  have hitems : matchItems [.cls (.named 100) .one, .cls (.char 44) .one, .cls (.char 32) .star,
      .openCap, .cls resultClass .plus, .closeCap] (d :: 44 :: 32 :: x :: rest)
        (d :: 44 :: 32 :: x :: rest) =
      some ((x :: rest).drop ((x :: rest).takeWhile resultClass.accepts).length,
        [(x :: rest).takeWhile resultClass.accepts]) := by
    have hdigit : (Lua.Class.named 100).accepts d = true := hd
    have hcomma : (Lua.Class.char 44).accepts 44 = true := rfl
    have hrange : (List.range ([(32 : UInt8)].length + 1)).reverse = [1, 0] := rfl
    have hopen : matchItems [.openCap, .cls resultClass .plus, .closeCap]
        ((32 :: x :: rest).drop 1) (d :: 44 :: 32 :: x :: rest) =
        matchItems [.openCap, .cls resultClass .plus, .closeCap] (x :: rest) (x :: rest) := rfl
    rw [matchItems, if_pos hdigit, matchItems, if_pos hcomma, matchItems, hwhile, hrange]
    rw [List.findSome?_cons, hopen, hfound]
  rw [getresult]
  split
  · rfl
  · rw [smatch1, smatch, parse_result, Option.bind_some, Pattern.exec]
    simp only [Bool.false_eq_true, if_false, List.tails_cons, List.findSome?_cons, hitems,
      Option.map_some, List.isEmpty_cons]
    rfl

theorem sendresult_isSome {response : LuaString} (h : response = lua "+PDP: DEACT" ∨
    (smatch response (lua "DATA ACCEPT")).isSome ∨ (getresult response).isSome) :
    (sendresult response).isSome := by
  rw [sendresult]
  split
  · decide
  · obtain h | h | h := h
    · contradiction
    · rw [if_pos h]
      rfl
    · split
      · rfl
      · exact h

theorem Fails.result {response : LuaString} (h : Fails response) : (sendresult response).isSome := by
  apply sendresult_isSome
  cases h with
  | error => exact .inr (.inr (by decide))
  | deact => exact .inl rfl
  | tcp hd rest => exact .inr (.inr (getresult_isSome hd (by decide) _))
  | udp hd rest => exact .inr (.inr (getresult_isSome hd (by decide) _))

theorem Accepted.result {response : LuaString} (h : Accepted response) :
    (sendresult response).isSome := by
  apply sendresult_isSome
  cases h with
  | sent hd rest => exact .inr (.inr (getresult_isSome hd (by decide) _))
  | accept hacc => exact .inr (.inl hacc)

/-- A response to `AT+CIPSEND` leaves the links as they are. -/
theorem respond_links {s : State ν} {no id : ℕ} {data : LuaString} {l : Link ν} (hf : s.frame = none)
    (hc : s.ril.current = some ⟨no, .cipsend id data⟩) (hl : s.linklist id = some l)
    (success : Bool) {response : LuaString} (hr : (sendresult response).isSome)
    (intermediate : Option LuaString) :
    ∃ t, step s (.respond success response intermediate) = some t ∧ t.linklist = s.linklist := by
  have told {u : State ν} (r : LuaString) (hu : u.linklist = s.linklist) :
      ∃ t, sendcnf id r u = some t ∧ t.linklist = s.linklist := by
    have hl' : u.linklist id = some l := hu ▸ hl
    refine ⟨notify l id .send r .done u, ?_, hu⟩
    rw [sendcnf_eq, hl', Option.map_some, setLink_self hl']
  simp only [step, hf, hc, rsp]
  rw [sendresult] at hr
  by_cases hdeact : response = lua "+PDP: DEACT"
  · subst hdeact
    exact told _ rfl
  · rw [if_neg hdeact] at hr
    simp only [hdeact, if_false]
    split
    · exact told _ rfl
    · rename_i hno
      rw [if_neg hno] at hr
      obtain ⟨r, hr⟩ := Option.isSome_iff_exists.mp hr
      rw [hr]
      exact told r rfl

/-! ## Links that refuse to send -/

def Refusing (id : ℕ) (s : State ν) : Prop := ∀ l, s.linklist id = some l → l.state ≠ .connected

theorem Refusing.send {id : ℕ} {s : State ν} (h : Refusing id s) (data : LuaString) :
    send id data s = (s, false) := by
  rw [Links.send]
  cases hl : s.linklist id with
  | none => rfl
  | some l =>
      dsimp only
      rw [if_pos (h l hl)]

/-- Only the report of a connection connects a link. -/
theorem step_refusing {s t : State ν} {a : Act ν} {id : ℕ} (hs : Shape s) (hr : Refusing id s)
    (hn : statusOf s a ≠ some (id, lua "CONNECT OK")) (h : step s a = some t) : Refusing id t := by
  intro k hk
  have he := step_effect hs h id
  have hv : (view id t).link = some k := hk
  generalize view id t = v at he hv
  cases he with
  | quiet =>
      apply hr k
      rw [← taken_linklist s a]
      exact hv
  | called l | parked l | started l | opened l | closing l | withdrawn l | disconnecting l
  | shuted l | disconnected l =>
      cases hv
      simp
  | sent l data ha hl => exact hr k hv
  | dropped => exact hr k hv
  | released l c n hi hp hl =>
      cases hv
      exact hr l hl
  | status l st hst hf hl =>
      cases hv
      have hne : st ≠ lua "CONNECT OK" := by
        rintro rfl
        exact hn hst
      simp [hne]
  | closed l => cases hv

theorem run_refusing {s t : State ν} {acts : List (Act ν)} {id : ℕ} (hs : Shape s)
    (hr : Refusing id s) (hm : Meets step (fun u a => statusOf u a ≠ some (id, lua "CONNECT OK")) s acts)
    (h : run step s acts = some t) : Refusing id t :=
  (guarded_run (P := fun u => Shape u ∧ Refusing id u)
    (fun u a v hu hg hv => ⟨step_shape u a v hu.1 hv, step_refusing hu.1 hu.2 hg hv⟩)
    ⟨hs, hr⟩ hm h).2

/-- A response that says that the data were not sent takes the link out of the connected state, so that
it refuses to send until a connection is reported, exactly if the link is not in that state
anyway. The other responses leave the link as it is. -/
theorem failed_send {s : State ν} {no id : ℕ} {data : LuaString} {l : Link ν}
    (hs : Reachable step boot s) (hf : s.frame = none)
    (hc : s.ril.current = some ⟨no, .cipsend id data⟩) (hl : s.linklist id = some l)
    (success : Bool) (intermediate : Option LuaString) :
    (∀ response, Fails response → ∃ t, step s (.respond success response intermediate) = some t ∧
      ((Refusing id t ∧ ∀ acts u, run step t acts = some u →
          Meets step (fun u a => statusOf u a ≠ some (id, lua "CONNECT OK")) t acts →
          ∀ data, send id data u = (u, false)) ↔
        l.state ≠ .connected)) ∧
    ∀ response, Accepted response → ∃ t, step s (.respond success response intermediate) = some t ∧
      t.linklist id = some l := by
  constructor
  · intro response hr
    obtain ⟨t, ht, hlinks⟩ := respond_links hf hc hl success hr.result intermediate
    have hshape : Shape t := (hs.tail ht).invariant step_shape boot_shape
    have hlt : t.linklist id = some l := hlinks ▸ hl
    refine ⟨t, ht, fun h => h.1 l hlt, fun hstate => ?_⟩
    have href : Refusing id t := by
      intro k hk
      rw [hlt] at hk
      cases hk
      exact hstate
    exact ⟨href, fun acts u hu hm data => (run_refusing hshape href hm hu).send data⟩
  · intro response hr
    obtain ⟨t, ht, hlinks⟩ := respond_links hf hc hl success hr.result intermediate
    exact ⟨t, ht, hlinks ▸ hl⟩

/-- A connected link with a send that has not been answered. -/
def sending : List (Act Unit) :=
  [.openlink () false, .urc (lua "STATE: IP STATUS"), .connect 0 (lua "TCP") (lua "a.b") (lua "80"),
    .sendat, .respond true (lua "OK") none, .urc (lua "0, CONNECT OK"), .ret, .send 0 (lua "x"), .sendat]

/-- The link has been told to disconnect before the response comes. -/
theorem failed_send_disconnecting : ∃ s t : State Unit,
    run step boot (sending ++ [.disconnect 0]) = some s ∧
    step s (.respond false (lua "0, TCP ERROR: 5") none) = some t ∧ send 0 (lua "y") t = (t, false) := by
  have hfail : Fails (lua "0, TCP ERROR: 5") := @Fails.tcp 48 (by decide) (lua ": 5")
  have h := @failed_send Unit _ _ 0 _ _ ⟨sending ++ [.disconnect 0], rfl⟩ rfl rfl rfl false none
  obtain ⟨t, ht, hiff⟩ := h.1 _ hfail
  exact ⟨_, t, rfl, ht, (hiff.mpr (by decide)).2 [] t rfl trivial _⟩

/-- The link stays connected after `ERROR`, and takes the next data. -/
theorem failed_send_connected : ∃ s t : State Unit, run step boot sending = some s ∧
    step s (.respond false (lua "ERROR") none) = some t ∧
    (t.linklist 0).map Link.state = some .connected ∧ (send 0 (lua "y") t).2 = true :=
  ⟨_, _, rfl, rfl, rfl, rfl⟩

end LuatAir200.Links
