import LuatAir200.LinkModel
import LuatAir200.Tracing

/-!
# What a link table does

`link.lua` and `linkssl.lua` keep the same kind of table. Here it is on its own: the calls
and events that reach it come as inputs, and a notice is given to the notify function of
the link. Where the two modules differ is written down in a `Dialect`.
-/
namespace LuatAir200.LinkTable
open Lua
open Links (LinkState Action Evt Notice ids MAXLINKS)

variable {ν : Type}

structure Entry (ν : Type) where
  notify : ν
  state : LinkState
  /-- Its connection request waits for the IP context. -/
  parked : Bool

/-- What a callback interrupts. -/
inductive Pause
  | event
  | shut (id : ℕ) (ids : List ℕ)
  deriving DecidableEq, Repr

structure Table (ν : Type) where
  entries : ℕ → Option (Entry ν)
  pause : Option Pause
  log : List (Notice ν)

def empty : Table ν := ⟨fun _ => none, none, []⟩

inductive Input (ν : Type)
  | openid (id : ℕ) (n : ν)
  | openlink (n : ν)
  | close (id : ℕ)
  /-- A call of `connect`, and whether the IP context makes it wait. -/
  | connect (id : ℕ) (parked : Bool)
  | disconnect (id : ℕ)
  /-- A status report, the confirmation of a close command, and the result of a send. -/
  | status (id : ℕ) (st : LuaString)
  | closed (id : ℕ)
  | sent (id : ℕ) (result : LuaString)
  /-- The IP context is there for the requests that wait. -/
  | pend
  /-- The IP context has been shut. -/
  | shut
  | ret
  deriving DecidableEq

/-- How the modules differ: whether `SEND FAIL` is told as the result of a send, and which
state a link gets by such a result. -/
structure Dialect where
  sendfail : Bool
  failed : LuaString → Option LinkState
  settled : ∀ r st, failed r = some st → st ≠ .disconnecting ∧ st ≠ .closing

namespace Table

def set (id : ℕ) (e : Option (Entry ν)) (t : Table ν) : Table ν :=
  { t with entries := Function.update t.entries id e }

def notify (e : Entry ν) (id : ℕ) (evt : Evt) (val : LuaString) (p : Pause) (t : Table ν) :
    Table ν :=
  { t with pause := some p, log := t.log ++ [⟨e.notify, id, evt, val⟩] }

def valid (t : Table ν) (id : ℕ) (action : Action) : Bool :=
  match t.entries id with
  | none => false
  | some e =>
      if action.text ++ lua "ING" = e.state.text then false
      else if lua "ING" <:+ e.state.text ∧ action = .connect then false
      else true

def openid (id : ℕ) (n : ν) (t : Table ν) : Table ν :=
  if MAXLINKS < id ∨ (t.entries id).isSome then t else t.set id (some ⟨n, .initial, false⟩)

def openlink (n : ν) (t : Table ν) : Table ν :=
  match ids.find? fun i => (t.entries i).isNone with
  | none => t
  | some id => t.openid id n

def close (id : ℕ) (t : Table ν) : Table ν :=
  match t.valid id .close, t.entries id with
  | true, some e => t.set id (some { e with state := .closing })
  | _, _ => t

def connect (id : ℕ) (parked : Bool) (t : Table ν) : Table ν :=
  match t.valid id .connect, t.entries id with
  | true, some e =>
      if e.state = .connected then t
      else t.set id (some { e with state := .connecting, parked := e.parked || parked })
  | _, _ => t

def disconnect (id : ℕ) (t : Table ν) : Table ν :=
  match t.valid id .disconnect, t.entries id with
  | true, some e => t.set id (some { e with state := .disconnecting, parked := false })
  | _, _ => t

def status (d : Dialect) (id : ℕ) (st : LuaString) (t : Table ν) : Table ν :=
  match t.entries id with
  | none => t
  | some e =>
      if d.sendfail ∧ st = lua "SEND FAIL" then
        if e.state = .connected then notify e id .send st .event t else t
      else
        notify e id (if e.state = .connecting ∨ st = lua "CONNECT OK" then .connect else .state) st
          .event
          (t.set id (some { e with state := if st = lua "CONNECT OK" then .connected else .closed }))

def closed (id : ℕ) (t : Table ν) : Table ν :=
  match t.entries id with
  | none => t
  | some e =>
      if e.state = .disconnecting then
        notify e id .disconnect (lua "OK") .event (t.set id (some { e with state := .closed }))
      else if e.state = .closing then notify e id .close (lua "OK") .event (t.set id none)
      else t

def sent (d : Dialect) (id : ℕ) (result : LuaString) (t : Table ν) : Table ν :=
  match t.entries id with
  | none => t
  | some e =>
      notify e id .send result .event
        (t.set id (some { e with state := (d.failed result).getD e.state }))

/-- The requests of some links are sent. -/
def release (is : List ℕ) (t : Table ν) : Table ν where
  entries id :=
    if id ∈ is then (t.entries id).map fun e => { e with parked := false } else t.entries id
  pause := t.pause
  log := t.log

def shutLoop : List ℕ → Table ν → Table ν
  | [], t => t
  | i :: is, t =>
      match t.entries i with
      | none => shutLoop is t
      | some e =>
          if e.state = .connecting ∧ e.parked ∨ e.state = .initial then shutLoop is t
          else
            notify e i .state (lua "SHUTED") (.shut i is) (t.set i (some { e with state := .closed }))

def ret (t : Table ν) : Table ν :=
  match t.pause with
  | some (.shut i is) =>
      if (t.entries i).isSome then shutLoop is { t with pause := none } else { t with pause := none }
  | _ => { t with pause := none }

def step (d : Dialect) (t : Table ν) : Input ν → Table ν
  | .openid id n => t.openid id n
  | .openlink n => t.openlink n
  | .close id => t.close id
  | .connect id parked => t.connect id parked
  | .disconnect id => t.disconnect id
  | .status id st => t.status d id st
  | .closed id => t.closed id
  | .sent id result => t.sent d id result
  | .pend => t.release ids
  | .shut => t.shutLoop ids
  | .ret => t.ret

end Table

theorem Table.release_nil (t : Table ν) : t.release [] = t := by simp [Table.release]

/-- A link without a request is passed over. -/
theorem Table.release_skip {i : ℕ} {t : Table ν} (h : ∀ e, t.entries i = some e → e.parked = false)
    (is : List ℕ) : t.release (i :: is) = t.release is := by
  unfold Table.release
  congr 1
  funext id
  by_cases hid : id = i
  · subst hid
    cases he : t.entries id with
    | none => simp
    | some e =>
        have hp : { e with parked := false } = e := by rw [← h e he]
        simp [hp]
  · simp [hid]

theorem Table.release_set {i : ℕ} {t : Table ν} {e : Entry ν} (h : t.entries i = some e)
    (is : List ℕ) : (t.set i (some { e with parked := false })).release is = t.release (i :: is) := by
  unfold Table.release Table.set
  congr 1
  funext id
  by_cases hid : id = i
  · subst hid
    simp [h]
  · simp [hid]

/-! ## Links that are on their way out -/

/-- Link `id` is `DISCONNECTING` or `CLOSING`. -/
def Leaving (t : Table ν) (id : ℕ) : Prop :=
  ∃ e, t.entries id = some e ∧ (e.state = .disconnecting ∨ e.state = .closing)

theorem leaving_notify {e : Entry ν} {k id : ℕ} {evt : Evt} {val : LuaString} {p : Pause}
    {t : Table ν} : Leaving (Table.notify e k evt val p t) id ↔ Leaving t id := Iff.rfl

theorem leaving_set {k id : ℕ} {e : Option (Entry ν)} {t : Table ν}
    (he : ∀ f, e = some f → ¬(f.state = .disconnecting ∨ f.state = .closing)) :
    Leaving (t.set k e) id ↔ Leaving t id ∧ id ≠ k := by
  by_cases hi : id = k
  · subst hi
    constructor
    · rintro ⟨f, hf, hs⟩
      simp only [Table.set, Function.update_self] at hf
      exact absurd hs (he f hf)
    · rintro ⟨-, hn⟩
      exact absurd rfl hn
  · simp [Leaving, Table.set, hi]

theorem leaving_shutLoop {is : List ℕ} {t : Table ν} {id : ℕ}
    (h : Leaving (Table.shutLoop is t) id) : Leaving t id := by
  induction is with
  | nil => exact h
  | cons i is ih =>
      unfold Table.shutLoop at h
      split at h
      · exact ih h
      · split at h
        · exact ih h
        · rw [leaving_notify, leaving_set (by rintro f ⟨⟩; simp)] at h
          exact h.1

/-- Only `close` and `disconnect` put a link on its way out, and the confirmation of a
close command ends it. -/
theorem leaving_step {d : Dialect} {t : Table ν} {i : Input ν} {id : ℕ}
    (h : Leaving (t.step d i) id) :
    (Leaving t id ∧ i ≠ .closed id) ∨ i = .close id ∨ i = .disconnect id := by
  have settled {k : ℕ} {e : Option (Entry ν)}
      (he : ∀ f, e = some f → ¬(f.state = .disconnecting ∨ f.state = .closing))
      (h : Leaving (t.set k e) id) : Leaving t id := ((leaving_set he).mp h).1
  cases i with
  | openid k n =>
      refine .inl ⟨?_, nofun⟩
      simp only [Table.step, Table.openid] at h
      split at h
      · exact h
      · exact settled (by rintro f ⟨⟩; simp) h
  | openlink n =>
      refine .inl ⟨?_, nofun⟩
      simp only [Table.step, Table.openlink] at h
      split at h
      · exact h
      · simp only [Table.openid] at h
        split at h
        · exact h
        · exact settled (by rintro f ⟨⟩; simp) h
  | close k =>
      by_cases hk : id = k
      · exact .inr (.inl (by rw [hk]))
      · refine .inl ⟨?_, nofun⟩
        simp only [Table.step, Table.close] at h
        split at h
        · simpa [Leaving, Table.set, hk] using h
        · exact h
  | connect k parked =>
      refine .inl ⟨?_, nofun⟩
      simp only [Table.step, Table.connect] at h
      split at h
      · split at h
        · exact h
        · exact settled (by rintro f ⟨⟩; simp) h
      · exact h
  | disconnect k =>
      by_cases hk : id = k
      · exact .inr (.inr (by rw [hk]))
      · refine .inl ⟨?_, nofun⟩
        simp only [Table.step, Table.disconnect] at h
        split at h
        · simpa [Leaving, Table.set, hk] using h
        · exact h
  | status k st =>
      refine .inl ⟨?_, nofun⟩
      simp only [Table.step, Table.status] at h
      split at h
      · exact h
      split at h
      · split at h
        · exact h
        · exact h
      · refine settled ?_ (leaving_notify.mp h)
        rintro f ⟨⟩
        dsimp only
        split <;> simp
  | closed k =>
      refine .inl ?_
      simp only [Table.step, Table.closed] at h
      split at h
      · rename_i hk
        refine ⟨h, ?_⟩
        rintro ⟨⟩
        obtain ⟨e, he, -⟩ := h
        rw [hk] at he
        cases he
      rename_i e hk
      split at h
      · have hl := (leaving_set (by rintro f ⟨⟩; simp)).mp (leaving_notify.mp h)
        exact ⟨hl.1, by rintro ⟨⟩; exact hl.2 rfl⟩
      split at h
      · have hl := (leaving_set (by simp)).mp (leaving_notify.mp h)
        exact ⟨hl.1, by rintro ⟨⟩; exact hl.2 rfl⟩
      · rename_i h1 h2
        refine ⟨h, ?_⟩
        rintro ⟨⟩
        obtain ⟨f, hf, hs⟩ := h
        rw [hk] at hf
        cases hf
        exact hs.elim h1 h2
  | sent k result =>
      refine .inl ⟨?_, nofun⟩
      simp only [Table.step, Table.sent] at h
      split at h
      · exact h
      · rename_i e he
        rw [leaving_notify] at h
        cases hd : d.failed result with
        | none =>
            obtain ⟨f, hf, hs⟩ := h
            by_cases hk : id = k
            · subst hk
              simp only [Table.set, Function.update_self, hd, Option.some.injEq] at hf
              subst hf
              exact ⟨e, he, hs⟩
            · simp only [Table.set, Function.update_of_ne hk] at hf
              exact ⟨f, hf, hs⟩
        | some st =>
            refine settled ?_ h
            rintro f ⟨⟩
            have := d.settled result st hd
            simpa [hd] using this
  | pend =>
      refine .inl ⟨?_, nofun⟩
      obtain ⟨f, hf, hs⟩ := h
      simp only [Table.step, Table.release] at hf
      split at hf
      · obtain ⟨e, he, rfl⟩ := Option.map_eq_some_iff.mp hf
        exact ⟨e, he, hs⟩
      · exact ⟨f, hf, hs⟩
  | shut => exact .inl ⟨leaving_shutLoop h, nofun⟩
  | ret =>
      refine .inl ⟨?_, nofun⟩
      simp only [Table.step, Table.ret] at h
      split at h
      · split at h
        · have hl := leaving_shutLoop h
          exact hl
        · exact h
      · exact h

theorem leaving_foldl {d : Dialect} {is : List (Input ν)} {t : Table ν} {id : ℕ}
    (h : Leaving (is.foldl (Table.step d) t) id) :
    (Leaving t id ∧ .closed id ∉ is) ∨ .close id ∈ is ∨ .disconnect id ∈ is := by
  induction is generalizing t with
  | nil => exact .inl ⟨h, by simp⟩
  | cons i is ih =>
      obtain ⟨hl, hc⟩ | hm | hm := ih h
      · obtain ⟨hl, hi⟩ | rfl | rfl := leaving_step hl
        · refine .inl ⟨hl, ?_⟩
          rw [List.mem_cons, not_or]
          exact ⟨fun he => hi he.symm, hc⟩
        · exact .inr (.inl List.mem_cons_self)
        · exact .inr (.inr List.mem_cons_self)
      · exact .inr (.inl (List.mem_cons_of_mem i hm))
      · exact .inr (.inr (List.mem_cons_of_mem i hm))

/-- The confirmation of a close command is told to the owner of a link on its way out. -/
theorem closed_told {d : Dialect} {t : Table ν} {id : ℕ} (h : Leaving t id) :
    ∃ e evt, t.entries id = some e ∧ (evt = .disconnect ∨ evt = .close) ∧
      (t.step d (.closed id)).log = t.log ++ [⟨e.notify, id, evt, lua "OK"⟩] := by
  obtain ⟨e, he, hs⟩ := h
  by_cases hd : e.state = .disconnecting
  · exact ⟨e, .disconnect, he, .inl rfl, by simp [Table.step, Table.closed, he, hd, Table.notify,
      Table.set]⟩
  · have hc := hs.resolve_left hd
    exact ⟨e, .close, he, .inr rfl, by simp [Table.step, Table.closed, he, hc, Table.notify,
      Table.set]⟩

/-! ## What all dialects have in common -/

/-- An input that both modules take in the same way: no `SEND FAIL`, and no result of a send
that either of them takes for a failure. -/
def Input.Common (d d' : Dialect) : Input ν → Prop
  | .status _ st => st ≠ lua "SEND FAIL"
  | .sent _ result => d.failed result = none ∧ d'.failed result = none
  | _ => True

instance (d d' : Dialect) (i : Input ν) : Decidable (i.Common d d') := by
  unfold Input.Common
  split <;> infer_instance

theorem step_common {d d' : Dialect} {i : Input ν} (hi : i.Common d d') (t : Table ν) :
    t.step d i = t.step d' i := by
  cases i with
  | status id st =>
      have hs : st ≠ lua "SEND FAIL" := hi
      simp only [Table.step, Table.status, hs, and_false]
  | sent id result => simp only [Table.step, Table.sent, hi.1, hi.2]
  | _ => rfl

end LuatAir200.LinkTable
