import LuatAir200.CallbackSlots
import LuatAir200.LuaString
import LuatAir200.Machine

/-!
# `pb.lua`: the callbacks of the phone book

Each kind of callback has one slot, and any number of commands may be queued in `ril`. The
callbacks that are passed in are numbered, and every command remembers whose it is.
-/
namespace LuatAir200.Pb
open Lua Machine CallbackSlots

inductive Cmd
  | cpbs (str : LuaString)
  | cpbf (name : LuaString)
  | cpbr (index : LuaString)
  | cpbw (index num name : LuaString)
  /-- `AT+CPBW` with an index only deletes the record. -/
  | cpbwdel (i : LuaString)
  deriving DecidableEq

def Cmd.text : Cmd → LuaString
  | .cpbs str => lua "AT+CPBS=\"" ++ str ++ lua "\""
  | .cpbf name => lua "AT+CPBF=\"" ++ name ++ lua "\""
  | .cpbr index => lua "AT+CPBR=" ++ index
  | .cpbw index num name =>
      lua "AT+CPBW=" ++ index ++ lua ",\"" ++ num ++ lua "\",129,\"" ++ name ++ lua "\""
  | .cpbwdel i => lua "AT+CPBW=" ++ i

/-- What a callback is called with. -/
inductive Args
  | done (success : Bool)
  | read (success : Bool) (name num : LuaString)
  deriving DecidableEq

/-- The messages that are dispatched. -/
inductive Msg
  | findCnf (success : Bool) (index num name : LuaString)
  | readCnf (success : Bool) (index num name : LuaString)
  | writeCnf (success : Bool)
  deriving DecidableEq

/-- A queued command and the callback of the call that made it. -/
structure Req where
  cmd : Cmd
  own : Option ℕ
  deriving DecidableEq

structure State where
  storagecb : Option ℕ
  readcb : Option ℕ
  writecb : Option ℕ
  deletecb : Option ℕ
  /-- The commands that are outstanding, in their order. -/
  ril : List Req
  /-- The number of callbacks passed in so far. -/
  passed : ℕ
  msgs : List Msg
  /-- For each command answered the callback of its call and what its answer says. -/
  answered : List (Option ℕ × Args)
  called : List (ℕ × Args)
  deriving DecidableEq

def init : State := ⟨none, none, none, none, [], 0, [], [], []⟩

/-! ## The interface -/

def req (cmd : Cmd) (own : Option ℕ) (s : State) : State := { s with ril := s.ril ++ [⟨cmd, own⟩] }

/-- The callback of a call, when there is one. -/
def newcb (cb : Bool) (s : State) : Option ℕ := if cb then some s.passed else none

def pass (cb : Bool) (s : State) : State := if cb then { s with passed := s.passed + 1 } else s

def setstorage (str : LuaString) (cb : Bool) (s : State) : State :=
  if str = lua "SM" ∨ str = lua "ME" then
    pass cb (req (.cpbs str) (newcb cb s) { s with storagecb := newcb cb s })
  else s

def find (name : Option LuaString) (s : State) : State × Bool :=
  match name with
  | none => (s, false)
  | some name => if name = [] then (s, false) else (req (.cpbf name) none s, true)

def read (index : Option LuaString) (cb : Bool) (s : State) : State :=
  match index with
  | none => s
  | some index =>
      if index = [] then s
      else pass cb (req (.cpbr index) (newcb cb s) { s with readcb := newcb cb s })

def writeitem (index name num : Option LuaString) (cb : Bool) (s : State) : State × Bool :=
  match num, name, index with
  | some num, some name, some index =>
      (pass cb (req (.cpbw index num name) (newcb cb s) { s with writecb := newcb cb s }), true)
  | _, _, _ => (s, false)

def deleteitem (i : Option LuaString) (cb : Bool) (s : State) : State × Bool :=
  match i with
  | none => (s, false)
  | some i =>
      if i = [] then (s, false)
      else (pass cb (req (.cpbwdel i) (newcb cb s) { s with deletecb := newcb cb s }), true)

/-! ## The answers -/

/-- `string.gmatch(s,"(.-)\r\n")` -/
def lines : LuaString → LuaString → List LuaString
  | acc, 13 :: 10 :: t => acc.reverse :: lines [] t
  | acc, c :: t => lines (c :: acc) t
  | _, [] => []

/-- Number and name in the answer to `AT+CPBR`. -/
def entry (intermediate : LuaString) : LuaString × LuaString :=
  (smatch2 intermediate (lua "+CPBR:%s*%d+,\"([#%*%+%d]*)\",%d+,\"(%w*)\"")).getD ([], [])

/-- What the answer to a command says to the callback of its call. -/
def args (cmd : Cmd) (success : Bool) (intermediate : LuaString) : Args :=
  match cmd with
  | .cpbr _ => .read success (entry intermediate).2 (entry intermediate).1
  | _ => .done success

def call (cb : Option ℕ) (a : Args) (s : State) : State :=
  match cb with
  | some n => { s with called := s.called ++ [(n, a)] }
  | none => s

def dispatch (m : Msg) (s : State) : State := { s with msgs := s.msgs ++ [m] }

/-- A record in the answer to `AT+CPBF`. -/
def found (success : Bool) (name w : LuaString) : Msg :=
  let (index, n) := (smatch2 w (lua "+CPBF:%s*(%d+),\"([#%*%+%d]*)\",%d+,")).getD ([], [])
  .findCnf success index n name

def pbrsp (cmd : Cmd) (success : Bool) (intermediate : LuaString) (s : State) : State :=
  match cmd with
  | .cpbf _ =>
      let name := (smatch1 cmd.text (lua "AT%+CPBF%s*=%s*\"(%w*)\"")).getD []
      if intermediate = [] then dispatch (.findCnf success [] [] name) s
      else (lines [] intermediate).foldl (fun s w => dispatch (found success name w) s) s
  | .cpbr _ =>
      let index := (smatch1 cmd.text (lua "AT%+CPBR%s*=%s*(%d+)")).getD []
      let (num, name) := entry intermediate
      let s := dispatch (.readCnf success index num name) s
      let cb := s.readcb
      call cb (.read success name num) { s with readcb := none }
  | .cpbw _ _ _ | .cpbwdel _ =>
      let s := dispatch (.writeCnf success) s
      let cb := s.writecb
      if cb.isSome then call cb (.done success) { s with writecb := none }
      else call s.deletecb (.done success) { s with writecb := none, deletecb := none }
  | .cpbs _ =>
      let cb := s.storagecb
      call cb (.done success) { s with storagecb := none }

/-- The answer to the first outstanding command. -/
def answer (success : Bool) (intermediate : Option LuaString) (s : State) : State :=
  match s.ril with
  | [] => s
  | r :: ril =>
      let i := intermediate.getD []
      pbrsp r.cmd success i
        { s with ril := ril, answered := s.answered ++ [(r.own, args r.cmd success i)] }

/-! ## Runs -/

/-- Calls in a callback come after the answer that has called it. -/
inductive Act
  | setstorage (str : LuaString) (cb : Bool)
  | find (name : Option LuaString)
  | read (index : Option LuaString) (cb : Bool)
  | writeitem (index name num : Option LuaString) (cb : Bool)
  | deleteitem (i : Option LuaString) (cb : Bool)
  | answer (success : Bool) (intermediate : Option LuaString)
  deriving DecidableEq

def step (s : State) : Act → Option State
  | .setstorage str cb => some (setstorage str cb s)
  | .find name => some (find name s).1
  | .read index cb => some (read index cb s)
  | .writeitem index name num cb => some (writeitem index name num cb s).1
  | .deleteitem i cb => some (deleteitem i cb s).1
  | .answer success intermediate => if s.ril = [] then none else some (answer success intermediate s)

/-- The callbacks were called for the answers to their own commands, once for each, and with what
these say. -/
def Right (s : State) : Prop :=
  s.called = s.answered.filterMap fun p => p.1.map fun n => (n, p.2)

/-- And so it will be when the outstanding commands are answered. -/
def Good (s : State) : Prop :=
  ∀ as : List (Bool × Option LuaString), Right (as.foldl (fun s a => answer a.1 a.2 s) s)

/-- The commands that share an answer. -/
inductive Lane
  | storage
  | find
  | read
  | write
  deriving DecidableEq

def Cmd.lane : Cmd → Lane
  | .cpbs _ => .storage
  | .cpbf _ => .find
  | .cpbr _ => .read
  | .cpbw _ _ _ | .cpbwdel _ => .write

/-- The callbacks of the outstanding commands of a lane. -/
def owns (i : Lane) (s : State) : List (Option ℕ) := lane i (s.ril.map fun r => (r.cmd.lane, r.own))

/-- The condition on a call: one with a callback is made when no command of its kind is
outstanding, one without when none of its kind has a callback in the slot. A deletion with a
callback may come after a writing with one. -/
def careful (s : State) : Act → Bool
  | .setstorage str cb => ¬(str = lua "SM" ∨ str = lua "ME") ∨
      (if cb then owns .storage s = [] else s.storagecb = none)
  | .read index cb => index.getD [] = [] ∨ (if cb then owns .read s = [] else s.readcb = none)
  | .writeitem index name num cb => index = none ∨ name = none ∨ num = none ∨
      (if cb then owns .write s = [] else s.writecb = none)
  | .deleteitem i cb => i.getD [] = [] ∨
      (if cb then (owns .write s).length = s.writecb.toList.length else s.deletecb = none)
  | _ => true

/-! ## The slots and the outstanding commands -/

/-- The slots that the answers of a lane look into. -/
def slots (s : State) : Lane → Option ℕ × Option ℕ
  | .storage => (s.storagecb, none)
  | .find => (none, none)
  | .read => (s.readcb, none)
  | .write => (s.writecb, s.deletecb)

@[simp] theorem slots_dispatch (m : Msg) (s : State) : slots (dispatch m s) = slots s := rfl

@[simp] theorem slots_call (cb : Option ℕ) (a : Args) (s : State) : slots (call cb a s) = slots s := by
  cases cb <;> rfl

theorem called_call (cb : Option ℕ) (a : Args) (s : State) :
    (call cb a s).called = s.called ++ (cb.map fun n => (n, a)).toList := by
  cases cb with
  | none => simp [call]
  | some n => rfl

/-- What the answer to a command does: it takes a callback out of the slots of its lane and calls
it, and leaves the rest alone. -/
structure Answers (cmd : Cmd) (a : Args) (s t : State) : Prop where
  ril : t.ril = s.ril
  passed : t.passed = s.passed
  answered : t.answered = s.answered
  called : t.called = s.called ++ ((takeFirst (slots s cmd.lane)).1.map fun n => (n, a)).toList
  slots : slots t = Function.update (slots s) cmd.lane (takeFirst (slots s cmd.lane)).2

theorem Answers.dispatched {cmd : Cmd} {a : Args} {s t : State} (h : Answers cmd a s t) (m : Msg) :
    Answers cmd a s (dispatch m t) := ⟨h.ril, h.passed, h.answered, h.called, h.slots⟩

theorem Answers.found {name : LuaString} {a : Args} {s : State} (f : LuaString → Msg)
    (l : List LuaString) {t : State} (h : Answers (.cpbf name) a s t) :
    Answers (.cpbf name) a s (l.foldl (fun s w => dispatch (f w) s) t) := by
  induction l generalizing t with
  | nil => exact h
  | cons w l ih => exact ih (h.dispatched (f w))

/-- A command that no callback belongs to. -/
theorem answers_find (name : LuaString) (a : Args) (s : State) : Answers (.cpbf name) a s s where
  ril := rfl
  passed := rfl
  answered := rfl
  called := (List.append_nil s.called).symm
  slots := (Function.update_eq_self (f := Pb.slots s) Lane.find).symm

/-- A callback is taken out of its slot and called. -/
theorem Answers.of_call {cmd : Cmd} {a : Args} {s t : State} {cb : Option ℕ}
    (hril : t.ril = s.ril) (hp : t.passed = s.passed) (ha : t.answered = s.answered)
    (hc : t.called = s.called) (hcb : cb = (takeFirst (Pb.slots s cmd.lane)).1)
    (hs : Pb.slots t = Function.update (Pb.slots s) cmd.lane (takeFirst (Pb.slots s cmd.lane)).2) :
    Answers cmd a s (call cb a t) where
  ril := by cases cb <;> exact hril
  passed := by cases cb <;> exact hp
  answered := by cases cb <;> exact ha
  called := by rw [called_call, hc, hcb]
  slots := by rw [slots_call, hs]

theorem pbrsp_answers (cmd : Cmd) (success : Bool) (i : LuaString) (s : State) :
    Answers cmd (args cmd success i) s (pbrsp cmd success i s) := by
  have write (cmd : Cmd) (hl : cmd.lane = .write) : Answers cmd (.done success) s
      (if s.writecb.isSome then call s.writecb (.done success)
          { dispatch (.writeCnf success) s with writecb := none }
        else call s.deletecb (.done success)
          { dispatch (.writeCnf success) s with writecb := none, deletecb := none }) := by
    cases hw : s.writecb with
    | some n =>
        rw [Option.isSome_some, if_pos rfl]
        refine Answers.of_call rfl rfl rfl rfl ?_ ?_
        · rw [hl]
          simp [slots, hw, takeFirst]
        · rw [hl]
          funext j
          cases j <;> simp [slots, hw, takeFirst, Function.update, dispatch]
    | none =>
        rw [Option.isSome_none, if_neg (by simp)]
        refine Answers.of_call rfl rfl rfl rfl ?_ ?_
        · rw [hl]
          simp [slots, hw, takeFirst]
        · rw [hl]
          funext j
          cases j <;> simp [slots, hw, takeFirst, Function.update, dispatch]
  cases cmd with
  | cpbs str =>
      refine Answers.of_call rfl rfl rfl rfl ?_ ?_
      · cases hr : s.storagecb <;> simp [Cmd.lane, slots, hr, takeFirst]
      · funext j
        cases hr : s.storagecb <;> cases j <;>
          simp [Cmd.lane, slots, hr, takeFirst, Function.update]
  | cpbf name =>
      simp only [pbrsp]
      split
      · exact (answers_find name _ s).dispatched _
      · exact (answers_find name _ s).found _ _
  | cpbr index =>
      refine Answers.of_call rfl rfl rfl rfl ?_ ?_
      · cases hr : s.readcb <;> simp [Cmd.lane, slots, hr, takeFirst, dispatch]
      · funext j
        cases hr : s.readcb <;> cases j <;>
          simp [Cmd.lane, slots, hr, takeFirst, Function.update, dispatch]
  | cpbw index num name => exact write _ rfl
  | cpbwdel i => exact write _ rfl

/-! ## What the slots promise -/

/-- The outstanding commands will find their own callbacks. -/
def Promised (s : State) : Prop :=
  ServesAll takeFirst (slots s) (s.ril.map fun r => (r.cmd.lane, r.own))

theorem right_answer {r : Req} {ril : List Req} {s : State} (hr : s.ril = r :: ril) (success : Bool)
    (i : Option LuaString) (h : Right s) : Right (answer success i s) ↔
      (takeFirst (slots s r.cmd.lane)).1 = r.own := by
  have ha := pbrsp_answers r.cmd success (i.getD []) { s with
    ril := ril, answered := s.answered ++ [(r.own, args r.cmd success (i.getD []))] }
  have he : answer success i s = pbrsp r.cmd success (i.getD []) { s with
      ril := ril, answered := s.answered ++ [(r.own, args r.cmd success (i.getD []))] } := by
    simp only [answer, hr]
  rw [he, Right, ha.called, ha.answered]
  have hrs : s.called = s.answered.filterMap fun p => p.1.map fun n => (n, p.2) := h
  show s.called ++ ((takeFirst (slots s r.cmd.lane)).1.map _).toList = _ ↔ _
  rw [List.filterMap_append, ← hrs, List.append_cancel_left_eq]
  cases (takeFirst (slots s r.cmd.lane)).1 <;> cases r.own <;> simp

/-- What is outstanding after an answer, and what the slots hold then. -/
theorem answer_state {r : Req} {ril : List Req} {s : State} (hr : s.ril = r :: ril) (success : Bool)
    (i : Option LuaString) : (answer success i s).ril = ril ∧
      (answer success i s).passed = s.passed ∧
      slots (answer success i s) =
        Function.update (slots s) r.cmd.lane (takeFirst (slots s r.cmd.lane)).2 := by
  have ha := pbrsp_answers r.cmd success (i.getD []) { s with
    ril := ril, answered := s.answered ++ [(r.own, args r.cmd success (i.getD []))] }
  have he : answer success i s = pbrsp r.cmd success (i.getD []) { s with
      ril := ril, answered := s.answered ++ [(r.own, args r.cmd success (i.getD []))] } := by
    simp only [answer, hr]
  rw [he]
  exact ⟨ha.ril, ha.passed, ha.slots⟩

theorem promised_answer {r : Req} {ril : List Req} {s : State} (hr : s.ril = r :: ril)
    (success : Bool) (i : Option LuaString) : Promised s ↔
      (takeFirst (slots s r.cmd.lane)).1 = r.own ∧ Promised (answer success i s) := by
  obtain ⟨h1, -, h2⟩ := answer_state hr success i
  rw [Promised, hr, Promised, h1, h2]
  rfl

theorem good_iff {s : State} : Good s ↔ Right s ∧ Promised s := by
  constructor
  · intro h
    refine ⟨h [], ?_⟩
    generalize hn : s.ril.length = n
    induction n generalizing s with
    | zero =>
        rw [List.length_eq_zero_iff] at hn
        rw [Promised, hn]
        trivial
    | succ n ih =>
        obtain ⟨r, ril, hr⟩ := List.exists_cons_of_length_eq_add_one hn
        rw [promised_answer hr true none]
        refine ⟨(right_answer hr true none (h [])).mp (h [(true, none)]), ?_⟩
        apply ih
        · exact fun as => h ((true, none) :: as)
        · rw [(answer_state hr true none).1]
          rw [hr, List.length_cons] at hn
          omega
  · rintro ⟨hright, hprom⟩ as
    induction as generalizing s with
    | nil => exact hright
    | cons a as ih =>
        rw [List.foldl_cons]
        cases hr : s.ril with
        | nil =>
            have hs : answer a.1 a.2 s = s := by simp only [answer, hr]
            rw [hs]
            exact ih hright hprom
        | cons r ril =>
            obtain ⟨hown, hnext⟩ := (promised_answer hr a.1 a.2).mp hprom
            exact ih ((right_answer hr a.1 a.2 hright).mpr hown) hnext

/-! ## Calls -/

/-- Numbers of callbacks are not given twice, and no lane has more callbacks than commands. -/
structure Tidy (s : State) : Prop where
  count : ∀ i, (held (slots s i)).length ≤ (owns i s).length
  below : ∀ r ∈ s.ril, ∀ n, r.own = some n → n < s.passed
  held : ∀ i n, n ∈ held (slots s i) → n < s.passed
  apart : ∀ i n, (slots s i).1 = some n → (slots s i).2 ≠ some n

theorem init_tidy : Tidy init := by
  refine ⟨?_, ?_, ?_, ?_⟩
  · intro i
    cases i <;> exact Nat.zero_le _
  · intro r hr
    cases hr
  · intro i n hn
    cases i <;> cases hn
  · intro i n hn
    cases i <;> cases hn

/-- What a call that makes a command does: `p` is what it leaves in the slots of its lane. -/
structure Makes (cmd : Cmd) (cb : Bool) (p : Option ℕ × Option ℕ) (s t : State) : Prop where
  ril : t.ril = s.ril ++ [⟨cmd, newcb cb s⟩]
  passed : t.passed = s.passed + cb.toNat
  answered : t.answered = s.answered
  called : t.called = s.called
  slots : slots t = Function.update (slots s) cmd.lane p

theorem makes_pass {cmd : Cmd} {cb : Bool} {p : Option ℕ × Option ℕ} {s t : State}
    (hr : t.ril = s.ril) (hp : t.passed = s.passed) (ha : t.answered = s.answered)
    (hc : t.called = s.called) (hs : Pb.slots t = Function.update (Pb.slots s) cmd.lane p) :
    Makes cmd cb p s (pass cb (req cmd (newcb cb s) t)) := by
  cases cb with
  | true => exact ⟨by rw [← hr]; rfl, by rw [← hp]; rfl, ha, hc, hs⟩
  | false => exact ⟨by rw [← hr]; rfl, hp, ha, hc, hs⟩

section Calls

variable {cmd : Cmd} {cb : Bool} {p : Option ℕ × Option ℕ} {s t : State}

theorem Makes.owns (h : Makes cmd cb p s t) (i : Lane) :
    owns i t = if cmd.lane = i then owns i s ++ [newcb cb s] else owns i s := by
  rw [Pb.owns, h.ril, List.map_append, List.map_singleton, lane_concat]
  rfl

/-- After a call the promises are kept if those of its own lane are. -/
theorem Makes.good (h : Makes cmd cb p s t) (hg : Good s) :
    Good t ↔ Serves takeFirst p (Pb.owns cmd.lane s ++ [newcb cb s]) := by
  rw [good_iff] at hg ⊢
  have hright : Right t ↔ Right s := by rw [Right, Right, h.called, h.answered]
  have hprom := servesAll_iff.mp hg.2
  rw [hright, Promised, servesAll_iff]
  constructor
  · rintro ⟨-, hs⟩
    have hi := hs cmd.lane
    rw [h.slots, Function.update_self] at hi
    have ho := h.owns cmd.lane
    rw [if_pos rfl, Pb.owns] at ho
    rw [← ho]
    exact hi
  · intro hi
    refine ⟨hg.1, fun j => ?_⟩
    have ho := h.owns j
    rw [Pb.owns] at ho
    rw [ho, h.slots]
    by_cases hj : cmd.lane = j
    · subst hj
      rw [if_pos rfl, Function.update_self]
      exact hi
    · rw [if_neg hj, Function.update_of_ne (Ne.symm hj)]
      exact hprom j

theorem newcb_lt {n : ℕ} (h : newcb cb s = some n) : n < s.passed + cb.toNat := by
  cases cb with
  | true =>
      cases h
      exact Nat.lt_succ_self _
  | false => cases h

/-- The new callback is not one of those that are there. -/
theorem Tidy.new (h : Tidy s) (i : Lane) : some s.passed ∉ Pb.owns i s := by
  intro hm
  obtain ⟨c, hc, ho⟩ := List.mem_map.mp hm
  obtain ⟨r, hr, rfl⟩ := List.mem_map.mp (List.mem_filter.mp hc).1
  exact absurd (h.below r hr s.passed ho) (Nat.lt_irrefl _)

theorem Tidy.makes (h : Tidy s) (hm : Makes cmd cb p s t)
    (hp : CallbackSlots.held p ⊆ (newcb cb s).toList ++ CallbackSlots.held (Pb.slots s cmd.lane))
    (hc : (CallbackSlots.held p).length ≤ (CallbackSlots.held (Pb.slots s cmd.lane)).length + 1)
    (ha : ∀ n, p.1 = some n → p.2 ≠ some n) : Tidy t where
  count i := by
    rw [hm.owns, hm.slots]
    by_cases hi : cmd.lane = i
    · subst hi
      rw [if_pos rfl, Function.update_self, List.length_append, List.length_singleton]
      have := h.count cmd.lane
      omega
    · rw [if_neg hi, Function.update_of_ne (Ne.symm hi)]
      exact h.count i
  below r hr n hn := by
    rw [hm.ril] at hr
    rw [hm.passed]
    obtain hr | hr := List.mem_append.mp hr
    · exact Nat.lt_add_right _ (h.below r hr n hn)
    · obtain rfl := List.mem_singleton.mp hr
      exact newcb_lt hn
  held i n hn := by
    rw [hm.slots] at hn
    rw [hm.passed]
    by_cases hi : i = cmd.lane
    · subst hi
      rw [Function.update_self] at hn
      obtain hn | hn := List.mem_append.mp (hp hn)
      · exact newcb_lt (Option.mem_toList.mp hn)
      · exact Nat.lt_add_right _ (h.held _ n hn)
    · rw [Function.update_of_ne hi] at hn
      exact Nat.lt_add_right _ (h.held i n hn)
  apart i := by
    rw [hm.slots]
    by_cases hi : i = cmd.lane
    · subst hi
      rw [Function.update_self]
      exact ha
    · rw [Function.update_of_ne hi]
      exact h.apart i

theorem answer_tidy {r : Req} {ril : List Req} (hr : s.ril = r :: ril) (success : Bool)
    (i : Option LuaString) (h : Tidy s) : Tidy (answer success i s) := by
  obtain ⟨hril, hpassed, hslots⟩ := answer_state hr success i
  have howns : ∀ j, Pb.owns j s =
      if r.cmd.lane = j then r.own :: Pb.owns j (answer success i s)
      else Pb.owns j (answer success i s) := by
    intro j
    rw [Pb.owns, Pb.owns, hr, hril, List.map_cons, lane_cons]
  have htail : CallbackSlots.held (takeFirst (Pb.slots s r.cmd.lane)).2 =
      (CallbackSlots.held (Pb.slots s r.cmd.lane)).tail := held_takeFirst _
  constructor
  · intro j
    have hc := h.count j
    rw [howns] at hc
    rw [hslots]
    by_cases hj : r.cmd.lane = j
    · subst hj
      rw [if_pos rfl, List.length_cons] at hc
      rw [Function.update_self, htail, List.length_tail]
      omega
    · rw [if_neg hj] at hc
      rw [Function.update_of_ne (Ne.symm hj)]
      exact hc
  · intro q hq n hn
    rw [hril] at hq
    rw [hpassed]
    exact h.below q (hr ▸ List.mem_cons_of_mem r hq) n hn
  · intro j n hn
    rw [hpassed]
    rw [hslots] at hn
    by_cases hj : j = r.cmd.lane
    · subst hj
      rw [Function.update_self, htail] at hn
      exact h.held _ n (List.mem_of_mem_tail hn)
    · rw [Function.update_of_ne hj] at hn
      exact h.held j n hn
  · intro j n
    rw [hslots]
    by_cases hj : j = r.cmd.lane
    · subst hj
      rw [Function.update_self]
      have ha := h.apart r.cmd.lane n
      obtain ⟨w, d⟩ := Pb.slots s r.cmd.lane
      cases w <;> simp [takeFirst]
    · rw [Function.update_of_ne hj]
      exact h.apart j n

/-- A call that puts its callback into the first slot. -/
theorem makes_first (h : Tidy s) (hg : Good s)
    (hm : Makes cmd cb (newcb cb s, (Pb.slots s cmd.lane).2) s t) :
    Tidy t ∧ (Good t ↔ if cb then Pb.owns cmd.lane s = [] else (Pb.slots s cmd.lane).1 = none) := by
  obtain ⟨w, d, hp⟩ : ∃ w d, Pb.slots s cmd.lane = (w, d) := ⟨_, _, rfl⟩
  have hcount := h.count cmd.lane
  have hserves := servesAll_iff.mp (good_iff.mp hg).2 cmd.lane
  have hapart := h.apart cmd.lane
  have hheld := h.held cmd.lane
  rw [hp] at hm hcount hserves hapart hheld ⊢
  constructor
  · apply h.makes hm
    · rw [hp]
      intro n hn
      simp only [CallbackSlots.held, List.mem_append] at hn ⊢
      exact hn.imp_right .inr
    · rw [hp, length_held, length_held]
      cases cb <;> simp [newcb] <;> omega
    · intro n hn hd
      cases cb with
      | true =>
          cases hn
          have hlt := hheld s.passed (by
            simp only at hd
            simp [CallbackSlots.held, hd])
          exact absurd hlt (Nat.lt_irrefl _)
      | false => cases hn
  · rw [hm.good hg]
    cases cb with
    | true => exact serves_first_some hcount hserves (h.new cmd.lane)
    | false => exact serves_first_none hcount hserves hapart

/-- A call that puts its callback into the second slot. -/
theorem makes_second (h : Tidy s) (hg : Good s)
    (hm : Makes cmd cb ((Pb.slots s cmd.lane).1, newcb cb s) s t) :
    Tidy t ∧ (Good t ↔
      if cb then (Pb.owns cmd.lane s).length = (Pb.slots s cmd.lane).1.toList.length
      else (Pb.slots s cmd.lane).2 = none) := by
  obtain ⟨w, d, hp⟩ : ∃ w d, Pb.slots s cmd.lane = (w, d) := ⟨_, _, rfl⟩
  have hcount := h.count cmd.lane
  have hserves := servesAll_iff.mp (good_iff.mp hg).2 cmd.lane
  have hheld := h.held cmd.lane
  rw [hp] at hm hcount hserves hheld ⊢
  constructor
  · apply h.makes hm
    · rw [hp]
      intro n hn
      simp only [CallbackSlots.held, List.mem_append] at hn ⊢
      obtain hn | hn := hn
      · exact .inr (.inl hn)
      · exact .inl hn
    · rw [hp, length_held, length_held]
      cases cb <;> simp [newcb]
      omega
    · intro n hn hd
      cases cb with
      | true =>
          cases hd
          have hlt := hheld s.passed (by
            simp only at hn
            simp [CallbackSlots.held, hn])
          exact absurd hlt (Nat.lt_irrefl _)
      | false => cases hd
  · rw [hm.good hg]
    cases cb with
    | true => exact serves_second_some hcount hserves (h.new cmd.lane)
    | false => exact serves_second_none hcount hserves

end Calls

/-! ## Steps and runs -/

/-- A call that is not accepted, or makes a command that no callback belongs to. -/
theorem quiet_call {s : State} (ht : Tidy s) (hg : Good s) {b : Bool} (hb : b = true) :
    Tidy s ∧ (Good s ↔ b = true) := ⟨ht, iff_of_true hg hb⟩

theorem step_good {s t : State} {a : Act} (ht : Tidy s) (hg : Good s) (h : step s a = some t) :
    Tidy t ∧ (Good t ↔ careful s a = true) := by
  cases a with
  | setstorage str cb =>
      obtain rfl := Option.some.inj h
      unfold setstorage
      split
      · rename_i hstr
        have hm : Makes (.cpbs str) cb (newcb cb s, none) s
            (pass cb (req (.cpbs str) (newcb cb s) { s with storagecb := newcb cb s })) := by
          refine makes_pass rfl rfl rfl rfl ?_
          funext i
          cases i <;> rfl
        obtain ⟨htidy, hgood⟩ := makes_first ht hg hm
        refine ⟨htidy, hgood.trans ?_⟩
        cases cb <;> simp [careful, hstr, slots, Cmd.lane]
      · rename_i hstr
        exact quiet_call ht hg (by simp [careful, hstr])
  | find name =>
      obtain rfl := Option.some.inj h
      unfold find
      split
      · exact quiet_call ht hg rfl
      · rename_i name
        split
        · exact quiet_call ht hg rfl
        · have hm : Makes (.cpbf name) false (newcb false s, none) s (req (.cpbf name) none s) := by
            refine ⟨rfl, rfl, rfl, rfl, ?_⟩
            funext i
            cases i <;> rfl
          obtain ⟨htidy, hgood⟩ := makes_first ht hg hm
          exact ⟨htidy, hgood.trans (iff_of_true rfl rfl)⟩
  | read index cb =>
      obtain rfl := Option.some.inj h
      unfold read
      split
      · exact quiet_call ht hg rfl
      · rename_i index
        split
        · rename_i hi
          exact quiet_call ht hg (by simp [careful, hi])
        · rename_i hi
          have hm : Makes (.cpbr index) cb (newcb cb s, none) s
              (pass cb (req (.cpbr index) (newcb cb s) { s with readcb := newcb cb s })) := by
            refine makes_pass rfl rfl rfl rfl ?_
            funext i
            cases i <;> rfl
          obtain ⟨htidy, hgood⟩ := makes_first ht hg hm
          refine ⟨htidy, hgood.trans ?_⟩
          cases cb <;> simp [careful, hi, slots, Cmd.lane]
  | writeitem index name num cb =>
      obtain rfl := Option.some.inj h
      unfold writeitem
      split
      · rename_i num name index
        have hm : Makes (.cpbw index num name) cb (newcb cb s, s.deletecb) s
            (pass cb (req (.cpbw index num name) (newcb cb s) { s with writecb := newcb cb s })) := by
          refine makes_pass rfl rfl rfl rfl ?_
          funext i
          cases i <;> rfl
        obtain ⟨htidy, hgood⟩ := makes_first ht hg hm
        refine ⟨htidy, hgood.trans ?_⟩
        cases cb <;> simp [careful, slots, Cmd.lane]
      · rename_i hno
        refine quiet_call ht hg ?_
        cases num <;> cases name <;> cases index <;> simp_all [careful]
  | deleteitem i cb =>
      obtain rfl := Option.some.inj h
      unfold deleteitem
      split
      · exact quiet_call ht hg rfl
      · rename_i i
        split
        · rename_i hi
          exact quiet_call ht hg (by simp [careful, hi])
        · rename_i hi
          have hm : Makes (.cpbwdel i) cb (s.writecb, newcb cb s) s
              (pass cb (req (.cpbwdel i) (newcb cb s) { s with deletecb := newcb cb s })) := by
            refine makes_pass rfl rfl rfl rfl ?_
            funext i
            cases i <;> rfl
          obtain ⟨htidy, hgood⟩ := makes_second ht hg hm
          refine ⟨htidy, hgood.trans ?_⟩
          cases cb <;> simp [careful, hi, slots, Cmd.lane]
  | answer success i =>
      obtain ⟨hne, h⟩ := Option.ite_none_left_eq_some.mp h
      obtain rfl := Option.some.inj h
      obtain ⟨r, ril, hr⟩ := List.exists_cons_of_ne_nil hne
      refine ⟨answer_tidy hr success i ht, iff_of_true ?_ rfl⟩
      exact fun as => hg ((success, i) :: as)

/-- Every callback is called for the answer to its own command, once and with what it says, also
by the answers that are still to come, exactly if the calls are made as `careful` says. -/
theorem callbacks_own_answers (acts : List Act) :
    Along step Good init acts ↔ Meets step (fun s a => careful s a = true) init acts := by
  apply along_iff_meets_via (A := fun _ => True) (Q := fun s => Tidy s ∧ Good s)
  · exact fun s hs => hs.2
  · rintro s a t - ⟨ht, hg⟩ hc h
    obtain ⟨htt, hgt⟩ := step_good ht hg h
    exact ⟨htt, hgt.mpr hc⟩
  · rintro s a t - ⟨ht, hg⟩ hgt h
    exact (step_good ht hg h).2.mp hgt
  · exact ⟨init_tidy, good_iff.mpr ⟨rfl, trivial⟩⟩
  · exact fun _ _ => trivial

/-- Two readings at once: the first answer calls the second callback. -/
theorem second_reader_called : ∃ s ∈ run step init
    [.read (some (lua "1")) true, .read (some (lua "2")) true, .answer true none],
    s.answered = [(some 0, .read true [] [])] ∧ s.called = [(1, .read true [] [])] ∧ ¬Right s := by
  refine ⟨_, rfl, by decide +kernel, by decide +kernel, ?_⟩
  unfold Right
  decide +kernel

end LuatAir200.Pb
