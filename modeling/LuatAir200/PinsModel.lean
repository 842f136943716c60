import LuatAir200.Machine
import LuatAir200.Traversal
import Mathlib.Logic.Function.Basic

/-!
# `pins.lua`: the registry of the pins

The configurations have pairwise distinct pins, so a configuration is named by its pin. The
pins exist and can take the directions of their configurations, so `pio` does not fail.
History: the pins registered and not deregistered since, the last call, what it asked `pio`
for and how the pins stood before it.
-/
namespace LuatAir200.Pins
open Machine Traversal

inductive Dir
  | OUTPUT | OUTPUT1 | INPUT | INT
  deriving DecidableEq

/-- The table of a pin; `set` tells whether it has a function of that name. -/
structure Config where
  init : Option Bool
  ptype : Option String
  dir : Option Dir
  valid : Option ℤ
  val : Option Bool
  inited : Bool
  set : Bool
  deriving DecidableEq

/-- A request to `pio.pin`. -/
inductive Op
  | setdir (dir : Dir) (pin : ℕ)
  | close (pin : ℕ)
  | setval (val : ℤ) (pin : ℕ)
  deriving DecidableEq

def Op.pin : Op → ℕ
  | .setdir _ p | .close p | .setval _ p => p

/-- The arguments of `reg` and `dereg`. -/
structure Args where
  cfg1 : ℕ
  arg : List ℕ
  distinct : (cfg1 :: arg).Nodup

def Args.pins (a : Args) : List ℕ := a.cfg1 :: a.arg

/-- A call, or a level that is put on a pin from outside. -/
inductive Call
  | reg (a : Args)
  | dereg (a : Args)
  | set (bval : Bool) (p : ℕ)
  | setdir (dir : Dir) (p : ℕ)
  | drive (p : ℕ) (level : ℤ)

structure State where
  cfg : ℕ → Config
  allpins : List ℕ
  /-- The directions of the open pins, and the levels of all. -/
  mode : ℕ → Option Dir
  level : ℕ → ℤ
  /-- A Lua error has ended the program. -/
  failed : Bool
  held : List ℕ
  call : Option Call
  ops : List Op
  oldmode : ℕ → Option Dir
  oldlevel : ℕ → ℤ

/-- Before the first call, with the tables of the configurations. -/
def loaded (cfg : ℕ → Config) (mode : ℕ → Option Dir) (level : ℕ → ℤ) : State where
  cfg := cfg
  allpins := []
  mode := mode
  level := level
  failed := false
  held := []
  call := none
  ops := []
  oldmode := mode
  oldlevel := level

/-- The pins on which `init` sets the direction. -/
def Config.ByInit (v : Config) : Prop :=
  v.init ≠ some false ∧ (v.ptype = none ∨ v.ptype = some "GPIO")

instance (v : Config) : Decidable v.ByInit := inferInstanceAs (Decidable (_ ∧ _))

namespace State

/-- An output starts low or high, an input keeps the level that it has. -/
def pioSetdir (dir : Dir) (p : ℕ) (s : State) : State :=
  { s with
    mode := Function.update s.mode p (some dir)
    level := match dir with
      | .OUTPUT => Function.update s.level p 0
      | .OUTPUT1 => Function.update s.level p 1
      | .INPUT | .INT => s.level
    ops := s.ops ++ [.setdir dir p] }

def pioClose (p : ℕ) (s : State) : State :=
  { s with mode := Function.update s.mode p none, ops := s.ops ++ [.close p] }

def pioSetval (val : ℤ) (p : ℕ) (s : State) : State :=
  { s with level := Function.update s.level p val, ops := s.ops ++ [.setval val p] }

def setCfg (p : ℕ) (v : Config) (s : State) : State :=
  { s with cfg := Function.update s.cfg p v }

/-- The body of the loop in `init`. -/
def initPin (s : State) (p : ℕ) : State :=
  let v := s.cfg p
  if v.init = some false then s
  else if v.ptype = none ∨ v.ptype = some "GPIO" then
    let v := { v with inited := true }
    let s := (s.setCfg p v).pioSetdir (v.dir.getD .OUTPUT) p
    if v.dir = some .INPUT ∨ v.dir = some .INT then
      s.setCfg p { v with val := some (some (s.level p) = v.valid) }
    else s
  else s

def init (s : State) : State := s.allpins.foldl initPin s

def reg (a : Args) (s : State) : State :=
  { s with allpins := s.allpins ++ [a.cfg1] ++ a.arg }.init

/-- The second loop of `dereg`, from the index `k` on. The `i` of `unpack(arg,i,i)` is no
variable of the loop but a global that is not set, so `unpack` starts with the first entry of
`arg`; without one the field access fails. -/
def deregArg (arg : List ℕ) : ℕ → ℕ → State → State
  | 0, _, s => s
  | n + 1, k, s =>
      match s.allpins[k]? with
      | none => s
      | some v =>
          match arg[0]? with
          | none => { s with failed := true }
          | some q =>
              let s := s.pioClose q
              deregArg arg n (k + 1)
                (if v = q then { s with allpins := s.allpins.eraseIdx k } else s)

def dereg (a : Args) (s : State) : State :=
  let s := s.pioClose a.cfg1
  let s := { s with allpins := remove (· = a.cfg1) s.allpins.length 0 s.allpins }
  deregArg a.arg s.allpins.length 0 s

/-- What a function under the key `set` does is not part of the module. -/
def set (bval : Bool) (p : ℕ) (s : State) : State :=
  let v := { s.cfg p with val := some bval }
  let gpio := v.ptype = none ∨ v.ptype = some "GPIO"
  let s :=
    if v.inited = false ∧ gpio then
      (s.setCfg p { v with inited := true }).pioSetdir (v.dir.getD .OUTPUT) p
    else s.setCfg p v
  if v.set then s
  else if ¬ gpio then s
  else
    let valid := if v.valid = some 0 then 0 else 1
    let notvalid := if v.valid = some 0 then 1 else 0
    s.pioSetval (if bval then valid else notvalid) p

def setdir (dir : Dir) (p : ℕ) (s : State) : State :=
  let v := s.cfg p
  if v.ptype = none ∨ v.ptype = some "GPIO" then
    ((s.pioClose p).pioSetdir dir p).setCfg p { v with inited := true, dir := some dir }
  else s

/-- A level from outside reaches a pin that is no output. -/
def drive (p : ℕ) (level : ℤ) (s : State) : State :=
  match s.mode p with
  | some .OUTPUT | some .OUTPUT1 => s
  | _ => { s with level := Function.update s.level p level }

def start (c : Call) (s : State) : State :=
  { s with call := some c, ops := [], oldmode := s.mode, oldlevel := s.level }

end State

def step (s : State) (c : Call) : Option State :=
  if s.failed then none
  else
    let s := s.start c
    match c with
    | .reg a => some { s.reg a with held := s.held ++ a.pins }
    | .dereg a => some { s.dereg a with held := s.held.filter fun p => p ∉ a.pins }
    | .set bval p => some (s.set bval p)
    | .setdir dir p => some (s.setdir dir p)
    | .drive p level => some (s.drive p level)

/-- `reg` has set the directions of its pins, and of no others. -/
structure RegRight (a : Args) (s : State) : Prop where
  sets : ∀ p ∈ a.pins, (s.cfg p).ByInit → .setdir ((s.cfg p).dir.getD .OUTPUT) p ∈ s.ops
  only : ∀ o ∈ s.ops, o.pin ∈ a.pins
  mode : ∀ p, p ∉ a.pins → s.mode p = s.oldmode p
  level : ∀ p, p ∉ a.pins → s.level p = s.oldlevel p

/-- What holds after each call. -/
structure Right (s : State) : Prop where
  runs : s.failed = false
  table : s.allpins = s.held
  reg : ∀ a, s.call = some (.reg a) → RegRight a s
  dereg : ∀ a, s.call = some (.dereg a) → ∀ p, .close p ∈ s.ops ↔ p ∈ a.pins

/-! ## Registration -/

/-- What the loop of `init` does over a list of pins. -/
structure Inits (l : List ℕ) (s t : State) : Prop where
  allpins : t.allpins = s.allpins
  failed : t.failed = s.failed
  call : t.call = s.call
  oldmode : t.oldmode = s.oldmode
  oldlevel : t.oldlevel = s.oldlevel
  byInit : ∀ p, (t.cfg p).ByInit ↔ (s.cfg p).ByInit
  dir : ∀ p, (t.cfg p).dir = (s.cfg p).dir
  ops : t.ops = s.ops ++ (l.filter fun p => (s.cfg p).ByInit).map fun p =>
    .setdir ((s.cfg p).dir.getD .OUTPUT) p
  mode : ∀ p, ¬ (p ∈ l ∧ (s.cfg p).ByInit) → t.mode p = s.mode p
  level : ∀ p, ¬ (p ∈ l ∧ (s.cfg p).ByInit) → t.level p = s.level p

theorem Inits.refl (s : State) : Inits [] s s :=
  ⟨rfl, rfl, rfl, rfl, rfl, fun _ => Iff.rfl, fun _ => rfl, by simp, fun _ _ => rfl,
    fun _ _ => rfl⟩

theorem Inits.trans {l m : List ℕ} {s t u : State} (h : Inits l s t) (k : Inits m t u) :
    Inits (l ++ m) s u where
  allpins := k.allpins.trans h.allpins
  failed := k.failed.trans h.failed
  call := k.call.trans h.call
  oldmode := k.oldmode.trans h.oldmode
  oldlevel := k.oldlevel.trans h.oldlevel
  byInit p := (k.byInit p).trans (h.byInit p)
  dir p := (k.dir p).trans (h.dir p)
  ops := by
    rw [k.ops, h.ops, List.filter_append, List.map_append, List.append_assoc]
    simp only [h.byInit, h.dir]
  mode p hp := by
    rw [k.mode p, h.mode p]
    · exact fun hl => hp ⟨List.mem_append_left m hl.1, hl.2⟩
    · exact fun hm => hp ⟨List.mem_append_right l hm.1, (h.byInit p).mp hm.2⟩
  level p hp := by
    rw [k.level p, h.level p]
    · exact fun hl => hp ⟨List.mem_append_left m hl.1, hl.2⟩
    · exact fun hm => hp ⟨List.mem_append_right l hm.1, (h.byInit p).mp hm.2⟩

/-- The history of the registrations is no part of it. -/
theorem Inits.held {l : List ℕ} {s t : State} (h : Inits l s t) (held : List ℕ) :
    Inits l s { t with held := held } :=
  ⟨h.allpins, h.failed, h.call, h.oldmode, h.oldlevel, h.byInit, h.dir, h.ops, h.mode, h.level⟩

theorem initPin_of_not {s : State} {p : ℕ} (h : ¬ (s.cfg p).ByInit) : s.initPin p = s := by
  unfold State.initPin
  by_cases hi : (s.cfg p).init = some false
  · simp only [hi, if_true]
  · have hg : ¬ ((s.cfg p).ptype = none ∨ (s.cfg p).ptype = some "GPIO") := fun hg => h ⟨hi, hg⟩
    simp only [if_neg hi, if_neg hg]

/-- Only the value and the mark of the configuration change. -/
theorem initPin_of {s : State} {p : ℕ} (h : (s.cfg p).ByInit) :
    ∃ val, s.initPin p =
      (s.setCfg p { s.cfg p with inited := true, val := val }).pioSetdir
        ((s.cfg p).dir.getD .OUTPUT) p := by
  unfold State.initPin
  simp only [if_neg h.1, if_pos h.2]
  by_cases hd : (s.cfg p).dir = some .INPUT ∨ (s.cfg p).dir = some .INT
  · rw [if_pos hd]
    exact ⟨_, by simp only [State.setCfg, State.pioSetdir, Function.update_idem]; rfl⟩
  · rw [if_neg hd]
    exact ⟨_, rfl⟩

theorem initPin_inits (s : State) (p : ℕ) : Inits [p] s (s.initPin p) := by
  by_cases h : (s.cfg p).ByInit
  · obtain ⟨val, he⟩ := initPin_of h
    have hne : ∀ q, ¬ (q ∈ [p] ∧ (s.cfg q).ByInit) → q ≠ p := by
      rintro q hq rfl
      exact hq ⟨List.mem_cons_self, h⟩
    rw [he]
    refine ⟨rfl, rfl, rfl, rfl, rfl, fun q => ?_, fun q => ?_, ?_, fun q hq => ?_, fun q hq => ?_⟩
    · by_cases hq : q = p
      · subst hq
        simp [State.setCfg, State.pioSetdir, Config.ByInit]
      · simp [State.setCfg, State.pioSetdir, hq]
    · by_cases hq : q = p
      · subst hq
        simp [State.setCfg, State.pioSetdir]
      · simp [State.setCfg, State.pioSetdir, hq]
    · simp [State.setCfg, State.pioSetdir, h]
    · simp [State.setCfg, State.pioSetdir, hne q hq]
    · simp only [State.setCfg, State.pioSetdir]
      cases (s.cfg p).dir.getD .OUTPUT <;> simp [hne q hq]
  · rw [initPin_of_not h]
    refine ⟨rfl, rfl, rfl, rfl, rfl, fun _ => Iff.rfl, fun _ => rfl, by simp [h], fun _ _ => rfl,
      fun _ _ => rfl⟩

theorem foldl_inits (l : List ℕ) (s : State) : Inits l s (l.foldl State.initPin s) := by
  induction l generalizing s with
  | nil => exact .refl s
  | cons p l ih => exact (initPin_inits s p).trans (ih (s.initPin p))

/-- `reg` initialises its own pins and all that were registered before. -/
theorem reg_inits (a : Args) (s : State) :
    Inits (s.allpins ++ a.pins) { s with allpins := s.allpins ++ a.pins } (s.reg a) := by
  have h := foldl_inits (s.allpins ++ a.pins) { s with allpins := s.allpins ++ a.pins }
  have hp : s.allpins ++ [a.cfg1] ++ a.arg = s.allpins ++ a.pins := by
    rw [List.append_assoc, List.singleton_append, Args.pins]
  simpa only [State.reg, State.init, hp] using h

/-- `reg` sets the directions of its own pins only if it finds no other that `init` sets. -/
theorem reg_right_iff {a : Args} {l : List ℕ} {s t : State} (h : Inits (l ++ a.pins) s t)
    (hops : s.ops = []) (hm : s.oldmode = s.mode) (hl : s.oldlevel = s.level) :
    RegRight a t ↔ ∀ p ∈ l, p ∉ a.pins → ¬ (s.cfg p).ByInit := by
  have hmem : ∀ o, o ∈ t.ops ↔ ∃ p, (p ∈ l ∨ p ∈ a.pins) ∧ (s.cfg p).ByInit ∧
      .setdir ((s.cfg p).dir.getD .OUTPUT) p = o := by
    intro o
    rw [h.ops, hops, List.nil_append]
    simp only [List.mem_map, List.mem_filter, List.mem_append, decide_eq_true_eq, and_assoc]
  constructor
  · intro hr p hp hpa hi
    exact hpa (hr.only _ ((hmem _).mpr ⟨p, .inl hp, hi, rfl⟩))
  · intro hk
    have hin : ∀ p, (p ∈ l ∨ p ∈ a.pins) → (s.cfg p).ByInit → p ∈ a.pins := by
      intro p hp hi
      by_contra hpa
      exact hk p (hp.resolve_right hpa) hpa hi
    have hout : ∀ p, p ∉ a.pins → ¬ (p ∈ l ++ a.pins ∧ (s.cfg p).ByInit) :=
      fun p hp hb => hp (hin p (List.mem_append.mp hb.1) hb.2)
    refine ⟨fun p hp hi => ?_, ?_, fun p hp => ?_, fun p hp => ?_⟩
    · rw [h.dir]
      exact (hmem _).mpr ⟨p, .inr hp, (h.byInit p).mp hi, rfl⟩
    · intro o ho
      obtain ⟨p, hp, hi, rfl⟩ := (hmem o).mp ho
      exact hin p hp hi
    · rw [h.mode p (hout p hp), h.oldmode, hm]
    · rw [h.level p (hout p hp), h.oldlevel, hl]

/-! ## Deregistration -/

theorem deregArg_past (arg : List ℕ) (n : ℕ) {k : ℕ} {s : State} (h : s.allpins.length ≤ k) :
    s.deregArg arg n k = s := by
  cases n with
  | zero => rfl
  | succ n => rw [State.deregArg, List.getElem?_eq_none h]

theorem deregArg_call (arg : List ℕ) (n k : ℕ) (s : State) :
    (s.deregArg arg n k).call = s.call := by
  induction n generalizing k s with
  | zero => rfl
  | succ n ih =>
      rw [State.deregArg]
      split
      · rfl
      · split
        · rfl
        · rw [ih]
          split <;> rfl

theorem dereg_call (a : Args) (s : State) : (s.dereg a).call = s.call :=
  deregArg_call a.arg _ 0 _

/-- With one argument the loop fails at the first pin that is left. -/
theorem deregArg_nil {s : State} (h : s.allpins ≠ []) :
    s.deregArg [] s.allpins.length 0 = { s with failed := true } := by
  cases hl : s.allpins with
  | nil => exact absurd hl h
  | cons p l => simp [State.deregArg, hl]

/-- Otherwise each round closes the pin of the second argument. -/
theorem deregArg_cons (q : ℕ) (arg : List ℕ) (n k : ℕ) (s : State) :
    ∃ m, (0 < n → k < s.allpins.length → 0 < m) ∧
      (s.deregArg (q :: arg) n k).allpins = remove (· = q) n k s.allpins ∧
      (s.deregArg (q :: arg) n k).failed = s.failed ∧
      (s.deregArg (q :: arg) n k).ops = s.ops ++ List.replicate m (.close q) := by
  induction n generalizing k s with
  | zero => exact ⟨0, fun h => absurd h (Nat.lt_irrefl 0), rfl, rfl, by simp [State.deregArg]⟩
  | succ n ih =>
      cases hk : s.allpins[k]? with
      | none =>
          have hl : s.allpins.length ≤ k := List.getElem?_eq_none_iff.mp hk
          rw [deregArg_past _ _ hl, remove_past _ hl]
          exact ⟨0, fun _ h => absurd h (Nat.not_lt.mpr hl), rfl, rfl, by simp⟩
      | some p =>
          -- one round, with or without the removal
          let t : State := if p = q then
            { s.pioClose q with allpins := s.allpins.eraseIdx k } else s.pioClose q
          have ht : s.deregArg (q :: arg) (n + 1) k = t.deregArg (q :: arg) n (k + 1) := by
            rw [State.deregArg, hk]
            rfl
          obtain ⟨m, -, hpins, hfailed, hops⟩ := ih (k + 1) t
          refine ⟨m + 1, fun _ _ => Nat.succ_pos m, ?_, ?_, ?_⟩
          · rw [ht, hpins, remove, hk]
            by_cases hq : p = q
            · simp [t, hq]
            · simp [t, hq, State.pioClose]
          · rw [ht, hfailed]
            by_cases hq : p = q <;> simp [t, hq, State.pioClose]
          · rw [ht, hops, List.replicate_succ]
            by_cases hq : p = q <;> simp [t, hq, State.pioClose]

/-- The state behind the first loop. -/
def State.first (a : Args) (s : State) : State :=
  { s.pioClose a.cfg1 with allpins := sweep (· = a.cfg1) s.allpins }

theorem dereg_eq (a : Args) (s : State) :
    s.dereg a = (s.first a).deregArg a.arg (s.first a).allpins.length 0 := by
  simp only [State.dereg, State.first, State.pioClose, remove_zero]

/-- The deregistrations that do what they are called for, by the arguments and the table. -/
def Covers (a : Args) (l : List ℕ) : Prop :=
  match a.arg with
  | [] => l = [] ∨ l = [a.cfg1]
  | [q] => (∃ p ∈ l, p ≠ a.cfg1) ∧ Apart (· = a.cfg1) l ∧ Apart (· = q) (l.filter (· ≠ a.cfg1))
  | _ :: _ :: _ => False

/-- What `dereg` is called for. -/
structure DeregRight (a : Args) (s t : State) : Prop where
  runs : t.failed = false
  table : t.allpins = s.allpins.filter fun p => p ∉ a.pins
  closes : ∀ p, .close p ∈ t.ops ↔ p ∈ a.pins

/-- A table whose entries are all of one pin is cleared only if it has at most one. -/
theorem sweep_eq_nil_iff (c : ℕ) (l : List ℕ) :
    sweep (· = c) l = [] ↔ l = [] ∨ l = [c] := by
  constructor
  · intro h
    have hall : ∀ p ∈ l, p = c := by
      intro p hp
      by_contra hc
      have := mem_sweep (p := (· = c)) hp (by simpa using hc)
      rw [h] at this
      exact absurd this List.not_mem_nil
    match l with
    | [] => exact .inl rfl
    | [x] => exact .inr (by rw [hall x List.mem_cons_self])
    | x :: y :: l =>
        rw [sweep, if_pos (by simpa using hall x List.mem_cons_self)] at h
        cases h
  · rintro (rfl | rfl)
    · rfl
    · simp [sweep]

theorem dereg_one_iff {a : Args} {s : State} (ha : a.arg = []) (hf : s.failed = false)
    (hops : s.ops = []) : DeregRight a s (s.dereg a) ↔ s.allpins = [] ∨ s.allpins = [a.cfg1] := by
  rw [← sweep_eq_nil_iff]
  constructor
  · intro h
    by_contra hne
    have hr := h.runs
    have hf : (s.first a).allpins ≠ [] := hne
    rw [dereg_eq, ha, deregArg_nil hf] at hr
    cases hr
  · intro hnil
    have hl : (s.first a).allpins = [] := hnil
    have he : s.dereg a = s.first a := by
      rw [dereg_eq, hl]
      rfl
    have hp : a.pins = [a.cfg1] := by rw [Args.pins, ha]
    refine ⟨by rw [he]; exact hf, ?_, fun p => ?_⟩
    · rw [he, hp, hl]
      symm
      refine List.filter_eq_nil_iff.mpr fun p hm hn => ?_
      have := mem_sweep (p := (· = a.cfg1)) hm (by simpa using hn)
      rw [hnil] at this
      exact absurd this List.not_mem_nil
    · rw [he, hp]
      simp [State.first, State.pioClose, hops]

/-- What `dereg` does with more than one argument. -/
theorem dereg_cons {a : Args} {s : State} {q : ℕ} {l : List ℕ} (ha : a.arg = q :: l)
    (hops : s.ops = []) :
    (s.dereg a).allpins = sweep (· = q) (sweep (· = a.cfg1) s.allpins) ∧
      (s.dereg a).failed = s.failed ∧
      ∀ p, .close p ∈ (s.dereg a).ops ↔
        p = a.cfg1 ∨ p = q ∧ sweep (· = a.cfg1) s.allpins ≠ [] := by
  obtain ⟨m, hm, hpins, hfailed, hopsd⟩ :=
    deregArg_cons q l (s.first a).allpins.length 0 (s.first a)
  rw [dereg_eq, ha]
  refine ⟨hpins.trans (remove_zero _), hfailed, fun p => ?_⟩
  rw [hopsd]
  have hf : (s.first a).ops = [.close a.cfg1] := by
    simp [State.first, State.pioClose, hops]
  rw [hf, List.singleton_append, List.mem_cons, List.mem_replicate, Op.close.injEq, Op.close.injEq]
  by_cases hl : sweep (· = a.cfg1) s.allpins = []
  · have hz : (s.first a).deregArg (q :: l) (s.first a).allpins.length 0 = s.first a := by
      have hl' : (s.first a).allpins = [] := hl
      rw [hl']
      rfl
    rw [hz, hf] at hopsd
    have hm0 : m = 0 := by
      have := congrArg List.length hopsd
      simpa using this
    simp [hl, hm0]
  · have hpos : 0 < (s.first a).allpins.length := List.length_pos_iff.mpr hl
    have hm0 : m ≠ 0 := Nat.ne_of_gt (hm hpos hpos)
    simp [hl, hm0]

theorem dereg_two_iff {a : Args} {s : State} {q : ℕ} (ha : a.arg = [q]) (hf : s.failed = false)
    (hops : s.ops = []) : DeregRight a s (s.dereg a) ↔ (∃ p ∈ s.allpins, p ≠ a.cfg1) ∧
      Apart (· = a.cfg1) s.allpins ∧ Apart (· = q) (s.allpins.filter (· ≠ a.cfg1)) := by
  obtain ⟨hpins, hfailed, hcl⟩ := dereg_cons ha hops
  have hd : q ≠ a.cfg1 := by
    have := a.distinct
    rw [ha] at this
    simpa [eq_comm] using this
  have hp : a.pins = [a.cfg1, q] := by rw [Args.pins, ha]
  have hcloses : (∀ p, .close p ∈ (s.dereg a).ops ↔ p ∈ a.pins) ↔
      sweep (· = a.cfg1) s.allpins ≠ [] := by
    simp only [hcl, hp, List.mem_cons, List.not_mem_nil, or_false]
    constructor
    · intro h
      exact ((h q).mpr (.inr rfl)).resolve_left hd |>.2
    · intro h p
      simp [h]
  have htable : (s.dereg a).allpins = s.allpins.filter (fun p => p ∉ a.pins) ↔
      Apart (· = a.cfg1) s.allpins ∧ Apart (· = q) (s.allpins.filter (· ≠ a.cfg1)) := by
    rw [hpins, hp]
    constructor
    · intro h
      have hout : ∀ p ∈ sweep (· = q) (sweep (· = a.cfg1) s.allpins), p ≠ a.cfg1 ∧ p ≠ q := by
        intro p hm
        rw [h, List.mem_filter] at hm
        simpa using hm.2
      have hc : Apart (· = a.cfg1) s.allpins := by
        refine (sweep_clear_iff _).mp fun p hm => ?_
        rw [decide_eq_true_eq]
        rintro rfl
        exact (hout _ (mem_sweep hm (by simpa using hd.symm))).1 rfl
      refine ⟨hc, (sweep_clear_iff _).mp fun p hm => ?_⟩
      have he := sweep_eq_filter hc
      simp only [← decide_not] at he
      rw [← he] at hm
      simpa using (hout p hm).2
    · rintro ⟨hc, hq⟩
      rw [sweep_eq_filter hc]
      simp only [← decide_not]
      rw [sweep_eq_filter hq, List.filter_filter]
      congr 1
      funext p
      simp [and_comm]
  constructor
  · intro h
    have hapart := htable.mp h.table
    have hne := hcloses.mp h.closes
    rw [sweep_eq_filter hapart.1] at hne
    obtain ⟨p, hm⟩ := List.exists_mem_of_ne_nil _ hne
    rw [List.mem_filter] at hm
    exact ⟨⟨p, hm.1, by simpa using hm.2⟩, hapart⟩
  · rintro ⟨⟨p, hm, hc⟩, hapart⟩
    have hs := mem_sweep (p := (· = a.cfg1)) hm (by simpa using hc)
    exact ⟨hfailed.trans hf, htable.mpr hapart, hcloses.mpr (List.ne_nil_of_mem hs)⟩

/-- A third argument is neither closed nor removed. -/
theorem dereg_more {a : Args} {s : State} {q r : ℕ} {l : List ℕ} (ha : a.arg = q :: r :: l)
    (hops : s.ops = []) : ¬ DeregRight a s (s.dereg a) := by
  intro h
  have hd := a.distinct
  simp only [ha, List.nodup_cons, List.mem_cons, not_or] at hd
  have hr : r ∈ a.pins := by simp [Args.pins, ha]
  rcases ((dereg_cons ha hops).2.2 r).mp ((h.closes r).mpr hr) with hc | ⟨hq, -⟩
  · exact hd.1.2.1 hc.symm
  · exact hd.2.1.1 hq.symm

theorem dereg_right_iff {a : Args} {s : State} (hf : s.failed = false) (hops : s.ops = []) :
    DeregRight a s (s.dereg a) ↔ Covers a s.allpins := by
  unfold Covers
  split
  · next ha => exact dereg_one_iff ha hf hops
  · next q ha => exact dereg_two_iff ha hf hops
  · next q r l ha => exact ⟨fun h => dereg_more ha hops h, False.elim⟩

/-! ## Runs -/

/-- `reg` finds no other pin that `init` sets; `dereg` has one argument and there is no other
pin, or two and there are others, with no pin to be removed twice in a row. -/
def Keeps (s : State) : Call → Prop
  | .reg a => ∀ p ∈ s.allpins, p ∉ a.pins → ¬ (s.cfg p).ByInit
  | .dereg a => Covers a s.allpins
  | .set .. | .setdir .. | .drive .. => True

/-- The registry and the error flag are left as they were. -/
structure Frame (s t : State) : Prop where
  allpins : t.allpins = s.allpins
  held : t.held = s.held
  failed : t.failed = s.failed
  call : t.call = s.call

theorem set_frame (bval : Bool) (p : ℕ) (s : State) : Frame s (s.set bval p) := by
  unfold State.set
  dsimp only
  repeat' split
  all_goals exact ⟨rfl, rfl, rfl, rfl⟩

theorem setdir_frame (dir : Dir) (p : ℕ) (s : State) : Frame s (s.setdir dir p) := by
  unfold State.setdir
  dsimp only
  split <;> exact ⟨rfl, rfl, rfl, rfl⟩

theorem drive_frame (p : ℕ) (level : ℤ) (s : State) : Frame s (s.drive p level) := by
  unfold State.drive
  split <;> exact ⟨rfl, rfl, rfl, rfl⟩

/-- A call that is neither `reg` nor `dereg`. -/
theorem right_of_frame {s t : State} {c : Call} (hs : Right s) (h : Frame (s.start c) t)
    (hr : ∀ a, c ≠ .reg a) (hd : ∀ a, c ≠ .dereg a) : Right t where
  runs := h.failed.trans hs.runs
  table := by
    rw [h.allpins, h.held]
    exact hs.table
  reg a hc := absurd (Option.some.inj (h.call.symm.trans hc)) (hr a)
  dereg a hc := absurd (Option.some.inj (h.call.symm.trans hc)) (hd a)

theorem step_right_iff {s t : State} {c : Call} (hs : Right s) (h : step s c = some t) :
    Right t ↔ Keeps s c := by
  have hf := hs.runs
  simp only [step, hf, Bool.false_eq_true, if_false] at h
  cases c with
  | reg a =>
      obtain rfl := Option.some.inj h
      have hi := reg_inits a (s.start (.reg a))
      have hr := reg_right_iff (hi.held (s.held ++ a.pins)) rfl rfl rfl
      constructor
      · intro hR
        exact hr.mp (hR.reg a hi.call)
      · intro hk
        refine ⟨hi.failed.trans hf, ?_, fun b hb => ?_, fun b hb => ?_⟩
        · rw [hi.allpins]
          exact congrArg (· ++ a.pins) hs.table
        · have hcall := hi.call
          cases Call.reg.inj (Option.some.inj (hcall.symm.trans hb))
          exact hr.mpr hk
        · have hcall := hi.call
          cases hcall.symm.trans hb
  | dereg a =>
      obtain rfl := Option.some.inj h
      have hd := dereg_right_iff (s := s.start (.dereg a)) (a := a) hf rfl
      have hcall := dereg_call a (s.start (.dereg a))
      constructor
      · intro hR
        refine hd.mp ⟨hR.runs, hR.table.trans ?_, hR.dereg a hcall⟩
        exact congrArg (List.filter fun p => p ∉ a.pins) hs.table.symm
      · intro hk
        have hD := hd.mpr hk
        refine ⟨hD.runs, hD.table.trans ?_, fun b hb => ?_, fun b hb => ?_⟩
        · exact congrArg (List.filter fun p => p ∉ a.pins) hs.table
        · cases hcall.symm.trans hb
        · cases Call.dereg.inj (Option.some.inj (hcall.symm.trans hb))
          exact hD.closes
  | set bval p =>
      obtain rfl := Option.some.inj h
      have hframe := set_frame bval p (s.start (.set bval p))
      exact iff_of_true (right_of_frame hs hframe nofun nofun) trivial
  | setdir dir p =>
      obtain rfl := Option.some.inj h
      have hframe := setdir_frame dir p (s.start (.setdir dir p))
      exact iff_of_true (right_of_frame hs hframe nofun nofun) trivial
  | drive p level =>
      obtain rfl := Option.some.inj h
      have hframe := drive_frame p level (s.start (.drive p level))
      exact iff_of_true (right_of_frame hs hframe nofun nofun) trivial

theorem loaded_right (cfg : ℕ → Config) (mode : ℕ → Option Dir) (level : ℕ → ℤ) :
    Right (loaded cfg mode level) :=
  ⟨rfl, rfl, nofun, nofun⟩

/-- The registry is right after each call exactly if all calls are of this kind. -/
theorem registry_right_iff (cfg : ℕ → Config) (mode : ℕ → Option Dir) (level : ℕ → ℤ)
    (calls : List Call) :
    Along step Right (loaded cfg mode level) calls ↔
      Meets step Keeps (loaded cfg mode level) calls :=
  along_iff_meets (I := fun _ => True) (fun _ _ _ _ _ => trivial)
    (fun _ _ _ _ hs h => step_right_iff hs h) trivial (loaded_right cfg mode level) calls

/-- The third of three pins stays open and registered. -/
theorem not_registry_right : ¬ ∀ (cfg : ℕ → Config) (mode : ℕ → Option Dir) (level : ℕ → ℤ)
    (calls : List Call), Along step Right (loaded cfg mode level) calls := by
  intro h
  let v : Config := ⟨none, none, none, none, none, false, false⟩
  let a : Args := ⟨1, [2, 3], by decide⟩
  have hrun : (run step (loaded (fun _ => v) (fun _ => none) fun _ => 0)
      [.reg a, .dereg a]).map State.allpins = some [3] := by decide
  obtain ⟨t, ht, hpins⟩ := Option.map_eq_some_iff.mp hrun
  have hheld : (run step (loaded (fun _ => v) (fun _ => none) fun _ => 0)
      [.reg a, .dereg a]).map State.held = some [] := by decide
  rw [ht, Option.map_some, Option.some.injEq] at hheld
  have := ((h (fun _ => v) (fun _ => none) (fun _ => 0) [.reg a, .dereg a]).last ht).table
  rw [hpins, hheld] at this
  cases this

end LuatAir200.Pins
