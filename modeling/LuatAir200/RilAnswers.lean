import LuatAir200.LuaFind
import LuatAir200.ReceiveHeader
import LuatAir200.RilDiscipline
import Mathlib.Data.List.TakeWhile

/-!
# Answers among unsolicited lines

While a command is outstanding, the lines of its answer come between unsolicited lines.
`procatc` has to hand each unsolicited line to `urc` and the final result to `rsp`, with the
intermediate lines that came before it.
-/
namespace LuatAir200.Ril
open Lua Machine

variable {M : Modules}

/-! ## The forms of lines -/

/-- A line of hexadecimal digits. -/
def Numeric (l : LuaString) : Prop := l ≠ [] ∧ ∀ x ∈ l, isXDigit x = true

instance (l : LuaString) : Decidable (Numeric l) :=
  have : Decidable (∀ x ∈ l, isXDigit x = true) := List.decidableBAll (isXDigit · = true) l
  inferInstanceAs (Decidable (l ≠ [] ∧ ∀ x ∈ l, isXDigit x = true))

/-- A line in the format of the intermediate lines of the command. -/
def Intermediate (c : Curr M.Rsp) (l : LuaString) : Prop :=
  match c.cmdtype with
  | .NORESULT | .SPECIAL => False
  | .NUMBERIC => Numeric l
  | .STRING => (smatch l (c.rspformt.getD (lua "^%w+$"))).isSome
  | .SLINE | .MLINE => foundAtFront l c.cmdhead

instance (c : Curr M.Rsp) (l : LuaString) : Decidable (Intermediate c l) := by
  unfold Intermediate
  split <;> infer_instance

/-- `+CMS ERROR: <err>` or `+CME ERROR: <err>`. -/
def Reported (l : LuaString) : Prop := lua "+CMS ERROR:" <+: l ∨ lua "+CME ERROR:" <+: l

instance (l : LuaString) : Decidable (Reported l) := by
  unfold Reported
  infer_instance

/-- A final result: one of those of all commands, or a special one. -/
def Final (c : Curr M.Rsp) (l : LuaString) : Prop :=
  (l = lua "OK" ∨ l = lua "SHUT OK") ∨ (l = lua "ERROR" ∨ Reported l) ∨
    c.cmdtype = .SPECIAL ∧ specialVerdict c l ≠ .urc

instance (c : Curr M.Rsp) (l : LuaString) : Decidable (Final c l) := by
  unfold Final
  infer_instance

/-- An answer: the intermediate lines and the final result. -/
structure Answer (c : Curr M.Rsp) (ms : List LuaString) (f : LuaString) : Prop where
  single : c.cmdtype ≠ .MLINE → ms.length ≤ 1
  first : ∀ m ∈ ms.head?, m ≠ [] ∧ Intermediate c m ∧ ¬Final c m
  rest : ∀ m ∈ ms.tail, m ≠ lua "OK"
  final : Final c f

theorem answer_iff (c : Curr M.Rsp) (ms : List LuaString) (f : LuaString) : Answer c ms f ↔
    (c.cmdtype ≠ .MLINE → ms.length ≤ 1) ∧
      (∀ m ∈ ms.head?.toList, m ≠ [] ∧ Intermediate c m ∧ ¬Final c m) ∧
      (∀ m ∈ ms.tail, m ≠ lua "OK") ∧ Final c f := by
  simp only [Option.mem_toList]
  exact ⟨fun h => ⟨h.1, h.2, h.3, h.4⟩, fun h => ⟨h.1, h.2.1, h.2.2.1, h.2.2.2⟩⟩

instance (c : Curr M.Rsp) (ms : List LuaString) (f : LuaString) : Decidable (Answer c ms f) :=
  decidable_of_iff' _ (answer_iff c ms f)

/-- A line that has not the form of a line of the answer. -/
def Unsolicited (c : Curr M.Rsp) (l : LuaString) : Prop :=
  l ≠ [] ∧ ¬Intermediate c l ∧ ¬Final c l

instance (c : Curr M.Rsp) (l : LuaString) : Decidable (Unsolicited c l) := by
  unfold Unsolicited
  infer_instance

/-- Lines that are taken for the end of any command, or for its request for data. -/
def Reserved (c : Curr M.Rsp) (l : LuaString) : Prop :=
  l = lua "NO ANSWER" ∨ l = lua "NO DIALTONE" ∨ l = lua "> " ∨
    l = lua "CONNECT FAIL" ∧ (smatch c.entry.req.cmd (lua "CIPSTART")).isSome

instance (c : Curr M.Rsp) (l : LuaString) : Decidable (Reserved c l) := by
  unfold Reserved
  infer_instance

/-- A pattern that begins with `^%+` and goes on with plain bytes. -/
theorem smatch_plus {bs p l : LuaString}
    (hp : parse p = some ⟨true, (Class.named 43 :: bs.map Class.char).map (.cls · .one)⟩) :
    (smatch l p).isSome ↔ 43 :: bs <+: l :=
  smatch_literal hp (.cons (fun _ => rfl) (chars_accept bs))

theorem reported_iff (l : LuaString) :
    (smatch l (lua "^%+CMS ERROR:")).isSome ∨ (smatch l (lua "^%+CME ERROR:")).isSome ↔
      Reported l := by
  have hs : (smatch l (lua "^%+CMS ERROR:")).isSome ↔ lua "+CMS ERROR:" <+: l :=
    @smatch_plus (lua "+CMS ERROR:").tail _ _ (by decide)
  have he : (smatch l (lua "^%+CME ERROR:")).isSome ↔ lua "+CME ERROR:" <+: l :=
    @smatch_plus (lua "+CME ERROR:").tail _ _ (by decide)
  rw [hs, he, Reported]

theorem parse_hex : parse (lua "(%x+)") =
    some ⟨false, [.openCap, .cls (.named 120) .plus, .closeCap]⟩ := by decide

theorem xdigit_accepts : (Class.named 120).accepts = isXDigit := by
  funext x
  rfl

theorem numeric_iff (l : LuaString) : smatch1 l (lua "(%x+)") = some l ↔ Numeric l := by
  rw [smatch1, smatch, parse_hex, Option.bind_some]
  constructor
  · intro h
    obtain ⟨caps, hc, hl⟩ := Option.bind_eq_some_iff.mp h
    obtain ⟨t, r, hr, rfl⟩ := Pattern.exec_found hc
    have ht : t.takeWhile (Class.named 120).accepts ≠ [] := by
      intro hn
      simp [matchItems, hn] at hr
    rw [matchItems_capture ht] at hr
    obtain rfl := Option.some.inj hr
    have hl : t.takeWhile (Class.named 120).accepts = l := by simpa using hl
    refine ⟨hl ▸ ht, fun x hx => ?_⟩
    rw [← hl, xdigit_accepts] at hx
    exact List.mem_takeWhile_imp hx
  · rintro ⟨hne, hall⟩
    have ht : l.takeWhile (Class.named 120).accepts = l := by
      rw [xdigit_accepts, List.takeWhile_eq_self_iff]
      exact hall
    have hf : matchItems [.openCap, .cls (.named 120) .plus, .closeCap] l l = some ([], [l]) := by
      rw [matchItems_capture (by rwa [ht]), ht, List.drop_length]
    cases l with
    | nil => exact absurd rfl hne
    | cons x l => simp [Pattern.exec, List.tails, hf]

/-! ## What is made of a line -/

/-- The data that a line comes as. -/
def received (l : LuaString) : LuaString := l ++ lua "\r\n"

/-- The intermediate lines as `rsp` is given them. -/
def joined (ms : List LuaString) : Option LuaString :=
  ms.foldl (fun d m => some (match d with
    | some d => d ++ lua "\r\n" ++ m
    | none => m)) none

/-- The arguments of the callback for a final result: success, response and intermediate data. -/
def outcome (c : Curr M.Rsp) (ms : List LuaString) (f : LuaString) :
    Bool × Option LuaString × Option LuaString :=
  if f = lua "OK" ∨ f = lua "SHUT OK" then (true, some f, joined ms)
  else if f = lua "ERROR" ∨ Reported f then (false, some (lua "ERROR"), joined ms)
  else
    match specialVerdict c f with
    | .result success d => (success, some d, joined ms)
    | .address d => (true, none, some d)
    | .urc | .intermediate _ => (false, none, joined ms)

theorem joined_concat (ms : List LuaString) (m : LuaString) :
    joined (ms ++ [m]) = some (match joined ms with
      | some d => d ++ lua "\r\n" ++ m
      | none => m) := by
  simp [joined]

theorem joined_eq_none {ms : List LuaString} : joined ms = none ↔ ms = [] := by
  induction ms using List.reverseRecOn with
  | nil => simp [joined]
  | append_singleton ms m => simp [joined_concat]

/-- Lines that are no error reports, in the sense of `procatc`. -/
theorem isError_iff (c : Curr M.Rsp) (l : LuaString) : isError c l = true ↔
    Reported l ∨ l = lua "CONNECT FAIL" ∧ (smatch c.entry.req.cmd (lua "CIPSTART")).isSome := by
  rw [isError, decide_eq_true_eq, ← or_assoc, reported_iff]

/-- A line that ends no command is treated according to the type of the command. -/
theorem response_plain {c : Curr M.Rsp} {l : LuaString} {s : State M}
    (hok : ¬(l = lua "OK" ∨ l = lua "SHUT OK")) (he : ¬(l = lua "ERROR" ∨ Reported l))
    (hr : ¬Reserved c l) : response c l s =
      match verdict c s.interdata l with
      | .urc => urc l s
      | .intermediate d => some { s with interdata := some d }
      | .result success d => rsp c success (some d) s.interdata s
      | .address d => rsp c true none (some d) s := by
  rw [not_or] at he
  rw [Reserved, not_or, not_or, not_or] at hr
  obtain ⟨hna, hnd, hp, hcf⟩ := hr
  have hi : isError c l = false := by
    rw [← Bool.not_eq_true, isError_iff, not_or]
    exact ⟨he.2, hcf⟩
  have hn : ¬(l = lua "ERROR" ∨ l = lua "NO ANSWER" ∨ l = lua "NO DIALTONE") := by
    rw [not_or, not_or]
    exact ⟨he.1, hna, hnd⟩
  simp only [response, hi, Bool.false_eq_true, if_false, hok, hn, hp] <;> rfl

theorem specialVerdict_ne_intermediate (c : Curr M.Rsp) (l d : LuaString) :
    specialVerdict c l ≠ .intermediate d := by
  have hlink : linkVerdict c l ≠ .intermediate d := by
    unfold linkVerdict
    dsimp only
    split
    · rw [ne_eq, ite_eq_iff]
      simp
    · split <;> simp
  unfold specialVerdict
  split
  · split <;> simp
  split
  · exact hlink
  split
  · split <;> simp
  · simp

/-- An unsolicited line is none for the command. -/
theorem Unsolicited.verdict {c : Curr M.Rsp} {l : LuaString} (h : Unsolicited c l)
    (d : Option LuaString) : Ril.verdict c d l = .urc := by
  obtain ⟨-, hi, hf⟩ := h
  unfold Ril.verdict
  unfold Intermediate at hi
  cases ht : c.cmdtype with
  | NORESULT => rfl
  | NUMBERIC =>
      simp only [ht] at hi ⊢
      rw [if_neg (by rwa [numeric_iff])]
  | SLINE | MLINE =>
      simp only [ht] at hi ⊢
      rw [if_neg fun h => hi h.2]
  | STRING =>
      simp only [ht] at hi ⊢
      rw [if_neg hi]
  | SPECIAL =>
      simp only
      by_contra hn
      exact hf (.inr (.inr ⟨ht, hn⟩))

/-- The first intermediate line is one for the command. -/
theorem Intermediate.verdict {c : Curr M.Rsp} {l : LuaString} (h : Intermediate c l) :
    Ril.verdict c none l = .intermediate l := by
  unfold Intermediate at h
  unfold Ril.verdict
  cases ht : c.cmdtype with
  | NORESULT | SPECIAL => simp only [ht] at h
  | NUMBERIC =>
      simp only [ht] at h ⊢
      rw [if_pos ((numeric_iff l).mpr h)]
  | SLINE | MLINE =>
      simp only [ht] at h ⊢
      rw [if_pos ⟨trivial, h⟩]
  | STRING =>
      simp only [ht] at h ⊢
      rw [if_pos h]

/-- A line that comes while no long answer is collected and no data filter is set. -/
theorem procatc_line {c : Curr M.Rsp} {l : LuaString} {s : State M} (hc : s.curr = some c)
    (hf : s.urcfilter = none) (hl : l ≠ []) (hcol : collecting s = none ∨ l = lua "OK") :
    procatc (received l) s = response c l s := by
  have ht : filtered (received l) s = response c l s := by
    simp only [filtered, hf, text, received, Receive.chomp_append, hl, if_false, hc]
  unfold procatc
  split
  · rename_i d hd
    obtain hn | rfl := hcol
    · rw [hn] at hd
      cases hd
    · rw [if_neg (by decide), ht]
  · exact ht

/-- A final result is handed to the callback. -/
theorem response_final {c : Curr M.Rsp} {f : LuaString} {ms : List LuaString} {s : State M}
    (hf : Final c f) (hr : ¬Reserved c f) (hs : s.interdata = joined ms) :
    response c f s =
      rsp c (outcome c ms f).1 (outcome c ms f).2.1 (outcome c ms f).2.2 s := by
  by_cases hok : f = lua "OK" ∨ f = lua "SHUT OK"
  · have hi : isError c f = false := by
      rw [← Bool.not_eq_true, isError_iff]
      rintro (h | ⟨h, -⟩)
      · obtain rfl | rfl := hok <;> exact absurd h (by decide)
      · obtain rfl | rfl := hok <;> exact absurd h (by decide)
    simp only [response, hi, Bool.false_eq_true, if_false, hok, if_true, outcome, hs]
  by_cases he : f = lua "ERROR" ∨ Reported f
  · have hdata : (if isError c f then lua "ERROR" else f) = lua "ERROR" := by
      obtain rfl | he := he
      · exact ite_self _
      · rw [if_pos ((isError_iff c f).mpr (.inl he))]
    have hn : ¬(lua "ERROR" = lua "OK" ∨ lua "ERROR" = lua "SHUT OK") := by decide
    simp only [response, hdata, hn, if_false, true_or, if_true, outcome, hok, he, hs]
  · have hsp : c.cmdtype = .SPECIAL ∧ specialVerdict c f ≠ .urc := (hf.resolve_left hok).resolve_left he
    have hv : verdict c s.interdata f = specialVerdict c f := by simp only [verdict, hsp.1]
    rw [response_plain hok he hr, hv]
    simp only [outcome, hok, he, if_false]
    cases hs' : specialVerdict c f with
    | urc => exact absurd hs' hsp.2
    | intermediate d => exact absurd hs' (specialVerdict_ne_intermediate c f d)
    | result success d => rw [hs]
    | address d => rfl

/-! ## Sessions -/

/-- What arrives or happens until the command is answered. -/
inductive Item (M : Modules)
  /-- A line of the answer before the final result. -/
  | own (m : LuaString)
  | alien (u : LuaString)
  | final (f : LuaString)
  /-- Anything else, such as the request for the data of the command. -/
  | act (a : Act M)

def event : Item M → Act M
  | .own l | .alien l | .final l => .line (received l)
  | .act a => a

/-- The channel, with the lines of the answer that have come. -/
structure Session (M : Modules) where
  ril : State M
  got : List LuaString

def record : Item M → List LuaString → List LuaString
  | .own m, got => got ++ [m]
  | .alien _, got | .final _, got | .act _, got => got

def advance (w : Session M) (x : Item M) : Option (Session M) :=
  (step w.ril (event x)).map fun s => ⟨s, record x w.got⟩

def own : Item M → Option LuaString
  | .own m => some m
  | .alien _ | .final _ | .act _ => none

/-- What may come between the lines of an answer. -/
def Between (c : Curr M.Rsp) : Item M → Prop
  | .own _ => True
  | .alien u => Unsolicited c u
  | .final _ => False
  | .act a => ∀ d, a = .line d → d = lua "> "

/-- What is done with an item: lines of the answer are kept for the callback, which the final
result is given to with all of them; all other lines are handed to `urc`. -/
def Told (c : Curr M.Rsp) (w : Session M) : Item M → Prop
  | .own m => procatc (received m) w.ril = some { w.ril with interdata := joined (w.got ++ [m]) }
  | .alien u => procatc (received u) w.ril = urc u w.ril
  | .final f => procatc (received f) w.ril =
      rsp c (outcome c w.got f).1 (outcome c w.got f).2.1 (outcome c w.got f).2.2 w.ril
  | .act _ => True

/-- A long answer of which the first line has come. -/
def Long (c : Curr M.Rsp) (w : Session M) : Prop := c.cmdtype = .MLINE ∧ w.got ≠ []

/-- Lines that end any command are only its own, no data filter takes a line, and what
comes inside a long answer is its next line or `OK`. -/
def Heeds (c : Curr M.Rsp) (w : Session M) : Item M → Prop
  | .own m => w.got = [] → w.ril.urcfilter = none ∧ ¬Reserved c m
  | .alien u => w.ril.urcfilter = none ∧ ¬Reserved c u ∧ ¬Long c w
  | .final f => w.ril.urcfilter = none ∧ ¬Reserved c f ∧ (Long c w → f = lua "OK")
  | .act a => ∀ d, a = .line d → w.ril.urcfilter = none ∧ ¬Long c w

instance (c : Curr M.Rsp) (w : Session M) : Decidable (Long c w) := by
  unfold Long
  infer_instance

instance (f : Option M.Filter) : Decidable (f = none) :=
  decidable_of_iff _ Option.isNone_iff_eq_none

/-- What an action has to meet if it is a line. -/
instance (a : Act M) (P : Prop) [Decidable P] : Decidable (∀ d, a = .line d → P) :=
  match a with
  | .line _ => decidable_of_iff P ⟨fun h _ _ => h, fun h => h _ rfl⟩
  | .task _ | .read | .finish | .delayfunc => isTrue (by intro d h; cases h)

instance (c : Curr M.Rsp) (w : Session M) (x : Item M) : Decidable (Heeds c w x) :=
  match x with
  | .own _ | .alien _ | .final _ | .act _ => by
      unfold Heeds
      infer_instance

/-- The command is outstanding, and the lines of its answer are kept. -/
structure Waits (c : Curr M.Rsp) (s : State M) (w : Session M) : Prop where
  curr : w.ril.curr = some c
  kept : w.ril.interdata = joined w.got
  unanswered : answered w.ril.trace = answered s.trace

theorem answered_data {ρ : Type} (tr : List (Event ρ)) (d : LuaString) :
    answered (tr ++ [.data d]) = answered tr := by
  simp [answered]

theorem answered_answer {ρ : Type} (tr : List (Event ρ)) (e : Entry ρ) (f : Callback ρ) :
    answered (tr ++ [.answer e f]) = answered tr ++ [e] := by
  simp [answered]

theorem sendat_of_curr {s : State M} (h : s.curr.isSome) : sendat s = s := by
  rw [sendat, if_pos (.inr (.inr (.inl h)))]

/-- Other modules leave the lines of an answer alone. -/
theorem ran_interdata {c : Curr M.Rsp} {s : State M} (h : s.curr = some c)
    (r : Ran M.Outside M.Rsp M.Urc) : (ran r s).interdata = s.interdata := by
  have hr : (ran r s).curr = some c ∧ (ran r s).interdata = s.interdata := by
    apply ran_induct (P := fun t => t.curr = some c ∧ t.interdata = s.interdata)
    · intro t out rilcmd rsptable formtab urctable ht
      exact ht
    · intro t r ht
      have hc : t.curr.isSome := by rw [ht.1, Option.isSome_some]
      rw [request, sendat_of_curr]
      · exact ht
      · exact hc
    · exact ⟨h, rfl⟩
  exact hr.2

theorem Waits.ran {c : Curr M.Rsp} {s : State M} {w : Session M} (h : Waits c s w)
    (r : Ran M.Outside M.Rsp M.Urc) : Waits c s ⟨Ril.ran r w.ril, w.got⟩ where
  curr := (ran_outstanding h.curr r).1
  kept := (ran_interdata h.curr r).trans h.kept
  unanswered := by
    dsimp only
    rw [(ran_outstanding h.curr r).2, h.unanswered]

theorem Waits.urc {c : Curr M.Rsp} {s t : State M} {w : Session M} (h : Waits c s w)
    {u : LuaString} (hu : Ril.urc u w.ril = some t) : Waits c s ⟨t, w.got⟩ := by
  obtain rfl | rfl | ⟨f, head, r, -, -, rfl⟩ := urc_cases hu
  · exact ⟨h.curr, h.kept, h.unanswered⟩
  · exact ⟨h.curr, h.kept, h.unanswered⟩
  · have hr := h.ran r.1
    exact ⟨hr.curr, hr.kept, hr.unanswered⟩

theorem Waits.collecting {c : Curr M.Rsp} {s : State M} {w : Session M} (h : Waits c s w) :
    Ril.collecting w.ril = if c.cmdtype = .MLINE then joined w.got else none := by
  rw [Ril.collecting, h.curr, h.kept]
  cases joined w.got with
  | none => simp
  | some d => rfl

theorem Waits.collecting_eq_none {c : Curr M.Rsp} {s : State M} {w : Session M} (h : Waits c s w)
    (hl : ¬Long c w) : Ril.collecting w.ril = none := by
  rw [h.collecting]
  split
  · rename_i ht
    by_contra hn
    exact hl ⟨ht, fun hg => hn (joined_eq_none.mpr hg)⟩
  · rfl

theorem prompt_line {c : Curr M.Rsp} {s t : State M} {w : Session M} (h : Waits c s w)
    (hf : w.ril.urcfilter = none) (hl : ¬Long c w) (ht : procatc (lua "> ") w.ril = some t) :
    Waits c s ⟨t, w.got⟩ := by
  have hp : prompt c w.ril = some t := by
    rw [← ht, procatc, h.collecting_eq_none hl]
    have hc : chomp (lua "> ") = lua "> " := by decide
    have he : isError c (lua "> ") = false := by
      rw [← Bool.not_eq_true, isError_iff]
      rintro (h | ⟨h, -⟩)
      · exact absurd h (by decide)
      · exact absurd h (by decide)
    have hok : ¬(lua "> " = lua "OK" ∨ lua "> " = lua "SHUT OK") := by decide
    have hn : ¬(lua "> " = lua "ERROR" ∨ lua "> " = lua "NO ANSWER" ∨
      lua "> " = lua "NO DIALTONE") := by decide
    have hne : ¬lua "> " = [] := by decide
    simp only [filtered, hf, text, hc, hne, if_false, h.curr, response, he, Bool.false_eq_true,
      hok, hn, if_true]
  unfold prompt at hp
  have hw (d : LuaString) : Waits c s ⟨write d w.ril, w.got⟩ :=
    ⟨h.curr, h.kept, (answered_data _ d).trans h.unanswered⟩
  split at hp
  · obtain ⟨d, -, rfl⟩ := Option.map_eq_some_iff.mp hp
    exact hw _
  split at hp
  · obtain ⟨d, -, rfl⟩ := Option.map_eq_some_iff.mp hp
    exact hw d
  · cases hp
    exact h

/-- What is no line of the answer leaves the command outstanding. -/
theorem Waits.act {c : Curr M.Rsp} {s t : State M} {w : Session M} (h : Waits c s w)
    {a : Act M} (hb : Between c (.act a)) (hh : Heeds c w (.act a))
    (ht : step w.ril a = some t) : Waits c s ⟨t, w.got⟩ := by
  have hc : w.ril.curr.isSome := by rw [h.curr, Option.isSome_some]
  cases a with
  | task a =>
      simp only [step] at ht
      split at ht
      · cases ht
      · obtain ⟨r, -, rfl⟩ := Option.map_eq_some_iff.mp ht
        exact h.ran r
  | read =>
      simp only [step] at ht
      split at ht
      · cases ht
      · cases ht
        exact ⟨h.curr, h.kept, h.unanswered⟩
  | line d =>
      obtain rfl := hb d rfl
      simp only [step] at ht
      split at ht
      · exact prompt_line h (hh _ rfl).1 (hh _ rfl).2 ht
      · cases ht
  | finish =>
      simp only [step] at ht
      split at ht
      · cases ht
        rw [sendat_of_curr]
        · exact ⟨h.curr, h.kept, h.unanswered⟩
        · exact hc
      · cases ht
  | delayfunc =>
      simp only [step] at ht
      split at ht
      · cases ht
        rw [sendat_of_curr]
        · exact ⟨h.curr, h.kept, h.unanswered⟩
        · exact hc
      · cases ht

/-- A line of the answer is kept. -/
theorem own_told {c : Curr M.Rsp} {s : State M} {w : Session M} (h : Waits c s w)
    {ms : List LuaString} {f m : LuaString} (ha : Answer c ms f) (hp : w.got ++ [m] <+: ms)
    (hh : Heeds c w (.own m)) : Told c w (.own m) := by
  obtain ⟨rest, rfl⟩ := hp
  by_cases hg : w.got = []
  · rw [hg, List.nil_append] at ha
    obtain ⟨hne, hi, hf⟩ := ha.first m (by simp)
    have hcol : collecting w.ril = none := h.collecting_eq_none fun hl => hl.2 hg
    have hnone : w.ril.interdata = none := by rw [h.kept, hg, joined, List.foldl_nil]
    have hnok : ¬(m = lua "OK" ∨ m = lua "SHUT OK") := fun hok => hf (.inl hok)
    have hnerr : ¬(m = lua "ERROR" ∨ Reported m) := fun he => hf (.inr (.inl he))
    rw [Told, procatc_line h.curr (hh hg).1 hne (.inl hcol), response_plain hnok hnerr (hh hg).2,
      hnone, hi.verdict, hg]
    rfl
  · have hm : c.cmdtype = .MLINE := by
      by_contra hn
      have hlen := ha.single hn
      have := List.length_pos_iff.mpr hg
      simp only [List.length_append, List.length_singleton] at hlen
      omega
    have hok : m ≠ lua "OK" := by
      refine ha.rest m ?_
      obtain ⟨g, got, hgot⟩ := List.exists_cons_of_ne_nil hg
      simp [hgot]
    obtain ⟨d, hd⟩ := Option.ne_none_iff_exists'.mp (mt joined_eq_none.mp hg)
    have hcol : collecting w.ril = some d := by rw [h.collecting, if_pos hm, hd]
    have hdata : received m ≠ lua "OK\r\n" := by
      intro he
      exact hok (List.append_cancel_right (he : m ++ lua "\r\n" = lua "OK" ++ lua "\r\n"))
    rw [Told, procatc, hcol]
    dsimp only
    rw [if_pos hdata]
    simp only [received, Receive.chomp_append, joined_concat, hd]

theorem alien_told {c : Curr M.Rsp} {s : State M} {w : Session M} (h : Waits c s w)
    {u : LuaString} (hu : Unsolicited c u) (hh : Heeds c w (.alien u)) : Told c w (.alien u) := by
  obtain ⟨hf, hr, hl⟩ := hh
  have hnok : ¬(u = lua "OK" ∨ u = lua "SHUT OK") := fun hok => hu.2.2 (.inl hok)
  have hnerr : ¬(u = lua "ERROR" ∨ Reported u) := fun he => hu.2.2 (.inr (.inl he))
  rw [Told, procatc_line h.curr hf hu.1 (.inl (h.collecting_eq_none hl)),
    response_plain hnok hnerr hr, hu.verdict]

theorem Final.ne_nil {c : Curr M.Rsp} {f : LuaString} (h : Final c f) : f ≠ [] := by
  rintro rfl
  obtain h | h | ⟨-, h⟩ := h
  · exact absurd h (by decide)
  · exact absurd h (by decide)
  · refine h ?_
    have ha : smatch1 [] (lua "%d+%.%d+%.%d+%.%d+") = none := by decide
    have hl : smatch2 [] (lua "(%d), *([%u%d :]+)") = none := by decide
    have hs : (smatch [] (lua "^SSL&%d,")).isSome = false := by decide
    have hd : ¬([] : LuaString) = lua "+PDP: DEACT" := by decide
    simp only [specialVerdict, linkVerdict, ha, hl, hs, hd, if_false, Bool.false_eq_true, ite_self]

theorem final_told {c : Curr M.Rsp} {s : State M} {w : Session M} (h : Waits c s w)
    {f : LuaString} (hf : Final c f) (hh : Heeds c w (.final f)) : Told c w (.final f) := by
  obtain ⟨hu, hr, hl⟩ := hh
  have hcol : collecting w.ril = none ∨ f = lua "OK" := by
    by_cases hlong : Long c w
    · exact .inr (hl hlong)
    · exact .inl (h.collecting_eq_none hlong)
  rw [Told, procatc_line h.curr hu hf.ne_nil hcol, response_final hf hr h.kept]

/-- Lines are only taken while the port is read. -/
theorem step_line {s t : State M} {d : LuaString} (h : step s (.line d) = some t) :
    procatc d s = some t := by
  simp only [step] at h
  split at h
  · exact h
  · cases h

/-- Before the final result the command stays outstanding. -/
theorem Waits.advance {c : Curr M.Rsp} {s : State M} {w w' : Session M} {x : Item M}
    (h : Waits c s w) (hb : Between c x) (hh : Heeds c w x) (ht : Told c w x)
    (hw : Ril.advance w x = some w') : Waits c s w' := by
  obtain ⟨t, hs, rfl⟩ := Option.map_eq_some_iff.mp hw
  cases x with
  | own m =>
      have hp := step_line hs
      rw [ht] at hp
      cases hp
      exact ⟨h.curr, rfl, h.unanswered⟩
  | alien u =>
      have hp := step_line hs
      rw [ht] at hp
      exact h.urc hp
  | final f => exact hb.elim
  | act a => exact h.act hb hh hs

/-- The callback runs once. -/
theorem answered_rsp {c : Curr M.Rsp} {s t : State M} {success : Bool}
    {respdata interdata : Option LuaString} (hc : s.curr = some c)
    (ht : rsp c success respdata interdata s = some t) :
    t.curr = none ∧ answered t.trace = answered s.trace ++ [c.entry] := by
  obtain ⟨s', u, hs', rfl, hu⟩ := rsp_cases ht
  have hc' : s'.curr = some c := by rw [hs', hc]
  have hu : u.trace = s'.trace := by
    obtain rfl | ⟨f, r, -, rfl⟩ := hu
    · rfl
    · exact (ran_outstanding hc' r).2
  refine ⟨rfl, ?_⟩
  dsimp only
  rw [hu, hs', answered_answer]

theorem record_filterMap (x : Item M) (got : List LuaString) :
    record x got = got ++ [x].filterMap own := by
  cases x <;> simp [record, own]

theorem advance_got {w w' : Session M} {x : Item M} (h : advance w x = some w') :
    w'.got = w.got ++ [x].filterMap own := by
  obtain ⟨t, -, rfl⟩ := Option.map_eq_some_iff.mp h
  exact record_filterMap x w.got

/-- What is told of the items, from any moment of the answer on. -/
theorem Waits.told {c : Curr M.Rsp} {s : State M} {w : Session M} (h : Waits c s w)
    {xs : List (Item M)} {f : LuaString} (ha : Answer c (w.got ++ xs.filterMap own) f)
    (hb : ∀ x ∈ xs, Between c x) (hm : Meets Ril.advance (Heeds c) w (xs ++ [.final f])) :
    Meets Ril.advance (Told c) w (xs ++ [.final f]) ∧
      ∀ w', run Ril.advance w (xs ++ [.final f]) = some w' →
        w'.ril.curr = none ∧ w'.got = w.got ++ xs.filterMap own ∧
          answered w'.ril.trace = answered s.trace ++ [c.entry] := by
  induction xs generalizing w with
  | nil =>
      have hnext (w' : Session M) (hw : Ril.advance w (.final f) = some w') :
          Told c w (.final f) := final_told h ha.final (hm w' hw).1
      refine ⟨fun w' hw => ⟨hnext w' hw, trivial⟩, fun w' hr => ?_⟩
      obtain ⟨v, hv, hvw⟩ := run_cons_eq_some.mp hr
      cases hvw
      refine ⟨?_, advance_got hv, ?_⟩
      all_goals
        have ht := hnext w' hv
        obtain ⟨t, hs, rfl⟩ := Option.map_eq_some_iff.mp hv
        have hp := step_line hs
        rw [ht] at hp
        have hr := answered_rsp h.curr hp
        rw [h.unanswered] at hr
      · exact hr.1
      · exact hr.2
  | cons x xs ih =>
      have hbx : Between c x := hb x List.mem_cons_self
      have hxs : ∀ y ∈ xs, Between c y := fun y hy => hb y (List.mem_cons_of_mem x hy)
      have hnext (w' : Session M) (hw : Ril.advance w x = some w') : Told c w x := by
        have hh := (hm w' hw).1
        cases x with
        | own m =>
            refine own_told h ha ?_ hh
            simp [own]
        | alien u => exact alien_told h hbx hh
        | final g => exact hbx.elim
        | act a => trivial
      have hgot (w' : Session M) (hw : Ril.advance w x = some w') :
          w'.got ++ xs.filterMap own = w.got ++ (x :: xs).filterMap own := by
        rw [advance_got hw, List.append_assoc, ← List.filterMap_append, List.singleton_append]
      have hrest (w' : Session M) (hw : Ril.advance w x = some w') :=
        ih (h.advance hbx (hm w' hw).1 (hnext w' hw) hw) (by rwa [hgot w' hw]) hxs (hm w' hw).2
      refine ⟨fun w' hw => ⟨hnext w' hw, (hrest w' hw).1⟩, fun v hv => ?_⟩
      obtain ⟨w', hw, hr⟩ := run_cons_eq_some.mp hv
      rw [← hgot w' hw]
      exact (hrest w' hw).2 v hr

/-- The start of a session, up to a request. -/
def opening (cmd : LuaString) : List (Act silent) :=
  [.read, .line (received (lua "RDY")), .finish, .read, .line (received (lua "OK")), .finish,
    .read, .line (received (lua "OK")), .finish, .task ⟨cmd, none, some (), none⟩, .read]

/-- The state in which the items arrive, and the command that is outstanding then. -/
def opened (cmd : LuaString) : Option (State silent × Curr silent.Rsp) :=
  (run step (boot silent ()) (opening cmd)).bind fun s => s.curr.map (s, ·)

theorem opened_curr {cmd : LuaString} {p : State silent × Curr silent.Rsp}
    (h : opened cmd = some p) : p.1.curr = some p.2 := by
  obtain ⟨t, -, ht⟩ := Option.bind_eq_some_iff.mp h
  obtain ⟨c, hc, rfl⟩ := Option.map_eq_some_iff.mp ht
  exact hc

/-- An answer to `AT+CSQ` between reports on the network and on a message. -/
def reported : List (Item silent) :=
  [.alien (lua "+CREG: 1"), .own (lua "+CSQ: 23,99"), .act .finish, .act .read,
    .alien (lua "+CMTI: \"SM\",1")]

end LuatAir200.Ril
