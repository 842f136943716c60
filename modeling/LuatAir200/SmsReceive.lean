import LuatAir200.Fifo
import LuatAir200.Machine
import LuatAir200.SmsPdu

/-!
# Receiving short messages

The side of `sms.lua` that receives: positions are reported by the modem, wait in `tnewsms`,
and are read and deleted one after the other. The commands of other modules are between
them in `ril`. The user's handler may make any calls of the sending side.
-/
namespace LuatAir200.SmsReceive
open Lua Sms Machine

inductive Cmd
  | cmgr (pos : LuaString)
  | cmgd (pos : LuaString)
  | other (cmd : LuaString)
deriving DecidableEq

/-- The arguments of `SMS_READ_CNF`; `none` is `nil`. -/
structure ReadCnf where
  success : Bool
  convnum : Option LuaString
  data : LuaString
  pos : LuaString
  t : LuaString
  alpha : LuaString
  total : Option ℕ
  idx : Option ℕ
  isn : Option ℕ
deriving DecidableEq

inductive Msg
  | SMS_NEW_MSG_IND (pos : Option LuaString)
  | SMS_READ_CNF (r : ReadCnf)
  | SMS_DELETE_CNF (success : Bool)
  | SMS_READY
deriving DecidableEq

/-- The arguments of the user's handler. -/
structure News where
  num : LuaString
  data : LuaString
  datetime : LuaString
deriving DecidableEq

structure State where
  ready : Bool
  tnewsms : List LuaString
  newsmscb : Bool
  ril : Fifo Cmd
  requests : List Cmd
  qmsg : List Msg
  /-- Is the user's handler running? -/
  incb : Bool
  log : List News
  /-- The positions that the modem has reported. -/
  reported : List LuaString

def boot : State where
  ready := false
  tnewsms := []
  newsmscb := false
  ril := .empty
  requests := []
  qmsg := []
  incb := false
  log := []
  reported := []

def req (c : Cmd) (s : State) : State :=
  { s with ril := s.ril.push c, requests := s.requests ++ [c] }

def dispatch (m : Msg) (s : State) : State := { s with qmsg := s.qmsg ++ [m] }

/-- `read` and `delete`; a position is a string and never equal to the number 0. -/
def read (pos : Option LuaString) (s : State) : State :=
  match pos with
  | some p => if s.ready then req (.cmgr p) s else s
  | none => s

def delete (pos : Option LuaString) (s : State) : State :=
  match pos with
  | some p => if s.ready then req (.cmgd p) s else s
  | none => s

def readsms (s : State) : State := if s.tnewsms ≠ [] then read s.tnewsms.head? s else s

/-- Inserting `nil` changes nothing. -/
def newsms (pos : Option LuaString) (s : State) : State :=
  let s := { s with tnewsms := s.tnewsms ++ pos.toList }
  if s.tnewsms.length = 1 then readsms s else s

/-- `num` without the code of the country. -/
def localnum (num : LuaString) : LuaString :=
  match smatch1 num (lua "^([%+]*86)") with
  | some d => num.drop d.length
  | none => num

/-- `decode` is `common.ucs2betogb2312`. -/
def readcnf (decode : LuaString → LuaString) (r : ReadCnf) (s : State) : Option State := do
  let num ← r.convnum
  let s := delete s.tnewsms.head? s
  let s := { s with tnewsms := s.tnewsms.tail }
  let bins ← hexstobins r.data
  some (if s.newsmscb then
      { s with incb := true, log := s.log ++ [⟨localnum num, decode bins, r.t⟩] }
    else readsms s)

/-- The message in the answer to `AT+CMGR`. -/
def cmgr (pos : LuaString) (intermediate : Option LuaString) : Option ReadCnf :=
  match intermediate.bind fun i => smatch i (lua "+CMGR:%s*(%d),(.*),%s*(%d+)\r\n(%x+)") with
  | some [_, alpha, len, pdu] =>
      (Sms.decode pdu (tonumber len)).map fun d =>
        ⟨true, d.convnum, d.data, pos, d.t, alpha, d.total, d.idx, d.isn⟩
  | _ => some ⟨true, some [], [], pos, [], [], none, none, none⟩

def rsp (cmd : Cmd) (success : Bool) (intermediate : Option LuaString) (s : State) :
    Option State :=
  match cmd with
  | .cmgr pos =>
      if success then (cmgr pos intermediate).map fun r => dispatch (.SMS_READ_CNF r) s else some s
  | .cmgd _ => some (dispatch (.SMS_DELETE_CNF success) s)
  | .other _ => some s

/-- The handler of the URCs that start with `pfx`. -/
def urc (data pfx : LuaString) (s : State) : State :=
  if data = lua "SMS READY" then
    dispatch .SMS_READY (req (.other (lua "AT+CSCS=\"UCS2\"")) (req (.other (lua "AT+CMGF=0"))
      { s with ready := true }))
  else if pfx = lua "+CMTI" then
    let pos := smatch1 (data.drop pfx.length) (lua "(%d+)")
    dispatch (.SMS_NEW_MSG_IND pos) { s with reported := s.reported ++ pos.toList }
  else s

inductive Act
  | urc (data : LuaString)
  | regnewsmscb (on : Bool)
  /-- Another module, or the other side of this one, makes a request. -/
  | request (cmd : LuaString)
  | sendat
  | respond (success : Bool) (intermediate : Option LuaString)
  | msg
  /-- The user's handler returns. -/
  | ret

variable (decode : LuaString → LuaString)

/-- The handlers of the internal messages; the other ones belong to the sending side. -/
def handle (m : Msg) (s : State) : Option State :=
  match m with
  | .SMS_NEW_MSG_IND pos => some (newsms pos s)
  | .SMS_READ_CNF r => readcnf decode r s
  | .SMS_DELETE_CNF _ | .SMS_READY => some s

/-- One action. Events wait until the handler of the event before has returned. -/
def step (s : State) : Act → Option State
  | .urc data =>
      if s.incb then none
      else some (match smatch1 data (lua "(%+*[%u%d& ]+)") with
        | some pfx => urc data pfx s
        | none => s)
  | .regnewsmscb on => some { s with newsmscb := on }
  | .request cmd => some (req (.other cmd) s)
  | .sendat => (s.ril.start fun _ => true).map fun q => { s with ril := q }
  | .respond success intermediate =>
      match s.incb, s.ril.current with
      | false, some c => rsp c success intermediate { s with ril := s.ril.finish }
      | _, _ => none
  | .msg =>
      match s.incb, s.qmsg with
      | false, m :: ms => handle decode m { s with qmsg := ms }
      | _, _ => none
  | .ret => if s.incb then some (readsms { s with incb := false }) else none

/-! ## The chain of reads -/

def Cmd.isCmgr : Cmd → Bool
  | .cmgr _ => true
  | _ => false

def Cmd.isCmgd : Cmd → Bool
  | .cmgd _ => true
  | _ => false

/-- The reported positions whose message is still queued. -/
def announced (q : List Msg) : List LuaString :=
  q.flatMap fun m => match m with
    | .SMS_NEW_MSG_IND pos => pos.toList
    | _ => []

/-- The read messages whose confirmation is still queued. -/
def confirmed (q : List Msg) : List ReadCnf :=
  q.flatMap fun m => match m with
    | .SMS_READ_CNF r => [r]
    | _ => []

def outstanding (s : State) : List Cmd := s.ril.items.filter Cmd.isCmgr

/-- What feeds the chain: nothing waits, the first position is being read, or it has been
read, or the user's handler is running. -/
inductive Chain (s : State) : Prop
  | empty : s.tnewsms = [] → outstanding s = [] → confirmed s.qmsg = [] → s.incb = false → Chain s
  | reading (p : LuaString) (rest : List LuaString) : s.tnewsms = p :: rest →
      outstanding s = [.cmgr p] → confirmed s.qmsg = [] → s.incb = false → Chain s
  | read (p : LuaString) (rest : List LuaString) (r : ReadCnf) : s.tnewsms = p :: rest →
      outstanding s = [] → confirmed s.qmsg = [r] → r.pos = p → s.incb = false → Chain s
  | calling : outstanding s = [] → confirmed s.qmsg = [] → s.incb = true → Chain s

/-- The number of positions that have been read, when `k` are done with. -/
def readCount (k : ℕ) (s : State) : ℕ := if s.incb = true ∨ s.tnewsms = [] then k else k + 1

/-- The positions in the order of their reports: `k` of them have been read and deleted, the
next one has been read, and the others have not. -/
structure InOrder (k : ℕ) (s : State) : Prop where
  waiting : s.tnewsms ++ announced s.qmsg = s.reported.drop k
  reads : s.requests.filter Cmd.isCmgr = (s.reported.take (readCount k s)).map .cmgr
  deletes : s.requests.filter Cmd.isCmgd = (s.reported.take k).map .cmgd

/-- What the code owes to the reported positions. -/
structure Fed (s : State) : Prop where
  order : ∃ k ≤ s.reported.length, InOrder k s
  chain : s.incb = false → ∀ p ∈ s.tnewsms.head?,
    .cmgr p ∈ s.ril.items ∨ ∃ r, .SMS_READ_CNF r ∈ s.qmsg ∧ r.pos = p

/-- Positions are reported after `SMS READY` and with a number, and every message can be
read. -/
def Readable (s : State) : Act → Prop
  | .urc data =>
      smatch1 data (lua "(%+*[%u%d& ]+)") = some (lua "+CMTI") →
        s.ready = true ∧ (smatch1 (data.drop 5) (lua "(%d+)")).isSome
  | .respond success _ => ∀ c ∈ s.ril.current, c.isCmgr → success = true
  | _ => True

instance (s : State) : (a : Act) → Decidable (Readable s a)
  | .urc _ => by
      unfold Readable
      infer_instance
  | .respond _ _ => by
      unfold Readable
      infer_instance
  | .regnewsmscb _ | .request _ | .sendat | .msg | .ret => isTrue trivial

/-- Before the modem is ready nothing is reported, and every report has a number. -/
structure Timely (s : State) : Prop where
  ready : s.ready = false → s.tnewsms = [] ∧ announced s.qmsg = []
  named : .SMS_NEW_MSG_IND none ∉ s.qmsg

structure Kept (s : State) : Prop where
  order : ∃ k ≤ s.reported.length, InOrder k s
  chain : Chain s
  timely : Timely s

theorem Kept.fed {s : State} (h : Kept s) : Fed s := by
  refine ⟨h.order, fun hcb p hp => ?_⟩
  cases h.chain with
  | empty hn =>
      rw [hn] at hp
      cases hp
  | reading q rest hn ho =>
      rw [hn] at hp
      cases hp
      apply Or.inl
      have hm : Cmd.cmgr p ∈ outstanding s := by
        rw [ho]
        exact List.mem_singleton_self _
      exact List.mem_of_mem_filter hm
  | read q rest r hn _ hc hr =>
      rw [hn] at hp
      cases hp
      have hm : r ∈ confirmed s.qmsg := by
        rw [hc]
        exact List.mem_singleton_self r
      obtain ⟨m, hmem, hin⟩ := List.mem_flatMap.mp hm
      cases m with
      | SMS_READ_CNF r' =>
          cases List.mem_singleton.mp hin
          exact .inr ⟨r, hmem, hr⟩
      | SMS_NEW_MSG_IND _ | SMS_DELETE_CNF _ | SMS_READY => cases hin
  | calling _ _ hc =>
      rw [hcb] at hc
      cases hc

theorem kept_boot : Kept boot where
  order := ⟨0, Nat.le_refl 0, rfl, rfl, rfl⟩
  chain := .empty rfl rfl rfl rfl
  timely := ⟨fun _ => ⟨rfl, rfl⟩, by rintro ⟨⟩⟩

/-- No position is being read: `k` have been read and deleted. -/
structure Between (k : ℕ) (s : State) : Prop where
  le : k ≤ s.reported.length
  waiting : s.tnewsms ++ announced s.qmsg = s.reported.drop k
  reads : s.requests.filter Cmd.isCmgr = (s.reported.take k).map .cmgr
  deletes : s.requests.filter Cmd.isCmgd = (s.reported.take k).map .cmgd
  outstanding : outstanding s = []
  confirmed : confirmed s.qmsg = []
  incb : s.incb = false
  timely : Timely s

theorem take_succ {s : State} {k : ℕ} {p : LuaString} {ps : List LuaString}
    (h : s.reported.drop k = p :: ps) :
    k + 1 ≤ s.reported.length ∧ s.reported.take (k + 1) = s.reported.take k ++ [p] ∧
      s.reported.drop (k + 1) = ps := by
  have hk : k < s.reported.length := by
    by_contra hn
    rw [List.drop_eq_nil_of_le (by omega)] at h
    cases h
  rw [List.drop_eq_getElem_cons hk, List.cons.injEq] at h
  rw [List.take_succ_eq_append_getElem hk, h.1]
  exact ⟨hk, rfl, h.2⟩

/-- The next read starts, when a position waits. -/
theorem readsms_kept {k : ℕ} {s : State} (h : Between k s) : Kept (readsms s) := by
  rw [readsms]
  cases hn : s.tnewsms with
  | nil =>
      rw [if_neg (by simp)]
      refine ⟨⟨k, h.le, h.waiting, ?_, h.deletes⟩, .empty hn h.outstanding h.confirmed h.incb,
        h.timely⟩
      rw [readCount, if_pos (.inr hn)]
      exact h.reads
  | cons p rest =>
      have hr : s.ready = true := by
        by_contra hf
        have hnil := (h.timely.ready (by simpa using hf)).1
        rw [hn] at hnil
        cases hnil
      have hd : s.reported.drop k = p :: (rest ++ announced s.qmsg) := by
        rw [← h.waiting, hn, List.cons_append]
      obtain ⟨-, ht, -⟩ := take_succ hd
      rw [if_pos (by simp), List.head?_cons, read, if_pos hr]
      refine ⟨⟨k, h.le, h.waiting, ?_, ?_⟩, .reading p rest hn ?_ h.confirmed h.incb,
        ⟨h.timely.ready, h.timely.named⟩⟩
      · show (s.requests ++ [Cmd.cmgr p]).filter Cmd.isCmgr =
          (s.reported.take (readCount k s)).map Cmd.cmgr
        rw [readCount, if_neg (by simp [h.incb, hn]), ht, List.filter_append, h.reads,
          List.map_append]
        rfl
      · show (s.requests ++ [Cmd.cmgr p]).filter Cmd.isCmgd = _
        rw [List.filter_append, h.deletes]
        exact List.append_nil _
      · show (s.ril.push (.cmgr p)).items.filter Cmd.isCmgr = _
        rw [Fifo.items_push, List.filter_append]
        show SmsReceive.outstanding s ++ [Cmd.cmgr p] = _
        rw [h.outstanding]
        rfl

/-! ## What each event does -/

/-- A report is stored behind the others, and the first one is read at once. -/
theorem newsms_kept {p : LuaString} {ms : List Msg} {s : State} (h : Kept s)
    (hcb : s.incb = false) (hm : s.qmsg = .SMS_NEW_MSG_IND (some p) :: ms) :
    Kept (newsms (some p) { s with qmsg := ms }) := by
  obtain ⟨k, hk, hw, hr, hd⟩ := h.order
  have han : announced s.qmsg = p :: announced ms := by
    rw [hm]
    rfl
  have hconf : confirmed s.qmsg = confirmed ms := by
    rw [hm]
    rfl
  have htimely : Timely { s with qmsg := ms, tnewsms := s.tnewsms ++ [p] } := by
    refine ⟨fun hf => ?_, fun hn => h.timely.named (hm ▸ List.mem_cons_of_mem _ hn)⟩
    have hnil := (h.timely.ready hf).2
    rw [han] at hnil
    cases hnil
  have hw' : (s.tnewsms ++ [p]) ++ announced ms = s.reported.drop k := by
    rw [← hw, han, List.append_assoc, List.singleton_append]
  let u : State := { s with qmsg := ms, tnewsms := s.tnewsms ++ [p] }
  show Kept (if (s.tnewsms ++ [p]).length = 1 then readsms u else u)
  cases h.chain with
  | empty hn ho hc _ =>
      rw [if_pos (show (s.tnewsms ++ [p]).length = 1 by rw [hn]; rfl)]
      refine readsms_kept (k := k) ⟨hk, hw', ?_, hd, ho, hconf ▸ hc, hcb, htimely⟩
      rw [readCount, if_pos (.inr hn)] at hr
      exact hr
  | reading q rest hn ho hc _ =>
      rw [if_neg (show ¬ (s.tnewsms ++ [p]).length = 1 by rw [hn]; simp)]
      refine ⟨⟨k, hk, hw', ?_, hd⟩, .reading q (rest ++ [p]) ?_ ho (hconf ▸ hc) hcb, htimely⟩
      · rw [readCount, if_neg (by simp [hcb, hn])] at hr
        rw [readCount, if_neg (show ¬ (s.incb = true ∨ s.tnewsms ++ [p] = []) by simp [hcb])]
        exact hr
      · show s.tnewsms ++ [p] = _
        rw [hn, List.cons_append]
  | read q rest r hn ho hc hp _ =>
      rw [if_neg (show ¬ (s.tnewsms ++ [p]).length = 1 by rw [hn]; simp)]
      refine ⟨⟨k, hk, hw', ?_, hd⟩, .read q (rest ++ [p]) r ?_ ho (hconf ▸ hc) hp hcb, htimely⟩
      · rw [readCount, if_neg (by simp [hcb, hn])] at hr
        rw [readCount, if_neg (show ¬ (s.incb = true ∨ s.tnewsms ++ [p] = []) by simp [hcb])]
        exact hr
      · show s.tnewsms ++ [p] = _
        rw [hn, List.cons_append]
  | calling _ _ hc =>
      rw [hcb] at hc
      cases hc

/-- A message that has been read is deleted, handed to the user, and the next one is read. -/
theorem readcnf_kept {decode : LuaString → LuaString} {r : ReadCnf} {ms : List Msg} {s t : State}
    (h : Kept s) (hcb : s.incb = false) (hm : s.qmsg = .SMS_READ_CNF r :: ms)
    (ht : readcnf decode r { s with qmsg := ms } = some t) : Kept t := by
  obtain ⟨k, hk, hw, hr, hd⟩ := h.order
  have hconf : confirmed s.qmsg = r :: confirmed ms := by
    rw [hm]
    rfl
  cases h.chain with
  | empty _ _ hc | reading _ _ _ _ hc | calling _ hc =>
      rw [hc] at hconf
      cases hconf
  | read p rest r' hn ho hc hp _ =>
      rw [hc, List.cons.injEq] at hconf
      have han : announced s.qmsg = announced ms := by
        rw [hm]
        rfl
      have hdrop : s.reported.drop k = p :: (rest ++ announced ms) := by
        rw [← hw, hn, List.cons_append, han]
      obtain ⟨hk', htake, hdrop'⟩ := take_succ hdrop
      have hready : s.ready = true := by
        by_contra hf
        have hnil := (h.timely.ready (by simpa using hf)).1
        rw [hn] at hnil
        cases hnil
      rw [readCount, if_neg (by simp [hcb, hn]), htake] at hr
      -- the state after the message has been deleted
      let u : State := { req (.cmgd p) { s with qmsg := ms } with tnewsms := rest }
      have hdel : delete s.tnewsms.head? { s with qmsg := ms } =
          req (.cmgd p) { s with qmsg := ms } := by
        rw [hn, List.head?_cons, delete]
        exact if_pos hready
      have htail : (req (.cmgd p) { s with qmsg := ms }).tnewsms.tail = rest := by
        show s.tnewsms.tail = rest
        rw [hn, List.tail_cons]
      have hbetween : Between (k + 1) u := by
        refine ⟨hk', hdrop'.symm, ?_, ?_, ?_, hconf.2.symm, hcb, ?_, ?_⟩
        · show (s.requests ++ [Cmd.cmgd p]).filter Cmd.isCmgr = (s.reported.take (k + 1)).map _
          rw [htake, List.filter_append, hr]
          exact List.append_nil _
        · show (s.requests ++ [Cmd.cmgd p]).filter Cmd.isCmgd = (s.reported.take (k + 1)).map _
          rw [htake, List.filter_append, hd, List.map_append]
          rfl
        · show (s.ril.push (.cmgd p)).items.filter Cmd.isCmgr = _
          rw [Fifo.items_push, List.filter_append]
          exact (List.append_nil _).trans ho
        · intro hf
          rw [show u.ready = s.ready from rfl, hready] at hf
          cases hf
        · exact fun hn => h.timely.named (hm ▸ List.mem_cons_of_mem _ hn)
      simp only [readcnf, Option.bind_eq_bind] at ht
      obtain ⟨num, -, ht⟩ := Option.bind_eq_some_iff.mp ht
      obtain ⟨bins, -, ht⟩ := Option.bind_eq_some_iff.mp ht
      rw [Option.some.injEq, hdel, htail] at ht
      split at ht
      · rw [← ht]
        refine ⟨⟨k + 1, hbetween.le, hbetween.waiting, ?_, hbetween.deletes⟩,
          .calling hbetween.outstanding hbetween.confirmed rfl,
          ⟨hbetween.timely.ready, hbetween.timely.named⟩⟩
        rw [readCount, if_pos (.inl rfl)]
        exact hbetween.reads
      · rw [← ht]
        exact readsms_kept hbetween

/-- The chain does not see other commands, other messages and the log. -/
theorem Kept.frame {s t : State} (h : Kept s) (hn : t.tnewsms = s.tnewsms)
    (hq : t.ril.items.filter Cmd.isCmgr = outstanding s)
    (hr : ∃ cs, t.requests = s.requests ++ cs ∧ cs.filter Cmd.isCmgr = [] ∧
      cs.filter Cmd.isCmgd = [])
    (ha : announced t.qmsg = announced s.qmsg) (hc : confirmed t.qmsg = confirmed s.qmsg)
    (hi : t.incb = s.incb) (hp : t.reported = s.reported) (ht : Timely t) : Kept t := by
  obtain ⟨k, hk, hw, hrd, hd⟩ := h.order
  obtain ⟨cs, hreq, hcr, hcd⟩ := hr
  refine ⟨⟨k, by rw [hp]; exact hk, ?_, ?_, ?_⟩, ?_, ht⟩
  · rw [hn, ha, hp]
    exact hw
  · rw [hreq, List.filter_append, hcr, List.append_nil, readCount, hi, hn, hp]
    exact hrd
  · rw [hreq, List.filter_append, hcd, List.append_nil, hp]
    exact hd
  · cases h.chain with
    | empty h1 h2 h3 h4 => exact .empty (hn.trans h1) (hq.trans h2) (hc.trans h3) (hi.trans h4)
    | reading p rest h1 h2 h3 h4 =>
        exact .reading p rest (hn.trans h1) (hq.trans h2) (hc.trans h3) (hi.trans h4)
    | read p rest r h1 h2 h3 h4 h5 =>
        exact .read p rest r (hn.trans h1) (hq.trans h2) (hc.trans h3) h4 (hi.trans h5)
    | calling h1 h2 h3 => exact .calling (hq.trans h1) (hc.trans h2) (hi.trans h3)

theorem announced_append (q r : List Msg) : announced (q ++ r) = announced q ++ announced r :=
  List.flatMap_append

theorem confirmed_append (q r : List Msg) : confirmed (q ++ r) = confirmed q ++ confirmed r :=
  List.flatMap_append

theorem request_kept {s : State} (h : Kept s) (cmd : LuaString) : Kept (req (.other cmd) s) := by
  refine h.frame rfl ?_ ⟨[.other cmd], rfl, rfl, rfl⟩ rfl rfl rfl rfl
    ⟨h.timely.ready, h.timely.named⟩
  show (s.ril.push (.other cmd)).items.filter Cmd.isCmgr = outstanding s
  rw [Fifo.items_push, List.filter_append]
  exact List.append_nil _

/-- A message that the chain does not read. -/
theorem dispatch_kept {s : State} (h : Kept s) {m : Msg} (ha : announced [m] = [])
    (hc : confirmed [m] = []) (hm : m ≠ .SMS_NEW_MSG_IND none) : Kept (dispatch m s) := by
  have hann : announced (s.qmsg ++ [m]) = announced s.qmsg := by
    rw [announced_append, ha, List.append_nil]
  refine h.frame rfl rfl ⟨[], (List.append_nil _).symm, rfl, rfl⟩ hann ?_ rfl rfl ⟨fun hf => ?_, ?_⟩
  · show confirmed (s.qmsg ++ [m]) = _
    rw [confirmed_append, hc, List.append_nil]
  · exact ⟨(h.timely.ready hf).1, hann.trans (h.timely.ready hf).2⟩
  · intro hn
    obtain hn | hn := List.mem_append.mp hn
    · exact h.timely.named hn
    · exact hm (List.mem_singleton.mp hn).symm

theorem urc_kept {data pfx : LuaString} {s : State} (h : Kept s)
    (hG : pfx = lua "+CMTI" →
      s.ready = true ∧ (smatch1 (data.drop 5) (lua "(%d+)")).isSome) :
    Kept (urc data pfx s) := by
  rw [urc]
  split
  · have hready : Kept { s with ready := true } :=
      h.frame rfl rfl ⟨[], (List.append_nil _).symm, rfl, rfl⟩ rfl rfl rfl rfl
        ⟨by rintro ⟨⟩, h.timely.named⟩
    exact dispatch_kept (request_kept (request_kept hready _) _) rfl rfl (by simp)
  · split
    · rename_i hp
      obtain ⟨hr, hpos⟩ := hG hp
      obtain ⟨p, hpos⟩ := Option.isSome_iff_exists.mp hpos
      subst hp
      rw [show (lua "+CMTI").length = 5 from rfl, hpos]
      obtain ⟨k, hk, hw, hrd, hd⟩ := h.order
      have hann : announced (s.qmsg ++ [.SMS_NEW_MSG_IND (some p)]) = announced s.qmsg ++ [p] :=
        announced_append _ _
      have hconf : confirmed (s.qmsg ++ [.SMS_NEW_MSG_IND (some p)]) = confirmed s.qmsg := by
        rw [confirmed_append]
        exact List.append_nil _
      have hle : readCount k s ≤ s.reported.length := by
        rw [readCount]
        split
        · exact hk
        · rename_i hne
          have hlen := congrArg List.length hw
          rw [List.length_append, List.length_drop] at hlen
          have hpos := List.length_pos_iff.mpr fun hn => hne (.inr hn)
          omega
      refine ⟨⟨k, ?_, ?_, ?_, ?_⟩, ?_, ⟨fun hf => ?_, ?_⟩⟩
      · exact Nat.le_trans hk (by simp [dispatch])
      · show s.tnewsms ++ announced (s.qmsg ++ [.SMS_NEW_MSG_IND (some p)]) =
          (s.reported ++ [p]).drop k
        rw [hann, List.drop_append_of_le_length hk, ← hw, List.append_assoc]
      · show s.requests.filter Cmd.isCmgr = ((s.reported ++ [p]).take (readCount k s)).map _
        rw [List.take_append_of_le_length hle]
        exact hrd
      · show s.requests.filter Cmd.isCmgd = ((s.reported ++ [p]).take k).map _
        rw [List.take_append_of_le_length hk]
        exact hd
      · cases h.chain with
        | empty h1 h2 h3 h4 => exact .empty h1 h2 (hconf.trans h3) h4
        | reading q rest h1 h2 h3 h4 => exact .reading q rest h1 h2 (hconf.trans h3) h4
        | read q rest r h1 h2 h3 h4 h5 => exact .read q rest r h1 h2 (hconf.trans h3) h4 h5
        | calling h1 h2 h3 => exact .calling h1 (hconf.trans h2) h3
      · have hf' : s.ready = false := hf
        rw [hr] at hf'
        cases hf'
      · intro hn
        obtain hn | hn := List.mem_append.mp hn
        · exact h.timely.named hn
        · cases List.mem_singleton.mp hn
    · exact h

/-- The answer to a read becomes a confirmation for the same position. -/
theorem rsp_kept {c : Cmd} {success : Bool} {intermediate : Option LuaString} {s t : State}
    (h : Kept s) (hcb : s.incb = false) (hcur : s.ril.current = some c)
    (hG : c.isCmgr → success = true)
    (ht : rsp c success intermediate { s with ril := s.ril.finish } = some t) : Kept t := by
  have hout : outstanding s =
      [c].filter Cmd.isCmgr ++ s.ril.finish.items.filter Cmd.isCmgr := by
    rw [outstanding, Fifo.items_eq_cons hcur, ← List.filter_append]
    rfl
  have hother (hc : [c].filter Cmd.isCmgr = []) : Kept { s with ril := s.ril.finish } := by
    rw [hc, List.nil_append] at hout
    exact h.frame rfl hout.symm ⟨[], (List.append_nil _).symm, rfl, rfl⟩ rfl rfl rfl rfl
      ⟨h.timely.ready, h.timely.named⟩
  cases c with
  | other cmd =>
      cases ht
      exact hother rfl
  | cmgd pos =>
      cases ht
      exact dispatch_kept (hother rfl) rfl rfl (by simp)
  | cmgr pos =>
      rw [rsp, if_pos (hG rfl)] at ht
      obtain ⟨r, hr, rfl⟩ := Option.map_eq_some_iff.mp ht
      have hpos : r.pos = pos := by
        rw [cmgr] at hr
        split at hr
        · obtain ⟨d, -, rfl⟩ := Option.map_eq_some_iff.mp hr
          rfl
        · cases hr
          rfl
      rw [show [Cmd.cmgr pos].filter Cmd.isCmgr = [.cmgr pos] from rfl,
        List.singleton_append] at hout
      obtain ⟨k, hk, hw, hrd, hd⟩ := h.order
      have hann : announced (s.qmsg ++ [.SMS_READ_CNF r]) = announced s.qmsg := by
        rw [announced_append]
        exact List.append_nil _
      refine ⟨⟨k, hk, ?_, hrd, hd⟩, ?_, ⟨fun hf => ?_, ?_⟩⟩
      · show s.tnewsms ++ announced (s.qmsg ++ [.SMS_READ_CNF r]) = _
        rw [hann]
        exact hw
      · cases h.chain with
        | empty _ ho | read _ _ _ _ ho | calling ho =>
            rw [ho] at hout
            cases hout
        | reading p rest hn ho hc =>
            rw [ho, List.cons.injEq, Cmd.cmgr.injEq] at hout
            refine .read p rest r hn hout.2.symm ?_ (hpos.trans hout.1.symm) hcb
            show confirmed (s.qmsg ++ [.SMS_READ_CNF r]) = [r]
            rw [confirmed_append, hc]
            rfl
      · exact ⟨(h.timely.ready hf).1, hann.trans (h.timely.ready hf).2⟩
      · intro hn
        obtain hn | hn := List.mem_append.mp hn
        · exact h.timely.named hn
        · cases List.mem_singleton.mp hn

theorem kept_step (s : State) (a : Act) (t : State) (h : Kept s) (hG : Readable s a)
    (ht : step decode s a = some t) : Kept t := by
  cases a with
  | urc data =>
      obtain ⟨hcb, he⟩ := Option.ite_none_left_eq_some.mp ht
      cases he
      split
      · rename_i pfx hp
        exact urc_kept h fun hc => hG (hc ▸ hp)
      · exact h
  | regnewsmscb on =>
      cases ht
      exact h.frame rfl rfl ⟨[], (List.append_nil _).symm, rfl, rfl⟩ rfl rfl rfl rfl
        ⟨h.timely.ready, h.timely.named⟩
  | request cmd =>
      cases ht
      exact request_kept h cmd
  | sendat =>
      obtain ⟨q, hq, rfl⟩ := Option.map_eq_some_iff.mp ht
      have hitems : q.items = s.ril.items := by
        obtain he | ⟨c, hf, -⟩ := Fifo.start_cases hq
        · exact he
        · cases hf
      exact h.frame rfl (by rw [hitems]; rfl) ⟨[], (List.append_nil _).symm, rfl, rfl⟩ rfl rfl rfl
        rfl ⟨h.timely.ready, h.timely.named⟩
  | respond success intermediate =>
      simp only [step] at ht
      split at ht
      · rename_i c hcb hcur
        exact rsp_kept h hcb hcur (hG c hcur) ht
      · cases ht
  | msg =>
      simp only [step] at ht
      split at ht
      · rename_i m ms hcb hm
        have hpop (ha : announced [m] = []) (hc : confirmed [m] = []) :
            Kept { s with qmsg := ms } := by
          have hann : announced s.qmsg = announced ms := by
            rw [hm, ← List.singleton_append, announced_append, ha, List.nil_append]
          have hconf : confirmed s.qmsg = confirmed ms := by
            rw [hm, ← List.singleton_append, confirmed_append, hc, List.nil_append]
          exact h.frame rfl rfl ⟨[], (List.append_nil _).symm, rfl, rfl⟩ hann.symm hconf.symm rfl
            rfl ⟨fun hf => ⟨(h.timely.ready hf).1, hann ▸ (h.timely.ready hf).2⟩,
              fun hn => h.timely.named (hm ▸ List.mem_cons_of_mem _ hn)⟩
        cases m with
        | SMS_NEW_MSG_IND pos =>
            cases pos with
            | none => exact absurd (hm ▸ List.mem_cons_self) h.timely.named
            | some p =>
                cases ht
                exact newsms_kept h hcb hm
        | SMS_READ_CNF r => exact readcnf_kept h hcb hm ht
        | SMS_DELETE_CNF ok =>
            cases ht
            exact hpop rfl rfl
        | SMS_READY =>
            cases ht
            exact hpop rfl rfl
      · cases ht
  | ret =>
      obtain ⟨hcb, he⟩ := Option.ite_none_right_eq_some.mp ht
      cases he
      obtain ⟨k, hk, hw, hrd, hd⟩ := h.order
      rw [readCount, if_pos (.inl hcb)] at hrd
      cases h.chain with
      | empty _ _ _ hc | reading _ _ _ _ _ hc | read _ _ _ _ _ _ _ hc =>
          rw [hcb] at hc
          cases hc
      | calling ho hc _ =>
          exact readsms_kept ⟨hk, hw, hrd, hd, ho, hc, rfl, h.timely.ready, h.timely.named⟩

/-- In a run whose reports come after `SMS READY` and whose messages can be read, reception
never stalls, and every position is read once and deleted once. -/
theorem fed_of_readable {acts : List Act} (h : Meets (step decode) Readable boot acts) :
    Along (step decode) Fed boot acts := by
  apply Along.imp fun _ => Kept.fed
  exact along_of_meets (I := fun _ => True) (fun _ _ _ _ _ => trivial)
    (fun s a t _ hk hG ht => kept_step decode s a t hk hG ht) trivial kept_boot h

section Examples

/-- The modem is ready, and what `urc` has asked of it is answered. -/
def started : List Act :=
  [.urc (lua "SMS READY"), .sendat, .respond true none, .sendat, .respond true none, .msg]

/-- Two reports; the first message is read, deleted, and followed by the second. -/
theorem fed_pair : Along (step id) Fed boot (started ++ [.urc (lua "+CMTI: \"SM\",1"), .msg,
    .urc (lua "+CMTI: \"SM\",2"), .sendat,
    .respond true (some (lua
      "+CMGR: 0,,24\r\n0891683108200505F0240D91688121364265F7000871012212345623044F60597D")),
    .msg, .msg, .sendat, .respond true none]) :=
  fed_of_readable id (by decide +kernel)

/-- After a read that fails nothing is asked of the modem any more, and the position waits. -/
theorem read_error_stalls : ∃ s, run (step id) boot (started ++
    [.urc (lua "+CMTI: \"SM\",1"), .msg, .sendat, .respond false none]) = some s ∧ ¬ Fed s := by
  have hrun : (run (step id) boot (started ++ [.urc (lua "+CMTI: \"SM\",1"), .msg, .sendat,
      .respond false none])).map (fun s => (s.incb, s.tnewsms, s.ril.items, s.qmsg)) =
      some (false, [lua "1"], [], []) := by decide +kernel
  obtain ⟨s, hs, he⟩ := Option.map_eq_some_iff.mp hrun
  simp only [Prod.mk.injEq] at he
  obtain ⟨hi, hn, hr, hq⟩ := he
  refine ⟨s, hs, fun hf => ?_⟩
  obtain hm | ⟨r, hm, -⟩ := hf.chain hi (lua "1") (by rw [hn]; rfl)
  · rw [hr] at hm
    cases hm
  · rw [hq] at hm
    cases hm

end Examples

end LuatAir200.SmsReceive
