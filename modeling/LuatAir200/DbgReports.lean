import LuatAir200.DbgModel

/-!
# Whether errors are reported

An `OK` clears the file, also what was recorded after the report. Without an `OK` for 20 seconds
the link is closed, and the timer that should send the report again finds no connection. The
reports are repeated as long as neither happens, and as long as the connection is not lost.
-/
namespace LuatAir200.Dbg
open Lua Machine

/-! ## What is claimed -/

/-- The state of the current link. -/
def own (s : State) : Option Links.LinkState :=
  s.lid.bind fun id => Links.stateOf .dbg id s.link

/-- A report will be sent: a connection is being made, or the timer of `reconn` or `snd` will
make one or send it. -/
def Due (s : State) : Prop :=
  own s = some .connecting ∨
    (s.timers .reconn = true ∧ s.reconntimes < 3 ∧ ∃ st ∈ own s, st.connectable = true) ∨
    s.timers .snd = true ∧ own s = some .connected

/-- There is something to report, and a server to report it to. -/
def Pending (s : State) : Prop := s.server.isSome = true ∧ unacked s ≠ []

structure Delivers (s : State) : Prop where
  /-- What has not been acknowledged is in the file. -/
  kept : last900 (unacked s) <:+ s.dbgfile
  due : Pending s → Due s

/-! ## When it holds -/

/-- `init` reports: over the connection, or over a link that it can open. -/
def Reports (s : State) : Prop :=
  if s.project.isSome then
    if s.linksta then own s = some .connected ∨ Due s
    else (Links.emptylink s.link).isSome = true
  else Due s

/-- An event of the current link that does not end the reports. -/
def Survives (s : State) (n : Links.Notice Client) : Prop :=
  match n.evt with
  | .connect => n.val = lua "CONNECT OK" ∨ s.reconntimes < 3
  | .state => n.val ≠ lua "CLOSED" ∧ s.timers .reconn = true ∧ s.reconntimes < 3
  | _ => True

/-- What was recorded after report `r` was sent, and has not been acknowledged. -/
def later (r : Report) (s : State) : LuaString := (s.texts.drop (max s.acked r.texts)).flatten

/-- The condition. -/
def Timely (s : State) : Act → Prop
  | .setup _ _ _ => unacked s ≠ [] → Reports s
  | .saverr v => Pending (recorded v s) → Reports s
  | .link a => Pending s → ∀ l ∈ Links.step s.link a, ∀ n ∈ Links.notified .dbg s.link a l,
      some n.id = s.lid → Survives s n
  | .recv _ data k => upper data = lua "OK" → ∀ r ∈ s.reports[k]?, later r s = []
  | .expire .rcvtimeout => ¬Pending s
  | _ => True

/-! ## The last 900 bytes -/

theorem last900_suffix (x : LuaString) : last900 x <:+ x := by
  unfold last900
  exact List.drop_suffix _ x

theorem length_last900 (x : LuaString) : (last900 x).length = min 900 x.length := by
  have h : x.length - (x.length - 900) = min 900 x.length := by omega
  unfold last900
  rw [List.length_drop, h]

theorem last900_mono {x y : LuaString} (h : x <:+ y) : last900 x <:+ last900 y := by
  refine List.suffix_of_suffix_length_le ((last900_suffix x).trans h) (last900_suffix y) ?_
  rw [length_last900, length_last900]
  have := h.length_le
  omega

theorem last900_append {x y v : LuaString} (h : last900 x <:+ y) :
    last900 (x ++ v) <:+ last900 (y ++ v) := by
  have hxv : last900 x ++ v <:+ x ++ v := by
    obtain ⟨p, hp⟩ := last900_suffix x
    exact ⟨p, by rw [← List.append_assoc, hp]⟩
  have hyv : last900 x ++ v <:+ y ++ v := by
    obtain ⟨p, hp⟩ := h
    exact ⟨p, by rw [← List.append_assoc, hp]⟩
  refine List.IsSuffix.trans ?_ (last900_mono hyv)
  refine List.suffix_of_suffix_length_le (last900_suffix _)
    ((last900_suffix _).trans hxv) ?_
  simp only [length_last900, List.length_append]
  omega

theorem last900_eq_nil {x : LuaString} : last900 x = [] ↔ x = [] := by
  rw [← List.length_eq_zero_iff, ← List.length_eq_zero_iff, length_last900]
  omega

theorem flatten_drop_suffix {ts : List LuaString} {m n : ℕ} (h : m ≤ n) :
    (ts.drop n).flatten <:+ (ts.drop m).flatten := by
  obtain ⟨k, rfl⟩ := Nat.exists_eq_add_of_le h
  rw [← List.drop_drop]
  obtain ⟨p, hp⟩ := List.drop_suffix k (ts.drop m)
  exact ⟨p.flatten, by rw [← List.flatten_append, hp]⟩

/-! ## What the calls change -/

section Calls

variable {s t : State}

theorem linkSend_eq (data : LuaString) (s : State) : ∃ l rs,
    linkSend data s = { called s with link := l, reports := s.reports ++ rs } ∧
    (Links.Shape s.link → Links.Shape l) ∧
    (∀ id, Links.stateOf .dbg id l = Links.stateOf .dbg id s.link) ∧
    ∀ r ∈ rs, r.data = data ∧ r.texts = s.texts.length := by
  unfold linkSend
  split
  · refine ⟨_, _, rfl, fun h => Links.step_shape s.link (.send _ _) _ h rfl,
      fun _ => Links.stateOf_send _ _, ?_⟩
    intro r hr
    split at hr
    · obtain rfl := List.mem_singleton.mp hr
      exact ⟨rfl, rfl⟩
    · cases hr
  · refine ⟨s.link, [], ?_, fun h => h, fun _ => rfl, ?_⟩
    · simp [called]
    · intro r hr
      cases hr

theorem linkClose_eq (s : State) : ∃ l, linkClose s = { called s with link := l } ∧
    (Links.Shape s.link → Links.Shape l) ∧
    ∀ st, own s = some st → st.text ≠ lua "CLOSEING" → own (linkClose s) = some .closing := by
  unfold linkClose own
  cases h : s.lid with
  | none => exact ⟨s.link, rfl, fun h => h, nofun⟩
  | some id =>
      refine ⟨_, rfl, fun h => Links.step_shape s.link (.close _) _ h rfl, ?_⟩
      intro st hst hne
      simp only [called, h, Option.bind_some] at hst ⊢
      exact Links.stateOf_close hst hne

theorem linkConnect_eq (h : linkConnect s = some t) : ∃ l, t = { called s with link := l } ∧
    (Links.Shape s.link → Links.Shape l) ∧
    ∀ st, own s = some st → own t = some (if st.connectable then .connecting else st) := by
  have key {id : ℕ} (hid : s.lid = some id) (prot addr port : LuaString) (st : Links.LinkState)
      (hst : own s = some st) :
      own { called s with link := (Links.connect id prot addr port s.link).1 } =
        some (if st.connectable then .connecting else st) := by
    simp only [own, called, hid, Option.bind_some] at hst ⊢
    cases hc : st.connectable with
    | true => exact Links.stateOf_connect hst hc prot addr port
    | false =>
        rw [Links.connect_unable hst hc, hst]
        rfl
  unfold linkConnect at h
  split at h
  · rename_i id prot addr port hid hsv
    obtain rfl := Option.some.inj h
    exact ⟨_, rfl, fun h => Links.step_shape s.link (.connect _ _ _ _) _ h rfl,
      key hid prot addr port⟩
  · rename_i id hid hsv
    split at h
    · cases h
    · obtain rfl := Option.some.inj h
      exact ⟨_, rfl, fun h => Links.step_shape s.link (.connect _ _ _ _) _ h rfl,
        key hid [] [] []⟩
  · rename_i hid
    obtain rfl := Option.some.inj h
    refine ⟨s.link, rfl, fun h => h, ?_⟩
    intro st hst
    rw [own, hid] at hst
    cases hst

end Calls

/-! ## The invariant -/

/-- Nothing has been sent since the start of the device. -/
def Idle (s : State) : Prop :=
  s.linksta = false ∧ (∀ k, s.timers k = false) ∧ ∀ id, Links.owner id s.link ≠ some .dbg

structure Honest (s : State) : Prop where
  shape : Links.Shape s.link
  count : s.acked ≤ s.texts.length
  /-- A report has the texts that were recorded before it was sent. -/
  sent : ∀ r ∈ s.reports, r.texts ≤ s.texts.length ∧ last900 (covered r s) <:+ r.data
  /-- What is sent ends with what is in the file. -/
  synced : s.dbgfile <:+ s.inf ∨ Idle s

section Books

variable {s t : State}

/-- What is known of the texts. -/
def books (s : State) : List LuaString × ℕ × LuaString × Bool :=
  (s.texts, s.acked, s.dbgfile, s.server.isSome)

theorem kept_congr (h : books t = books s) :
    last900 (unacked t) <:+ t.dbgfile ↔ last900 (unacked s) <:+ s.dbgfile := by
  simp only [books, Prod.mk.injEq] at h
  rw [unacked, unacked, h.1, h.2.1, h.2.2.1]

theorem pending_congr (h : books t = books s) : Pending t ↔ Pending s := by
  simp only [books, Prod.mk.injEq] at h
  rw [Pending, Pending, unacked, unacked, h.1, h.2.1, h.2.2.2]

theorem covered_grows {r : Report} (hr : r.texts ≤ s.texts.length) {w : List LuaString}
    (ht : t.texts = s.texts ++ w) (ha : s.acked ≤ t.acked) :
    last900 (covered r t) <:+ last900 (covered r s) := by
  apply last900_mono
  rw [covered, covered, ht, List.take_append_of_le_length hr]
  exact flatten_drop_suffix ha

/-- More texts and more acknowledgements take nothing from what a report covers. -/
theorem Honest.grows (h : Honest s) {w : List LuaString} (ht : t.texts = s.texts ++ w)
    (ha : s.acked ≤ t.acked) {r : Report} (hr : r ∈ s.reports) :
    r.texts ≤ t.texts.length ∧ last900 (covered r t) <:+ r.data := by
  obtain ⟨h1, h2⟩ := h.sent r hr
  refine ⟨?_, (covered_grows h1 ht ha).trans h2⟩
  rw [ht, List.length_append]
  omega

theorem books_snd (s : State) : books (snd s) = books s := by
  obtain ⟨l, rs, he, -⟩ := linkSend_eq (payload s (s.luaerr ++ s.inf)) s
  unfold snd
  dsimp only
  rw [he]
  split <;> rfl

theorem books_linkClose (s : State) : books (linkClose s) = books s := by
  obtain ⟨l, he, -⟩ := linkClose_eq s
  rw [he]
  rfl

theorem books_linkConnect (h : linkConnect s = some t) : books t = books s := by
  obtain ⟨l, rfl, -⟩ := linkConnect_eq h
  rfl

theorem books_init (h : init s = some t) : books t = books s := by
  rw [init_eq] at h
  split at h
  · obtain ⟨u, hu, rfl⟩ := Option.map_eq_some_iff.mp h
    have : books u = books s := by
      split at hu
      · obtain rfl := Option.some.inj hu
        exact books_snd _
      · exact (books_linkConnect hu).trans rfl
    exact this
  · obtain rfl := Option.some.inj h
    rfl

theorem books_notify (id : ℕ) (evt : Links.Evt) (val : LuaString) (s : State) :
    books (notify id evt val s) = books s := by
  unfold notify
  split
  · rfl
  cases evt with
  | connect =>
      dsimp only
      split
      · exact books_snd _
      · rfl
  | state =>
      dsimp only
      split
      · exact books_linkClose s
      · rfl
  | disconnect | close | send => rfl

theorem books_deliver (a : Links.Act Client) (l : Links.State Client) (s : State) :
    books (deliver a l s) = books s := by
  unfold deliver
  split
  · exact books_notify _ _ _ { s with link := l }
  · rfl

theorem books_fire {k : Timer} (h : fire k s = some t) : books t = books s := by
  cases k with
  | snd =>
      obtain rfl := Option.some.inj h
      exact books_snd s
  | rcvtimeout =>
      obtain rfl := Option.some.inj h
      exact books_linkClose (endntfy s)
  | reconn =>
      simp only [fire, reconn] at h
      split at h
      · exact (books_linkConnect h).trans rfl
      · obtain rfl := Option.some.inj h
        rfl
  | endind =>
      obtain rfl := Option.some.inj h
      rfl

/-! ### The reports stay honest -/

theorem Honest.keep (h : Honest s) (hsh : Links.Shape t.link) (ht : t.texts = s.texts)
    (ha : t.acked = s.acked) (hr : ∀ r ∈ t.reports, r ∈ s.reports)
    (hsync : t.dbgfile <:+ t.inf ∨ Idle t) : Honest t := by
  refine ⟨hsh, ?_, ?_, hsync⟩
  · rw [ht, ha]
    exact h.count
  · intro r hm
    exact h.grows (w := []) (by simp [ht]) ha.ge (hr r hm)

/-- A debug link that is there shows that the file has been read. -/
theorem Honest.informed (h : Honest s) {id : ℕ} (ho : Links.owner id s.link = some .dbg) :
    s.dbgfile <:+ s.inf := h.synced.resolve_right fun hi => hi.2.2 id ho

theorem honest_snd (h : Honest s) (hk : last900 (unacked s) <:+ s.dbgfile)
    (hs : s.dbgfile <:+ s.inf) : Honest (snd s) := by
  obtain ⟨l, rs, he, hsh, -, hrs⟩ := linkSend_eq (payload s (s.luaerr ++ s.inf)) s
  unfold snd
  dsimp only
  split
  · rw [he]
    refine ⟨hsh h.shape, h.count, ?_, .inl hs⟩
    intro r hr
    obtain hr | hr := List.mem_append.mp hr
    · exact h.sent r hr
    · obtain ⟨hd, ht⟩ := hrs r hr
      refine ⟨ht.le, ?_⟩
      have hc : covered r s = unacked s := by rw [covered, unacked, ht, List.take_length]
      show last900 (covered r s) <:+ r.data
      rw [hc, hd]
      exact hk.trans (hs.trans ((List.suffix_append _ _).trans (List.suffix_append _ _)))
  · exact h.keep h.shape rfl rfl (fun r hr => hr) (.inl hs)

theorem inf_snd (s : State) : (snd s).inf = s.inf := by
  obtain ⟨l, rs, he, -⟩ := linkSend_eq (payload s (s.luaerr ++ s.inf)) s
  unfold snd
  dsimp only
  rw [he]
  split <;> rfl

/-- `init` reads the file before it reports. -/
theorem honest_init (hsh : Links.Shape s.link) (hc : s.acked ≤ s.texts.length)
    (hsent : ∀ r ∈ s.reports, r.texts ≤ s.texts.length ∧ last900 (covered r s) <:+ r.data)
    (hk : last900 (unacked s) <:+ s.dbgfile) (hi : init s = some t) : Honest t := by
  have hs : (getlasterr (initerr s)).dbgfile <:+ (getlasterr (initerr s)).inf :=
    List.suffix_append _ _
  have h' : Honest (getlasterr (initerr s)) := ⟨hsh, hc, hsent, .inl hs⟩
  rw [init_eq] at hi
  split at hi
  · obtain ⟨u, hu, rfl⟩ := Option.map_eq_some_iff.mp hi
    have hb : Honest u ∧ u.dbgfile <:+ u.inf := by
      split at hu
      · obtain rfl := Option.some.inj hu
        refine ⟨honest_snd h' hk hs, ?_⟩
        have hf : (snd (getlasterr (initerr s))).dbgfile = (getlasterr (initerr s)).dbgfile :=
          congrArg (fun b => b.2.2.1) (books_snd (getlasterr (initerr s)))
        rw [hf, inf_snd]
        exact hs
      · obtain ⟨l, rfl, hsh', -⟩ := linkConnect_eq hu
        refine ⟨h'.keep ?_ rfl rfl ?_ (.inl hs), hs⟩
        · exact hsh' (Links.step_shape s.link (.openlink .dbg true) _ hsh rfl)
        · exact fun r hr => List.mem_of_mem_filter hr
    exact hb.1.keep hb.1.shape rfl rfl (fun r hr => hr) (.inl hb.2)
  · obtain rfl := Option.some.inj hi
    exact h'

theorem honest_linkClose (h : Honest s) (hs : s.dbgfile <:+ s.inf) : Honest (linkClose s) := by
  obtain ⟨l, he, hsh, -⟩ := linkClose_eq s
  rw [he]
  exact h.keep (hsh h.shape) rfl rfl (fun r hr => hr) (.inl hs)

theorem honest_deliver {a : Links.Act Client} {l : Links.State Client} (h : Honest s)
    (hk : last900 (unacked s) <:+ s.dbgfile) (hf : Links.foreign .dbg s.link a = true)
    (hl : Links.step s.link a = some l) : Honest (deliver a l s) := by
  have hsync : s.dbgfile <:+ s.inf ∨ Idle { s with link := l } := by
    refine h.synced.imp_right ?_
    rintro ⟨h1, h2, h3⟩
    exact ⟨h1, h2, fun id ho => h3 id (Links.foreign_owner h.shape hf hl ho)⟩
  have hu : Honest { s with link := l } :=
    h.keep (Links.step_shape _ _ _ h.shape hl) rfl rfl (fun r hr => hr) hsync
  unfold deliver
  split
  · rename_i n hn
    have inform (he : n.evt ≠ .close) : s.dbgfile <:+ s.inf :=
      hu.informed (Links.notified_owner hl hn he)
    unfold notify
    split
    · exact hu
    cases he : n.evt with
    | connect =>
        have hs := inform (by rw [he]; decide)
        dsimp only
        split
        · refine honest_snd (hu.keep hu.shape rfl rfl (fun r hr => hr) (.inl hs)) hk hs
        · exact hu.keep hu.shape rfl rfl (fun r hr => hr) (.inl hs)
    | disconnect | close =>
        refine hu.keep hu.shape rfl rfl (fun r hr => hr) (hsync.imp_right ?_)
        exact fun hi => ⟨rfl, hi.2.1, hi.2.2⟩
    | state =>
        have hs := inform (by rw [he]; decide)
        dsimp only
        split
        · exact honest_linkClose hu hs
        · exact hu
    | send => exact hu
  · exact hu

theorem honest_fire {k : Timer} (h : Honest s) (hk : last900 (unacked s) <:+ s.dbgfile)
    (ht : s.timers k = true) (hf : fire k (timer_stop k s) = some t) : Honest t := by
  have hs : s.dbgfile <:+ s.inf := by
    refine h.synced.resolve_right ?_
    intro hi
    rw [hi.2.1 k] at ht
    cases ht
  have h' : Honest (timer_stop k s) := h.keep h.shape rfl rfl (fun r hr => hr) (.inl hs)
  cases k with
  | snd =>
      obtain rfl := Option.some.inj hf
      exact honest_snd h' hk hs
  | rcvtimeout =>
      obtain rfl := Option.some.inj hf
      have he : Honest (endntfy (timer_stop .rcvtimeout s)) :=
        h'.keep h.shape rfl rfl (fun r hr => hr) (.inl hs)
      exact honest_linkClose he hs
  | reconn =>
      simp only [fire, reconn] at hf
      split at hf
      · obtain ⟨l, rfl, hsh, -⟩ := linkConnect_eq hf
        exact h.keep (hsh h.shape) rfl rfl (fun r hr => hr) (.inl hs)
      · obtain rfl := Option.some.inj hf
        exact h'.keep h.shape rfl rfl (fun r hr => hr) (.inl hs)
  | endind =>
      obtain rfl := Option.some.inj hf
      exact h'.keep h.shape rfl rfl (fun r hr => hr) (.inl hs)

end Books

/-! ## What is due -/

section Dues

variable {s t : State}

theorem file_ne (hk : last900 (unacked s) <:+ s.dbgfile) (hu : unacked s ≠ []) :
    s.dbgfile ≠ [] := by
  intro h
  rw [h] at hk
  exact hu (last900_eq_nil.mp (List.suffix_nil.mp hk))

theorem data_pos (hk : last900 (unacked s) <:+ s.dbgfile) (hu : unacked s ≠ [])
    (hs : s.dbgfile <:+ s.inf) : 0 < (s.luaerr ++ s.inf).length := by
  have h1 := hs.length_le
  have h2 := List.length_pos_of_ne_nil (file_ne hk hu)
  rw [List.length_append]
  omega

theorem snd_frame (hd : 0 < (s.luaerr ++ s.inf).length) : own (snd s) = own s ∧
    (snd s).timers .snd = true ∧ (snd s).timers .reconn = s.timers .reconn ∧
    (snd s).reconntimes = s.reconntimes := by
  obtain ⟨l, rs, he, -, hown, -⟩ := linkSend_eq (payload s (s.luaerr ++ s.inf)) s
  unfold snd
  dsimp only
  rw [if_pos hd, he]
  refine ⟨?_, rfl, rfl, rfl⟩
  show (s.lid.bind fun id => Links.stateOf .dbg id l) = own s
  simp only [hown]
  rfl

/-- Sending makes a report due over a connection, and does not end anything. -/
theorem snd_due (hd : 0 < (s.luaerr ++ s.inf).length) :
    Due (snd s) ↔ own s = some .connected ∨ Due s := by
  obtain ⟨ho, hts, htr, hn⟩ := snd_frame hd
  unfold Due
  rw [ho, hts, htr, hn]
  constructor
  · rintro (hc | hr | ⟨-, hc⟩)
    · exact .inr (.inl hc)
    · exact .inr (.inr (.inl hr))
    · exact .inl hc
  · rintro (hc | hc | hr | ⟨-, hc⟩)
    · exact .inr (.inr ⟨rfl, hc⟩)
    · exact .inl hc
    · exact .inr (.inl hr)
    · exact .inr (.inr ⟨rfl, hc⟩)

theorem not_due_of_none (h : own s = none) : ¬Due s := by
  rintro (hc | ⟨-, -, st, hst, -⟩ | ⟨-, hc⟩)
  · rw [h] at hc
    cases hc
  · rw [h] at hst
    cases hst
  · rw [h] at hc
    cases hc

/-- A link that is being closed makes nothing due. -/
theorem not_due_of_ending {st : Links.LinkState} (h : own s = some st)
    (hst : st = .closing ∨ st = .disconnecting) : ¬Due s := by
  have hne : st ≠ .connecting ∧ st ≠ .connected ∧ st.connectable = false := by
    obtain rfl | rfl := hst <;> decide
  rintro (hc | ⟨-, -, st', hst', hc⟩ | ⟨-, hc⟩)
  · exact hne.1 (Option.some.inj (h.symm.trans hc))
  · obtain rfl : st = st' := Option.some.inj (h.symm.trans hst')
    rw [hne.2.2] at hc
    cases hc
  · exact hne.2.1 (Option.some.inj (h.symm.trans hc))

theorem due_of_closed (h : own s = some .closed) :
    Due s ↔ s.timers .reconn = true ∧ s.reconntimes < 3 := by
  constructor
  · rintro (hc | ⟨h1, h2, -⟩ | ⟨-, hc⟩)
    · rw [h] at hc
      cases hc
    · exact ⟨h1, h2⟩
    · rw [h] at hc
      cases hc
  · rintro ⟨h1, h2⟩
    exact .inr (.inl ⟨h1, h2, .closed, h, by decide⟩)

/-- What is due comes with a link that can be closed. -/
theorem Due.closable (h : Due s) : ∃ st, own s = some st ∧ st.text ≠ lua "CLOSEING" := by
  obtain hc | ⟨-, -, st, hst, hc⟩ | ⟨-, hc⟩ := h
  · exact ⟨_, hc, by decide⟩
  · refine ⟨st, hst, ?_⟩
    intro he
    refine (of_decide_eq_true hc).1 ?_
    rw [he]
    decide
  · exact ⟨_, hc, by decide⟩

theorem init_due (hk : last900 (unacked s) <:+ s.dbgfile) (hu : unacked s ≠ [])
    (hi : init s = some t) : Due t ↔ Reports s := by
  have hpos := List.length_pos_of_ne_nil (file_ne hk hu)
  have hv : valid (getlasterr (initerr s)) = s.project.isSome := by
    simp only [valid, getlasterr, initerr, List.length_append, Bool.decide_and,
      Bool.decide_eq_true]
    rw [decide_eq_true (.inr (by omega)), Bool.true_and]
  have hdata : 0 < ((getlasterr (initerr s)).luaerr ++ (getlasterr (initerr s)).inf).length := by
    simp only [getlasterr, initerr, List.length_append]
    omega
  rw [init_eq, hv] at hi
  unfold Reports
  split at hi
  · rename_i hp
    obtain ⟨u, hu, rfl⟩ := Option.map_eq_some_iff.mp hi
    have hdue : Due (timer_start .endind (dispatch .begins u)) ↔ Due u := Iff.rfl
    rw [hdue, if_pos hp]
    split at hu
    · rename_i hl
      obtain rfl := Option.some.inj hu
      rw [if_pos hl]
      exact snd_due hdata
    · rename_i hl
      rw [if_neg hl]
      obtain ⟨l, rfl, -, hown⟩ := linkConnect_eq hu
      cases hk : Links.emptylink s.link with
      | none =>
          have hlid : (linkOpen (getlasterr (initerr s))).lid = none := by
            simp only [linkOpen, getlasterr, initerr, Links.openlink, hk]
          constructor
          · intro hd
            refine absurd hd (not_due_of_none ?_)
            show ((linkOpen (getlasterr (initerr s))).lid.bind fun id => Links.stateOf .dbg id l) = none
            rw [hlid]
            rfl
          · intro h
            cases h
      | some k =>
          have hlid : (linkOpen (getlasterr (initerr s))).lid = some k := by
            simp only [linkOpen, getlasterr, initerr, Links.openlink, hk]
          have hnew : own (linkOpen (getlasterr (initerr s))) = some .initial := by
            rw [own, hlid]
            exact Links.stateOf_openlink hk true
          exact ⟨fun _ => rfl, fun _ => .inl (hown _ hnew)⟩
  · rename_i hp
    obtain rfl := Option.some.inj hi
    rw [if_neg hp]
    exact Iff.rfl

/-! ### Events of the links -/

theorem deliver_due {a : Links.Act Client} {l : Links.State Client} (h : Honest s)
    (hk : last900 (unacked s) <:+ s.dbgfile) (hu : unacked s ≠ []) (hd : Due s)
    (hf : Links.foreign .dbg s.link a = true) (hl : Links.step s.link a = some l) :
    Due (deliver a l s) ↔
      ∀ n ∈ Links.notified .dbg s.link a l, some n.id = s.lid → Survives s n := by
  obtain ⟨st, hst, -⟩ := hd.closable
  obtain ⟨id, hid, hst'⟩ := Option.bind_eq_some_iff.mp hst
  have kept := Links.foreign_kept h.shape hf hl hst'
  have same (ho : Links.stateOf .dbg id l = some st) : Due { s with link := l } := by
    have : own { s with link := l } = own s := by
      rw [hst, own, hid]
      exact ho
    unfold Due
    rw [this]
    exact hd
  unfold deliver
  cases hn : Links.notified .dbg s.link a l with
  | none =>
      obtain ho | ⟨n, hm, -⟩ := kept
      · refine ⟨fun _ n hm => ?_, fun _ => same ho⟩
        cases hm
      · rw [hn] at hm
        cases hm
  | some n =>
      have hall : (∀ m ∈ some n, some m.id = s.lid → Survives s m) ↔
          (some n.id = s.lid → Survives s n) := by simp
      rw [hall]
      dsimp only
      unfold notify
      by_cases hnl : some n.id = s.lid
      · obtain rfl : n.id = id := Option.some.inj (hnl.trans hid)
        rw [if_neg (not_not.mpr hnl)]
        have hown (st' : Links.LinkState) (k : Links.Link Client)
            (hk : l.linklist n.id = some k) (hkn : k.notify = n.notify) (hks : k.state = st') :
            own { s with link := l } = some st' := by
          rw [own, hid]
          exact Links.stateOf_eq_some.mpr ⟨k, hk, hkn.trans (Links.notified_tells hl hn).1, hks⟩
        have htells := (Links.notified_tells hl hn).2
        simp only [hnl, Survives, true_imp_iff]
        cases he : n.evt with
        | connect =>
            simp only [Links.Tells, he] at htells
            obtain ⟨k, hkl, hkn, hks⟩ := htells
            have ho := hown _ k hkl hkn hks
            dsimp only
            split
            · rename_i hok
              rw [if_pos hok] at ho
              have hs : s.dbgfile <:+ s.inf := by
                have howner : Links.owner n.id s.link = some .dbg :=
                  Links.foreign_owner h.shape hf hl (Links.notified_owner hl hn (by rw [he]; decide))
                exact h.informed howner
              refine ⟨fun _ => .inl hok, fun _ => ?_⟩
              refine (snd_due ?_).mpr (.inl ?_)
              · exact data_pos hk hu hs
              · exact ho
            · rename_i hok
              rw [if_neg hok] at ho
              rw [due_of_closed (s := timer_start .reconn { s with link := l }) ho]
              simp [timer_start, hok]
        | state =>
            simp only [Links.Tells, he] at htells
            obtain ⟨k, hkl, hkn, hks⟩ := htells
            have ho := hown _ k hkl hkn hks
            dsimp only
            split
            · rename_i hcl
              obtain ⟨l', -, -, hc⟩ := linkClose_eq { s with link := l }
              have hend := not_due_of_ending (hc _ ho (by decide)) (.inl rfl)
              exact ⟨fun hd' => absurd hd' hend, fun hs => absurd hcl hs.1⟩
            · rename_i hcl
              rw [due_of_closed ho]
              exact ⟨fun hd' => ⟨hcl, hd'⟩, fun hs => hs.2⟩
        | send =>
            dsimp only
            obtain ho | ⟨m, hm, -, hms⟩ := kept
            · exact ⟨fun _ => trivial, fun _ => same ho⟩
            · obtain rfl : n = m := Option.some.inj (hn.symm.trans hm)
              exact absurd he hms
        | disconnect =>
            simp only [Links.Tells, he] at htells
            obtain ⟨k, hkl, hkn, hks, -⟩ := htells
            exfalso
            refine not_due_of_ending ?_ (.inr rfl) hd
            rw [own, hid]
            exact Links.stateOf_eq_some.mpr ⟨k, hkl, hkn.trans (Links.notified_tells hl hn).1, hks⟩
        | close =>
            simp only [Links.Tells, he] at htells
            obtain ⟨k, hkl, hkn, hks, -⟩ := htells
            exfalso
            refine not_due_of_ending ?_ (.inl rfl) hd
            rw [own, hid]
            exact Links.stateOf_eq_some.mpr ⟨k, hkl, hkn.trans (Links.notified_tells hl hn).1, hks⟩
      · rw [if_pos hnl]
        obtain ho | ⟨m, hm, rfl, -⟩ := kept
        · exact ⟨fun _ hc => absurd hc hnl, fun _ => same ho⟩
        · obtain rfl : n = m := Option.some.inj (hn.symm.trans hm)
          exact absurd hid.symm hnl

/-! ### Timers -/

/-- Only the timer of the reply ends the reports. -/
theorem fire_due {k : Timer} (h : Honest s) (hk : last900 (unacked s) <:+ s.dbgfile)
    (hu : unacked s ≠ []) (hd : Due s) (ht : s.timers k = true)
    (hf : fire k (timer_stop k s) = some t) : Due t ↔ k ≠ .rcvtimeout := by
  have hs : s.dbgfile <:+ s.inf := by
    refine h.synced.resolve_right ?_
    intro hi
    rw [hi.2.1 k] at ht
    cases ht
  cases k with
  | snd =>
      obtain rfl := Option.some.inj hf
      refine ⟨fun _ => by decide, fun _ => ?_⟩
      rw [snd_due (s := timer_stop .snd s) (data_pos hk hu hs)]
      obtain hc | hr | ⟨-, hc⟩ := hd
      · exact .inr (.inl hc)
      · exact .inr (.inr (.inl hr))
      · exact .inl hc
  | rcvtimeout =>
      obtain rfl := Option.some.inj hf
      obtain ⟨st, hst, hne⟩ := hd.closable
      obtain ⟨l, -, -, hc⟩ := linkClose_eq (endntfy (timer_stop .rcvtimeout s))
      have hend := not_due_of_ending (hc st hst hne) (.inl rfl)
      exact ⟨fun hd' => absurd hd' hend, fun hne => absurd rfl hne⟩
  | reconn =>
      refine ⟨fun _ => by decide, fun _ => ?_⟩
      simp only [fire, reconn] at hf
      split at hf
      · obtain ⟨l, rfl, -, hown⟩ := linkConnect_eq hf
        obtain hc | ⟨-, -, st, hst, hc⟩ | ⟨hts, hc⟩ := hd
        · exact .inl (hown _ hc)
        · refine .inl ((hown st hst).trans ?_)
          rw [if_pos hc]
        · exact .inr (.inr ⟨hts, hown _ hc⟩)
      · rename_i hlt
        obtain rfl := Option.some.inj hf
        obtain hc | ⟨-, hlt', -⟩ | hc := hd
        · exact .inl hc
        · exact absurd hlt' hlt
        · exact .inr (.inr hc)
  | endind =>
      obtain rfl := Option.some.inj hf
      refine ⟨fun _ => by decide, fun _ => hd⟩

end Dues

/-! ## Every step -/

section Steps

variable {s t : State} {a : Act}

/-- What is appended to the file is in it, whatever is cut off. -/
theorem kept_saved (h : s.acked ≤ s.texts.length) (hk : last900 (unacked s) <:+ s.dbgfile)
    (v : Option LuaString) : last900 (unacked (recorded v (writerr true v s))) <:+
      (recorded v (writerr true v s)).dbgfile := by
  cases v with
  | none =>
      show last900 ((s.texts ++ []).drop s.acked).flatten <:+ s.dbgfile
      rw [List.append_nil]
      exact hk
  | some v =>
      show last900 ((s.texts ++ [v]).drop s.acked).flatten <:+ last900 (s.dbgfile ++ v)
      rw [List.drop_append_of_le_length h, List.flatten_append, List.flatten_singleton]
      exact last900_append hk

/-- What an `OK` leaves behind. -/
theorem recvOk_frame (s : State) : (recvOk s).dbgfile = [] ∧ (recvOk s).texts = s.texts ∧
    (recvOk s).acked = s.acked ∧ (recvOk s).reports = s.reports ∧
    (Links.Shape s.link → Links.Shape (recvOk s).link) := by
  obtain ⟨l, he, hsh, -⟩ := linkClose_eq (timer_stop .snd s)
  unfold recvOk
  rw [he]
  simp only [writerr, timer_stop, endntfy, dispatch, called]
  refine ⟨?_, trivial, trivial, trivial, hsh⟩
  exact last900_eq_nil.mpr rfl

/-- The report that is answered covers all that was recorded before. -/
theorem acknowledge_eq (h : Honest s) {r : Report} (hr : r ∈ s.reports) :
    acknowledge r s = { s with acked := max s.acked r.texts } :=
  if_pos (h.sent r hr).2.isInfix

theorem honest_recvOk (h : Honest s) {r : Report} (hr : r ∈ s.reports) :
    Honest (recvOk (acknowledge r s)) := by
  rw [acknowledge_eq h hr]
  obtain ⟨hf, ht, ha, hre, hsh⟩ := recvOk_frame { s with acked := max s.acked r.texts }
  refine ⟨hsh h.shape, ?_, ?_, .inl ?_⟩
  · rw [ha, ht]
    exact max_le h.count (h.sent r hr).1
  · intro x hx
    rw [hre] at hx
    refine h.grows (w := []) ?_ ?_ hx
    · rw [ht, List.append_nil]
    · rw [ha]
      exact le_max_left _ _
  · rw [hf]
    exact List.nil_suffix

theorem rebooted_honest (h : s.acked ≤ s.texts.length) : Honest (reboot s) := by
  refine ⟨Links.boot_shape, h, ?_, .inr ⟨rfl, fun _ => rfl, ?_⟩⟩
  · intro r hr
    cases hr
  · intro id ho
    cases ho

theorem step_honest (h : Honest s) (hk : last900 (unacked s) <:+ s.dbgfile)
    (hst : step s a = some t) : Honest t := by
  cases a with
  | setup prot addr port =>
      exact honest_init (s := { s with server := some (prot, addr, port) }) h.shape h.count h.sent
        hk hst
  | saverr v =>
      refine honest_init ?_ ?_ ?_ (kept_saved h.count hk v) hst
      · cases v <;> exact h.shape
      · have hc : s.acked ≤ (s.texts ++ v.toList).length := by
          rw [List.length_append]
          exact h.count.trans (Nat.le_add_right _ _)
        cases v <;> exact hc
      · intro r hr
        have ht : (recorded v (writerr true v s)).texts = s.texts ++ v.toList := by
          cases v <;> rfl
        refine h.grows ht ?_ (by cases v <;> exact hr)
        cases v <;> exact le_refl _
  | restart r =>
      obtain rfl := Option.some.inj hst
      apply rebooted_honest
      show s.acked ≤ (s.texts ++ [_]).length
      rw [List.length_append]
      exact h.count.trans (Nat.le_add_right _ _)
  | reboot luaerrinfo =>
      obtain rfl := Option.some.inj hst
      exact rebooted_honest h.count
  | liberr text | imei v =>
      obtain rfl := Option.some.inj hst
      exact h.keep h.shape rfl rfl (fun r hr => hr) h.synced
  | link a =>
      obtain ⟨hf, hst⟩ := Option.ite_none_right_eq_some.mp hst
      obtain ⟨l, hl, rfl⟩ := Option.map_eq_some_iff.mp hst
      exact honest_deliver h hk hf hl
  | recv id data k =>
      obtain ⟨-, hst⟩ := Option.ite_none_right_eq_some.mp hst
      split at hst
      · split at hst
        · rename_i r hr
          obtain ⟨-, hst⟩ := Option.ite_none_right_eq_some.mp hst
          obtain rfl := Option.some.inj hst
          exact honest_recvOk h (List.mem_of_getElem? hr)
        · cases hst
      · obtain rfl := Option.some.inj hst
        exact h
  | expire k =>
      obtain ⟨⟨-, ht⟩, hst⟩ := Option.ite_none_right_eq_some.mp hst
      exact honest_fire h hk ht hst

/-- A step that keeps the books. -/
theorem delivers_of_books (hd : Delivers s) (hb : books t = books s) :
    Delivers t ↔ (Pending s → Due t) := by
  constructor
  · intro ht hp
    exact ht.due ((pending_congr hb).mpr hp)
  · intro h
    exact ⟨(kept_congr hb).mpr hd.kept, fun hp => h ((pending_congr hb).mp hp)⟩

theorem step_delivers (h : Honest s) (hd : Delivers s) (hst : step s a = some t) :
    Delivers t ↔ Timely s a := by
  cases a with
  | setup prot addr port =>
      have hb := books_init hst
      have hk : last900 (unacked { s with server := some (prot, addr, port) }) <:+ s.dbgfile :=
        hd.kept
      constructor
      · intro ht hu
        exact (init_due hk hu hst).mp (ht.due ((pending_congr hb).mpr ⟨rfl, hu⟩))
      · intro ht
        refine ⟨(kept_congr hb).mpr hk, fun hp => ?_⟩
        have hu : unacked s ≠ [] := ((pending_congr hb).mp hp).2
        exact (init_due hk hu hst).mpr (ht hu)
  | saverr v =>
      have hb := books_init hst
      have hk := kept_saved h.count hd.kept v
      have hp : Pending (recorded v (writerr true v s)) ↔ Pending (recorded v s) := by
        cases v <;> exact Iff.rfl
      have hr : Reports (recorded v (writerr true v s)) ↔ Reports s := by
        cases v <;> exact Iff.rfl
      constructor
      · intro ht hps
        have hps' := hp.mpr hps
        exact hr.mp ((init_due hk hps'.2 hst).mp (ht.due ((pending_congr hb).mpr hps')))
      · intro ht
        refine ⟨(kept_congr hb).mpr hk, fun hpt => ?_⟩
        have hps' := (pending_congr hb).mp hpt
        exact (init_due hk hps'.2 hst).mpr (hr.mpr (ht (hp.mp hps')))
  | restart r =>
      obtain rfl := Option.some.inj hst
      refine ⟨fun _ => trivial, fun _ => ⟨kept_saved h.count hd.kept _, fun hp => ?_⟩⟩
      cases hp.1
  | reboot luaerrinfo =>
      obtain rfl := Option.some.inj hst
      refine ⟨fun _ => trivial, fun _ => ⟨hd.kept, fun hp => ?_⟩⟩
      cases hp.1
  | liberr text | imei v =>
      obtain rfl := Option.some.inj hst
      exact ⟨fun _ => trivial, fun _ => ⟨hd.kept, hd.due⟩⟩
  | link a =>
      obtain ⟨hf, hst⟩ := Option.ite_none_right_eq_some.mp hst
      obtain ⟨l, hl, rfl⟩ := Option.map_eq_some_iff.mp hst
      rw [delivers_of_books hd (books_deliver a l s)]
      simp only [Timely, hl, Option.mem_some_iff, forall_eq']
      refine imp_congr_right fun hp => ?_
      exact deliver_due h hd.kept hp.2 (hd.due hp) hf hl
  | recv id data k =>
      obtain ⟨-, hst⟩ := Option.ite_none_right_eq_some.mp hst
      split at hst
      · rename_i hok
        split at hst
        · rename_i r hr
          obtain ⟨-, hst⟩ := Option.ite_none_right_eq_some.mp hst
          obtain rfl := Option.some.inj hst
          rw [acknowledge_eq h (List.mem_of_getElem? hr)]
          obtain ⟨hf, ht, ha, -, -⟩ := recvOk_frame { s with acked := max s.acked r.texts }
          have hl : unacked (recvOk { s with acked := max s.acked r.texts }) = later r s := by
            rw [unacked, ha, ht]
            rfl
          simp only [Timely, hok, hr, Option.mem_some_iff, forall_eq', true_imp_iff]
          constructor
          · intro hd'
            have hk := hd'.kept
            rw [hf, hl] at hk
            exact last900_eq_nil.mp (List.suffix_nil.mp hk)
          · intro hnil
            refine ⟨?_, fun hp => absurd (hl.trans hnil) hp.2⟩
            rw [hl, hnil, last900_eq_nil.mpr rfl]
            exact List.nil_suffix
        · cases hst
      · rename_i hok
        obtain rfl := Option.some.inj hst
        exact ⟨fun _ hok' => absurd hok' hok, fun _ => hd⟩
  | expire k =>
      obtain ⟨⟨-, ht⟩, hst⟩ := Option.ite_none_right_eq_some.mp hst
      have hb : books t = books s := (books_fire hst).trans rfl
      rw [delivers_of_books hd hb]
      have hdue (hp : Pending s) := fire_due h hd.kept hp.2 (hd.due hp) ht hst
      cases k with
      | rcvtimeout =>
          constructor
          · intro hd' hp
            exact (hdue hp).mp (hd' hp) rfl
          · intro hnp hp
            exact absurd hp hnp
      | snd | reconn | endind =>
          exact ⟨fun _ => trivial, fun _ hp => (hdue hp).mpr (by decide)⟩

end Steps

/-! ## Runs -/

theorem boot_honest (project version : Option LuaString) (corever : LuaString) :
    Honest (boot project version corever) := by
  refine ⟨Links.boot_shape, le_refl _, ?_, .inr ⟨rfl, fun _ => rfl, ?_⟩⟩
  · intro r hr
    cases hr
  · intro id ho
    cases ho

theorem boot_delivers (project version : Option LuaString) (corever : LuaString) :
    Delivers (boot project version corever) := by
  refine ⟨?_, fun hp => ?_⟩
  · exact (last900_eq_nil.mpr rfl) ▸ List.nil_suffix
  · cases hp.1

/-- A run delivers its reports exactly if all its steps are timely. -/
theorem reports_delivered (project version : Option LuaString) (corever : LuaString)
    (acts : List Act) : Along step Delivers (boot project version corever) acts ↔
      Meets step Timely (boot project version corever) acts := by
  apply along_iff_meets_under (Q := fun s => Honest s ∧ Delivers s) (H := fun _ _ => True)
  · exact fun s hs => hs.2
  · intro s a t _ hs hg hst
    exact ⟨step_honest hs.1 hs.2.kept hst, (step_delivers hs.1 hs.2 hst).mpr hg⟩
  · intro s a t _ hs ht hst
    exact (step_delivers hs.1 hs.2 hst).mp ht
  · exact ⟨boot_honest project version corever, boot_delivers project version corever⟩
  · exact meets_true _ acts

/-- A report is sent, and another error is recorded before its answer comes. -/
def overtaken : List Act :=
  [.setup (lua "TCP") (lua "host") (lua "9072"), .saverr (some (lua "first")),
    .link (.urc (lua "STATE: IP STATUS")), .link (.urc (lua "0, CONNECT OK")), .link .ret,
    .saverr (some (lua "second")), .recv 0 (lua "ok") 0]

/-- The answer to the first report clears the second error from the file. -/
theorem answer_clears_later_error :
    (run step (boot (some (lua "P")) none []) overtaken).map (fun s => (unacked s, s.dbgfile)) =
      some (lua "second", []) ∧
    ¬Along step Delivers (boot (some (lua "P")) none []) overtaken := by
  have hrun : (run step (boot (some (lua "P")) none []) overtaken).map
      (fun s => (unacked s, s.dbgfile)) = some (lua "second", []) := by decide +kernel
  refine ⟨hrun, ?_⟩
  intro h
  obtain ⟨t, ht, he⟩ := Option.map_eq_some_iff.mp hrun
  obtain ⟨hu, hf⟩ := Prod.mk.inj he
  have hk := (h.last ht).kept
  rw [hu, hf] at hk
  have hnil := last900_eq_nil.mp (List.suffix_nil.mp hk)
  cases hnil

end LuatAir200.Dbg
