import LuatAir200.CcModel
import LuatAir200.LuaPattern
import Mathlib.Data.List.Count

/-!
# The books of voice calls

The flag of `anycallexist` stands for all calls together, and the lines of a listing go into
the table of the latest request. The books are right in the runs in which a call ends alone,
no listing is requested in the middle of another one, and only the last line of a
listing gives cause for something.
-/
namespace LuatAir200.Cc
open Lua Machine

/-! ## Lines -/

theorem parse_clcc : parse (lua "%+CLCC:%s*(%d+),(%d),(%d)") = some ⟨false,
    [.cls (.named 43) .one, .cls (.char 67) .one, .cls (.char 76) .one, .cls (.char 67) .one,
      .cls (.char 67) .one, .cls (.char 58) .one, .cls (.named 115) .star, .openCap,
      .cls (.named 100) .plus, .closeCap, .cls (.char 44) .one, .openCap, .cls (.named 100) .one,
      .closeCap, .cls (.char 44) .one, .openCap, .cls (.named 100) .one, .closeCap]⟩ := by
  decide

/-- The entry that a line reports. -/
theorem parseclcc_line {v : Call} (hv : v.WellFormed) (rest : LuaString) :
    parseclcc (v.line rest) = some v := by
  obtain ⟨id, dir, sta⟩ := v
  obtain ⟨hne, hid, ⟨hdl, hd⟩, hsl, hs⟩ := hv
  obtain ⟨d, rfl⟩ := List.length_eq_one_iff.mp hdl
  obtain ⟨e, rfl⟩ := List.length_eq_one_iff.mp hsl
  have hid : ∀ c ∈ id, isDigit c = true := by simpa using hid
  have hd : isDigit d = true := by simpa using hd
  have hs : isDigit e = true := by simpa using hs
  have hdigits : ∀ c ∈ id, (Lua.Class.named 100).accepts c = true := hid
  have hde : (Lua.Class.named 100).accepts d = true := hd
  have hee : (Lua.Class.named 100).accepts e = true := hs
  obtain ⟨x, id', rfl⟩ := List.exists_cons_of_ne_nil hne
  have hx : (Lua.Class.named 115).accepts x = false := not_space (hid x List.mem_cons_self)
  have hsta := matchItems_byte hee (p := []) (t := rest) (by exact fun _ => rfl)
  have hdir := matchItems_byte hde (matchItems_one (k := .char 44) (a := 44) rfl hsta)
  have hcall := matchItems_run (List.cons_ne_nil x id') hdigits (k := .named 100) (x := 44) (by decide)
    (matchItems_one (k := .char 44) (a := 44) rfl hdir)
  have hspace := matchItems_star (k := .named 115) (a := 32) (by decide) hx hcall
  have hline := matchItems_one (k := .named 43) (a := 43) rfl
    (matchItems_one (k := .char 67) (a := 67) rfl (matchItems_one (k := .char 76) (a := 76) rfl
      (matchItems_one (k := .char 67) (a := 67) rfl (matchItems_one (k := .char 67) (a := 67) rfl
        (matchItems_one (k := .char 58) (a := 58) rfl hspace)))))
  have hexec := smatch_front parse_clcc (hline _) (List.cons_ne_nil _ _)
  have hmatch : smatch (Call.line ⟨x :: id', [d], [e]⟩ rest) (lua "%+CLCC:%s*(%d+),(%d),(%d)") =
      some [x :: id', [d], [e]] := by
    simpa [Call.line, lua] using hexec
  rw [parseclcc, hmatch]

/-! ## The condition -/

/-- The lines of the current listing that have been reported. -/
def reported (s : State) : List Call := (s.answering.map Prod.fst).getD []

/-- What the actions must keep to. -/
def Sound (s : State) : Act → Prop
  | .mo | .CLIP _ _ | .CCWA _ _ | .CONNECT => reported s = []
  | .ended id _ => s.calls.erase id = [] ∧ reported s = []
  | .rsp success _ =>
      match s.cmds.head? with
      | some (.ATD _) => if success then s.callexist = true else s.calls = []
      | some .CHUP => success = true ∨ s.calls = []
      | _ => True
  | .line _ =>
      match s.answering with
      | some (l, v :: lines) => (l = [] → s.clcc = []) ∧ (lines ≠ [] →
          others (s.clcc ++ [v]) = [] ∧
            (s.usercbs .ALERTING = true → alerting s.oldclcc (s.clcc ++ [v]) = []))
      | _ => True
  | .complete => s.answering = some ([], []) → s.clcc = []
  | _ => True

instance (s : State) : DecidablePred (Sound s)
  | .mo | .CLIP _ _ | .CCWA _ _ | .CONNECT => inferInstanceAs (Decidable (reported s = []))
  | .ended id _ => inferInstanceAs (Decidable (s.calls.erase id = [] ∧ reported s = []))
  | .rsp success _ =>
      match h : s.cmds.head? with
      | some (.ATD _) =>
          decidable_of_iff (if success then s.callexist = true else s.calls = []) (by simp only [Sound, h])
      | some .CHUP => decidable_of_iff (success = true ∨ s.calls = []) (by simp only [Sound, h])
      | some .ATA | some (.CHLD _) | some .CLCC | some .CCWA | none => isTrue (by simp only [Sound, h])
  | .line _ =>
      match h : s.answering with
      | some (l, v :: lines) => decidable_of_iff ((l = [] → s.clcc = []) ∧ (lines ≠ [] →
          others (s.clcc ++ [v]) = [] ∧
            (s.usercbs .ALERTING = true → alerting s.oldclcc (s.clcc ++ [v]) = [])))
          (by simp only [Sound, h])
      | some (_, []) | none => isTrue (by simp only [Sound, h])
  | .complete => inferInstanceAs (Decidable (s.answering = some ([], []) → s.clcc = []))
  | .regcb _ _ | .dial _ _ | .hangup | .accept | .delayed | .clearincomingflag | .CALL_READY
  | .DTMFDET _ | .start _ => isTrue trivial

/-- The books are right. -/
structure Booked (s : State) : Prop where
  exist : s.calls ≠ [] → anycallexist s = true
  listed : ∀ n lines clcc, .listed n lines clcc ∈ s.hist → clcc = lines
  once : ∀ n v, s.hist.count (.chld n v) ≤ 1 ∧ s.hist.count (.CALL_ALERTING n v) ≤ 1

/-- Nothing has been done for listing `n`. -/
def Untouched (n : ℕ) (s : State) : Prop :=
  ∀ v, .chld n v ∉ s.hist ∧ .CALL_ALERTING n v ∉ s.hist

/-- The listing that is being answered. -/
structure Listings (s : State) : Prop where
  head : ∀ l r, s.answering = some (l, r) → s.cmds.head? = some .CLCC
  listing : ∀ l r, s.answering = some (l, r) → Listing (l ++ r)
  clcc : reported s ≠ [] → s.clcc = reported s
  later : ∀ n, s.listings < n → Untouched n s
  now : ∀ l r, s.answering = some (l, r) → l = [] ∨ r ≠ [] → Untouched s.listings s

/-- An event that no line causes. -/
def Event.plain : Event → Bool
  | .CALL_ALERTING _ _ | .chld _ _ | .listed _ _ _ => false
  | _ => true

/-- What the other functions change of a listing. -/
structure Aside (s t : State) : Prop where
  answering : t.answering = s.answering
  listings : t.listings = s.listings
  hist : ∃ l, t.hist = s.hist ++ l ∧ ∀ v ∈ l, v.plain = true
  clcc : t.clcc = s.clcc ∨ reported s = []
  cmds : ∃ l, t.cmds = s.cmds ++ l

theorem Aside.refl (s : State) : Aside s s :=
  ⟨rfl, rfl, ⟨[], by simp, by simp⟩, .inl rfl, ⟨[], by simp⟩⟩

theorem Aside.trans {s t u : State} (h : Aside s t) (h' : Aside t u) : Aside s u where
  answering := h'.answering.trans h.answering
  listings := h'.listings.trans h.listings
  hist := by
    obtain ⟨l, hl, hp⟩ := h.hist
    obtain ⟨m, hm, hq⟩ := h'.hist
    refine ⟨l ++ m, by rw [hm, hl, List.append_assoc], fun v hv => ?_⟩
    rcases List.mem_append.mp hv with hv | hv
    · exact hp v hv
    · exact hq v hv
  clcc := by
    have hr : reported t = reported s := by rw [reported, h.answering, reported]
    rcases h.clcc with hc | hc
    · rcases h'.clcc with hd | hd
      · exact .inl (hd.trans hc)
      · exact .inr (hr ▸ hd)
    · exact .inr hc
  cmds := by
    obtain ⟨l, hl⟩ := h.cmds
    obtain ⟨m, hm⟩ := h'.cmds
    exact ⟨l ++ m, by rw [hm, hl, List.append_assoc]⟩

theorem reported_aside {s t : State} (h : Aside s t) : reported t = reported s := by
  rw [reported, h.answering, reported]

theorem dispatch_aside (tag : Tag) (v : Event) (s : State) (hv : v.plain = true) :
    Aside s (dispatch tag v s) := by
  unfold dispatch
  split
  · exact ⟨rfl, rfl, ⟨[v], rfl, by simpa using hv⟩, .inl rfl, ⟨[], by simp [record]⟩⟩
  · exact .refl s

theorem req_aside (c : Cmd) (s : State) : Aside s (req c s) :=
  ⟨rfl, rfl, ⟨[], by simp [req], by simp⟩, .inl rfl, ⟨[c], rfl⟩⟩

theorem qrylist_aside {s : State} (hr : reported s = []) : Aside s (qrylist s) :=
  ⟨rfl, rfl, ⟨[], by simp [qrylist, req], by simp⟩, .inr hr, ⟨[.CLCC], rfl⟩⟩

/-- A change of fields that the listings have no part in. -/
theorem Aside.of_eq {s t : State} (ha : t.answering = s.answering) (hl : t.listings = s.listings)
    (hh : t.hist = s.hist) (hc : t.clcc = s.clcc) (hq : t.cmds = s.cmds) : Aside s t :=
  ⟨ha, hl, ⟨[], by simp [hh], by simp⟩, .inl hc, ⟨[], by simp [hq]⟩⟩

/-- The calls in progress have no part in them. -/
theorem Aside.of_calls {s t : State} {calls : List LuaString} (h : Aside { s with calls := calls } t) :
    Aside s t :=
  ⟨h.answering, h.listings, h.hist, h.clcc, h.cmds⟩

theorem discevt_aside (reason : LuaString) (s : State) : Aside s (discevt reason s) := by
  have h := dispatch_aside .DISCONNECTED (.CALL_DISCONNECTED reason)
      { s with callexist := false, clearing := s.clearing || s.incoming_num.isSome } rfl
  refine .trans ?_ (h.trans ?_)
  · exact .of_eq rfl rfl rfl rfl rfl
  · exact .of_eq rfl rfl rfl rfl rfl

theorem dial_aside (number : LuaString) (delay : Bool) (s : State) :
    Aside s (dial number delay s) := by
  unfold dial
  split_ifs
  · exact .refl s
  · exact .refl s
  · exact .of_eq rfl rfl rfl rfl rfl
  · exact ⟨rfl, rfl, ⟨[], by simp [req], by simp⟩, .inl rfl, ⟨[.ATD number], rfl⟩⟩

theorem parsedtmfnum_aside {data : LuaString} {s t : State} (h : parsedtmfnum data s = some t) :
    Aside s t := by
  obtain ⟨digits, -, rfl⟩ := Option.map_eq_some_iff.mp h
  dsimp only
  split
  · exact dispatch_aside .DTMF _ s rfl
  · exact .refl s

theorem ccrsp_aside (cmd : Cmd) (success : Bool) {s : State} (hr : reported s = []) :
    Aside s (ccrsp cmd success s) := by
  have hthen {t : State} (h : Aside s t) : Aside s (qrylist t) :=
    h.trans (qrylist_aside ((reported_aside h).trans hr))
  cases cmd with
  | ATD number =>
      apply hthen
      split_ifs
      · exact .of_eq rfl rfl rfl rfl rfl
      · exact .refl s
      · exact discevt_aside _ s
  | CHUP => exact hthen (discevt_aside _ s)
  | ATA =>
      have h := dispatch_aside .CONNECTED .CALL_CONNECTED { s with incoming_num := none } rfl
      apply hthen
      refine .trans ?_ (h.trans ?_)
      · exact .of_eq rfl rfl rfl rfl rfl
      · exact .of_eq rfl rfl rfl rfl rfl
  | CHLD id => exact hthen (.refl s)
  | CLCC | CCWA => exact .refl s

/-- All notifications but the lines of a listing. -/
theorem ccurc_aside {data name : LuaString} {s t : State} (hr : reported s = [])
    (hn : name ≠ lua "+CLCC") (h : ccurc data name s = some t) : Aside s t := by
  have hq := qrylist_aside hr
  unfold ccurc at h
  split_ifs at h
  · cases h
    have hd := dispatch_aside .READY .CALL_READY { s with ccready := true } rfl
    refine .trans ?_ (hd.trans (req_aside _ _))
    exact .of_eq rfl rfl rfl rfl rfl
  · cases h
    have hd := dispatch_aside .CONNECTED .CALL_CONNECTED (qrylist s) rfl
    refine hq.trans (hd.trans ?_)
    exact .of_eq rfl rfl rfl rfl rfl
  · cases h
    exact hq.trans (discevt_aside data _)
  · cases h
    dsimp only
    split
    · refine hq.trans (.trans ?_ (dispatch_aside .INCOMING _ _ rfl))
      exact .of_eq rfl rfl rfl rfl rfl
    · exact hq.trans (.of_eq rfl rfl rfl rfl rfl)
  · cases h
    exact hq
  · exact parsedtmfnum_aside h
  · cases h
    exact .refl s

/-! ## The flag -/

@[simp] theorem dispatch_calls (tag : Tag) (v : Event) (s : State) :
    (dispatch tag v s).calls = s.calls := by
  unfold dispatch
  split <;> rfl

@[simp] theorem dispatch_callexist (tag : Tag) (v : Event) (s : State) :
    (dispatch tag v s).callexist = s.callexist := by
  unfold dispatch
  split <;> rfl

theorem dial_exist (number : LuaString) (delay : Bool) (s : State) :
    (dial number delay s).calls = s.calls ∧
      ((dial number delay s).callexist = s.callexist ∨ (dial number delay s).callexist = true) := by
  unfold dial
  split_ifs <;> simp [req]

/-- What a notification does to the flag. -/
theorem ccurc_exist {data name : LuaString} {s t : State} (h : ccurc data name s = some t) :
    t.calls = s.calls ∧ (t.callexist = s.callexist ∨ t.callexist = true ∨
      (data = lua "NO CARRIER" ∨ data = lua "BUSY" ∨ data = lua "NO ANSWER") ∧
        t.callexist = false) := by
  unfold ccurc at h
  split_ifs at h with h1 h2 h3 h4 h5 h6 h7
  · cases h
    simp [req]
  · cases h
    simp [qrylist, req]
  · cases h
    refine ⟨by simp [discevt, qrylist, req], .inr (.inr ⟨h3, ?_⟩)⟩
    simp [discevt]
  · cases h
    dsimp only
    split <;> simp [qrylist, req]
  · cases h
    simp [qrylist, req]
  · cases h
    split
    · unfold proclist
      dsimp only
      split <;> simp
    · simp
  · obtain ⟨digits, -, rfl⟩ := Option.map_eq_some_iff.mp h
    dsimp only
    split <;> simp
  · cases h
    simp

/-- The line of a notification with a name is no other notification. -/
theorem plus_data {data : LuaString} (h : data.head? = some 43) : data ≠ lua "CALL READY" ∧
    data ≠ lua "CONNECT" ∧
    ¬(data = lua "NO CARRIER" ∨ data = lua "BUSY" ∨ data = lua "NO ANSWER") := by
  refine ⟨?_, ?_, ?_⟩
  · rintro rfl
    exact absurd h (by decide)
  · rintro rfl
    exact absurd h (by decide)
  · rintro (rfl | rfl | rfl)
    · exact absurd h (by decide)
    · exact absurd h (by decide)
    · exact absurd h (by decide)

theorem head_of_plus {name data : LuaString} (hn : name.head? = some 43) (hp : name <+: data) :
    data.head? = some 43 := by
  obtain ⟨u, rfl⟩ := hp
  rw [List.head?_append, hn, Option.some_or]

/-- A call that rings is noted. -/
theorem clip_exist {data : LuaString} {s t : State} (h : notify (lua "+CLIP") data s = some t) :
    t.callexist = true := by
  obtain ⟨hp, h⟩ := Option.ite_none_right_eq_some.mp h
  obtain ⟨hready, hconnect, hended⟩ := plus_data (head_of_plus rfl hp)
  rw [ccurc, if_neg hready, if_neg hconnect, if_neg hended, if_pos rfl] at h
  cases h
  dsimp only
  split <;> simp

theorem dtmf_parsed {data : LuaString} {s t : State}
    (h : notify (lua "+DTMFDET") data s = some t) : parsedtmfnum data s = some t := by
  obtain ⟨hp, h⟩ := Option.ite_none_right_eq_some.mp h
  obtain ⟨hready, hconnect, hended⟩ := plus_data (head_of_plus rfl hp)
  rwa [ccurc, if_neg hready, if_neg hconnect, if_neg hended, if_neg (by decide),
    if_neg (by decide), if_neg (by decide), if_pos rfl] at h

/-- The flag after an answer. -/
theorem ccrsp_exist (cmd : Cmd) (success : Bool) (s : State) :
    (ccrsp cmd success s).calls = s.calls ∧
      ((ccrsp cmd success s).callexist = s.callexist ∨
        cmd = .CHUP ∨ success = false ∧ ∃ number, cmd = .ATD number) := by
  cases cmd with
  | ATD number =>
      cases success
      · simp [ccrsp, qrylist, req, discevt]
      · unfold ccrsp
        rw [if_pos rfl]
        split_ifs <;> simp [qrylist, req]
  | CHUP => simp [ccrsp, qrylist, req, discevt]
  | ATA => simp [ccrsp, qrylist, req]
  | CHLD id => simp [ccrsp, qrylist, req]
  | CLCC | CCWA => simp [ccrsp]

/-! ## The invariant -/

section
variable {s t : State}

theorem Untouched.aside {n : ℕ} (hs : Untouched n s) (h : Aside s t) : Untouched n t := by
  obtain ⟨l, hl, hp⟩ := h.hist
  intro v
  rw [hl, List.mem_append, List.mem_append]
  constructor
  · rintro (hv | hv)
    · exact (hs v).1 hv
    · cases hp _ hv
  · rintro (hv | hv)
    · exact (hs v).2 hv
    · cases hp _ hv

theorem Listings.aside (hs : Listings s) (h : Aside s t) : Listings t where
  head l r ha := by
    obtain ⟨m, hm⟩ := h.cmds
    have hh := hs.head l r (h.answering ▸ ha)
    rw [hm, List.head?_append, hh, Option.some_or]
  listing l r ha := hs.listing l r (h.answering ▸ ha)
  clcc hr := by
    rw [reported_aside h] at hr ⊢
    rcases h.clcc with hc | hc
    · rw [hc]
      exact hs.clcc hr
    · exact absurd hc hr
  later n hn := (hs.later n (h.listings ▸ hn)).aside h
  now l r ha hlr := by
    rw [h.listings]
    exact (hs.now l r (h.answering ▸ ha) hlr).aside h

theorem count_plain {v : Event} (hv : v.plain = false) {l : List Event}
    (hp : ∀ w ∈ l, w.plain = true) : l.count v = 0 := by
  apply List.count_eq_zero_of_not_mem
  intro hm
  rw [hp v hm] at hv
  cases hv

theorem Booked.aside (hs : Booked s) (h : Aside s t)
    (he : t.calls ≠ [] → anycallexist t = true) : Booked t := by
  obtain ⟨l, hl, hp⟩ := h.hist
  refine ⟨he, ?_, ?_⟩
  · intro n lines clcc hm
    rw [hl, List.mem_append] at hm
    rcases hm with hm | hm
    · exact hs.listed n lines clcc hm
    · cases hp _ hm
  · intro n v
    rw [hl, List.count_append, List.count_append, count_plain rfl hp, count_plain rfl hp]
    exact hs.once n v

/-- The flag goes down only in `discevt`. -/
theorem Booked.kept (hs : Booked s) (hc : t.calls = s.calls)
    (he : t.callexist = s.callexist ∨ t.callexist = true) (hne : t.calls ≠ []) :
    anycallexist t = true := by
  rw [anycallexist]
  rcases he with he | he
  · rw [he]
    exact hs.exist (hc ▸ hne)
  · exact he

/-- A line of a listing, which is one more entry of the table. -/
theorem line_eq {v : Call} (hv : v.WellFormed) (rest : LuaString) (s : State) :
    notify (lua "+CLCC") (v.line rest) s = some (proclist { s with clcc := s.clcc ++ [v] }) := by
  have hpre : lua "+CLCC" <+: v.line rest := by
    unfold Call.line
    simp only [List.append_assoc]
    exact (by decide : lua "+CLCC" <+: lua "+CLCC: ").trans (List.prefix_append _ _)
  obtain ⟨hready, hconnect, hended⟩ := plus_data (show (v.line rest).head? = some 43 from rfl)
  rw [notify, if_pos hpre, ccurc, if_neg hready, if_neg hconnect, if_neg hended,
    if_neg (by decide), if_neg (by decide), if_pos rfl, parseclcc_line hv]

end

/-- What `proclist` dispatches. -/
def alerts (s : State) : List Call :=
  if s.usercbs .ALERTING then alerting s.oldclcc s.clcc else []

theorem proclist_hist (s : State) : (proclist s).hist =
    s.hist ++ ((others s.clcc).map (Event.chld s.listings) ++
      (alerts s).map (Event.CALL_ALERTING s.listings)) := by
  unfold proclist alerts
  dsimp only
  split <;> simp

theorem proclist_fields (s : State) : (proclist s).answering = s.answering ∧
    (proclist s).listings = s.listings ∧ (proclist s).clcc = s.clcc ∧
    (proclist s).calls = s.calls ∧ (proclist s).callexist = s.callexist ∧
    ∃ l, (proclist s).cmds = s.cmds ++ l := by
  unfold proclist
  dsimp only
  split <;> exact ⟨rfl, rfl, rfl, rfl, rfl, _, rfl⟩

theorem others_nodup {l : List Call} (h : l.Nodup) : (others l).Nodup := by
  unfold others
  split
  · exact h.filter _
  · exact List.nodup_nil

theorem alerts_nodup {s : State} (h : s.clcc.Nodup) : (alerts s).Nodup := by
  unfold alerts
  split
  · exact h.filter _
  · exact List.nodup_nil

theorem chld_injective (n : ℕ) : Function.Injective (Event.chld n) := fun _ _ h => (Event.chld.inj h).2

theorem alert_injective (n : ℕ) : Function.Injective (Event.CALL_ALERTING n) :=
  fun _ _ h => (Event.CALL_ALERTING.inj h).2

/-- What one line causes is caused once. -/
theorem proclist_once (k n : ℕ) (v : Call) {a b : List Call} (ha : a.Nodup) (hb : b.Nodup) :
    (a.map (Event.chld k) ++ b.map (Event.CALL_ALERTING k)).count (.chld n v) ≤ 1 ∧
      (a.map (Event.chld k) ++ b.map (Event.CALL_ALERTING k)).count (.CALL_ALERTING n v) ≤ 1 := by
  have hnodup : (a.map (Event.chld k) ++ b.map (Event.CALL_ALERTING k)).Nodup := by
    rw [List.nodup_append]
    refine ⟨ha.map (chld_injective k), hb.map (alert_injective k), ?_⟩
    intro x hx y hy he
    obtain ⟨c, -, rfl⟩ := List.mem_map.mp hx
    obtain ⟨d, -, rfl⟩ := List.mem_map.mp hy
    cases he
  exact ⟨List.nodup_iff_count_le_one.mp hnodup _, List.nodup_iff_count_le_one.mp hnodup _⟩

/-- The listing goes on: a line before the last one causes nothing, and the last one what it
causes once. -/
theorem line_kept {s : State} {l r : List Call} {v : Call} (hb : Booked s) (hl : Listings s)
    (ha : s.answering = some (l, v :: r)) (hempty : l = [] → s.clcc = [])
    (hlast : r ≠ [] → others (s.clcc ++ [v]) = [] ∧
      (s.usercbs .ALERTING = true → alerting s.oldclcc (s.clcc ++ [v]) = [])) :
    let t := proclist { s with answering := some (l ++ [v], r), clcc := s.clcc ++ [v] }
    Booked t ∧ Listings t := by
  intro t
  obtain ⟨hans, hnum, hclcc, hcalls, hflag, m, hcmds⟩ :=
    proclist_fields { s with answering := some (l ++ [v], r), clcc := s.clcc ++ [v] }
  have hhist : t.hist = s.hist ++ ((others (s.clcc ++ [v])).map (Event.chld s.listings) ++
      (alerts { s with answering := some (l ++ [v], r), clcc := s.clcc ++ [v] }).map
        (Event.CALL_ALERTING s.listings)) := proclist_hist _
  have hc : s.clcc = l := by
    by_cases h : l = []
    · rw [hempty h, h]
    · have hr : reported s = l := by rw [reported, ha]; rfl
      rw [hl.clcc (hr ▸ h), hr]
  have hlisting := hl.listing l (v :: r) ha
  have hunt := hl.now l (v :: r) ha (.inr (List.cons_ne_nil v r))
  have hnodup : (s.clcc ++ [v]).Nodup := by
    have hn := hlisting.2.of_map
    rw [← List.singleton_append, ← List.append_assoc] at hn
    rw [hc]
    exact hn.of_append_left
  have hquiet (h : r ≠ []) : t.hist = s.hist := by
    obtain ⟨hnone, hsilent⟩ := hlast h
    have halerts : alerts { s with
        answering := some (l ++ [v], r), clcc := s.clcc ++ [v] } = [] := by
      unfold alerts
      split
      · rename_i hcb
        exact hsilent hcb
      · rfl
    rw [hhist, halerts, hnone]
    simp
  have hother {n : ℕ} (hn : n ≠ s.listings) (w : Call) :
      .chld n w ∉ (others (s.clcc ++ [v])).map (Event.chld s.listings) ++
          (alerts { s with answering := some (l ++ [v], r), clcc := s.clcc ++ [v] }).map
            (Event.CALL_ALERTING s.listings) ∧
        .CALL_ALERTING n w ∉ (others (s.clcc ++ [v])).map (Event.chld s.listings) ++
          (alerts { s with answering := some (l ++ [v], r), clcc := s.clcc ++ [v] }).map
            (Event.CALL_ALERTING s.listings) := by
    constructor <;> simp [hn.symm]
  constructor
  · refine ⟨?_, ?_, ?_⟩
    · intro hcs
      rw [hcalls] at hcs
      exact hflag.trans (hb.exist hcs)
    · intro n lines clcc hm
      rw [hhist, List.mem_append] at hm
      rcases hm with hm | hm
      · exact hb.listed n lines clcc hm
      · simp at hm
    · intro n w
      rw [hhist, s.hist.count_append, s.hist.count_append]
      by_cases hn : n = s.listings
      · subst hn
        rw [List.count_eq_zero_of_not_mem (hunt w).1, List.count_eq_zero_of_not_mem (hunt w).2,
          Nat.zero_add, Nat.zero_add]
        exact proclist_once _ _ w (others_nodup hnodup) (alerts_nodup hnodup)
      · rw [List.count_eq_zero_of_not_mem (hother hn w).1,
          List.count_eq_zero_of_not_mem (hother hn w).2]
        exact hb.once n w
  · have hrep : reported t = l ++ [v] := by
      rw [reported, hans]
      rfl
    refine ⟨?_, ?_, ?_, ?_, ?_⟩
    · intro l' r' _
      rw [hcmds, List.head?_append, hl.head l (v :: r) ha, Option.some_or]
    · intro l' r' ht
      rw [hans] at ht
      cases ht
      rwa [List.append_assoc, List.singleton_append]
    · intro _
      rw [hrep, hclcc, hc]
    · intro n hn w
      rw [hnum] at hn
      rw [hhist, List.mem_append, not_or, List.mem_append (s := s.hist), not_or]
      have hs := hl.later n hn w
      have ho := hother (Nat.ne_of_gt hn) w
      exact ⟨⟨hs.1, ho.1⟩, hs.2, ho.2⟩
    · intro l' r' ht hlr
      rw [hans] at ht
      cases ht
      rcases hlr with hnil | hr
      · simp at hnil
      · intro w
        rw [hnum, hquiet hr]
        exact hunt w

/-! ## Runs -/

/-- A line that is read keeps the books right. -/
theorem read_booked {s t : State} {rest : LuaString} (hb : Booked s) (hl : Listings s)
    (hg : Sound s (.line rest)) (h : step s (.line rest) = some t) : Booked t ∧ Listings t := by
  simp only [step] at h
  split at h
  · rename_i l v lines ha
    simp only [Sound, ha] at hg
    obtain ⟨hempty, hlast⟩ := hg
    have hv : v.WellFormed := (hl.listing l (v :: lines) ha).1 v (by simp)
    rw [line_eq hv] at h
    have ht := Option.some.inj h
    rw [← ht]
    exact line_kept (s := s) hb hl ha hempty hlast
  · cases h

/-- A listing that begins. -/
theorem start_booked {s t : State} {lines : List Call} (hb : Booked s) (hl : Listings s)
    (h : step s (.start lines) = some t) : Booked t ∧ Listings t := by
  obtain ⟨⟨hhead, -, hlines⟩, h⟩ := Option.ite_none_right_eq_some.mp h
  cases h
  refine ⟨⟨hb.exist, hb.listed, hb.once⟩, ?_, ?_, ?_, ?_, ?_⟩
  · intro l r _
    exact hhead
  · rintro l r ⟨⟩
    exact hlines
  · intro h
    exact absurd rfl h
  · intro n hn
    exact hl.later n (Nat.lt_of_succ_lt hn)
  · intro l r _ _
    exact hl.later (s.listings + 1) (Nat.lt_succ_self _)

/-- A listing that is complete. -/
theorem complete_booked {s t : State} (hb : Booked s) (hl : Listings s) (hg : Sound s .complete)
    (h : step s .complete = some t) : Booked t ∧ Listings t := by
  simp only [step] at h
  split at h
  · rename_i l ha
    cases h
    have hrep : reported s = l := by rw [reported, ha]; rfl
    have hc : s.clcc = l := by
      by_cases he : l = []
      · rw [he] at ha ⊢
        exact hg ha
      · rw [hl.clcc (hrep ▸ he), hrep]
    have hnone (n : ℕ) (hn : Untouched n s) : Untouched n (record (.listed s.listings l s.clcc)
        { s with answering := none, cmds := s.cmds.tail }) := by
      intro v
      simpa [record] using hn v
    refine ⟨⟨hb.exist, ?_, ?_⟩, ?_, ?_, ?_, ?_, ?_⟩
    · intro n lines clcc hm
      rcases List.mem_append.mp hm with hm | hm
      · exact hb.listed n lines clcc hm
      · cases List.mem_singleton.mp hm
        exact hc
    · intro n v
      simpa [record] using hb.once n v
    · rintro l r ⟨⟩
    · rintro l r ⟨⟩
    · intro he
      exact absurd rfl he
    · intro n hn
      exact hnone n (hl.later n hn)
    · rintro l r ⟨⟩
  · cases h

/-- No call goes on without the flag when a command is answered. -/
theorem carryout_exist {s : State} {cmd : Cmd} {cmds : List Cmd} {success : Bool} {id : LuaString}
    (hb : Booked s) (hcmds : s.cmds = cmd :: cmds) (hg : Sound s (.rsp success id))
    (hne : carryout cmd success id s.calls ≠ []) : s.callexist = true ∧
      cmd ≠ .CHUP ∧ ¬(success = false ∧ ∃ number, cmd = .ATD number) := by
  simp only [Sound, hcmds, List.head?_cons] at hg
  cases cmd with
  | ATD number =>
      cases success with
      | true => exact ⟨hg, by simp⟩
      | false => exact absurd hg hne
  | CHUP =>
      cases success with
      | true => exact absurd rfl hne
      | false =>
          rcases hg with hg | hg
          · cases hg
          · exact absurd hg hne
  | CHLD k =>
      refine ⟨hb.exist ?_, by simp⟩
      rintro hnil
      rw [hnil] at hne
      cases success with
      | true => exact hne rfl
      | false => exact hne rfl
  | ATA | CLCC | CCWA => exact ⟨hb.exist hne, by simp⟩

/-- A command that is answered. -/
theorem rsp_booked {s t : State} {success : Bool} {id : LuaString} (hb : Booked s)
    (hl : Listings s) (hg : Sound s (.rsp success id)) (h : step s (.rsp success id) = some t) :
    Booked t ∧ Listings t := by
  simp only [step] at h
  split at h
  · rename_i cmd cmds hcmds
    obtain ⟨hn, h⟩ := Option.ite_none_left_eq_some.mp h
    cases h
    obtain ⟨hclcc, -⟩ := not_or.mp hn
    have hans : s.answering = none := by
      by_contra ha
      obtain ⟨⟨l, r⟩, ha⟩ := Option.ne_none_iff_exists'.mp ha
      have hh := hl.head l r ha
      rw [hcmds] at hh
      exact hclcc (Option.some.inj hh)
    have hrep : reported s = [] := by rw [reported, hans]; rfl
    have hexist := carryout_exist hb hcmds hg
    -- the command has left the queue
    have hm : Booked { s with cmds := cmds, calls := carryout cmd success id s.calls } ∧
        Listings { s with cmds := cmds, calls := carryout cmd success id s.calls } := by
      have hnone {l r : List Call} {P : Prop} (ha : s.answering = some (l, r)) : P := by
        rw [hans] at ha
        cases ha
      exact ⟨⟨fun hne => (hexist hne).1, hb.listed, hb.once⟩, fun l r => hnone, fun l r => hnone,
        fun hr => absurd hrep hr, hl.later, fun l r => hnone⟩
    have hd := ccrsp_aside cmd success
      (s := { s with cmds := cmds, calls := carryout cmd success id s.calls }) hrep
    obtain ⟨hcalls, hflag⟩ := ccrsp_exist cmd success
      { s with cmds := cmds, calls := carryout cmd success id s.calls }
    refine ⟨hm.1.aside hd fun hne => ?_, hm.2.aside hd⟩
    rw [hcalls] at hne
    obtain ⟨he, hchup, hfailed⟩ := hexist hne
    rcases hflag with hflag | hflag | hflag
    · exact hflag.trans he
    · exact absurd hflag hchup
    · exact absurd hflag hfailed
  · cases h

/-- A sound step keeps the books right. -/
theorem step_booked {s t : State} {a : Act} (hb : Booked s) (hl : Listings s) (hg : Sound s a)
    (h : step s a = some t) : Booked t ∧ Listings t := by
  have haside (hd : Aside s t) (he : t.calls ≠ [] → anycallexist t = true) : Booked t ∧ Listings t :=
    ⟨hb.aside hd he, hl.aside hd⟩
  cases a with
  | regcb tag cb =>
      cases h
      exact haside (.of_eq rfl rfl rfl rfl rfl) hb.exist
  | dial number delay =>
      cases h
      refine haside (dial_aside number delay s) fun hc => ?_
      obtain ⟨hcalls, hd⟩ := dial_exist number delay s
      exact hb.kept hcalls hd hc
  | hangup =>
      cases h
      exact haside (req_aside _ s) hb.exist
  | accept =>
      cases h
      exact haside (req_aside _ s) hb.exist
  | delayed =>
      simp only [step] at h
      split at h
      · cases h
        exact haside ⟨rfl, rfl, ⟨[], by simp [req], by simp⟩, .inl rfl, ⟨_, rfl⟩⟩ hb.exist
      · cases h
  | mo =>
      obtain ⟨-, h⟩ := Option.ite_none_right_eq_some.mp h
      cases h
      exact haside (qrylist_aside hg) hb.exist
  | clearincomingflag =>
      obtain ⟨-, h⟩ := Option.ite_none_right_eq_some.mp h
      cases h
      exact haside (.of_eq rfl rfl rfl rfl rfl) hb.exist
  | CALL_READY =>
      cases h
      have hd := dispatch_aside .READY .CALL_READY { s with ccready := true } rfl
      refine haside (.trans ?_ (hd.trans (req_aside _ _))) (hb.kept ?_ (.inl ?_))
      · exact .of_eq rfl rfl rfl rfl rfl
      · simp [req]
      · simp [req]
  | CLIP id data =>
      cases id with
      | some id =>
          obtain ⟨-, h⟩ := Option.ite_none_right_eq_some.mp h
          have he := clip_exist h
          obtain ⟨-, h⟩ := Option.ite_none_right_eq_some.mp h
          have hd := ccurc_aside (s := { s with calls := [id] }) hg (by decide) h
          exact haside hd.of_calls fun _ => he
      | none =>
          obtain ⟨-, h⟩ := Option.ite_none_left_eq_some.mp h
          have he := clip_exist h
          obtain ⟨-, h⟩ := Option.ite_none_right_eq_some.mp h
          exact haside (ccurc_aside hg (by decide) h) fun _ => he
  | CCWA id data =>
      obtain ⟨hid, h⟩ := Option.ite_none_left_eq_some.mp h
      obtain ⟨hp, h⟩ := Option.ite_none_right_eq_some.mp h
      have hexist := hb.exist (not_or.mp hid).1
      have hd := ccurc_aside (s := { s with calls := s.calls ++ [id] }) hg (by decide) h
      refine haside hd.of_calls fun _ => ?_
      obtain ⟨-, he | he | ⟨hended, -⟩⟩ := ccurc_exist h
      · exact he.trans hexist
      · exact he
      · exact absurd hended (plus_data (head_of_plus rfl hp)).2.2
  | CONNECT =>
      obtain ⟨hcalls, he | he | ⟨hended, -⟩⟩ := ccurc_exist h
      · exact haside (ccurc_aside hg (by decide) h) (hb.kept hcalls (.inl he))
      · exact haside (ccurc_aside hg (by decide) h) (hb.kept hcalls (.inr he))
      · exact absurd hended (by decide)
  | ended id reason =>
      obtain ⟨⟨-, hreason⟩, h⟩ := Option.ite_none_right_eq_some.mp h
      have hname : reason ≠ lua "+CLCC" := by
        rcases hreason with rfl | rfl | rfl <;> decide
      have hd := ccurc_aside (s := { s with calls := s.calls.erase id }) hg.2 hname h
      refine haside hd.of_calls fun hne => ?_
      rw [(ccurc_exist h).1] at hne
      exact absurd hg.1 hne
  | DTMFDET data =>
      have hp := dtmf_parsed h
      obtain ⟨-, h⟩ := Option.ite_none_right_eq_some.mp h
      refine haside (parsedtmfnum_aside hp) (hb.kept (ccurc_exist h).1 (.inl ?_))
      obtain ⟨digits, -, rfl⟩ := Option.map_eq_some_iff.mp hp
      dsimp only
      split <;> simp
  | rsp success id => exact rsp_booked hb hl hg h
  | start lines => exact start_booked hb hl h
  | line rest => exact read_booked hb hl hg h
  | complete => exact complete_booked hb hl hg h

/-- The books are right in every state of a sound run. -/
theorem calls_booked {as : List Act} (hm : Meets step Sound boot as) : Along step Booked boot as := by
  have hboth : Along step (fun s => Booked s ∧ Listings s) boot as := by
    apply along_of_meets (I := fun _ : State => True) (G := Sound)
    · exact fun _ _ _ _ _ => trivial
    · exact fun s a t _ hs hg h => step_booked hs.1 hs.2 hg h
    · trivial
    · refine ⟨⟨fun h => absurd rfl h, ?_, ?_⟩, ⟨?_, ?_, fun h => absurd rfl h, ?_, ?_⟩⟩
      all_goals simp [boot, Untouched]
    · exact hm
  exact hboth.imp fun _ h => h.1

/-- A call that is active, and two that wait. -/
def talk : Call := ⟨lua "1", lua "1", lua "0"⟩
def waits : Call := ⟨lua "2", lua "1", lua "5"⟩
def third : Call := ⟨lua "3", lua "1", lua "5"⟩

/-- A call comes in, is accepted and is hung up. -/
def accepted : List Act :=
  [.CALL_READY, .rsp true [], .CLIP (some (lua "1")) (lua "+CLIP: \"10086\",129"), .start [talk],
    .line [], .complete, .accept, .rsp true (lua "2"), .start [talk], .line [], .complete, .hangup,
    .rsp true [], .start [], .complete]

theorem calls_booked_accepted :
    (run step boot accepted).isSome = true ∧ Along step Booked boot accepted :=
  ⟨by decide, calls_booked (by decide)⟩

/-- The first of two calls ends. -/
def one_ends : List Act :=
  [.CLIP (some (lua "1")) (lua "+CLIP: \"10086\",129"), .CCWA (lua "2") (lua "+CCWA: \"10087\""),
    .ended (lua "1") (lua "NO CARRIER")]

/-- It rings again before the first listing begins. -/
def rings_twice : List Act :=
  [.CLIP (some (lua "1")) (lua "+CLIP: \"10086\",129"), .CLIP none (lua "+CLIP: \"10086\",129"),
    .start [talk], .line [], .complete, .start [talk], .line [], .complete]

/-- Two more calls wait in one listing. -/
def two_wait : List Act :=
  [.CLIP (some (lua "1")) (lua "+CLIP: \"10086\",129"), .CCWA (lua "2") (lua "+CCWA: \"10087\""),
    .CCWA (lua "3") (lua "+CCWA: \"10088\""), .start [talk, waits, third], .line [], .line [],
    .line []]

/-- The flag, the table and the commands of a listing each go wrong. -/
theorem calls_miscounted :
    ((run step boot one_ends).map fun s => (s.calls, anycallexist s)) = some ([lua "2"], false) ∧
      ((run step boot rings_twice).map State.hist) =
        some [.listed 1 [talk] [talk], .listed 2 [talk] [talk, talk]] ∧
      ((run step boot two_wait).map State.hist) =
        some [.chld 1 waits, .chld 1 waits, .chld 1 third] ∧
      ¬∀ as, Along step Booked boot as := by
  have hflag : ((run step boot one_ends).map fun s => (s.calls, anycallexist s)) =
      some ([lua "2"], false) := by decide
  refine ⟨hflag, by decide, by decide, fun h => ?_⟩
  obtain ⟨s, hs, hv⟩ := Option.map_eq_some_iff.mp hflag
  obtain ⟨hcalls, hexist⟩ := Prod.mk.inj hv
  have hb := (h one_ends).last hs
  rw [hb.exist (by rw [hcalls]; decide)] at hexist
  cases hexist

end LuatAir200.Cc
