import LuatAir200.LuaPattern
import Mathlib.Data.List.Basic
import Mathlib.Data.Nat.Bitwise

/-!
# The cells in a request for a location

`encellinfo` reads the cells of the network's answer, puts those of one area together, and packs
the areas. An area has room for eight cells, whose number is in the first one.
-/
namespace LuatAir200.Lbsloc
open Lua

/-- `tonumber`; a number is a 32-bit integer. -/
def tolong (s : LuaString) : ℕ := min (tonumber s) (2 ^ 31 - 1)

/-- The captures of the matches that `string.gmatch(s,p)` goes through; none of them is empty. -/
def gmatch (p : LuaString) : ℕ → LuaString → List (List LuaString)
  | 0, _ => []
  | n + 1, s =>
      match sfind s p with
      | some (caps, rest) => caps :: gmatch p n rest
      | none => []

/-- An entry of `t`; `rssici` has the fields `rssi` and `ci`. -/
structure Info where
  mcc : ℕ
  mnc : ℕ
  lac : ℕ
  rssici : List (ℕ × ℕ)
  deriving DecidableEq

/-- The loop over `t` and what follows it: the cell goes to the first entry of its area. -/
def insertCell (mcc mnc lac ci rssi : ℕ) : List Info → List Info
  | [] => [⟨mcc, mnc, lac, [(rssi, ci)]⟩]
  | v :: t =>
      if v.lac = lac ∧ v.mcc = mcc ∧ v.mnc = mnc then
        (if v.rssici.length < 8 then { v with rssici := v.rssici ++ [(rssi, ci)] } else v) :: t
      else v :: insertCell mcc mnc lac ci rssi t

/-- A match of the pattern. -/
def addCell (t : List Info) (caps : List LuaString) : List Info :=
  match caps with
  | [mcc, mnc, lac, ci, rssi] =>
      insertCell (tolong mcc) (tolong mnc) (tolong lac) (tolong ci)
        (if tolong rssi > 31 then 31 else tolong rssi) t
  | _ => t

/-- `lpack.pack(">H",v)` -/
def packH (v : ℕ) : LuaString := [(v / 256).toUInt8, v.toUInt8]

/-- The cell `m` of `v.rssici`. -/
def packCell (count : ℕ) (m : ℕ) (n : ℕ × ℕ) : LuaString :=
  let cntrssi := ((if m = 1 then count - 1 else 0) <<< 5) ||| n.1
  cntrssi.toUInt8 :: packH n.2

def packInfo (v : Info) : LuaString :=
  packH v.lac ++ packH v.mcc ++ [v.mnc.toUInt8] ++
    (v.rssici.zipIdx 1).flatMap fun n => packCell v.rssici.length n.2 n.1

def pattern : LuaString := lua "(%d+)%.(%d+)%.(%d+)%.(%d+)%.(%d+);"

/-- `none` is the error of `string.char`. -/
def encellinfo (s : LuaString) : Option LuaString :=
  let t := (gmatch pattern (s.length + 1) s).foldl addCell []
  if t.length < 256 then some (t.length.toUInt8 :: t.flatMap packInfo) else none

/-! ## The text of the cells -/

/-- A cell in the answer of the network. -/
structure Cell where
  mcc : LuaString
  mnc : LuaString
  lac : LuaString
  ci : LuaString
  rssi : LuaString

/-- A number in digits. -/
def Numeral (s : LuaString) : Prop := s ≠ [] ∧ s.all isDigit

instance (s : LuaString) : Decidable (Numeral s) := inferInstanceAs (Decidable (_ ∧ _))

structure Cell.Valid (c : Cell) : Prop where
  mcc : Numeral c.mcc ∧ tonumber c.mcc ≤ 65535
  mnc : Numeral c.mnc ∧ tonumber c.mnc ≤ 255
  lac : Numeral c.lac ∧ tonumber c.lac ≤ 65535
  ci : Numeral c.ci ∧ tonumber c.ci ≤ 65535
  rssi : Numeral c.rssi

def Cell.text (c : Cell) : LuaString :=
  c.mcc ++ lua "." ++ c.mnc ++ lua "." ++ c.lac ++ lua "." ++ c.ci ++ lua "." ++ c.rssi ++ lua ";"

def Cell.caps (c : Cell) : List LuaString := [c.mcc, c.mnc, c.lac, c.ci, c.rssi]

def digits : List Item := [.openCap, .cls (.named 100) .plus, .closeCap]

theorem pattern_parse : parse pattern = some ⟨false,
    digits ++ .cls (.named 46) .one :: (digits ++ .cls (.named 46) .one ::
      (digits ++ .cls (.named 46) .one :: (digits ++ .cls (.named 46) .one ::
        (digits ++ [.cls (.char 59) .one]))))⟩ := by
  decide

/-- A number in front of another byte. -/
theorem digits_match {k : Lua.Class} {p : List Item} {ds t rest : LuaString} {x : UInt8}
    {caps : List LuaString} (hd : Numeral ds) (hk : k.accepts x = true) (hx : isDigit x = false)
    (hp : ∀ o, matchItems p t o = some (rest, caps)) (o : LuaString) :
    matchItems (digits ++ .cls k .one :: p) (ds ++ x :: t) o = some (rest, ds :: caps) :=
  matchItems_run (k := .named 100) hd.1 (fun c hc => List.all_eq_true.mp hd.2 c hc) hx
    (fun o => matchItems_one hk hp o) o

theorem cell_match {c : Cell} (hc : c.Valid) (rest : LuaString) :
    sfind (c.text ++ rest) pattern = some (c.caps, rest) := by
  have htext : c.text ++ rest = c.mcc ++ 46 :: (c.mnc ++ 46 :: (c.lac ++ 46 :: (c.ci ++ 46 ::
      (c.rssi ++ 59 :: rest)))) := by
    simp [Cell.text, show lua "." = [46] from rfl, show lua ";" = [59] from rfl]
  have hmatch (o : LuaString) := digits_match (k := .named 46) hc.mcc.1 (x := 46) rfl rfl
    (digits_match (k := .named 46) hc.mnc.1 (x := 46) rfl rfl
      (digits_match (k := .named 46) hc.lac.1 (x := 46) rfl rfl
        (digits_match (k := .named 46) hc.ci.1 (x := 46) rfl rfl
          (digits_match (k := .char 59) hc.rssi (x := 59) rfl rfl
            (fun o => show matchItems [] rest o = some (rest, []) from rfl))))) o
  rw [htext]
  exact sfind_front pattern_parse (hmatch _)

theorem gmatch_cells {cs : List Cell} (hc : ∀ c ∈ cs, c.Valid) {n : ℕ}
    (hn : cs.length < n) : gmatch pattern n (cs.flatMap Cell.text) = cs.map Cell.caps := by
  induction cs generalizing n with
  | nil =>
      obtain ⟨n, rfl⟩ : ∃ k, n = k + 1 := ⟨n - 1, by omega⟩
      rfl
  | cons c cs ih =>
      obtain ⟨n, rfl⟩ : ∃ k, n = k + 1 := ⟨n - 1, by omega⟩
      rw [List.flatMap_cons, gmatch, cell_match (hc c List.mem_cons_self)]
      dsimp only
      rw [ih (fun d hd => hc d (List.mem_cons_of_mem c hd)) (by simpa using hn)]
      rfl

/-! ## Areas -/

/-- What a cell says: its area, its signal up to 31, and its number. -/
def Cell.area (c : Cell) : ℕ × ℕ × ℕ := (tonumber c.mcc, tonumber c.mnc, tonumber c.lac)

def Cell.sample (c : Cell) : ℕ × ℕ := (min (tonumber c.rssi) 31, tonumber c.ci)

/-- The areas in the order in which they come first. -/
def areas (cs : List Cell) : List (ℕ × ℕ × ℕ) := (cs.map Cell.area).eraseDups

/-- The first eight cells of an area. -/
def group (cs : List Cell) (a : ℕ × ℕ × ℕ) : Info :=
  ⟨a.1, a.2.1, a.2.2, ((cs.filter fun c => c.area = a).map Cell.sample).take 8⟩

def groups (cs : List Cell) : List Info := (areas cs).map (group cs)

section

variable {α : Type*} [BEq α] [LawfulBEq α] {l : List α} {a : α}

theorem eraseDups_known (h : a ∈ l) : (l ++ [a]).eraseDups = l.eraseDups := by
  simp [List.eraseDups_append, List.removeAll, h]

theorem eraseDups_new (h : a ∉ l) : (l ++ [a]).eraseDups = l.eraseDups ++ [a] := by
  simp [List.eraseDups_append, List.removeAll, h, List.eraseDups_cons]

theorem nodup_eraseDups (l : List α) : l.eraseDups.Nodup := by
  induction l using List.reverseRecOn with
  | nil => exact List.nodup_nil
  | append_singleton l a ih =>
      by_cases h : a ∈ l
      · rwa [eraseDups_known h]
      · rw [eraseDups_new h, List.nodup_append]
        refine ⟨ih, by simp, ?_⟩
        rintro x hx y hy rfl
        rw [List.mem_singleton] at hy
        rw [hy] at hx
        exact h (List.mem_eraseDups.mp hx)

end

variable {cs : List Cell} {c : Cell} {a : ℕ × ℕ × ℕ}

/-- A cell changes only its own area. -/
theorem group_ne (h : c.area ≠ a) : group (cs ++ [c]) a = group cs a := by
  simp [group, List.filter_append, h]

theorem group_self : group (cs ++ [c]) c.area =
    if (group cs c.area).rssici.length < 8 then
      { group cs c.area with rssici := (group cs c.area).rssici ++ [c.sample] }
    else group cs c.area := by
  have hcells : (cs ++ [c]).filter (fun d => d.area = c.area) =
      cs.filter (fun d => d.area = c.area) ++ [c] := by simp [List.filter_append]
  rw [group, hcells, List.map_append, List.map_singleton]
  generalize hl : (cs.filter fun d => d.area = c.area).map Cell.sample = l
  have hgroup : group cs c.area = ⟨c.area.1, c.area.2.1, c.area.2.2, l.take 8⟩ := by
    rw [group, hl]
  rw [hgroup]
  dsimp only
  rw [List.length_take]
  split
  · rw [List.take_of_length_le (by simp; omega), List.take_of_length_le (by omega)]
  · rw [List.take_append_of_le_length (by omega)]

theorem group_first (h : c.area ∉ areas cs) :
    group (cs ++ [c]) c.area = ⟨c.area.1, c.area.2.1, c.area.2.2, [c.sample]⟩ := by
  have hnone : cs.filter (fun d => d.area = c.area) = [] := by
    rw [List.filter_eq_nil_iff]
    intro d hd he
    rw [decide_eq_true_eq] at he
    apply h
    rw [areas, List.mem_eraseDups, ← he]
    exact List.mem_map_of_mem hd
  simp [group, List.filter_append, hnone]

/-- The loop over the entries finds the area of the cell, if there is one. -/
theorem insertCell_groups {L : List (ℕ × ℕ × ℕ)} (hL : L.Nodup) :
    insertCell c.area.1 c.area.2.1 c.area.2.2 c.sample.2 c.sample.1 (L.map (group cs)) =
      if c.area ∈ L then L.map (group (cs ++ [c]))
      else L.map (group cs) ++ [⟨c.area.1, c.area.2.1, c.area.2.2, [c.sample]⟩] := by
  induction L with
  | nil => rfl
  | cons b L ih =>
      rw [List.nodup_cons] at hL
      rw [List.map_cons, insertCell]
      have hrest (hb : c.area ∉ L) : L.map (group (cs ++ [c])) = L.map (group cs) := by
        apply List.map_congr_left
        intro d hd
        exact group_ne fun he => hb (he ▸ hd)
      by_cases hb : c.area = b
      · subst hb
        rw [if_pos ⟨rfl, rfl, rfl⟩, if_pos List.mem_cons_self, List.map_cons, group_self,
          hrest hL.1]
      · have hne : ¬((group cs b).lac = c.area.2.2 ∧ (group cs b).mcc = c.area.1 ∧
            (group cs b).mnc = c.area.2.1) := by
          rintro ⟨h1, h2, h3⟩
          exact hb (Prod.ext h2.symm (Prod.ext h3.symm h1.symm))
        rw [if_neg hne, ih hL.2]
        by_cases hmem : c.area ∈ L
        · rw [if_pos hmem, if_pos (List.mem_cons_of_mem b hmem), List.map_cons, group_ne hb]
        · rw [if_neg hmem, if_neg]
          · rfl
          · intro h
            obtain h | h := List.mem_cons.mp h
            · exact hb h
            · exact hmem h

theorem tolong_eq {s : LuaString} {k : ℕ} (h : tonumber s ≤ k) (hk : k < 2 ^ 31) :
    tolong s = tonumber s := by
  rw [tolong]
  omega

theorem addCell_groups (hc : c.Valid) : addCell (groups cs) c.caps = groups (cs ++ [c]) := by
  have hrssi : (if tolong c.rssi > 31 then 31 else tolong c.rssi) = min (tonumber c.rssi) 31 := by
    rw [tolong]
    split
    · omega
    · omega
  have hinsert := @insertCell_groups cs c _ (nodup_eraseDups (cs.map Cell.area))
  have hadd : addCell (groups cs) c.caps = insertCell (tolong c.mcc) (tolong c.mnc) (tolong c.lac)
      (tolong c.ci) (if tolong c.rssi > 31 then 31 else tolong c.rssi) (groups cs) := rfl
  rw [hadd, hrssi, tolong_eq hc.mcc.2 (by decide), tolong_eq hc.mnc.2 (by decide),
    tolong_eq hc.lac.2 (by decide), tolong_eq hc.ci.2 (by decide), groups, areas]
  rw [show insertCell (tonumber c.mcc) (tonumber c.mnc) (tonumber c.lac) (tonumber c.ci)
    (min (tonumber c.rssi) 31) = insertCell c.area.1 c.area.2.1 c.area.2.2 c.sample.2 c.sample.1
    from rfl, hinsert, groups, areas, List.map_append, List.map_singleton]
  by_cases hmem : c.area ∈ cs.map Cell.area
  · rw [if_pos (List.mem_eraseDups.mpr hmem), eraseDups_known hmem]
  · have hnew : c.area ∉ areas cs := fun h => hmem (List.mem_eraseDups.mp h)
    rw [if_neg (fun h => hmem (List.mem_eraseDups.mp h)), eraseDups_new hmem, List.map_append,
      List.map_singleton, group_first hnew]
    congr 1
    apply List.map_congr_left
    intro d hd
    exact (group_ne fun he => hnew (he ▸ hd)).symm

theorem foldl_groups (hc : ∀ c ∈ cs, c.Valid) : (cs.map Cell.caps).foldl addCell [] = groups cs := by
  induction cs using List.reverseRecOn with
  | nil => rfl
  | append_singleton cs c ih =>
      rw [List.map_append, List.foldl_append, ih fun d hd => hc d (List.mem_append_left _ hd)]
      exact addCell_groups (hc c (List.mem_append_right _ List.mem_cons_self))

/-! ## Reading the areas back -/

/-- Two bytes, the high one first. -/
def readH : LuaString → Option (ℕ × LuaString)
  | b :: b' :: s => some (b.toNat * 256 + b'.toNat, s)
  | _ => none

/-- A cell: the upper three bits of the first byte, the lower five ones, and the number. -/
def readCell : LuaString → Option ((ℕ × ℕ × ℕ) × LuaString)
  | [] => none
  | b :: s => (readH s).map fun r => ((b.toNat / 32, b.toNat % 32, r.1), r.2)

/-- Cells whose upper three bits are not used. -/
def readCells : ℕ → LuaString → Option (List (ℕ × ℕ) × LuaString)
  | 0, s => some ([], s)
  | n + 1, s => do
      let (c, s) ← readCell s
      if c.1 = 0 then
        let (cs, s) ← readCells n s
        some (c.2 :: cs, s)
      else none

/-- An area: the first cell tells how many follow it. -/
def readInfo (s : LuaString) : Option (Info × LuaString) := do
  let (lac, s) ← readH s
  let (mcc, s) ← readH s
  let (mnc, s) ← s.head?.map fun b => (b.toNat, s.tail)
  let (c, s) ← readCell s
  let (cs, s) ← readCells c.1 s
  some (⟨mcc, mnc, lac, c.2 :: cs⟩, s)

def readInfos : ℕ → LuaString → Option (List Info × LuaString)
  | 0, s => some ([], s)
  | n + 1, s => do
      let (v, s) ← readInfo s
      let (t, s) ← readInfos n s
      some (v :: t, s)

/-- The number of the areas and the areas, with nothing behind them. -/
def decode : LuaString → Option (List Info)
  | [] => none
  | b :: s =>
      match readInfos b.toNat s with
      | some (t, []) => some t
      | _ => none

/-- An area whose fields have room. -/
structure Info.Fits (v : Info) : Prop where
  mcc : v.mcc ≤ 65535
  mnc : v.mnc ≤ 255
  lac : v.lac ≤ 65535
  pos : v.rssici ≠ []
  count : v.rssici.length ≤ 8
  cell : ∀ n ∈ v.rssici, n.1 ≤ 31 ∧ n.2 ≤ 65535

theorem readH_packH {v : ℕ} (h : v ≤ 65535) (s : LuaString) : readH (packH v ++ s) = some (v, s) := by
  have hv : (v / 256).toUInt8.toNat * 256 + v.toUInt8.toNat = v := by
    simp only [Nat.toUInt8, UInt8.toNat_ofNat']
    omega
  simp only [packH, readH, List.cons_append, List.nil_append, hv]

/-- The two parts of the byte do not overlap. -/
theorem cntrssi_eq {k r : ℕ} (hr : r ≤ 31) : (k <<< 5) ||| r = k * 32 + r := by
  rw [Nat.shiftLeft_eq, Nat.mul_comm, ← Nat.two_pow_add_eq_or_of_lt (show r < 2 ^ 5 by omega)]

theorem readCell_packCell {count m : ℕ} {n : ℕ × ℕ} (hc : count ≤ 8) (hr : n.1 ≤ 31)
    (hi : n.2 ≤ 65535) (s : LuaString) : readCell (packCell count m n ++ s) =
      some ((if m = 1 then count - 1 else 0, n.1, n.2), s) := by
  generalize hk : (if m = 1 then count - 1 else 0) = k
  have hk7 : k ≤ 7 := by
    rw [← hk]
    split <;> omega
  have hb : (k * 32 + n.1).toUInt8.toNat = k * 32 + n.1 := by
    simp only [Nat.toUInt8, UInt8.toNat_ofNat']
    omega
  have hhigh : (k * 32 + n.1) / 32 = k := by omega
  have hlow : (k * 32 + n.1) % 32 = n.1 := by omega
  rw [packCell, hk, cntrssi_eq hr, List.cons_append, readCell, readH_packH hi]
  simp only [Option.map_some, hb, hhigh, hlow]

theorem readCells_pack {count : ℕ} (hc : count ≤ 8) {ns : List (ℕ × ℕ)}
    (hn : ∀ n ∈ ns, n.1 ≤ 31 ∧ n.2 ≤ 65535) {m : ℕ} (hm : 1 < m) (s : LuaString) :
    readCells ns.length ((ns.zipIdx m).flatMap (fun n => packCell count n.2 n.1) ++ s) =
      some (ns, s) := by
  induction ns generalizing m with
  | nil => rfl
  | cons n ns ih =>
      obtain ⟨hr, hi⟩ := hn n List.mem_cons_self
      have hrest := ih (fun x hx => hn x (List.mem_cons_of_mem n hx)) (Nat.lt_succ_of_lt hm)
      rw [List.zipIdx_cons, List.flatMap_cons, List.append_assoc, List.length_cons, readCells,
        readCell_packCell hc hr hi, if_neg (by omega)]
      simp only [Option.bind_eq_bind, Option.bind_some, if_true, hrest]

theorem readInfo_packInfo {v : Info} (h : v.Fits) (s : LuaString) :
    readInfo (packInfo v ++ s) = some (v, s) := by
  obtain ⟨mcc, mnc, lac, rssici⟩ := v
  obtain ⟨hmcc, hmnc, hlac, hpos, hcount, hcell⟩ := h
  obtain ⟨n, ns, rfl⟩ := List.exists_cons_of_ne_nil hpos
  obtain ⟨hr, hi⟩ := hcell n List.mem_cons_self
  have hbyte : mnc.toUInt8.toNat = mnc := by
    simp only [Nat.toUInt8, UInt8.toNat_ofNat']
    dsimp only at hmnc
    omega
  have hns := readCells_pack hcount (fun x hx => hcell x (List.mem_cons_of_mem n hx))
    (show 1 < 1 + 1 by decide) s
  rw [packInfo]
  simp only [List.zipIdx_cons, List.flatMap_cons, List.append_assoc]
  rw [readInfo, readH_packH hlac]
  simp only [Option.bind_eq_bind, Option.bind_some]
  rw [readH_packH hmcc]
  simp only [Option.bind_some, List.singleton_append, List.head?_cons, Option.map_some,
    List.tail_cons, hbyte]
  rw [readCell_packCell hcount hr hi, if_pos rfl]
  simp only [List.length_cons] at hns
  simp only [Option.bind_some, List.length_cons, Nat.add_sub_cancel, hns]

theorem readInfos_packInfo {t : List Info} (h : ∀ v ∈ t, v.Fits) (s : LuaString) :
    readInfos t.length (t.flatMap packInfo ++ s) = some (t, s) := by
  induction t with
  | nil => rfl
  | cons v t ih =>
      have hrest := ih fun w hw => h w (List.mem_cons_of_mem v hw)
      rw [List.flatMap_cons, List.append_assoc, List.length_cons, readInfos,
        readInfo_packInfo (h v List.mem_cons_self)]
      simp only [Option.bind_eq_bind, Option.bind_some, hrest]

theorem decode_pack {t : List Info} (ht : t.length < 256) (h : ∀ v ∈ t, v.Fits) :
    decode (t.length.toUInt8 :: t.flatMap packInfo) = some t := by
  have hlen : t.length.toUInt8.toNat = t.length := by
    simp only [Nat.toUInt8, UInt8.toNat_ofNat']
    omega
  have hread := readInfos_packInfo h []
  rw [List.append_nil] at hread
  rw [decode, hlen, hread]

/-- The areas of valid cells have room. -/
theorem groups_fit {cs : List Cell} (hc : ∀ c ∈ cs, c.Valid) : ∀ v ∈ groups cs, v.Fits := by
  intro v hv
  obtain ⟨a, ha, rfl⟩ := List.mem_map.mp hv
  obtain ⟨c, hmem, rfl⟩ := List.mem_map.mp (List.mem_eraseDups.mp ha)
  have hvalid := hc c hmem
  have hin : c ∈ cs.filter fun d => d.area = c.area :=
    List.mem_filter.mpr ⟨hmem, decide_eq_true rfl⟩
  constructor
  · exact hvalid.mcc.2
  · exact hvalid.mnc.2
  · exact hvalid.lac.2
  · intro he
    have hlen := congrArg List.length he
    have hpos := List.length_pos_of_mem hin
    simp only [group, List.length_take, List.length_map, List.length_nil] at hlen
    omega
  · exact List.length_take_le 8 _
  · intro n hn
    obtain ⟨d, hd, rfl⟩ := List.mem_map.mp (List.mem_of_mem_take hn)
    exact ⟨Nat.min_le_right _ _, (hc d (List.mem_filter.mp hd).1).ci.2⟩

theorem length_le_text (cs : List Cell) : cs.length ≤ (cs.flatMap Cell.text).length := by
  induction cs with
  | nil => exact le_refl _
  | cons c cs ih =>
      have hend : (lua ";").length = 1 := rfl
      rw [List.flatMap_cons, List.length_append, Cell.text, List.length_append, hend,
        List.length_cons]
      omega

/-- The text of valid cells is packed into bytes from which their areas are read back. -/
theorem decode_encellinfo (cs : List Cell) (hc : ∀ c ∈ cs, c.Valid) (hn : (areas cs).length < 256) :
    (encellinfo (cs.flatMap Cell.text)).bind decode = some (groups cs) := by
  have hlen := Nat.lt_succ_of_le (length_le_text cs)
  have hcount : (groups cs).length < 256 := by rwa [groups, List.length_map]
  rw [encellinfo, gmatch_cells hc hlen, foldl_groups hc, if_pos hcount, Option.bind_some,
    decode_pack hcount (groups_fit hc)]

def cell (mnc ci rssi : String) : Cell := ⟨lua "460", lua mnc, lua "6311", lua ci, lua rssi⟩

theorem decode_encellinfo_three :
    (encellinfo (lua "460.01.6311.49234.30;460.02.6311.49233.23;460.01.6311.49232.99;")).bind
      decode = some [⟨460, 1, 6311, [(30, 49234), (31, 49232)]⟩, ⟨460, 2, 6311, [(23, 49233)]⟩] := by
  have h460 : Numeral (lua "460") ∧ tonumber (lua "460") ≤ 65535 := by decide
  have h6311 : Numeral (lua "6311") ∧ tonumber (lua "6311") ≤ 65535 := by decide
  have hvalid : ∀ c ∈ [cell "01" "49234" "30", cell "02" "49233" "23", cell "01" "49232" "99"],
      c.Valid := by
    intro c hc
    simp only [List.mem_cons, List.not_mem_nil, or_false] at hc
    obtain rfl | rfl | rfl := hc
    · exact ⟨h460, by decide, h6311, by decide, by decide⟩
    · exact ⟨h460, by decide, h6311, by decide, by decide⟩
    · exact ⟨h460, by decide, h6311, by decide, by decide⟩
  exact decode_encellinfo _ hvalid (by decide)

end LuatAir200.Lbsloc
