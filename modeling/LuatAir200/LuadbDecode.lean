import LuatAir200.LuadbModel

/-!
# Decoding of LuaDB images

Both decoders run the same loop over the items of a record. What they read, and what they return,
is told by the items that the bytes begin with.
-/
namespace LuatAir200.Luadb
open Lua Tlv

/-! ## Items -/

theorem asserted {len defLen : ℕ} (h : ASSERT_LEN len defLen = none) : defLen = len := by
  by_contra hne
  rw [ASSERT_LEN, if_neg (Ne.symm hne)] at h
  cases h

@[simp] theorem assert_self (len : ℕ) : ASSERT_LEN len len = none := if_pos rfl

/-- The items of a record: the types that are known, how long a value has to be, and what is
made of it. -/
def kind {α : Type} (known : List UInt8) (need : Record α → UInt8 → ℕ → ℕ)
    (put : Record α → UInt8 → List UInt8 → Record α) : Kind (Record α) Err where
  need := need
  put := put
  err r type n := if type ∈ known then ASSERT_LEN n (need r type n) else some .UNKNOWN_TYPE
  last type := type = HeadInfoCRC
  exact {r type n} h := by
    split at h
    · exact asserted h
    · cases h

def headKind : Kind (Record DbHeadInfo) Err :=
  kind [HeadInfoReserved0x00, HeadInfoMagicNumber, HeadInfoVersion, HeadInfoLength,
      HeadInfoFilecount, HeadInfoCRC, HeadInfoReserved0xFF]
    (fun r type _ =>
      if type = HeadInfoMagicNumber then 4
      else if type = HeadInfoVersion then 2
      else if type = HeadInfoLength then 4
      else if type = HeadInfoFilecount then if r.info.verNum = 0 then 1 else 2
      else if type = HeadInfoCRC then 2
      else 0)
    fun r type v =>
      if type = HeadInfoMagicNumber then { r with magic := number v }
      else if type = HeadInfoVersion then { r with info := { r.info with verNum := number v } }
      else if type = HeadInfoLength then { r with info := { r.info with length := number v } }
      else if type = HeadInfoFilecount then
        { r with info := { r.info with filecount := number v } }
      else if type = HeadInfoCRC then { r with checkCode := number v }
      else r

/-- A name has any length. -/
def fileKind : Kind (Record DbFileInfo) Err :=
  kind [FileHeadReserved0x00, FileHeadMagicNumber, FileHeadName, FileHeadLength, FileHeadCRC,
      FileHeadReserved0xFF]
    (fun _ type n =>
      if type = FileHeadMagicNumber then 4
      else if type = FileHeadName then n
      else if type = FileHeadLength then 4
      else if type = FileHeadCRC then 2
      else 0)
    fun r type v =>
      if type = FileHeadMagicNumber then { r with magic := number v }
      else if type = FileHeadName then { r with info := { r.info with name := v } }
      else if type = FileHeadLength then { r with info := { r.info with length := number v } }
      else if type = FileHeadCRC then { r with checkCode := number v }
      else r

theorem bytes_one (d : List UInt8) (pos : ℕ) : bytes d pos 1 = (byte d pos).map ([·]) := by
  unfold bytes
  cases byte d pos <;> rfl

theorem headItem_reads (d : List UInt8) : Reads headKind d (headItem d) := by
  intro r type n pos
  unfold headItem
  split_ifs with h₁ h₂ h₃ h₄ hv h₅ h₆
  · subst h₁
    exact Option.map_map ..
  · subst h₂
    exact Option.map_map ..
  · subst h₃
    exact Option.map_map ..
  · subst h₄
    have hn : headKind.need r HeadInfoFilecount n = 1 := if_pos hv
    have he : headKind.err r HeadInfoFilecount n = ASSERT_LEN n 1 := congrArg (ASSERT_LEN n) hn
    rw [hn, he, bytes_one, Option.map_map]
    refine congrArg (fun f => (byte d pos).map f) (funext fun b => ?_)
    have hb : number [b] = b.toNat := by simp [number]
    rw [Function.comp_apply, ← hb]
    rfl
  · subst h₄
    have hn : headKind.need r HeadInfoFilecount n = 2 := if_neg hv
    have he : headKind.err r HeadInfoFilecount n = ASSERT_LEN n 2 := congrArg (ASSERT_LEN n) hn
    rw [hn, he]
    exact Option.map_map ..
  · rcases h₅ with rfl | rfl <;> rfl
  · subst h₆
    exact Option.map_map ..
  · rw [not_or] at h₅
    simp [headKind, kind, h₁, h₂, h₃, h₄, h₅.1, h₅.2, h₆, bytes]

theorem fileItem_reads (d : List UInt8) : Reads fileKind d (fileItem d) := by
  intro r type n pos
  unfold fileItem
  split_ifs with h₁ h₂ h₃ h₄ h₅
  · rcases h₁ with rfl | rfl <;> rfl
  · subst h₂
    exact Option.map_map ..
  · subst h₃
    have he : fileKind.err r FileHeadName n = none := assert_self n
    rw [he]
    rfl
  · subst h₄
    exact Option.map_map ..
  · subst h₅
    exact Option.map_map ..
  · rw [not_or] at h₁
    simp [fileKind, kind, h₁.1, h₁.2, h₂, h₃, h₄, h₅, bytes]

/-! ## Records -/

/-- The sum of the bytes, in 16 bits. -/
def checkSum (l : List UInt8) : ℕ := (l.map UInt8.toNat).sum % 2 ^ 16

theorem calcCheckCode_go {d : List UInt8} (hd : d.length < 2 ^ 32) {n : ℕ} (hn : n ≤ d.length)
    (sum : ℕ) : calcCheckCode.go d n sum =
      some ((sum + ((d.take n).map UInt8.toNat).sum) % 2 ^ 16) := by
  induction n generalizing sum with
  | zero => simp [calcCheckCode.go]
  | succ n ih =>
      have hlt : n < d.length := hn
      have hb : byte d n = some d[n] := by
        rw [byte, u32_eq (Nat.lt_trans hlt hd), List.getElem?_eq_getElem hlt]
      rw [calcCheckCode.go, hb, Option.bind_some, ih (Nat.le_of_lt hlt),
        List.take_succ_eq_append_getElem hlt, List.map_append, List.sum_append]
      simp only [List.map_cons, List.map_nil, List.sum_cons, List.sum_nil, u32]
      congr 1
      omega

theorem calcCheckCode_eq {d : List UInt8} (hd : d.length < 2 ^ 32) {n : ℕ} (hn : n ≤ d.length) :
    calcCheckCode d n = some (checkSum (d.take n)) := by
  rw [calcCheckCode, calcCheckCode_go hd hn, Nat.zero_add, checkSum]

variable {α : Type} {K : Kind (Record α) Err} {start : α}

/-- The bytes begin with items up to a check code or up to an item in error. -/
def Covered (K : Kind (Record α) Err) (start : α) (l : List UInt8) : Prop :=
  ∃ r, Walk K ⟨start, 0, 0⟩ l r

/-- A record with the magic number and its check code, in front of the rest. -/
def Sealed (K : Kind (Record α) Err) (start : α) (l : List UInt8) (info : α)
    (rest : List UInt8) : Prop :=
  Walk K ⟨start, 0, 0⟩ l
    (.sealed ⟨info, magicNumber, checkSum (l.take (l.length - rest.length - 2))⟩ rest)

variable {d : List UInt8} {item : Record α → UInt8 → ℕ → ℕ → Option (Record α × Option Err × Bool)}

theorem pos_eq {rest : List UInt8} {pos : ℕ} (hp : d.drop pos = rest) (hle : pos ≤ d.length) :
    d.length - rest.length = pos := by
  rw [← hp, List.length_drop]
  omega

/-- The end of a record whose items have been read. -/
theorem decodeRecord_sealed (hd : d.length < 2 ^ 32) {r : Record α} {pos : ℕ}
    (hle : pos ≤ d.length) (hx : scan d item (d.length + 1) 0 ⟨start, 0, 0⟩ = some (r, none, pos)) :
    decodeRecord d item start = some
      (if r.magic ≠ magicNumber then some .MAGIC
        else if checkSum (d.take (pos - 2)) ≠ r.checkCode then some .CHECK_FAIL else none,
        r.info, pos) := by
  rw [decodeRecord, hx, Option.bind_some]
  simp only [Option.isSome_none, Bool.false_eq_true, if_false]
  split_ifs with hm hc
  · rfl
  · rw [calcCheckCode_eq hd (Nat.le_trans (Nat.sub_le ..) hle), Option.map_some, if_pos hc]
  · rw [calcCheckCode_eq hd (Nat.le_trans (Nat.sub_le ..) hle), Option.map_some, if_neg hc]

theorem covered_iff (hi : Reads K d item) (hd : d.length < 2 ^ 32) :
    Covered K start d ↔ (decodeRecord d item start).isSome := by
  constructor
  · rintro ⟨r, hw⟩
    obtain ⟨⟨s, err, pos⟩, hx, hr⟩ :=
      scan_of_walk hi hd hw (Nat.zero_le _) rfl (Nat.lt_succ_self d.length)
    cases r with
    | sealed s' rest =>
        obtain ⟨-, rfl, -, hle⟩ := hr
        rw [decodeRecord_sealed hd hle hx]
        rfl
    | failed e =>
        obtain rfl := hr
        rw [decodeRecord, hx]
        rfl
  · intro h
    obtain ⟨y, hy⟩ := Option.isSome_iff_exists.mp h
    obtain ⟨x, hx, -⟩ := Option.bind_eq_some_iff.mp hy
    obtain ⟨r, hw, -⟩ := walk_of_scan hi hd (Nat.zero_le _) hx
    exact ⟨r, hw⟩

/-- What is returned with a record. -/
theorem decodeRecord_none_iff (hi : Reads K d item) (hd : d.length < 2 ^ 32) {info : α} {pos : ℕ} :
    decodeRecord d item start = some (none, info, pos) ↔
      ∃ rest, Sealed K start d info rest ∧ pos = d.length - rest.length := by
  constructor
  · intro h
    obtain ⟨⟨s, err, pos'⟩, hx, hy⟩ := Option.bind_eq_some_iff.mp h
    obtain ⟨r, hw, hr⟩ := walk_of_scan hi hd (Nat.zero_le _) hx
    cases r with
    | sealed s' rest =>
        obtain ⟨rfl, rfl, hrest, hle⟩ := hr
        rw [decodeRecord_sealed hd hle hx, Option.some_inj, Prod.mk.injEq, Prod.mk.injEq] at h
        obtain ⟨he, rfl, rfl⟩ := h
        refine ⟨rest, ?_, (pos_eq hrest hle).symm⟩
        split_ifs at he with hm hc
        · rw [not_not] at hm hc
          rw [Sealed, pos_eq hrest hle, hc, ← hm]
          exact hw
    | failed e =>
        obtain rfl := hr
        cases hy
  · rintro ⟨rest, hs, rfl⟩
    obtain ⟨⟨s, err, pos⟩, hx, rfl, rfl, hrest, hle⟩ :=
      scan_of_walk hi hd hs (Nat.zero_le _) rfl (Nat.lt_succ_self d.length)
    rw [decodeRecord_sealed hd hle hx, pos_eq hrest hle]
    simp

/-! ## The head -/

def noHead : DbHeadInfo := ⟨0, 0, 0⟩

/-- The two bytes that are tested first are there, and the items of the head if the test tells
a database. -/
def HeadCovered (d : List UInt8) : Prop :=
  ∃ x y l, d = x :: y :: l ∧ (x = 0x01 ∨ y = 0x04 → Covered headKind noHead d)

/-- The head that the bytes begin with. -/
def Head (d : List UInt8) (h : DbHeadInfo) : Prop :=
  ∃ x y l rest, d = x :: y :: l ∧ (x = 0x01 ∨ y = 0x04) ∧ Sealed headKind noHead d h rest

theorem decodeHeadInfo_none_iff (hd : d.length < 2 ^ 32) {h : DbHeadInfo} {offset : ℕ} :
    decodeHeadInfo d = some (none, h, offset) ↔
      (∃ rest, Sealed headKind noHead d h rest) ∧ offset = h.length := by
  have hspec : ∀ pos, decodeRecord d (headItem d) noHead = some (none, h, pos) ↔
      ∃ rest, Sealed headKind noHead d h rest ∧ pos = d.length - rest.length :=
    fun _ => decodeRecord_none_iff (headItem_reads d) hd
  constructor
  · intro hx
    obtain ⟨⟨err, h', pos⟩, hy, he⟩ := Option.map_eq_some_iff.mp hx
    cases err with
    | some e => cases he
    | none =>
        cases he
        obtain ⟨rest, hs, -⟩ := (hspec pos).mp hy
        exact ⟨⟨rest, hs⟩, rfl⟩
  · rintro ⟨⟨rest, hs⟩, rfl⟩
    exact Option.map_eq_some_iff.mpr ⟨_, (hspec _).mpr ⟨rest, hs, rfl⟩, rfl⟩

theorem decodeHead_cons (x y : UInt8) (l : List UInt8) :
    decodeHead (x :: y :: l) =
      if x = 0x01 ∨ y = 0x04 then decodeHeadInfo (x :: y :: l)
      else some (some .NOT_DBDATA, noHead, 0) := by
  have h₀ : byte (x :: y :: l) 0 = some x := rfl
  have h₁ : byte (x :: y :: l) 1 = some y := rfl
  rw [decodeHead, h₀, h₁]
  by_cases hx : x = 0x01
  · simp [anyOf, hx]
  · by_cases hy : y = 0x04
    · simp [anyOf, hx, hy]
    · simp [anyOf, hx, hy, noHead]

/-- A single byte that begins a record is read beyond in the record. -/
theorem decodeHead_short {d : List UInt8} (h : d.length < 2) : decodeHead d = none := by
  match d, h with
  | [], _ => rfl
  | [x], _ =>
      by_cases hx : x = 0x01
      · subst hx
        rfl
      · have h₀ : byte [x] 0 = some x := rfl
        have h₁ : byte [x] 1 = none := rfl
        simp [decodeHead, anyOf, h₀, h₁, hx]

theorem decodeHead_isSome_iff (hd : d.length < 2 ^ 32) :
    (decodeHead d).isSome ↔ HeadCovered d := by
  constructor
  · intro h
    match d, h with
    | [], h => cases h
    | [x], h =>
        rw [decodeHead_short (d := [x]) (by simp)] at h
        cases h
    | x :: y :: l, h =>
        refine ⟨x, y, l, rfl, fun ht => (covered_iff (headItem_reads _) hd).mpr ?_⟩
        rw [decodeHead_cons, if_pos ht, decodeHeadInfo, Option.isSome_map] at h
        exact h
  · rintro ⟨x, y, l, rfl, hc⟩
    rw [decodeHead_cons]
    split_ifs with ht
    · rw [decodeHeadInfo, Option.isSome_map]
      exact (covered_iff (headItem_reads _) hd).mp (hc ht)
    · rfl

theorem decodeHead_none_iff (hd : d.length < 2 ^ 32) {h : DbHeadInfo} {offset : ℕ} :
    decodeHead d = some (none, h, offset) ↔ Head d h ∧ offset = h.length := by
  constructor
  · intro he
    match d, he with
    | [], he => cases he
    | [x], he =>
        rw [decodeHead_short (d := [x]) (by simp)] at he
        cases he
    | x :: y :: l, he =>
        rw [decodeHead_cons] at he
        split_ifs at he with ht
        · obtain ⟨⟨rest, hs⟩, ho⟩ := (decodeHeadInfo_none_iff hd).mp he
          exact ⟨⟨x, y, l, rest, rfl, ht, hs⟩, ho⟩
        · cases he
  · rintro ⟨⟨x, y, l, rest, rfl, ht, hs⟩, ho⟩
    rw [decodeHead_cons, if_pos ht]
    exact (decodeHeadInfo_none_iff hd).mpr ⟨⟨rest, hs⟩, ho⟩

/-! ## The files -/

def noFile : DbFileInfo := ⟨[], 0, 0, 0⟩

/-- Files behind one another, each behind the end of the one before in 32 bits. -/
inductive Files (d : List UInt8) : ℕ → List DbFileInfo → ℕ → Prop
  | nil (offset : ℕ) : Files d offset [] offset
  | cons {offset last : ℕ} {f : DbFileInfo} {rest : List UInt8} {l : List DbFileInfo}
      (ho : offset < d.length) (hs : Sealed fileKind noFile (d.drop offset) f rest)
      (hl : Files d (u32 (d.length - rest.length + f.length)) l last) :
      Files d offset ({ f with
        data := d.length - rest.length, offset := d.length - rest.length } :: l) last

theorem Sealed.length_le {l rest : List UInt8} {info : α} (h : Sealed K start l info rest) :
    rest.length ≤ l.length := Walk.length_le h rfl

theorem u32_add (m n : ℕ) : u32 (m + u32 n) = u32 (m + n) := Nat.add_mod_mod m n _

/-- `decodeFile` from an offset within the image on. -/
theorem decodeFile_none_iff (hd : d.length < 2 ^ 32) {offset next : ℕ} (ho : offset ≤ d.length)
    {g : DbFileInfo} : decodeFile (d.drop offset) offset = some (none, g, next) ↔
      ∃ f rest, Sealed fileKind noFile (d.drop offset) f rest ∧
        g = { f with data := d.length - rest.length, offset := d.length - rest.length } ∧
        next = u32 (d.length - rest.length + f.length) := by
  have hlen : (d.drop offset).length = d.length - offset := List.length_drop
  have hd' : (d.drop offset).length < 2 ^ 32 := by omega
  have hspec : ∀ f pos,
      decodeRecord (d.drop offset) (fileItem (d.drop offset)) noFile = some (none, f, pos) ↔
        ∃ rest, Sealed fileKind noFile (d.drop offset) f rest ∧
          pos = (d.drop offset).length - rest.length :=
    fun _ _ => decodeRecord_none_iff (fileItem_reads (d.drop offset)) hd'
  -- the end of the record, counted from the begin of the image
  have hpos : ∀ {f rest}, Sealed fileKind noFile (d.drop offset) f rest →
      offset + ((d.drop offset).length - rest.length) = d.length - rest.length := by
    intro f rest hs
    have := hs.length_le
    omega
  have hnext : ∀ {f rest}, Sealed fileKind noFile (d.drop offset) f rest →
      u32 (offset + ((d.drop offset).length - rest.length)) = d.length - rest.length ∧
        u32 (offset + u32 ((d.drop offset).length - rest.length + f.length)) =
          u32 (d.length - rest.length + f.length) := by
    intro f rest hs
    rw [u32_add, ← Nat.add_assoc, hpos hs]
    exact ⟨u32_eq (by omega), rfl⟩
  constructor
  · intro h
    obtain ⟨⟨err, f, pos⟩, hx, he⟩ := Option.map_eq_some_iff.mp h
    cases err with
    | some e => cases he
    | none =>
        obtain ⟨rest, hs, rfl⟩ := (hspec f pos).mp hx
        cases he
        refine ⟨f, rest, hs, ?_, (hnext hs).2⟩
        rw [hpos hs, u32_eq (by omega)]
  · rintro ⟨f, rest, hs, rfl, rfl⟩
    refine Option.map_eq_some_iff.mpr ⟨_, (hspec f _).mpr ⟨rest, hs, rfl⟩, ?_⟩
    simp only [Option.isSome_none, Bool.false_eq_true, if_false]
    rw [(hnext hs).1, (hnext hs).2, hpos hs]

theorem decodeFile_isSome_iff (hd : d.length < 2 ^ 32) (offset : ℕ) :
    (decodeFile (d.drop offset) offset).isSome ↔ Covered fileKind noFile (d.drop offset) := by
  have hd' : (d.drop offset).length < 2 ^ 32 := by
    rw [List.length_drop]
    omega
  rw [decodeFile, Option.isSome_map, covered_iff (fileItem_reads _) hd']
  rfl

/-- All records that the loop reaches begin with complete items. -/
def FilesCovered (d : List UInt8) (n offset : ℕ) : Prop :=
  ∀ l last, Files d offset l last → l.length < n → last < d.length →
    Covered fileKind noFile (d.drop last)

theorem filesCovered_past {n offset : ℕ} (h : d.length ≤ offset) : FilesCovered d n offset := by
  intro l last hl _ hlast
  cases hl with
  | nil => exact absurd hlast (Nat.not_lt.mpr h)
  | cons ho => exact absurd ho (Nat.not_lt.mpr h)

theorem filesCovered_succ_iff {n offset : ℕ} (ho : offset < d.length) :
    FilesCovered d (n + 1) offset ↔ Covered fileKind noFile (d.drop offset) ∧
      ∀ f rest, Sealed fileKind noFile (d.drop offset) f rest →
        FilesCovered d n (u32 (d.length - rest.length + f.length)) := by
  constructor
  · intro h
    refine ⟨h [] offset (.nil offset) (Nat.succ_pos n) ho, fun f rest hs l last hl hn => ?_⟩
    exact h _ last (.cons ho hs hl) (Nat.succ_lt_succ hn)
  · rintro ⟨hc, hnext⟩ l last hl hn hlast
    cases hl with
    | nil => exact hc
    | cons _ hs hl => exact hnext _ _ hs _ last hl (Nat.lt_of_succ_lt_succ hn) hlast

theorem decodeFiles_isSome_iff (hd : d.length < 2 ^ 32) (n offset : ℕ) (acc : List DbFileInfo) :
    (decodeFiles d n offset acc).isSome ↔ FilesCovered d n offset := by
  induction n generalizing offset acc with
  | zero => exact iff_of_true rfl fun _ _ _ hn => absurd hn (Nat.not_lt_zero _)
  | succ n ih =>
      rw [decodeFiles]
      split_ifs with ho
      · rw [filesCovered_succ_iff ho, ← decodeFile_isSome_iff hd offset]
        have hspec := @decodeFile_none_iff d hd offset
        cases hx : decodeFile (d.drop offset) offset with
        | none => simp
        | some x =>
            obtain ⟨err, g, next⟩ := x
            cases err with
            | some e =>
                refine iff_of_true rfl ⟨rfl, fun f rest hs => ?_⟩
                cases hx.symm.trans ((hspec (Nat.le_of_lt ho)).mpr ⟨f, rest, hs, rfl, rfl⟩)
            | none =>
                obtain ⟨f, rest, hs, -, hn⟩ := (hspec (Nat.le_of_lt ho)).mp hx
                refine (ih _ _).trans ⟨fun h => ⟨rfl, fun f' rest' hs' => ?_⟩, fun h => ?_⟩
                · have h' := hx.symm.trans ((hspec (Nat.le_of_lt ho)).mpr
                    ⟨f', rest', hs', rfl, rfl⟩)
                  have hn' : next = u32 (d.length - rest'.length + f'.length) :=
                    congrArg (fun y => y.2.2) (Option.some.inj h')
                  exact hn' ▸ h
                · exact hn ▸ h.2 f rest hs
      · exact iff_of_true rfl (filesCovered_past (Nat.not_lt.mp ho))

/-- The loop ends behind the last file that was asked for, or behind the image. -/
def Ends (d : List UInt8) (n : ℕ) (l : List DbFileInfo) (last : ℕ) : Prop :=
  l.length = n ∨ l.length < n ∧ d.length ≤ last

theorem decodeFiles_of_files (hd : d.length < 2 ^ 32) {offset last : ℕ} {l : List DbFileInfo}
    (hl : Files d offset l last) {n : ℕ} (he : Ends d n l last) (acc : List DbFileInfo) :
    decodeFiles d n offset acc = some (none, acc ++ l, last) := by
  induction hl generalizing n acc with
  | nil offset =>
      rw [List.append_nil]
      cases n with
      | zero => rfl
      | succ n =>
          rcases he with he | ⟨-, he⟩
          · cases he
          · rw [decodeFiles, if_neg (Nat.not_lt.mpr he)]
  | @cons offset last f rest l ho hs hl ih =>
      cases n with
      | zero => rcases he with he | ⟨he, -⟩ <;> cases he
      | succ n =>
          have he' : Ends d n l last :=
            he.imp Nat.succ.inj fun h => ⟨Nat.lt_of_succ_lt_succ h.1, h.2⟩
          have hf := (decodeFile_none_iff hd (Nat.le_of_lt ho)).mpr ⟨f, rest, hs, rfl, rfl⟩
          rw [decodeFiles, if_pos ho, hf, Option.bind_some]
          simp only [Option.isSome_none, Bool.false_eq_true, if_false]
          rw [ih he', List.append_assoc, List.singleton_append]

theorem files_of_decodeFiles (hd : d.length < 2 ^ 32) {n offset last : ℕ}
    {acc all : List DbFileInfo} (h : decodeFiles d n offset acc = some (none, all, last)) :
    ∃ l, all = acc ++ l ∧ Files d offset l last ∧ Ends d n l last := by
  induction n generalizing offset acc with
  | zero =>
      cases h
      exact ⟨[], (List.append_nil _).symm, .nil _, .inl rfl⟩
  | succ n ih =>
      rw [decodeFiles] at h
      split_ifs at h with ho
      · obtain ⟨⟨err, g, next⟩, hx, h⟩ := Option.bind_eq_some_iff.mp h
        cases err with
        | some e => cases h
        | none =>
            obtain ⟨f, rest, hs, rfl, rfl⟩ := (decodeFile_none_iff hd (Nat.le_of_lt ho)).mp hx
            obtain ⟨l, rfl, hl, he⟩ := ih h
            refine ⟨_ :: l, List.append_assoc .., .cons ho hs hl, ?_⟩
            exact he.imp (congrArg (· + 1)) fun h => ⟨Nat.succ_lt_succ h.1, h.2⟩
      · cases h
        exact ⟨[], (List.append_nil _).symm, .nil _,
          .inr ⟨Nat.succ_pos n, Nat.not_lt.mp ho⟩⟩

theorem decodeList_none_iff (hd : d.length < 2 ^ 32) {h : DbHeadInfo} {offset : ℕ}
    {l : List DbFileInfo} : decodeList d h offset = some (none, l) ↔
      l.length = h.filecount ∧ ∃ last ≤ d.length, Files d offset l last := by
  constructor
  · intro hx
    obtain ⟨⟨err, all, last⟩, hy, hx⟩ := Option.map_eq_some_iff.mp hx
    cases err with
    | some e => cases hx
    | none =>
        simp only [Option.isSome_none, Bool.false_eq_true, if_false] at hx
        split_ifs at hx with h₁ h₂ <;> cases hx
        obtain ⟨l', rfl, hl, -⟩ := files_of_decodeFiles hd hy
        exact ⟨not_not.mp h₂, last, Nat.not_lt.mp h₁, hl⟩
  · rintro ⟨hn, last, hle, hl⟩
    have hx := decodeFiles_of_files hd hl (.inl hn) []
    refine Option.map_eq_some_iff.mpr ⟨_, hx, ?_⟩
    simp [Nat.not_lt.mpr hle, hn]

/-- What the image has to be like for its decoding to stay within it. -/
structure Readable (d : List UInt8) : Prop where
  head : HeadCovered d
  files : ∀ h, Head d h → FilesCovered d h.filecount h.length

/-- The files of an image that is sound. -/
def Sound (d : List UInt8) (l : List DbFileInfo) : Prop :=
  ∃ h, Head d h ∧ l.length = h.filecount ∧ ∃ last ≤ d.length, Files d h.length l last

theorem decode_isSome_iff (hd : d.length < 2 ^ 32) : (decode d).isSome ↔ Readable d := by
  have hhead := decodeHead_isSome_iff hd
  cases hx : decodeHead d with
  | none =>
      rw [hx] at hhead
      exact iff_of_false (by simp [decode, hx]) fun hr => nomatch hhead.mpr hr.head
  | some x =>
      obtain ⟨err, h, offset⟩ := x
      rw [hx] at hhead
      have hc := hhead.mp rfl
      have hnone : ∀ h offset, decodeHead d = some (none, h, offset) ↔
          Head d h ∧ offset = h.length := fun _ _ => decodeHead_none_iff hd
      rw [hx] at hnone
      rw [decode, hx, Option.bind_some]
      cases err with
      | some e =>
          refine iff_of_true rfl ⟨hc, fun h' hh => ?_⟩
          cases (hnone h' h'.length).mpr ⟨hh, rfl⟩
      | none =>
          obtain ⟨hh, rfl⟩ := (hnone h offset).mp rfl
          simp only [Option.isSome_none, Bool.false_eq_true, if_false]
          rw [decodeList, Option.isSome_map, decodeFiles_isSome_iff hd]
          refine ⟨fun hf => ⟨hc, fun h' hh' => ?_⟩, fun hr => hr.files h hh⟩
          cases (hnone h' h'.length).mpr ⟨hh', rfl⟩
          exact hf

theorem decode_none_iff (hd : d.length < 2 ^ 32) {l : List DbFileInfo} :
    decode d = some (none, l) ↔ Sound d l := by
  constructor
  · intro hx
    obtain ⟨⟨err, h, offset⟩, hy, hx⟩ := Option.bind_eq_some_iff.mp hx
    cases err with
    | some e => cases hx
    | none =>
        obtain ⟨hh, rfl⟩ := (decodeHead_none_iff hd).mp hy
        exact ⟨h, hh, (decodeList_none_iff hd).mp hx⟩
  · rintro ⟨h, hh, hl⟩
    rw [decode, (decodeHead_none_iff hd).mpr ⟨hh, rfl⟩, Option.bind_some]
    exact (decodeList_none_iff hd).mpr hl

end LuatAir200.Luadb
