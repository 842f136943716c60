import LuatAir200.LuadbInstall

/-!
# Well-formed LuaDB images

An image is a head and then each file behind a record of its own. Reserved items stand anywhere
in a head or a record.
-/
namespace LuatAir200.Luadb
open Lua Tlv
open ScriptStreams (Section s32)

/-! ## Images -/

def le16 (n : ℕ) : List UInt8 := [UInt8.ofNat n, UInt8.ofNat (n / 256)]

def le32 (n : ℕ) : List UInt8 := le16 (n % 65536) ++ le16 (n / 65536)

theorem number_le16 {n : ℕ} (h : n < 65536) : number (le16 n) = n := by
  simp [number, le16, Nat.ofDigits]
  omega

theorem number_le32 {n : ℕ} (h : n < 2 ^ 32) : number (le32 n) = n := by
  simp [number, le32, le16, Nat.ofDigits]
  omega

/-- An item that stands for nothing. -/
def reserved (i : Tlv.Item) : Bool := i.type = FileHeadReserved0x00 ∨ i.type = FileHeadReserved0xFF

def magicItem : Tlv.Item := ⟨FileHeadMagicNumber, le32 magicNumber, by decide⟩

/-- Items with their check code. -/
def withCheckCode (items : List Tlv.Item) : List UInt8 :=
  let front := encode items ++ [FileHeadCRC, 2]
  front ++ le16 (checkSum front)

/-- A file and the items of its record. -/
structure FileRecord where
  name : List UInt8
  data : List UInt8
  items : List Tlv.Item
  short : name.length < 256
  text : (0 : UInt8) ∉ name
  small : data.length < 2 ^ 32
  empty : ∀ i ∈ items, reserved i → i.value = []
  fields : items.filter (!reserved ·) =
    [magicItem, ⟨FileHeadName, name, short⟩,
      ⟨FileHeadLength, le32 data.length, by simp [le32, le16]⟩]

def FileRecord.encode (f : FileRecord) : List UInt8 := withCheckCode f.items ++ f.data

/-- A version of 0 has a count of one byte. -/
def countItem (verNum count : ℕ) : Tlv.Item :=
  if verNum = 0 then ⟨HeadInfoFilecount, [UInt8.ofNat count], by simp⟩
  else ⟨HeadInfoFilecount, le16 count, by simp [le16]⟩

structure Image where
  verNum : ℕ
  items : List Tlv.Item
  files : List FileRecord
  version : verNum < 65536
  count : files.length < if verNum = 0 then 256 else 65536
  size : (encode items).length + 4 < 2 ^ 32
  empty : ∀ i ∈ items, reserved i → i.value = []
  fields : items.filter (!reserved ·) =
    [magicItem, ⟨HeadInfoVersion, le16 verNum, by simp [le16]⟩,
      ⟨HeadInfoLength, le32 ((encode items).length + 4), by simp [le32, le16]⟩,
      countItem verNum files.length]

def Image.encode (img : Image) : List UInt8 :=
  withCheckCode img.items ++ img.files.flatMap FileRecord.encode

/-- The files from an offset on, as they are to be decoded. -/
def entriesAt : ℕ → List FileRecord → List DbFileInfo
  | _, [] => []
  | offset, f :: l =>
      let data := offset + (withCheckCode f.items).length
      ⟨f.name, f.data.length, data, data⟩ :: entriesAt (data + f.data.length) l

def Image.entries (img : Image) : List DbFileInfo :=
  entriesAt (withCheckCode img.items).length img.files

/-! ## Decoding -/

variable {α : Type} {K : Kind (Record α) Err}

/-- Reserved items leave the record as it is. -/
def Neutral (K : Kind (Record α) Err) : Prop :=
  ∀ r i, reserved i → i.value = [] →
    K.last i.type = false ∧ K.err r i.type i.value.length = none ∧ K.put r i.type i.value = r

theorem Neutral.takes (hK : Neutral K) {items : List Tlv.Item}
    (he : ∀ i ∈ items, reserved i → i.value = []) {r : Record α}
    (h : Takes K r (items.filter (!reserved ·))) :
    Takes K r items ∧ putAll K r items = putAll K r (items.filter (!reserved ·)) := by
  induction items generalizing r with
  | nil => exact ⟨h, rfl⟩
  | cons i items ih =>
      have he' : ∀ j ∈ items, reserved j → j.value = [] :=
        fun j hj => he j (List.mem_cons_of_mem i hj)
      by_cases hr : reserved i
      · obtain ⟨hl, herr, hput⟩ := hK r i hr (he i List.mem_cons_self hr)
        rw [List.filter_cons_of_neg (by simp [hr])] at h ⊢
        have hi := ih he' h
        refine ⟨⟨hl, herr, by rw [hput]; exact hi.1⟩, ?_⟩
        rw [← hi.2]
        exact congrArg (fun s => putAll K s items) hput
      · rw [List.filter_cons_of_pos (by simp [hr])] at h ⊢
        obtain ⟨hl, herr, hrest⟩ := h
        have hi := ih he' hrest
        exact ⟨⟨hl, herr, hi.1⟩, hi.2⟩

theorem headKind_neutral : Neutral headKind := by
  intro r i hr hv
  rw [hv]
  rcases of_decide_eq_true hr with h | h <;> rw [h] <;> exact ⟨rfl, rfl, rfl⟩

theorem fileKind_neutral : Neutral fileKind := by
  intro r i hr hv
  rw [hv]
  rcases of_decide_eq_true hr with h | h <;> rw [h] <;> exact ⟨rfl, rfl, rfl⟩

/-- The check code of both kinds. -/
def Closes (K : Kind (Record α) Err) : Prop :=
  ∀ r v, K.last FileHeadCRC = true ∧ K.err r FileHeadCRC 2 = none ∧
    K.put r FileHeadCRC v = { r with checkCode := number v }

theorem sealed_withCheckCode (hK : Neutral K) (hc : Closes K) {start info : α} {checkCode : ℕ}
    {items : List Tlv.Item} (he : ∀ i ∈ items, reserved i → i.value = [])
    (ht : Takes K ⟨start, 0, 0⟩ (items.filter (!reserved ·)))
    (hp : putAll K ⟨start, 0, 0⟩ (items.filter (!reserved ·)) = ⟨info, magicNumber, checkCode⟩)
    (rest : List UInt8) : Sealed K start (withCheckCode items ++ rest) info rest := by
  obtain ⟨hitems, hput⟩ := hK.takes he ht
  let front := encode items ++ [FileHeadCRC, 2]
  let sum := le16 (checkSum front)
  have hbytes : withCheckCode items ++ rest = front ++ (sum ++ rest) := List.append_assoc ..
  have htake : (withCheckCode items ++ rest).take
      ((withCheckCode items ++ rest).length - rest.length - 2) = front := by
    have hlen : (front ++ (sum ++ rest)).length - rest.length - 2 = front.length := by
      simp only [List.length_append, sum, le16, List.length_cons, List.length_nil]
      omega
    rw [hbytes, hlen, List.take_left]
  have hsum : number sum = checkSum front := number_le16 (Nat.mod_lt _ (by decide))
  obtain ⟨hl, herr, hlast⟩ := hc ⟨info, magicNumber, checkCode⟩ sum
  have hw : Walk K ⟨info, magicNumber, checkCode⟩ (FileHeadCRC :: 2 :: (sum ++ rest))
      (.sealed (K.put ⟨info, magicNumber, checkCode⟩ FileHeadCRC sum) rest) :=
    .last hl herr rfl
  have hfront : front ++ (sum ++ rest) = encode items ++ FileHeadCRC :: 2 :: (sum ++ rest) := by
    simp [front]
  rw [hlast, hsum] at hw
  rw [Sealed, htake, hbytes, hfront]
  refine Walk.encode hitems ?_
  rw [hput, hp]
  exact hw

theorem headKind_closes : Closes headKind := fun _ _ => ⟨rfl, rfl, rfl⟩

theorem fileKind_closes : Closes fileKind := fun _ _ => ⟨rfl, rfl, rfl⟩

theorem sealed_file (f : FileRecord) (rest : List UInt8) :
    Sealed fileKind noFile (withCheckCode f.items ++ rest) ⟨f.name, f.data.length, 0, 0⟩ rest := by
  have ht : Takes fileKind ⟨noFile, 0, 0⟩ (f.items.filter (!reserved ·)) := by
    rw [f.fields]
    exact ⟨rfl, rfl, rfl, if_pos rfl, rfl, rfl, trivial⟩
  have hp : putAll fileKind ⟨noFile, 0, 0⟩ (f.items.filter (!reserved ·)) =
      ⟨⟨f.name, f.data.length, 0, 0⟩, magicNumber, 0⟩ := by
    have hput : putAll fileKind ⟨noFile, 0, 0⟩ (f.items.filter (!reserved ·)) =
        ⟨⟨f.name, number (le32 f.data.length), 0, 0⟩, number (le32 magicNumber), 0⟩ := by
      rw [f.fields]
      rfl
    rw [hput, number_le32 f.small, number_le32 (by decide)]
  exact sealed_withCheckCode fileKind_neutral fileKind_closes f.empty ht hp rest

theorem Image.headLength (img : Image) :
    (withCheckCode img.items).length = (Tlv.encode img.items).length + 4 := by
  simp [withCheckCode, le16]

/-- The count is read by the version in front of it. -/
theorem countItem_taken {verNum count : ℕ} (h : count < if verNum = 0 then 256 else 65536)
    {r : Record DbHeadInfo} (hr : r.info.verNum = verNum) :
    headKind.last (countItem verNum count).type = false ∧
      headKind.err r (countItem verNum count).type (countItem verNum count).value.length = none ∧
      headKind.put r (countItem verNum count).type (countItem verNum count).value =
        { r with info := { r.info with filecount := count } } := by
  unfold countItem
  by_cases hv : verNum = 0
  · rw [if_pos hv] at h ⊢
    have hn : headKind.need r HeadInfoFilecount 1 = 1 := if_pos (hr.trans hv)
    have hnum : number [UInt8.ofNat count] = count := by
      simp [number, Nat.mod_eq_of_lt h]
    refine ⟨rfl, (congrArg (ASSERT_LEN 1) hn).trans (assert_self 1), ?_⟩
    exact congrArg (fun n => { r with info := { r.info with filecount := n } }) hnum
  · rw [if_neg hv] at h ⊢
    have hn : headKind.need r HeadInfoFilecount 2 = 2 := if_neg fun h => hv (hr.symm.trans h)
    refine ⟨rfl, (congrArg (ASSERT_LEN 2) hn).trans (assert_self 2), ?_⟩
    exact congrArg (fun n => { r with info := { r.info with filecount := n } }) (number_le16 h)

theorem sealed_head (img : Image) (rest : List UInt8) :
    Sealed headKind noHead (withCheckCode img.items ++ rest)
      ⟨img.verNum, img.files.length, (withCheckCode img.items).length⟩ rest := by
  -- what is known of the head in front of the count
  let r : Record DbHeadInfo := ⟨⟨number (le16 img.verNum), 0,
    number (le32 ((Tlv.encode img.items).length + 4))⟩, number (le32 magicNumber), 0⟩
  obtain ⟨hlast, herr, hput⟩ := countItem_taken (r := r) img.count (number_le16 img.version)
  have ht : Takes headKind ⟨noHead, 0, 0⟩ (img.items.filter (!reserved ·)) := by
    rw [img.fields]
    exact ⟨rfl, rfl, rfl, rfl, rfl, rfl, hlast, herr, trivial⟩
  have hp : putAll headKind ⟨noHead, 0, 0⟩ (img.items.filter (!reserved ·)) =
      ⟨⟨img.verNum, img.files.length, (withCheckCode img.items).length⟩, magicNumber, 0⟩ := by
    have hall : putAll headKind ⟨noHead, 0, 0⟩ (img.items.filter (!reserved ·)) =
        headKind.put r (countItem img.verNum img.files.length).type
          (countItem img.verNum img.files.length).value := by
      rw [img.fields]
      rfl
    rw [hall, hput, img.headLength]
    simp only [r]
    rw [number_le16 img.version, number_le32 img.size, number_le32 (by decide)]
  exact sealed_withCheckCode headKind_neutral headKind_closes img.empty ht hp rest

/-- The bytes of an image begin with its magic number, not with a reserved item. -/
def Image.Begins (img : Image) : Prop := ∃ l, img.items = magicItem :: l

theorem Image.cons (img : Image) : ∃ i l, img.items = i :: l ∧ (reserved i ∨ i = magicItem) := by
  have h := img.fields
  cases hi : img.items with
  | nil =>
      rw [hi] at h
      cases h
  | cons i l =>
      refine ⟨i, l, rfl, ?_⟩
      by_cases hr : reserved i
      · exact .inl hr
      · rw [hi, List.filter_cons_of_pos (by simp [hr])] at h
        exact .inr (List.cons.inj h).1

/-- The two bytes that are tested. -/
theorem withCheckCode_cons (i : Tlv.Item) (items : List Tlv.Item) (rest : List UInt8) :
    ∃ l, withCheckCode (i :: items) ++ rest = i.type :: UInt8.ofNat i.value.length :: l :=
  ⟨_, rfl⟩

theorem head_of_begins {img : Image} (h : img.Begins) (rest : List UInt8) :
    Head (withCheckCode img.items ++ rest)
      ⟨img.verNum, img.files.length, (withCheckCode img.items).length⟩ := by
  obtain ⟨items, hi⟩ := h
  obtain ⟨l, hl⟩ := withCheckCode_cons magicItem items rest
  exact ⟨_, _, l, rest, by rw [hi]; exact hl, .inl rfl, sealed_head img rest⟩

/-- An image that does not begin so is not taken for one. -/
theorem decode_not_begins {img : Image} (h : ¬ img.Begins) (rest : List UInt8) :
    decode (withCheckCode img.items ++ rest) = some (some .NOT_DBDATA, []) := by
  obtain ⟨i, items, hi, hr⟩ := img.cons
  have hres : reserved i := hr.resolve_right fun hm => h ⟨items, hm ▸ hi⟩
  have hv : i.value = [] := img.empty i (by rw [hi]; exact List.mem_cons_self) hres
  obtain ⟨l, hl⟩ := withCheckCode_cons i items rest
  have hdb : ¬ (i.type = 0x01 ∨ UInt8.ofNat i.value.length = 0x04) := by
    rw [hv]
    rcases of_decide_eq_true hres with ht | ht <;> rw [ht] <;> decide
  rw [hi, hl, decode, decodeHead_cons, if_neg hdb]
  rfl

/-- The records of the files, with any bytes behind the last. -/
theorem files_entriesAt {d : List UInt8} (hd : d.length < 2 ^ 32) {files : List FileRecord}
    {offset : ℕ} {rest : List UInt8}
    (hr : d.drop offset = files.flatMap FileRecord.encode ++ rest) (ho : offset ≤ d.length) :
    ∃ last ≤ d.length, Files d offset (entriesAt offset files) last := by
  induction files generalizing offset with
  | nil => exact ⟨offset, ho, .nil offset⟩
  | cons f files ih =>
      rw [List.flatMap_cons, FileRecord.encode, List.append_assoc, List.append_assoc] at hr
      have hlen := congrArg List.length hr
      have hrec : (withCheckCode f.items).length ≥ 4 := by
        simp [withCheckCode, le16]
      simp only [List.length_append, List.length_drop] at hlen
      have hs := sealed_file f (f.data ++ (files.flatMap FileRecord.encode ++ rest))
      rw [← hr] at hs
      have hdata : d.length - (f.data ++ (files.flatMap FileRecord.encode ++ rest)).length =
          offset + (withCheckCode f.items).length := by
        simp only [List.length_append]
        omega
      have hnext : u32 (offset + (withCheckCode f.items).length + f.data.length) =
          offset + (withCheckCode f.items).length + f.data.length := u32_eq (by omega)
      have hdrop : d.drop (offset + (withCheckCode f.items).length + f.data.length) =
          files.flatMap FileRecord.encode ++ rest := drop_add (drop_add hr)
      obtain ⟨last, hlast, hfiles⟩ := ih hdrop (by omega)
      refine ⟨last, hlast, ?_⟩
      have hcons : Files d offset _ last := .cons (l := entriesAt _ files) (by omega) hs
        (by rw [hdata, hnext]; exact hfiles)
      rw [hdata] at hcons
      exact hcons

/-- An image that begins with its magic number is decoded. -/
theorem sound_of_begins {img : Image} (h : img.Begins) {rest : List UInt8}
    (hd : (img.encode ++ rest).length < 2 ^ 32) : Sound (img.encode ++ rest) img.entries := by
  have hbytes : img.encode ++ rest =
      withCheckCode img.items ++ (img.files.flatMap FileRecord.encode ++ rest) :=
    List.append_assoc ..
  have hlen : ∀ offset (files : List FileRecord),
      (entriesAt offset files).length = files.length := by
    intro offset files
    induction files generalizing offset with
    | nil => rfl
    | cons f files ih => rw [entriesAt, List.length_cons, List.length_cons, ih]
  have hle : (withCheckCode img.items).length ≤ (img.encode ++ rest).length := by
    rw [hbytes, List.length_append]
    exact Nat.le_add_right ..
  have hdrop : (img.encode ++ rest).drop (withCheckCode img.items).length =
      img.files.flatMap FileRecord.encode ++ rest := by
    rw [hbytes, List.drop_left]
  have hhead := head_of_begins h (img.files.flatMap FileRecord.encode ++ rest)
  rw [← hbytes] at hhead
  exact ⟨_, hhead, hlen _ _, files_entriesAt hd hdrop hle⟩

/-! ## Installation -/

section
variable (b : Build) (lzma : Lzma) (d : List UInt8) (override : Bool) (sec : Section)

/-- What is to be done with a file: it goes into the table, or it is written unless it is there
and may not be overwritten. -/
def wanted (disk : Disk) (f : DbFileInfo) : Option Event :=
  let path := target f.name
  if f.name = [] then none
  else if isZip f.name then
    if writes override path disk then
      some (.file path ((lzma.decode f.length (slice d f)).join.getD []))
    else none
  else if isTabled b f.name then some (.item path ⟨s32 f.offset, s32 f.length⟩)
  else if writes override path disk then some (.file path (slice d f))
  else none

def wantedAll : ℕ → Disk → List DbFileInfo → List (ℕ × Event)
  | _, _, [] => []
  | i, disk, f :: l =>
      let e := wanted b lzma d override disk f
      e.toList.map (i, ·) ++ wantedAll (i + 1) (applyAll sec e disk) l

/-- A file that can be installed: the name is long enough, what is unzipped is a stream of some
content, nothing that is copied is empty, and no path that is written is in the table of the
update. -/
structure Ready (disk : Disk) (f : DbFileInfo) : Prop where
  long : isZip f.name = false ∧ isTabled b f.name ∨ writes override (target f.name) disk →
    4 < f.name.length
  unzips : isZip f.name → writes override (target f.name) disk → LZMA_HEAD_SIZE < f.length ∧
    ¬ shadowed (target f.name) disk ∧
      ∃ c content, lzma.decode f.length (slice d f) = some (some (c :: content))
  copies : ¬ isZip f.name → ¬ isTabled b f.name → writes override (target f.name) disk →
    ¬ shadowed (target f.name) disk ∧ slice d f ≠ []

/-- All of them can, each on the disk that the ones before it have left. -/
def AllReady : Disk → List DbFileInfo → Prop
  | _, [] => True
  | disk, f :: l => (f.name ≠ [] → Ready b lzma d override disk f) ∧
      AllReady (applyAll sec (wanted b lzma d override disk f) disk) l

end

variable {b : Build} {lzma : Lzma} {d : List UInt8} {override : Bool} {sec : Section}

theorem outcome_wanted_iff {disk : Disk} {f : DbFileInfo} (h : 4 < f.name.length) :
    outcome b lzma d override disk f = some (wanted b lzma d override disk f) ↔
      Ready b lzma d override disk f := by
  have hne : f.name ≠ [] := by
    intro hn
    rw [hn] at h
    cases h
  unfold outcome wanted
  by_cases hz : isZip f.name
  · simp only [if_neg hne, if_pos hz]
    by_cases hw : writes override (target f.name) disk
    · simp only [if_pos hw]
      constructor
      · intro he
        refine ⟨fun _ => h, fun _ _ => ?_, fun hz' => absurd hz hz'⟩
        by_cases hc : LZMA_HEAD_SIZE < f.length ∧ ¬ shadowed (target f.name) disk
        · rw [if_pos hc] at he
          split at he
          · next c content hx => exact ⟨hc.1, hc.2, c, content, hx⟩
          · cases he
        · rw [if_neg hc] at he
          cases he
      · intro hr
        obtain ⟨hl, hs, c, content, hx⟩ := hr.unzips hz hw
        rw [if_pos ⟨hl, hs⟩, hx]
        rfl
    · simp only [if_neg hw]
      exact iff_of_true trivial
        ⟨fun _ => h, fun _ hw' => absurd hw' hw, fun hz' => absurd hz hz'⟩
  · simp only [if_neg hne, if_neg hz]
    by_cases ht : isTabled b f.name
    · simp only [if_pos ht]
      exact iff_of_true trivial
        ⟨fun _ => h, fun hz' => absurd hz' hz, fun _ ht' => absurd ht ht'⟩
    · simp only [if_neg ht]
      by_cases hw : writes override (target f.name) disk
      · simp only [if_pos hw]
        constructor
        · intro he
          refine ⟨fun _ => h, fun hz' => absurd hz' hz, fun _ _ _ => ?_⟩
          by_cases hs : shadowed (target f.name) disk
          · rw [if_pos hs] at he
            split_ifs at he
            cases he
          · rw [if_neg hs] at he
            split_ifs at he with hn
            exact ⟨hs, hn⟩
        · intro hr
          obtain ⟨hs, hn⟩ := hr.copies hz ht hw
          rw [if_neg hs, if_neg hn]
      · simp only [if_neg hw]
        exact iff_of_true trivial
          ⟨fun _ => h, fun hz' => absurd hz' hz, fun _ _ hw' => absurd hw' hw⟩

/-- A short name is passed over. -/
theorem wanted_eq_none_iff {disk : Disk} {f : DbFileInfo} (hne : f.name ≠ []) :
    wanted b lzma d override disk f = none ↔
      ¬ (isZip f.name = false ∧ isTabled b f.name ∨ writes override (target f.name) disk) := by
  unfold wanted
  by_cases hz : isZip f.name <;> by_cases ht : isTabled b f.name <;>
    by_cases hw : writes override (target f.name) disk <;> simp [hne, hz, ht, hw]

theorem step_wanted_iff {disk : Disk} {f : DbFileInfo} :
    step b lzma d override disk f = some (wanted b lzma d override disk f) ↔
      (f.name ≠ [] → Ready b lzma d override disk f) := by
  unfold step
  by_cases h : 4 < f.name.length
  · have hne : f.name ≠ [] := by
      intro hn
      rw [hn] at h
      cases h
    rw [if_pos h, outcome_wanted_iff h]
    exact ⟨fun hr _ => hr, fun hr => hr hne⟩
  · rw [if_neg h, Option.some_inj]
    constructor
    · intro he hne
      have hn := (wanted_eq_none_iff hne).mp he.symm
      rw [not_or] at hn
      refine ⟨fun ho => absurd ho (not_or.mpr hn), fun _ hw => absurd hw hn.2,
        fun _ _ hw => absurd hw hn.2⟩
    · intro hr
      by_cases hne : f.name = []
      · rw [wanted, if_pos hne]
      · exact ((wanted_eq_none_iff hne).mpr fun ho => h ((hr hne).long ho)).symm

/-- Only files from the index on are noted. -/
theorem steps_index {l : List DbFileInfo} {i : ℕ} {disk : Disk} {evs : List (ℕ × Event)}
    (h : steps b lzma d override sec i disk l = some evs) : ∀ e ∈ evs, i ≤ e.1 := by
  induction l generalizing i disk evs with
  | nil =>
      cases h
      nofun
  | cons f l ih =>
      obtain ⟨e, -, h⟩ := Option.bind_eq_some_iff.mp h
      obtain ⟨evs, hx, rfl⟩ := Option.map_eq_some_iff.mp h
      intro x hm
      rcases List.mem_append.mp hm with hm | hm
      · obtain ⟨y, -, rfl⟩ := List.mem_map.mp hm
        exact Nat.le_refl i
      · exact Nat.le_of_succ_le (ih hx x hm)

theorem wantedAll_index {l : List DbFileInfo} {i : ℕ} {disk : Disk} :
    ∀ e ∈ wantedAll b lzma d override sec i disk l, i ≤ e.1 := by
  induction l generalizing i disk with
  | nil => nofun
  | cons f l ih =>
      intro x hm
      rcases List.mem_append.mp hm with hm | hm
      · obtain ⟨y, -, rfl⟩ := List.mem_map.mp hm
        exact Nat.le_refl i
      · exact Nat.le_of_succ_le (ih x hm)

/-- What is noted of one file in front of later ones. -/
theorem noted_inj {i : ℕ} {e e' : Option Event} {l l' : List (ℕ × Event)}
    (hl : ∀ x ∈ l, i + 1 ≤ x.1) (hl' : ∀ x ∈ l', i + 1 ≤ x.1)
    (h : e.toList.map (i, ·) ++ l = e'.toList.map (i, ·) ++ l') : e = e' ∧ l = l' := by
  cases e <;> cases e' <;>
    simp only [Option.toList_none, Option.toList_some, List.map_nil, List.map_cons,
      List.nil_append, List.cons_append] at h
  · exact ⟨rfl, h⟩
  · have := hl _ (h ▸ List.mem_cons_self)
    exact absurd this (Nat.not_succ_le_self i)
  · have := hl' _ (h ▸ List.mem_cons_self)
    exact absurd this (Nat.not_succ_le_self i)
  · obtain ⟨hx, rfl⟩ := List.cons.inj h
    exact ⟨congrArg some (Prod.mk.inj hx).2, rfl⟩

/-- Everything is installed as it is wanted exactly if all files can be. -/
theorem steps_wanted_iff {l : List DbFileInfo} {i : ℕ} {disk : Disk} :
    steps b lzma d override sec i disk l = some (wantedAll b lzma d override sec i disk l) ↔
      AllReady b lzma d override sec disk l := by
  induction l generalizing i disk with
  | nil => exact iff_of_true rfl trivial
  | cons f l ih =>
      rw [AllReady, ← step_wanted_iff, ← ih (i := i + 1)]
      constructor
      · intro h
        obtain ⟨e, he, h⟩ := Option.bind_eq_some_iff.mp h
        obtain ⟨evs, hx, h⟩ := Option.map_eq_some_iff.mp h
        obtain ⟨rfl, rfl⟩ := noted_inj (steps_index hx) wantedAll_index h
        exact ⟨he, hx⟩
      · rintro ⟨he, hx⟩
        rw [steps, he, Option.bind_some, hx]
        rfl

/-! ## `parse_luadb_data` -/

/-- A platform that never fails. -/
def Platform.fine : Platform := ⟨true, fun _ => .fine⟩

/-- What is expected of `parse_luadb_data` with the bytes of an image or with any other. -/
structure Right (b : Build) (lzma : Lzma) (override : Bool) (sec : Section) (disk : Disk)
    (d : List UInt8) : Prop where
  stays : ∀ p, (parse_luadb_data b lzma p d override sec disk).isSome
  decodes : ∀ (img : Image) rest, d = img.encode ++ rest → decode d = some (none, img.entries)
  installs : ∀ (img : Image) rest, d = img.encode ++ rest →
    ∃ r, parse_luadb_data b lzma .fine d override sec disk = some r ∧ r.err = none ∧
      r.inst.installed = wantedAll b lzma d override sec 0 disk img.entries

/-- The bytes for which it is met. -/
structure Meets (b : Build) (lzma : Lzma) (override : Bool) (sec : Section) (disk : Disk)
    (d : List UInt8) : Prop where
  readable : Readable d
  fits : ∀ l, Sound d l → AllFit b lzma d override sec disk l
  begins : ∀ (img : Image) rest, d = img.encode ++ rest → img.Begins
  ready : ∀ (img : Image) rest, d = img.encode ++ rest →
    AllReady b lzma d override sec disk img.entries

/-- A name is not longer than its length byte tells. -/
theorem walk_name {r : Record DbFileInfo} {l : List UInt8} {w : Result (Record DbFileInfo) Err}
    (h : Walk fileKind r l w) (hr : r.info.name.length < 256) {r' : Record DbFileInfo}
    {rest : List UInt8} (hw : w = .sealed r' rest) : r'.info.name.length < 256 := by
  have hput : ∀ (r : Record DbFileInfo) t (n : UInt8) (v : List UInt8), v.length = n.toNat →
      r.info.name.length < 256 → (fileKind.put r t v).info.name.length < 256 := by
    intro r t n v hv hr
    have hv : v.length < 256 := hv ▸ n.toNat_lt
    simp only [fileKind, kind]
    split_ifs <;> assumption
  induction h with
  | item _ _ hv _ ih => exact ih (hput _ _ _ _ hv hr) hw
  | stop => cases hw
  | last _ _ hv =>
      cases hw
      exact hput _ _ _ _ hv hr

theorem Files.names {d : List UInt8} {offset last : ℕ} {l : List DbFileInfo}
    (h : Files d offset l last) : ∀ f ∈ l, f.name.length < 256 := by
  induction h with
  | nil => nofun
  | cons ho hs hl ih =>
      intro g hg
      rcases List.mem_cons.mp hg with rfl | hg
      · exact walk_name hs (Nat.zero_lt_succ _) rfl
      · exact ih g hg

theorem Sound.names {d : List UInt8} {l : List DbFileInfo} (h : Sound d l) :
    ∀ f ∈ l, f.name.length < 256 := by
  obtain ⟨_, -, -, _, -, hf⟩ := h
  exact hf.names

/-- What is installed of an image that is sound. -/
theorem parse_of_sound (hd : d.length < 2 ^ 32) {l : List DbFileInfo} (h : Sound d l)
    {p : Platform} (ha : p.allocated) (disk : Disk) :
    parse_luadb_data b lzma p d override sec disk =
      (installFiles b lzma d override sec p.answer 0 l ⟨disk, [], true, false⟩).map fun r =>
        finish sec r.1 r.2 := by
  obtain ⟨⟨err, head, offset⟩, hh, hl⟩ := Option.bind_eq_some_iff.mp ((decode_none_iff hd).mpr h)
  cases err with
  | some e => cases hl
  | none =>
      have hl : decodeList d head offset = some (none, l) := hl
      rw [parse_luadb_data, hh, Option.bind_some]
      simp only [Option.isSome_none, Bool.false_eq_true, if_false]
      rw [if_neg (not_not_intro ha), hl]
      rfl

theorem decode_of_parse {disk : Disk}
    (h : (parse_luadb_data b lzma .fine d override sec disk).isSome) : (decode d).isSome := by
  unfold parse_luadb_data at h
  unfold decode
  cases hh : decodeHead d with
  | none =>
      rw [hh] at h
      cases h
  | some x =>
      obtain ⟨err, head, offset⟩ := x
      rw [hh, Option.bind_some] at h
      rw [Option.bind_some]
      cases err with
      | some e => rfl
      | none =>
          simp only [Option.isSome_none, Bool.false_eq_true, if_false] at h ⊢
          have ha : ¬ ¬ Platform.fine.allocated := not_not_intro rfl
          rw [if_neg ha] at h
          exact Option.isSome_of_isSome_bind h

theorem parse_of_fits (hd : d.length < 2 ^ 32) (hr : Readable d) {disk : Disk}
    (hf : ∀ l, Sound d l → AllFit b lzma d override sec disk l) (p : Platform) :
    (parse_luadb_data b lzma p d override sec disk).isSome := by
  obtain ⟨⟨err, l⟩, hx⟩ := Option.isSome_iff_exists.mp ((decode_isSome_iff hd).mpr hr)
  obtain ⟨⟨err', head, offset⟩, hh, hl⟩ := Option.bind_eq_some_iff.mp hx
  rw [parse_luadb_data, hh, Option.bind_some]
  cases err' with
  | some e => rfl
  | none =>
      have hl : decodeList d head offset = some (err, l) := hl
      simp only [Option.isSome_none, Bool.false_eq_true, if_false]
      by_cases ha : p.allocated
      · rw [if_neg (not_not_intro ha), hl, Option.bind_some]
        cases err with
        | some e => rfl
        | none =>
            have hs := (decode_none_iff hd).mp hx
            simp only [Option.isSome_none, Bool.false_eq_true, if_false]
            rw [Option.isSome_map]
            exact installFiles_isSome hd hs.names (hf l hs) p.answer 0
      · rw [if_pos ha]
        rfl

theorem stays_iff (hd : d.length < 2 ^ 32) {disk : Disk} :
    (∀ p, (parse_luadb_data b lzma p d override sec disk).isSome) ↔
      Readable d ∧ ∀ l, Sound d l → AllFit b lzma d override sec disk l := by
  constructor
  · intro h
    refine ⟨(decode_isSome_iff hd).mp (decode_of_parse (h .fine)), fun l hl => ?_⟩
    have hx := h .fine
    rw [parse_of_sound hd hl rfl, Option.isSome_map] at hx
    exact allFit_of_isSome hd hl.names hx
  · rintro ⟨hr, hf⟩ p
    exact parse_of_fits hd hr hf p

/-- An image is decoded exactly if it begins with its magic number. -/
theorem decodes_iff {img : Image} {rest : List UInt8}
    (hd : (img.encode ++ rest).length < 2 ^ 32) :
    decode (img.encode ++ rest) = some (none, img.entries) ↔ img.Begins := by
  constructor
  · intro h
    by_contra hb
    rw [Image.encode, List.append_assoc, decode_not_begins hb] at h
    cases h
  · intro h
    exact (decode_none_iff hd).mpr (sound_of_begins h hd)

/-- The files of an image that fit are installed exactly if they are ready. -/
theorem installs_iff (hd : d.length < 2 ^ 32) {l : List DbFileInfo} (hs : Sound d l) {disk : Disk}
    (hf : AllFit b lzma d override sec disk l) :
    (∃ r, parse_luadb_data b lzma .fine d override sec disk = some r ∧ r.err = none ∧
      r.inst.installed = wantedAll b lzma d override sec 0 disk l) ↔
        AllReady b lzma d override sec disk l := by
  have hparse := @parse_of_sound b lzma d override sec hd l hs .fine rfl disk
  obtain ⟨err, t, ht, hiff, hevs⟩ :=
    @installFiles_fine b lzma d override sec hd l hs.names ⟨disk, [], true, false⟩ hf 0
  have hans : Platform.fine.answer = fun _ => Answer.fine := rfl
  rw [hans, ht, Option.map_some] at hparse
  rw [hparse, ← @steps_wanted_iff b lzma d override sec l 0 disk]
  constructor
  · rintro ⟨r, hr, herr, hinst⟩
    obtain rfl := Option.some.inj hr
    obtain ⟨evs, he⟩ := Option.isSome_iff_exists.mp (hiff.mp herr)
    have hevs' : t.installed = [] ++ evs := hevs evs he
    rw [List.nil_append] at hevs'
    exact he.trans (congrArg some (hevs'.symm.trans hinst))
  · intro he
    exact ⟨_, rfl, hiff.mpr (by rw [he]; rfl), hevs _ he⟩

theorem right_iff_meets (hd : d.length < 2 ^ 32) {disk : Disk} :
    Right b lzma override sec disk d ↔ Meets b lzma override sec disk d := by
  constructor
  · intro h
    obtain ⟨hr, hf⟩ := (stays_iff hd).mp h.stays
    have hb : ∀ (img : Image) rest, d = img.encode ++ rest → img.Begins := by
      rintro img rest rfl
      exact (decodes_iff hd).mp (h.decodes img rest rfl)
    refine ⟨hr, hf, hb, ?_⟩
    rintro img rest rfl
    have hs := sound_of_begins (hb img rest rfl) hd
    exact (installs_iff hd hs (hf _ hs)).mp (h.installs img rest rfl)
  · intro h
    refine ⟨(stays_iff hd).mpr ⟨h.readable, h.fits⟩, ?_, ?_⟩
    · rintro img rest rfl
      exact (decodes_iff hd).mpr (h.begins img rest rfl)
    · rintro img rest rfl
      have hs := sound_of_begins (h.begins img rest rfl) hd
      exact (installs_iff hd hs (h.fits _ hs)).mpr (h.ready img rest rfl)

/-- A file that is whole in the image is read within it. -/
theorem reaches_whole {disk : Disk} {f : DbFileInfo} (h : (slice d f).length = f.length) :
    Reaches b lzma d override disk f where
  unzips _ _ _ := by
    rw [← h]
    exact lzma.bounded _
  copies _ _ _ _ := h

theorem entriesAt_whole {files : List FileRecord} {offset : ℕ} {rest : List UInt8}
    (hr : d.drop offset = files.flatMap FileRecord.encode ++ rest) :
    ∀ f ∈ entriesAt offset files, (slice d f).length = f.length := by
  induction files generalizing offset with
  | nil => nofun
  | cons f files ih =>
      rw [List.flatMap_cons, FileRecord.encode, List.append_assoc, List.append_assoc] at hr
      have hdata := drop_add hr
      intro g hg
      rcases List.mem_cons.mp hg with rfl | hg
      · rw [slice, hdata, List.take_left]
      · exact ih (drop_add hdata) g hg

theorem Image.whole (img : Image) (rest : List UInt8) :
    ∀ f ∈ img.entries, (slice (img.encode ++ rest) f).length = f.length := by
  have hdrop : (img.encode ++ rest).drop (withCheckCode img.items).length =
      img.files.flatMap FileRecord.encode ++ rest := by
    rw [Image.encode, List.append_assoc, List.drop_left]
  exact entriesAt_whole hdrop

/-- Of whole files that are ready only the names have to fit. -/
theorem allFit_iff {l : List DbFileInfo} (hw : ∀ f ∈ l, (slice d f).length = f.length)
    {disk : Disk} (hr : AllReady b lzma d override sec disk l) :
    AllFit b lzma d override sec disk l ↔
      ∀ f ∈ l, 4 < f.name.length → NameFits f.name := by
  induction l generalizing disk with
  | nil => exact iff_of_true trivial nofun
  | cons f l ih =>
      have hstep := step_wanted_iff.mpr hr.1
      have hi := ih (fun g hg => hw g (List.mem_cons_of_mem f hg)) hr.2
      rw [List.forall_mem_cons, ← hi]
      constructor
      · intro h
        exact ⟨fun hl => (h.1 hl).1, h.2 _ hstep⟩
      · rintro ⟨hn, hrest⟩
        refine ⟨fun hl => ⟨hn hl, reaches_whole (hw f List.mem_cons_self)⟩, fun e he => ?_⟩
        obtain rfl := Option.some.inj (hstep.symm.trans he)
        exact hrest

/-- An image is parsed as it should be exactly if it begins with its magic number and all its
files have names that fit and can be installed. -/
theorem image_right_iff {img : Image} {rest : List UInt8}
    (hd : (img.encode ++ rest).length < 2 ^ 32) {disk : Disk} :
    Right b lzma override sec disk (img.encode ++ rest) ↔
      img.Begins ∧ (∀ f ∈ img.entries, 4 < f.name.length → NameFits f.name) ∧
        AllReady b lzma (img.encode ++ rest) override sec disk img.entries := by
  rw [right_iff_meets hd]
  constructor
  · intro h
    have hb := h.begins img rest rfl
    have hr := h.ready img rest rfl
    exact ⟨hb, (allFit_iff (img.whole rest) hr).mp (h.fits _ (sound_of_begins hb hd)), hr⟩
  · rintro ⟨hb, hn, hr⟩
    have hx := (decodes_iff hd).mpr hb
    -- any other image of the same bytes has the same files
    have hother : ∀ (img' : Image) rest', img.encode ++ rest = img'.encode ++ rest' →
        img'.Begins ∧ img'.entries = img.entries := by
      intro img' rest' he
      rw [he] at hx hd
      have hb' : img'.Begins := by
        by_contra hb'
        rw [Image.encode, List.append_assoc, decode_not_begins hb'] at hx
        cases hx
      have hx' := (decodes_iff hd).mpr hb'
      exact ⟨hb', (Prod.mk.inj (Option.some.inj (hx'.symm.trans hx))).2⟩
    refine ⟨?_, fun l hl => ?_, fun img' rest' he => (hother img' rest' he).1, ?_⟩
    · rw [← decode_isSome_iff hd, hx]
      rfl
    · have hx' := hx.symm.trans ((decode_none_iff hd).mpr hl)
      obtain rfl := (Prod.mk.inj (Option.some.inj hx')).2
      exact (allFit_iff (img.whole rest) hr).mpr hn
    · intro img' rest' he
      rw [(hother img' rest' he).2]
      exact hr

/-- The parser meets what is expected of it exactly for these bytes. -/
theorem luadb_right_iff (b : Build) (lzma : Lzma) (override : Bool) (sec : Section) (disk : Disk)
    (d : {l : List UInt8 // l.length < 2 ^ 32}) :
    Right b lzma override sec disk d.1 ↔ Meets b lzma override sec disk d.1 :=
  right_iff_meets d.2

/-- The reading goes on behind an image of six bytes, as the check code is missing. -/
theorem not_luadb_right : ¬ ∀ (b : Build) (lzma : Lzma) (override : Bool) (sec : Section)
    (disk : Disk) (d : {l : List UInt8 // l.length < 2 ^ 32}),
    Right b lzma override sec disk d.1 := by
  intro h
  let lzma : Lzma := ⟨fun _ _ => some none, fun _ => rfl⟩
  have hr := (h ⟨true, false⟩ lzma true .UPDATE ⟨[], [], fun _ => none⟩
    ⟨[0x01, 0x04, 0x5A, 0xA5, 0x5A, 0xA5], by decide⟩).stays .fine
  have hn : decodeHead [0x01, 0x04, 0x5A, 0xA5, 0x5A, 0xA5] = none := by decide
  rw [parse_luadb_data, hn] at hr
  cases hr

end LuatAir200.Luadb
