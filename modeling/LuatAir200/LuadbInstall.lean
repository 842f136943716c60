import LuatAir200.LuadbDecode

/-!
# Installation of LuaDB files

What the loop does with a file depends on the end of its name. A platform that never fails
reaches every file that can be reached, so it tells whether the loop stays within the names and
the image.
-/
namespace LuatAir200.Luadb
open Lua Tlv
open ScriptStreams (Section s32)

/-! ## Names -/

theorem strncmp_eq {name text : List UInt8} {i : ℕ} (h : i + text.length ≤ name.length + 1) :
    strncmp name i text = some (decide (text <+: (name ++ [0]).drop i)) := by
  induction text generalizing i with
  | nil => simp [strncmp]
  | cons c text ih =>
      have hlt : i < (name ++ [0]).length := by
        simp only [List.length_append, List.length_cons, List.length_nil] at h ⊢
        omega
      have hnext : i + 1 + text.length ≤ name.length + 1 := by
        rw [List.length_cons] at h
        omega
      have hc : char name i = some (name ++ [0])[i] := by
        rw [char, if_pos (Int.natCast_nonneg i), Int.toNat_natCast, List.getElem?_eq_getElem hlt]
      have hi := ih hnext
      rw [Nat.cast_succ] at hi
      rw [strncmp, hc, Option.bind_some, hi, ← List.getElem_cons_drop hlt]
      have hp : c :: text <+: (name ++ [0])[i] :: (name ++ [0]).drop (i + 1) ↔ _ :=
        List.cons_prefix_cons
      by_cases hb : (name ++ [0])[i] = c
      · rw [if_pos hb, decide_eq_decide.mpr (hp.trans (and_iff_right hb.symm))]
      · rw [if_neg hb, decide_eq_false fun h => hb (hp.mp h).1.symm]

/-- Within the name a test compares the end of what lies before its own end. -/
theorem strncmp_within {name text : List UInt8} {i : ℕ} (h : i + text.length ≤ name.length) :
    strncmp name i text = some (decide (text <:+ name.take (i + text.length))) := by
  have hi : i ≤ name.length := Nat.le_trans (Nat.le_add_right ..) h
  have hn : (name.take (i + text.length)).length - text.length = i := by
    rw [List.length_take_of_le h, Nat.add_sub_cancel]
  have hiff : text <+: (name ++ [0]).drop i ↔ text <:+ name.take (i + text.length) := by
    rw [List.suffix_iff_eq_drop, hn, List.prefix_iff_eq_take, List.drop_append_of_le_length hi,
      List.take_append_of_le_length (by rw [List.length_drop]; omega), List.take_drop]
  rw [strncmp_eq (Nat.le_succ_of_le h), decide_eq_decide.mpr hiff]

/-- With the zero behind the name. -/
theorem strcmp_end {name text : List UInt8} {i : ℕ} (h : i + text.length = name.length) :
    strcmp name i text = some (decide (text <:+ name)) := by
  have hi : i ≤ name.length := by omega
  have hiff : text ++ [0] <+: (name ++ [0]).drop i ↔ text <:+ name := by
    have hlen : name.length - text.length = i := by omega
    rw [List.suffix_iff_eq_drop, hlen, List.drop_append_of_le_length hi]
    constructor
    · intro hp
      have heq := hp.eq_of_length (by simp; omega)
      exact List.append_inj_left' heq rfl
    · intro he
      rw [← he]
  have hle : i + (text ++ [0]).length ≤ name.length + 1 := by
    rw [List.length_append, List.length_singleton]
    omega
  rw [strcmp, strncmp_eq hle, decide_eq_decide.mpr hiff]

/-- In front of the name, or behind its zero. -/
theorem strncmp_out {name text : List UInt8} {i : ℤ} (h : i < 0 ∨ name.length < i)
    (ht : text ≠ []) : strncmp name i text = none := by
  cases text with
  | nil => exact absurd rfl ht
  | cons c text =>
      have hc : char name i = none := by
        unfold char
        split_ifs with h₀
        · rw [List.getElem?_eq_none]
          rw [List.length_append, List.length_singleton]
          omega
        · rfl
      rw [strncmp, hc, Option.bind_none]

def isZip (name : List UInt8) : Bool := lua ".zip" <:+ name

/-- A script, plain or encrypted. -/
def isScript (name : List UInt8) : Bool := lua ".lua" <:+ name ∨ lua ".luae" <:+ name

/-- A file that goes into a table. -/
def isTabled (b : Build) (name : List UInt8) : Bool :=
  (suffixes b).any (fun text => text <:+ name) || lua ".luae" <:+ name

/-- The name without `.zip`. -/
def stem (name : List UInt8) : List UInt8 := name.take (name.length - 4)

def pathOf (name : List UInt8) : Path :=
  (if isScript name then LUA_DIR else LUA_DATA_DIR) ++ lua "/" ++ cstring name

/-- Where a file is installed. -/
def target (name : List UInt8) : Path := if isZip name then pathOf (stem name) else pathOf name

/-- The tests of a name of more than four characters stay within it, and its path within
`filename`. -/
structure NameFits (name : List UInt8) : Prop where
  zip : isZip name → 8 < name.length ∨ name = lua ".lua.zip"
  path : (target name).length < 256

theorem anyOf_some (l : List Bool) : anyOf (l.map some) = some (l.any id) := by
  induction l with
  | nil => rfl
  | cons b l ih => cases b <;> simp [anyOf, ih]

/-- The test of the suffixes of scripts, in a name that is long enough for both. -/
theorem anyOf_script {name : List UInt8} {n : ℕ} (hn : n ≤ name.length) (h : 5 ≤ n) :
    anyOf [strncmp name (n - 4) (lua ".lua"), strncmp name (n - 5) (lua ".luae")] =
      some (isScript (name.take n)) := by
  have h₄ : ((n : ℤ) - 4) = (n - 4 : ℕ) := by omega
  have h₅ : ((n : ℤ) - 5) = (n - 5 : ℕ) := by omega
  have l₄ : (lua ".lua").length = 4 := by decide
  have l₅ : (lua ".luae").length = 5 := by decide
  rw [h₄, h₅, strncmp_within (by omega), strncmp_within (by omega), l₄, l₅,
    Nat.sub_add_cancel (by omega), Nat.sub_add_cancel (by omega)]
  rw [isScript, Bool.decide_or]
  cases decide (lua ".lua" <:+ name.take n) <;> cases decide (lua ".luae" <:+ name.take n) <;> rfl

/-- The suffixes of the tables. -/
theorem anyOf_table (b : Build) {name : List UInt8} (h : 5 ≤ name.length) :
    anyOf ((suffixes b).map (strncmp name (name.length - 4)) ++
      [strncmp name (name.length - 5) (lua ".luae")]) = some (isTabled b name) := by
  have h₄ : ((name.length : ℤ) - 4) = (name.length - 4 : ℕ) := by omega
  have h₅ : ((name.length : ℤ) - 5) = (name.length - 5 : ℕ) := by omega
  have l₅ : (lua ".luae").length = 5 := by decide
  have hs : ∀ text ∈ suffixes b, text.length = 4 := by
    obtain ⟨png, onFs⟩ := b
    cases png <;> cases onFs <;> decide
  have hm : (suffixes b).map (strncmp name (name.length - 4)) =
      ((suffixes b).map fun text => decide (text <:+ name)).map some := by
    rw [List.map_map]
    refine List.map_congr_left fun text ht => ?_
    have hl := hs text ht
    rw [h₄, strncmp_within (by omega), hl, Nat.sub_add_cancel (by omega), List.take_length]
    rfl
  have he : strncmp name (name.length - 5) (lua ".luae") =
      some (decide (lua ".luae" <:+ name)) := by
    rw [h₅, strncmp_within (by omega), l₅, Nat.sub_add_cancel h, List.take_length]
  have hj : ∀ (l : List Bool) (x : Bool), l.map some ++ [some x] = (l ++ [x]).map some :=
    fun l x => by rw [List.map_append, List.map_singleton]
  rw [hm, he, hj, anyOf_some, isTabled, List.any_append]
  simp

theorem filename_eq (dir : Path) (name : List UInt8) (n : ℕ) :
    filename dir name n = if (dir ++ lua "/" ++ cstring (name.take n)).length < 256 then
      some (dir ++ lua "/" ++ cstring (name.take n)) else none := by
  unfold filename
  simp only [Nat.succ_le_iff]

/-- A name of eight characters that ends in `.zip`. -/
theorem script_zip_iff {name : List UInt8} (h : name.length = 8) (hz : isZip name) :
    lua ".lua" <:+ name.take 4 ↔ name = lua ".lua.zip" := by
  have hdrop : name.drop 4 = lua ".zip" := by
    have hs : lua ".zip" <:+ name := of_decide_eq_true hz
    rw [List.suffix_iff_eq_drop, h] at hs
    exact hs.symm
  constructor
  · intro hl
    have ht : lua ".lua" = name.take 4 := hl.eq_of_length (by
      rw [List.length_take_of_le (by omega)]
      rfl)
    rw [← List.take_append_drop 4 name, hdrop, ← ht]
    rfl
  · rintro rfl
    exact ⟨[], rfl⟩

/-- The tests of what is unzipped: an index that is negative, or too large in eight bits, is
out of the name. -/
theorem anyOf_zip {name : List UInt8} (h : 4 < name.length) (h₂ : name.length < 256)
    (hz : isZip name) :
    anyOf [strncmp name ((name.length - 4 + 252) % 256 : ℕ) (lua ".lua"),
        strncmp name (((name.length - 4 + 252) % 256 : ℕ) - 1) (lua ".luae")] =
      if 8 < name.length ∨ name = lua ".lua.zip" then some (isScript (stem name)) else none := by
  rcases Nat.lt_trichotomy name.length 8 with hlt | heq | hgt
  · have hi : (name.length - 4 + 252) % 256 = name.length + 248 := by omega
    have hne : ¬ (8 < name.length ∨ name = lua ".lua.zip") := by
      rintro (hl | rfl)
      · omega
      · exact absurd hlt (by decide)
    rw [if_neg hne, hi, strncmp_out (.inr (by omega)) (by decide)]
    rfl
  · have hi : (name.length - 4 + 252) % 256 = 0 := by omega
    have hs : stem name = name.take 4 := by rw [stem, heq]
    have h₀ : strncmp name (0 : ℕ) (lua ".lua") = some (decide (lua ".lua" <:+ name.take 4)) := by
      rw [strncmp_within (by rw [heq]; decide)]
      rfl
    rw [hi, h₀, strncmp_out (.inl (by decide)) (by decide), hs,
      decide_eq_decide.mpr (script_zip_iff heq hz)]
    by_cases hn : name = lua ".lua.zip"
    · rw [if_pos (.inr hn), decide_eq_true hn]
      subst hn
      rfl
    · have hne : ¬ (8 < name.length ∨ name = lua ".lua.zip") := by
        rw [not_or]
        exact ⟨by omega, hn⟩
      rw [if_neg hne, decide_eq_false hn]
      rfl
  · have hi : (name.length - 4 + 252) % 256 = name.length - 8 := by omega
    have h₄ : ((name.length - 8 : ℕ) : ℤ) = (name.length - 4 : ℕ) - 4 := by omega
    have h₅ : ((name.length - 8 : ℕ) : ℤ) - 1 = (name.length - 4 : ℕ) - 5 := by omega
    rw [if_pos (.inl hgt), hi, h₅, h₄]
    exact anyOf_script (Nat.sub_le ..) (by omega)

/-! ## One file -/

/-- The bytes of a file that lie in the image. -/
def slice (d : List UInt8) (f : DbFileInfo) : List UInt8 := (d.drop f.data).take f.length

theorem bytes_slice {d : List UInt8} (hd : d.length < 2 ^ 32) (f : DbFileInfo) :
    bytes (d.drop f.data) 0 f.length =
      if (slice d f).length = f.length then some (slice d f) else none := by
  have hd' : (d.drop f.data).length < 2 ^ 32 := by
    rw [List.length_drop]
    omega
  have hspec : ∀ v, bytes (d.drop f.data) 0 f.length = some v ↔
      v.length = f.length ∧ ∃ l, d.drop f.data = v ++ l :=
    fun _ => bytes_eq_some_iff hd' (Nat.zero_le _)
  split_ifs with h
  · exact (hspec _).mpr ⟨h, _, (List.take_append_drop f.length _).symm⟩
  · rw [Option.eq_none_iff_forall_not_mem]
    intro v hv
    obtain ⟨hl, l, he⟩ := (hspec v).mp hv
    refine h ?_
    rw [slice, he, ← hl, List.take_left]

/-- What an event does to the disk. -/
def Event.apply (sec : Section) : Event → Disk → Disk
  | .item path row, d => AddUncompressFileItem sec path row d
  | .file path content, d => { d with files := Function.update d.files path (some content) }

def applyAll (sec : Section) (e : Option Event) (d : Disk) : Disk := e.elim d fun e => e.apply sec d

section
variable (b : Build) (lzma : Lzma) (d : List UInt8) (override : Bool) (sec : Section)

/-- What a platform that never fails makes of a file whose name has more than four characters;
`none` is an error. -/
def outcome (disk : Disk) (f : DbFileInfo) : Option (Option Event) :=
  let path := target f.name
  if isZip f.name then
    if writes override path disk then
      if LZMA_HEAD_SIZE < f.length ∧ ¬ shadowed path disk then
        match lzma.decode f.length (slice d f) with
        | some (some (c :: content)) => some (some (.file path (c :: content)))
        | _ => none
      else none
    else some none
  else if isTabled b f.name then some (some (.item path ⟨s32 f.offset, s32 f.length⟩))
  else if writes override path disk then
    if shadowed path disk then if f.length = SIZE_EOF then some none else none
    else if slice d f = [] then none
    else some (some (.file path (slice d f)))
  else some none

/-- The bytes that are read of a file are there. -/
structure Reaches (disk : Disk) (f : DbFileInfo) : Prop where
  unzips : isZip f.name → writes override (target f.name) disk → LZMA_HEAD_SIZE < f.length →
    (lzma.decode f.length (slice d f)).isSome
  copies : ¬ isZip f.name → ¬ isTabled b f.name → writes override (target f.name) disk →
    ¬ shadowed (target f.name) disk → (slice d f).length = f.length

/-- The loop stays within the image, the name and `filename` with a file. -/
def Fits (disk : Disk) (f : DbFileInfo) : Prop :=
  4 < f.name.length → NameFits f.name ∧ Reaches b lzma d override disk f

/-- What a platform that never fails does with a file. -/
def step (disk : Disk) (f : DbFileInfo) : Option (Option Event) :=
  if 4 < f.name.length then outcome b lzma d override disk f else some none

/-- The loop's body behind the tests of the name. -/
def body (a : Answer) (i : ℕ) (f : DbFileInfo) (s : Inst) : Option (Option Err × Inst) :=
  let path := target f.name
  if isZip f.name then
    if writes override path s.disk then LzmaDecodeBufToFile lzma d a i f path s
    else some (none, s)
  else
    let s := { s with delupdpack := false }
    if isTabled b f.name then
      if a.added then some (none, s.add i sec path ⟨s32 f.offset, s32 f.length⟩)
      else some (some .ADD_TABLE_ITEM, s)
    else if writes override path s.disk then copyFile d a i f path s
    else some (none, s)

end

variable {b : Build} {lzma : Lzma} {d : List UInt8} {override : Bool} {sec : Section}

theorem strcmp_zip {name : List UInt8} (h : 4 < name.length) :
    strcmp name (name.length - 4 : ℕ) (lua ".zip") = some (isZip name) :=
  strcmp_end (by
    have hl : (lua ".zip").length = 4 := by decide
    omega)

theorem installFile_short {f : DbFileInfo} (h : ¬ 4 < f.name.length) (a : Answer) (i : ℕ)
    (s : Inst) : installFile b lzma d override sec a i f s = some (none, s) := if_neg h

theorem installFile_zip {f : DbFileInfo} (h : 4 < f.name.length) (h₂ : f.name.length < 256)
    (hz : isZip f.name) (a : Answer) (i : ℕ) (s : Inst) :
    installFile b lzma d override sec a i f s =
      if (8 < f.name.length ∨ f.name = lua ".lua.zip") ∧ (target f.name).length < 256 then
        body b lzma d override sec a i f s else none := by
  have hp : (if isScript (stem f.name) then LUA_DIR else LUA_DATA_DIR) ++ lua "/" ++
      cstring (f.name.take (f.name.length - 4)) = target f.name := (if_pos hz).symm
  rw [installFile, body]
  simp only [gt_iff_lt, if_pos h, strcmp_zip h, hz, Option.bind_some, if_true, anyOf_zip h h₂ hz,
    filename_eq]
  by_cases h₈ : 8 < f.name.length ∨ f.name = lua ".lua.zip"
  · rw [if_pos h₈, Option.bind_some, hp]
    by_cases hl : (target f.name).length < 256
    · rw [if_pos hl, if_pos ⟨h₈, hl⟩, Option.bind_some]
    · rw [if_neg hl, if_neg fun hc => hl hc.2, Option.bind_none]
  · rw [if_neg h₈, if_neg fun hc => h₈ hc.1, Option.bind_none]

theorem installFile_other {f : DbFileInfo} (h : 4 < f.name.length) (hz : isZip f.name = false)
    (a : Answer) (i : ℕ) (s : Inst) :
    installFile b lzma d override sec a i f s =
      if (target f.name).length < 256 then body b lzma d override sec a i f s else none := by
  have hp : (if isScript f.name then LUA_DIR else LUA_DATA_DIR) ++ lua "/" ++
      cstring (f.name.take f.name.length) = target f.name := by
    rw [List.take_length, target, hz]
    rfl
  have hs := anyOf_script (Nat.le_refl f.name.length) h
  rw [List.take_length] at hs
  rw [installFile, body]
  simp only [gt_iff_lt, if_pos h, strcmp_zip h, hz, Option.bind_some, Bool.false_eq_true, if_false,
    hs, anyOf_table b h, filename_eq, hp]
  by_cases hl : (target f.name).length < 256
  · rw [if_pos hl, if_pos hl, Option.bind_some]
  · rw [if_neg hl, if_neg hl, Option.bind_none]

/-- The tests of a name that fits lead to the body, the others out of it. -/
theorem installFile_fit {f : DbFileInfo} (h : 4 < f.name.length) (h₂ : f.name.length < 256)
    (hn : NameFits f.name) (a : Answer) (i : ℕ) (s : Inst) :
    installFile b lzma d override sec a i f s = body b lzma d override sec a i f s := by
  cases hz : isZip f.name with
  | true => rw [installFile_zip h h₂ hz, if_pos ⟨hn.zip hz, hn.path⟩]
  | false => rw [installFile_other h hz, if_pos hn.path]

theorem installFile_unfit {f : DbFileInfo} (h : 4 < f.name.length) (h₂ : f.name.length < 256)
    (hn : ¬ NameFits f.name) (a : Answer) (i : ℕ) (s : Inst) :
    installFile b lzma d override sec a i f s = none := by
  cases hz : isZip f.name with
  | true => exact (installFile_zip h h₂ hz a i s).trans (if_neg fun hc => hn ⟨fun _ => hc.1, hc.2⟩)
  | false =>
      refine (installFile_other h hz a i s).trans (if_neg fun hl => hn ⟨fun hz' => ?_, hl⟩)
      rw [hz] at hz'
      cases hz'

/-- What has been done to the disk, and what is noted of it. -/
structure Does (sec : Section) (i : ℕ) (e : Option Event) (s t : Inst) : Prop where
  disk : t.disk = applyAll sec e s.disk
  installed : t.installed = s.installed ++ e.toList.map (i, ·)

theorem Does.nothing {s t : Inst} (i : ℕ) (hd : t.disk = s.disk) (hi : t.installed = s.installed) :
    Does sec i none s t := ⟨hd, by rw [hi]; exact (List.append_nil _).symm⟩

/-- A result without an error is an outcome. -/
def Agrees (sec : Section) (i : ℕ) (s : Inst) (out : Option (Option Event))
    (r : Option Err × Inst) : Prop := r.1 = none → ∃ e, out = some e ∧ Does sec i e s r.2

def Answer.fine : Answer := ⟨true, true, true⟩

theorem writeFile_agrees (a : Answer) (err : Err) (i : ℕ) (path : Path) (content : List UInt8)
    {s s' : Inst} (hd : s'.disk = s.disk) (hi : s'.installed = s.installed) :
    Agrees sec i s (if content = [] then none else some (some (.file path content)))
      (writeFile a err i path content s') := by
  intro h
  unfold writeFile at h ⊢
  by_cases ho : a.opened
  · rw [if_neg (not_not_intro ho)] at h ⊢
    by_cases hw : a.written ∧ content ≠ []
    · rw [if_pos hw, if_neg hw.2]
      refine ⟨_, rfl, ?_, ?_⟩
      · simp only [Inst.store, Inst.setFile, hd]
        rfl
      · simp only [Inst.store, hi]
        rfl
    · rw [if_neg hw] at h
      cases h
  · rw [if_pos ho] at h
    cases h

theorem writeFile_fine (err : Err) (i : ℕ) (path : Path) {content : List UInt8}
    (hc : content ≠ []) (s : Inst) :
    writeFile .fine err i path content s = (none, s.store i path content) := by
  rw [writeFile, if_neg (by simp [Answer.fine]), if_pos ⟨rfl, hc⟩]

theorem copyFile_agrees (hd : d.length < 2 ^ 32) {f : DbFileInfo} {path : Path} {s s' : Inst}
    (hr : ¬ shadowed path s.disk → (slice d f).length = f.length) (a : Answer) (i : ℕ)
    (hdisk : s'.disk = s.disk) (hi : s'.installed = s.installed) :
    ∃ r, copyFile d a i f path s' = some r ∧ Agrees sec i s
      (if shadowed path s.disk then if f.length = SIZE_EOF then some none else none
        else if slice d f = [] then none else some (some (.file path (slice d f)))) r := by
  unfold copyFile
  rw [hdisk]
  by_cases hs : shadowed path s.disk
  · rw [if_pos hs, if_pos hs]
    by_cases he : f.length = SIZE_EOF
    · rw [if_neg (not_not_intro he.symm), if_pos he]
      exact ⟨_, rfl, fun _ => ⟨none, rfl, .nothing i rfl hi⟩⟩
    · rw [if_pos (Ne.symm he)]
      exact ⟨_, rfl, nofun⟩
  · rw [if_neg hs, if_neg hs, bytes_slice hd, if_pos (hr hs)]
    by_cases ho : a.opened
    · rw [if_neg (not_not_intro ho)]
      exact ⟨_, rfl, writeFile_agrees a _ i path _ hdisk hi⟩
    · rw [if_pos ho]
      exact ⟨_, rfl, nofun⟩

theorem unzip_agrees {f : DbFileInfo} {path : Path} {s : Inst}
    (hr : LZMA_HEAD_SIZE < f.length → (lzma.decode f.length (slice d f)).isSome) (a : Answer)
    (i : ℕ) : ∃ r, LzmaDecodeBufToFile lzma d a i f path s = some r ∧ Agrees sec i s
      (if LZMA_HEAD_SIZE < f.length ∧ ¬ shadowed path s.disk then
        match lzma.decode f.length (slice d f) with
        | some (some (c :: content)) => some (some (.file path (c :: content)))
        | _ => none
      else none) r := by
  unfold LzmaDecodeBufToFile
  by_cases hl : f.length ≤ LZMA_HEAD_SIZE
  · rw [if_pos hl]
    exact ⟨_, rfl, nofun⟩
  · have hlt := Nat.lt_of_not_le hl
    obtain ⟨result, he⟩ := Option.isSome_iff_exists.mp (hr hlt)
    have he' : lzma.decode f.length ((d.drop f.data).take f.length) = some result := he
    rw [if_neg hl, he', he, Option.map_some]
    refine ⟨_, rfl, ?_⟩
    cases result with
    | none => exact nofun
    | some content =>
        by_cases hs : shadowed path s.disk
        · simp only [if_pos hs]
          exact nofun
        · simp only [if_neg hs]
          rw [if_pos ⟨hlt, hs⟩]
          have hw : Agrees sec i s _ _ := writeFile_agrees a .UNZIP_FILE i path content rfl rfl
          cases content with
          | nil => simpa using hw
          | cons c content => simpa using hw

theorem body_agrees (hd : d.length < 2 ^ 32) {f : DbFileInfo} {s : Inst}
    (hr : Reaches b lzma d override s.disk f) (a : Answer) (i : ℕ) :
    ∃ r, body b lzma d override sec a i f s = some r ∧
      Agrees sec i s (outcome b lzma d override s.disk f) r := by
  unfold body outcome
  by_cases hz : isZip f.name
  · simp only [if_pos hz]
    by_cases hw : writes override (target f.name) s.disk
    · simp only [if_pos hw]
      exact unzip_agrees (hr.unzips hz hw) a i
    · simp only [if_neg hw]
      exact ⟨_, rfl, fun _ => ⟨none, rfl, .nothing i rfl rfl⟩⟩
  · simp only [if_neg hz]
    by_cases ht : isTabled b f.name
    · simp only [if_pos ht]
      by_cases ha : a.added
      · simp only [if_pos ha]
        exact ⟨_, rfl, fun _ => ⟨_, rfl, rfl, rfl⟩⟩
      · simp only [if_neg ha]
        exact ⟨_, rfl, nofun⟩
    · simp only [if_neg ht]
      by_cases hw : writes override (target f.name) s.disk
      · simp only [if_pos hw]
        exact copyFile_agrees hd (hr.copies hz ht hw) a i rfl rfl
      · simp only [if_neg hw]
        exact ⟨_, rfl, fun _ => ⟨none, rfl, .nothing i rfl rfl⟩⟩

/-- A platform that never fails reaches the outcome. -/
theorem body_fine (hd : d.length < 2 ^ 32) {f : DbFileInfo} {s : Inst}
    (hr : Reaches b lzma d override s.disk f) {e : Option Event}
    (he : outcome b lzma d override s.disk f = some e) (i : ℕ) :
    ∃ t, body b lzma d override sec .fine i f s = some (none, t) := by
  unfold outcome at he
  unfold body
  by_cases hz : isZip f.name
  · simp only [if_pos hz] at he ⊢
    by_cases hw : writes override (target f.name) s.disk
    · simp only [if_pos hw] at he ⊢
      by_cases hc : LZMA_HEAD_SIZE < f.length ∧ ¬ shadowed (target f.name) s.disk
      · rw [if_pos hc] at he
        split at he
        · next c content hx =>
            have hx' : lzma.decode f.length ((d.drop f.data).take f.length) = _ := hx
            rw [LzmaDecodeBufToFile, if_neg (Nat.not_le.mpr hc.1), hx', Option.map_some]
            simp only [if_neg hc.2]
            rw [writeFile_fine _ _ _ (List.cons_ne_nil c content)]
            exact ⟨_, rfl⟩
        · cases he
      · rw [if_neg hc] at he
        cases he
    · rw [if_neg hw]
      exact ⟨_, rfl⟩
  · simp only [if_neg hz] at he ⊢
    by_cases ht : isTabled b f.name
    · rw [if_pos ht]
      exact ⟨_, rfl⟩
    · simp only [if_neg ht] at he ⊢
      by_cases hw : writes override (target f.name) s.disk
      · simp only [if_pos hw] at he ⊢
        unfold copyFile
        by_cases hs : shadowed (target f.name) s.disk
        · simp only [if_pos hs] at he ⊢
          by_cases hl : f.length = SIZE_EOF
          · rw [if_neg (not_not_intro hl.symm)]
            exact ⟨_, rfl⟩
          · rw [if_neg hl] at he
            cases he
        · simp only [if_neg hs] at he ⊢
          by_cases hn : slice d f = []
          · rw [if_pos hn] at he
            cases he
          · rw [if_neg (by simp [Answer.fine]), bytes_slice hd, if_pos (hr.copies hz ht hw hs),
              Option.map_some, writeFile_fine _ _ _ hn]
            exact ⟨_, rfl⟩
      · rw [if_neg hw]
        exact ⟨_, rfl⟩

/-- It also reaches the bytes that are not there. -/
theorem body_not (hd : d.length < 2 ^ 32) {f : DbFileInfo} {s : Inst}
    (hr : ¬ Reaches b lzma d override s.disk f) (i : ℕ) :
    body b lzma d override sec .fine i f s = none := by
  rw [Option.eq_none_iff_forall_not_mem]
  intro r hx
  have hx : body b lzma d override sec .fine i f s = some r := hx
  unfold body at hx
  refine hr ⟨fun hz hw hl => ?_, fun hz ht hw hs => ?_⟩
  · simp only [if_pos hz, if_pos hw] at hx
    rw [LzmaDecodeBufToFile, if_neg (Nat.not_le.mpr hl)] at hx
    obtain ⟨result, he, -⟩ := Option.map_eq_some_iff.mp hx
    exact Option.isSome_iff_exists.mpr ⟨result, he⟩
  · simp only [if_neg hz, if_neg ht, if_pos hw] at hx
    unfold copyFile at hx
    simp only [if_neg hs] at hx
    rw [if_neg (by simp [Answer.fine]), bytes_slice hd] at hx
    by_contra hl
    rw [if_neg hl] at hx
    cases hx

/-! ## All files -/

theorem installFile_agrees (hd : d.length < 2 ^ 32) {f : DbFileInfo} (h₂ : f.name.length < 256)
    {s : Inst} (hf : Fits b lzma d override s.disk f) (a : Answer) (i : ℕ) :
    ∃ r, installFile b lzma d override sec a i f s = some r ∧
      Agrees sec i s (step b lzma d override s.disk f) r := by
  unfold step
  by_cases h : 4 < f.name.length
  · rw [installFile_fit h h₂ (hf h).1, if_pos h]
    exact body_agrees hd (hf h).2 a i
  · rw [installFile_short h, if_neg h]
    exact ⟨_, rfl, fun _ => ⟨none, rfl, .nothing i rfl rfl⟩⟩

theorem installFile_fine (hd : d.length < 2 ^ 32) {f : DbFileInfo} (h₂ : f.name.length < 256)
    {s : Inst} (hf : Fits b lzma d override s.disk f) {e : Option Event}
    (he : step b lzma d override s.disk f = some e) (i : ℕ) :
    ∃ t, installFile b lzma d override sec .fine i f s = some (none, t) ∧ Does sec i e s t := by
  have hx : ∃ t, installFile b lzma d override sec .fine i f s = some (none, t) := by
    by_cases h : 4 < f.name.length
    · rw [installFile_fit h h₂ (hf h).1]
      rw [step, if_pos h] at he
      exact body_fine hd (hf h).2 he i
    · exact ⟨s, installFile_short h _ i s⟩
  obtain ⟨t, ht⟩ := hx
  obtain ⟨r, hr, ha⟩ := installFile_agrees hd h₂ hf .fine i
  obtain rfl := Option.some.inj (ht.symm.trans hr)
  obtain ⟨e', he', hdoes⟩ := ha rfl
  obtain rfl := Option.some.inj (he.symm.trans he')
  exact ⟨t, ht, hdoes⟩

theorem fits_of_isSome (hd : d.length < 2 ^ 32) {f : DbFileInfo} (h₂ : f.name.length < 256)
    {s : Inst} {i : ℕ} (h : (installFile b lzma d override sec .fine i f s).isSome) :
    Fits b lzma d override s.disk f := by
  intro h₄
  by_contra hn
  by_cases hnf : NameFits f.name
  · have hr : ¬ Reaches b lzma d override s.disk f := fun hr => hn ⟨hnf, hr⟩
    rw [installFile_fit h₄ h₂ hnf, body_not hd hr] at h
    cases h
  · rw [installFile_unfit h₄ h₂ hnf] at h
    cases h

/-- The files fit, each on the disk that the ones before it have left. -/
def AllFit (b : Build) (lzma : Lzma) (d : List UInt8) (override : Bool) (sec : Section) :
    Disk → List DbFileInfo → Prop
  | _, [] => True
  | disk, f :: l => Fits b lzma d override disk f ∧
      ∀ e, step b lzma d override disk f = some e →
        AllFit b lzma d override sec (applyAll sec e disk) l

/-- What a platform that never fails does with the files. -/
def steps (b : Build) (lzma : Lzma) (d : List UInt8) (override : Bool) (sec : Section) :
    ℕ → Disk → List DbFileInfo → Option (List (ℕ × Event))
  | _, _, [] => some []
  | i, disk, f :: l => (step b lzma d override disk f).bind fun e =>
      (steps b lzma d override sec (i + 1) (applyAll sec e disk) l).map (e.toList.map (i, ·) ++ ·)

theorem installFiles_isSome (hd : d.length < 2 ^ 32) {l : List DbFileInfo}
    (h₂ : ∀ f ∈ l, f.name.length < 256) {s : Inst}
    (hf : AllFit b lzma d override sec s.disk l) (answer : ℕ → Answer) (i : ℕ) :
    (installFiles b lzma d override sec answer i l s).isSome := by
  induction l generalizing i s with
  | nil => rfl
  | cons f l ih =>
      obtain ⟨⟨err, t⟩, hr, ha⟩ :=
        @installFile_agrees b lzma d override sec hd f (h₂ f List.mem_cons_self) s hf.1 (answer i) i
      rw [installFiles, hr, Option.bind_some]
      cases err with
      | some e => rfl
      | none =>
          obtain ⟨e, he, hdoes⟩ := ha rfl
          refine ih (fun g hg => h₂ g (List.mem_cons_of_mem f hg)) ?_ (i + 1)
          rw [hdoes.disk]
          exact hf.2 e he

theorem allFit_of_isSome (hd : d.length < 2 ^ 32) {l : List DbFileInfo}
    (h₂ : ∀ f ∈ l, f.name.length < 256) {s : Inst} {i : ℕ}
    (h : (installFiles b lzma d override sec (fun _ => .fine) i l s).isSome) :
    AllFit b lzma d override sec s.disk l := by
  induction l generalizing i s with
  | nil => trivial
  | cons f l ih =>
      have hn := h₂ f List.mem_cons_self
      have hsome : (installFile b lzma d override sec .fine i f s).isSome := by
        rw [installFiles] at h
        exact Option.isSome_of_isSome_bind h
      have hf := fits_of_isSome hd hn hsome
      refine ⟨hf, fun e he => ?_⟩
      obtain ⟨t, ht, hdoes⟩ := @installFile_fine b lzma d override sec hd f hn s hf e he i
      rw [installFiles, ht, Option.bind_some] at h
      rw [← hdoes.disk]
      exact ih (fun g hg => h₂ g (List.mem_cons_of_mem f hg)) h

/-- What has been installed by a platform that never fails. -/
theorem installFiles_fine (hd : d.length < 2 ^ 32) {l : List DbFileInfo}
    (h₂ : ∀ f ∈ l, f.name.length < 256) {s : Inst}
    (hf : AllFit b lzma d override sec s.disk l) (i : ℕ) :
    ∃ err t, installFiles b lzma d override sec (fun _ => .fine) i l s = some (err, t) ∧
      (err = none ↔ (steps b lzma d override sec i s.disk l).isSome) ∧
      ∀ evs, steps b lzma d override sec i s.disk l = some evs →
        t.installed = s.installed ++ evs := by
  induction l generalizing i s with
  | nil => exact ⟨none, s, rfl, iff_of_true rfl rfl, fun evs he => by cases he; simp⟩
  | cons f l ih =>
      have hn := h₂ f List.mem_cons_self
      cases he : step b lzma d override s.disk f with
      | none =>
          obtain ⟨⟨err, t⟩, hr, ha⟩ :=
            @installFile_agrees b lzma d override sec hd f hn s hf.1 .fine i
          have hs : steps b lzma d override sec i s.disk (f :: l) = none := by
            rw [steps, he, Option.bind_none]
          cases err with
          | none =>
              obtain ⟨e, he', -⟩ := ha rfl
              rw [he] at he'
              cases he'
          | some e =>
              rw [installFiles, hr, hs]
              exact ⟨some e, t, rfl, iff_of_false nofun nofun, nofun⟩
      | some e =>
          obtain ⟨t, ht, hdoes⟩ := @installFile_fine b lzma d override sec hd f hn s hf.1 e he i
          have hrest : AllFit b lzma d override sec t.disk l := by
            rw [hdoes.disk]
            exact hf.2 e he
          obtain ⟨err, u, hu, hiff, hevs⟩ :=
            ih (fun g hg => h₂ g (List.mem_cons_of_mem f hg)) hrest (i + 1)
          have hs : steps b lzma d override sec i s.disk (f :: l) =
              (steps b lzma d override sec (i + 1) t.disk l).map (e.toList.map (i, ·) ++ ·) := by
            rw [steps, he, Option.bind_some, hdoes.disk]
          rw [installFiles, ht, Option.bind_some, hs]
          refine ⟨err, u, hu, ?_, fun evs he => ?_⟩
          · rw [Option.isSome_map]
            exact hiff
          · obtain ⟨evs, hx, rfl⟩ := Option.map_eq_some_iff.mp he
            rw [hevs evs hx, hdoes.installed, List.append_assoc]

end LuatAir200.Luadb
