import LuatAir200.DispRects

/-!
# Fonts that were loaded

`platform_disp_loadfont`, and the glyphs that are drawn with a font that it accepted. The size of
a glyph is checked in 32 bits and kept in 8, and the blank glyph has 32 bytes for all fonts.
-/
namespace LuatAir200.Disp
open Painting

/-- A font file: its header, its length and its bytes. -/
structure FontFile where
  width : ℤ
  height : ℤ
  type : ℤ
  start : ℤ
  end_ : ℤ
  size : ℤ
  bytes : ℤ → BitVec 8
  width_nonneg : 0 ≤ width
  width_lt : width < 256
  height_nonneg : 0 ≤ height
  height_lt : height < 256
  start_nonneg : 0 ≤ start
  end_lt : end_ < 65536
  size_lt : size < 2 ^ 31

namespace FontFile

/-- `charsize`, before it is stored. -/
def charsize (file : FontFile) : ℤ := u32 ((file.width + 7) / 8 * file.height)

/-- `sizeof(FontFileInfo)` -/
def infoSize : ℤ := 7

/-- The checks, with the code of the one that fails. -/
def retcode (file : FontFile) : ℤ :=
  if file.size ≤ infoSize then -1
  else if file.type ≠ 0 then -2
  else if file.end_ < file.start then -3
  else if u32 (file.charsize * (file.end_ - file.start + 1)) ≠ u32 (file.size - infoSize) then -4
  else 0

/-- The entry of a file in `dispFonts`. -/
def entry (file : FontFile) (id : ℕ) : FontInfo :=
  ⟨file.width, file.height, u8 file.charsize, file.start, file.end_, some ⟨.file id, infoSize⟩⟩

end FontFile

/-- The first free place of `dispFonts`. -/
def freePlace (d : State) : Option ℕ :=
  (List.range MAX_FONTS).find? fun i => (d.dispFonts i).data.isNone

/-- `platform_disp_loadfont`; there is no file when it can not be read. -/
def platform_disp_loadfont (file : Option FontFile) (d : State) : State × ℤ :=
  match file with
  | none => (d, -1)
  | some file =>
      if file.retcode ≠ 0 then (d, -1)
      else
        match freePlace d with
        | none => (d, -1)
        | some i =>
            ({ d with
                dispFonts := fun j => if j = i then file.entry i else d.dispFonts j
                rom := fun p => if p.region = .file i then file.bytes p.offset else d.rom p }, i)

def platform_disp_setfont (id : ℤ) (d : State) : State × ℤ :=
  if id < 0 ∨ MAX_FONTS ≤ id ∨ (d.dispFonts id.toNat).data = none then (d, -1)
  else ({ d with curr_font_id := id.toNat }, d.curr_font_id)

/-- The file is the font in use, and its bytes and the blank glyph are in memory. -/
structure Loaded (d : State) (file : FontFile) (id : ℕ) : Prop where
  curr : d.curr_font_id = id
  font : d.dispFonts id = file.entry id
  bytes : ∀ n, d.rom ⟨.file id, n⟩ = file.bytes n
  blank : ∀ n, 0 ≤ n → n < 32 → d.rom ⟨.blankChar, n⟩ = 0#8

theorem loadfont_accepts {file : FontFile} {d : State} {id : ℕ}
    (h : (platform_disp_loadfont (some file) d).2 = id) :
    file.retcode = 0 ∧ freePlace d = some id := by
  unfold platform_disp_loadfont at h
  dsimp only at h
  split at h
  · simp only at h
    omega
  case isFalse hr =>
    refine ⟨not_not.mp hr, ?_⟩
    split at h
    · simp only at h
      omega
    · simp only [Nat.cast_inj] at h
      rwa [← h]

/-- Once it is loaded and chosen, it is in use. -/
theorem loaded_of_loadfont {file : FontFile} {d : State} {id : ℕ}
    (h : (platform_disp_loadfont (some file) d).2 = id)
    (hb : ∀ n, 0 ≤ n → n < 32 → d.rom ⟨.blankChar, n⟩ = 0#8) :
    Loaded (platform_disp_setfont id (platform_disp_loadfont (some file) d).1).1 file id := by
  obtain ⟨hr, hfree⟩ := loadfont_accepts h
  have hid : id < MAX_FONTS := List.mem_range.mp (List.mem_of_find?_eq_some hfree)
  have hok : ¬((id : ℤ) < 0 ∨ (MAX_FONTS : ℤ) ≤ id ∨ (file.entry id).data = none) := by
    simp only [FontFile.entry, reduceCtorEq, or_false]
    omega
  have hload : (platform_disp_loadfont (some file) d).1 = { d with
      dispFonts := fun j => if j = id then file.entry id else d.dispFonts j
      rom := fun p => if p.region = .file id then file.bytes p.offset else d.rom p } := by
    simp only [platform_disp_loadfont, hr, hfree, ne_eq, not_true, if_false]
  rw [hload, platform_disp_setfont]
  simp only [Int.toNat_natCast, if_true, if_neg hok]
  exact ⟨rfl, if_pos rfl, fun n => if_pos rfl, hb⟩

/-! ## Glyphs -/

/-- The bytes of the glyph of a code: its place in the file, or the blank ones. -/
def ofGlyph (file : FontFile) (id : ℕ) (charcode : ℤ) (q : Pointer) : Prop :=
  if file.start ≤ charcode ∧ charcode ≤ file.end_ then
    q.region = .file id ∧
      FontFile.infoSize + (charcode - file.start) * file.charsize ≤ q.offset ∧
        q.offset < FontFile.infoSize + (charcode - file.start + 1) * file.charsize
  else q.region = .blankChar ∧ 0 ≤ q.offset ∧ q.offset < 32

/-- The glyph of a code has the right bytes, and the drawing loops read no others. -/
def GlyphRight (d : State) (file : FontFile) (id : ℕ) (charcode : ℤ) : Prop :=
  let b := getFontBitmap d charcode
  (b.width = file.width ∧ b.height = file.height ∧ b.data =
    if file.start ≤ charcode ∧ charcode ≤ file.end_ then
      ⟨.file id, FontFile.infoSize + (charcode - file.start) * file.charsize⟩
    else ⟨.blankChar, 0⟩) ∧
  ∀ x y, 0 ≤ x → x < d.lcd_width → 0 ≤ y → y < d.lcd_height → ∀ f : Frame,
    ∀ q ∈ (drawChar d charcode x y f).looked, q ∈ f.looked ∨ ofGlyph file id charcode q

/-- The reads of a glyph that the loops of a screen make. -/
def readsOf (b : DispBitmap) (f g : Frame) : Prop :=
  ∀ q ∈ g.looked, q ∈ f.looked ∨
    ∃ n, 0 ≤ n ∧ n < (b.width + 7) / 8 * b.height ∧ q = b.data.plus n

variable {d : State} {b : DispBitmap} {startX startY : ℤ} {f : Frame}

/-- A dot lies in the bytes of its glyph. -/
theorem at_eq {bx by' : ℤ} (hw : b.width < 256) (hbx : 0 ≤ bx) (hbxw : bx < b.width)
    (hby : 0 ≤ by') (hbyh : by' < b.height) :
    ∃ n, 0 ≤ n ∧ n < (b.width + 7) / 8 * b.height ∧ b.at bx by' = b.data.plus n := by
  have hrow₀ : 0 ≤ (b.width + 7) / 8 * by' := Int.mul_nonneg (by omega) hby
  have hrow : (b.width + 7) / 8 * (by' + 1) ≤ (b.width + 7) / 8 * b.height :=
    Int.mul_le_mul_of_nonneg_left (by omega) (by omega)
  rw [mul_add, mul_one] at hrow
  refine ⟨(b.width + 7) / 8 * by' + bx / 8, by omega, by omega, ?_⟩
  rw [DispBitmap.at, u16_eq (by omega) (by omega)]

/-- Every loop over the dots of a glyph, whatever it does with them. -/
theorem dots_reads {body : Frame → ℤ → ℤ → Frame} {endX endY : ℤ} (hw : b.width < 256)
    (hx : endX ≤ startX + b.width) (hy : endY ≤ startY + b.height)
    (hbody : ∀ g x y, (body g x y).looked = g.looked ++ [b.at (x - startX) (y - startY)]) :
    readsOf b f ((upto startX endX).foldl
      (fun f x => (upto startY endY).foldl (fun f y => body f x y) f) f) := by
  refine foldl_keeps (P := readsOf b f) (fun x hxm g hg =>
    foldl_keeps (P := readsOf b f) (fun y hym g hg => ?_) hg) fun q hq => .inl hq
  rw [mem_upto] at hxm hym
  intro q hq
  rw [hbody, List.mem_append, List.mem_singleton] at hq
  obtain hq | rfl := hq
  · exact hg q hq
  · exact .inr (at_eq hw (by omega) (by omega) (by omega) (by omega))

theorem bpp1_reads (hs : d.Screen) (hw : b.width < 256) (hw0 : 0 ≤ b.width) (hh0 : 0 ≤ b.height)
    (hx : 0 ≤ startX) (hy : 0 ≤ startY) : readsOf b f (disp_bitmap_bpp1 d b startX startY f) := by
  have h₁ := hs.width_pos
  have h₂ := hs.width_lt
  have h₃ := hs.height_pos
  have h₄ := hs.height_lt
  unfold disp_bitmap_bpp1
  split
  · exact fun q hq => .inl hq
  · refine dots_reads hw ?_ ?_ fun g x y => ?_
    · rw [u16_eq (by omega) (by omega)]
      omega
    · rw [u16_eq (by omega) (by omega)]
      omega
    · dsimp only
      split <;> rfl

theorem bpp16_reads (hs : d.Screen) (hw : b.width < 256) (hw0 : 0 ≤ b.width) (hh0 : 0 ≤ b.height)
    (hx : 0 ≤ startX) (hy : 0 ≤ startY) : readsOf b f (disp_1bitbmp_bpp16 d b startX startY f) := by
  have h₁ := hs.width_pos
  have h₂ := hs.width_lt
  have h₃ := hs.height_pos
  have h₄ := hs.height_lt
  unfold disp_1bitbmp_bpp16
  refine dots_reads hw ?_ ?_ fun g x y => ?_
  · rw [u16_eq (by omega) (by omega)]
    omega
  · rw [u16_eq (by omega) (by omega)]
    omega
  · dsimp only
    split <;> rfl

theorem drawChar_reads (hs : d.Screen) {charcode x y : ℤ}
    (hw : (getCharBitmap d charcode).width < 256)
    (hw0 : 0 ≤ (getCharBitmap d charcode).width) (hh0 : 0 ≤ (getCharBitmap d charcode).height)
    (hx : 0 ≤ x) (hy : 0 ≤ y) :
    readsOf (getCharBitmap d charcode) f (drawChar d charcode x y f) := by
  unfold drawChar
  dsimp only
  split
  · split
    · exact bpp1_reads hs hw hw0 hh0 (u16_nonneg _) (u16_nonneg _)
    · exact bpp1_reads hs hw hw0 hh0 hx hy
  · exact bpp16_reads hs hw hw0 hh0 hx hy

/-- On a large colour screen the last dot of a glyph is read. -/
theorem bpp16_last (hw : 0 < b.width) (hw' : b.width < 256) (hh : 0 < b.height)
    (hh' : b.height < 256) (hsw : d.lcd_width = 65535) (hsh : d.lcd_height = 65535) :
    b.at (b.width - 1) (b.height - 1) ∈ (disp_1bitbmp_bpp16 d b 0 0 f).looked := by
  unfold disp_1bitbmp_bpp16
  rw [hsw, hsh, zero_add, zero_add, u16_eq (by omega) (by omega), u16_eq (by omega) (by omega)]
  have hx : b.width - 1 ∈ upto 0 (min 65535 b.width) := mem_upto.mpr (by omega)
  have hy : b.height - 1 ∈ upto 0 (min 65535 b.height) := mem_upto.mpr (by omega)
  -- later rounds only add to the history
  have hkeep : ∀ (g : Frame) (x y : ℤ), b.at (b.width - 1) (b.height - 1) ∈ g.looked →
      b.at (b.width - 1) (b.height - 1) ∈ (if d.dot b (x - 0) (y - 0) = true then
        (g.look (b.at (x - 0) (y - 0))).poke16 (y * 65535 + x) (BitVec.ofInt 16 d.disp_color)
        else g.look (b.at (x - 0) (y - 0))).looked := by
    intro g x y hg
    have hmem : b.at (b.width - 1) (b.height - 1) ∈ g.looked ++ [b.at (x - 0) (y - 0)] :=
      List.mem_append_left _ hg
    split <;> exact hmem
  let read : Frame → Prop := fun g => b.at (b.width - 1) (b.height - 1) ∈ g.looked
  refine foldl_reaches (P := read) hx
    (fun g => foldl_reaches (P := read) hy (fun g => ?_) (fun y _ g hg => hkeep g _ y hg) g)
    (fun x _ g hg => foldl_keeps (P := read) (fun y _ g hg => hkeep g x y hg) hg) f
  have hmem : b.at (b.width - 1) (b.height - 1) ∈
      g.looked ++ [b.at (b.width - 1 - 0) (b.height - 1 - 0)] :=
    List.mem_append_right _ (by simp)
  split <;> exact hmem

/-! ## When the glyphs are right -/

variable {file : FontFile} {id : ℕ} {charcode : ℤ}

theorem charsize_eq (file : FontFile) : file.charsize = (file.width + 7) / 8 * file.height := by
  have h₁ := file.width_lt
  have h₂ := file.width_nonneg
  have h₃ := file.height_lt
  have h₄ := file.height_nonneg
  have hle : (file.width + 7) / 8 * file.height ≤ 32 * 255 :=
    Int.mul_le_mul (by omega) (by omega) h₄ (by decide)
  exact u32_eq (Int.mul_nonneg (by omega) h₄) (by omega)

/-- A file that passes the checks has glyphs. -/
theorem charsize_pos (h : file.retcode = 0) : 0 < file.charsize := by
  have hs := file.size_lt
  have hw := file.width_nonneg
  have hnn : 0 ≤ file.charsize := Int.emod_nonneg _ (by decide)
  rcases hnn.lt_or_eq with hpos | hz
  · exact hpos
  · unfold FontFile.retcode at h
    rw [← hz, zero_mul] at h
    split at h
    · cases h
    split at h
    · cases h
    split at h
    · cases h
    split at h
    · cases h
    case isFalse hsize _ _ hlen =>
      rw [not_not, u32_eq (by decide) (by decide)] at hlen
      simp only [FontFile.infoSize] at hsize hlen
      rw [u32_eq (by omega) (by omega)] at hlen
      omega

theorem width_height_pos (h : 0 < file.charsize) : 0 < file.width ∧ 0 < file.height := by
  have hw := file.width_nonneg
  have hh := file.height_nonneg
  rw [charsize_eq] at h
  constructor
  · by_contra hz
    have : (file.width + 7) / 8 = 0 := by omega
    rw [this, zero_mul] at h
    omega
  · by_contra hz
    have : file.height = 0 := by omega
    rw [this, mul_zero] at h
    omega

/-- What `getFontBitmap` gives for the font in use. -/
theorem getFontBitmap_eq (h : Loaded d file id) (charcode : ℤ) : getFontBitmap d charcode =
    ⟨file.width, file.height, 1, if file.start ≤ charcode ∧ charcode ≤ file.end_ then
      ⟨.file id, FontFile.infoSize + (charcode - file.start) * u8 file.charsize⟩
      else ⟨.blankChar, 0⟩⟩ := by
  rw [getFontBitmap, h.curr, h.font]
  rfl

/-- A colour screen of the largest size with the font in use. -/
def showcase (file : FontFile) (id : ℕ) : State :=
  { fresh 65535 65535 16 with
    curr_font_id := id
    dispFonts := fun _ => file.entry id
    rom := fun p => if p.region = .file id then file.bytes p.offset else 0#8 }

theorem showcase_screen (file : FontFile) (id : ℕ) : (showcase file id).Screen :=
  have h : (fresh 65535 65535 16).Screen :=
    fresh_screen (by decide) (by decide) (by decide) (by decide) (.inl rfl)
  ⟨h.width_pos, h.width_lt, h.height_pos, h.height_lt, h.bpp⟩

theorem showcase_loaded (file : FontFile) (id : ℕ) : Loaded (showcase file id) file id :=
  ⟨rfl, rfl, fun _ => if_pos rfl, fun _ _ _ => rfl⟩

/-- A font that was accepted shows its glyph for a code, on every screen, if the glyph size fits
into 8 bits or the glyph is the first one; and a blank for other codes if that has enough bytes. -/
theorem glyph_right_iff (h : (platform_disp_loadfont (some file) d).2 = id) (h₀ : 0 ≤ charcode)
    (hlt : charcode < 0xA0A0) :
    (∀ e : State, e.Screen → Loaded e file id → GlyphRight e file id charcode) ↔
      if file.start ≤ charcode ∧ charcode ≤ file.end_ then
        file.charsize < 256 ∨ charcode = file.start
      else file.charsize ≤ 32 := by
  have hpos := charsize_pos (loadfont_accepts h).1
  obtain ⟨hw, hh⟩ := width_height_pos hpos
  have hcs := charsize_eq file
  have hw' := file.width_lt
  have hh' := file.height_lt
  have hchar : ∀ e, getCharBitmap e charcode = getFontBitmap e charcode := fun e =>
    if_neg (not_le.mpr hlt)
  constructor
  · intro hall
    obtain ⟨⟨-, -, hdata⟩, hreads⟩ := hall _ (showcase_screen file id) (showcase_loaded file id)
    rw [getFontBitmap_eq (showcase_loaded file id)] at hdata
    dsimp only at hdata
    split
    case isTrue hin =>
      rw [if_pos hin, if_pos hin, Pointer.mk.injEq] at hdata
      by_contra hbad
      obtain ⟨hbig, hne⟩ := not_or.mp hbad
      have hstride : u8 file.charsize < file.charsize := by
        unfold u8
        omega
      have hmul : (charcode - file.start) * u8 file.charsize <
          (charcode - file.start) * file.charsize :=
        Int.mul_lt_mul_of_pos_left hstride (by omega)
      omega
    case isFalse hout =>
      have hs := showcase_screen file id
      have hlast := hreads 0 0 le_rfl hs.width_pos le_rfl hs.height_pos ⟨fun _ => 0#8, [], []⟩
        ((getFontBitmap (showcase file id) charcode).at (file.width - 1) (file.height - 1)) (by
          unfold drawChar
          rw [hchar]
          dsimp only
          have h16 : (showcase file id).lcd_bpp ≠ 1 := by
            change (16 : ℤ) ≠ 1
            decide
          rw [if_neg h16]
          have hfont := getFontBitmap_eq (showcase_loaded file id) charcode
          have hl := bpp16_last (d := showcase file id) (f := ⟨fun _ => 0#8, [], []⟩)
            (b := getFontBitmap (showcase file id) charcode) (by rw [hfont]; exact hw)
            (by rw [hfont]; exact hw') (by rw [hfont]; exact hh) (by rw [hfont]; exact hh') rfl rfl
          rw [hfont] at hl ⊢
          exact hl)
      rw [getFontBitmap_eq (showcase_loaded file id), if_neg hout] at hlast
      obtain hnil | hglyph := hlast
      · cases hnil
      · rw [ofGlyph, if_neg hout] at hglyph
        have hoff := hglyph.2.2
        simp only [DispBitmap.at, Pointer.plus, zero_add] at hoff
        rw [u16_eq (by omega) (by omega)] at hoff
        have hrow : (file.width + 7) / 8 * (file.height - 1) + (file.width + 7) / 8 =
            file.charsize := by
          rw [hcs]
          ring
        omega
  · intro hgood e he hl
    have hfont := getFontBitmap_eq hl charcode
    have hdata : (getFontBitmap e charcode).data =
        if file.start ≤ charcode ∧ charcode ≤ file.end_ then
          ⟨.file id, FontFile.infoSize + (charcode - file.start) * file.charsize⟩
        else ⟨.blankChar, 0⟩ := by
      rw [hfont]
      dsimp only
      split
      case isTrue hin =>
        rw [if_pos hin] at hgood
        obtain hsmall | rfl := hgood
        · rw [u8, Int.emod_eq_of_lt hpos.le (by omega)]
        · rw [sub_self, zero_mul, zero_mul]
      case isFalse => rfl
    refine ⟨⟨by rw [hfont], by rw [hfont], hdata⟩, fun x y hx _ hy _ f q hq => ?_⟩
    have hreads : readsOf (getCharBitmap e charcode) f (drawChar e charcode x y f) :=
      drawChar_reads he (by rw [hchar, hfont]; exact hw') (by rw [hchar, hfont]; exact hw.le)
        (by rw [hchar, hfont]; exact hh.le) hx hy
    refine (hreads q hq).imp_right ?_
    rintro ⟨n, hn, hnlt, rfl⟩
    rw [hchar] at hnlt ⊢
    have hn' : n < file.charsize := by
      rw [hfont] at hnlt
      rwa [hcs]
    rw [hdata]
    unfold ofGlyph
    split
    case isTrue hin =>
      have hnext : (charcode - file.start + 1) * file.charsize =
          (charcode - file.start) * file.charsize + file.charsize := by ring
      refine ⟨rfl, ?_, ?_⟩
      · change _ ≤ FontFile.infoSize + (charcode - file.start) * file.charsize + n
        omega
      · change FontFile.infoSize + (charcode - file.start) * file.charsize + n < _
        omega
    case isFalse hout =>
      rw [if_neg hout] at hgood
      refine ⟨rfl, ?_, ?_⟩
      · change 0 ≤ 0 + n
        omega
      · change 0 + n < 32
        omega

/-- Two glyphs of the given width and height, for the codes of 0 and 1. -/
def twoGlyphs (width height : ℤ) (hw : 0 ≤ width ∧ width < 256) (hh : 0 ≤ height ∧ height < 256) :
    FontFile where
  width := width
  height := height
  type := 0
  start := 0x30
  end_ := 0x31
  size := FontFile.infoSize + 2 * ((width + 7) / 8 * height)
  bytes _ := 0xff#8
  width_nonneg := hw.1
  width_lt := hw.2
  height_nonneg := hh.1
  height_lt := hh.2
  start_nonneg := by decide
  end_lt := by decide
  size_lt := by
    have hle : (width + 7) / 8 * height ≤ 32 * 255 :=
      Int.mul_le_mul (by omega) (by omega) hh.1 (by decide)
    simp only [FontFile.infoSize]
    omega

theorem glyph_right_iff_large :
    GlyphRight (showcase (twoGlyphs 24 24 (by decide) (by decide)) 1)
      (twoGlyphs 24 24 (by decide) (by decide)) 1 0x31 := by
  have hall : ∀ e : State, e.Screen → Loaded e (twoGlyphs 24 24 (by decide) (by decide)) 1 →
      GlyphRight e (twoGlyphs 24 24 (by decide) (by decide)) 1 0x31 :=
    (glyph_right_iff (d := fresh 8 8 16) (by decide) (by decide) (by decide)).mpr (.inl (by decide))
  exact hall _ (showcase_screen _ 1) (showcase_loaded _ 1)

/-- The glyphs of a font of 64 by 64 pixels all are the first one. -/
theorem not_glyph_right :
    (platform_disp_loadfont (some (twoGlyphs 64 64 (by decide) (by decide))) (fresh 8 8 16)).2 = 1 ∧
      ¬∀ e : State, e.Screen → Loaded e (twoGlyphs 64 64 (by decide) (by decide)) 1 →
        GlyphRight e (twoGlyphs 64 64 (by decide) (by decide)) 1 0x31 := by
  refine ⟨by decide, fun h => ?_⟩
  have hdata := (h _ (showcase_screen _ 1) (showcase_loaded _ 1)).1.2.2
  revert hdata
  decide

end LuatAir200.Disp
