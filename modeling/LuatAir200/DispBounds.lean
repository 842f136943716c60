import LuatAir200.DispText
import LuatAir200.Machine

/-!
# Writes to the frame buffer

Every drawing call, and when its writes stay in the memory that `platform_disp_init` has asked
for. A monochrome screen has memory for whole groups of eight rows only, PNG images are not
clipped, and rectangles only on the right and below.
-/
namespace LuatAir200.Disp
open Painting Machine

/-- All bytes written are among the first `n`. -/
def Frame.Inside (n : ℤ) (f : Frame) : Prop := ∀ i ∈ f.written, 0 ≤ i ∧ i < n

theorem Frame.Inside.poke {n i : ℤ} {f : Frame} (h : f.Inside n) (h₀ : 0 ≤ i) (hn : i < n)
    (v : BitVec 8) : (f.poke i v).Inside n := by
  intro j hj
  obtain hj | hj := List.mem_append.mp hj
  · exact h j hj
  · rw [List.mem_singleton] at hj
    exact hj ▸ ⟨h₀, hn⟩

theorem Frame.Inside.setBit {n i : ℤ} {f : Frame} (h : f.Inside n) (h₀ : 0 ≤ i) (hn : i < n)
    (fill : Bool) (k : ℤ) : (f.setBit fill i k).Inside n := h.poke h₀ hn _

theorem Frame.Inside.poke16 {n i : ℤ} {f : Frame} (h : f.Inside n) (h₀ : 0 ≤ i)
    (hn : 2 * i + 1 < n) (v : BitVec 16) : (f.poke16 i v).Inside n :=
  (h.poke (by omega) (by omega) _).poke (by omega) hn _

/-- The part of the screen from (x0, y0) to before (x1, y1) has memory: its last pixel has. -/
def State.Backed (d : State) (x0 y0 x1 y1 : ℤ) : Prop :=
  x0 < x1 → y0 < y1 →
    if d.lcd_bpp = 16 then 2 * ((y1 - 1) * d.lcd_width + (x1 - 1)) + 1 < d.allocated
    else (y1 - 1) / 8 * d.lcd_width + (x1 - 1) < d.allocated

variable {d : State} {x0 y0 x1 y1 : ℤ}

theorem backed16 (hw : 0 < d.lcd_width) (h16 : d.lcd_bpp = 16) (h : d.Backed x0 y0 x1 y1) {x y : ℤ}
    (hx : x0 ≤ x) (hx1 : x < x1) (hy : y0 ≤ y) (hy1 : y < y1) :
    2 * (y * d.lcd_width + x) + 1 < d.allocated := by
  have hlast := h (by omega) (by omega)
  rw [if_pos h16] at hlast
  have hrow : y * d.lcd_width ≤ (y1 - 1) * d.lcd_width :=
    Int.mul_le_mul_of_nonneg_right (by omega) hw.le
  omega

theorem backed1 (hw : 0 < d.lcd_width) (h16 : d.lcd_bpp ≠ 16) (h : d.Backed x0 y0 x1 y1) {x y : ℤ}
    (hx : x0 ≤ x) (hx1 : x < x1) (hy : y0 ≤ y) (hy1 : y < y1) :
    y / 8 * d.lcd_width + x < d.allocated := by
  have hlast := h (by omega) (by omega)
  rw [if_neg h16] at hlast
  have hrow : y / 8 * d.lcd_width ≤ (y1 - 1) / 8 * d.lcd_width :=
    Int.mul_le_mul_of_nonneg_right (by omega) hw.le
  omega

theorem cell_nonneg (hw : 0 < d.lcd_width) {x y : ℤ} (hx : 0 ≤ x) (hy : 0 ≤ y) :
    0 ≤ y * d.lcd_width + x := Int.add_nonneg (Int.mul_nonneg hy hw.le) hx

/-- The whole screen has memory when the size of the buffer is right and, on a monochrome screen,
the height is a multiple of eight. -/
theorem backed_screen (hs : d.Screen)
    (ha : d.allocated = bufferSize d.lcd_width d.lcd_height d.lcd_bpp)
    (hsize : d.lcd_width * d.lcd_height * d.lcd_bpp < 2 ^ 31)
    (hpage : d.lcd_bpp = 1 → d.lcd_height % 8 = 0) (hx : x1 ≤ d.lcd_width)
    (hy : y1 ≤ d.lcd_height) : d.Backed x0 y0 x1 y1 := by
  intro _ _
  obtain ⟨hw, -, hh, -, hbpp⟩ := hs
  have hpix : 0 < d.lcd_width * d.lcd_height := Int.mul_pos hw hh
  have hcomm : d.lcd_height * d.lcd_width = d.lcd_width * d.lcd_height := Int.mul_comm _ _
  split
  case isTrue h16 =>
    have hrow : (y1 - 1) * d.lcd_width ≤ (d.lcd_height - 1) * d.lcd_width :=
      Int.mul_le_mul_of_nonneg_right (by omega) hw.le
    have hsub : (d.lcd_height - 1) * d.lcd_width = d.lcd_width * d.lcd_height - d.lcd_width := by
      ring
    rw [ha, bufferSize, h16, int32_eq (by omega) (by rw [h16] at hsize; exact hsize),
      Int.tdiv_eq_ediv_of_nonneg (by omega), u32_eq (by omega) (by rw [h16] at hsize; omega)]
    omega
  case isFalse h16 =>
    have h1 : d.lcd_bpp = 1 := hbpp.resolve_left h16
    have hmod := hpage h1
    obtain ⟨n, hn⟩ : ∃ n, d.lcd_height = 8 * n := ⟨d.lcd_height / 8, by omega⟩
    have hrow : (y1 - 1) / 8 * d.lcd_width ≤ (n - 1) * d.lcd_width :=
      Int.mul_le_mul_of_nonneg_right (by omega) hw.le
    have hsub : (n - 1) * d.lcd_width = d.lcd_width * n - d.lcd_width := by ring
    have hbytes : d.lcd_width * (8 * n) * 1 = 8 * (d.lcd_width * n) := by ring
    rw [h1, hn, hbytes] at hsize
    rw [hn] at hpix
    have hpos : 0 < d.lcd_width * n := by
      have : d.lcd_width * (8 * n) = 8 * (d.lcd_width * n) := by ring
      omega
    rw [ha, bufferSize, h1, hn, hbytes, int32_eq (by omega) hsize,
      Int.tdiv_eq_ediv_of_nonneg (by omega), u32_eq (by omega) (by omega)]
    omega

/-! ## The calls -/

inductive Act
  | puttext (string : List UInt8) (bitmap : DispBitmap) (x y : ℤ)
  | putimage (file : Image) (x y transcolor left top right bottom : ℤ)
  | drawrect (x1 y1 x2 y2 color : ℤ)
  | setcolor (color : ℤ)
  | loadfont (file : Option FontFile)
  | setfont (id : ℤ)

instance (b : DispBitmap) : Decidable b.U16 := inferInstanceAs (Decidable (_ ∧ _ ∧ _ ∧ _))

/-- One call. What is in the bitmap of `puttext` is of its type, if nothing more. -/
def step (d : State) : Act → Option State
  | .puttext string bitmap x y =>
      if bitmap.U16 then some (disp_puttext string bitmap x y d) else none
  | .putimage file x y transcolor left top right bottom =>
      some (disp_putimage file x y transcolor left top right bottom d)
  | .drawrect x1 y1 x2 y2 color => some (disp_drawrect x1 y1 x2 y2 color d)
  | .setcolor color => some { d with disp_color := color }
  | .loadfont file => some (platform_disp_loadfont file d).1
  | .setfont id => some (platform_disp_setfont id d).1

/-- The place where a glyph is drawn that is put to (x, y). -/
def corner (d : State) (charcode x y : ℤ) : ℤ × ℤ :=
  if isSmall d (getCharBitmap d charcode) then (u16 (x + 1), u16 (y + 1)) else (x, y)

/-- The part of the screen that a glyph covers has memory. -/
def GlyphFits (d : State) (charcode x y : ℤ) : Prop :=
  let b := getCharBitmap d charcode
  let c := corner d charcode x y
  d.Backed c.1 c.2 (u16 (min d.lcd_width (c.1 + b.width))) (u16 (min d.lcd_height (c.2 + b.height)))

/-- The last pixel of the rectangle of a PNG image has memory, where the code puts it. -/
def PngFits (d : State) (p : Png) (x y left top right bottom : ℤ) : Prop :=
  let whole := Bmp.whole left top right bottom
  let right := if whole then p.width - 1 else right
  let bottom := if whole then p.height - 1 else bottom
  let last := min bottom (p.height - 1)
  p.channel = 3 ∨ p.channel = 4 → left ≤ right → top ≤ last →
    2 * ((y + last - top) * d.lcd_width + (x + right - left)) + 1 < d.allocated

/-- Does `put_bmp_file_buff` draw an image of this kind on the screen? -/
def Bmp.Suits (p : Bmp) (d : State) (left top right bottom : ℤ) : Prop :=
  left ≤ right ∧ top ≤ bottom ∧ (d.lcd_bpp = 1 ∧ p.bits_per_pixel = 1 ∨
    d.lcd_bpp = 16 ∧ (p.bits_per_pixel = 24 ∨ p.bits_per_pixel = 16))

def ImageFits (d : State) (file : Image) (x y left top right bottom : ℤ) : Prop :=
  match file with
  | .bmp p => p.Suits d left top right bottom →
      d.Backed (u16 x) (u16 y) (p.endCol d x left top right bottom)
        (p.endRow d y left top right bottom)
  | .png p => PngFits d p x y left top right bottom
  | .none => True

/-- The rectangle begins in the buffer and, as far as it is drawn, has memory. -/
def RectFits (d : State) (x1 y1 x2 y2 color : ℤ) : Prop :=
  let x1 := min x1 (d.lcd_width - 1)
  let x2 := min x2 (d.lcd_width - 1)
  let y1 := min y1 (d.lcd_height - 1)
  let y2 := min y2 (d.lcd_height - 1)
  if d.lcd_bpp = 16 then
    x1 < x2 → y1 < y2 → 0 ≤ y1 * d.lcd_width + x1 ∧ d.Backed x1 y1 (x2 + 1) (y2 + 1)
  else x1 < x2 → y1 < y2 → color = COLOR_BLACK ∨ color = COLOR_WHITE →
    d.Backed (u16 x1) (u16 y1) x2 y2

/-- When a call writes to the buffer only. -/
def Fits (d : State) : Act → Prop
  | .puttext string bitmap x y =>
      ∀ g ∈ placed d (home d bitmap (u16 x) (u16 y)) (rounds 0 string), GlyphFits d g.1 g.2.1 g.2.2
  | .putimage file x y _ left top right bottom =>
      ImageFits d file (u16 x) (u16 y) (u16 left) (u16 top) (u16 right) (u16 bottom)
  | .drawrect x1 y1 x2 y2 color => RectFits d x1 y1 x2 y2 color
  | .setcolor _ | .loadfont _ | .setfont _ => True

/-! ## Text -/

theorem bpp1_inside (hs : d.Screen) (h16 : d.lcd_bpp ≠ 16) {b : DispBitmap} {startX startY : ℤ}
    (hx : 0 ≤ startX) (hy : 0 ≤ startY)
    (hb : d.Backed startX startY (u16 (min d.lcd_width (startX + b.width)))
      (u16 (min d.lcd_height (startY + b.height))))
    {f : Frame} (hf : f.Inside d.allocated) :
    (disp_bitmap_bpp1 d b startX startY f).Inside d.allocated := by
  unfold disp_bitmap_bpp1
  split
  · exact hf
  · refine foldl_keeps (P := Frame.Inside d.allocated) (fun x hxm g hg =>
      foldl_keeps (P := Frame.Inside d.allocated) (fun y hym g hg => ?_) hg) hf
    rw [mem_upto] at hxm hym
    dsimp only
    split
    · exact Frame.Inside.setBit (f := g.look _) hg
        (cell_nonneg hs.width_pos (by omega) (by omega))
        (backed1 hs.width_pos h16 hb hxm.1 hxm.2 hym.1 hym.2) _ _
    · exact hg

theorem bpp16_inside (hs : d.Screen) (h16 : d.lcd_bpp = 16) {b : DispBitmap} {startX startY : ℤ}
    (hx : 0 ≤ startX) (hy : 0 ≤ startY)
    (hb : d.Backed startX startY (u16 (min d.lcd_width (startX + b.width)))
      (u16 (min d.lcd_height (startY + b.height))))
    {f : Frame} (hf : f.Inside d.allocated) :
    (disp_1bitbmp_bpp16 d b startX startY f).Inside d.allocated := by
  unfold disp_1bitbmp_bpp16
  refine foldl_keeps (P := Frame.Inside d.allocated) (fun x hxm g hg =>
    foldl_keeps (P := Frame.Inside d.allocated) (fun y hym g hg => ?_) hg) hf
  rw [mem_upto] at hxm hym
  dsimp only
  split
  · exact Frame.Inside.poke16 (f := g.look _) hg
      (cell_nonneg hs.width_pos (by omega) (by omega))
      (backed16 hs.width_pos h16 hb hxm.1 hxm.2 hym.1 hym.2) _
  · exact hg

theorem drawChar_inside (hs : d.Screen) {charcode x y : ℤ} (hx : 0 ≤ x) (hy : 0 ≤ y)
    (h : GlyphFits d charcode x y) {f : Frame} (hf : f.Inside d.allocated) :
    (drawChar d charcode x y f).Inside d.allocated := by
  unfold GlyphFits corner at h
  unfold drawChar
  dsimp only at h ⊢
  by_cases hb : d.lcd_bpp = 1
  · have h16 : d.lcd_bpp ≠ 16 := by omega
    rw [if_pos hb]
    split
    case isTrue hsmall =>
      rw [if_pos hsmall] at h
      exact bpp1_inside hs h16 (u16_nonneg _) (u16_nonneg _) h hf
    case isFalse hsmall =>
      rw [if_neg hsmall] at h
      exact bpp1_inside hs h16 hx hy h hf
  · have hsmall : ¬isSmall d (getCharBitmap d charcode) = true := by simp [isSmall, hb]
    rw [if_neg hsmall] at h
    rw [if_neg hb]
    exact bpp16_inside hs (hs.bpp.resolve_right hb) hx hy h hf

theorem puttext_inside (hs : d.Screen) (hfonts : d.Fonts) {string : List UInt8}
    {bitmap : DispBitmap} (hb : bitmap.U16) {x y : ℤ} (h : Fits d (.puttext string bitmap x y))
    (hd : d.frame.Inside d.allocated) :
    (disp_puttext string bitmap x y d).frame.Inside d.allocated := by
  have hon := steps_on hs hfonts (rounds 0 string)
    (home_on bitmap hs (u16_nonneg x) (u16_nonneg y)) hb
  change (platform_disp_puttext d string bitmap (u16 x) (u16 y) d.frame).Inside d.allocated
  rw [puttext_eq]
  refine foldl_keeps (P := Frame.Inside d.allocated) (fun g hg f hf => ?_) hd
  obtain ⟨s, hs', hsg⟩ := List.mem_filterMap.mp hg
  have hcur := (hon s hs').1
  have hfit := h g hg
  split at hsg
  · cases hsg
  · cases hsg
    exact drawChar_inside hs hcur.1 hcur.2.2.1 hfit hf

/-! ## Images -/

theorem put_bmp_inside (hs : d.Screen) {p : Bmp} {x y transcolor left top right bottom : ℤ}
    (h : p.Suits d left top right bottom →
      d.Backed (u16 x) (u16 y) (p.endCol d x left top right bottom)
        (p.endRow d y left top right bottom)) {f : Frame} (hf : f.Inside d.allocated) :
    (put_bmp_file_buff d p x y transcolor left top right bottom f).1.Inside d.allocated := by
  have hx₀ := u16_nonneg x
  have hy₀ := u16_nonneg y
  have hrow : ∀ r ∈ p.rowIndices d y left top right bottom,
      u16 y ≤ r ∧ r < p.endRow d y left top right bottom := fun r hr =>
    mem_upto.mp ((List.takeWhile_prefix _).subset hr)
  unfold put_bmp_file_buff
  split
  · exact hf
  case isFalse hrect =>
  obtain ⟨hlr, htb⟩ := not_or.mp hrect
  split
  case isTrue hmono =>
    have hb := h ⟨not_lt.mp hlr, not_lt.mp htb, .inl hmono⟩
    have h16 : d.lcd_bpp ≠ 16 := by omega
    refine foldl_keeps (P := Frame.Inside d.allocated) (fun r hr g hg =>
      foldl_keeps (P := Frame.Inside d.allocated) (fun c hc g hg => ?_) hg) hf
    rw [mem_upto] at hc
    obtain ⟨hr₀, hr₁⟩ := hrow r hr
    exact Frame.Inside.setBit (f := g.look _) hg
      (cell_nonneg hs.width_pos (by omega) (by omega))
      (backed1 hs.width_pos h16 hb hc.1 hc.2 hr₀ hr₁) _ _
  split
  · exact hf
  case isFalse h16 =>
  split
  · exact hf
  case isFalse hbits =>
  have hb := h ⟨not_lt.mp hlr, not_lt.mp htb, .inr ⟨not_not.mp h16, by omega⟩⟩
  refine foldl_keeps (P := Frame.Inside d.allocated) (fun r hr g hg =>
    foldl_keeps (P := Frame.Inside d.allocated) (fun c hc g hg => ?_) hg) hf
  rw [mem_upto] at hc
  obtain ⟨hr₀, hr₁⟩ := hrow r hr
  have hlook (i : ℤ) : (p.lookRgb16 i g).Inside d.allocated := by
    unfold Bmp.lookRgb16
    split <;> exact hg
  dsimp only
  split
  · exact (hlook _).poke16 (cell_nonneg hs.width_pos (by omega) (by omega))
      (backed16 hs.width_pos (not_not.mp h16) hb hc.1 hc.2 hr₀ hr₁) _
  · exact hlook _

theorem put_png_inside (hs : d.Screen) {p : Png} {x y transcolor left top right bottom : ℤ}
    (hx : 0 ≤ x) (hy : 0 ≤ y) (ha : d.allocated < 2 ^ 32)
    (h : PngFits d p x y left top right bottom) {f : Frame} (hf : f.Inside d.allocated) :
    (put_png_file_buff d p x y transcolor left top right bottom f).1.Inside d.allocated := by
  have hw := hs.width_pos
  unfold put_png_file_buff
  unfold PngFits at h
  split
  · exact hf
  split
  · exact hf
  case isFalse hchan =>
  dsimp only at h ⊢
  refine foldl_keeps (P := Frame.Inside d.allocated) (fun r hr g hg => ?_) hf
  have hrlt := mem_upto.mp ((List.takeWhile_prefix _).subset hr)
  have hrle := List.mem_takeWhile_imp hr
  rw [decide_eq_true_eq] at hrle
  split
  · exact hg
  · refine foldl_keeps (P := Frame.Inside d.allocated) (fun c hc g hg => ?_) hg
    rw [mem_upto] at hc
    split
    · have hlast := h (by omega) (by omega) (by omega)
      have hmono : (y + r - top) * d.lcd_width ≤
          (y + min (if Bmp.whole left top right bottom = true then p.height - 1 else bottom)
            (p.height - 1) - top) * d.lcd_width :=
        Int.mul_le_mul_of_nonneg_right (by omega) hw.le
      have hcell : 0 ≤ (y + r - top) * d.lcd_width + (x + c - left) :=
        cell_nonneg hw (by omega) (by omega)
      -- the unsigned index does not wrap below the size of the buffer
      have hidx : Png.index d x y left top r c =
          (y + r - top) * d.lcd_width + (x + c - left) := u32_eq hcell (by omega)
      rw [hidx]
      exact hg.poke16 hcell (by omega) _
    · exact hg

theorem putimage_inside (hs : d.Screen) (ha : d.allocated < 2 ^ 32) {file : Image}
    {x y transcolor left top right bottom : ℤ}
    (h : Fits d (.putimage file x y transcolor left top right bottom))
    (hd : d.frame.Inside d.allocated) :
    (disp_putimage file x y transcolor left top right bottom d).frame.Inside d.allocated := by
  cases file with
  | bmp p => exact put_bmp_inside hs h hd
  | png p => exact put_png_inside hs (u16_nonneg x) (u16_nonneg y) ha h hd
  | none => exact hd

/-! ## Rectangles -/

theorem fillRect16_inside (hs : d.Screen) (h16 : d.lcd_bpp = 16) {x1 y1 x2 y2 color : ℤ}
    (h₀ : 0 ≤ y1 * d.lcd_width + x1) (h : d.Backed x1 y1 (x2 + 1) (y2 + 1)) {f : Frame}
    (hf : f.Inside d.allocated) : (fillRect16 d x1 y1 x2 y2 color f).Inside d.allocated := by
  have hw := hs.width_pos
  refine foldl_keeps (P := Frame.Inside d.allocated) (fun j hj g hg =>
    foldl_keeps (P := Frame.Inside d.allocated) (fun i hi g hg => ?_) hg) hf
  rw [mem_upto] at hj hi
  have hrow : y1 * d.lcd_width + (j - y1) * d.lcd_width = j * d.lcd_width := by ring
  have hfirst : y1 * d.lcd_width ≤ j * d.lcd_width := Int.mul_le_mul_of_nonneg_right hj.1 hw.le
  rw [hrow]
  exact hg.poke16 (by omega) (backed16 hw h16 h hi.1 hi.2 hj.1 hj.2) _

theorem drawFrame_inside (hs : d.Screen) (h16 : d.lcd_bpp = 16) {x1 y1 x2 y2 : ℤ} (hx : x1 < x2)
    (hy : y1 < y2) (h₀ : 0 ≤ y1 * d.lcd_width + x1) (h : d.Backed x1 y1 (x2 + 1) (y2 + 1))
    {f : Frame} (hf : f.Inside d.allocated) : (drawFrame d x1 y1 x2 y2 f).Inside d.allocated := by
  have hw := hs.width_pos
  have hcell {i j : ℤ} (hi : x1 ≤ i ∧ i < x2 + 1) (hj : y1 ≤ j ∧ j < y2 + 1) :
      0 ≤ j * d.lcd_width + i ∧ 2 * (j * d.lcd_width + i) + 1 < d.allocated := by
    have hfirst : y1 * d.lcd_width ≤ j * d.lcd_width := Int.mul_le_mul_of_nonneg_right hj.1 hw.le
    exact ⟨by omega, backed16 hw h16 h hi.1 hi.2 hj.1 hj.2⟩
  unfold drawFrame
  refine foldl_keeps (P := Frame.Inside d.allocated) (fun j hj g hg => ?_)
    (foldl_keeps (P := Frame.Inside d.allocated) (fun i hi g hg => ?_) hf)
  · rw [mem_upto] at hj
    have hrow : y1 * d.lcd_width + (j - y1) * d.lcd_width = j * d.lcd_width := by ring
    dsimp only
    rw [hrow]
    obtain ⟨hl₀, hl⟩ := hcell (i := x1) (j := j) (by omega) hj
    obtain ⟨hr₀, hr⟩ := hcell (i := x2) (j := j) (by omega) hj
    exact (hg.poke16 hl₀ hl _).poke16 hr₀ hr _
  · rw [mem_upto] at hi
    have hrow : y1 * d.lcd_width + ((y2 - y1) * d.lcd_width + i) = y2 * d.lcd_width + i := by ring
    rw [hrow]
    obtain ⟨ht₀, ht⟩ := hcell (i := i) (j := y1) hi (by omega)
    obtain ⟨hb₀, hb⟩ := hcell (i := i) (j := y2) hi (by omega)
    exact (hg.poke16 ht₀ ht _).poke16 hb₀ hb _

theorem fillRect1_inside (hs : d.Screen) (h16 : d.lcd_bpp ≠ 16) {x1 y1 x2 y2 color : ℤ}
    (h : d.Backed (u16 x1) (u16 y1) x2 y2) {f : Frame} (hf : f.Inside d.allocated) :
    (fillRect1 d x1 y1 x2 y2 color f).Inside d.allocated := by
  have hx₀ := u16_nonneg x1
  have hy₀ := u16_nonneg y1
  refine foldl_keeps (P := Frame.Inside d.allocated) (fun x hx g hg =>
    foldl_keeps (P := Frame.Inside d.allocated) (fun y hy g hg => ?_) hg) hf
  rw [mem_upto] at hx hy
  exact hg.setBit (cell_nonneg hs.width_pos (by omega) (by omega))
    (backed1 hs.width_pos h16 h hx.1 hx.2 hy.1 hy.2) _ _

theorem drawrect_inside (hs : d.Screen) {x1 y1 x2 y2 color : ℤ} (h : RectFits d x1 y1 x2 y2 color)
    (hd : d.frame.Inside d.allocated) :
    (disp_drawrect x1 y1 x2 y2 color d).frame.Inside d.allocated := by
  unfold RectFits at h
  change (platform_disp_drawrect d x1 y1 x2 y2 color d.frame).1.Inside d.allocated
  unfold platform_disp_drawrect
  dsimp only at h ⊢
  split
  · exact hd
  case isFalse hrect =>
  obtain ⟨hx, hy⟩ := not_or.mp hrect
  split
  case isTrue h16 =>
    rw [if_pos h16] at h
    obtain ⟨h₀, hb⟩ := h (not_le.mp hx) (not_le.mp hy)
    split
    · exact drawFrame_inside hs h16 (not_le.mp hx) (not_le.mp hy) h₀ hb hd
    · exact fillRect16_inside hs h16 h₀ hb hd
  case isFalse h16 =>
    rw [if_neg h16] at h
    split
    · split
      case isTrue hc =>
        exact fillRect1_inside hs h16 (h (not_le.mp hx) (not_le.mp hy) hc) hd
      case isFalse => exact hd
    · exact hd

/-! ## Runs -/

/-- What every call keeps. -/
structure Ready (d : State) : Prop where
  screen : d.Screen
  fonts : d.Fonts
  allocated : d.allocated < 2 ^ 32

theorem ready_init {width height bpp hwfillcolor : ℤ} {hz : Option Pointer}
    {rom : Pointer → BitVec 8} {mem : ℤ → BitVec 8} {d : State}
    (h : disp_init width height bpp hwfillcolor (boot hz rom mem) = some d) : Ready d := by
  refine ⟨disp_init_screen h, ?_, ?_⟩
  all_goals
    unfold disp_init at h
    split at h
    · cases h
    split at h
    · cases h
    obtain rfl := Option.some.inj h
  · exact fonts_init hz rom mem _ _ _ _
  · exact Int.emod_lt_of_pos _ (by decide)

theorem loadfont_screen (d : State) (file : Option FontFile) :
    let e := (platform_disp_loadfont file d).1
    e.lcd_width = d.lcd_width ∧ e.lcd_height = d.lcd_height ∧ e.lcd_bpp = d.lcd_bpp ∧
      e.allocated = d.allocated ∧ e.frame = d.frame := by
  unfold platform_disp_loadfont
  split
  · exact ⟨rfl, rfl, rfl, rfl, rfl⟩
  split
  · exact ⟨rfl, rfl, rfl, rfl, rfl⟩
  split <;> exact ⟨rfl, rfl, rfl, rfl, rfl⟩

theorem setfont_screen (d : State) (id : ℤ) :
    let e := (platform_disp_setfont id d).1
    e.lcd_width = d.lcd_width ∧ e.lcd_height = d.lcd_height ∧ e.lcd_bpp = d.lcd_bpp ∧
      e.allocated = d.allocated ∧ e.frame = d.frame := by
  unfold platform_disp_setfont
  split <;> exact ⟨rfl, rfl, rfl, rfl, rfl⟩

theorem Ready.of_same {e : State} (h : Ready d) (hf : e.Fonts) (hw : e.lcd_width = d.lcd_width)
    (hh : e.lcd_height = d.lcd_height) (hb : e.lcd_bpp = d.lcd_bpp)
    (ha : e.allocated = d.allocated) : Ready e := by
  obtain ⟨⟨h₁, h₂, h₃, h₄, h₅⟩, -, h₆⟩ := h
  exact ⟨⟨hw ▸ h₁, hw ▸ h₂, hh ▸ h₃, hh ▸ h₄, hb ▸ h₅⟩, hf, ha ▸ h₆⟩

theorem step_ready {a : Act} {e : State} (h : Ready d) (hstep : step d a = some e) : Ready e := by
  cases a with
  | puttext string bitmap x y =>
      obtain ⟨-, ⟨⟩⟩ := Option.ite_none_right_eq_some.mp hstep
      exact h.of_same ⟨h.fonts.font, h.fonts.curr, h.fonts.hz⟩ rfl rfl rfl rfl
  | putimage file x y transcolor left top right bottom =>
      obtain rfl := Option.some.inj hstep
      exact h.of_same ⟨h.fonts.font, h.fonts.curr, h.fonts.hz⟩ rfl rfl rfl rfl
  | drawrect x1 y1 x2 y2 color =>
      obtain rfl := Option.some.inj hstep
      exact h.of_same ⟨h.fonts.font, h.fonts.curr, h.fonts.hz⟩ rfl rfl rfl rfl
  | setcolor color =>
      obtain rfl := Option.some.inj hstep
      exact h.of_same ⟨h.fonts.font, h.fonts.curr, h.fonts.hz⟩ rfl rfl rfl rfl
  | loadfont file =>
      obtain rfl := Option.some.inj hstep
      obtain ⟨hw, hh, hb, ha, -⟩ := loadfont_screen d file
      exact h.of_same (fonts_loadfont h.fonts file) hw hh hb ha
  | setfont id =>
      obtain rfl := Option.some.inj hstep
      obtain ⟨hw, hh, hb, ha, -⟩ := setfont_screen d id
      exact h.of_same (fonts_setfont h.fonts id) hw hh hb ha

/-- All writes so far were to the buffer. -/
def Inside (d : State) : Prop := d.frame.Inside d.allocated

theorem step_inside {a : Act} {e : State} (h : Ready d) (hd : Inside d) (hfit : Fits d a)
    (hstep : step d a = some e) : Inside e := by
  cases a with
  | puttext string bitmap x y =>
      obtain ⟨hb, ⟨⟩⟩ := Option.ite_none_right_eq_some.mp hstep
      exact puttext_inside h.screen h.fonts hb hfit hd
  | putimage file x y transcolor left top right bottom =>
      obtain rfl := Option.some.inj hstep
      exact putimage_inside h.screen h.allocated hfit hd
  | drawrect x1 y1 x2 y2 color =>
      obtain rfl := Option.some.inj hstep
      exact drawrect_inside h.screen hfit hd
  | setcolor color =>
      obtain rfl := Option.some.inj hstep
      exact hd
  | loadfont file =>
      obtain rfl := Option.some.inj hstep
      obtain ⟨-, -, -, ha, hf⟩ := loadfont_screen d file
      rw [Inside, ha, hf]
      exact hd
  | setfont id =>
      obtain rfl := Option.some.inj hstep
      obtain ⟨-, -, -, ha, hf⟩ := setfont_screen d id
      rw [Inside, ha, hf]
      exact hd

/-- After `disp.init` every run whose calls draw where there is memory writes to the buffer only. -/
theorem writes_inside {width height bpp hwfillcolor : ℤ} {hz : Option Pointer}
    {rom : Pointer → BitVec 8} {mem : ℤ → BitVec 8} {d : State}
    (h : disp_init width height bpp hwfillcolor (boot hz rom mem) = some d) {as : List Act}
    (hm : Meets step Fits d as) : Along step Inside d as := by
  have hempty : Inside d := by
    unfold disp_init at h
    split at h
    · cases h
    split at h
    · cases h
    obtain rfl := Option.some.inj h
    intro i hi
    cases hi
  exact along_of_meets (fun _ _ _ hs ht => step_ready hs ht)
    (fun _ _ _ hs hd hf ht => step_inside hs hd hf ht) (ready_init h) hempty hm

theorem writes_inside_small : ∃ d,
    disp_init 8 8 16 (-1) (boot none (fun _ => 0#8) fun _ => 0#8) = some d ∧
      Along step Inside d [.drawrect 1 1 30 3 0, .setcolor 7] := by
  have hinit : disp_init 8 8 16 (-1) (boot none (fun _ => 0#8) fun _ => 0#8) =
      some (platform_disp_init 8 8 16 (-1) (boot none (fun _ => 0#8) fun _ => 0#8)) := rfl
  refine ⟨_, hinit, writes_inside hinit fun e _ => ⟨?_, fun _ _ => ⟨trivial, trivial⟩⟩⟩
  exact fun _ _ => ⟨by decide, fun _ _ => by decide⟩

/-- A screen of 12 rows has memory for 8. -/
theorem not_writes_inside :
    ∃ d, disp_init 8 12 1 (-1) (boot none (fun _ => 0#8) fun _ => 0#8) = some d ∧
      ¬∀ as, Along step Inside d as := by
  refine ⟨_, rfl, fun h => ?_⟩
  have hin := (h [.drawrect 0 0 7 11 COLOR_WHITE]).2 _ rfl
  have hlast := (hin 14 (List.mem_of_getElem? (i := 76) rfl)).2
  revert hlast
  decide

/-! ## Screens with memory for all their pixels -/

structure Roomy (d : State) : Prop where
  allocated : d.allocated = bufferSize d.lcd_width d.lcd_height d.lcd_bpp
  size : d.lcd_width * d.lcd_height * d.lcd_bpp < 2 ^ 31
  pages : d.lcd_bpp = 1 → d.lcd_height % 8 = 0

/-- The calls that are left: no PNG images, and no rectangles from outside the screen. -/
def Plain : Act → Prop
  | .puttext _ bitmap _ _ => bitmap.U16
  | .putimage (.png _) _ _ _ _ _ _ _ => False
  | .drawrect x1 y1 _ _ _ => 0 ≤ x1 ∧ 0 ≤ y1
  | _ => True

theorem roomy_backed (hs : d.Screen) (hr : Roomy d) (hx : x1 ≤ d.lcd_width)
    (hy : y1 ≤ d.lcd_height) : d.Backed x0 y0 x1 y1 :=
  backed_screen hs hr.allocated hr.size hr.pages hx hy

/-- On such a screen they always fit. -/
theorem fits_roomy (hd : Ready d) (hr : Roomy d) {a : Act} (ha : Plain a) : Fits d a := by
  obtain ⟨hw, hw', hh, hh', hbpp⟩ := hd.screen
  cases a with
  | puttext string bitmap x y =>
      intro g hg
      obtain ⟨s, hs, hsg⟩ := List.mem_filterMap.mp hg
      obtain ⟨hx₀, hxw, hy₀, hyh⟩ := (steps_on hd.screen hd.fonts (rounds 0 string)
        (home_on bitmap hd.screen (u16_nonneg x) (u16_nonneg y)) ha s hs).1
      split at hsg
      · cases hsg
      cases hsg
      rename_i charcode _
      have hc : 0 ≤ (corner d charcode s.before.x s.before.y).1 ∧
          0 ≤ (corner d charcode s.before.x s.before.y).2 := by
        unfold corner
        split
        · exact ⟨u16_nonneg _, u16_nonneg _⟩
        · exact ⟨hx₀, hy₀⟩
      have hb : 0 ≤ (getCharBitmap d charcode).width ∧ 0 ≤ (getCharBitmap d charcode).height := by
        unfold getCharBitmap
        split
        · exact ⟨hd.fonts.hz.1.le, hd.fonts.hz.2.2.1.le⟩
        · obtain ⟨h₁, -, h₂, -⟩ := hd.fonts.font _ hd.fonts.curr
          exact ⟨h₁.le, h₂.le⟩
      change GlyphFits d charcode s.before.x s.before.y
      refine roomy_backed hd.screen hr ?_ ?_
      · rw [u16_eq (by omega) (by omega)]
        omega
      · rw [u16_eq (by omega) (by omega)]
        omega
  | putimage file x y transcolor left top right bottom =>
      cases file with
      | bmp p =>
          rintro ⟨hlr, htb, -⟩
          have hx := u16_nonneg x
          have hy := u16_nonneg y
          refine roomy_backed hd.screen hr ?_ ?_
          · unfold Bmp.endCol
            have hu : 0 ≤ u32 (p.width + u16 x) := Int.emod_nonneg _ (by decide)
            split <;> rw [u16_eq (by omega) (by omega)] <;> omega
          · unfold Bmp.endRow
            have hu : 0 ≤ u32 (p.height + u16 y) := Int.emod_nonneg _ (by decide)
            split <;> rw [u16_eq (by omega) (by omega)] <;> omega
      | png p => exact ha.elim
      | none => trivial
  | drawrect x1 y1 x2 y2 color =>
      obtain ⟨hx, hy⟩ := ha
      unfold Fits RectFits
      dsimp only
      split
      · intro _ _
        exact ⟨cell_nonneg hw (by omega) (by omega),
          roomy_backed hd.screen hr (by omega) (by omega)⟩
      · intro _ _ _
        exact roomy_backed hd.screen hr (by omega) (by omega)
  | setcolor color => trivial
  | loadfont file => trivial
  | setfont id => trivial

theorem step_roomy {a : Act} {e : State} (h : Roomy d) (hstep : step d a = some e) : Roomy e := by
  cases a with
  | puttext string bitmap x y =>
      obtain ⟨-, ⟨⟩⟩ := Option.ite_none_right_eq_some.mp hstep
      exact ⟨h.allocated, h.size, h.pages⟩
  | putimage file x y transcolor left top right bottom =>
      obtain rfl := Option.some.inj hstep
      exact ⟨h.allocated, h.size, h.pages⟩
  | drawrect x1 y1 x2 y2 color =>
      obtain rfl := Option.some.inj hstep
      exact ⟨h.allocated, h.size, h.pages⟩
  | setcolor color =>
      obtain rfl := Option.some.inj hstep
      exact ⟨h.allocated, h.size, h.pages⟩
  | loadfont file =>
      obtain rfl := Option.some.inj hstep
      obtain ⟨hw, hh, hb, ha, -⟩ := loadfont_screen d file
      exact ⟨by rw [ha, hw, hh, hb, h.allocated], by rw [hw, hh, hb]; exact h.size,
        by rw [hh, hb]; exact h.pages⟩
  | setfont id =>
      obtain rfl := Option.some.inj hstep
      obtain ⟨hw, hh, hb, ha, -⟩ := setfont_screen d id
      exact ⟨by rw [ha, hw, hh, hb, h.allocated], by rw [hw, hh, hb]; exact h.size,
        by rw [hh, hb]; exact h.pages⟩

/-- So runs of these calls write to the buffer only. -/
theorem inside_roomy (hd : Ready d) (hr : Roomy d) (hi : Inside d) {as : List Act}
    (ha : ∀ a ∈ as, Plain a) : Along step Inside d as :=
  along_of_meets (I := fun s => Ready s ∧ Roomy s)
    (fun _ _ _ hs ht => ⟨step_ready hs.1 ht, step_roomy hs.2 ht⟩)
    (fun _ _ _ hs hin hp ht => step_inside hs.1 hin (fits_roomy hs.1 hs.2 hp) ht) ⟨hd, hr⟩ hi
    (meets_of_forall (fun a hm _ => ha a hm) d)

end LuatAir200.Disp
