import LuatAir200.DispRects

/-!
# BMP images

Where `put_bmp_file_buff` puts the pixels of an image on a colour screen. The bounds of its loops
come out right in spite of the mixed arithmetic. The length of a row is kept in 16 bits, so
that in wide images the rows above the bottom one are read from the wrong place.
-/
namespace LuatAir200.Disp
open Painting

namespace Bmp

/-- The bytes of a row, which is padded to four bytes. -/
def rowBytes (p : Bmp) : ℤ := (p.width * p.bits_per_pixel + 31) / 32 * 4

/-- A bottom-up image in true colours whose file has a length of 32 bits. -/
structure WellFormed (p : Bmp) : Prop where
  width_pos : 0 < p.width
  width_lt : p.width < 2 ^ 31
  height_pos : 0 < p.height
  height_lt : p.height < 2 ^ 31
  bits : p.bits_per_pixel = 24 ∨ p.bits_per_pixel = 16
  offset : 0 ≤ p.bitmap_offset
  length : p.bitmap_offset + p.height * p.rowBytes < 2 ^ 32

/-- A rectangle of the image in 16-bit arguments; four zeros are one as well. -/
structure Crop (p : Bmp) (left top right bottom : ℤ) : Prop where
  left_nonneg : 0 ≤ left
  left_le : left ≤ right
  right_lt : right < p.width
  right_u16 : right < 65536
  top_nonneg : 0 ≤ top
  top_le : top ≤ bottom
  bottom_lt : bottom < p.height
  bottom_u16 : bottom < 65536

/-- The last column that is asked for. -/
def lastCol (p : Bmp) (left top right bottom : ℤ) : ℤ :=
  if whole left top right bottom then p.width - 1 else right

/-- The place of an image pixel in the data: the rows are stored bottom-up. -/
def place (p : Bmp) (c r : ℤ) : ℤ :=
  (p.height - 1 - r) * p.rowBytes + c * p.bits_per_pixel / 8

/-- The colour of column `c` in row `r` from the top. -/
def colour (p : Bmp) (c r : ℤ) : BitVec 16 := p.rgb16 (p.place c r)

/-- Where the code looks for it. -/
def readPlace (p : Bmp) (c r : ℤ) : ℤ :=
  (p.height - 1 - r) * p.bitmapRowBytes + c * p.bits_per_pixel / 8

variable {p : Bmp} {d : State} {x y left top right bottom : ℤ}

theorem rowBytes_pos (hp : p.WellFormed) : 0 < p.rowBytes := by
  have hw := hp.width_pos
  unfold rowBytes
  obtain hb | hb := hp.bits <;> rw [hb] <;> omega

/-- The pixels of a row fit into it. -/
theorem place_fits (hp : p.WellFormed) {c : ℤ} (hc : c < p.width) :
    c * p.bits_per_pixel / 8 + p.bits_per_pixel / 8 ≤ p.rowBytes := by
  unfold rowBytes
  obtain hb | hb := hp.bits <;> rw [hb] <;> omega

/-- The length of a row is reduced to 16 bits. -/
theorem bitmapRowBytes_eq (p : Bmp) : p.bitmapRowBytes = p.rowBytes % 65536 := by
  unfold bitmapRowBytes rowBytes u16 u32
  omega

theorem bitmapRowBytes_le (hp : p.WellFormed) : p.bitmapRowBytes ≤ p.rowBytes := by
  have hpos := rowBytes_pos hp
  rw [bitmapRowBytes_eq]
  omega

theorem lastRow_eq (hp : p.WellFormed) (left top right bottom : ℤ) :
    p.lastRow left top right bottom =
      if whole left top right bottom then p.height - 1 else bottom := by
  have hh := hp.height_lt
  have hh0 := hp.height_pos
  unfold lastRow
  rw [int32_eq (by omega) (by omega)]

theorem lastRow_bounds (hp : p.WellFormed) (hc : p.Crop left top right bottom) :
    top ≤ p.lastRow left top right bottom ∧ p.lastRow left top right bottom < p.height := by
  have h₁ := hc.top_le
  have h₂ := hc.bottom_lt
  rw [lastRow_eq hp]
  split <;> omega

theorem lastCol_bounds (hc : p.Crop left top right bottom) :
    left ≤ p.lastCol left top right bottom ∧ p.lastCol left top right bottom < p.width := by
  have h₁ := hc.left_le
  have h₂ := hc.right_lt
  unfold lastCol
  split <;> omega

/-- The rectangle begins at the front when the whole image is asked for. -/
theorem whole_origin (h : whole left top right bottom = true) : left = 0 ∧ top = 0 := by
  simp only [whole, decide_eq_true_eq] at h
  exact ⟨h.1, h.2.1⟩

theorem endCol_eq (hp : p.WellFormed) (hs : d.Screen) (hc : p.Crop left top right bottom)
    (hx : 0 ≤ x) (hxw : x < d.lcd_width) :
    p.endCol d x left top right bottom =
      min (p.lastCol left top right bottom - left + 1 + x) d.lcd_width := by
  have hw := hs.width_lt
  have h₁ := hp.width_pos
  have h₂ := hp.width_lt
  have h₃ := hc.left_le
  unfold endCol lastCol
  split
  case isTrue h =>
    rw [(whole_origin h).1, u32_eq (by omega) (by omega), u16_eq (by omega) (by omega)]
    omega
  case isFalse => rw [u16_eq (by omega) (by omega)]

theorem endRow_eq (hp : p.WellFormed) (hs : d.Screen) (hc : p.Crop left top right bottom)
    (hy : 0 ≤ y) (hyh : y < d.lcd_height) :
    p.endRow d y left top right bottom =
      min (p.lastRow left top right bottom - top + 1 + y) d.lcd_height := by
  have hw := hs.height_lt
  have h₁ := hp.height_pos
  have h₂ := hp.height_lt
  have h₃ := hc.top_le
  rw [lastRow_eq hp]
  unfold endRow
  split
  case isTrue h =>
    rw [(whole_origin h).2, u32_eq (by omega) (by omega), u16_eq (by omega) (by omega)]
    omega
  case isFalse => rw [u16_eq (by omega) (by omega)]

theorem bitmapRowIndex_eq (hp : p.WellFormed) (hc : p.Crop left top right bottom) (hy : 0 ≤ y)
    (hy16 : y < 65536) (rowIndex : ℤ) :
    p.bitmapRowIndex y top rowIndex = p.height - 1 - (rowIndex - y + top) := by
  have h₁ := hp.height_lt
  have h₂ := hc.top_nonneg
  have h₃ := hc.top_le
  have h₄ := hc.bottom_lt
  rw [bitmapRowIndex, int32_eq (by omega) (by omega), u16_eq hy hy16]
  omega

/-- The unsigned comparison does not end the loop over the rows, and the other bound does. -/
theorem rowIndices_eq (hp : p.WellFormed) (hs : d.Screen) (hc : p.Crop left top right bottom)
    (hy : 0 ≤ y) (hyh : y < d.lcd_height) :
    p.rowIndices d y left top right bottom =
      upto y (min (p.lastRow left top right bottom - top + 1 + y) d.lcd_height) := by
  have h₁ := hp.height_lt
  have h₂ := hc.top_nonneg
  have hy16 : y < 65536 := hyh.trans hs.height_lt
  obtain ⟨h₃, h₄⟩ := lastRow_bounds hp hc
  unfold rowIndices
  rw [endRow_eq hp hs hc hy hyh, u16_eq hy hy16]
  apply takeWhile_upto
  intro rowIndex hlo hhi
  have hidx := bitmapRowIndex_eq hp hc hy hy16 rowIndex
  rw [bitmapRowIndex, u16_eq hy hy16] at hidx
  rw [decide_eq_true_eq, hidx, u32_eq (by omega) (by omega), u32_eq (by omega) (by omega)]
  omega

theorem dataIndex_eq (hp : p.WellFormed) {c r : ℤ} (hc : 0 ≤ c) (hcw : c < p.width) (hr : 0 ≤ r)
    (hrh : r < p.height) :
    p.dataIndex (p.height - 1 - r) c = p.readPlace c r ∧ 0 ≤ p.readPlace c r ∧
      p.readPlace c r + p.bits_per_pixel / 8 ≤ p.height * p.rowBytes := by
  have hlen := hp.length
  have hoff := hp.offset
  have hfit := place_fits hp hcw
  have hmod₀ : 0 ≤ p.bitmapRowBytes := u16_nonneg _
  have hle := bitmapRowBytes_le hp
  have hrow₀ : 0 ≤ (p.height - 1 - r) * p.bitmapRowBytes := Int.mul_nonneg (by omega) hmod₀
  have hrow : (p.height - 1 - r) * p.bitmapRowBytes ≤ (p.height - 1) * p.rowBytes :=
    Int.mul_le_mul (by omega) hle hmod₀ (by have := hp.height_pos; omega)
  have hsum : (p.height - 1) * p.rowBytes + p.rowBytes = p.height * p.rowBytes := by ring
  have hcol₀ : 0 ≤ c * p.bits_per_pixel / 8 := by
    obtain hb | hb := hp.bits <;> rw [hb] <;> omega
  have hbits : 0 < p.bits_per_pixel / 8 := by
    obtain hb | hb := hp.bits <;> rw [hb] <;> decide
  have hval : p.dataIndex (p.height - 1 - r) c = p.readPlace c r :=
    u32_eq (Int.add_nonneg hrow₀ hcol₀) (by omega)
  exact ⟨hval, Int.add_nonneg hrow₀ hcol₀, by rw [readPlace]; omega⟩

end Bmp

/-! ## What is drawn -/

variable {d : State} {p : Bmp} {x y transcolor left top right bottom : ℤ}

/-- The pixels that the rectangle of the image covers. -/
def covered (p : Bmp) (x y left top right bottom : ℤ) (k : Pixel d) : Prop :=
  x ≤ k.x ∧ k.x - x + left ≤ p.lastCol left top right bottom ∧
    y ≤ k.y ∧ k.y - y + top ≤ p.lastRow left top right bottom

instance (k : Pixel d) : Decidable (covered p x y left top right bottom k) :=
  inferInstanceAs (Decidable (_ ∧ _ ∧ _ ∧ _))

/-- A colour over what a pixel shows. -/
def overlaid (transcolor : ℤ) (c old : BitVec 16) : BitVec 16 :=
  if opaqueFor transcolor c then c else old

theorem over_over (c old : BitVec 16) :
    overlaid transcolor c (overlaid transcolor c old) = overlaid transcolor c old := by
  unfold overlaid
  split <;> rfl

/-- The body of the loops for a colour screen. -/
def bmpPixel (d : State) (p : Bmp) (x y transcolor left top : ℤ) (f : Frame)
    (rowIndex colIndex : ℤ) : Frame :=
  let i := p.dataIndex (p.bitmapRowIndex y top rowIndex) (left + (colIndex - u16 x))
  let f := p.lookRgb16 i f
  if opaqueFor transcolor (p.rgb16 i) then f.poke16 (rowIndex * d.lcd_width + colIndex) (p.rgb16 i)
  else f

/-- On a colour screen the loops range over the covered pixels. -/
theorem put_bmp_eq (hp : p.WellFormed) (hs : d.Screen) (h16 : d.lcd_bpp = 16)
    (hc : p.Crop left top right bottom) (hx : 0 ≤ x) (hxw : x < d.lcd_width) (hy : 0 ≤ y)
    (hyh : y < d.lcd_height) (f : Frame) :
    (put_bmp_file_buff d p x y transcolor left top right bottom f).1 =
      (upto y (min (p.lastRow left top right bottom - top + 1 + y) d.lcd_height)).foldl
        (fun f rowIndex =>
          (upto x (min (p.lastCol left top right bottom - left + 1 + x) d.lcd_width)).foldl
            (fun f colIndex => bmpPixel d p x y transcolor left top f rowIndex colIndex) f) f := by
  have hrect : ¬(right < left ∨ bottom < top) := by
    have h₁ := hc.left_le
    have h₂ := hc.top_le
    omega
  have hmono : ¬(d.lcd_bpp = 1 ∧ p.bits_per_pixel = 1) := by omega
  have hbits : ¬(p.bits_per_pixel ≠ 24 ∧ p.bits_per_pixel ≠ 16) := by
    obtain hb | hb := hp.bits <;> omega
  unfold put_bmp_file_buff
  simp only [if_neg hrect, if_neg hmono, if_neg (not_not.mpr h16), if_neg hbits]
  rw [Bmp.rowIndices_eq hp hs hc hy hyh, Bmp.endCol_eq hp hs hc hx hxw,
    u16_eq hx (hxw.trans hs.width_lt)]
  simp only [bmpPixel, u16_eq hx (hxw.trans hs.width_lt)]

/-- Where the body reads. -/
theorem readIndex_eq (hp : p.WellFormed) (hs : d.Screen) (hc : p.Crop left top right bottom)
    (hx : 0 ≤ x) (hy : 0 ≤ y) {rowIndex colIndex : ℤ} (hcol : x ≤ colIndex)
    (hcolw : colIndex < d.lcd_width) (hcolr : colIndex - x + left < p.width) (hrow : y ≤ rowIndex)
    (hrowh : rowIndex < d.lcd_height) (hrowr : rowIndex - y + top < p.height) :
    p.dataIndex (p.bitmapRowIndex y top rowIndex) (left + (colIndex - u16 x)) =
      p.readPlace (colIndex - x + left) (rowIndex - y + top) := by
  have h₁ := hc.left_nonneg
  have h₂ := hc.top_nonneg
  have hw := hs.width_lt
  have hh := hs.height_lt
  rw [Bmp.bitmapRowIndex_eq hp hc hy (by omega), u16_eq hx (by omega),
    ← (Bmp.dataIndex_eq hp (by omega) hcolr (by omega) hrowr).1]
  congr 1
  omega

theorem bmpPixel_paints (hp : p.WellFormed) (hs : d.Screen) (hc : p.Crop left top right bottom)
    (hx : 0 ≤ x) (hy : 0 ≤ y) {rowIndex colIndex : ℤ} (hcol : x ≤ colIndex)
    (hcolw : colIndex < d.lcd_width) (hcolr : colIndex - x + left < p.width) (hrow : y ≤ rowIndex)
    (hrowh : rowIndex < d.lcd_height) (hrowr : rowIndex - y + top < p.height) :
    Paints (pixel16 d) (fun k => k.x = colIndex ∧ k.y = rowIndex)
      (fun k => overlaid transcolor (p.rgb16 (p.readPlace (k.x - x + left) (k.y - y + top))))
      fun f => bmpPixel d p x y transcolor left top f rowIndex colIndex := by
  have hi := readIndex_eq hp hs hc hx hy hcol hcolw hcolr hrow hrowh hrowr
  have hlook : ∀ (i : ℤ) (f : Frame) (k : Pixel d),
      pixel16 d (p.lookRgb16 i f) k = pixel16 d f k := by
    intro i f k
    unfold Bmp.lookRgb16
    split <;> rfl
  have hpaint := fun c => poke16_paints (d := d) (y := rowIndex) (hx.trans hcol) hcolw c
  unfold bmpPixel
  rw [hi]
  constructor
  · rintro f k ⟨rfl, rfl⟩
    dsimp only [overlaid]
    split
    · exact (hpaint _).inside _ k ⟨rfl, rfl⟩
    · exact hlook _ f k
  · intro f k hk
    dsimp only
    split
    · rw [(hpaint _).outside _ k hk, hlook]
    · exact hlook _ f k

/-- What the screen shows afterwards. -/
theorem put_bmp_paints (transcolor : ℤ) (hp : p.WellFormed) (hs : d.Screen) (h16 : d.lcd_bpp = 16)
    (hc : p.Crop left top right bottom) (hx : 0 ≤ x) (hxw : x < d.lcd_width) (hy : 0 ≤ y)
    (hyh : y < d.lcd_height) :
    Paints (pixel16 d) (covered p x y left top right bottom)
      (fun k => overlaid transcolor (p.rgb16 (p.readPlace (k.x - x + left) (k.y - y + top))))
      fun f => (put_bmp_file_buff d p x y transcolor left top right bottom f).1 := by
  obtain ⟨hl, hlw⟩ := Bmp.lastCol_bounds hc
  obtain ⟨ht, hth⟩ := Bmp.lastRow_bounds hp hc
  simp only [put_bmp_eq hp hs h16 hc hx hxw hy hyh]
  have hcell : ∀ rowIndex ∈
      upto y (min (p.lastRow left top right bottom - top + 1 + y) d.lcd_height),
      ∀ colIndex ∈ upto x (min (p.lastCol left top right bottom - left + 1 + x) d.lcd_width),
        Paints (pixel16 d) (fun k => k.x = colIndex ∧ k.y = rowIndex)
          (fun k => overlaid transcolor (p.rgb16 (p.readPlace (k.x - x + left) (k.y - y + top))))
          fun f => bmpPixel d p x y transcolor left top f rowIndex colIndex := by
    intro rowIndex hrow colIndex hcol
    rw [mem_upto] at hrow hcol
    exact bmpPixel_paints hp hs hc hx hy hcol.1 (by omega) (by omega) hrow.1 (by omega) (by omega)
  refine (Paints.grid hcell fun _ _ => over_over _ _).congr fun k => ?_
  have hkx := k.x_lt
  have hky := k.y_lt
  simp only [mem_upto, covered]
  constructor
  · rintro ⟨r, hr, c, hc, rfl, rfl⟩
    omega
  · intro h
    exact ⟨k.y, by omega, k.x, by omega, rfl, rfl⟩

/-- The reads between `f` and `g` are of pixel data in the rows of the image. -/
def ReadsRows (p : Bmp) (f g : Frame) : Prop :=
  ∀ q ∈ g.looked,
    q ∈ f.looked ∨ q.region = .data_buf ∧ 0 ≤ q.offset ∧ q.offset < p.height * p.rowBytes

theorem put_bmp_looked (hp : p.WellFormed) (hs : d.Screen) (h16 : d.lcd_bpp = 16)
    (hc : p.Crop left top right bottom) (hx : 0 ≤ x) (hxw : x < d.lcd_width) (hy : 0 ≤ y)
    (hyh : y < d.lcd_height) (f : Frame) :
    ReadsRows p f (put_bmp_file_buff d p x y transcolor left top right bottom f).1 := by
  obtain ⟨hl, hlw⟩ := Bmp.lastCol_bounds hc
  obtain ⟨ht, hth⟩ := Bmp.lastRow_bounds hp hc
  have h₁ := hc.left_nonneg
  have h₂ := hc.top_nonneg
  rw [put_bmp_eq hp hs h16 hc hx hxw hy hyh]
  refine foldl_keeps (P := ReadsRows p f) (fun rowIndex hrow g hg =>
    foldl_keeps (P := ReadsRows p f) (fun colIndex hcol g hg => ?_) hg) fun q hq => .inl hq
  rw [mem_upto] at hrow hcol
  obtain ⟨-, hi₀, hi₁⟩ := Bmp.dataIndex_eq hp (c := colIndex - x + left) (r := rowIndex - y + top)
    (by omega) (by omega) (by omega) (by omega)
  have hidx := readIndex_eq hp hs hc hx hy hcol.1 (by omega) (by omega) hrow.1 (by omega) (by omega)
  have hlook : ReadsRows p f
      (p.lookRgb16 (p.readPlace (colIndex - x + left) (rowIndex - y + top)) g) := by
    intro q hq
    unfold Bmp.lookRgb16 at hq
    split at hq
    case isTrue hb =>
      rw [hb] at hi₁
      simp only [Frame.look, List.append_assoc, List.mem_append, List.mem_singleton] at hq
      rcases hq with hq | rfl | rfl | rfl
      · exact hg q hq
      all_goals exact .inr ⟨rfl, by dsimp only; omega, by dsimp only; omega⟩
    case isFalse hb =>
      rw [hp.bits.resolve_left hb] at hi₁
      simp only [Frame.look, List.append_assoc, List.mem_append, List.mem_singleton] at hq
      rcases hq with hq | rfl | rfl
      · exact hg q hq
      all_goals exact .inr ⟨rfl, by dsimp only; omega, by dsimp only; omega⟩
  dsimp only [bmpPixel]
  rw [hidx]
  split
  · exact hlook
  · exact hlook

/-- The image is placed and cropped exactly, and only its rows are read. -/
def Placed (d : State) (p : Bmp) (x y transcolor left top right bottom : ℤ) (f : Frame) : Prop :=
  let g := (put_bmp_file_buff d p x y transcolor left top right bottom f).1
  (∀ k : Pixel d, pixel16 d g k =
    if covered p x y left top right bottom k ∧
        opaqueFor transcolor (p.colour (k.x - x + left) (k.y - y + top)) then
      p.colour (k.x - x + left) (k.y - y + top)
    else pixel16 d f k) ∧
  ReadsRows p f g

theorem placed_of_readPlace (hp : p.WellFormed) (hs : d.Screen) (h16 : d.lcd_bpp = 16)
    (hc : p.Crop left top right bottom) (hx : 0 ≤ x) (hxw : x < d.lcd_width) (hy : 0 ≤ y)
    (hyh : y < d.lcd_height)
    (hread : ∀ k : Pixel d, covered p x y left top right bottom k →
      p.readPlace (k.x - x + left) (k.y - y + top) = p.place (k.x - x + left) (k.y - y + top))
    (f : Frame) : Placed d p x y transcolor left top right bottom f := by
  have hpaint := put_bmp_paints transcolor hp hs h16 hc hx hxw hy hyh
  refine ⟨fun k => ?_, put_bmp_looked hp hs h16 hc hx hxw hy hyh f⟩
  by_cases hk : covered p x y left top right bottom k
  · rw [hpaint.inside f k hk, hread k hk]
    simp only [hk, true_and, overlaid, Bmp.colour]
  · rw [hpaint.outside f k hk]
    simp only [hk, false_and, if_false]

/-- An image whose bytes are all `a` at the place of one pixel and all `b` elsewhere. -/
def Bmp.spot (p : Bmp) (place : ℤ) (a b : BitVec 8) : Bmp :=
  { p with bytes := fun i =>
      if place ≤ i - p.bitmap_offset ∧ i - p.bitmap_offset < place + p.bits_per_pixel / 8 then a
      else b }

/-- The colour of equal bytes. -/
def plain (b : BitVec 8) : BitVec 16 := if b = 0#8 then 0#16 else 0xffff#16

theorem Bmp.rgb16_plain {p : Bmp} {b : BitVec 8} {i : ℤ} (hp : p.WellFormed)
    (hb : b = 0#8 ∨ b = 0xff#8)
    (h : ∀ j, i ≤ j → j < i + p.bits_per_pixel / 8 → p.data_buf j = b) : p.rgb16 i = plain b := by
  have h₀ : p.data_buf i = b := by
    refine h i le_rfl ?_
    obtain hb | hb := hp.bits <;> omega
  have h₁ : p.data_buf (i + 1) = b := by
    refine h (i + 1) (by omega) ?_
    obtain hb | hb := hp.bits <;> omega
  unfold rgb16
  split
  case isTrue h24 =>
    have h₂ : p.data_buf (i + 2) = b := h (i + 2) (by omega) (by omega)
    rw [h₀, h₁, h₂]
    obtain rfl | rfl := hb <;> rfl
  case isFalse =>
    rw [h₀, h₁]
    obtain rfl | rfl := hb <;> rfl

/-- BMP images are placed exactly, whatever they show and whatever was on the screen, unless their
rows have 65536 bytes or more and the rectangle has a row above the bottom one. -/
theorem placed_iff (hp : p.WellFormed) (hs : d.Screen) (h16 : d.lcd_bpp = 16)
    (hc : p.Crop left top right bottom) (hx : 0 ≤ x) (hxw : x < d.lcd_width) (hy : 0 ≤ y)
    (hyh : y < d.lcd_height) :
    (∀ (bytes : ℤ → BitVec 8) (f : Frame),
      Placed d { p with bytes := bytes } x y transcolor left top right bottom f) ↔
      p.rowBytes < 65536 ∨ top = p.height - 1 := by
  have hbits := hp.bits
  have hpos := Bmp.rowBytes_pos hp
  constructor
  · intro h
    by_contra hbad
    obtain ⟨hwide, htop⟩ := not_or.mp hbad
    obtain ⟨ht, hth⟩ := Bmp.lastRow_bounds hp hc
    obtain ⟨hl, hlw⟩ := Bmp.lastCol_bounds hc
    -- the first pixel drawn has the colour `a` of the image, the screen and the rest show `b`
    obtain ⟨a, b, hab, ha, hb, hop⟩ : ∃ a b : BitVec 8, plain a ≠ plain b ∧
        (a = 0#8 ∨ a = 0xff#8) ∧ (b = 0#8 ∨ b = 0xff#8) ∧
          opaqueFor transcolor (plain a) = true := by
      by_cases htc : transcolor = 0
      · exact ⟨0xff#8, 0#8, by decide, .inr rfl, .inl rfl, by subst htc; decide⟩
      · exact ⟨0#8, 0xff#8, by decide, .inl rfl, .inr rfl, by
          simpa [opaqueFor, plain] using .inr (Ne.symm htc)⟩
    let q := p.spot (p.place left top) a b
    have hq : q.WellFormed := ⟨hp.width_pos, hp.width_lt, hp.height_pos, hp.height_lt, hp.bits,
      hp.offset, hp.length⟩
    have hqc : q.Crop left top right bottom := ⟨hc.left_nonneg, hc.left_le, hc.right_lt,
      hc.right_u16, hc.top_nonneg, hc.top_le, hc.bottom_lt, hc.bottom_u16⟩
    let f : Frame := ⟨fun _ => b, [], []⟩
    let k : Pixel d := ⟨x, y, hx, hxw, hy, hyh⟩
    have hk : covered q x y left top right bottom k := by
      have hlc : q.lastCol left top right bottom = p.lastCol left top right bottom := rfl
      have hlr : q.lastRow left top right bottom = p.lastRow left top right bottom := rfl
      refine ⟨le_rfl, ?_, le_rfl, ?_⟩
      · change x - x + left ≤ _
        omega
      · change y - y + top ≤ _
        omega
    have hkx : k.x - x + left = left := by
      change x - x + left = left
      omega
    have hky : k.y - y + top = top := by
      change y - y + top = top
      omega
    have hcol : q.colour left top = plain a := by
      refine Bmp.rgb16_plain hq ha fun j hj hj' => if_pos ?_
      change p.place left top ≤ j at hj
      change j < p.place left top + p.bits_per_pixel / 8 at hj'
      change p.place left top ≤ p.bitmap_offset + j - p.bitmap_offset ∧
        p.bitmap_offset + j - p.bitmap_offset < _
      omega
    have hread : q.rgb16 (q.readPlace left top) = plain b := by
      refine Bmp.rgb16_plain hq hb fun j hj hj' => if_neg ?_
      -- a row above the bottom one lies at least 65536 bytes behind the place that is read
      have hgap : p.readPlace left top + 65536 ≤ p.place left top := by
        have hrow : 1 * 65536 ≤ (p.height - 1 - top) * (p.rowBytes - p.bitmapRowBytes) := by
          rw [Bmp.bitmapRowBytes_eq]
          exact Int.mul_le_mul (by omega) (by omega) (by decide) (by omega)
        rw [mul_sub] at hrow
        unfold Bmp.readPlace Bmp.place
        omega
      change j < p.readPlace left top + p.bits_per_pixel / 8 at hj'
      change ¬(p.place left top ≤ p.bitmap_offset + j - p.bitmap_offset ∧
        p.bitmap_offset + j - p.bitmap_offset < _)
      omega
    have hshow : pixel16 d f k = plain b := by
      change b ++ b = plain b
      obtain rfl | rfl := hb <;> rfl
    have hpaint := put_bmp_paints transcolor hq hs h16 hqc hx hxw hy hyh
    have hcode := hpaint.inside f k hk
    rw [hkx, hky, hread, hshow, overlaid, ite_self] at hcode
    have hclaim := (h q.bytes f).1 k
    rw [hkx, hky] at hclaim
    have hboth := hcode.symm.trans hclaim
    have hcol' : Bmp.colour { p with bytes := q.bytes } left top = plain a := hcol
    rw [hcol', if_pos ⟨hk, hop⟩] at hboth
    exact hab hboth.symm
  · intro hgood bytes f
    have hq : Bmp.WellFormed { p with bytes := bytes } := ⟨hp.width_pos, hp.width_lt,
      hp.height_pos, hp.height_lt, hp.bits, hp.offset, hp.length⟩
    have hqc : Bmp.Crop { p with bytes := bytes } left top right bottom := ⟨hc.left_nonneg,
      hc.left_le, hc.right_lt, hc.right_u16, hc.top_nonneg, hc.top_le, hc.bottom_lt, hc.bottom_u16⟩
    refine placed_of_readPlace hq hs h16 hqc hx hxw hy hyh (fun k hk => ?_) f
    obtain ⟨ht, hth⟩ := Bmp.lastRow_bounds hq hqc
    obtain ⟨-, -, hky, hkb⟩ := hk
    change (p.height - 1 - _) * p.bitmapRowBytes + _ = (p.height - 1 - _) * p.rowBytes + _
    congr 1
    obtain hsmall | hrow := hgood
    · rw [Bmp.bitmapRowBytes_eq, Int.emod_eq_of_lt hpos.le hsmall]
    · have hz : p.height - 1 - (k.y - y + top) = 0 := by
        change _ < p.height at hth
        omega
      rw [hz, zero_mul, zero_mul]

/-- A picture of 21846 by 2 pixels with 24 bits each. -/
def wide (bytes : ℤ → BitVec 8) : Bmp := ⟨54, 21846, 2, 1, 24, bytes⟩

/-- Its lower row alone. -/
theorem placed_iff_lower : (fresh 4 4 16).Screen ∧
    Placed (fresh 4 4 16) (wide fun _ => 0xff#8) 1 2 (-1) 7 1 100 1 (fresh 4 4 16).frame :=
  have hs : (fresh 4 4 16).Screen :=
    fresh_screen (by decide) (by decide) (by decide) (by decide) (by decide)
  have hiff : (∀ (bytes : ℤ → BitVec 8) (f : Frame),
      Placed (fresh 4 4 16) { wide (fun _ => 0#8) with bytes := bytes } 1 2 (-1) 7 1 100 1 f) ↔ _ :=
    placed_iff ⟨by decide, by decide, by decide, by decide, .inl rfl, by decide, by decide⟩ hs rfl
      ⟨by decide, by decide, by decide, by decide, by decide, by decide, by decide, by decide⟩
      (by decide) (by decide) (by decide) (by decide)
  ⟨hs, hiff.mpr (.inr rfl) _ _⟩

/-- A white row over a black one. -/
def twoRows : Bmp := wide fun i => if 54 + 65540 ≤ i then 0xff#8 else 0#8

/-- The upper row of the picture is read from the lower one. -/
theorem not_placed : twoRows.WellFormed ∧ (fresh 1 1 16).Screen ∧ twoRows.Crop 0 0 0 1 ∧
    ¬Placed (fresh 1 1 16) twoRows 0 0 (-1) 0 0 0 1 (fresh 1 1 16).frame := by
  refine ⟨⟨by decide, by decide, by decide, by decide, .inl rfl, by decide, by decide⟩,
    fresh_screen (by decide) (by decide) (by decide) (by decide) (by decide),
    ⟨by decide, by decide, by decide, by decide, by decide, by decide, by decide, by decide⟩, ?_⟩
  rintro ⟨h, -⟩
  have hpixel := h ⟨0, 0, by decide, by decide, by decide, by decide⟩
  revert hpixel
  decide

end LuatAir200.Disp
