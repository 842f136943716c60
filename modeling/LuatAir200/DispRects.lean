import LuatAir200.DispModel
import Mathlib.Algebra.Order.Group.Unbundled.Int
import Mathlib.Tactic.Ring

/-!
# Filled rectangles

The pixels of the two kinds of screens, what one write does to them, and the rectangles that
`platform_disp_drawrect` fills. On a monochrome screen, and where the rectangle starts in the
last column or row, it leaves out the last column and the last row.
-/
namespace LuatAir200.Disp
open Painting

/-! ## Pixels -/

/-- What `disp_init` has checked. -/
structure State.Screen (d : State) : Prop where
  width_pos : 0 < d.lcd_width
  width_lt : d.lcd_width < 65536
  height_pos : 0 < d.lcd_height
  height_lt : d.lcd_height < 65536
  bpp : d.lcd_bpp = 16 ∨ d.lcd_bpp = 1

theorem disp_init_screen {width height bpp hwfillcolor : ℤ} {d d' : State}
    (h : disp_init width height bpp hwfillcolor d = some d') : d'.Screen := by
  unfold disp_init at h
  split at h
  · cases h
  split at h
  · cases h
  obtain rfl := Option.some.inj h
  have hw := u16_nonneg width
  have hh := u16_nonneg height
  refine ⟨?_, u16_lt width, ?_, u16_lt height, by tauto⟩
  · change 0 < u16 width
    omega
  · change 0 < u16 height
    omega

/-- A pixel of the screen. -/
structure Pixel (d : State) where
  x : ℤ
  y : ℤ
  x_nonneg : 0 ≤ x
  x_lt : x < d.lcd_width
  y_nonneg : 0 ≤ y
  y_lt : y < d.lcd_height

/-- A bit of the frame buffer. -/
def Frame.bit (f : Frame) (i k : ℤ) : Bool := (f.mem i).getLsbD k.toNat

variable {d : State}

/-- Colour screens keep the pixels row by row, 16 bits each. -/
def pixel16 (d : State) (f : Frame) (k : Pixel d) : BitVec 16 := f.peek16 (k.y * d.lcd_width + k.x)

/-- Monochrome screens have a byte for eight rows of a column. -/
def pixel1 (d : State) (f : Frame) (k : Pixel d) : Bool :=
  f.bit (k.y / 8 * d.lcd_width + k.x) (k.y % 8)

def State.pixel (d : State) (f : Frame) (k : Pixel d) : ℕ :=
  if d.lcd_bpp = 16 then (pixel16 d f k).toNat else (pixel1 d f k).toNat

/-- What a pixel of a colour has in the frame buffer. -/
def State.shade (d : State) (color : ℤ) : ℕ :=
  if d.lcd_bpp = 16 then (BitVec.ofInt 16 color).toNat
  else (decide (color = d.lcd_hwfillcolor)).toNat

/-! ## Single writes -/

theorem Frame.mem_poke (f : Frame) (i j : ℤ) (v : BitVec 8) :
    (f.poke i v).mem j = if j = i then v else f.mem j := rfl

theorem Frame.bit_setBit (f : Frame) (fill : Bool) {i j k l : ℤ} (hk : 0 ≤ k) (hk8 : k < 8)
    (hl : 0 ≤ l) :
    (f.setBit fill i k).bit j l = if j = i ∧ l = k then fill else f.bit j l := by
  have hkn : k.toNat < 8 := by omega
  simp only [setBit, bit, mem_poke]
  by_cases hj : j = i
  · subst hj
    by_cases he : l = k
    · subst he
      cases fill <;> simp [hkn]
    · have hne : l.toNat ≠ k.toNat := by omega
      have hsub : l.toNat < k.toNat ∨ l.toNat - k.toNat ≠ 0 := by omega
      cases fill
      · by_cases h8 : l.toNat < 8
        · obtain hlt | hsub := hsub
          · simp [he, h8, hlt]
          · simp [he, h8, hsub]
        · simp [he, BitVec.getLsbD_of_ge _ _ (Nat.le_of_not_lt h8)]
      · obtain hlt | hsub := hsub
        · simp [he, hlt]
        · simp [he, hsub]
  · simp [hj]

theorem Frame.peek16_poke16 (f : Frame) (i j : ℤ) (v : BitVec 16) :
    (f.poke16 i v).peek16 j = if j = i then v else f.peek16 j := by
  simp only [poke16, peek16, mem_poke]
  by_cases hj : j = i
  · subst hj
    have hne : 2 * j ≠ 2 * j + 1 := by omega
    simp only [if_true, hne, if_false]
    ext n hn
    rw [BitVec.getElem_append]
    by_cases hlt : n < 8
    · simp [hlt, BitVec.getLsbD_eq_getElem hn]
    · simp [hlt, show 8 + (n - 8) = n by omega, BitVec.getLsbD_eq_getElem hn]
  · have h₁ : 2 * j + 1 ≠ 2 * i + 1 := by omega
    have h₂ : 2 * j + 1 ≠ 2 * i := by omega
    have h₃ : 2 * j ≠ 2 * i + 1 := by omega
    have h₄ : 2 * j ≠ 2 * i := by omega
    simp only [h₁, h₂, h₃, h₄, hj, if_false]

/-- Row and column of a cell are given by its index. -/
theorem index_inj {w x y x' y' : ℤ} (hx : 0 ≤ x) (hxw : x < w) (hx' : 0 ≤ x') (hxw' : x' < w) :
    y * w + x = y' * w + x' ↔ x = x' ∧ y = y' := by
  constructor
  · intro h
    have hy : y = y' := by
      rcases lt_trichotomy y y' with hlt | heq | hgt
      · have hmul : (y + 1) * w ≤ y' * w := Int.mul_le_mul_of_nonneg_right (by omega) (by omega)
        rw [add_mul] at hmul
        omega
      · exact heq
      · have hmul : (y' + 1) * w ≤ y * w := Int.mul_le_mul_of_nonneg_right (by omega) (by omega)
        rw [add_mul] at hmul
        omega
    subst hy
    exact ⟨by omega, rfl⟩
  · rintro ⟨rfl, rfl⟩
    rfl

theorem poke16_paints {x y : ℤ} (hx : 0 ≤ x) (hxw : x < d.lcd_width) (c : BitVec 16) :
    Paints (pixel16 d) (fun k => k.x = x ∧ k.y = y) (fun _ _ => c)
      fun f => f.poke16 (y * d.lcd_width + x) c where
  inside f k hk := by
    obtain ⟨rfl, rfl⟩ := hk
    simp only [pixel16, Frame.peek16_poke16, if_true]
  outside f k hk := by
    have hne : ¬k.y * d.lcd_width + k.x = y * d.lcd_width + x :=
      fun h => hk ((index_inj k.x_nonneg k.x_lt hx hxw).mp h)
    simp only [pixel16, Frame.peek16_poke16, hne, if_false]

theorem setBit_paints {x y : ℤ} (hx : 0 ≤ x) (hxw : x < d.lcd_width) (fill : Bool) :
    Paints (pixel1 d) (fun k => k.x = x ∧ k.y = y) (fun _ _ => fill)
      fun f => f.setBit fill (y / 8 * d.lcd_width + x) (y % 8) where
  inside f k hk := by
    obtain ⟨rfl, rfl⟩ := hk
    have h₀ : 0 ≤ k.y % 8 := by omega
    simp [pixel1, f.bit_setBit fill h₀ (by omega) h₀]
  outside f k hk := by
    have hne : ¬(k.y / 8 * d.lcd_width + k.x = y / 8 * d.lcd_width + x ∧ k.y % 8 = y % 8) := by
      rintro ⟨h, hm⟩
      obtain ⟨he, hq⟩ := (index_inj k.x_nonneg k.x_lt hx hxw).mp h
      exact hk ⟨he, by omega⟩
    have h₀ : 0 ≤ y % 8 := by omega
    rw [pixel1, f.bit_setBit fill h₀ (by omega) (by omega), if_neg hne, pixel1]

/-! ## The two loops -/

theorem fillRect16_paints {x1 x2 : ℤ} (hx : 0 ≤ x1) (hx2 : x2 < d.lcd_width) (y1 y2 color : ℤ) :
    Paints (pixel16 d) (fun k => x1 ≤ k.x ∧ k.x ≤ x2 ∧ y1 ≤ k.y ∧ k.y ≤ y2)
      (fun _ _ => BitVec.ofInt 16 color) (fillRect16 d x1 y1 x2 y2 color) := by
  have hcell : ∀ j ∈ upto y1 (y2 + 1), ∀ i ∈ upto x1 (x2 + 1),
      Paints (pixel16 d) (fun k => k.x = i ∧ k.y = j) (fun _ _ => BitVec.ofInt 16 color) fun f =>
        f.poke16 (y1 * d.lcd_width + (j - y1) * d.lcd_width + i) (BitVec.ofInt 16 color) := by
    intro j _ i hi
    rw [mem_upto] at hi
    have hrow : y1 * d.lcd_width + (j - y1) * d.lcd_width = j * d.lcd_width := by ring
    rw [hrow]
    exact poke16_paints (by omega) (by omega) (BitVec.ofInt 16 color)
  refine (Paints.grid hcell fun _ _ => rfl).congr fun k => ?_
  simp only [mem_upto]
  constructor
  · rintro ⟨j, hj, i, hi, rfl, rfl⟩
    omega
  · intro h
    exact ⟨k.y, by omega, k.x, by omega, rfl, rfl⟩

theorem fillRect1_paints {x1 y1 x2 : ℤ} (hx : 0 ≤ x1) (hx2 : x2 < d.lcd_width)
    (hx16 : x1 < 65536) (hy : 0 ≤ y1) (hy16 : y1 < 65536) (y2 color : ℤ) :
    Paints (pixel1 d) (fun k => x1 ≤ k.x ∧ k.x < x2 ∧ y1 ≤ k.y ∧ k.y < y2)
      (fun _ _ => decide (color = d.lcd_hwfillcolor)) (fillRect1 d x1 y1 x2 y2 color) := by
  unfold fillRect1
  rw [u16_eq hx hx16, u16_eq hy hy16]
  have hcell : ∀ x ∈ upto x1 x2, ∀ y ∈ upto y1 y2, Paints (pixel1 d)
      (fun k => k.x = x ∧ k.y = y) (fun _ _ => decide (color = d.lcd_hwfillcolor)) fun f =>
        f.setBit (color = d.lcd_hwfillcolor) (y / 8 * d.lcd_width + x) (y % 8) := by
    intro x hxm y _
    rw [mem_upto] at hxm
    exact setBit_paints (by omega) (by omega) _
  refine (Paints.grid hcell fun _ _ => rfl).congr fun k => ?_
  simp only [mem_upto]
  constructor
  · rintro ⟨x, hx, y, hy, rfl, rfl⟩
    omega
  · intro h
    exact ⟨k.x, by omega, k.y, by omega, rfl, rfl⟩

/-! ## The rectangle that is drawn -/

/-- A colour to fill with; -1 asks for a frame. -/
def State.fills (d : State) (color : ℤ) : Prop :=
  if d.lcd_bpp = 16 then color ≠ -1 else color = COLOR_BLACK ∨ color = COLOR_WHITE

instance (color : ℤ) : Decidable (d.fills color) := inferInstanceAs (Decidable (ite _ _ _))

/-- The pixels that a rectangle should have. -/
def inRect (x1 y1 x2 y2 : ℤ) (k : Pixel d) : Prop :=
  x1 ≤ k.x ∧ k.x ≤ min x2 (d.lcd_width - 1) ∧ y1 ≤ k.y ∧ k.y ≤ min y2 (d.lcd_height - 1)

instance (x1 y1 x2 y2 : ℤ) (k : Pixel d) : Decidable (inRect x1 y1 x2 y2 k) :=
  inferInstanceAs (Decidable (_ ∧ _ ∧ _ ∧ _))

/-- The pixels that are drawn: all on a colour screen, and none of a rectangle that is taken for
empty. -/
def drawn (d : State) (x1 y1 x2 y2 : ℤ) (k : Pixel d) : Prop :=
  inRect x1 y1 x2 y2 k ∧ x1 < d.lcd_width - 1 ∧ y1 < d.lcd_height - 1 ∧
    (d.lcd_bpp = 16 ∨ k.x < min x2 (d.lcd_width - 1) ∧ k.y < min y2 (d.lcd_height - 1))

theorem drawrect_paints (hs : d.Screen) {x1 y1 x2 y2 color : ℤ} (hc : d.fills color)
    (hx : 0 ≤ x1) (hx2 : x1 < x2) (hy : 0 ≤ y1) (hy2 : y1 < y2) :
    Paints d.pixel (drawn d x1 y1 x2 y2) (fun _ _ => d.shade color)
      fun f => (platform_disp_drawrect d x1 y1 x2 y2 color f).1 := by
  obtain ⟨hw, hw16, hh, hh16, hbpp⟩ := hs
  by_cases hin : x1 < d.lcd_width - 1 ∧ y1 < d.lcd_height - 1
  · have hx1 : min x1 (d.lcd_width - 1) = x1 := by omega
    have hy1 : min y1 (d.lcd_height - 1) = y1 := by omega
    have hok : ¬(min x2 (d.lcd_width - 1) ≤ x1 ∨ min y2 (d.lcd_height - 1) ≤ y1) := by omega
    obtain h16 | h1 := hbpp
    · have hcol : color ≠ -1 := by simpa [State.fills, h16] using hc
      have hx2' : min x2 (d.lcd_width - 1) < d.lcd_width := by omega
      have hp := fillRect16_paints hx hx2' y1 (min y2 (d.lcd_height - 1)) color
      simp only [platform_disp_drawrect, hx1, hy1, if_neg hok, if_pos h16, if_neg hcol]
      refine ⟨fun f k hk => ?_, fun f k hk => ?_⟩
      · simp only [State.pixel, State.shade, h16, if_true]
        rw [hp.inside f k hk.1]
      · simp only [State.pixel, h16, if_true]
        rw [hp.outside f k fun h => hk ⟨h, hin.1, hin.2, .inl h16⟩]
    · have hne : d.lcd_bpp ≠ 16 := by omega
      have hcol : color = COLOR_BLACK ∨ color = COLOR_WHITE := by
        simpa [State.fills, h1] using hc
      have hx2' : min x2 (d.lcd_width - 1) < d.lcd_width := by omega
      have hp := fillRect1_paints hx hx2' (by omega) hy (by omega) (min y2 (d.lcd_height - 1)) color
      simp only [platform_disp_drawrect, hx1, hy1, if_neg hok, if_neg hne, if_pos h1, if_pos hcol]
      refine ⟨fun f k hk => ?_, fun f k hk => ?_⟩
      · obtain ⟨⟨hl, -, ht, -⟩, -, -, h | h⟩ := hk
        · exact absurd h hne
        · simp only [State.pixel, State.shade, hne, if_false]
          rw [hp.inside f k ⟨hl, h.1, ht, h.2⟩]
      · simp only [State.pixel, hne, if_false]
        rw [hp.outside f k fun h => hk
          ⟨⟨h.1, h.2.1.le, h.2.2.1, h.2.2.2.le⟩, hin.1, hin.2, .inr ⟨h.2.1, h.2.2.2⟩⟩]
  · have herr : min x2 (d.lcd_width - 1) ≤ min x1 (d.lcd_width - 1) ∨
        min y2 (d.lcd_height - 1) ≤ min y1 (d.lcd_height - 1) := by omega
    simp only [platform_disp_drawrect, if_pos herr]
    exact (Paints.none fun _ _ => rfl).congr fun k =>
      ⟨False.elim, fun hk => hin ⟨hk.2.1, hk.2.2.1⟩⟩

/-- The rectangle is filled and nothing else is changed. -/
def RectFilled (d : State) (x1 y1 x2 y2 color : ℤ) : Prop :=
  ∀ k : Pixel d, d.pixel (platform_disp_drawrect d x1 y1 x2 y2 color d.frame).1 k =
    if inRect x1 y1 x2 y2 k then d.shade color else d.pixel d.frame k

/-- A filled rectangle is right on a colour screen unless it starts in the last column or row, and
otherwise exactly if its last column and its last row had the colour before. -/
theorem rect_filled_iff (hs : d.Screen) {x1 y1 x2 y2 color : ℤ} (hc : d.fills color)
    (hx : 0 ≤ x1) (hx2 : x1 < x2) (hy : 0 ≤ y1) (hy2 : y1 < y2) :
    RectFilled d x1 y1 x2 y2 color ↔
      (d.lcd_bpp = 16 ∧ x1 < d.lcd_width - 1 ∧ y1 < d.lcd_height - 1) ∨
        ∀ k : Pixel d, inRect x1 y1 x2 y2 k →
          k.x = min x2 (d.lcd_width - 1) ∨ k.y = min y2 (d.lcd_height - 1) →
            d.pixel d.frame k = d.shade color := by
  have hp := drawrect_paints hs hc hx hx2 hy hy2
  by_cases hall : d.lcd_bpp = 16 ∧ x1 < d.lcd_width - 1 ∧ y1 < d.lcd_height - 1
  · refine ⟨fun _ => .inl hall, fun _ k => ?_⟩
    split
    case isTrue hk => exact hp.inside d.frame k ⟨hk, hall.2.1, hall.2.2, .inl hall.1⟩
    case isFalse hk => exact hp.outside d.frame k fun h => hk h.1
  · -- here the last column and row are the pixels of the rectangle that are not drawn
    have hlast : ∀ k : Pixel d, inRect x1 y1 x2 y2 k → (¬drawn d x1 y1 x2 y2 k ↔
        k.x = min x2 (d.lcd_width - 1) ∨ k.y = min y2 (d.lcd_height - 1)) := by
      intro k hk
      simp only [drawn, hk, true_and]
      obtain ⟨hl, hr, ht, hb⟩ := hk
      omega
    simp only [hall, false_or]
    constructor
    · intro h k hk hl
      rw [← hp.outside d.frame k ((hlast k hk).mpr hl), h k, if_pos hk]
    · intro h k
      split
      case isTrue hk =>
        by_cases hdr : drawn d x1 y1 x2 y2 k
        · exact hp.inside d.frame k hdr
        · rw [hp.outside d.frame k hdr]
          exact h k hk ((hlast k hk).mp hdr)
      case isFalse hk => exact hp.outside d.frame k fun h => hk h.1

/-- A screen that was just initialised, with all bits of the memory set. -/
def fresh (width height bpp : ℤ) : State :=
  platform_disp_init width height bpp (-1) (boot none (fun _ => 0#8) fun _ => 0xff#8)

theorem fresh_screen {width height bpp : ℤ} (hw : 0 < width) (hw16 : width < 65536)
    (hh : 0 < height) (hh16 : height < 65536) (hb : bpp = 16 ∨ bpp = 1) :
    (fresh width height bpp).Screen := ⟨hw, hw16, hh, hh16, hb⟩

theorem rect_filled_iff_color : (fresh 8 8 16).Screen ∧ RectFilled (fresh 8 8 16) 1 1 3 9 0 :=
  ⟨fresh_screen (by decide) (by decide) (by decide) (by decide) (by decide),
    (rect_filled_iff (fresh_screen (by decide) (by decide) (by decide) (by decide) (by decide))
      (by decide : (fresh 8 8 16).fills 0) (by decide) (by decide) (by decide) (by decide)).mpr
      (.inl (by decide))⟩

/-- The two by two pixels from (1, 1) on, on a monochrome screen. -/
theorem not_rect_filled : ∃ d,
    disp_init 8 8 1 (-1) (boot none (fun _ => 0#8) fun _ => 0xff#8) = some d ∧
      d.fills COLOR_WHITE ∧ ¬RectFilled d 1 1 2 2 COLOR_WHITE := by
  refine ⟨fresh 8 8 1, rfl, by decide, fun h => ?_⟩
  have hpixel := h ⟨2, 2, by decide, by decide, by decide, by decide⟩
  revert hpixel
  decide

end LuatAir200.Disp
