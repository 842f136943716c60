import LuatAir200.DispFonts

/-!
# The layout of text

The rounds of `platform_disp_puttext` take up the text byte by byte and keep the cursor on the
screen. A line break goes through the code that moves the cursor behind a glyph, so it begins
a new line only where the last glyph has filled the line, and before the first glyph it uses a
bitmap that is not initialised.
-/
namespace LuatAir200.Disp
open Painting

/-! ## The rounds -/

/-- The rounds follow each other from position `i` to the end `n`. -/
def Tiles : ℕ → ℕ → List Round → Prop
  | i, n, [] => i = n
  | i, n, r :: rs => r.pos = i ∧ 0 < r.size ∧ Tiles (i + r.size) n rs

theorem rounds_tile (i : ℕ) (text : List UInt8) : Tiles i (i + text.length) (rounds i text) := by
  induction i, text using rounds.induct with
  | case1 i => exact rfl
  | case2 i c h => simp [rounds, h, Tiles]
  | case3 i c h hh => simp [rounds, h, hh, Tiles]
  | case4 i c h hh => simp [rounds, h, hh, Tiles]
  | case5 i c c2 t h ih =>
      have hlen : i + (c :: c2 :: t).length = i + 1 + (c2 :: t).length := by
        simp only [List.length_cons]
        omega
      rw [rounds, if_pos h, hlen]
      exact ⟨rfl, Nat.one_pos, ih⟩
  | case6 i c c2 t h hh hh2 ih =>
      have hlen : i + (c :: c2 :: t).length = i + 2 + t.length := by
        simp only [List.length_cons]
        omega
      rw [rounds, if_neg h, if_pos hh, if_pos hh2, hlen]
      exact ⟨rfl, Nat.two_pos, ih⟩
  | case7 i c c2 t h hh hh2 ih =>
      have hlen : i + (c :: c2 :: t).length = i + 1 + (c2 :: t).length := by
        simp only [List.length_cons]
        omega
      rw [rounds, if_neg h, if_pos hh, if_neg hh2, hlen]
      exact ⟨rfl, Nat.one_pos, ih⟩
  | case8 i c c2 t h hh ih =>
      have hlen : i + (c :: c2 :: t).length = i + 1 + (c2 :: t).length := by
        simp only [List.length_cons]
        omega
      rw [rounds, if_neg h, if_neg hh, hlen]
      exact ⟨rfl, Nat.one_pos, ih⟩

/-- No round looks behind the terminator, which is at the end of the text. -/
theorem rounds_last (i : ℕ) (text : List UInt8) :
    ∀ r ∈ rounds i text, r.last ≤ i + text.length := by
  induction i, text using rounds.induct with
  | case1 i => simp [rounds]
  | case2 i c h => simp [rounds, h]
  | case3 i c h hh => simp [rounds, h, hh]
  | case4 i c h hh => simp [rounds, h, hh]
  | case5 i c c2 t h ih =>
      rw [rounds, if_pos h]
      intro r hr
      obtain rfl | hr := List.mem_cons.mp hr
      · exact Nat.le_add_right i _
      · have hlast := ih r hr
        simp only [List.length_cons] at hlast ⊢
        omega
  | case6 i c c2 t h hh hh2 ih =>
      rw [rounds, if_neg h, if_pos hh, if_pos hh2]
      intro r hr
      obtain rfl | hr := List.mem_cons.mp hr
      · simp only [List.length_cons]
        omega
      · have hlast := ih r hr
        simp only [List.length_cons]
        omega
  | case7 i c c2 t h hh hh2 ih =>
      rw [rounds, if_neg h, if_pos hh, if_neg hh2]
      intro r hr
      obtain rfl | hr := List.mem_cons.mp hr
      · simp only [List.length_cons]
        omega
      · have hlast := ih r hr
        simp only [List.length_cons] at hlast ⊢
        omega
  | case8 i c c2 t h hh ih =>
      rw [rounds, if_neg h, if_neg hh]
      intro r hr
      obtain rfl | hr := List.mem_cons.mp hr
      · exact Nat.le_add_right i _
      · have hlast := ih r hr
        simp only [List.length_cons] at hlast ⊢
        omega

/-! ## The cursor -/

/-- A round with the cursor before it. -/
structure Step where
  before : Cursor
  round : Round

/-- The cursor after the round. -/
def Step.after (d : State) (s : Step) : Cursor := s.before.turn d s.round

/-- The rounds with their cursors. -/
def steps (d : State) : Cursor → List Round → List Step
  | _, [] => []
  | c, r :: rs => ⟨c, r⟩ :: steps d (c.turn d r) rs

/-- The glyphs with their places. -/
def placed (d : State) (c : Cursor) (rs : List Round) : List (ℤ × ℤ × ℤ) :=
  (steps d c rs).filterMap fun s =>
    match s.round.item with
    | .line => none
    | .char charcode => some (charcode, s.before.x, s.before.y)

/-- The text is drawn by drawing the glyphs in their places. -/
theorem puttext_eq (d : State) (string : List UInt8) (bitmap : DispBitmap) (x y : ℤ) (f : Frame) :
    platform_disp_puttext d string bitmap x y f =
      (placed d (home d bitmap x y) (rounds 0 string)).foldl
        (fun f g => drawChar d g.1 g.2.1 g.2.2 f) f := by
  unfold platform_disp_puttext
  generalize home d bitmap x y = c, rounds 0 string = rs
  induction rs generalizing c f with
  | nil => rfl
  | cons r rs ih =>
      rw [List.foldl_cons, turn, ih]
      cases hr : r.item <;> simp [placed, steps, hr]

/-- The glyphs of all fonts that can be in use have a width and a height of 8 bits. -/
structure State.Fonts (d : State) : Prop where
  font : ∀ id, (d.dispFonts id).data ≠ none → 0 < (d.dispFonts id).width ∧
    (d.dispFonts id).width < 256 ∧ 0 < (d.dispFonts id).height ∧ (d.dispFonts id).height < 256
  curr : (d.dispFonts d.curr_font_id).data ≠ none
  hz : 0 < d.dispHzFont.width ∧ d.dispHzFont.width < 256 ∧ 0 < d.dispHzFont.height ∧
    d.dispHzFont.height < 256

/-- Fonts come from `fontInit` and from files, and only those are chosen. -/
theorem fonts_init (hz : Option Pointer) (rom : Pointer → BitVec 8) (mem : ℤ → BitVec 8)
    (width height bpp hwfillcolor : ℤ) :
    (platform_disp_init width height bpp hwfillcolor (boot hz rom mem)).Fonts where
  font id hd := by
    by_cases hid : id = 0
    · subst hid
      change 0 < (8 : ℤ) ∧ (8 : ℤ) < 256 ∧ 0 < (16 : ℤ) ∧ (16 : ℤ) < 256
      decide
    · exfalso
      apply hd
      simp [platform_disp_init, fontInit, boot, hid, noFont]
  curr := by simp [platform_disp_init, fontInit, boot, sansFont16]
  hz := by
    change 0 < (16 : ℤ) ∧ (16 : ℤ) < 256 ∧ 0 < (16 : ℤ) ∧ (16 : ℤ) < 256
    decide

theorem fonts_loadfont {d : State} (h : d.Fonts) (file : Option FontFile) :
    (platform_disp_loadfont file d).1.Fonts := by
  unfold platform_disp_loadfont
  split
  · exact h
  rename_i file
  split
  · exact h
  case isFalse hr =>
  split
  · exact h
  rename_i i hi
  refine ⟨fun id hd => ?_, ?_, h.hz⟩
  · by_cases hid : id = i
    · obtain ⟨hw, hh⟩ := width_height_pos (charsize_pos (not_not.mp hr))
      simp only [hid, if_true]
      exact ⟨hw, file.width_lt, hh, file.height_lt⟩
    · simp only [hid, if_false] at hd ⊢
      exact h.font id hd
  · by_cases hid : d.curr_font_id = i
    · simp [hid, FontFile.entry]
    · simpa only [hid, if_false] using h.curr

theorem fonts_setfont {d : State} (h : d.Fonts) (id : ℤ) :
    (platform_disp_setfont id d).1.Fonts := by
  unfold platform_disp_setfont
  split
  · exact h
  case isFalse hid => exact ⟨h.font, fun hd => hid (.inr (.inr hd)), h.hz⟩

variable {d : State} {bitmap : DispBitmap} {x y : ℤ} {c : Cursor}

theorem glyph_size (h : d.Fonts) (charcode : ℤ) : 0 < (glyph d charcode).width ∧
    (glyph d charcode).width < 256 ∧ 0 < (glyph d charcode).height ∧
      (glyph d charcode).height < 256 := by
  have hchar : 0 < (getCharBitmap d charcode).width ∧ (getCharBitmap d charcode).width < 256 ∧
      0 < (getCharBitmap d charcode).height ∧ (getCharBitmap d charcode).height < 256 := by
    unfold getCharBitmap
    split
    · exact h.hz
    · exact h.font _ h.curr
  unfold glyph
  dsimp only
  split
  · change 0 < (16 : ℤ) ∧ (16 : ℤ) < 256 ∧ 0 < (16 : ℤ) ∧ (16 : ℤ) < 256
    decide
  · exact hchar

/-- The cursor is on the screen. -/
def Cursor.On (d : State) (c : Cursor) : Prop :=
  0 ≤ c.x ∧ c.x < d.lcd_width ∧ 0 ≤ c.y ∧ c.y < d.lcd_height

/-- A bitmap that was not initialised still has sizes of type `u16`. -/
def DispBitmap.U16 (b : DispBitmap) : Prop :=
  0 ≤ b.width ∧ b.width < 65536 ∧ 0 ≤ b.height ∧ b.height < 65536

theorem glyph_u16 (h : d.Fonts) (charcode : ℤ) : (glyph d charcode).U16 := by
  obtain ⟨h₁, h₂, h₃, h₄⟩ := glyph_size h charcode
  exact ⟨h₁.le, by omega, h₃.le, by omega⟩

theorem home_on (bitmap : DispBitmap) (hs : d.Screen) (hx : 0 ≤ x) (hy : 0 ≤ y) :
    (home d bitmap x y).On d := by
  have hw := hs.width_pos
  have hh := hs.height_pos
  unfold home Cursor.On
  dsimp only
  split <;> split <;> omega

@[simp] theorem next_line_bitmap (d : State) (c : Cursor) : (next_line d c).bitmap = c.bitmap := by
  unfold next_line
  dsimp only
  split <;> split <;> rfl

theorem next_line_on (hs : d.Screen) (hc : c.On d) (hb : c.bitmap.U16) : (next_line d c).On d := by
  obtain ⟨hx, hxw, hy, hyh⟩ := hc
  have hw := hs.width_lt
  have hh := hs.height_pos
  have hy16 := u16_nonneg (c.y + c.bitmap.height)
  have hb₀ := hb.1
  unfold next_line Cursor.On
  by_cases hfull : d.lcd_width ≤ c.x + c.bitmap.width
  · simp only [if_pos hfull]
    split <;> dsimp only <;> omega
  · simp only [if_neg hfull, if_neg (not_le.mpr hyh), u16_eq (n := c.x + c.bitmap.width)
      (by omega) (by omega)]
    omega

/-- Does the last glyph leave no room in the line? -/
def Full (d : State) (c : Cursor) : Prop := d.lcd_width ≤ c.x + c.bitmap.width

instance : Decidable (Full d c) := inferInstanceAs (Decidable (_ ≤ _))

/-- The row one glyph height lower, or the first one behind the end of the screen. -/
def lower (d : State) (c : Cursor) : ℤ :=
  let y := u16 (c.y + c.bitmap.height)
  if d.lcd_height ≤ y then 0 else y

theorem next_line_full (h : Full d c) : (next_line d c).x = 0 ∧ (next_line d c).y = lower d c := by
  have hfull : d.lcd_width ≤ c.x + c.bitmap.width := h
  simp only [next_line, lower, if_pos hfull]
  split <;> exact ⟨rfl, rfl⟩

theorem next_line_room (hs : d.Screen) (hc : c.On d) (hb : c.bitmap.U16) (h : ¬Full d c) :
    (next_line d c).x = c.x + c.bitmap.width ∧ (next_line d c).y = c.y := by
  have hw := hs.width_lt
  have hx := hc.1
  have hb₀ := hb.1
  have hroom : ¬d.lcd_width ≤ c.x + c.bitmap.width := h
  simp only [next_line, if_neg hroom, if_neg (not_le.mpr hc.2.2.2)]
  exact ⟨u16_eq (by omega) (by omega), trivial⟩

/-- The bitmap after a round. -/
theorem turn_bitmap_u16 (hf : d.Fonts) (hb : c.bitmap.U16) (r : Round) :
    (c.turn d r).bitmap.U16 := by
  unfold Cursor.turn
  split
  · rwa [next_line_bitmap]
  · rw [next_line_bitmap]
    exact glyph_u16 hf _

theorem turn_on (hs : d.Screen) (hf : d.Fonts) (hc : c.On d) (hb : c.bitmap.U16) (r : Round) :
    (c.turn d r).On d := by
  unfold Cursor.turn
  split
  · exact next_line_on hs hc hb
  · exact next_line_on hs hc (glyph_u16 hf _)

/-- The cursor is on the screen before every round. -/
theorem steps_on (hs : d.Screen) (hf : d.Fonts) (rs : List Round) (hc : c.On d)
    (hb : c.bitmap.U16) : ∀ s ∈ steps d c rs, s.before.On d ∧ s.before.bitmap.U16 := by
  induction rs generalizing c with
  | nil => simp [steps]
  | cons r rs ih =>
      intro s hm
      obtain rfl | hm := List.mem_cons.mp hm
      · exact ⟨hc, hb⟩
      · exact ih (turn_on hs hf hc hb r) (turn_bitmap_u16 hf hb r) s hm

/-! ## When the layout is right -/

/-- The layout of a text that starts with some bitmap in the uninitialised variable. -/
structure TextRight (d : State) (text : List UInt8) (bitmap : DispBitmap) (x y : ℤ) : Prop where
  once : Tiles 0 text.length (rounds 0 text)
  reads : ∀ r ∈ rounds 0 text, r.last ≤ text.length
  onScreen : ∀ s ∈ steps d (home d bitmap x y) (rounds 0 text), s.before.On d
  newLine : ∀ s ∈ steps d (home d bitmap x y) (rounds 0 text), s.round.item = .line →
    (s.after d).x = 0 ∧ (s.after d).y = lower d s.before
  /-- Nothing depends on the bitmap. -/
  determined : ∀ bitmap' : DispBitmap, bitmap'.U16 →
    placed d (home d bitmap x y) (rounds 0 text) = placed d (home d bitmap' x y) (rounds 0 text)

/-- Line breaks come only behind a glyph that has filled its line. -/
def BreaksFull (d : State) (text : List UInt8) (x y : ℤ) : Prop :=
  (∀ r, (rounds 0 text).head? = some r → r.item ≠ .line) ∧
    ∀ s ∈ steps d (home d ⟨0, 0, 1, ⟨.blankChar, 0⟩⟩ x y) (rounds 0 text),
      s.round.item = .line → Full d s.before

/-- After a glyph the bitmap from before it does not matter. -/
theorem steps_char (r : Round) (hr : r.item ≠ .line) (rs : List Round) (x y : ℤ)
    (b b' : DispBitmap) : steps d ⟨x, y, b⟩ (r :: rs) =
      ⟨⟨x, y, b⟩, r⟩ :: (steps d ⟨x, y, b'⟩ (r :: rs)).tail := by
  cases hi : r.item with
  | line => exact absurd hi hr
  | char charcode => simp only [steps, Cursor.turn, hi, List.tail_cons]

/-- On a screen of one pixel the cursor does not move. -/
theorem on_point (hw : d.lcd_width = 1) (hh : d.lcd_height = 1) (hc : c.On d) :
    c.x = 0 ∧ c.y = 0 := by
  obtain ⟨h₁, h₂, h₃, h₄⟩ := hc
  exact ⟨by omega, by omega⟩

/-- A break is right where the line is full. Behind a glyph that is the only case. -/
theorem newLine_iff (hs : d.Screen) (hc : c.On d) (hb : c.bitmap.U16) (hpos : 0 < c.bitmap.width) :
    ((next_line d c).x = 0 ∧ (next_line d c).y = lower d c) ↔ Full d c := by
  refine ⟨fun h => ?_, next_line_full⟩
  by_contra hroom
  have hx := (next_line_room hs hc hb hroom).1
  have hx₀ := hc.1
  omega

/-- The width of the bitmap is positive before every round but the first. -/
theorem steps_width (hf : d.Fonts) (rs : List Round) (hb : 0 < c.bitmap.width) :
    ∀ s ∈ steps d c rs, 0 < s.before.bitmap.width := by
  induction rs generalizing c with
  | nil => simp [steps]
  | cons r rs ih =>
      intro s hm
      obtain rfl | hm := List.mem_cons.mp hm
      · exact hb
      · refine ih ?_ s hm
        unfold Cursor.turn
        split
        · rwa [next_line_bitmap]
        · rw [next_line_bitmap]
          exact (glyph_size hf _).1

/-- When the text begins with a glyph, every break follows a glyph. -/
theorem steps_break_width (hf : d.Fonts) {rs : List Round}
    (hr : ∀ r, rs.head? = some r → r.item ≠ .line) :
    ∀ s ∈ steps d c rs, s.round.item = .line → 0 < s.before.bitmap.width := by
  cases rs with
  | nil => simp [steps]
  | cons r rs =>
      intro s hm hline
      obtain rfl | hm := List.mem_cons.mp hm
      · exact absurd hline (hr r rfl)
      · refine steps_width hf rs ?_ s hm
        cases hi : r.item with
        | line => exact absurd hi (hr r rfl)
        | char charcode =>
            simp only [Cursor.turn, hi, next_line_bitmap]
            exact (glyph_size hf charcode).1

/-- The cursors of the breaks do not depend on the bitmap either. -/
theorem full_any {rs : List Round} (hr : ∀ r, rs.head? = some r → r.item ≠ .line)
    {b b' : DispBitmap}
    (h : ∀ s ∈ steps d (home d b x y) rs, s.round.item = .line → Full d s.before) :
    ∀ s ∈ steps d (home d b' x y) rs, s.round.item = .line → Full d s.before := by
  cases rs with
  | nil => simp [steps]
  | cons r rs =>
      intro s hm hline
      rw [home, steps_char r (hr r rfl) rs _ _ b' b] at hm
      obtain rfl | hm := List.mem_cons.mp hm
      · exact absurd hline (hr r rfl)
      · exact h s (List.mem_of_mem_tail hm) hline

theorem placed_any {rs : List Round} (hr : ∀ r, rs.head? = some r → r.item ≠ .line)
    (b b' : DispBitmap) : placed d (home d b x y) rs = placed d (home d b' x y) rs := by
  cases rs with
  | nil => rfl
  | cons r rs =>
      have hchar := hr r rfl
      unfold placed home
      rw [steps_char r hchar rs _ _ b b']
      cases hi : r.item with
      | line => exact absurd hi hchar
      | char charcode => simp [steps, hi]

/-- On a screen of one pixel the glyphs are all placed on it. -/
theorem placed_point (hs : d.Screen) (hf : d.Fonts) (hw : d.lcd_width = 1) (hh : d.lcd_height = 1)
    (rs : List Round) {c c' : Cursor} (hc : c.On d) (hb : c.bitmap.U16) (hc' : c'.On d)
    (hb' : c'.bitmap.U16) : placed d c rs = placed d c' rs := by
  induction rs generalizing c c' with
  | nil => rfl
  | cons r rs ih =>
      have hih := ih (turn_on hs hf hc hb r) (turn_bitmap_u16 hf hb r) (turn_on hs hf hc' hb' r)
        (turn_bitmap_u16 hf hb' r)
      obtain ⟨hx, hy⟩ := on_point hw hh hc
      obtain ⟨hx', hy'⟩ := on_point hw hh hc'
      unfold placed at hih ⊢
      simp only [steps, List.filterMap_cons, hih, hx, hy, hx', hy']

/-- What `newLine` says of a break before the first glyph, for all bitmaps. -/
theorem first_break (hs : d.Screen) (hx : 0 ≤ x) (hy : 0 ≤ y)
    (h : ∀ b : DispBitmap, b.U16 → (next_line d (home d b x y)).x = 0 ∧
      (next_line d (home d b x y)).y = lower d (home d b x y)) :
    d.lcd_width = 1 ∧ d.lcd_height = 1 := by
  have hw := hs.width_pos
  have hh := hs.height_pos
  have hh' := hs.height_lt
  -- a bitmap of width 0 leaves the cursor, so it is at the left; one of width 1 moves it
  have zero {n : ℤ} (hn : 0 ≤ n) (hn' : n < 65536) :
      DispBitmap.U16 ⟨0, n, 1, ⟨.blankChar, 0⟩⟩ := ⟨le_rfl, (by decide : (0 : ℤ) < 65536), hn, hn'⟩
  have one : DispBitmap.U16 ⟨1, 0, 1, ⟨.blankChar, 0⟩⟩ := ⟨by decide, by decide, le_rfl, by decide⟩
  have hroom {n : ℤ} (hn : 0 ≤ n) (hn' : n < 65536) := next_line_room hs
    (home_on ⟨0, n, 1, ⟨.blankChar, 0⟩⟩ hs hx hy) (zero hn hn') (by
      have hxw := (home_on ⟨0, n, 1, ⟨.blankChar, 0⟩⟩ hs hx hy).2.1
      change ¬d.lcd_width ≤ _ + 0
      omega)
  have hat {b : DispBitmap} := home_on b hs hx hy
  have hx₀ : (home d ⟨0, 1, 1, ⟨.blankChar, 0⟩⟩ x y).x = 0 := by
    have hb := (h _ (zero (n := 1) (by decide) (by decide))).1
    rw [(hroom (n := 1) (by decide) (by decide)).1] at hb
    exact (add_zero _).symm.trans hb
  have hwidth : d.lcd_width = 1 := by
    by_contra hne
    have hone := (h _ one).1
    rw [(next_line_room hs hat one (by
      change ¬d.lcd_width ≤ (home d ⟨0, 1, 1, ⟨.blankChar, 0⟩⟩ x y).x + 1
      omega)).1] at hone
    change (home d ⟨0, 1, 1, ⟨.blankChar, 0⟩⟩ x y).x + 1 = 0 at hone
    omega
  refine ⟨hwidth, ?_⟩
  by_contra hne
  -- a height of 1 should move it down
  have hdown := (h _ (zero (n := 1) (by decide) (by decide))).2
  rw [(hroom (n := 1) (by decide) (by decide)).2] at hdown
  obtain ⟨-, -, hy₀, hyh⟩ := hat (b := ⟨0, 1, 1, ⟨.blankChar, 0⟩⟩)
  unfold lower at hdown
  dsimp only at hdown
  rw [u16_eq (by change 0 ≤ _ + (1 : ℤ); omega) (by change _ + (1 : ℤ) < 65536; omega)] at hdown
  change (home d ⟨0, 1, 1, ⟨.blankChar, 0⟩⟩ x y).y = if d.lcd_height ≤
    (home d ⟨0, 1, 1, ⟨.blankChar, 0⟩⟩ x y).y + 1 then 0 else
      (home d ⟨0, 1, 1, ⟨.blankChar, 0⟩⟩ x y).y + 1 at hdown
  split at hdown <;> omega

/-- Text is laid out right, whatever was in the uninitialised bitmap, exactly if every line break
comes behind a glyph that has filled its line; and always on a screen of one pixel. -/
theorem text_right_iff (hs : d.Screen) (hf : d.Fonts) (text : List UInt8) (hx : 0 ≤ x)
    (hy : 0 ≤ y) :
    (∀ b : DispBitmap, b.U16 → TextRight d text b x y) ↔
      d.lcd_width = 1 ∧ d.lcd_height = 1 ∨ BreaksFull d text x y := by
  have hzero : DispBitmap.U16 ⟨0, 0, 1, ⟨.blankChar, 0⟩⟩ :=
    ⟨le_rfl, by decide, le_rfl, by decide⟩
  have honce : Tiles 0 text.length (rounds 0 text) := by
    simpa only [Nat.zero_add] using rounds_tile 0 text
  have hreads : ∀ r ∈ rounds 0 text, r.last ≤ text.length := by
    simpa only [Nat.zero_add] using rounds_last 0 text
  have hon (b : DispBitmap) (hb : b.U16) := steps_on hs hf (rounds 0 text)
    (home_on b hs hx hy) hb
  constructor
  · intro h
    by_cases hfirst : ∀ r, (rounds 0 text).head? = some r → r.item ≠ .line
    · refine .inr ⟨hfirst, fun s hm hline => ?_⟩
      have hline' := (h _ hzero).newLine s hm hline
      simp only [Step.after, Cursor.turn, hline] at hline'
      obtain ⟨hson, hsb⟩ := hon _ hzero s hm
      exact (newLine_iff hs hson hsb (steps_break_width hf hfirst s hm hline)).mp hline'
    · obtain ⟨r, hr⟩ := not_forall.mp hfirst
      obtain ⟨hhead, hline⟩ := Classical.not_imp.mp hr
      rw [ne_eq, not_not] at hline
      obtain ⟨rs, hrs⟩ : ∃ rs, rounds 0 text = r :: rs := by
        cases hrs : rounds 0 text with
        | nil => rw [hrs] at hhead; cases hhead
        | cons q rs =>
            rw [hrs] at hhead
            cases hhead
            exact ⟨rs, rfl⟩
      refine .inl (first_break hs hx hy fun b hb => ?_)
      have hnew := (h b hb).newLine ⟨home d b x y, r⟩ (by rw [hrs]; exact List.mem_cons_self) hline
      simpa only [Step.after, Cursor.turn, hline] using hnew
  · rintro (⟨hw, hh⟩ | ⟨hfirst, hfull⟩) b hb
    · refine ⟨honce, hreads, fun s hm => (hon b hb s hm).1, fun s hm hline => ?_, fun b' hb' =>
        placed_point hs hf hw hh _ (home_on b hs hx hy) hb (home_on b' hs hx hy) hb'⟩
      obtain ⟨hson, hsb⟩ := hon b hb s hm
      have hpoint := on_point hw hh (turn_on hs hf hson hsb s.round)
      refine ⟨hpoint.1, hpoint.2.trans ?_⟩
      have hy₀ := u16_nonneg (s.before.y + s.before.bitmap.height)
      unfold lower
      dsimp only
      split <;> omega
    · refine ⟨honce, hreads, fun s hm => (hon b hb s hm).1, fun s hm hline => ?_, fun b' _ =>
        placed_any hfirst b b'⟩
      have hnew := next_line_full (full_any hfirst hfull s hm hline)
      simpa only [Step.after, Cursor.turn, hline] using hnew

/-- Four letters that fill two lines of a screen of 16 pixels, and a break behind the first two. -/
theorem text_right_iff_lines :
    TextRight (fresh 16 64 1) [0x61, 0x62, 10, 0x63] ⟨0, 0, 1, ⟨.blankChar, 0⟩⟩ 8 0 :=
  (text_right_iff (fresh_screen (by decide) (by decide) (by decide) (by decide) (.inr rfl))
    (fonts_init _ _ _ _ _ _ _) _ (by decide) (by decide)).mpr
    (.inr ⟨by decide, by
      have hrounds : rounds 0 [0x61, 0x62, 10, 0x63] = [⟨0, 1, 0, .char 0x61⟩,
        ⟨1, 1, 1, .char 0x62⟩, ⟨2, 1, 2, .line⟩, ⟨3, 1, 3, .char 0x63⟩] := by decide
      rw [hrounds]
      intro s hm hline
      simp only [steps, List.mem_cons, List.not_mem_nil, or_false] at hm
      rcases hm with rfl | rfl | rfl | rfl
      · cases hline
      · cases hline
      · decide
      · cases hline⟩) _ ⟨by decide, by decide, by decide, by decide⟩

/-- The letter behind the break stays in the line. -/
theorem not_text_right : (fresh 128 64 1).Screen ∧ (fresh 128 64 1).Fonts ∧
    ¬∀ b : DispBitmap, b.U16 → TextRight (fresh 128 64 1) [0x61, 10, 0x62] b 0 0 := by
  refine ⟨fresh_screen (by decide) (by decide) (by decide) (by decide) (.inr rfl),
    fonts_init _ _ _ _ _ _ _, fun h => ?_⟩
  have hnew := (h ⟨0, 0, 1, ⟨.blankChar, 0⟩⟩ ⟨by decide, by decide, by decide, by decide⟩).newLine
    ⟨⟨8, 0, glyph (fresh 128 64 1) 0x61⟩, ⟨1, 1, 1, .line⟩⟩ (.tail _ (.head _)) rfl
  revert hnew
  decide

end LuatAir200.Disp
