import LuatAir200.DispBounds

/-!
# Clearing the screen

`platform_disp_clear` writes the pixels of a colour screen one by one and the memory of a
monochrome screen as a whole. What is below the last full page of a monochrome screen is not in
that memory.
-/
namespace LuatAir200.Disp
open Painting Machine

/-- `memset(framebuffer, v, n)` -/
def Frame.memset (v : BitVec 8) (n : ℤ) (f : Frame) : Frame :=
  (upto 0 n).foldl (fun f i => f.poke i v) f

/-- The background colour is kept beside the state. -/
def platform_disp_clear (d : State) (disp_bkcolor : ℤ) (f : Frame) : Frame :=
  if d.lcd_bpp = 1 then
    f.memset (if disp_bkcolor ≠ d.lcd_hwfillcolor then 0x00#8 else 0xFF#8)
      (bufferSize d.lcd_width d.lcd_height d.lcd_bpp)
  else
    (upto 0 d.lcd_width).foldl (fun f col => (upto 0 d.lcd_height).foldl (fun f row =>
      f.poke16 (row * d.lcd_width + col) (BitVec.ofInt 16 disp_bkcolor)) f) f

variable {d : State}

theorem mem_pokes (v : BitVec 8) (l : List ℤ) (f : Frame) (j : ℤ) :
    (l.foldl (fun f i => f.poke i v) f).mem j = if j ∈ l then v else f.mem j := by
  induction l generalizing f with
  | nil => rfl
  | cons i l ih =>
      rw [List.foldl_cons, ih, Frame.mem_poke]
      by_cases hj : j ∈ l
      · simp [hj]
      · by_cases hi : j = i
        · simp [hi]
        · simp [hi, hj]

theorem mem_memset (v : BitVec 8) (n : ℤ) (f : Frame) (j : ℤ) :
    (f.memset v n).mem j = if 0 ≤ j ∧ j < n then v else f.mem j := by
  rw [Frame.memset, mem_pokes]
  simp only [mem_upto]

theorem Frame.Inside.memset {n m : ℤ} {f : Frame} (h : f.Inside n) (hm : m ≤ n) (v : BitVec 8) :
    (f.memset v m).Inside n := by
  refine foldl_keeps (fun i hi f hf => ?_) h
  rw [mem_upto] at hi
  exact hf.poke hi.1 (by omega) v

/-- A pixel of a monochrome screen shows the colour of its byte. -/
theorem pixel1_memset (v n : ℤ) (k : Pixel d) (f : Frame) :
    pixel1 d (f.memset (if v ≠ d.lcd_hwfillcolor then 0x00#8 else 0xFF#8) n) k =
      if k.y / 8 * d.lcd_width + k.x < n then decide (v = d.lcd_hwfillcolor) else pixel1 d f k := by
  have hx := k.x_nonneg
  have hy : 0 ≤ k.y / 8 * d.lcd_width :=
    Int.mul_nonneg (Int.ediv_nonneg k.y_nonneg (by decide)) (by have := k.x_lt; omega)
  have hpos : 0 ≤ k.y / 8 * d.lcd_width + k.x := by omega
  have hbit : (k.y % 8).toNat < 8 := by omega
  rw [pixel1, Frame.bit, mem_memset, pixel1, Frame.bit]
  by_cases hin : k.y / 8 * d.lcd_width + k.x < n
  · rw [if_pos ⟨hpos, hin⟩, if_pos hin]
    by_cases hv : v = d.lcd_hwfillcolor
    · have hones : (0xFF#8).getLsbD (k.y % 8).toNat = true := by
        have hall : 0xFF#8 = BitVec.allOnes 8 := rfl
        rw [hall, BitVec.getLsbD_allOnes]
        exact decide_eq_true hbit
      rw [if_neg (not_not_intro hv), hones, decide_eq_true hv]
    · rw [if_pos hv, decide_eq_false hv]
      exact BitVec.getLsbD_zero
  · rw [if_neg fun h => hin h.2, if_neg hin]

/-- The memory of a monochrome screen. -/
theorem bufferSize1 (hs : d.Screen) (h1 : d.lcd_bpp = 1)
    (hsize : d.lcd_width * d.lcd_height * d.lcd_bpp < 2 ^ 31) :
    bufferSize d.lcd_width d.lcd_height d.lcd_bpp = d.lcd_width * d.lcd_height / 8 := by
  have hpix : 0 < d.lcd_width * d.lcd_height := Int.mul_pos hs.width_pos hs.height_pos
  rw [h1, mul_one] at hsize
  rw [bufferSize, h1, mul_one, int32_eq (by omega) (by omega),
    Int.tdiv_eq_ediv_of_nonneg (by omega), u32_eq (by omega) (by omega)]

/-- Whether the last pixel of the screen is in its memory. -/
theorem last_page (hs : d.Screen) :
    (d.lcd_height - 1) / 8 * d.lcd_width + (d.lcd_width - 1) < d.lcd_width * d.lcd_height / 8 ↔
      8 ∣ d.lcd_height := by
  obtain ⟨hw, -, hh, -, -⟩ := hs
  obtain ⟨n, r, hr, hr8, hn⟩ : ∃ n r : ℤ, 0 ≤ r ∧ r < 8 ∧ d.lcd_height = 8 * n + r :=
    ⟨d.lcd_height / 8, d.lcd_height % 8, by omega, by omega, by omega⟩
  have hbytes : d.lcd_width * (8 * n + r) = 8 * (n * d.lcd_width) + r * d.lcd_width := by ring
  rw [hn, hbytes]
  by_cases h0 : r = 0
  · subst h0
    have hpage : (8 * n + 0 - 1) / 8 = n - 1 := by omega
    have hsub : (n - 1) * d.lcd_width = n * d.lcd_width - d.lcd_width := by ring
    rw [hpage, hsub]
    omega
  · have hpage : (8 * n + r - 1) / 8 = n := by omega
    have hless : r * d.lcd_width ≤ 7 * d.lcd_width :=
      Int.mul_le_mul_of_nonneg_right (by omega) hw.le
    rw [hpage]
    omega

/-- The pixels of a colour screen. -/
theorem clear16_paints (h16 : d.lcd_bpp = 16) (disp_bkcolor : ℤ) :
    Paints (pixel16 d) (fun _ => True) (fun _ _ => BitVec.ofInt 16 disp_bkcolor)
      (platform_disp_clear d disp_bkcolor) := by
  have hcell : ∀ col ∈ upto 0 d.lcd_width, ∀ row ∈ upto 0 d.lcd_height,
      Paints (pixel16 d) (fun k => k.x = col ∧ k.y = row)
        (fun _ _ => BitVec.ofInt 16 disp_bkcolor)
        fun f => f.poke16 (row * d.lcd_width + col) (BitVec.ofInt 16 disp_bkcolor) := by
    intro col hcol row _
    rw [mem_upto] at hcol
    exact poke16_paints hcol.1 hcol.2 _
  have hgrid := Paints.grid hcell fun _ _ => rfl
  have hne : d.lcd_bpp ≠ 1 := by omega
  have hclear : platform_disp_clear d disp_bkcolor = fun f =>
      (upto 0 d.lcd_width).foldl (fun f col => (upto 0 d.lcd_height).foldl (fun f row =>
        f.poke16 (row * d.lcd_width + col) (BitVec.ofInt 16 disp_bkcolor)) f) f := by
    funext f
    exact if_neg hne
  rw [hclear]
  refine hgrid.congr fun k => iff_true_intro ?_
  exact ⟨k.x, mem_upto.mpr ⟨k.x_nonneg, k.x_lt⟩, k.y, mem_upto.mpr ⟨k.y_nonneg, k.y_lt⟩, rfl, rfl⟩

/-- A cleared screen shows the background colour everywhere exactly if it is a colour screen or
its height is a multiple of eight, whatever was on it. -/
theorem cleared_iff (hs : d.Screen) (hsize : d.lcd_width * d.lcd_height * d.lcd_bpp < 2 ^ 31)
    (disp_bkcolor : ℤ) :
    (∀ (f : Frame) (k : Pixel d),
      d.pixel (platform_disp_clear d disp_bkcolor f) k = d.shade disp_bkcolor) ↔
    d.lcd_bpp = 16 ∨ 8 ∣ d.lcd_height := by
  obtain h16 | h1 := hs.bpp
  · refine iff_of_true (fun f k => ?_) (.inl h16)
    simp only [State.pixel, State.shade, h16, if_true]
    rw [(clear16_paints h16 disp_bkcolor).inside f k trivial]
  · have hne : d.lcd_bpp ≠ 16 := by omega
    have hpixel : ∀ (f : Frame) (k : Pixel d), d.pixel (platform_disp_clear d disp_bkcolor f) k =
        (if k.y / 8 * d.lcd_width + k.x < d.lcd_width * d.lcd_height / 8 then
          decide (disp_bkcolor = d.lcd_hwfillcolor) else pixel1 d f k).toNat := by
      intro f k
      rw [State.pixel, if_neg hne, platform_disp_clear, if_pos h1, bufferSize1 hs h1 hsize,
        pixel1_memset]
    have hshade : d.shade disp_bkcolor = (decide (disp_bkcolor = d.lcd_hwfillcolor)).toNat :=
      if_neg hne
    simp only [hpixel, hshade, hne, false_or]
    rw [← last_page hs]
    constructor
    · intro h
      by_contra hout
      -- a memory in which the last pixel has the other colour
      have hlast := h ⟨fun _ => if disp_bkcolor = d.lcd_hwfillcolor then 0x00#8 else 0xFF#8, [], []⟩
        ⟨d.lcd_width - 1, d.lcd_height - 1, by have := hs.width_pos; omega, by omega,
          by have := hs.height_pos; omega, by omega⟩
      simp only [if_neg hout, pixel1, Frame.bit] at hlast
      have hbit : ((d.lcd_height - 1) % 8).toNat < 8 := by omega
      by_cases hv : disp_bkcolor = d.lcd_hwfillcolor
      · simp [hv] at hlast
      · have hones : (0xFF#8).getLsbD ((d.lcd_height - 1) % 8).toNat = true := by
          have hall : 0xFF#8 = BitVec.allOnes 8 := rfl
          rw [hall, BitVec.getLsbD_allOnes]
          exact decide_eq_true hbit
        simp [hv, hones] at hlast
    · intro hlast f k
      have hrow : k.y / 8 * d.lcd_width ≤ (d.lcd_height - 1) / 8 * d.lcd_width :=
        Int.mul_le_mul_of_nonneg_right (by have := k.y_lt; omega) hs.width_pos.le
      have hin : k.y / 8 * d.lcd_width + k.x < d.lcd_width * d.lcd_height / 8 := by
        have := k.x_lt
        omega
      rw [if_pos hin]

/-- A monochrome screen of 12 rows keeps its last four. -/
theorem cleared_iff_twelve : ¬∀ (f : Frame) (k : Pixel (fresh 8 12 1)),
    (fresh 8 12 1).pixel (platform_disp_clear (fresh 8 12 1) COLOR_BLACK f) k =
      (fresh 8 12 1).shade COLOR_BLACK :=
  fun h => absurd ((cleared_iff
    (fresh_screen (by decide) (by decide) (by decide) (by decide) (by decide)) (by decide)
    COLOR_BLACK).mp h) (by decide)

/-! ## Runs with clearing -/

theorem clear_inside (hs : d.Screen)
    (ha : d.allocated = bufferSize d.lcd_width d.lcd_height d.lcd_bpp)
    (hsize : d.lcd_width * d.lcd_height * d.lcd_bpp < 2 ^ 31) (disp_bkcolor : ℤ) {f : Frame}
    (h : f.Inside d.allocated) : (platform_disp_clear d disp_bkcolor f).Inside d.allocated := by
  unfold platform_disp_clear
  split
  case isTrue h1 => exact h.memset ha.ge _
  case isFalse h1 =>
    have h16 : d.lcd_bpp = 16 := hs.bpp.resolve_right h1
    have hback : d.Backed 0 0 d.lcd_width d.lcd_height :=
      backed_screen hs ha hsize (fun h => absurd h h1) le_rfl le_rfl
    refine foldl_keeps (fun col hcol f hf => foldl_keeps (fun row hrow f hf => ?_) hf) h
    rw [mem_upto] at hcol hrow
    exact hf.poke16 (cell_nonneg hs.width_pos hcol.1 hrow.1)
      (backed16 hs.width_pos h16 hback hcol.1 hcol.2 hrow.1 hrow.2) _

inductive Call
  | act (a : Act)
  | clear (disp_bkcolor : ℤ)

/-- The calls that draw, and `disp.clear`. -/
def call (d : State) : Call → Option State
  | .act a => step d a
  | .clear disp_bkcolor => some { d with frame := platform_disp_clear d disp_bkcolor d.frame }

def Call.Plain : Call → Prop
  | .act a => Disp.Plain a
  | .clear _ => True

theorem call_ready {c : Call} {e : State} (h : Ready d ∧ Roomy d) (hc : call d c = some e) :
    Ready e ∧ Roomy e := by
  cases c with
  | act a => exact ⟨step_ready h.1 hc, step_roomy h.2 hc⟩
  | clear disp_bkcolor =>
      obtain rfl := Option.some.inj hc
      exact ⟨h.1.of_same ⟨h.1.fonts.font, h.1.fonts.curr, h.1.fonts.hz⟩ rfl rfl rfl rfl,
        ⟨h.2.allocated, h.2.size, h.2.pages⟩⟩

theorem call_inside {c : Call} {e : State} (h : Ready d ∧ Roomy d) (hd : Inside d) (hp : c.Plain)
    (hc : call d c = some e) : Inside e := by
  cases c with
  | act a => exact step_inside h.1 hd (fits_roomy h.1 h.2 hp) hc
  | clear disp_bkcolor =>
      obtain rfl := Option.some.inj hc
      exact clear_inside h.1.screen h.2.allocated h.2.size disp_bkcolor hd

theorem roomy_init {width height bpp hwfillcolor : ℤ} {hz : Option Pointer}
    {rom : Pointer → BitVec 8} {mem : ℤ → BitVec 8}
    (h : disp_init width height bpp hwfillcolor (boot hz rom mem) = some d)
    (hsize : d.lcd_width * d.lcd_height * d.lcd_bpp < 2 ^ 31)
    (hpage : d.lcd_bpp = 1 → d.lcd_height % 8 = 0) : Roomy d ∧ Inside d := by
  unfold disp_init at h
  split at h
  · cases h
  split at h
  · cases h
  obtain rfl := Option.some.inj h
  exact ⟨⟨rfl, hsize, hpage⟩, fun i hi => by cases hi⟩

/-- On a screen that has memory for all its pixels, text, BMP images, rectangles from inside the
screen and clearing write to the buffer only, in any order. -/
theorem drawing_inside {width height bpp hwfillcolor : ℤ} {hz : Option Pointer}
    {rom : Pointer → BitVec 8} {mem : ℤ → BitVec 8}
    (h : disp_init width height bpp hwfillcolor (boot hz rom mem) = some d)
    (hsize : d.lcd_width * d.lcd_height * d.lcd_bpp < 2 ^ 31)
    (hpage : d.lcd_bpp = 1 → d.lcd_height % 8 = 0) {cs : List Call} (hc : ∀ c ∈ cs, c.Plain) :
    Along call Inside d cs := by
  obtain ⟨hroomy, hinside⟩ := roomy_init h hsize hpage
  exact along_of_meets (fun _ _ _ hs ht => call_ready hs ht)
    (fun _ _ _ hs hin hp ht => call_inside hs hin hp ht) ⟨ready_init h, hroomy⟩ hinside
    (meets_of_forall (fun c hm _ => hc c hm) d)

theorem drawing_inside_small : ∃ d,
    disp_init 8 8 1 (-1) (boot none (fun _ => 0#8) fun _ => 0#8) = some d ∧
      Along call Inside d [.clear COLOR_WHITE, .act (.drawrect 1 1 30 3 0), .clear 0] := by
  have hinit : disp_init 8 8 1 (-1) (boot none (fun _ => 0#8) fun _ => 0#8) =
      some (platform_disp_init 8 8 1 (-1) (boot none (fun _ => 0#8) fun _ => 0#8)) := rfl
  refine ⟨_, hinit, drawing_inside hinit (by decide) (by decide) fun c hc => ?_⟩
  simp only [List.mem_cons, List.not_mem_nil, or_false] at hc
  obtain rfl | rfl | rfl := hc
  · trivial
  · exact ⟨by decide, by decide⟩
  · trivial

end LuatAir200.Disp
