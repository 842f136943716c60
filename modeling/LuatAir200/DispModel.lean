import LuatAir200.Painting

/-!
# The display

`common_disp.c`: the frame buffer, the fonts and what draws. All numbers are integers; a value
that the source keeps in 16 or 32 bits is reduced where it is stored. A `u16` counter below a
`u16` bound does not wrap, so such loops range over `upto`. Offsets from `framebuffer` are
exact: what wraps in the arithmetic of an address wraps back in the address.
-/
namespace LuatAir200.Disp
open Painting

def u8 (n : ℤ) : ℤ := n % 2 ^ 8
def u16 (n : ℤ) : ℤ := n % 2 ^ 16
def u32 (n : ℤ) : ℤ := n % 2 ^ 32

/-- The value of an `int`. -/
def int32 (n : ℤ) : ℤ := n.bmod (2 ^ 32)

theorem u16_eq {n : ℤ} (h₀ : 0 ≤ n) (h : n < 65536) : u16 n = n := by
  unfold u16
  omega

theorem u32_eq {n : ℤ} (h₀ : 0 ≤ n) (h : n < 4294967296) : u32 n = n := by
  unfold u32
  omega

theorem int32_eq {n : ℤ} (h₀ : -2147483648 ≤ n) (h : n < 2147483648) : int32 n = n :=
  Int.bmod_eq_of_le (by omega) (by omega)

theorem u16_nonneg (n : ℤ) : 0 ≤ u16 n := Int.emod_nonneg n (by decide)

theorem u16_lt (n : ℤ) : u16 n < 65536 := Int.emod_lt_of_pos n (by decide)

inductive Ret
  | PLATFORM_ERR
  | PLATFORM_OK
  deriving DecidableEq

def COLOR_WHITE : ℤ := 0xffff
def COLOR_BLACK : ℤ := 0x0000

/-! ## Memory -/

/-- What a drawing loop reads from. -/
inductive Region
  | blankChar
  | sansFont16Data
  /-- The file that was loaded into a place of `dispFonts`. -/
  | file (id : ℕ)
  | sansHzFont16Data
  | sansHzFont16ExtData
  /-- The image of `put_bmp_file_buff`. -/
  | data_buf
  deriving DecidableEq

structure Pointer where
  region : Region
  offset : ℤ
  deriving DecidableEq

def Pointer.plus (p : Pointer) (n : ℤ) : Pointer := { p with offset := p.offset + n }

/-- The memory by offsets from `framebuffer`, and the accesses of the drawing loops. -/
structure Frame where
  mem : ℤ → BitVec 8
  /-- History: the offsets of the bytes written. -/
  written : List ℤ
  /-- History: the bytes read. -/
  looked : List Pointer

namespace Frame

def look (p : Pointer) (f : Frame) : Frame := { f with looked := f.looked ++ [p] }

/-- `framebuffer[i] = v` -/
def poke (i : ℤ) (v : BitVec 8) (f : Frame) : Frame :=
  { f with
    mem := fun j => if j = i then v else f.mem j
    written := f.written ++ [i] }

/-- `framebuffer[i] |= 1<<k` or `framebuffer[i] &= ~(1<<k)` -/
def setBit (fill : Bool) (i k : ℤ) (f : Frame) : Frame :=
  let bit := 1#8 <<< k.toNat
  f.poke i (if fill then f.mem i ||| bit else f.mem i &&& ~~~bit)

/-- `buffer16[i] = v` -/
def poke16 (i : ℤ) (v : BitVec 16) (f : Frame) : Frame :=
  (f.poke (2 * i) (v.setWidth 8)).poke (2 * i + 1) ((v >>> 8).setWidth 8)

/-- `buffer16[i]` -/
def peek16 (f : Frame) (i : ℤ) : BitVec 16 := f.mem (2 * i + 1) ++ f.mem (2 * i)

end Frame

/-! ## The state -/

structure DispBitmap where
  width : ℤ
  height : ℤ
  bpp : ℤ
  data : Pointer

structure FontInfo where
  width : ℤ
  height : ℤ
  size : ℤ
  start : ℤ
  end_ : ℤ
  data : Option Pointer

def MAX_FONTS : ℕ := 10

def sansFont16 : FontInfo := ⟨8, 16, 8 * 16 / 8, 0x20, 0x7E, some ⟨.sansFont16Data, 0⟩⟩

/-- The Chinese font, whose data is a choice of the build. -/
def sansHzFont16 (data : Option Pointer) : FontInfo := ⟨16, 16, (16 + 7) / 8 * 16, 0, 0, data⟩

structure State where
  lcd_width : ℤ
  lcd_height : ℤ
  lcd_bpp : ℤ
  /-- The bytes that `malloc` was asked for. -/
  allocated : ℤ
  disp_color : ℤ
  lcd_hwfillcolor : ℤ
  /-- Has `fontInit` been called? -/
  inited : Bool
  dispFonts : ℕ → FontInfo
  curr_font_id : ℕ
  dispHzFont : FontInfo
  /-- The bytes behind the pointers. -/
  rom : Pointer → BitVec 8
  frame : Frame

def noFont : FontInfo := ⟨0, 0, 0, 0, 0, none⟩

/-- The state before `disp.init`. -/
def boot (hz : Option Pointer) (rom : Pointer → BitVec 8) (mem : ℤ → BitVec 8) : State where
  lcd_width := 0
  lcd_height := 0
  lcd_bpp := 0
  allocated := 0
  disp_color := COLOR_BLACK
  lcd_hwfillcolor := COLOR_BLACK
  inited := false
  dispFonts _ := noFont
  curr_font_id := 0
  dispHzFont := sansHzFont16 hz
  rom := rom
  frame := ⟨mem, [], []⟩

/-- The places of `dispFonts`, which are set once. -/
def fontInit (d : State) (id : ℕ) : FontInfo :=
  if d.inited then d.dispFonts id else if id = 0 then sansFont16 else noFont

/-- `malloc(lcd_width*lcd_height*lcd_bpp/8)`: the product is an `int`, the size is unsigned. -/
def bufferSize (width height bpp : ℤ) : ℤ := u32 ((int32 (width * height * bpp)).tdiv 8)

/-- `platform_disp_init`, which `disp_init` calls with what it has checked. The colours and the
memory are what they were, unless the screen is monochrome. -/
def platform_disp_init (width height bpp hwfillcolor : ℤ) (d : State) : State :=
  { d with
    lcd_width := width
    lcd_height := height
    lcd_bpp := bpp
    allocated := bufferSize width height bpp
    disp_color := if bpp = 1 then COLOR_WHITE else d.disp_color
    lcd_hwfillcolor :=
      if bpp = 1 ∧ hwfillcolor ≠ -1 then hwfillcolor else d.lcd_hwfillcolor
    inited := true
    dispFonts := fontInit d }

/-- `disp_init`; `none` is its error. -/
def disp_init (width height bpp hwfillcolor : ℤ) (d : State) : Option State :=
  if u16 width = 0 ∨ u16 height = 0 then none
  else if ¬(u8 bpp = 16 ∨ u8 bpp = 1) then none
  else some (platform_disp_init (u16 width) (u16 height) (u8 bpp) hwfillcolor d)

/-! ## Text -/

/-- `pBitmap->data[bwbytes*by+bx/8]` -/
def DispBitmap.at (b : DispBitmap) (bx by' : ℤ) : Pointer :=
  let bwbytes := u16 ((b.width + 7) / 8)
  b.data.plus (bwbytes * by' + bx / 8)

/-- Is the dot of a glyph set? -/
def State.dot (d : State) (b : DispBitmap) (bx by' : ℤ) : Bool :=
  d.rom (b.at bx by') &&& (0x80#8 >>> (bx % 8).toNat) ≠ 0

def disp_bitmap_bpp1 (d : State) (b : DispBitmap) (startX startY : ℤ) (f : Frame) : Frame :=
  if b.bpp ≠ 1 then f
  else
    let endX := u16 (min d.lcd_width (startX + b.width))
    let endY := u16 (min d.lcd_height (startY + b.height))
    (upto startX endX).foldl (fun f x =>
      (upto startY endY).foldl (fun f y =>
        let page := y / 8
        let f := f.look (b.at (x - startX) (y - startY))
        if d.dot b (x - startX) (y - startY) then
          f.setBit (d.disp_color = d.lcd_hwfillcolor) (page * d.lcd_width + x) (y % 8)
        else f) f) f

def disp_1bitbmp_bpp16 (d : State) (b : DispBitmap) (startX startY : ℤ) (f : Frame) : Frame :=
  let endX := u16 (min d.lcd_width (startX + b.width))
  let endY := u16 (min d.lcd_height (startY + b.height))
  (upto startX endX).foldl (fun f x =>
    (upto startY endY).foldl (fun f y =>
      let f := f.look (b.at (x - startX) (y - startY))
      if d.dot b (x - startX) (y - startY) then
        f.poke16 (y * d.lcd_width + x) (BitVec.ofInt 16 d.disp_color)
      else f) f) f

def getFontBitmap (d : State) (charcode : ℤ) : DispBitmap :=
  let pInfo := d.dispFonts d.curr_font_id
  let data := match pInfo.data with
    | some p =>
        if pInfo.start ≤ charcode ∧ charcode ≤ pInfo.end_ then
          p.plus ((charcode - pInfo.start) * pInfo.size)
        else ⟨.blankChar, 0⟩
    | none => ⟨.blankChar, 0⟩
  ⟨pInfo.width, pInfo.height, 1, data⟩

def sansHzFont16ExtOffset : List ℤ :=
  [0xA1A2, 0xA1A3, 0xA1AA, 0xA1AD, 0xA1AE, 0xA1AF, 0xA1B0, 0xA1B1,
    0xA1B2, 0xA1B3, 0xA1B4, 0xA1B5, 0xA1B6, 0xA1B7, 0xA1B8, 0xA1B9,
    0xA1BA, 0xA1BB, 0xA1BE, 0xA1BF, 0xA3A1, 0xA3A8, 0xA3A9, 0xA3AC,
    0xA3AD, 0xA3AE, 0xA3BA, 0xA3BB, 0xA3BF, 0xE0C5]

/-- The search of a code in the table, which is ordered. -/
def extIndex (charcode : ℤ) : ℕ → List ℤ → Option ℕ
  | _, [] => none
  | index, code :: codes =>
      if charcode < code then none
      else if charcode = code then some index
      else extIndex charcode (index + 1) codes

def getHzBitmap (d : State) (charcode : ℤ) : DispBitmap :=
  let pInfo := d.dispHzFont
  let data := match pInfo.data with
    | some p =>
        let byte1 := charcode / 2 ^ 8
        let byte2 := charcode % 2 ^ 8
        if 0xB0 ≤ byte1 ∧ byte1 ≤ 0xF7 ∧ 0xA1 ≤ byte2 ∧ byte2 ≤ 0xFE then
          let index := (byte1 - 0xB0) * (0xFE - 0xA1 + 1) + byte2 - 0xA1
          p.plus (index * pInfo.size)
        else
          match extIndex charcode 0 sansHzFont16ExtOffset with
          | some index => ⟨.sansHzFont16ExtData, index * pInfo.size⟩
          | none => ⟨.blankChar, 0⟩
    | none => ⟨.blankChar, 0⟩
  ⟨pInfo.width, pInfo.height, 1, data⟩

def getCharBitmap (d : State) (charcode : ℤ) : DispBitmap :=
  if 0xA0A0 ≤ charcode then getHzBitmap d charcode else getFontBitmap d charcode

/-- What a round of the loop of `platform_disp_puttext` has read. -/
inductive Item
  | line
  | char (charcode : ℤ)
  deriving DecidableEq

/-- A round: it begins at `pos`, uses `size` bytes and has looked at no byte behind `last`. -/
structure Round where
  pos : ℕ
  size : ℕ
  last : ℕ
  item : Item
  deriving DecidableEq

def isHigh (c : UInt8) : Bool := c &&& 0x80 ≠ 0

def isLine (c : UInt8) : Bool := c = 13 ∨ c = 10

/-- The rounds over `pText` from position `i` on; behind the text there is the terminator. -/
def rounds : ℕ → List UInt8 → List Round
  | _, [] => []
  | i, [c] =>
      if isLine c then [⟨i, 1, i, .line⟩]
      else if isHigh c then [⟨i, 1, i + 1, .char 0x3f⟩]
      else [⟨i, 1, i, .char c.toNat⟩]
  | i, c :: c2 :: t =>
      if isLine c then ⟨i, 1, i, .line⟩ :: rounds (i + 1) (c2 :: t)
      else if isHigh c then
        if isHigh c2 then ⟨i, 2, i + 1, .char (c.toNat * 2 ^ 8 + c2.toNat)⟩ :: rounds (i + 2) t
        else ⟨i, 1, i + 1, .char 0x3f⟩ :: rounds (i + 1) (c2 :: t)
      else ⟨i, 1, i, .char c.toNat⟩ :: rounds (i + 1) (c2 :: t)

/-- The local variables of `platform_disp_puttext`. -/
structure Cursor where
  x : ℤ
  y : ℤ
  bitmap : DispBitmap

/-- The code at `next_line`. -/
def next_line (d : State) (c : Cursor) : Cursor :=
  let c := if d.lcd_width ≤ c.x + c.bitmap.width then
      { c with y := u16 (c.y + c.bitmap.height), x := 0 }
    else { c with x := u16 (c.x + c.bitmap.width) }
  if d.lcd_height ≤ c.y then { c with y := 0 } else c

/-- A glyph of 14 by 14 stands in the middle of 16 by 16 on a monochrome screen. -/
def isSmall (d : State) (b : DispBitmap) : Bool := d.lcd_bpp = 1 ∧ b.width = 14 ∧ b.height = 14

/-- The glyph of a code as the cursor keeps it. -/
def glyph (d : State) (charcode : ℤ) : DispBitmap :=
  let b := getCharBitmap d charcode
  if isSmall d b then { b with width := 16, height := 16 } else b

def drawChar (d : State) (charcode x y : ℤ) (f : Frame) : Frame :=
  let b := getCharBitmap d charcode
  if d.lcd_bpp = 1 then
    if isSmall d b then disp_bitmap_bpp1 d b (u16 (x + 1)) (u16 (y + 1)) f
    else disp_bitmap_bpp1 d b x y f
  else disp_1bitbmp_bpp16 d b x y f

/-- The cursor after a round. -/
def Cursor.turn (d : State) (c : Cursor) (r : Round) : Cursor :=
  match r.item with
  | .line => next_line d c
  | .char charcode => next_line d { c with bitmap := glyph d charcode }

/-- One round of the loop. -/
def turn (d : State) (s : Cursor × Frame) (r : Round) : Cursor × Frame :=
  (s.1.turn d r, match r.item with
    | .line => s.2
    | .char charcode => drawChar d charcode s.1.x s.1.y s.2)

/-- The cursor before the loop. The bitmap is not initialised. -/
def home (d : State) (bitmap : DispBitmap) (x y : ℤ) : Cursor :=
  ⟨if d.lcd_width ≤ x then 0 else x, if d.lcd_height ≤ y then 0 else y, bitmap⟩

def platform_disp_puttext (d : State) (string : List UInt8) (bitmap : DispBitmap) (x y : ℤ)
    (f : Frame) : Frame :=
  ((rounds 0 string).foldl (turn d) (home d bitmap x y, f)).2

/-- `disp_puttext` -/
def disp_puttext (string : List UInt8) (bitmap : DispBitmap) (x y : ℤ) (d : State) : State :=
  { d with frame := platform_disp_puttext d string bitmap (u16 x) (u16 y) d.frame }

/-! ## Images -/

/-- A BMP file: what is read of its headers, and its bytes. -/
structure Bmp where
  bitmap_offset : ℤ
  width : ℤ
  height : ℤ
  number_of_planes : ℤ
  bits_per_pixel : ℤ
  bytes : ℤ → BitVec 8

def RGB24ToRGB16 (r g b : BitVec 16) : BitVec 16 :=
  (r &&& 0x00f8#16) <<< 8 ||| (g &&& 0x00fc#16) <<< 3 ||| (b &&& 0xf8#16) >>> 3

/-- Is a pixel of this colour drawn? -/
def opaqueFor (transcolor : ℤ) (rgb16 : BitVec 16) : Bool :=
  transcolor = -1 ∨ (rgb16.toNat : ℤ) ≠ transcolor

namespace Bmp

/-- `data_buf[i]` -/
def data_buf (p : Bmp) (i : ℤ) : BitVec 8 := p.bytes (p.bitmap_offset + i)

/-- Whole images are asked for by an empty rectangle. -/
def whole (left top right bottom : ℤ) : Bool := left = 0 ∧ top = 0 ∧ right = 0 ∧ bottom = 0

/-- `width`, the column behind the last one drawn, is a `u16`. -/
def endCol (p : Bmp) (d : State) (x left top right bottom : ℤ) : ℤ :=
  u16 (if whole left top right bottom then min (u32 (p.width + x)) d.lcd_width
    else min (right - left + 1 + x) d.lcd_width)

/-- `height` -/
def endRow (p : Bmp) (d : State) (y left top right bottom : ℤ) : ℤ :=
  u16 (if whole left top right bottom then min (u32 (p.height + y)) d.lcd_height
    else min (bottom - top + 1 + y) d.lcd_height)

/-- `bottom` after the rectangle was read. -/
def lastRow (p : Bmp) (left top right bottom : ℤ) : ℤ :=
  if whole left top right bottom then int32 (p.height - 1) else bottom

def bitmapRowBytes (p : Bmp) : ℤ := u16 (u32 (p.width * p.bits_per_pixel + 31) / 32 * 32 / 8)

/-- The `rowIndex` of the loop over the rows. Its second bound compares unsigned. -/
def rowIndices (p : Bmp) (d : State) (y left top right bottom : ℤ) : List ℤ :=
  let bottom' := p.lastRow left top right bottom
  (upto (u16 y) (p.endRow d y left top right bottom)).takeWhile fun rowIndex =>
    u32 (p.height - bottom' - 1) ≤ u32 (int32 (p.height - top - 1) - (rowIndex - u16 y))

/-- `bitmapRowIndex` beside `rowIndex`. -/
def bitmapRowIndex (p : Bmp) (y top rowIndex : ℤ) : ℤ :=
  int32 (p.height - top - 1) - (rowIndex - u16 y)

/-- `data_index` -/
def dataIndex (p : Bmp) (bitmapRowIndex bmpColIndex : ℤ) : ℤ :=
  u32 (bitmapRowIndex * p.bitmapRowBytes + bmpColIndex * p.bits_per_pixel / 8)

/-- The colour at a place of the data. -/
def rgb16 (p : Bmp) (data_index : ℤ) : BitVec 16 :=
  if p.bits_per_pixel = 24 then
    RGB24ToRGB16 ((p.data_buf (data_index + 2)).setWidth 16)
      ((p.data_buf (data_index + 1)).setWidth 16) ((p.data_buf data_index).setWidth 16)
  else p.data_buf (data_index + 1) ++ p.data_buf data_index

/-- The bytes that `rgb16` reads. -/
def lookRgb16 (p : Bmp) (data_index : ℤ) (f : Frame) : Frame :=
  if p.bits_per_pixel = 24 then
    ((f.look ⟨.data_buf, data_index + 2⟩).look ⟨.data_buf, data_index + 1⟩).look
      ⟨.data_buf, data_index⟩
  else (f.look ⟨.data_buf, data_index⟩).look ⟨.data_buf, data_index + 1⟩

/-- Is the value 1 of the palette white? -/
def bmpfill (p : Bmp) : Bool :=
  if p.number_of_planes = 1 then
    let fill_plate := 14 + 40 + 4
    p.bytes fill_plate = 0xff#8 ∧ p.bytes (fill_plate + 1) = 0xff#8 ∧
      p.bytes (fill_plate + 2) = 0xff#8
  else true

end Bmp

def put_bmp_file_buff (d : State) (p : Bmp) (x y transcolor left top right bottom : ℤ)
    (f : Frame) : Frame × Ret :=
  if right < left ∨ bottom < top then (f, .PLATFORM_ERR)
  else
    let rows := p.rowIndices d y left top right bottom
    let cols := upto (u16 x) (p.endCol d x left top right bottom)
    if d.lcd_bpp = 1 ∧ p.bits_per_pixel = 1 then
      let lcdfill : Bool := d.lcd_hwfillcolor = COLOR_WHITE
      let finalfill := if lcdfill = p.bmpfill then 0x80#8 else 0x00#8
      (rows.foldl (fun f rowIndex =>
        let page := rowIndex / 8
        cols.foldl (fun f colIndex =>
          let bmpColIndex := left + (colIndex - u16 x)
          let i := p.bitmapRowBytes * p.bitmapRowIndex y top rowIndex + bmpColIndex / 8
          let k := (bmpColIndex % 8).toNat
          let f := f.look ⟨.data_buf, i⟩
          f.setBit ((p.data_buf i &&& (0x80#8 >>> k)) ^^^ (finalfill >>> k) = 0#8)
            (page * d.lcd_width + colIndex) (rowIndex % 8)) f) f, .PLATFORM_OK)
    else if d.lcd_bpp ≠ 16 then (f, .PLATFORM_ERR)
    else if p.bits_per_pixel ≠ 24 ∧ p.bits_per_pixel ≠ 16 then (f, .PLATFORM_ERR)
    else
      (rows.foldl (fun f rowIndex =>
        cols.foldl (fun f colIndex =>
          let i := p.dataIndex (p.bitmapRowIndex y top rowIndex) (left + (colIndex - u16 x))
          let f := p.lookRgb16 i f
          if opaqueFor transcolor (p.rgb16 i) then
            f.poke16 (rowIndex * d.lcd_width + colIndex) (p.rgb16 i)
          else f) f) f, .PLATFORM_OK)

/-- A PNG image as libpng gives it: the bytes of each row. -/
structure Png where
  width : ℤ
  height : ℤ
  channel : ℤ
  row : ℤ → ℤ → BitVec 8

def Png.rgb16 (p : Png) (row_idx tmp_idx : ℤ) : BitVec 16 :=
  RGB24ToRGB16 ((p.row row_idx (tmp_idx * p.channel)).setWidth 16)
    ((p.row row_idx (tmp_idx * p.channel + 1)).setWidth 16)
    ((p.row row_idx (tmp_idx * p.channel + 2)).setWidth 16)

/-- The index in `buffer16`, an unsigned number. -/
def Png.index (d : State) (x y left top row_idx tmp_idx : ℤ) : ℤ :=
  u32 ((y + row_idx - top) * d.lcd_width + (x + tmp_idx - left))

/-- `put_png_file_buff` for a file that libpng reads; without `row_buf` it draws nothing. -/
def put_png_file_buff (d : State) (p : Png) (x y transcolor left top right bottom : ℤ)
    (f : Frame) : Frame × Ret :=
  if right < left ∨ bottom < top then (f, .PLATFORM_ERR)
  else if p.channel ≠ 3 ∧ p.channel ≠ 4 then (f, .PLATFORM_ERR)
  else
    let whole := Bmp.whole left top right bottom
    let right := if whole then p.width - 1 else right
    let bottom := if whole then p.height - 1 else bottom
    (((upto 0 p.height).takeWhile fun row_idx => row_idx ≤ bottom).foldl (fun f row_idx =>
      if row_idx < top then f
      else (upto left (right + 1)).foldl (fun f tmp_idx =>
        if opaqueFor transcolor (p.rgb16 row_idx tmp_idx) then
          f.poke16 (Png.index d x y left top row_idx tmp_idx) (p.rgb16 row_idx tmp_idx)
        else f) f) f, .PLATFORM_OK)

/-- What `platform_disp_putimage` finds under the name. -/
inductive Image
  | bmp (p : Bmp)
  | png (p : Png)
  /-- No file, no memory for it, or no name of an image. -/
  | none

def platform_disp_putimage (d : State) (file : Image) (x y transcolor left top right bottom : ℤ)
    (f : Frame) : Frame × Ret :=
  match file with
  | .bmp p => put_bmp_file_buff d p x y transcolor left top right bottom f
  | .png p => put_png_file_buff d p x y transcolor left top right bottom f
  | .none => (f, .PLATFORM_ERR)

/-- `disp_putimage` -/
def disp_putimage (file : Image) (x y transcolor left top right bottom : ℤ) (d : State) : State :=
  { d with
    frame := (platform_disp_putimage d file (u16 x) (u16 y) transcolor (u16 left) (u16 top)
      (u16 right) (u16 bottom) d.frame).1 }

/-! ## Rectangles -/

/-- The frame of a rectangle, from row `y1` on. -/
def drawFrame (d : State) (x1 y1 x2 y2 : ℤ) (f : Frame) : Frame :=
  let color := BitVec.ofInt 16 d.disp_color
  let pixels := (y2 - y1) * d.lcd_width
  let buf16 := y1 * d.lcd_width
  let f := (upto x1 (x2 + 1)).foldl
    (fun f i => (f.poke16 (buf16 + i) color).poke16 (buf16 + (pixels + i)) color) f
  (upto y1 (y2 + 1)).foldl (fun f j =>
    let buf16 := buf16 + (j - y1) * d.lcd_width
    (f.poke16 (buf16 + x1) color).poke16 (buf16 + x2) color) f

def fillRect16 (d : State) (x1 y1 x2 y2 color : ℤ) (f : Frame) : Frame :=
  (upto y1 (y2 + 1)).foldl (fun f j =>
    (upto x1 (x2 + 1)).foldl (fun f i =>
      f.poke16 (y1 * d.lcd_width + (j - y1) * d.lcd_width + i) (BitVec.ofInt 16 color)) f) f

/-- The counters are `u16` here, and the bounds are left out. -/
def fillRect1 (d : State) (x1 y1 x2 y2 color : ℤ) (f : Frame) : Frame :=
  (upto (u16 x1) x2).foldl (fun f x =>
    (upto (u16 y1) y2).foldl (fun f y =>
      let page := y / 8
      f.setBit (color = d.lcd_hwfillcolor) (page * d.lcd_width + x) (y % 8)) f) f

def platform_disp_drawrect (d : State) (x1 y1 x2 y2 color : ℤ) (f : Frame) : Frame × Ret :=
  let x1 := min x1 (d.lcd_width - 1)
  let x2 := min x2 (d.lcd_width - 1)
  let y1 := min y1 (d.lcd_height - 1)
  let y2 := min y2 (d.lcd_height - 1)
  if x2 ≤ x1 ∨ y2 ≤ y1 then (f, .PLATFORM_ERR)
  else if d.lcd_bpp = 16 then
    if color = -1 then (drawFrame d x1 y1 x2 y2 f, .PLATFORM_OK)
    else (fillRect16 d x1 y1 x2 y2 color f, .PLATFORM_OK)
  else if d.lcd_bpp = 1 then
    if color = COLOR_BLACK ∨ color = COLOR_WHITE then
      (fillRect1 d x1 y1 x2 y2 color f, .PLATFORM_OK)
    else (f, .PLATFORM_OK)
  else (f, .PLATFORM_ERR)

/-- `disp_drawrect` -/
def disp_drawrect (x1 y1 x2 y2 color : ℤ) (d : State) : State :=
  { d with frame := (platform_disp_drawrect d x1 y1 x2 y2 color d.frame).1 }

end LuatAir200.Disp
