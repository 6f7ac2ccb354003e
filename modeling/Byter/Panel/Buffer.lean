import Mathlib.Algebra.Order.Ring.Int
import Byter.Sketch.Display
import Byter.Raster.Pages

/-!
# The pixel buffer of the display

`Panel` is the fixed part of an `Adafruit_SSD1306` object and `Buffer` its pixel
buffer. The functions follow the source: coordinates are `int16_t`, and an access
through a pointer outside of the buffer has no result. `drawFastHLine` and
`drawFastVLine` replace the loops of `Adafruit_GFX`; the vertical one goes through
the buffer a byte, and so eight rows, at a time.
-/

namespace Byter

open Raster

def SSD1306_BLACK : UInt16 := 0

def SSD1306_WHITE : UInt16 := 1

def SSD1306_INVERSE : UInt16 := 2

/-- The constructors take the width and the height as `uint8_t`, and `setRotation` keeps
two bits. -/
structure Panel where
  WIDTH : ℕ
  HEIGHT : ℕ
  rotation : Fin 4
  width_lt : WIDTH < 256
  height_lt : HEIGHT < 256

namespace Panel

variable (p : Panel)

/-- The pixels of the panel, as the buffer has them. -/
def screen : Picture := box 0 0 p.WIDTH p.HEIGHT

/-- The rows of the buffer, in bytes. -/
def pages : ℕ := (p.HEIGHT + 7) / 8

/-- `width()`, which follows the rotation. -/
def width : ℤ := if p.rotation = 1 ∨ p.rotation = 3 then p.HEIGHT else p.WIDTH

def height : ℤ := if p.rotation = 1 ∨ p.rotation = 3 then p.WIDTH else p.HEIGHT

/-- Where `drawPixel` and `getPixel` find the pixel `(x, y)`. -/
def raw (x y : ℤ) : ℤ × ℤ :=
  match p.rotation with
  | 0 => (x, y)
  | 1 => (p.WIDTH - y - 1, x)
  | 2 => (p.WIDTH - x - 1, p.HEIGHT - y - 1)
  | 3 => (y, p.HEIGHT - x - 1)

end Panel

/-- The display of the sketch. -/
def oled : Panel := ⟨128, 32, 0, by decide, by decide⟩

/-- The bytes that `begin` has allocated. -/
abbrev Buffer (p : Panel) := Pages p.WIDTH p.pages

variable {p : Panel}

/-! ## Single accesses -/

/-- The byte that a pointer into the buffer reads. -/
def readByte (buffer : Buffer p) (i : ℤ) : Option (BitVec 8) :=
  if h : 0 ≤ i ∧ i < (p.WIDTH * p.pages : ℕ) then some (buffer.get ⟨i.toNat, by omega⟩) else none

/-- A byte is changed through a pointer into the buffer. -/
def update (buffer : Buffer p) (i : ℤ) (f : BitVec 8 → BitVec 8) : Option (Buffer p) :=
  if h : 0 ≤ i ∧ i < (p.WIDTH * p.pages : ℕ) then
    some (buffer.set i.toNat (f (buffer.get ⟨i.toNat, by omega⟩)) (by omega))
  else
    none

/-- The `switch (color)` that applies a mask. -/
def blend (color : UInt16) (mask byte : BitVec 8) : BitVec 8 :=
  if color = SSD1306_WHITE then byte ||| mask
  else if color = SSD1306_BLACK then byte &&& ~~~mask
  else if color = SSD1306_INVERSE then byte ^^^ mask
  else byte

def clearDisplay (p : Panel) : Buffer p := Vector.replicate _ 0

def drawPixel (x y : ℤ) (color : UInt16) (buffer : Buffer p) : Option (Buffer p) :=
  if 0 ≤ x ∧ x < p.width ∧ 0 ≤ y ∧ y < p.height then
    let (x, y) := p.raw x y
    update buffer (x + y / 8 * p.WIDTH) (blend color ((1 : BitVec 8) <<< (y % 8).toNat))
  else
    some buffer

def getPixel (x y : ℤ) (buffer : Buffer p) : Option Bool :=
  if 0 ≤ x ∧ x < p.width ∧ 0 ≤ y ∧ y < p.height then
    let (x, y) := p.raw x y
    (readByte buffer (x + y / 8 * p.WIDTH)).map fun byte => byte &&& ((1 : BitVec 8) <<< (y % 8).toNat) != 0
  else
    some false

/-! ## Lines -/

/-- How a line that begins at `x` is cut to the `size` of its row or column. -/
def clip (x w : ℤ) (size : ℕ) : ℤ × ℤ :=
  let w := if x < 0 then int16 (w + x) else w
  let x := if x < 0 then 0 else x
  let w := if x + w > size then int16 (size - x) else w
  (x, w)

/-- `while (w--)`, with the pointer advanced by one byte. -/
def hLoop (color : UInt16) (mask : BitVec 8) : ℕ → ℤ → Buffer p → Option (Buffer p)
  | 0, _, buffer => some buffer
  | w + 1, pBuf, buffer => do
      let buffer ← update buffer pBuf (blend color mask)
      hLoop color mask w (pBuf + 1) buffer

def drawFastHLineInternal (x y w : ℤ) (color : UInt16) (buffer : Buffer p) :
    Option (Buffer p) :=
  if 0 ≤ y ∧ y < p.HEIGHT then
    let (x, w) := clip x w p.WIDTH
    if w > 0 then
      hLoop color ((1 : BitVec 8) <<< (y % 8).toNat) w.toNat (y / 8 * p.WIDTH + x) buffer
    else
      some buffer
  else
    some buffer

def premask : ℕ → BitVec 8
  | 0 => 0x00
  | 1 => 0x80
  | 2 => 0xC0
  | 3 => 0xE0
  | 4 => 0xF0
  | 5 => 0xF8
  | 6 => 0xFC
  | _ => 0xFE

def postmask : ℕ → BitVec 8
  | 0 => 0x00
  | 1 => 0x01
  | 2 => 0x03
  | 3 => 0x07
  | 4 => 0x0F
  | 5 => 0x1F
  | 6 => 0x3F
  | _ => 0x7F

/-- The solid bytes of a vertical line. White and black are written, not applied. -/
def solid (color : UInt16) (byte : BitVec 8) : BitVec 8 :=
  if color = SSD1306_INVERSE then byte ^^^ 0xFF
  else if color ≠ SSD1306_BLACK then 255
  else 0

/-- The loop that goes on while `h >= 8`, with the height and the pointer it leaves. -/
def vLoop (color : UInt16) : ℕ → ℤ → Buffer p → Option (ℕ × ℤ × Buffer p)
  | h + 8, pBuf, buffer => do
      let buffer ← update buffer pBuf (solid color)
      vLoop color h (pBuf + p.WIDTH) buffer
  | h, pBuf, buffer => some (h, pBuf, buffer)

/-- The part of `drawFastVLineInternal` behind the clipping. Its `y` and `h` are bytes. -/
def vBytes (x : ℤ) (y h : ℕ) (color : UInt16) (buffer : Buffer p) : Option (Buffer p) := do
  let pBuf : ℤ := (y / 8 : ℕ) * p.WIDTH + x
  let mod := if y % 8 ≠ 0 then 8 - y % 8 else 0
  -- the first partial byte, if the line does not begin on a page
  let buffer ←
    if mod ≠ 0 then
      let mask := premask mod
      let mask := if h < mod then mask &&& ((0xFF : BitVec 8) >>> (mod - h)) else mask
      update buffer pBuf (blend color mask)
    else
      some buffer
  let pBuf := if mod ≠ 0 then pBuf + p.WIDTH else pBuf
  if mod ≤ h then
    let (h, pBuf, buffer) ← vLoop color (h - mod) pBuf buffer
    -- the final partial byte, if the line does not end with a page
    if h ≠ 0 then
      update buffer pBuf (blend color (postmask (h % 8)))
    else
      some buffer
  else
    some buffer

def drawFastVLineInternal (x y h : ℤ) (color : UInt16) (buffer : Buffer p) :
    Option (Buffer p) :=
  if 0 ≤ x ∧ x < p.WIDTH then
    let (y, h) := clip y h p.HEIGHT
    if h > 0 then
      vBytes x (y.toNat % 256) (h.toNat % 256) color buffer
    else
      some buffer
  else
    some buffer

def drawFastHLine (x y w : ℤ) (color : UInt16) (buffer : Buffer p) : Option (Buffer p) :=
  match p.rotation with
  | 0 => drawFastHLineInternal x y w color buffer
  | 1 => drawFastVLineInternal (int16 (p.WIDTH - y - 1)) x w color buffer
  | 2 =>
      let x := int16 (p.WIDTH - x - 1)
      let y := int16 (p.HEIGHT - y - 1)
      drawFastHLineInternal (int16 (x - (w - 1))) y w color buffer
  | 3 =>
      let y' := int16 (p.HEIGHT - x - 1)
      drawFastVLineInternal y (int16 (y' - (w - 1))) w color buffer

def drawFastVLine (x y h : ℤ) (color : UInt16) (buffer : Buffer p) : Option (Buffer p) :=
  match p.rotation with
  | 0 => drawFastVLineInternal x y h color buffer
  | 1 =>
      let x' := int16 (p.WIDTH - y - 1)
      drawFastHLineInternal (int16 (x' - (h - 1))) x h color buffer
  | 2 =>
      let x := int16 (p.WIDTH - x - 1)
      let y := int16 (p.HEIGHT - y - 1)
      drawFastVLineInternal x (int16 (y - (h - 1))) h color buffer
  | 3 => drawFastHLineInternal y (int16 (p.HEIGHT - x - 1)) h color buffer

/-! ## The lines of `Adafruit_GFX` -/

/-- The `for` loop of `writeLine`. It goes on forever when `x1` is the greatest `int16_t`;
a loop that has not ended when its fuel is used up has no result. -/
def writeLineLoop (steep : Bool) (dx dy ystep x1 : ℤ) (color : UInt16) :
    ℕ → ℤ → ℤ → ℤ → Buffer p → Option (Buffer p)
  | 0, _, _, _, _ => none
  | fuel + 1, x0, y0, err, buffer =>
      if x0 ≤ x1 then do
        let buffer ← if steep then drawPixel y0 x0 color buffer else drawPixel x0 y0 color buffer
        let err := int16 (err - dy)
        if err < 0 then
          writeLineLoop steep dx dy ystep x1 color fuel (int16 (x0 + 1)) (int16 (y0 + ystep))
            (int16 (err + dx)) buffer
        else
          writeLineLoop steep dx dy ystep x1 color fuel (int16 (x0 + 1)) y0 err buffer
      else
        some buffer

/-- `Adafruit_GFX::writeLine`. -/
def writeLine (x0 y0 x1 y1 : ℤ) (color : UInt16) (buffer : Buffer p) : Option (Buffer p) :=
  let steep := |y1 - y0| > |x1 - x0|
  let (x0, y0, x1, y1) := if steep then (y0, x0, y1, x1) else (x0, y0, x1, y1)
  let (x0, y0, x1, y1) := if x0 > x1 then (x1, y1, x0, y0) else (x0, y0, x1, y1)
  let dx := int16 (x1 - x0)
  let dy := int16 |y1 - y0|
  let err := dx.tdiv 2
  let ystep := if y0 < y1 then 1 else -1
  writeLineLoop steep dx dy ystep x1 color 65537 x0 y0 err buffer

/-- `Adafruit_GFX::drawFastVLine`, which `drawFastVLine` overrides. -/
def gfxDrawFastVLine (x y h : ℤ) (color : UInt16) (buffer : Buffer p) : Option (Buffer p) :=
  writeLine x y x (int16 (y + h - 1)) color buffer

/-- `Adafruit_GFX::drawFastHLine`. -/
def gfxDrawFastHLine (x y w : ℤ) (color : UInt16) (buffer : Buffer p) : Option (Buffer p) :=
  writeLine x y (int16 (x + w - 1)) y color buffer

end Byter
