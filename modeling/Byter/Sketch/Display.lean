import Mathlib.Data.Int.Notation
import Mathlib.Data.Nat.Notation
import Mathlib.Tactic.TypeStar

/-!
# The text side of the display

`Gfx` is the part of the `Adafruit_GFX` object that printing text reads and
writes: the cursor and the text size, with the classic font and the default
wrapping. What is drawn is kept as the list of glyphs since the last
`clearDisplay`, and `display` copies it to the panel. The colour is always
`WHITE` and is left out.
-/

namespace Byter

/-- `SCREEN_WIDTH`. -/
def screenWidth : Int := 128

/-- The value of an `int` stored in an `int16_t`. -/
def int16 (x : Int) : Int := x.bmod 65536

/-- A character as `drawChar` gets it. -/
structure Glyph where
  x : Int
  y : Int
  c : Char
  size : Int
deriving DecidableEq, Repr

/-- The text state of the display, its buffer and what the panel shows. -/
structure Gfx where
  cursorX : Int := 0
  cursorY : Int := 0
  textsize : Int := 1
  buffer : List Glyph := []
  panel : List Glyph := []
deriving DecidableEq, Repr

theorem toList_toString (n : ℕ) : (toString n).toList = Nat.toDigits 10 n := by
  rw [Nat.toString_eq_repr, Nat.repr_eq_ofList_toDigits, String.toList_ofList]

/-- A number is known from its digits. -/
theorem toString_injective {m n : ℕ} (h : toString m = toString n) : m = n := by
  have hdigits : Nat.toDigits 10 m = Nat.toDigits 10 n := by
    rw [← toList_toString, ← toList_toString, h]
  rw [← Nat.ofDigitChars_ten_toDigits (n := m), hdigits, Nat.ofDigitChars_ten_toDigits]

namespace Gfx

/-- The buffer is cleared; the cursor stays where it is. -/
def clearDisplay (g : Gfx) : Gfx := { g with buffer := [] }

def setCursor (g : Gfx) (x y : Int) : Gfx := { g with cursorX := x, cursorY := y }

def setTextSize (g : Gfx) (s : Int) : Gfx := { g with textsize := if s > 0 then s else 1 }

/-- The cursor at the start of the next line. -/
def newline (g : Gfx) : Gfx :=
  { g with cursorX := 0, cursorY := int16 (g.cursorY + g.textsize * 8) }

/-- `Adafruit_GFX::write` with the classic font. -/
def write (g : Gfx) (c : Char) : Gfx :=
  if c = '\n' then
    g.newline
  else if c ≠ '\r' then
    let g := if g.cursorX + g.textsize * 6 > screenWidth then g.newline else g
    { g with
      buffer := g.buffer ++ [⟨g.cursorX, g.cursorY, c, g.textsize⟩]
      cursorX := int16 (g.cursorX + g.textsize * 6) }
  else
    g

def print (g : Gfx) (text : String) : Gfx := text.toList.foldl write g

def println (g : Gfx) (text : String) : Gfx := (g.print text).print "\r\n"

/-- `display()` sends the buffer to the panel. -/
def display (g : Gfx) : Gfx := { g with panel := g.buffer }

/-! ## The characters that are drawn -/

/-- Whether a character leaves a glyph. -/
def leavesGlyph (c : Char) : Bool := c ≠ '\n' && c ≠ '\r'

/-- The characters of the glyphs in the buffer. -/
def bufferText (g : Gfx) : List Char := g.buffer.map Glyph.c

/-- The characters that the panel shows. -/
def panelText (g : Gfx) : List Char := g.panel.map Glyph.c

section Text

variable (g : Gfx) (text : String)

@[simp] theorem bufferText_clearDisplay : g.clearDisplay.bufferText = [] := rfl

@[simp] theorem bufferText_setCursor (x y : Int) :
    (g.setCursor x y).bufferText = g.bufferText := rfl

@[simp] theorem bufferText_setTextSize (n : Int) :
    (g.setTextSize n).bufferText = g.bufferText := rfl

@[simp] theorem panelText_display : g.display.panelText = g.bufferText := rfl

theorem bufferText_write (c : Char) :
    (g.write c).bufferText = g.bufferText ++ [c].filter leavesGlyph := by
  by_cases hnewline : c = '\n'
  · simp [write, bufferText, newline, leavesGlyph, hnewline]
  · by_cases hreturn : c = '\r'
    · simp [write, leavesGlyph, hreturn]
    · by_cases hwrap : g.cursorX + g.textsize * 6 > screenWidth
      · simp [write, bufferText, newline, leavesGlyph, hnewline, hreturn, hwrap]
      · simp [write, bufferText, leavesGlyph, hnewline, hreturn, hwrap]

theorem bufferText_foldl_write (cs : List Char) :
    (cs.foldl write g).bufferText = g.bufferText ++ cs.filter leavesGlyph := by
  induction cs generalizing g with
  | nil => simp
  | cons c cs ih =>
      rw [List.foldl_cons, ih, bufferText_write, List.append_assoc, ← List.filter_append,
        List.singleton_append]

/-- Printing draws the characters of a text behind what has been drawn. -/
theorem bufferText_print :
    (g.print text).bufferText = g.bufferText ++ text.toList.filter leavesGlyph :=
  bufferText_foldl_write g _

@[simp] theorem bufferText_println :
    (g.println text).bufferText = g.bufferText ++ text.toList.filter leavesGlyph := by
  rw [println, bufferText_print, bufferText_print]
  exact List.append_nil _

theorem textsize_write (c : Char) : (g.write c).textsize = g.textsize := by
  unfold write
  dsimp only
  split
  · rfl
  · split
    · split <;> rfl
    · rfl

theorem textsize_print : (g.print text).textsize = g.textsize := by
  rw [print]
  induction text.toList generalizing g with
  | nil => rfl
  | cons c cs ih => rw [List.foldl_cons, ih, textsize_write]

@[simp] theorem textsize_println : (g.println text).textsize = g.textsize := by
  rw [println, textsize_print, textsize_print]

end Text

end Gfx

end Byter
