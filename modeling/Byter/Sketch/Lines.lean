import Mathlib.Tactic.Ring
import Byter.Sketch.Screen
import Byter.Text.Basic

/-!
# Lines on the screen

The drawing functions of the sketch are sequences of `setCursor`, `setTextSize` and
`println`. A line is a text with the cursor and the text size that `println` finds.
A line that fits its row leaves its glyphs side by side on that row, and the cursor
at the start of the row below it. Rows are counted without a bound here; the cursor
has them as an `int16_t`.
-/

namespace Byter

open Text

/-- `SCREEN_HEIGHT`. -/
def screenHeight : Int := 32

theorem int16_add (x y : Int) : int16 (int16 x + y) = int16 (x + y) := Int.bmod_add_bmod

theorem int16_of_small {x : Int} (hlow : -32768 ≤ x) (hhigh : x < 32768) : int16 x = x := by
  apply Int.bmod_eq_of_le_mul_two <;> omega

/-! ## Lines -/

/-- A text to be printed, with the place where it begins and the size of its characters. -/
structure Line where
  x : Int
  y : Int
  size : Int
  text : String
deriving DecidableEq, Repr

/-- What `write` does with a character, unless it is a newline in disguise. -/
def kindOf (c : Char) : Kind :=
  if c = '\n' then .newline else if c = '\r' then .ignored else .printed

theorem kindOf_of_leavesGlyph {c : Char} (hc : Gfx.leavesGlyph c = true) :
    kindOf c = .printed := by
  obtain ⟨hnewline, hreturn⟩ : c ≠ '\n' ∧ c ≠ '\r' := by simpa [Gfx.leavesGlyph] using hc
  rw [kindOf, if_neg hnewline, if_neg hreturn]

theorem plain_of_all {text : String} (h : text.toList.all Gfx.leavesGlyph = true) :
    ∀ c ∈ text.toList, kindOf c = .printed :=
  fun c hc => kindOf_of_leavesGlyph (List.all_eq_true.1 h c hc)

/-- Glyphs side by side, from `x` on. -/
def glyphsFrom (x y size : Int) : List Char → List Glyph
  | [] => []
  | c :: cs => ⟨x, y, c, size⟩ :: glyphsFrom (x + 6 * size) y size cs

namespace Line

/-- All its characters are printed, and on its first row. -/
structure Fits (l : Line) : Prop where
  plain : ∀ c ∈ l.text.toList, kindOf c = .printed
  left : 0 ≤ l.x
  size : 0 < l.size
  right : l.x + 6 * l.size * l.text.length ≤ screenWidth

/-- The line begins on a row of the screen that has room for the seven pixels of its
characters, and fits that row. -/
def OnScreen (l : Line) : Prop :=
  0 ≤ l.y ∧ l.y + 7 * l.size ≤ screenHeight ∧
    0 ≤ l.x ∧ l.x + 6 * l.size * l.text.length ≤ screenWidth

instance (l : Line) : Decidable l.OnScreen := inferInstanceAs (Decidable (_ ∧ _ ∧ _ ∧ _))

def glyphs (l : Line) : List Glyph := glyphsFrom l.x l.y l.size l.text.toList

/-- For a line that fits its row, being on the screen is a matter of the row. -/
theorem Fits.onScreen_iff {l : Line} (h : l.Fits) :
    l.OnScreen ↔ 0 ≤ l.y ∧ l.y + 7 * l.size ≤ 32 := by
  constructor
  · exact fun hl => ⟨hl.1, hl.2.1⟩
  · exact fun hl => ⟨hl.1, hl.2, h.left, h.right⟩

theorem fits_mk {x size : Int} {text : String} (hplain : ∀ c ∈ text.toList, kindOf c = .printed)
    (hx : 0 ≤ x) (hsize : 0 < size) (hright : x + 6 * size * text.length ≤ screenWidth) (y : Int) :
    Fits ⟨x, y, size, text⟩ :=
  ⟨hplain, hx, hsize, hright⟩

/-- A number of at most `k` digits fits where `k` characters do. -/
theorem number_fits {x size : Int} {n k : ℕ} (hx : 0 ≤ x) (hsize : 0 < size) (hk : 0 < k)
    (hn : n < 10 ^ k) (hroom : x + 6 * size * k ≤ screenWidth) (y : Int) :
    Fits ⟨x, y, size, toString n⟩ := by
  refine fits_mk ?_ hx hsize ?_ y
  · intro c hc
    rw [toList_toString] at hc
    exact kindOf_of_leavesGlyph (leavesGlyph_of_mem_digits hc)
  · have hlength : (toString n).length ≤ k := by
      rw [Nat.toString_eq_repr]
      exact (Nat.length_repr_le_iff hk).2 hn
    have hle : 6 * size * ((toString n).length : Int) ≤ 6 * size * k :=
      Int.mul_le_mul_of_nonneg_left (by exact_mod_cast hlength) (by omega)
    omega

end Line

namespace Gfx

/-- The line that `println(text)` prints. -/
def line (g : Gfx) (text : String) : Line := ⟨g.cursorX, g.cursorY, g.textsize, text⟩

/-! ## A line that fits -/

/-- A printed character goes to the cursor, or to the next row if there is no room. -/
theorem write_of_printed {c : Char} (hc : kindOf c = .printed) (g : Gfx) :
    g.write c =
      let g := if g.cursorX + g.textsize * 6 > screenWidth then g.newline else g
      { g with
        buffer := g.buffer ++ [⟨g.cursorX, g.cursorY, c, g.textsize⟩]
        cursorX := int16 (g.cursorX + g.textsize * 6) } := by
  have hnewline : c ≠ '\n' := by
    rintro rfl
    simp [kindOf] at hc
  have hreturn : c ≠ '\r' := by
    rintro rfl
    simp [kindOf] at hc
  rw [write, if_neg hnewline, if_pos hreturn]

theorem write_of_fits {g : Gfx} {c : Char} (hc : kindOf c = .printed) (hx : 0 ≤ g.cursorX)
    (hsize : 0 < g.textsize) (hfits : g.cursorX + 6 * g.textsize ≤ screenWidth) :
    g.write c =
      { g with
        cursorX := g.cursorX + 6 * g.textsize
        buffer := g.buffer ++ [⟨g.cursorX, g.cursorY, c, g.textsize⟩] } := by
  rw [screenWidth] at hfits
  have hwrap : ¬ g.cursorX + g.textsize * 6 > screenWidth := by rw [screenWidth]; omega
  have hsmall : int16 (g.cursorX + g.textsize * 6) = g.cursorX + 6 * g.textsize := by
    rw [int16_of_small] <;> omega
  rw [write_of_printed hc, if_neg hwrap]
  dsimp only
  rw [hsmall]

theorem foldl_write_of_fits {cs : List Char} {g : Gfx} (hcs : ∀ c ∈ cs, kindOf c = .printed)
    (hx : 0 ≤ g.cursorX) (hsize : 0 < g.textsize)
    (hfits : g.cursorX + 6 * g.textsize * cs.length ≤ screenWidth) :
    cs.foldl write g =
      { g with
        cursorX := g.cursorX + 6 * g.textsize * cs.length
        buffer := g.buffer ++ glyphsFrom g.cursorX g.cursorY g.textsize cs } := by
  induction cs generalizing g with
  | nil => simp [glyphsFrom]
  | cons c cs ih =>
      have hlength : g.cursorX + 6 * g.textsize * ((c :: cs).length : Int) =
          g.cursorX + 6 * g.textsize + 6 * g.textsize * cs.length := by
        rw [List.length_cons]
        push_cast
        ring
      rw [hlength] at hfits ⊢
      have hrest : 0 ≤ 6 * g.textsize * (cs.length : Int) := Int.mul_nonneg (by omega) (by omega)
      rw [List.foldl_cons, write_of_fits (hcs c List.mem_cons_self) hx hsize (by omega), ih]
      · simp [glyphsFrom]
      · exact fun c hc => hcs c (List.mem_cons_of_mem _ hc)
      · change 0 ≤ g.cursorX + 6 * g.textsize
        omega
      · exact hsize
      · exact hfits

/-- A line that fits is printed as it stands, and the cursor goes to the start of the
row below it. -/
theorem println_of_fits {g : Gfx} {text : String} (h : (g.line text).Fits) :
    g.println text =
      { g with
        cursorX := 0
        cursorY := int16 (g.cursorY + 8 * g.textsize)
        buffer := g.buffer ++ (g.line text).glyphs } := by
  have hprint := foldl_write_of_fits h.plain h.left h.size
    (by simpa [line, String.length_toList] using h.right)
  rw [println, print, print]
  simp only [line] at hprint
  rw [hprint]
  simp [line, Line.glyphs, write, newline, Int.mul_comm]

/-! ## Any text, from the start of a row -/

/-- How many columns a row has for characters of a size. -/
def columns (size : ℕ) : ℕ := 128 / (6 * size)

/-- The cursor stands at `p`, on rows that begin at `y` and are as high as the text. -/
structure At (g : Gfx) (size : ℕ) (y : Int) (p : Position) : Prop where
  textsize : g.textsize = size
  cursorX : g.cursorX = 6 * size * p.column
  cursorY : g.cursorY = int16 (y + 8 * size * p.row)
  column : p.column ≤ columns size

theorem lt_columns_iff {size c : ℕ} (hpos : 0 < size) :
    c < columns size ↔ 6 * size * (c + 1) ≤ 128 := by
  rw [columns, ← Nat.succ_le_iff, Nat.le_div_iff_mul_le (by omega), Nat.mul_comm]

theorem At.write {g : Gfx} {size : ℕ} {y : Int} {p : Position} (h : g.At size y p)
    (hpos : 0 < size) (hsize : 6 * size ≤ 128) (c : Char) :
    (g.write c).At size y (advance (columns size) p (kindOf c)) := by
  have hrow : ∀ r : ℕ, int16 (int16 (y + 8 * size * r) + size * 8) =
      int16 (y + 8 * size * (r + 1 : ℕ)) := by
    intro r
    rw [int16_add]
    congr 1
    push_cast
    ring
  by_cases hnewline : c = '\n'
  · have hwrite : g.write c = g.newline := by simp [Gfx.write, hnewline]
    have hkind : kindOf c = .newline := by simp [kindOf, hnewline]
    rw [hwrite, hkind, advance]
    exact ⟨h.textsize, by simp [newline], by simp [newline, h.textsize, h.cursorY, hrow],
      Nat.zero_le _⟩
  · by_cases hreturn : c = '\r'
    · have hwrite : g.write c = g := by simp [Gfx.write, hreturn]
      have hkind : kindOf c = .ignored := by simp [kindOf, hreturn]
      rw [hwrite, hkind, advance]
      exact h
    · have hkind : kindOf c = .printed := by simp [kindOf, hnewline, hreturn]
      have hx : g.cursorX + g.textsize * 6 = (6 * size * (p.column + 1) : ℕ) := by
        rw [h.cursorX, h.textsize]
        push_cast
        ring
      rw [hkind, advance]
      by_cases hfits : p.column < columns size
      · have hle := (lt_columns_iff hpos).1 hfits
        have hwrap : ¬ g.cursorX + g.textsize * 6 > screenWidth := by
          rw [hx, screenWidth]
          omega
        rw [if_pos hfits, write_of_printed hkind, if_neg hwrap]
        refine ⟨h.textsize, ?_, h.cursorY, hfits⟩
        change int16 (g.cursorX + g.textsize * 6) = _
        rw [hx, int16_of_small (by omega) (by omega)]
        push_cast
        ring
      · have hgt : ¬ 6 * size * (p.column + 1) ≤ 128 := mt (lt_columns_iff hpos).2 hfits
        have hwrap : g.cursorX + g.textsize * 6 > screenWidth := by
          rw [hx, screenWidth]
          omega
        rw [if_neg hfits, write_of_printed hkind, if_pos hwrap]
        refine ⟨h.textsize, ?_, ?_, Nat.div_pos hsize (by omega)⟩
        · change int16 (0 + g.textsize * 6) = _
          rw [h.textsize, int16_of_small (by omega) (by omega)]
          push_cast
          ring
        · change int16 (g.cursorY + g.textsize * 8) = _
          rw [h.textsize, h.cursorY, hrow]

theorem At.print {g : Gfx} {size : ℕ} {y : Int} {p : Position} (h : g.At size y p)
    (hpos : 0 < size) (hsize : 6 * size ≤ 128) (text : String) :
    (g.print text).At size y (place (columns size) p (text.toList.map kindOf)) := by
  rw [Gfx.print]
  generalize text.toList = cs
  induction cs generalizing g p with
  | nil => exact h
  | cons c cs ih => exact ih (h.write hpos hsize c)

/-- Printing a line from the start of a row leaves the cursor at the start of a row: the
next one, and one further down for each break of the text. -/
theorem At.println {g : Gfx} {size : ℕ} {y : Int} (h : g.At size y ⟨0, 0⟩) (hpos : 0 < size)
    (hsize : 6 * size ≤ 128) (text : String) :
    (g.println text).At size
      (y + 8 * size * (breaks (columns size) (text.toList.map kindOf) + 1 : ℕ)) ⟨0, 0⟩ := by
  have hend : ∀ p, place (columns size) p ("\r\n".toList.map kindOf) = ⟨0, p.row + 1⟩ :=
    fun p => rfl
  have hprint := (h.print hpos hsize text).print hpos hsize "\r\n"
  rw [hend] at hprint
  refine ⟨hprint.textsize, by rw [Gfx.println, hprint.cursorX], ?_, Nat.zero_le _⟩
  rw [Gfx.println, hprint.cursorY, breaks]
  simp

theorem At.println_of_fits {g : Gfx} {size : ℕ} {y : Int} {p : Position} (h : g.At size y p)
    (hp : p.row = 0) {text : String} (htext : (g.line text).Fits) :
    (g.println text).At size (y + 8 * size) ⟨0, 0⟩ := by
  rw [Gfx.println_of_fits htext]
  refine ⟨h.textsize, by simp, ?_, Nat.zero_le _⟩
  simp [h.textsize, h.cursorY, hp, int16_add]

end Gfx

/-! ## Drawing functions as sequences -/

/-- What a drawing function calls between `clearDisplay` and `display`. -/
inductive DrawOp
  | setCursor (x y : Int)
  | setTextSize (s : Int)
  | println (text : String)
deriving DecidableEq, Repr

namespace DrawOp

def run (g : Gfx) : DrawOp → Gfx
  | setCursor x y => g.setCursor x y
  | setTextSize s => g.setTextSize s
  | println text => g.println text

/-- The lines that are printed. -/
def lines (g : Gfx) : List DrawOp → List Line
  | [] => []
  | println text :: ops => g.line text :: lines (g.println text) ops
  | op :: ops => lines (op.run g) ops

theorem buffer_run {g : Gfx} {ops : List DrawOp} (h : ∀ l ∈ lines g ops, l.Fits) :
    (ops.foldl run g).buffer = g.buffer ++ (lines g ops).flatMap Line.glyphs := by
  induction ops generalizing g with
  | nil => simp [lines]
  | cons op ops ih =>
      cases op with
      | setCursor x y => exact ih h
      | setTextSize s => exact ih h
      | println text =>
          rw [lines] at h ⊢
          rw [List.foldl_cons, run, ih fun l hl => h l (List.mem_cons_of_mem _ hl),
            Gfx.println_of_fits (h _ List.mem_cons_self), List.flatMap_cons, List.append_assoc]

end DrawOp

/-- The body of `displayNum`. -/
def displayNumOps (n : UInt32) (isCloseToMax : Bool) : List DrawOp :=
  if n ≤ 99999 then
    [.setCursor 0 2, .setTextSize 4, .println (toString n.toNat)]
  else if n ≤ 9999999 then
    [.setCursor 0 5, .setTextSize 3, .println (toString n.toNat)]
  else if n < maxCnt then
    if isCloseToMax then
      [.setCursor 0 9, .setTextSize 1, .println "CloseToMAX..", .println (toString n.toNat)]
    else
      [.setCursor 0 9, .setTextSize 2, .println (toString n.toNat)]
  else
    [.setTextSize 1, .println "Overflowing", .println (toString maxCnt.toNat)]

theorem displayNum_gfx {ε : Type*} (n : UInt32) (m : Mem ε) :
    (displayNum n m).gfx =
      ((displayNumOps n m.isCloseToMax).foldl DrawOp.run m.gfx.clearDisplay).display := by
  unfold displayNum displayNumOps
  dsimp only
  split_ifs <;> rfl

/-- The lines that `displayNum` prints, when it finds the display as `g`. -/
def displayNumLines (n : UInt32) (isCloseToMax : Bool) (g : Gfx) : List Line :=
  DrawOp.lines g.clearDisplay (displayNumOps n isCloseToMax)

theorem closeToMax_fits (y : Int) : Line.Fits ⟨0, y, 1, "CloseToMAX.."⟩ :=
  Line.fits_mk (plain_of_all (by decide)) (by decide) (by decide) (by decide) y

theorem overflowing_fits (y : Int) : Line.Fits ⟨0, y, 1, "Overflowing"⟩ :=
  Line.fits_mk (plain_of_all (by decide)) (by decide) (by decide) (by decide) y

/-- In the last branch the rows are those of the cursor. -/
theorem displayNumLines_eq {n : UInt32} {isCloseToMax : Bool} {g : Gfx} (hx : g.cursorX = 0) :
    displayNumLines n isCloseToMax g =
      if n ≤ 99999 then [⟨0, 2, 4, toString n.toNat⟩]
      else if n ≤ 9999999 then [⟨0, 5, 3, toString n.toNat⟩]
      else if n < maxCnt then
        if isCloseToMax then [⟨0, 9, 1, "CloseToMAX.."⟩, ⟨0, 17, 1, toString n.toNat⟩]
        else [⟨0, 9, 2, toString n.toNat⟩]
      else
        [⟨0, g.cursorY, 1, "Overflowing"⟩,
          ⟨0, int16 (g.cursorY + 8), 1, toString maxCnt.toNat⟩] := by
  unfold displayNumLines displayNumOps
  split_ifs
  · rfl
  · rfl
  · have hclose : (((g.clearDisplay.setCursor 0 9).setTextSize 1).line "CloseToMAX..").Fits :=
      closeToMax_fits 9
    simp only [DrawOp.lines, DrawOp.run]
    rw [Gfx.println_of_fits hclose]
    rfl
  · rfl
  · have hline : (g.clearDisplay.setTextSize 1).line "Overflowing" =
        ⟨0, g.cursorY, 1, "Overflowing"⟩ := by
      simp [Gfx.line, Gfx.setTextSize, Gfx.clearDisplay, hx]
    have hover : ((g.clearDisplay.setTextSize 1).line "Overflowing").Fits := by
      rw [hline]
      exact overflowing_fits g.cursorY
    simp only [DrawOp.lines, DrawOp.run]
    rw [Gfx.println_of_fits hover, hline]
    rfl

/-- Whatever `displayNum` prints, no line is broken. -/
theorem displayNumLines_fit {n : UInt32} {isCloseToMax : Bool} {g : Gfx} (hx : g.cursorX = 0)
    {l : Line} (hl : l ∈ displayNumLines n isCloseToMax g) : l.Fits := by
  have hlt := n.toNat_lt
  rw [displayNumLines_eq hx] at hl
  split_ifs at hl with h5 h7 hmax hclose
  · obtain rfl := List.mem_singleton.1 hl
    have hn : n.toNat ≤ 99999 := h5
    exact Line.number_fits (k := 5) (by decide) (by decide) (by decide) (by omega) (by decide) 2
  · obtain rfl := List.mem_singleton.1 hl
    have hn : n.toNat ≤ 9999999 := h7
    exact Line.number_fits (k := 7) (by decide) (by decide) (by decide) (by omega) (by decide) 5
  · rcases List.mem_pair.1 hl with rfl | rfl
    · exact closeToMax_fits 9
    · exact Line.number_fits (k := 10) (by decide) (by decide) (by decide) (by omega) (by decide) 17
  · obtain rfl := List.mem_singleton.1 hl
    exact Line.number_fits (k := 10) (by decide) (by decide) (by decide) (by omega) (by decide) 9
  · rcases List.mem_pair.1 hl with rfl | rfl
    · exact overflowing_fits g.cursorY
    · exact Line.number_fits (k := 10) (by decide) (by decide) (by decide) (by decide) (by decide) _

/-- The panel shows the lines as they are, each on one row. -/
theorem displayNum_panel {ε : Type*} {n : UInt32} {m : Mem ε} (hx : m.gfx.cursorX = 0) :
    (displayNum n m).gfx.panel =
      (displayNumLines n m.isCloseToMax m.gfx).flatMap Line.glyphs := by
  rw [displayNum_gfx]
  exact DrawOp.buffer_run fun l hl => displayNumLines_fit hx hl

/-- The lines are on the screen unless the count is `maxCnt` and the cursor stands too
low, or above the screen. -/
theorem displayNumLines_onScreen_iff {n : UInt32} {isCloseToMax : Bool} {g : Gfx}
    (hx : g.cursorX = 0) :
    (∀ l ∈ displayNumLines n isCloseToMax g, l.OnScreen) ↔
      n ≠ maxCnt ∨ 0 ≤ g.cursorY ∧ g.cursorY ≤ 17 := by
  have hrows : (∀ l ∈ displayNumLines n isCloseToMax g, l.OnScreen) ↔
      ∀ l ∈ displayNumLines n isCloseToMax g, 0 ≤ l.y ∧ l.y + 7 * l.size ≤ 32 :=
    forall₂_congr fun l hl => (displayNumLines_fit hx hl).onScreen_iff
  rw [hrows, displayNumLines_eq hx]
  by_cases hn : n = maxCnt
  · subst hn
    have hsmall : 0 ≤ g.cursorY → g.cursorY ≤ 25 → int16 (g.cursorY + 8) = g.cursorY + 8 :=
      fun hlow hhigh => int16_of_small (by omega) (by omega)
    rw [if_neg (by decide), if_neg (by decide), if_neg (by decide)]
    simp only [List.forall_mem_cons, List.not_mem_nil, false_implies, implies_true, and_true, ne_eq,
      not_true_eq_false, false_or]
    constructor
    · rintro ⟨⟨hlow, hhigh⟩, -, hnext⟩
      rw [hsmall hlow (by omega)] at hnext
      exact ⟨hlow, by omega⟩
    · rintro ⟨hlow, hhigh⟩
      rw [hsmall hlow (by omega)]
      omega
  · refine iff_of_true ?_ (Or.inl hn)
    split_ifs with h5 h7 hmax hclose
    · simp
    · simp
    · simp
    · simp
    · exact absurd (eq_maxCnt_of_not_lt hmax) hn

end Byter
