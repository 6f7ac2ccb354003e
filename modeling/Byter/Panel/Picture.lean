import Byter.Panel.Text
import Byter.System.Ledger
import Byter.System.Visible

/-!
# The glyphs and their pixels

The model of the sketch keeps what it draws as a list of glyphs. Here the same drawing
calls are carried out on the bytes of the buffer. After any sequence of calls the buffer
shows exactly the dots of the glyphs that lie on the screen, and so does what
`display` has sent.
-/

namespace Byter

open Raster Transition

variable {p : Panel}

/-! ## The display object on bytes -/

/-- The fields of the display object that drawing text reads and writes, with the bytes
that `display` has sent last. -/
structure Oled (p : Panel) where
  cursorX : ℤ
  cursorY : ℤ
  textsizeX : UInt8
  textsizeY : UInt8
  textcolor : UInt16
  textbgcolor : UInt16
  wrap : Bool
  buffer : Buffer p
  sent : Buffer p

namespace Oled

/-- The object behind its constructor and `begin`, with whatever `begin` has drawn. -/
def begun (buffer sent : Buffer p) : Oled p := ⟨0, 0, 1, 1, 0xFFFF, 0xFFFF, true, buffer, sent⟩

def clearDisplay (o : Oled p) : Oled p := { o with buffer := Byter.clearDisplay p }

def setTextColor (c : UInt16) (o : Oled p) : Oled p := { o with textcolor := c, textbgcolor := c }

def setCursor (x y : ℤ) (o : Oled p) : Oled p :=
  { o with cursorX := int16 x, cursorY := int16 y }

/-- The argument is a `uint8_t`. -/
def setTextSize (s : ℤ) (o : Oled p) : Oled p :=
  let s := UInt8.ofNat (s % 256).toNat
  { o with textsizeX := if s > 0 then s else 1, textsizeY := if s > 0 then s else 1 }

def newline (o : Oled p) : Oled p :=
  { o with cursorX := 0, cursorY := int16 (o.cursorY + o.textsizeY.toNat * 8) }

def write (o : Oled p) (c : Char) : Option (Oled p) :=
  if c = '\n' then
    some o.newline
  else if c ≠ '\r' then
    let o := if o.wrap ∧ o.cursorX + o.textsizeX.toNat * 6 > p.width then o.newline else o
    (drawChar o.cursorX o.cursorY (UInt8.ofNat c.toNat) o.textcolor o.textbgcolor o.textsizeX
      o.textsizeY o.buffer).map fun buffer =>
        { o with buffer := buffer, cursorX := int16 (o.cursorX + o.textsizeX.toNat * 6) }
  else
    some o

def print (o : Oled p) (text : String) : Option (Oled p) := text.toList.foldlM write o

def println (o : Oled p) (text : String) : Option (Oled p) := do
  let o ← o.print text
  o.print "\r\n"

def display (o : Oled p) : Oled p := { o with sent := o.buffer }

end Oled

/-- A call within a drawing function, on the bytes. -/
def DrawOp.exec (o : Oled p) : DrawOp → Option (Oled p)
  | setCursor x y => some (o.setCursor x y)
  | setTextSize s => some (o.setTextSize s)
  | println text => o.println text

/-- What stands in a drawing function between its `setTextColor(WHITE)` and its
`display()`. -/
def DrawCall.ops : DrawCall → List DrawOp
  | .startDisplay =>
      [.setTextSize 1, .setCursor 0 0, .println "Keyboard", .setCursor 48 10, .println "Stokes",
        .setCursor 85 20, .println "Counter"]
  | .displayText text =>
      [.setCursor 0 3, .setTextSize 1, .println "-------------------", .println text,
        .println "-------------------"]
  | .displayNum n isCloseToMax => displayNumOps n isCloseToMax

def DrawCall.exec (o : Oled p) (c : DrawCall) : Option (Oled p) :=
  (c.ops.foldlM DrawOp.exec (o.clearDisplay.setTextColor SSD1306_WHITE)).map Oled.display

theorem DrawCall.run_eq_ops (c : DrawCall) (g : Gfx) :
    c.run g = (c.ops.foldl DrawOp.run g.clearDisplay).display := by
  cases c with
  | startDisplay => rfl
  | displayText text => rfl
  | displayNum n isCloseToMax => exact displayNum_gfx n _

/-! ## What the glyphs light -/

/-- The dots of a glyph. -/
def Glyph.shape (g : Glyph) : Picture :=
  charShape g.x g.y (UInt8.ofNat g.c.toNat) g.size.toNat g.size.toNat

/-- The dots of a list of glyphs. -/
def glyphsShape (gs : List Glyph) : Picture := {q | ∃ g ∈ gs, q ∈ g.shape}

theorem glyphsShape_append (gs gs' : List Glyph) :
    glyphsShape (gs ++ gs') = glyphsShape gs ∪ glyphsShape gs' := by
  ext q
  simp [glyphsShape, or_and_right, exists_or]

theorem glyphsShape_singleton (g : Glyph) : glyphsShape [g] = g.shape := by
  ext q
  simp [glyphsShape]

/-! ## One object stands for the other -/

/-- The cursor and the text size are the same, and text wraps. -/
structure SameText (o : Oled p) (g : Gfx) : Prop where
  cursorX : o.cursorX = g.cursorX
  cursorY : o.cursorY = g.cursorY
  textsizeX : (o.textsizeX.toNat : ℤ) = g.textsize
  textsizeY : (o.textsizeY.toNat : ℤ) = g.textsize
  wrap : o.wrap = true

/-- Text is drawn in white, and the buffer shows the dots of the glyphs. -/
structure Shown (o : Oled p) (g : Gfx) : Prop extends SameText o g where
  textcolor : o.textcolor = SSD1306_WHITE
  textbgcolor : o.textbgcolor = SSD1306_WHITE
  picture : o.buffer.picture = p.shape (glyphsShape g.buffer)

theorem Shown.newline {o : Oled p} {g : Gfx} (h : Shown o g) : Shown o.newline g.newline := by
  refine ⟨⟨rfl, ?_, h.textsizeX, h.textsizeY, h.wrap⟩, h.textcolor, h.textbgcolor, h.picture⟩
  simp only [Oled.newline, Gfx.newline, h.cursorY, h.textsizeY]

theorem Shown.write {o : Oled p} {g : Gfx} (hwidth : p.width = screenWidth) (h : Shown o g)
    (c : Char) : ∃ o', o.write c = some o' ∧ Shown o' (g.write c) := by
  by_cases hnewline : c = '\n'
  · refine ⟨o.newline, by rw [Oled.write, if_pos hnewline], ?_⟩
    rw [Gfx.write, if_pos hnewline]
    exact h.newline
  · by_cases hreturn : c = '\r'
    · refine ⟨o, by rw [Oled.write, if_neg hnewline, if_neg (not_not.2 hreturn)], ?_⟩
      rw [Gfx.write, if_neg hnewline, if_neg (not_not.2 hreturn)]
      exact h
    · have hplace : Shown
          (if o.wrap ∧ o.cursorX + o.textsizeX.toNat * 6 > p.width then o.newline else o)
          (if g.cursorX + g.textsize * 6 > screenWidth then g.newline else g) := by
        rw [h.wrap, hwidth, h.cursorX, h.textsizeX]
        by_cases hwrap : g.cursorX + g.textsize * 6 > screenWidth
        · rw [if_pos ⟨rfl, hwrap⟩, if_pos hwrap]
          exact h.newline
        · rw [if_neg fun hw => hwrap hw.2, if_neg hwrap]
          exact h
      rw [Oled.write, if_neg hnewline, if_pos hreturn, Gfx.write, if_neg hnewline, if_pos hreturn]
      dsimp only
      revert hplace
      generalize (if o.wrap ∧ o.cursorX + o.textsizeX.toNat * 6 > p.width then o.newline else o) =
        o₁
      generalize (if g.cursorX + g.textsize * 6 > screenWidth then g.newline else g) = g₁
      intro h₁
      have hwhite : SSD1306_WHITE ≤ 2 := by decide
      obtain ⟨b, hdraw, hpicture⟩ := drawChar_draws (p := p) hwhite
        o₁.cursorX o₁.cursorY (UInt8.ofNat c.toNat) o₁.textsizeX o₁.textsizeY o₁.buffer
      rw [h₁.textcolor, h₁.textbgcolor, hdraw]
      refine ⟨_, rfl, ⟨?_, h₁.cursorY, h₁.textsizeX, h₁.textsizeY, h₁.wrap⟩, rfl, rfl, ?_⟩
      · simp only [h₁.cursorX, h₁.textsizeX]
      · have hsizeX : o₁.textsizeX.toNat = g₁.textsize.toNat := by
          have := h₁.textsizeX
          omega
        have hsizeY : o₁.textsizeY.toNat = g₁.textsize.toNat := by
          have := h₁.textsizeY
          omega
        rw [hpicture, h₁.picture, glyphsShape_append, glyphsShape_singleton, Panel.shape_union,
          Glyph.shape, h₁.cursorX, h₁.cursorY, hsizeX, hsizeY]
        rfl

theorem Shown.print {o : Oled p} {g : Gfx} (hwidth : p.width = screenWidth) (h : Shown o g)
    (text : String) : ∃ o', o.print text = some o' ∧ Shown o' (g.print text) := by
  rw [Oled.print, Gfx.print]
  induction text.toList generalizing o g with
  | nil => exact ⟨o, rfl, h⟩
  | cons c cs ih =>
      obtain ⟨o₁, hwrite, h₁⟩ := h.write hwidth c
      rw [List.foldlM_cons, hwrite]
      exact ih h₁

theorem Shown.println {o : Oled p} {g : Gfx} (hwidth : p.width = screenWidth) (h : Shown o g)
    (text : String) : ∃ o', o.println text = some o' ∧ Shown o' (g.println text) := by
  obtain ⟨o₁, hprint, h₁⟩ := h.print hwidth text
  rw [Oled.println, hprint]
  exact h₁.print hwidth "\r\n"

/-- The arguments of a call are values of their types. -/
def DrawOp.Typed : DrawOp → Prop
  | .setCursor x y => IsInt16 x ∧ IsInt16 y
  | .setTextSize s => 0 ≤ s ∧ s < 256
  | .println _ => True

theorem Shown.exec {o : Oled p} {g : Gfx} (hwidth : p.width = screenWidth) (h : Shown o g)
    {op : DrawOp} (hop : op.Typed) : ∃ o', op.exec o = some o' ∧ Shown o' (op.run g) := by
  cases op with
  | setCursor x y =>
      refine ⟨_, rfl, ⟨int16_of_small ?_ ?_, int16_of_small ?_ ?_, h.textsizeX, h.textsizeY, h.wrap⟩,
        h.textcolor, h.textbgcolor, h.picture⟩
      all_goals
        obtain ⟨⟨_, _⟩, _, _⟩ := hop
        omega
  | setTextSize s =>
      obtain ⟨hlow, hhigh⟩ := hop
      have hsize : ((if UInt8.ofNat (s % 256).toNat > 0 then UInt8.ofNat (s % 256).toNat
          else 1).toNat : ℤ) = if s > 0 then s else 1 := by
        have htoNat : (UInt8.ofNat (s % 256).toNat).toNat = s.toNat := by
          rw [UInt8.toNat_ofNat']
          omega
        have hpos : UInt8.ofNat (s % 256).toNat > 0 ↔ s > 0 := by
          rw [gt_iff_lt, UInt8.lt_iff_toNat_lt, htoNat]
          change 0 < s.toNat ↔ _
          omega
        by_cases hs : s > 0
        · rw [if_pos (hpos.2 hs), if_pos hs, htoNat, Int.toNat_of_nonneg hlow]
        · rw [if_neg (mt hpos.1 hs), if_neg hs]
          rfl
      exact ⟨_, rfl, ⟨h.cursorX, h.cursorY, hsize, hsize, h.wrap⟩, h.textcolor, h.textbgcolor,
        h.picture⟩
  | println text => exact h.println hwidth text

theorem Shown.foldlM_exec {o : Oled p} {g : Gfx} (hwidth : p.width = screenWidth) (h : Shown o g)
    {ops : List DrawOp} (hops : ∀ op ∈ ops, op.Typed) :
    ∃ o', ops.foldlM DrawOp.exec o = some o' ∧ Shown o' (ops.foldl DrawOp.run g) := by
  induction ops generalizing o g with
  | nil => exact ⟨o, rfl, h⟩
  | cons op ops ih =>
      obtain ⟨o₁, hexec, h₁⟩ := h.exec hwidth (hops op List.mem_cons_self)
      rw [List.foldlM_cons, hexec]
      exact ih h₁ fun op hop => hops op (List.mem_cons_of_mem _ hop)

theorem DrawCall.ops_typed (c : DrawCall) : ∀ op ∈ c.ops, op.Typed := by
  cases c with
  | startDisplay => simp [ops, DrawOp.Typed, IsInt16]
  | displayText text => simp [ops, DrawOp.Typed, IsInt16]
  | displayNum n isCloseToMax =>
      change ∀ op ∈ displayNumOps n isCloseToMax, op.Typed
      unfold displayNumOps
      split_ifs <;> simp [DrawOp.Typed, IsInt16]

theorem picture_clearDisplay : (clearDisplay p).picture = ∅ := by
  ext q
  rw [Set.mem_empty_iff_false, iff_false]
  rintro ⟨x, k, j, hx, hk, -, -, hlit⟩
  have hzero : (clearDisplay p).byte x k hx hk = 0 := Vector.getElem_replicate _
  rw [hzero] at hlit
  simp at hlit

/-- A drawing call accesses nothing outside of the buffer, and sends the dots of its glyphs. -/
theorem SameText.exec {o : Oled p} {g : Gfx} (hwidth : p.width = screenWidth) (h : SameText o g)
    (c : DrawCall) : ∃ o', c.exec o = some o' ∧ SameText o' (c.run g) ∧
      o'.sent.picture = p.shape (glyphsShape (c.run g).panel) := by
  have hclear : Shown (o.clearDisplay.setTextColor SSD1306_WHITE) g.clearDisplay := by
    refine ⟨⟨h.cursorX, h.cursorY, h.textsizeX, h.textsizeY, h.wrap⟩, rfl, rfl, ?_⟩
    have hnone : p.shape (glyphsShape []) = ∅ := by
      ext q
      simp [Panel.mem_shape, glyphsShape]
    exact picture_clearDisplay.trans hnone.symm
  obtain ⟨o₁, hops, h₁⟩ := hclear.foldlM_exec hwidth c.ops_typed
  refine ⟨o₁.display, by rw [DrawCall.exec, hops]; rfl, ?_, ?_⟩
  · rw [DrawCall.run_eq_ops]
    exact ⟨h₁.cursorX, h₁.cursorY, h₁.textsizeX, h₁.textsizeY, h₁.wrap⟩
  · rw [DrawCall.run_eq_ops]
    exact h₁.picture

/-- The drawing calls of a program, on the bytes. -/
def drawnBytes (o : Oled p) (calls : List DrawCall) : Option (Oled p) :=
  calls.foldlM DrawCall.exec o

theorem SameText.drawnBytes {o : Oled p} {g : Gfx} (hwidth : p.width = screenWidth)
    (h : SameText o g) (calls : List DrawCall) :
    ∃ o', drawnBytes o calls = some o' ∧ SameText o' (calls.foldl DrawCall.run g) ∧
      (calls ≠ [] → o'.sent.picture = p.shape (glyphsShape (calls.foldl DrawCall.run g).panel)) := by
  induction calls using List.reverseRecOn with
  | nil => exact ⟨o, rfl, h, fun hne => absurd rfl hne⟩
  | append_singleton calls c ih =>
      obtain ⟨o₁, hcalls, h₁, -⟩ := ih
      obtain ⟨o₂, hexec, h₂, hsent⟩ := h₁.exec hwidth c
      refine ⟨o₂, ?_, by rwa [List.foldl_append], fun _ => by rwa [List.foldl_append]⟩
      rw [Byter.drawnBytes, List.foldlM_append]
      unfold Byter.drawnBytes at hcalls
      rw [hcalls]
      change DrawCall.exec o₁ c >>= pure = some o₂
      rw [bind_pure, hexec]

/-- After any calls, whatever was on the screen and in the buffer before: what has been sent to
the panel shows the dots of the glyphs, and no call has gone outside of the buffer. -/
theorem picture_of_calls (hwidth : p.width = screenWidth) {calls : List DrawCall}
    (hcalls : calls ≠ []) (buffer sent : Buffer p) :
    ∃ o, drawnBytes (Oled.begun buffer sent) calls = some o ∧
      o.sent.picture = p.shape (glyphsShape (drawn calls).panel) := by
  have hstart : SameText (Oled.begun buffer sent) {} := ⟨rfl, rfl, rfl, rfl, rfl⟩
  obtain ⟨o, hdrawn, -, hsent⟩ := hstart.drawnBytes hwidth calls
  exact ⟨o, hdrawn, hsent hcalls⟩

variable {ε : Type*} {E : Esp ε} {e : ε} {rx : List UInt8} {s : Sys ε}
  {tr : List (Step (Sys ε) Act Out)}

/-- In every run from boot the drawing calls that have been made, whatever was in the buffer before
them, access nothing outside of it, and the panel shows, pixel by pixel, the glyphs that the
sketch has displayed. -/
theorem picture_of_run (hrun : Run (sketch E) (boot E e rx) tr s) (buffer sent : Buffer oled) :
    ∃ o, drawnBytes (Oled.begun buffer sent) (drawCalls (setup E e).cnt tr) = some o ∧
      o.sent.picture = oled.shape (glyphsShape s.mem.gfx.panel) := by
  have hcalls : drawCalls (setup E e).cnt tr ≠ [] := List.cons_ne_nil _ _
  obtain ⟨o, hdrawn, hsent⟩ := picture_of_calls (p := oled) rfl hcalls buffer sent
  exact ⟨o, hdrawn, by rw [gfx_eq_drawn hrun]; exact hsent⟩

/-- A key that has been pressed and released, with the two calls of `setup` and that of the
frame. -/
theorem picture_of_run_keystroke :
    ∃ tr s, ∃ o : Oled oled,
      Run (sketch esp) (boot esp (stored 5) (encodeAll keystroke)) tr s ∧
      decide (drawCalls (setup esp (stored 5)).cnt tr =
        [.startDisplay, .displayNum 5 false, .displayNum 6 false]) = true ∧
      drawnBytes (Oled.begun (clearDisplay oled) (clearDisplay oled))
        (drawCalls (setup esp (stored 5)).cnt tr) = some o ∧
      o.sent.picture = oled.shape (glyphsShape s.mem.gfx.panel) := by
  obtain ⟨tr, s, hrun, hcalls⟩ :=
    Machine.exists_run_of_exec (sketch esp) (boot esp (stored 5) (encodeAll keystroke))
      (List.replicate 32 .cpu) (fun tr _ => decide (drawCalls (setup esp (stored 5)).cnt tr =
        [.startDisplay, .displayNum 5 false, .displayNum 6 false])) (by decide)
  obtain ⟨o, hdrawn, hsent⟩ :=
    picture_of_run hrun (clearDisplay oled) (clearDisplay oled)
  exact ⟨tr, s, o, hrun, hcalls, hdrawn, hsent⟩

end Byter
