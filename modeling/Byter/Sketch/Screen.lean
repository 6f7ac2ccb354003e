import Byter.Sketch.Memory

/-!
# What the panel shows

`displayText` and `displayNum` clear the display, print and send the buffer to
the panel. What the panel shows is read off the characters of its glyphs: a
message stands between two lines of dashes, and a number is known from the digits.
-/

namespace Byter

variable {ε : Type*}

/-! ## Messages -/

/-- The line above and below a message. -/
def dashes : List Char := "-------------------".toList

/-- The panel shows the message `text`. -/
def Shows (text : String) (m : Mem ε) : Prop :=
  m.gfx.panelText = dashes ++ text.toList ++ dashes

theorem displayText_panelText (text : String) (m : Mem ε) :
    (displayText text m).gfx.panelText =
      dashes ++ text.toList.filter Gfx.leavesGlyph ++ dashes := by
  have hdashes : dashes.filter Gfx.leavesGlyph = dashes := by decide
  unfold dashes at hdashes ⊢
  simp only [displayText, Gfx.panelText_display, Gfx.bufferText_println, Gfx.bufferText_setTextSize,
    Gfx.bufferText_setCursor, Gfx.bufferText_clearDisplay, List.nil_append]
  rw [hdashes]

theorem shows_displayText_iff {text text' : String} (m : Mem ε)
    (htext : text.toList.filter Gfx.leavesGlyph = text.toList) :
    Shows text' (displayText text m) ↔ text = text' := by
  rw [Shows, displayText_panelText, htext, List.append_cancel_right_eq, List.append_cancel_left_eq,
    String.toList_inj]

/-! ## Numbers -/

/-- The panel shows what `displayNum(n)` draws. -/
def Drawn (n : UInt32) (m : Mem ε) : Prop :=
  ∃ m₀ : Mem ε, m.gfx.panel = (displayNum n m₀).gfx.panel

theorem isDigit_of_mem_digits {n : ℕ} {c : Char} (hc : c ∈ Nat.toDigits 10 n) :
    c.isDigit = true :=
  Nat.isDigit_of_mem_toDigits (by decide) (by decide) hc

theorem leavesGlyph_of_mem_digits {n : ℕ} {c : Char} (hc : c ∈ Nat.toDigits 10 n) :
    Gfx.leavesGlyph c = true := by
  have hlow : 48 ≤ c.toNat := (Char.isDigit_iff_toNat.1 (isDigit_of_mem_digits hc)).1
  have hnewline : c ≠ '\n' := by
    rintro rfl
    exact absurd hlow (by decide)
  have hreturn : c ≠ '\r' := by
    rintro rfl
    exact absurd hlow (by decide)
  simp [Gfx.leavesGlyph, hnewline, hreturn]

theorem filter_digits (n : ℕ) :
    ((toString n).toList.filter Gfx.leavesGlyph).filter Char.isDigit = Nat.toDigits 10 n := by
  rw [toList_toString, List.filter_eq_self.2 fun c hc => leavesGlyph_of_mem_digits hc,
    List.filter_eq_self.2 fun c hc => isDigit_of_mem_digits hc]

/-- Whatever else `displayNum` draws, the digits are those of the number. -/
theorem displayNum_digits (n : UInt32) (m : Mem ε) :
    (displayNum n m).gfx.panelText.filter Char.isDigit = Nat.toDigits 10 n.toNat := by
  have hclose : ("CloseToMAX..".toList.filter Gfx.leavesGlyph).filter Char.isDigit = [] := by
    decide
  have hover : ("Overflowing".toList.filter Gfx.leavesGlyph).filter Char.isDigit = [] := by
    decide
  unfold displayNum
  dsimp only
  split_ifs with h5 h7 hmax hclose'
  all_goals simp only [Gfx.panelText_display, Gfx.bufferText_println, Gfx.bufferText_setTextSize,
    Gfx.bufferText_setCursor, Gfx.bufferText_clearDisplay, List.nil_append, List.filter_append,
    filter_digits, hclose, hover]
  -- in the last branch the number is `maxCnt`
  rw [eq_maxCnt_of_not_lt hmax]

theorem Drawn.digits {m : Mem ε} {n : UInt32} (h : Drawn n m) :
    m.gfx.panelText.filter Char.isDigit = Nat.toDigits 10 n.toNat := by
  obtain ⟨m₀, hm₀⟩ := h
  rw [← displayNum_digits n m₀, Gfx.panelText, Gfx.panelText, hm₀]

/-- The panel shows one number at most. -/
theorem Drawn.unique {m : Mem ε} {n n' : UInt32} (h : Drawn n m) (h' : Drawn n' m) : n = n' := by
  have hdigits : Nat.toDigits 10 n.toNat = Nat.toDigits 10 n'.toNat := h.digits.symm.trans h'.digits
  apply UInt32.toNat_inj.1
  rw [← Nat.ofDigitChars_ten_toDigits (n := n.toNat), hdigits, Nat.ofDigitChars_ten_toDigits]

end Byter
