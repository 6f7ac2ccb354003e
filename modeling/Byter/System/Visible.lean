import Byter.Sketch.Lines
import Byter.Sketch.Steps

/-!
# What is drawn below the edge of the screen

`displayNum` sets the cursor in all its branches but the last, which draws where the
calls before it have left the cursor. Clearing the display does not move the cursor, and
every `println` moves it down. After any sequence of drawing calls the cursor is at the
start of a row, and the row is known from the calls, modulo `2^16`.
-/

namespace Byter

open Transition Text

variable {ε : Type*} {π : Type*}

/-! ## Sequences of drawing calls -/

/-- A call of a drawing function. `displayText` is taken up to its delay, the `displayNum`
behind it is a call of its own; `displayNum` comes with the value that `isCloseToMax` has
there. -/
inductive DrawCall
  | startDisplay
  | displayText (text : String)
  | displayNum (n : UInt32) (isCloseToMax : Bool)
deriving DecidableEq, Repr

namespace DrawCall

def run (g : Gfx) : DrawCall → Gfx
  | .startDisplay => (Byter.startDisplay { ram with gfx := g }).gfx
  | .displayText text => (Byter.displayText text { ram with gfx := g }).gfx
  | .displayNum n isCloseToMax =>
      (Byter.displayNum n { ram with gfx := g, isCloseToMax := isCloseToMax }).gfx

/-- The row on which a call leaves the cursor, when it finds it on row `y`. -/
def row (y : ℤ) : DrawCall → ℤ
  | .startDisplay => 28
  | .displayText text => 27 + 8 * breaks 21 (text.toList.map kindOf)
  | .displayNum n _ =>
      if n ≤ 99999 then 34 else if n ≤ 9999999 then 29 else if n < maxCnt then 25 else y + 16

end DrawCall

/-- The display after a sequence of drawing calls. -/
def drawn (calls : List DrawCall) : Gfx := calls.foldl DrawCall.run {}

/-- The row of the cursor after a sequence of drawing calls, without a bound. -/
def rowAfter (calls : List DrawCall) : ℤ := calls.foldl DrawCall.row 0

/-! ## Where a call leaves the cursor -/

/-- The cursor is at the start of the row `y`. -/
structure AtRow (g : Gfx) (y : ℤ) : Prop where
  cursorX : g.cursorX = 0
  cursorY : g.cursorY = int16 y

theorem Gfx.At.atRow {g : Gfx} {size : ℕ} {y y' : ℤ} (h : g.At size y ⟨0, 0⟩) (hy : y = y') :
    AtRow g.display y' := by
  subst hy
  exact ⟨h.cursorX.trans (by simp), h.cursorY.trans (by simp)⟩

/-- The cursor where a drawing function has set it. -/
theorem Gfx.at_set (g : Gfx) (size : ℕ) (y : ℤ) (hsize : 0 < size) (hy : int16 y = y) :
    ((g.setCursor 0 y).setTextSize size).At size y ⟨0, 0⟩ := by
  have hpos : (size : ℤ) > 0 := by exact_mod_cast hsize
  exact ⟨if_pos hpos, by simp [setTextSize, setCursor], by simp [setTextSize, setCursor, hy],
    Nat.zero_le _⟩

theorem startDisplay_atRow (m : Mem ε) : AtRow (startDisplay m).gfx 28 := by
  unfold startDisplay
  dsimp only
  generalize hg : (((m.gfx.clearDisplay.setTextSize 1).setCursor 0 0).println "Keyboard").setCursor
    48 10 = g
  have hsize : g.textsize = 1 := by
    rw [← hg, Gfx.setCursor, Gfx.textsize_println]
    rfl
  have hline : ((g.println "Stokes").setCursor 85 20).line "Counter" = ⟨85, 20, 1, "Counter"⟩ := by
    simp [Gfx.line, Gfx.setCursor, hsize]
  have hfits : (((g.println "Stokes").setCursor 85 20).line "Counter").Fits := by
    rw [hline]
    exact Line.fits_mk (plain_of_all (by decide)) (by decide) (by decide) (by decide) 20
  rw [Gfx.println_of_fits hfits]
  exact ⟨rfl, by simp [Gfx.display, Gfx.setCursor, hsize]⟩

theorem displayText_atRow (text : String) (m : Mem ε) :
    AtRow (displayText text m).gfx (27 + 8 * breaks 21 (text.toList.map kindOf)) := by
  have hdashes : breaks (Gfx.columns 1) ("-------------------".toList.map kindOf) = 0 :=
    breaks_of_fits (by decide +kernel) (by decide)
  have hstart := m.gfx.clearDisplay.at_set 1 3 (by decide) rfl
  have hend := ((hstart.println (by decide) (by decide) "-------------------").println
    (by decide) (by decide) text).println (by decide) (by decide) "-------------------"
  have hcolumns : Gfx.columns 1 = 21 := rfl
  rw [hdashes, hcolumns] at hend
  refine hend.atRow ?_
  push_cast
  ring

/-- In the branches that set the cursor the row is theirs; in the last one the lines
follow the row that was left. -/
theorem displayNum_atRow {n : UInt32} {m : Mem ε} {y : ℤ} (h : AtRow m.gfx y) :
    AtRow (displayNum n m).gfx (DrawCall.row y (.displayNum n m.isCloseToMax)) := by
  have hfits : ∀ l ∈ displayNumLines n m.isCloseToMax m.gfx, l.Fits :=
    fun l hl => displayNumLines_fit h.cursorX hl
  rw [displayNum_gfx, DrawCall.row]
  unfold displayNumLines displayNumOps at hfits
  unfold displayNumOps
  split_ifs at hfits ⊢ with h5 h7 hmax hclose
  · have hstart := m.gfx.clearDisplay.at_set 4 2 (by decide) rfl
    exact (hstart.println_of_fits rfl (hfits _ List.mem_cons_self)).atRow rfl
  · have hstart := m.gfx.clearDisplay.at_set 3 5 (by decide) rfl
    exact (hstart.println_of_fits rfl (hfits _ List.mem_cons_self)).atRow rfl
  · have hstart := m.gfx.clearDisplay.at_set 1 9 (by decide) rfl
    have hnext := hstart.println_of_fits rfl (hfits _ List.mem_cons_self)
    exact (hnext.println_of_fits rfl
      (hfits _ (List.mem_cons_of_mem _ List.mem_cons_self))).atRow rfl
  · have hstart := m.gfx.clearDisplay.at_set 2 9 (by decide) rfl
    exact (hstart.println_of_fits rfl (hfits _ List.mem_cons_self)).atRow rfl
  · have hstart : (m.gfx.clearDisplay.setTextSize 1).At 1 y ⟨0, 0⟩ :=
      ⟨rfl, h.cursorX.trans (by simp), h.cursorY.trans (by simp), Nat.zero_le _⟩
    have hnext := hstart.println_of_fits rfl (hfits _ List.mem_cons_self)
    refine (hnext.println_of_fits rfl
      (hfits _ (List.mem_cons_of_mem _ List.mem_cons_self))).atRow ?_
    push_cast
    ring

theorem DrawCall.run_atRow (c : DrawCall) {g : Gfx} {y : ℤ} (h : AtRow g y) :
    AtRow (c.run g) (c.row y) := by
  cases c with
  | startDisplay => exact startDisplay_atRow _
  | displayText text => exact displayText_atRow text _
  | displayNum n isCloseToMax => exact displayNum_atRow h

theorem drawn_atRow (calls : List DrawCall) : AtRow (drawn calls) (rowAfter calls) := by
  have hall : ∀ g y, AtRow g y →
      AtRow (calls.foldl DrawCall.run g) (calls.foldl DrawCall.row y) := by
    induction calls with
    | nil => exact fun g y h => h
    | cons c calls ih => exact fun g y h => ih _ _ (c.run_atRow h)
  exact hall {} 0 ⟨rfl, rfl⟩

/-- After any sequence of drawing calls, whatever `isCloseToMax` was at each of them and
is now: the panel shows the lines of `displayNum` as they are printed, and they are all on the
screen if and only if the count is not `maxCnt` or the calls have left the cursor on one of
the rows 0 to 17. -/
theorem displayNum_visible_iff (calls : List DrawCall) (n : UInt32) (m : Mem ε) :
    (displayNum n { m with gfx := drawn calls }).gfx.panel =
        (displayNumLines n m.isCloseToMax (drawn calls)).flatMap Line.glyphs ∧
      ((∀ l ∈ displayNumLines n m.isCloseToMax (drawn calls), l.OnScreen) ↔
        n ≠ maxCnt ∨ 0 ≤ int16 (rowAfter calls) ∧ int16 (rowAfter calls) ≤ 17) := by
  have hcursor := drawn_atRow calls
  refine ⟨displayNum_panel hcursor.cursorX, ?_⟩
  rw [displayNumLines_onScreen_iff hcursor.cursorX, hcursor.cursorY]

/-- What `setup` draws when the flash has been erased: behind `startDisplay`, the number
lies below the edge of the screen. -/
theorem overflow_below_screen :
    ¬ ∀ (calls : List DrawCall) (n : UInt32) (isCloseToMax : Bool),
      ∀ l ∈ displayNumLines n isCloseToMax (drawn calls), l.OnScreen := by
  intro h
  have hboot := h [.startDisplay] maxCnt false
  revert hboot
  decide +kernel

/-! ## The drawing calls of a run -/

/-- A message of one row. -/
def DrawCall.OneRow : DrawCall → Prop
  | .displayText text => text.toList.all Gfx.leavesGlyph = true ∧ text.length ≤ 21
  | _ => True

theorem displayNum_drawCall (n : UInt32) (m : Mem ε) :
    (displayNum n m).gfx = (DrawCall.displayNum n m.isCloseToMax).run m.gfx := by
  rw [DrawCall.run, displayNum_gfx, displayNum_gfx]

/-- What `displayText` is called with. -/
def Caller.text (saved : Bool) : Caller → String
  | .manualWriteCnt => if saved then "Saved !" else "Save Failed !"
  | .enableWifi => "WiFi ON"
  | .disableWifi => "WiFi OFF"
  | .buttonClear | .eventClear => "Cleared !"
  | .manualSetCnt => "updated !"

/-- The drawing call that a step makes, if it makes one: that of a frame that releases a key, that
behind the delay of `displayText`, and `displayText` itself where a step of `loop` gets to its
delay. -/
def drawCall (st : Step (Sys ε) Act Out) : Option DrawCall :=
  match st.act, st.src.pc, st.dst.pc with
  | .cpu, .rw _, _ =>
      match st.out with
      | [.frame f] =>
          if released st.src.mem.last f.slots ≠ 0 then
            some (.displayNum st.dst.mem.cnt st.src.mem.isCloseToMax)
          else none
      | _ => none
  | .cpu, .displayText _, _ => some (.displayNum st.src.mem.cnt st.src.mem.isCloseToMax)
  | .cpu, _, .displayText c => some (.displayText (c.text false))
  | .sample _ _, _, .displayText c => some (.displayText (c.text (st.out.contains (.wrote true))))
  | _, _, _ => none

/-- The drawing calls from boot on: those of `setup`, where the flash holds `cnt`, and those of
the steps. -/
def drawCalls (cnt : UInt32) (tr : List (Step (Sys ε) Act Out)) : List DrawCall :=
  .startDisplay :: .displayNum cnt false :: tr.filterMap drawCall

theorem drawCall_oneRow {st : Step (Sys ε) Act Out} {c : DrawCall} (h : drawCall st = some c) :
    c.OneRow := by
  have htext : ∀ (c : Caller) (saved : Bool),
      (c.text saved).toList.all Gfx.leavesGlyph = true ∧ (c.text saved).length ≤ 21 := by
    intro c saved
    cases c <;> cases saved <;> decide
  unfold drawCall at h
  split at h
  · split at h
    · split at h <;> cases h
      trivial
    · cases h
  · cases h
    trivial
  · cases h
    exact htext _ _
  · cases h
    exact htext _ _
  · cases h

/-- The display after a call, or without one. -/
def runCall (g : Gfx) : Option DrawCall → Gfx
  | some c => c.run g
  | none => g

theorem foldl_toList (g : Gfx) (c : Option DrawCall) :
    c.toList.foldl DrawCall.run g = runCall g c := by
  cases c <;> rfl

theorem displayText_drawCall {text : String} {m m' m'' : Mem ε} (h : m' = displayText text m'')
    (hgfx : m''.gfx = m.gfx) : m'.gfx = (DrawCall.displayText text).run m.gfx := by
  rw [h, DrawCall.run, displayText, displayText, hgfx]

theorem LoopMove.drawCall_gfx {E : Esp ε} {s s' : Sys ε} {o : List Out}
    (h : LoopMove E .read57 s.mem s.pc s'.mem s'.pc o) :
    s'.mem.gfx = runCall s.mem.gfx (drawCall ⟨s, .cpu, o, s'⟩) := by
  cases h with
  | clear src event dst mem out | set src event dst mem out =>
      simp only [drawCall, src, dst, runCall]
      exact displayText_drawCall mem rfl
  | shown c src dst mem out =>
      simp only [drawCall, src, runCall]
      rw [mem, ← displayNum_drawCall]
      cases c <;> rfl
  | call src latch dst mem out | skip src latch dst mem out | noClear src event dst mem out
  | noSet src event dst mem out | again src dst mem out =>
      simp only [drawCall, src, dst, runCall, mem]

theorem ButtonCase.drawCall_gfx {E : Esp ε} {curState : Level} {millis : UInt32} {s s' : Sys ε}
    {o : List Out} (h : ButtonCase E curState millis s.mem s'.mem s'.pc o) :
    s'.mem.gfx = runCall s.mem.gfx (drawCall ⟨s, .sample curState millis, o, s'⟩) := by
  obtain ⟨mem, rx, pc⟩ := s'
  dsimp only at h
  cases h with
  | save hlast hcur hms =>
      have hsaved : [Out.pressed (s.mem.pressMillis millis), .wrote (writeCnt E s.mem).1].contains
          (.wrote true) = (writeCnt E s.mem).1 := by
        cases (writeCnt E s.mem).1 <;> rfl
      simp only [drawCall, runCall, hsaved]
      exact displayText_drawCall rfl rfl
  | wifiOn | wifiOff | clear => exact displayText_drawCall rfl rfl
  | press | level | ignored => rfl

/-- The display of a step is that of its drawing call. -/
theorem drawCall_step {E : Esp ε} {s s' : Sys ε} {a : Act} {o : List Out}
    (h : step E s a = some (s', o)) :
    s'.mem.gfx = runCall s.mem.gfx (drawCall ⟨s, a, o, s'⟩) := by
  cases moves_of_step h with
  | drained hpc hrx => simp only [drawCall, hpc, runCall]
  | read p q hpc hrx hnext => simp only [drawCall, hpc, runCall]
  | frame p f hpc hrx hnext =>
      simp only [drawCall, hpc, keyFrame_eq]
      by_cases hreleased : released s.mem.last f.slots ≠ 0
      · simp only [if_pos hreleased, runCall, displayNum_cnt]
        exact displayNum_drawCall _ _
      · simp only [if_neg hreleased, runCall]
  | main m pc o hstep => exact (loopStep_cases hstep).drawCall_gfx
  | sample curState millis m pc o hpc hstep => exact (sampleButton_branch hstep).drawCall_gfx
  | rx b => rfl
  | http q hpc =>
      change (handle E s.mem q).1.gfx = s.mem.gfx
      rw [handle_eq]
  | ticker hpc => rfl

/-- How often the display was changed in a run. -/
def draws (tr : List (Step (Sys ε) Act Out)) : ℕ :=
  tr.countP fun st => decide (st.dst.mem.gfx ≠ st.src.mem.gfx)

variable {E : Esp ε} {e : ε} {rx : List UInt8} {s : Sys ε} {tr : List (Step (Sys ε) Act Out)}

theorem setup_gfx (E : Esp ε) (e : ε) :
    (setup E e).gfx = drawn [.startDisplay, .displayNum (setup E e).cnt false] := by
  have hcnt : (setup E e).cnt = (readCnt E { eeprom := E.eepromBegin e 256 }).1 :=
    displayNum_cnt _ _
  rw [hcnt]
  exact displayNum_drawCall _ _

/-- The display of every run from boot is that of the drawing calls made in it. -/
theorem gfx_eq_drawn (hrun : Run (sketch E) (boot E e rx) tr s) :
    s.mem.gfx = drawn (drawCalls (setup E e).cnt tr) := by
  induction hrun with
  | nil => exact setup_gfx E e
  | @snoc tr s s' a o prev last ih =>
      have hcalls : drawCalls (setup E e).cnt (tr ++ [⟨s, a, o, s'⟩]) =
          drawCalls (setup E e).cnt tr ++ (drawCall ⟨s, a, o, s'⟩).toList := by
        rw [drawCalls, drawCalls, List.filterMap_append, List.filterMap_cons, List.filterMap_nil]
        cases drawCall ⟨s, a, o, s'⟩ <;> rfl
      rw [drawCall_step last, ih, hcalls, drawn, drawn, List.foldl_append, foldl_toList]

/-- Calls that leave the display as it was may be left out: as many as there were changes are
enough. -/
theorem gfx_of_run (hrun : Run (sketch E) (boot E e rx) tr s) :
    ∃ calls : List DrawCall, (∀ c ∈ calls, c.OneRow) ∧ calls.length ≤ draws tr + 1 ∧
      s.mem.gfx = drawn (.startDisplay :: calls) := by
  induction hrun with
  | nil =>
      exact ⟨[.displayNum (setup E e).cnt false], by simp [DrawCall.OneRow], Nat.le_refl _,
        setup_gfx E e⟩
  | @snoc tr s s' a o prev last ih =>
      obtain ⟨calls, hone, hlength, hgfx⟩ := ih
      have hdraws : draws (tr ++ [⟨s, a, o, s'⟩]) =
          draws tr + if s'.mem.gfx ≠ s.mem.gfx then 1 else 0 := by
        simp [draws, List.countP_append, List.countP_singleton]
      by_cases hsame : s'.mem.gfx = s.mem.gfx
      · refine ⟨calls, hone, by omega, by rw [hsame, hgfx]⟩
      · have hdraw := drawCall_step last
        cases hc : drawCall ⟨s, a, o, s'⟩ with
        | none =>
            rw [hc] at hdraw
            exact absurd hdraw hsame
        | some c =>
            rw [hc] at hdraw
            refine ⟨calls ++ [c], ?_, ?_, ?_⟩
            · simpa [or_imp, forall_and] using ⟨hone, drawCall_oneRow hc⟩
            · rw [hdraws, if_pos hsame, List.length_append, List.length_singleton]
              omega
            · rw [hdraw, hgfx, drawn, drawn, ← List.cons_append, List.foldl_append]
              rfl

/-- Messages of one row leave the cursor on row 27, and a call moves it down by 16 rows at
most. -/
theorem DrawCall.row_bounds {c : DrawCall} (hone : c.OneRow) {y b : ℤ} (hlow : 18 ≤ y)
    (hhigh : y ≤ b) (hb : 34 ≤ b) : 18 ≤ c.row y ∧ c.row y ≤ b + 16 := by
  cases c with
  | startDisplay =>
      rw [row]
      omega
  | displayText text =>
      obtain ⟨hplain, hlength⟩ := hone
      have hbreaks : breaks 21 (text.toList.map kindOf) = 0 :=
        breaks_of_fits (by simpa using plain_of_all hplain)
          (by rwa [List.length_map, String.length_toList])
      rw [row, hbreaks]
      omega
  | displayNum n isCloseToMax =>
      rw [row]
      split_ifs <;> omega

theorem rowAfter_bounds {calls : List DrawCall} (hone : ∀ c ∈ calls, c.OneRow) :
    18 ≤ rowAfter (.startDisplay :: calls) ∧
      rowAfter (.startDisplay :: calls) ≤ 34 + 16 * calls.length := by
  induction calls using List.reverseRecOn with
  | nil => decide
  | append_singleton calls c ih =>
      obtain ⟨hlow, hhigh⟩ := ih fun c hc => hone c (List.mem_append_left _ hc)
      have hc := DrawCall.row_bounds (hone c (by simp)) hlow hhigh (by omega)
      have hrow : rowAfter (.startDisplay :: (calls ++ [c])) =
          c.row (rowAfter (.startDisplay :: calls)) := by
        rw [rowAfter, ← List.cons_append, List.foldl_append]
        rfl
      rw [hrow, List.length_append, List.length_singleton]
      push_cast
      omega

/-- From boot on, the overflow message is not fully visible until the display has been
changed more than 4000 times: the cursor has to wrap before the message comes back to the screen. -/
theorem overflowing_hidden (hrun : Run (sketch E) (boot E e rx) tr s) (hfew : draws tr ≤ 4000)
    (isCloseToMax : Bool) :
    ¬ ∀ l ∈ displayNumLines maxCnt isCloseToMax s.mem.gfx, l.OnScreen := by
  obtain ⟨calls, hone, hlength, hgfx⟩ := gfx_of_run hrun
  obtain ⟨hlow, hhigh⟩ := rowAfter_bounds hone
  have hcursor := drawn_atRow (.startDisplay :: calls)
  rw [hgfx, displayNumLines_onScreen_iff hcursor.cursorX, hcursor.cursorY]
  rintro (hne | ⟨hnonneg, hle⟩)
  · exact hne rfl
  · rw [int16, Int.bmod_def] at hnonneg hle
    split at hnonneg <;> omega

end Byter
