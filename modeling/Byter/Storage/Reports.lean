import Byter.Sketch.Screen
import Byter.Storage.Core

/-!
# What the display says about the flash

`manualWriteCnt` reports the result of `writeCnt`, which is that of its first
commit; `end` may commit again. `manualClearCnt` reports nothing but success, and
sets the count to zero whatever became of the stored word. Both reports are right
exactly for certain outcomes of the next writes to the flash.
-/

namespace Byter

variable {ε : Type*} {E : Esp ε} {V : Chip ε}

/-! ## Saving -/

theorem manualWriteCnt_shows (E : Esp ε) (m : Mem ε) :
    (Shows "Saved !" (manualWriteCnt E m) ↔ (writeCnt E m).1 = true) ∧
      (Shows "Save Failed !" (manualWriteCnt E m) ↔ (writeCnt E m).1 = false) := by
  have hcode : manualWriteCnt E m =
      displayText (if (writeCnt E m).1 then "Saved !" else "Save Failed !") (writeCnt E m).2 := rfl
  rw [hcode]
  cases (writeCnt E m).1 with
  | true =>
      have htext : "Saved !".toList.filter Gfx.leavesGlyph = "Saved !".toList := by decide
      simp [shows_displayText_iff _ htext]
  | false =>
      have htext : "Save Failed !".toList.filter Gfx.leavesGlyph = "Save Failed !".toList := by
        decide
      simp [shows_displayText_iff _ htext]

/-- The report on a save says whether the count is stored exactly when it was
stored before, or the first write succeeds, or the second one fails as well. -/
theorem save_report_truthful_iff (hE : V.Lawful E) (m : Mem ε) :
    ((Shows "Saved !" (manualWriteCnt E m) ↔
          (readCnt E (manualWriteCnt E m)).1 = m.cnt) ∧
        (Shows "Save Failed !" (manualWriteCnt E m) ↔
          (readCnt E (manualWriteCnt E m)).1 ≠ m.cnt)) ↔
      V.word m.eeprom = m.cnt ∨ V.outcome m.eeprom 0 = true ∨ V.outcome m.eeprom 1 = false := by
  obtain ⟨hres, hword, -⟩ := hE.writeCnt_spec m
  obtain ⟨hsaved, hfailed⟩ := manualWriteCnt_shows E m
  have hread : (readCnt E (manualWriteCnt E m)).1 = V.word (writeCnt E m).2.eeprom :=
    (hE.readCnt_spec (manualWriteCnt E m)).1
  rw [hsaved, hfailed, hread, hres, hword]
  by_cases hsame : V.word m.eeprom = m.cnt
  · simp [hsame]
  · cases V.outcome m.eeprom 0 <;> cases V.outcome m.eeprom 1 <;> simp [hsame]

/-- The flash holds `7`, and its next writes succeed as listed. -/
def flaky (outcomes : List Bool) : Eeprom := { stored 7 with outcomes := outcomes }

theorem save_report_truthful_iff_worn :
    Shows "Saved !" (manualWriteCnt esp { cnt := 8, eeprom := flaky [false, false] }) ↔
      (readCnt esp (manualWriteCnt esp { cnt := 8, eeprom := flaky [false, false] })).1 = 8 :=
  ((save_report_truthful_iff Eeprom.chip_lawful { cnt := 8, eeprom := flaky [false, false] }).2
    (Or.inr (Or.inr rfl))).1

/-- When the first write fails and the second succeeds, the count is stored and
"Save Failed !" is shown. -/
theorem save_report_wrong :
    ¬ ∀ m : Mem Eeprom,
      Shows "Saved !" (manualWriteCnt esp m) ↔ (readCnt esp (manualWriteCnt esp m)).1 = m.cnt := by
  intro h
  have hreport := h { cnt := 8, eeprom := flaky [false, true] }
  rw [(manualWriteCnt_shows esp _).1] at hreport
  exact absurd hreport (by decide)

/-! ## Clearing -/

/-- Either the count and the stored word are zero and this is shown, or neither
has changed and it is not shown. -/
def AllOrNothing (E : Esp ε) (m m' : Mem ε) : Prop :=
  (m'.cnt = 0 ∧ (readCnt E m').1 = 0 ∧ Shows "Cleared !" m') ∨
    (m'.cnt = m.cnt ∧ (readCnt E m').1 = (readCnt E m).1 ∧ ¬ Shows "Cleared !" m')

theorem manualClearCnt_shows (E : Esp ε) (m : Mem ε) : Shows "Cleared !" (manualClearCnt E m) :=
  (shows_displayText_iff _ (by decide)).2 rfl

/-- A clear is all or nothing exactly when a zero was stored before or the write
succeeds; and exactly then the count is zero after a reset. -/
theorem clear_all_or_nothing_iff (hE : V.Lawful E) (m : Mem ε) :
    (AllOrNothing E m (manualClearCnt E m) ↔
        V.word m.eeprom = 0 ∨ V.outcome m.eeprom 0 = true) ∧
      ((setup E (V.powerOn (manualClearCnt E m).eeprom)).cnt = 0 ↔
        V.word m.eeprom = 0 ∨ V.outcome m.eeprom 0 = true) := by
  have hshows := manualClearCnt_shows E m
  have hcnt : (manualClearCnt E m).cnt = 0 := rfl
  have hword : V.word (manualClearCnt E m).eeprom =
      if V.outcome m.eeprom 0 then 0 else V.word m.eeprom := (hE.clearCnt_spec m).1
  have hzero : V.word (manualClearCnt E m).eeprom = 0 ↔
      V.word m.eeprom = 0 ∨ V.outcome m.eeprom 0 = true := by
    rw [hword]
    cases V.outcome m.eeprom 0 <;> simp
  constructor
  · rw [AllOrNothing, (hE.readCnt_spec (manualClearCnt E m)).1, ← hzero]
    simp [hshows, hcnt]
  · rw [(hE.setup_spec _).1, (hE.powerOn_quiet _).word, hzero]

theorem clear_all_or_nothing_iff_flaky :
    AllOrNothing esp { cnt := 8, eeprom := flaky [true, false] }
      (manualClearCnt esp { cnt := 8, eeprom := flaky [true, false] }) :=
  (clear_all_or_nothing_iff Eeprom.chip_lawful { cnt := 8, eeprom := flaky [true, false] }).1.2
    (Or.inr rfl)

/-- When the write fails, "Cleared !" is shown and the old count is back after a
reset. -/
theorem clear_half_done :
    ¬ ∀ m : Mem Eeprom, AllOrNothing esp m (manualClearCnt esp m) := by
  intro h
  rcases h { cnt := 8, eeprom := flaky [false] } with ⟨-, hread, -⟩ | ⟨hcnt, -, -⟩
  · exact absurd hread (by decide)
  · exact absurd hcnt (by decide)

end Byter
