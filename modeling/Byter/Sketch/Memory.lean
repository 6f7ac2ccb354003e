import Mathlib.Data.Nat.Notation
import Mathlib.Tactic.Common
import Byter.Sketch.Display

/-!
# The globals of the sketch and the functions that own them

`Mem` holds the global variables of `byter.ino`, the display and the state of
the EEPROM object. The ESP8266 core is not part of the repository: what the
sketch calls of it is the parameter `Esp`, over an arbitrary type of EEPROM
states.

`displayText` blocks for two seconds in `delay(2000)`, during which other code
may run. Every function that ends in `displayText` is therefore cut there: the
definition under its own name goes up to the delay, and what follows the delay
belongs to the loop.
-/

namespace Byter

/-- The ESP8266 core as the sketch uses it: the EEPROM object, whose state may
also decide whether a commit succeeds, and `String::toInt`. -/
structure Esp (ε : Type*) where
  eepromBegin : ε → ℕ → ε
  eepromPut : ε → ℕ → UInt32 → ε
  eepromGet : ε → ℕ → UInt32
  eepromWrite : ε → ℕ → UInt8 → ε
  eepromCommit : ε → Bool × ε
  eepromEnd : ε → Bool × ε
  toInt : String → Int32

/-- The level of a pin. -/
inductive Level
  | low
  | high
deriving DecidableEq, Repr

/-- Six key slots: the key bytes of a report, or the remembered
`last_v3..last_v8`. -/
structure Slots where
  v3 : Int
  v4 : Int
  v5 : Int
  v6 : Int
  v7 : Int
  v8 : Int
deriving DecidableEq, Repr

namespace Slots

/-- No key in any slot. -/
def zero : Slots := ⟨0, 0, 0, 0, 0, 0⟩

def toList (s : Slots) : List Int := [s.v3, s.v4, s.v5, s.v6, s.v7, s.v8]

end Slots

/-- The global variables, with the values they have before `setup`. -/
structure Mem (ε : Type*) where
  cnt : UInt32 := 0
  event : Int := 0
  isCloseToMax : Bool := false
  isOverflow : Bool := false
  lastState : Level := .low
  curState : Level := .low
  pressedMillis : UInt32 := 0
  releasedMillis : UInt32 := 0
  isWifiOn : Bool := false
  last : Slots := .zero
  d6 : Level := .low
  gfx : Gfx := {}
  eeprom : ε
deriving DecidableEq

/-- The globals before `setup`, with no EEPROM. -/
def ram : Mem Unit := { eeprom := () }

/-- `addr`, where the count lies in the EEPROM. -/
def addr : ℕ := 1

def maxCnt : UInt32 := 4294967295

variable {ε : Type*}

/-! ## The count in the EEPROM -/

/-- The result is that of the first commit. -/
def writeCnt (E : Esp ε) (m : Mem ε) : Bool × Mem ε :=
  let e := E.eepromBegin m.eeprom 5
  let e := E.eepromPut e addr m.cnt
  let (res, e) := E.eepromCommit e
  let (_, e) := E.eepromEnd e
  (res, { m with eeprom := e })

def readCnt (E : Esp ε) (m : Mem ε) : UInt32 × Mem ε :=
  let e := E.eepromBegin m.eeprom 5
  let cnt := E.eepromGet e addr
  let (_, e) := E.eepromEnd e
  (cnt, { m with eeprom := e })

/-- Bytes 0 to 4 are set to zero and committed by `end`. -/
def clearCnt (E : Esp ε) (m : Mem ε) : Mem ε :=
  let e := E.eepromBegin m.eeprom 5
  let e := (List.range 5).foldl (fun e i => E.eepromWrite e i 0) e
  let (_, e) := E.eepromEnd e
  { m with eeprom := e }

/-! ## Drawing -/

/-- The last branch sets no cursor, and raises the latch. -/
def displayNum (n : UInt32) (m : Mem ε) : Mem ε :=
  let g := m.gfx.clearDisplay
  if n ≤ 99999 then
    { m with gfx := (((g.setCursor 0 2).setTextSize 4).println (toString n.toNat)).display }
  else if n ≤ 9999999 then
    { m with gfx := (((g.setCursor 0 5).setTextSize 3).println (toString n.toNat)).display }
  else if n < maxCnt then
    let g := g.setCursor 0 9
    let g :=
      if m.isCloseToMax then (g.setTextSize 1).println "CloseToMAX.." else g.setTextSize 2
    { m with gfx := (g.println (toString n.toNat)).display }
  else
    let g := (g.setTextSize 1).println "Overflowing"
    { m with gfx := (g.println (toString maxCnt.toNat)).display, isOverflow := true }

/-- `displayText` up to its `delay(2000)`; `displayNum(cnt)` follows the delay. -/
def displayText (text : String) (m : Mem ε) : Mem ε :=
  let g := (m.gfx.clearDisplay.setCursor 0 3).setTextSize 1
  let g := ((g.println "-------------------").println text).println "-------------------"
  { m with gfx := g.display }

def startDisplay (m : Mem ε) : Mem ε :=
  let g := (m.gfx.clearDisplay.setTextSize 1).setCursor 0 0
  let g := (g.println "Keyboard").setCursor 48 10
  let g := (g.println "Stokes").setCursor 85 20
  { m with gfx := (g.println "Counter").display }

def turnOnLed (m : Mem ε) : Mem ε := { m with d6 := .high }

def turnOffLed (m : Mem ε) : Mem ε := { m with d6 := .low }

/-! ## What the button and the events do, up to the delay in `displayText` -/

def manualWriteCnt (E : Esp ε) (m : Mem ε) : Mem ε :=
  let (writeRes, m) := writeCnt E m
  displayText (if writeRes then "Saved !" else "Save Failed !") m

def manualSetCnt (m : Mem ε) : Mem ε := displayText "updated !" m

def manualClearCnt (E : Esp ε) (m : Mem ε) : Mem ε :=
  displayText "Cleared !" { clearCnt E m with cnt := 0 }

def enableWifi (m : Mem ε) : Mem ε := displayText "WiFi ON" { m with isWifiOn := true }

def disableWifi (m : Mem ε) : Mem ε := displayText "WiFi OFF" { m with isWifiOn := false }

/-- `setup` with an EEPROM in state `e`, when `display.begin` succeeds; it
leaves a session of 256 bytes open before the count is read. -/
def setup (E : Esp ε) (e : ε) : Mem ε :=
  let m : Mem ε := { eeprom := E.eepromBegin e 256 }
  let m := turnOffLed m
  let (cnt, m) := readCnt E m
  let m := startDisplay { m with cnt := cnt }
  displayNum m.cnt m

/-! ## Drawing changes the screen and the latch only -/

theorem eq_maxCnt_of_not_lt {n : UInt32} (h : ¬ n < maxCnt) : n = maxCnt := by
  have hmax : maxCnt.toNat = 4294967295 := rfl
  have hlt := n.toNat_lt
  rw [UInt32.lt_iff_toNat_lt] at h
  apply UInt32.toNat_inj.1
  omega

theorem ne_maxCnt_of_lt {n : UInt32} (h : n.toNat < maxCnt.toNat) : n ≠ maxCnt := by
  rintro rfl
  exact absurd h (Nat.lt_irrefl _)

theorem displayNum_eq (n : UInt32) (m : Mem ε) :
    displayNum n m =
      { m with gfx := (displayNum n m).gfx, isOverflow := m.isOverflow || n == maxCnt } := by
  unfold displayNum
  split
  next h =>
    have hne : n ≠ maxCnt := by rintro rfl; exact absurd h (by decide)
    simp [hne]
  next =>
    split
    next h =>
      have hne : n ≠ maxCnt := by rintro rfl; exact absurd h (by decide)
      simp [hne]
    next =>
      split
      next h =>
        have hne : n ≠ maxCnt := by rintro rfl; exact absurd h (by decide)
        simp [hne]
      next h => simp [eq_maxCnt_of_not_lt h]

section Fields

variable (n : UInt32) (m : Mem ε)

@[simp] theorem displayNum_cnt : (displayNum n m).cnt = m.cnt := by rw [displayNum_eq]

@[simp] theorem displayNum_event : (displayNum n m).event = m.event := by rw [displayNum_eq]

@[simp] theorem displayNum_last : (displayNum n m).last = m.last := by rw [displayNum_eq]

@[simp] theorem displayNum_eeprom : (displayNum n m).eeprom = m.eeprom := by rw [displayNum_eq]

@[simp] theorem displayNum_isOverflow :
    (displayNum n m).isOverflow = (m.isOverflow || n == maxCnt) := by
  rw [displayNum_eq]

end Fields

end Byter
