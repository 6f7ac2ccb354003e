import Byter.Sketch.Memory

/-!
# What `rw` does with a key frame

Once `rw` has read the six key values `v3..v8` it updates the six remembered
values, counting a release for every slot that has fallen back to zero, takes
one off the count for each pair of slots that shows a key twice, adds the
releases and redraws the count when there are any. The six updates are the same
code, written once here and applied to each slot; so are the two corrections.

`keyFrame` is that code. The lemmas after it describe its result by three
functions of the remembered slots and the frame: `remember`, `released` and
`duplicates`.
-/

namespace Byter

def validMinUsageId : Int := 4

def validMaxUsageId : Int := 99

/-- The update of one remembered value, with what it adds to `incr`. -/
def slotUpdate (last v : Int) : Int × ℕ :=
  if v ≥ validMinUsageId ∧ v ≤ validMaxUsageId ∧ last ≠ v then
    (v, 0)
  else if v = 0 ∧ last ≠ 0 then
    (0, 1)
  else
    (last, 0)

/-- One of the two corrections: `cnt --` when both slots show the same key. -/
def correct (a b : Int) (cnt : UInt32) : UInt32 :=
  if a ≠ 0 ∧ a = b then cnt - 1 else cnt

variable {ε : Type*}

/-- The part of `rw` after the last key byte is read. -/
def keyFrame (v : Slots) (m : Mem ε) : Mem ε :=
  let u3 := slotUpdate m.last.v3 v.v3
  let u4 := slotUpdate m.last.v4 v.v4
  let u5 := slotUpdate m.last.v5 v.v5
  let u6 := slotUpdate m.last.v6 v.v6
  let u7 := slotUpdate m.last.v7 v.v7
  let u8 := slotUpdate m.last.v8 v.v8
  let incr := u3.2 + u4.2 + u5.2 + u6.2 + u7.2 + u8.2
  let m := { m with last := ⟨u3.1, u4.1, u5.1, u6.1, u7.1, u8.1⟩ }
  let m := { m with cnt := correct v.v3 v.v7 m.cnt }
  let m := { m with cnt := correct v.v4 v.v8 m.cnt }
  if incr ≠ 0 then
    let m := { m with cnt := m.cnt + UInt32.ofNat incr }
    displayNum m.cnt m
  else
    m

/-- The remembered slots after a frame. -/
def remember (last v : Slots) : Slots where
  v3 := (slotUpdate last.v3 v.v3).1
  v4 := (slotUpdate last.v4 v.v4).1
  v5 := (slotUpdate last.v5 v.v5).1
  v6 := (slotUpdate last.v6 v.v6).1
  v7 := (slotUpdate last.v7 v.v7).1
  v8 := (slotUpdate last.v8 v.v8).1

/-- `incr`: how many slots a frame releases. -/
def released (last v : Slots) : ℕ :=
  (slotUpdate last.v3 v.v3).2 + (slotUpdate last.v4 v.v4).2 + (slotUpdate last.v5 v.v5).2 +
    (slotUpdate last.v6 v.v6).2 + (slotUpdate last.v7 v.v7).2 + (slotUpdate last.v8 v.v8).2

/-- How many of the two pairs `(v3, v7)` and `(v4, v8)` show a key twice. -/
def duplicates (v : Slots) : ℕ :=
  (if v.v3 ≠ 0 ∧ v.v3 = v.v7 then 1 else 0) + (if v.v4 ≠ 0 ∧ v.v4 = v.v8 then 1 else 0)

/-- The count after the two corrections. -/
def corrected (v : Slots) (cnt : UInt32) : UInt32 :=
  correct v.v4 v.v8 (correct v.v3 v.v7 cnt)

theorem slotUpdate_snd_le (last v : Int) : (slotUpdate last v).2 ≤ 1 := by
  unfold slotUpdate
  split_ifs <;> simp

theorem released_le (last v : Slots) : released last v ≤ 6 := by
  have h3 := slotUpdate_snd_le last.v3 v.v3
  have h4 := slotUpdate_snd_le last.v4 v.v4
  have h5 := slotUpdate_snd_le last.v5 v.v5
  have h6 := slotUpdate_snd_le last.v6 v.v6
  have h7 := slotUpdate_snd_le last.v7 v.v7
  have h8 := slotUpdate_snd_le last.v8 v.v8
  unfold released
  omega

theorem duplicates_le (v : Slots) : duplicates v ≤ 2 := by
  unfold duplicates
  split_ifs <;> simp

theorem keyFrame_eq (v : Slots) (m : Mem ε) :
    keyFrame v m =
      let m' : Mem ε :=
        { m with
          last := remember m.last v
          cnt := corrected v m.cnt + UInt32.ofNat (released m.last v) }
      if released m.last v ≠ 0 then displayNum m'.cnt m' else m' := by
  have hcode : keyFrame v m =
      if released m.last v ≠ 0 then
        displayNum (corrected v m.cnt + UInt32.ofNat (released m.last v))
          { m with
            last := remember m.last v
            cnt := corrected v m.cnt + UInt32.ofNat (released m.last v) }
      else { m with last := remember m.last v, cnt := corrected v m.cnt } := rfl
  by_cases h : released m.last v = 0
  · simp [hcode, h]
  · simp [hcode, h]

theorem corrected_eq (v : Slots) (cnt : UInt32) :
    corrected v cnt = cnt - UInt32.ofNat (duplicates v) := by
  unfold corrected correct duplicates
  split_ifs <;> grind

@[simp] theorem keyFrame_last (v : Slots) (m : Mem ε) :
    (keyFrame v m).last = remember m.last v := by
  rw [keyFrame_eq]
  dsimp only
  split <;> simp

theorem keyFrame_cnt (v : Slots) (m : Mem ε) :
    (keyFrame v m).cnt =
      m.cnt - UInt32.ofNat (duplicates v) + UInt32.ofNat (released m.last v) := by
  rw [keyFrame_eq, ← corrected_eq]
  dsimp only
  split <;> simp

/-- A frame acts on the count, the remembered slots, the screen and the latch. -/
theorem keyFrame_only (v : Slots) (m : Mem ε) :
    keyFrame v m =
      { m with
        cnt := (keyFrame v m).cnt
        last := (keyFrame v m).last
        gfx := (keyFrame v m).gfx
        isOverflow := (keyFrame v m).isOverflow } := by
  rw [keyFrame_eq]
  dsimp only
  split
  · rw [displayNum_eq]
  · rfl

@[simp] theorem keyFrame_event (v : Slots) (m : Mem ε) :
    (keyFrame v m).event = m.event := by
  rw [keyFrame_only]

@[simp] theorem keyFrame_eeprom (v : Slots) (m : Mem ε) :
    (keyFrame v m).eeprom = m.eeprom := by
  rw [keyFrame_only]

/-- The latch is raised by a frame that releases a key and leaves the count at
`maxCnt`, and by no other. -/
theorem keyFrame_isOverflow (v : Slots) (m : Mem ε) :
    (keyFrame v m).isOverflow =
      (m.isOverflow || (released m.last v != 0 && (keyFrame v m).cnt == maxCnt)) := by
  rw [keyFrame_cnt, keyFrame_eq, ← corrected_eq]
  by_cases h : released m.last v = 0
  · simp [h]
  · have hpos : (released m.last v != 0) = true := by simpa using h
    simp [h, hpos]

end Byter
