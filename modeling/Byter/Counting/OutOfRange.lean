import Byter.Counting.History
import Byter.Sketch.Eeprom

/-!
# Values that are not usage ids

The update of a remembered value ignores what is out of range, but the two
corrections compare the raw values of their slots. A pair of slots that shows one
value out of range twice therefore takes one off the count. Two frames that
differ only in values out of range leave the same remembered values, and the same
count exactly when they show equally many such pairs.
-/

namespace Byter

variable {ε : Type*}

/-- The byte values that are no usage id and not zero. -/
def OutOfRange (v : Int) : Prop :=
  1 ≤ v ∧ v < validMinUsageId ∨ validMaxUsageId < v ∧ v ≤ 255

instance (v : Int) : Decidable (OutOfRange v) := inferInstanceAs (Decidable (_ ∨ _))

/-- Two slot values that are equal, or both out of range. -/
def Alike (v w : Int) : Prop := v = w ∨ OutOfRange v ∧ OutOfRange w

instance (v w : Int) : Decidable (Alike v w) := inferInstanceAs (Decidable (_ ∨ _))

/-- Two frames that differ only in values out of range, in the same slots. -/
structure AlikeFrames (v w : Slots) : Prop where
  v3 : Alike v.v3 w.v3
  v4 : Alike v.v4 w.v4
  v5 : Alike v.v5 w.v5
  v6 : Alike v.v6 w.v6
  v7 : Alike v.v7 w.v7
  v8 : Alike v.v8 w.v8

/-- How many of the two pairs show one value out of range twice. -/
def strays (v : Slots) : ℕ :=
  (if OutOfRange v.v3 ∧ v.v3 = v.v7 then 1 else 0) +
    (if OutOfRange v.v4 ∧ v.v4 = v.v8 then 1 else 0)

theorem OutOfRange.ne_zero {v : Int} (h : OutOfRange v) : v ≠ 0 := by
  have hmax : validMaxUsageId = 99 := rfl
  unfold OutOfRange at h
  omega

theorem slotUpdate_outOfRange (last : Int) {v : Int} (h : OutOfRange v) :
    slotUpdate last v = (last, 0) := by
  have hne := h.ne_zero
  unfold OutOfRange at h
  rw [slotUpdate, if_neg (by omega), if_neg (by tauto)]

theorem slotUpdate_alike (last : Int) {v w : Int} (h : Alike v w) :
    slotUpdate last v = slotUpdate last w := by
  rcases h with rfl | ⟨hv, hw⟩
  · rfl
  · rw [slotUpdate_outOfRange last hv, slotUpdate_outOfRange last hw]

theorem remember_alike (last : Slots) {v w : Slots} (h : AlikeFrames v w) :
    remember last v = remember last w := by
  simp only [remember, slotUpdate_alike _ h.v3, slotUpdate_alike _ h.v4, slotUpdate_alike _ h.v5,
    slotUpdate_alike _ h.v6, slotUpdate_alike _ h.v7, slotUpdate_alike _ h.v8]

theorem released_alike (last : Slots) {v w : Slots} (h : AlikeFrames v w) :
    released last v = released last w := by
  simp only [released, slotUpdate_alike _ h.v3, slotUpdate_alike _ h.v4, slotUpdate_alike _ h.v5,
    slotUpdate_alike _ h.v6, slotUpdate_alike _ h.v7, slotUpdate_alike _ h.v8]

/-- Of the pairs that show a key twice, alike frames share those that are in
range. -/
theorem pair_alike {a b a' b' : Int} (ha : Alike a a') (hb : Alike b b') :
    (if a ≠ 0 ∧ a = b then 1 else 0) + (if OutOfRange a' ∧ a' = b' then 1 else 0) =
      (if a' ≠ 0 ∧ a' = b' then 1 else 0) + (if OutOfRange a ∧ a = b then 1 else 0) := by
  have hne : ∀ {v : Int}, OutOfRange v → v ≠ 0 := OutOfRange.ne_zero
  rcases ha with rfl | ⟨ha, ha'⟩
  · rcases hb with rfl | ⟨hb, hb'⟩
    · rfl
    · split_ifs <;> grind
  · have h := hne ha
    have h' := hne ha'
    simp [ha, ha', h, h', Nat.add_comm]

theorem duplicates_alike {v w : Slots} (h : AlikeFrames v w) :
    duplicates v + strays w = duplicates w + strays v := by
  have h37 := pair_alike h.v3 h.v7
  have h48 := pair_alike h.v4 h.v8
  unfold duplicates strays
  omega

/-- Alike frames leave the same count exactly when they show equally many pairs
out of range. -/
theorem keyFrame_cnt_alike (m : Mem ε) {v w : Slots} (h : AlikeFrames v w) :
    (keyFrame v m).cnt = (keyFrame w m).cnt ↔ strays v = strays w := by
  have hdup := duplicates_alike h
  have hv := duplicates_le v
  have hw := duplicates_le w
  rw [← UInt32.toNat_inj, keyFrame_cnt_toNat, keyFrame_cnt_toNat, released_alike m.last h]
  omega

/-! ## Frames all of whose slots are out of range -/

/-- A frame without usage ids and zeros. -/
def AllOutOfRange (v : Slots) : Prop := ∀ x ∈ v.toList, OutOfRange x

instance (v : Slots) : Decidable (AllOutOfRange v) := List.decidableBAll _ _

theorem allOutOfRange_iff (v : Slots) :
    AllOutOfRange v ↔ OutOfRange v.v3 ∧ OutOfRange v.v4 ∧ OutOfRange v.v5 ∧
      OutOfRange v.v6 ∧ OutOfRange v.v7 ∧ OutOfRange v.v8 := by
  simp [AllOutOfRange, Slots.toList]

/-- A frame out of range releases nothing and is not remembered. -/
theorem keyFrame_allOutOfRange (m : Mem ε) {v : Slots} (h : AllOutOfRange v) :
    keyFrame v m = { m with cnt := m.cnt - UInt32.ofNat (strays v) } := by
  obtain ⟨h3, h4, h5, h6, h7, h8⟩ := (allOutOfRange_iff v).1 h
  have hrel : released m.last v = 0 := by
    simp only [released, slotUpdate_outOfRange, h3, h4, h5, h6, h7, h8]
  have hlast : remember m.last v = m.last := by
    simp only [remember, slotUpdate_outOfRange, h3, h4, h5, h6, h7, h8]
  have hdup : duplicates v = strays v := by
    simp only [duplicates, strays, h3, h4, h3.ne_zero, h4.ne_zero, ne_eq, not_false_eq_true]
  rw [keyFrame_eq]
  simp [hrel, hlast, corrected_eq, hdup]

theorem frames_allOutOfRange (m : Mem ε) {vs : List Slots} (h : ∀ v ∈ vs, AllOutOfRange v) :
    frames vs m = { m with cnt := m.cnt - UInt32.ofNat (total (vs.map strays)) } := by
  induction vs generalizing m with
  | nil => simp
  | cons v vs ih =>
      rw [frames_cons, keyFrame_allOutOfRange m (h v List.mem_cons_self),
        ih _ fun w hw => h w (List.mem_cons_of_mem v hw), List.map_cons, total_cons,
        UInt32.ofNat_add]
      congr 1
      grind

/-- Two frames that differ only in values out of range leave the same remembered
values, and the same count exactly when they show equally many pairs out of
range. A run of frames all of whose slots are out of range changes no remembered
value, and keeps the count exactly when the pairs it shows are a multiple of
`2^32`. -/
theorem outOfRange_no_influence_iff (m : Mem ε) :
    (∀ v w, AlikeFrames v w →
      ((keyFrame v m).cnt = (keyFrame w m).cnt ∧ (keyFrame v m).last = (keyFrame w m).last ↔
        strays v = strays w)) ∧
      (∀ v, AllOutOfRange v →
        ((keyFrame v m).cnt = m.cnt ∧ (keyFrame v m).last = m.last ↔ strays v = 0)) ∧
      ∀ vs : List Slots, (∀ v ∈ vs, AllOutOfRange v) →
        ((frames vs m).cnt = m.cnt ∧ (frames vs m).last = m.last ↔
          4294967296 ∣ total (vs.map strays)) := by
  have hrun : ∀ vs : List Slots, (∀ v ∈ vs, AllOutOfRange v) →
      ((frames vs m).cnt = m.cnt ∧ (frames vs m).last = m.last ↔
        4294967296 ∣ total (vs.map strays)) := by
    intro vs h
    have hcnt := m.cnt.toNat_lt
    rw [frames_allOutOfRange m h, ← UInt32.toNat_inj, UInt32.toNat_sub, UInt32.toNat_ofNat']
    simp only [and_true]
    omega
  refine ⟨?_, ?_, hrun⟩
  · intro v w h
    rw [keyFrame_cnt_alike m h, keyFrame_last, keyFrame_last, remember_alike m.last h]
    simp
  · intro v h
    have hle : strays v ≤ 2 := by
      unfold strays
      split_ifs <;> simp
    have hone := hrun [v] (by simpa using h)
    rw [frames_cons, frames_nil, List.map_singleton, total_cons, total_nil, Nat.add_zero] at hone
    rw [hone]
    omega

theorem outOfRange_no_influence_iff_oneEach :
    (keyFrame ⟨4, 1, 0, 0, 4, 2⟩ ram).cnt = (keyFrame ⟨4, 100, 0, 0, 4, 255⟩ ram).cnt ∧
      (keyFrame ⟨4, 1, 0, 0, 4, 2⟩ ram).last = (keyFrame ⟨4, 100, 0, 0, 4, 255⟩ ram).last :=
  ((outOfRange_no_influence_iff ram).1 ⟨4, 1, 0, 0, 4, 2⟩ ⟨4, 100, 0, 0, 4, 255⟩
    ⟨by decide, by decide, by decide, by decide, by decide, by decide⟩).2 (by decide)

/-- The rollover report, with `1` in every slot, takes two off the count. -/
theorem rollover_report_influences :
    ¬ ∀ (e : Eeprom) (v : Slots), AllOutOfRange v →
      (keyFrame v (setup esp e)).cnt = (setup esp e).cnt ∧
        (keyFrame v (setup esp e)).last = (setup esp e).last := by
  intro h
  exact absurd (h (stored 7) ⟨1, 1, 1, 1, 1, 1⟩ (by decide)).1 (by decide)

end Byter
