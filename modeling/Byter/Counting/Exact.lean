import Byter.Sketch.Frame

/-!
# The count as a number

`cnt` is an `unsigned int`: the two corrections and the increment are carried
out modulo `2^32`. A frame has room when there is enough to take the duplicates
from and the result does not pass `maxCnt`. Exactly then does the stored count
follow the integers, with no intermediate value out of range either.
-/

namespace Byter

variable {ε : Type*}

theorem keyFrame_cnt_toNat (v : Slots) (m : Mem ε) :
    (keyFrame v m).cnt.toNat =
      (m.cnt.toNat + 4294967296 - duplicates v + released m.last v) % 4294967296 := by
  have hcnt := m.cnt.toNat_lt
  have hdup := duplicates_le v
  rw [keyFrame_cnt, UInt32.toNat_add, UInt32.toNat_sub, UInt32.toNat_ofNat',
    UInt32.toNat_ofNat']
  omega

/-- A frame leaves the count as it was exactly when it releases as many slots as
it shows duplicates. -/
theorem keyFrame_cnt_eq_iff (v : Slots) (m : Mem ε) :
    (keyFrame v m).cnt = m.cnt ↔ released m.last v = duplicates v := by
  have hcnt := m.cnt.toNat_lt
  have hdup := duplicates_le v
  have hrel := released_le m.last v
  rw [← UInt32.toNat_inj, keyFrame_cnt_toNat]
  omega

/-- How many of the held slots a frame shows empty. -/
def freed (last v : Slots) : ℕ :=
  (last.toList.zip v.toList).countP fun p => p.1 ≠ 0 ∧ p.2 = 0

theorem slotUpdate_snd (last v : Int) :
    (slotUpdate last v).2 = if last ≠ 0 ∧ v = 0 then 1 else 0 := by
  have hmin : validMinUsageId = 4 := rfl
  unfold slotUpdate
  split_ifs <;> first | rfl | omega

theorem released_eq_freed (last v : Slots) : released last v = freed last v := by
  simp only [released, slotUpdate_snd, freed, Slots.toList, List.zip_cons_cons, List.zip_nil_right,
    List.countP_cons, List.countP_nil, decide_eq_true_eq]
  omega

/-- There is enough to take the duplicates from, and the releases do not lead
past `maxCnt`. -/
def HasRoom (v : Slots) (m : Mem ε) : Prop :=
  duplicates v ≤ m.cnt.toNat ∧
    m.cnt.toNat + released m.last v ≤ maxCnt.toNat + duplicates v

theorem keyFrame_cnt_exact {v : Slots} {m : Mem ε} (h : HasRoom v m) :
    (keyFrame v m).cnt.toNat = m.cnt.toNat - duplicates v + released m.last v := by
  obtain ⟨hlow, hhigh⟩ := h
  have hmax : maxCnt.toNat = 4294967295 := rfl
  rw [keyFrame_cnt_toNat]
  omega

/-- The count follows the integers on a frame: the stored value is the exact
one, it is in range, and no decrement or increment on the way leaves the range. -/
structure CountsExactly (v : Slots) (m : Mem ε) : Prop where
  stored : ((keyFrame v m).cnt.toNat : ℤ) = m.cnt.toNat + released m.last v - duplicates v
  nonneg : 0 ≤ (m.cnt.toNat : ℤ) + released m.last v - duplicates v
  le_maxCnt : (m.cnt.toNat : ℤ) + released m.last v - duplicates v ≤ maxCnt.toNat
  first_decrement : v.v3 ≠ 0 ∧ v.v3 = v.v7 → m.cnt ≠ 0
  second_decrement : v.v4 ≠ 0 ∧ v.v4 = v.v8 → correct v.v3 v.v7 m.cnt ≠ 0
  increment : (corrected v m.cnt).toNat + released m.last v ≤ maxCnt.toNat

theorem correct_toNat {a b : Int} {cnt : UInt32} (h : a ≠ 0 ∧ a = b → cnt ≠ 0) :
    (correct a b cnt).toNat = cnt.toNat - if a ≠ 0 ∧ a = b then 1 else 0 := by
  unfold correct
  split
  next hdup =>
    have hne : cnt.toNat ≠ 0 := by
      intro hzero
      exact h hdup (UInt32.toNat_inj.1 hzero)
    have hlt := cnt.toNat_lt
    rw [UInt32.toNat_sub]
    simp
    omega
  next => rfl

/-- No decrement meets a zero exactly when there is enough for all of them. -/
theorem decrements_iff (v : Slots) (cnt : UInt32) :
    ((v.v3 ≠ 0 ∧ v.v3 = v.v7 → cnt ≠ 0) ∧
      (v.v4 ≠ 0 ∧ v.v4 = v.v8 → correct v.v3 v.v7 cnt ≠ 0)) ↔
      duplicates v ≤ cnt.toNat := by
  have hzero : ∀ c : UInt32, c ≠ 0 ↔ 1 ≤ c.toNat := by
    intro c
    rw [Ne, ← UInt32.toNat_inj]
    simp
    omega
  constructor
  · rintro ⟨hfirst, hsecond⟩
    rw [hzero, correct_toNat hfirst] at hsecond
    rw [hzero] at hfirst
    by_cases h3 : v.v3 ≠ 0 ∧ v.v3 = v.v7
    · have hone := hfirst h3
      by_cases h4 : v.v4 ≠ 0 ∧ v.v4 = v.v8
      · have htwo := hsecond h4
        rw [if_pos h3] at htwo
        rw [duplicates, if_pos h3, if_pos h4]
        omega
      · rw [duplicates, if_pos h3, if_neg h4]
        omega
    · by_cases h4 : v.v4 ≠ 0 ∧ v.v4 = v.v8
      · have hone := hsecond h4
        rw [if_neg h3] at hone
        rw [duplicates, if_neg h3, if_pos h4]
        omega
      · rw [duplicates, if_neg h3, if_neg h4]
        omega
  · intro h
    have hfirst : v.v3 ≠ 0 ∧ v.v3 = v.v7 → cnt ≠ 0 := by
      intro hdup
      rw [hzero]
      rw [duplicates, if_pos hdup] at h
      omega
    refine ⟨hfirst, ?_⟩
    intro hdup
    rw [hzero, correct_toNat hfirst]
    rw [duplicates, if_pos hdup] at h
    omega

theorem countsExactly_iff (v : Slots) (m : Mem ε) : CountsExactly v m ↔ HasRoom v m := by
  have hcnt := m.cnt.toNat_lt
  have hmax : maxCnt.toNat = 4294967295 := rfl
  constructor
  · intro h
    have hlow := (decrements_iff v m.cnt).1 ⟨h.first_decrement, h.second_decrement⟩
    have hhigh := h.le_maxCnt
    refine ⟨hlow, ?_⟩
    omega
  · intro h
    have hstored := keyFrame_cnt_exact h
    obtain ⟨hlow, hhigh⟩ := h
    obtain ⟨hfirst, hsecond⟩ := (decrements_iff v m.cnt).2 hlow
    have hcorrected : (corrected v m.cnt).toNat = m.cnt.toNat - duplicates v := by
      rw [corrected, correct_toNat hsecond, correct_toNat hfirst, duplicates]
      omega
    exact
      { stored := by omega
        nonneg := by omega
        le_maxCnt := by omega
        first_decrement := hfirst
        second_decrement := hsecond
        increment := by omega }

end Byter
