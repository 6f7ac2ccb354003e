import Mathlib.Data.Finset.Dedup
import Mathlib.Data.List.GetD
import Byter.Counting.Exact
import Byter.Population.Turnover

/-!
# Counting reports of a well-behaved keyboard

A keyboard report lists the keys that are down in its leading slots, each once,
and fills the rest with zeros. Read as a set of keys, a report is a census of
the keyboard, and what the frame code counts is the shrinkage of that
population: a slot is released exactly when the list has become too short to
reach it. Key presses are arrivals, so the presses that are never counted are
the turnover, the keys that go up while others go down in the same report.
-/

namespace Byter

open Population

/-- A keyboard report: distinct usage ids in the valid range, at most six. -/
structure KeyReport where
  keys : List Int
  nodup : keys.Nodup
  valid : ∀ k ∈ keys, validMinUsageId ≤ k ∧ k ≤ validMaxUsageId
  fits : keys.length ≤ 6

namespace KeyReport

/-- The six slots of a report: its keys, followed by zeros. -/
def slots (r : KeyReport) : Slots :=
  ⟨r.keys.getD 0 0, r.keys.getD 1 0, r.keys.getD 2 0,
    r.keys.getD 3 0, r.keys.getD 4 0, r.keys.getD 5 0⟩

/-- The keys that are down. -/
def down (r : KeyReport) : Finset Int := r.keys.toFinset

/-- The report with no key down. -/
def empty : KeyReport := ⟨[], List.nodup_nil, by simp, by simp⟩

@[simp] theorem empty_slots : empty.slots = .zero := rfl

@[simp] theorem empty_down : empty.down = ∅ := rfl

theorem card_down (r : KeyReport) : r.down.card = r.keys.length :=
  List.toFinset_card_of_nodup r.nodup

theorem getD_valid (r : KeyReport) {i : ℕ} (hi : i < r.keys.length) :
    validMinUsageId ≤ r.keys.getD i 0 ∧ r.keys.getD i 0 ≤ validMaxUsageId := by
  rw [List.getD_eq_getElem _ _ hi]
  exact r.valid _ (List.getElem_mem hi)

/-- A slot is zero exactly when the list of keys does not reach it. -/
theorem getD_eq_zero_iff (r : KeyReport) (i : ℕ) :
    r.keys.getD i 0 = 0 ↔ r.keys.length ≤ i := by
  constructor
  · intro hzero
    by_contra hi
    have hvalid := r.getD_valid (Nat.lt_of_not_le hi)
    rw [hzero] at hvalid
    exact absurd hvalid.1 (by decide)
  · exact List.getD_eq_default _ _

/-- Two slots with the same key are the same slot. -/
theorem getD_inj (r : KeyReport) {i j : ℕ} (hi : r.keys.getD i 0 ≠ 0)
    (hij : r.keys.getD i 0 = r.keys.getD j 0) : i = j := by
  have hi' : i < r.keys.length := by
    rw [Ne, getD_eq_zero_iff] at hi
    omega
  have hj' : j < r.keys.length := by
    rw [hij, Ne, getD_eq_zero_iff] at hi
    omega
  rw [List.getD_eq_getElem _ _ hi', List.getD_eq_getElem _ _ hj'] at hij
  exact (List.Nodup.getElem_inj_iff r.nodup).1 hij

theorem duplicates_eq_zero (r : KeyReport) : duplicates r.slots = 0 := by
  have h37 : ¬(r.slots.v3 ≠ 0 ∧ r.slots.v3 = r.slots.v7) := by
    rintro ⟨hne, heq⟩
    exact absurd (r.getD_inj hne heq) (by decide)
  have h48 : ¬(r.slots.v4 ≠ 0 ∧ r.slots.v4 = r.slots.v8) := by
    rintro ⟨hne, heq⟩
    exact absurd (r.getD_inj hne heq) (by decide)
  rw [duplicates, if_neg h37, if_neg h48]

/-- The update of one slot from one report to the next: the new value is
remembered, and a release is counted when only the old list reached the slot. -/
theorem slotUpdate_getD (r r' : KeyReport) (i : ℕ) :
    slotUpdate (r.keys.getD i 0) (r'.keys.getD i 0) =
      (r'.keys.getD i 0,
        if r'.keys.length ≤ i ∧ i < r.keys.length then 1 else 0) := by
  have hlast := r.getD_eq_zero_iff i
  by_cases hi : i < r'.keys.length
  · obtain ⟨hmin, hmax⟩ := r'.getD_valid hi
    have hv : ¬ r'.keys.getD i 0 = 0 := by
      rw [r'.getD_eq_zero_iff]
      omega
    rw [if_neg (by omega), slotUpdate]
    split_ifs with hnew hrel
    · rfl
    · exact absurd hrel.1 hv
    · have hsame : r.keys.getD i 0 = r'.keys.getD i 0 := by
        by_contra hne
        exact hnew ⟨hmin, hmax, hne⟩
      rw [hsame]
  · have hv : r'.keys.getD i 0 = 0 := (r'.getD_eq_zero_iff i).2 (by omega)
    rw [hv, slotUpdate, if_neg (by rintro ⟨hmin, -⟩; exact absurd hmin (by decide))]
    by_cases hold : i < r.keys.length
    · rw [if_pos ⟨rfl, by rw [Ne, hlast]; omega⟩, if_pos ⟨by omega, hold⟩]
    · rw [if_neg (by rw [Ne, hlast]; omega), if_neg (by omega), hlast.2 (by omega)]

/-- After a report the remembered slots are those of the report. -/
theorem remember_slots (r r' : KeyReport) : remember r.slots r'.slots = r'.slots := by
  simp only [remember, slots, slotUpdate_getD]

/-- A report releases as many slots as there are fewer keys down. -/
theorem released_slots (r r' : KeyReport) :
    released r.slots r'.slots = shrinkage r.down r'.down := by
  have hr := r.fits
  have hr' := r'.fits
  simp only [released, slots, slotUpdate_getD, shrinkage, card_down]
  split_ifs <;> omega

end KeyReport

variable {ε : Type*}

/-- One report: the remembered slots become those of the report, and the count
grows by the fall in the number of keys down. -/
theorem keyFrame_report (r r' : KeyReport) {m : Mem ε} (hlast : m.last = r.slots)
    (hroom : m.cnt.toNat + shrinkage r.down r'.down < maxCnt.toNat) :
    (keyFrame r'.slots m).last = r'.slots ∧
      (keyFrame r'.slots m).cnt.toNat = m.cnt.toNat + shrinkage r.down r'.down ∧
      (keyFrame r'.slots m).isOverflow = m.isOverflow := by
  have hrel : released m.last r'.slots = shrinkage r.down r'.down := by
    rw [hlast, KeyReport.released_slots]
  have hdup := r'.duplicates_eq_zero
  have hexact : (keyFrame r'.slots m).cnt.toNat = m.cnt.toNat + shrinkage r.down r'.down := by
    rw [keyFrame_cnt_exact (by rw [HasRoom, hrel, hdup]; omega), hrel, hdup]
    omega
  refine ⟨?_, hexact, ?_⟩
  · rw [keyFrame_last, hlast, KeyReport.remember_slots]
  · have hne : (keyFrame r'.slots m).cnt ≠ maxCnt := ne_maxCnt_of_lt (by omega)
    rw [keyFrame_isOverflow]
    simp [hne]

/-- The frame code on reports, in order. -/
def hand (rs : List KeyReport) (m : Mem ε) : Mem ε :=
  rs.foldl (fun m r => keyFrame r.slots m) m

/-- What is down after each report. -/
def downs (rs : List KeyReport) : List (Finset Int) := rs.map KeyReport.down

@[simp] theorem hand_nil (m : Mem ε) : hand [] m = m := rfl

@[simp] theorem hand_cons (r : KeyReport) (rs : List KeyReport) (m : Mem ε) :
    hand (r :: rs) m = hand rs (keyFrame r.slots m) := rfl

@[simp] theorem downs_cons (r : KeyReport) (rs : List KeyReport) :
    downs (r :: rs) = r.down :: downs rs := rfl

theorem downs_append (rs rs' : List KeyReport) : downs (rs ++ rs') = downs rs ++ downs rs' :=
  List.map_append

/-- A run of reports that has room for its whole shrinkage: the remembered slots
are those of the last report, the count has grown by the shrinkage, and the
latch is as before. -/
theorem hand_reports (r : KeyReport) (rs : List KeyReport) {m : Mem ε}
    (hlast : m.last = r.slots)
    (hroom : m.cnt.toNat + stepSum shrinkage r.down (downs rs) < maxCnt.toNat) :
    (hand rs m).last = (rs.getLastD r).slots ∧
      (hand rs m).cnt.toNat = m.cnt.toNat + stepSum shrinkage r.down (downs rs) ∧
      (hand rs m).isOverflow = m.isOverflow := by
  induction rs generalizing r m with
  | nil => simp [hlast, downs]
  | cons r' rs ih =>
      rw [downs_cons, stepSum_cons] at hroom ⊢
      obtain ⟨hlast', hcnt', hlatch'⟩ := keyFrame_report r r' hlast (by omega)
      obtain ⟨hlast'', hcnt'', hlatch''⟩ := ih r' hlast' (by omega)
      rw [hand_cons, List.getLastD_cons]
      exact ⟨hlast'', by omega, hlatch''.trans hlatch'⟩

/-- The shrinkage of a run is at least that of its beginning. -/
theorem stepSum_downs_le (pre post : List KeyReport) :
    stepSum shrinkage ∅ (downs pre) ≤ stepSum shrinkage ∅ (downs (pre ++ post)) := by
  rw [downs_append, stepSum_append]
  omega

/-- The shortfall under rollover. From no key down and with room for the whole
run, after every report the remembered slots are those of the report, the count
has grown by the sum of the falls in the number of keys down, and the latch is
still low. If the run ends with no key down, the presses exceed the growth of
the count by the turnover, and the count is right exactly when no report both
adds and drops a key. -/
theorem rollover_shortfall (m : Mem ε) (hlast : m.last = .zero) (hlatch : m.isOverflow = false)
    (rs : List KeyReport)
    (hroom : m.cnt.toNat + stepSum shrinkage ∅ (downs rs) < maxCnt.toNat) :
    (∀ pre r post, rs = pre ++ r :: post →
      (hand (pre ++ [r]) m).last = r.slots ∧
        (hand (pre ++ [r]) m).cnt.toNat =
          m.cnt.toNat + stepSum shrinkage ∅ (downs (pre ++ [r])) ∧
        (hand (pre ++ [r]) m).isOverflow = false) ∧
      ((downs rs).getLastD ∅ = ∅ →
        (stepSum arrivals ∅ (downs rs) : ℤ) - ((hand rs m).cnt.toNat - m.cnt.toNat) =
            stepSum turnover ∅ (downs rs) ∧
          ((hand rs m).cnt.toNat = m.cnt.toNat + stepSum arrivals ∅ (downs rs) ↔
            (∅ :: downs rs).IsChain OneWay)) := by
  constructor
  · rintro pre r post rfl
    have hpre := stepSum_downs_le (pre ++ [r]) post
    rw [List.append_assoc, List.singleton_append] at hpre
    obtain ⟨hlast', hcnt', hlatch'⟩ :=
      hand_reports KeyReport.empty (pre ++ [r]) hlast (by rw [KeyReport.empty_down]; omega)
    rw [List.getLastD_concat] at hlast'
    exact ⟨hlast', hcnt', hlatch'.trans hlatch⟩
  · intro hend
    obtain ⟨-, hcnt, -⟩ := hand_reports KeyReport.empty rs hlast hroom
    rw [KeyReport.empty_down] at hcnt
    have hpresses := stepSum_arrivals_eq (downs rs) hend
    refine ⟨by omega, ?_⟩
    rw [← stepSum_arrivals_eq_shrinkage_iff (downs rs) hend, hcnt]
    omega

/-- One key goes down, and a second one as the first goes up. -/
def rollover : List KeyReport :=
  [⟨[4], by decide, by decide, by decide⟩, ⟨[5], by decide, by decide, by decide⟩, .empty]

theorem rollover_shortfall_rollover :
    (stepSum arrivals ∅ (downs rollover) : ℤ) -
        ((hand rollover ram).cnt.toNat - ram.cnt.toNat) =
      stepSum turnover ∅ (downs rollover) :=
  ((rollover_shortfall ram rfl rfl rollover (by decide)).2 rfl).1

/-- In a run of reports that begins and ends with no key down and has room, the
count grows by the number of key presses exactly when no report both adds and
drops a key. -/
theorem presses_counted_iff (m : Mem ε) (r₀ : KeyReport) (rs : List KeyReport)
    (hlast : m.last = .zero) (hlatch : m.isOverflow = false) (hstart : r₀.down = ∅)
    (hend : (rs.getLastD r₀).down = ∅)
    (hroom : m.cnt.toNat + stepSum shrinkage ∅ (downs (r₀ :: rs)) < maxCnt.toNat) :
    (hand (r₀ :: rs) m).isOverflow = false ∧
      ((hand (r₀ :: rs) m).cnt.toNat = m.cnt.toNat + stepSum arrivals r₀.down (downs rs) ↔
        (downs (r₀ :: rs)).IsChain OneWay) := by
  have hend' : (downs rs).getLastD ∅ = ∅ := by
    rw [← hstart, downs, List.getLastD_map]
    exact hend.trans hstart.symm
  obtain ⟨-, hcnt, hlatch'⟩ := hand_reports KeyReport.empty (r₀ :: rs) hlast hroom
  refine ⟨hlatch'.trans hlatch, ?_⟩
  rw [hcnt, downs_cons, hstart, ← stepSum_arrivals_eq_shrinkage_iff (downs rs) hend']
  simp only [KeyReport.empty_down, stepSum_cons, shrinkage]
  simp
  omega

theorem presses_counted_iff_rollover :
    (hand (.empty :: rollover) ram).cnt.toNat =
        ram.cnt.toNat + stepSum arrivals ∅ (downs rollover) ↔
      (downs (.empty :: rollover)).IsChain OneWay :=
  (presses_counted_iff ram .empty rollover rfl rfl rfl rfl (by decide)).2

/-- A key that goes down as another goes up is not counted. -/
theorem press_not_counted :
    ¬ ∀ (m : Mem Unit) (r₀ : KeyReport) (rs : List KeyReport), m.last = .zero →
      m.isOverflow = false → r₀.down = ∅ → (rs.getLastD r₀).down = ∅ →
      m.cnt.toNat + stepSum shrinkage ∅ (downs (r₀ :: rs)) < maxCnt.toNat →
      (hand (r₀ :: rs) m).cnt.toNat = m.cnt.toNat + stepSum arrivals r₀.down (downs rs) := by
  intro h
  have hcount := h ram .empty rollover rfl rfl rfl rfl (by decide)
  exact absurd hcount (by decide)

end Byter
