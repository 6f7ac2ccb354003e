import Byter.Counting.History

/-!
# Ghost copies

When a key of the first two slots shows again in the seventh or eighth value, the
code takes one off the count for every frame in which it sees the copy. The copy
is counted once, when its slot falls back to zero. The two agree for a copy that
is seen in one frame, with its slot empty before and after; every further frame
of the copy, and every real key beside it in the slot, takes one too many off.
-/

namespace Byter

open Episode

variable {ε : Type*}

/-- Remove the ghost copies from a frame. -/
def unghost (v : Slots) : Slots :=
  { v with
    v7 := if v.v7 = v.v3 ∧ v.v3 ≠ 0 then 0 else v.v7
    v8 := if v.v8 = v.v4 ∧ v.v4 ≠ 0 then 0 else v.v8 }

/-- All slots show zero or a usage id. -/
def Slots.Valid (v : Slots) : Prop :=
  ∀ x ∈ v.toList, x = 0 ∨ validMinUsageId ≤ x ∧ x ≤ validMaxUsageId

instance (v : Slots) : Decidable v.Valid := List.decidableBAll _ _

/-- Neither frame shows a ghost copy in a slot that is in use in the other one. -/
structure Apart (v w : Slots) : Prop where
  v7 : v.v7 = v.v3 ∧ v.v3 ≠ 0 → w.v7 = 0
  v7' : w.v7 = w.v3 ∧ w.v3 ≠ 0 → v.v7 = 0
  v8 : v.v8 = v.v4 ∧ v.v4 ≠ 0 → w.v8 = 0
  v8' : w.v8 = w.v4 ∧ w.v4 ≠ 0 → v.v8 = 0

/-- What a slot shows that may carry a copy of the key `a`. -/
def heard (a b : Int) : Heard :=
  if b = 0 then .off else if b = a then .echo else .key

theorem heard_eq_off_iff (a b : Int) : heard a b = .off ↔ b = 0 := by
  unfold heard
  split_ifs with hzero <;> simp [hzero]

theorem heard_eq_echo_iff (a b : Int) : heard a b = .echo ↔ b = a ∧ a ≠ 0 := by
  unfold heard
  split_ifs with hzero <;> simp <;> grind

theorem signal_of_valid {b : Int} (h : b = 0 ∨ validMinUsageId ≤ b ∧ b ≤ validMaxUsageId)
    (a : Int) :
    signal b = (heard a b).naive ∧
      signal (if b = a ∧ a ≠ 0 then 0 else b) = (heard a b).cleaned := by
  have hmin : validMinUsageId = 4 := rfl
  unfold heard signal
  rcases h with rfl | h
  · simp [Heard.naive, Heard.cleaned]
  · have hb : b ≠ 0 := by omega
    by_cases hab : b = a
    · subst hab
      simp [hb, h, Heard.naive, Heard.cleaned]
    · simp [hb, h, hab, Heard.naive, Heard.cleaned]

/-- What a frame shows in the second slot of a pair. -/
def pairHeard (a b : Slots → Int) (v : Slots) : Heard := heard (a v) (b v)

/-- Whether a frame and the next one clash in a pair. -/
def pairClash (a b : Slots → Int) (v w : Slots) : ℕ := (pairHeard a b v).clash (pairHeard a b w)

/-- What the corrections of one pair take off too much. -/
theorem pair_shortfall (a b : Slots → Int) (vs : List Slots)
    (hvalid : ∀ v ∈ vs, b v = 0 ∨ validMinUsageId ≤ b v ∧ b v ≤ validMaxUsageId)
    (hend : b (vs.getLastD .zero) = 0) (hzero : b .zero = 0) :
    vs.countP (fun v => a v = b v ∧ a v ≠ 0) +
        slotReleases 0 (vs.map fun v => if b v = a v ∧ a v ≠ 0 then 0 else b v) =
      slotReleases 0 (vs.map b) + Population.stepSum (pairClash a b) .zero vs := by
  have hnaive : (vs.map b).map signal = (vs.map (pairHeard a b)).map Heard.naive := by
    rw [List.map_map, List.map_map]
    exact List.map_congr_left fun v hv => (signal_of_valid (hvalid v hv) (a v)).1
  have hcleaned : (vs.map fun v => if b v = a v ∧ a v ≠ 0 then 0 else b v).map signal =
      (vs.map (pairHeard a b)).map Heard.cleaned := by
    rw [List.map_map, List.map_map]
    exact List.map_congr_left fun v hv => (signal_of_valid (hvalid v hv) (a v)).2
  have hechoes : (vs.map (pairHeard a b)).count .echo =
      vs.countP fun v => a v = b v ∧ a v ≠ 0 := by
    rw [List.count, List.countP_map]
    refine List.countP_congr fun v _ => ?_
    rw [Function.comp_apply, beq_iff_eq, decide_eq_true_iff, pairHeard, heard_eq_echo_iff,
      @eq_comm _ (b v)]
  have hoff : pairHeard a b .zero = .off := (heard_eq_off_iff _ _).2 hzero
  have hlast : (vs.map (pairHeard a b)).getLastD .off = .off := by
    rw [← hoff, List.getLastD_map, hoff]
    exact (heard_eq_off_iff _ _).2 hend
  have hcount := count_echoes_of_last_off hlast
  rw [clashes, ← hoff, Population.stepSum_map, hechoes, ← hnaive, ← hcleaned] at hcount
  exact hcount

/-! ## Whole frames -/

/-- How often a frame and the next one clash, in either pair. -/
def frameClash (v w : Slots) : ℕ :=
  pairClash (·.v3) (·.v7) v w + pairClash (·.v4) (·.v8) v w

theorem frameClash_eq_zero_iff (v w : Slots) : frameClash v w = 0 ↔ Apart v w := by
  rw [frameClash, Nat.add_eq_zero_iff, pairClash, pairClash, Heard.clash_eq_zero_iff,
    Heard.clash_eq_zero_iff]
  simp only [pairHeard, heard_eq_off_iff, heard_eq_echo_iff]
  constructor
  · rintro ⟨⟨h7, h7'⟩, h8, h8'⟩
    exact ⟨h7, h7', h8, h8'⟩
  · rintro ⟨h7, h7', h8, h8'⟩
    exact ⟨⟨h7, h7'⟩, h8, h8'⟩

theorem duplicates_unghost (v : Slots) : duplicates (unghost v) = 0 := by
  unfold duplicates unghost
  dsimp only
  split_ifs <;> grind

theorem allDuplicates_unghost (vs : List Slots) : allDuplicates (vs.map unghost) = 0 := by
  induction vs with
  | nil => rfl
  | cons v vs ih => rw [List.map_cons, allDuplicates_cons, duplicates_unghost, ih]

/-- From all keys up to all keys up, the releases less the duplicates fall short
of the releases without ghost copies by the clashes. -/
theorem ghost_shortfall {vs : List Slots} (hkeys : ∀ v ∈ vs, v.Valid)
    (hend : vs.getLastD .zero = .zero) :
    allDuplicates vs + releases .zero (vs.map unghost) =
      releases .zero vs + Population.stepSum frameClash .zero vs := by
  have hvalid : ∀ v ∈ vs, (v.v7 = 0 ∨ validMinUsageId ≤ v.v7 ∧ v.v7 ≤ validMaxUsageId) ∧
      (v.v8 = 0 ∨ validMinUsageId ≤ v.v8 ∧ v.v8 ≤ validMaxUsageId) :=
    fun v hv => ⟨hkeys v hv _ (by simp [Slots.toList]), hkeys v hv _ (by simp [Slots.toList])⟩
  have h37 := pair_shortfall (·.v3) (·.v7) vs (fun v hv => (hvalid v hv).1) (by rw [hend]; rfl) rfl
  have h48 := pair_shortfall (·.v4) (·.v8) vs (fun v hv => (hvalid v hv).2) (by rw [hend]; rfl) rfl
  unfold frameClash
  rw [allDuplicates_eq, releases_eq, releases_eq, Population.stepSum_add]
  simp only [List.map_map, Function.comp_def, unghost, Slots.zero]
  simp only [Slots.zero] at h37 h48
  omega

/-- Between all keys up and all keys up, away from the ends of the range, the
count changes as if the ghost copies were not there exactly when every copy is
seen in one frame only, with its slot empty in the frames before and after. -/
theorem ghost_counted_once_iff (m : Mem ε) (vs : List Slots) (hlast : m.last = .zero)
    (hkeys : ∀ v ∈ vs, v.Valid) (hend : vs.getLastD .zero = .zero)
    (haway : Away vs m) (haway' : Away (vs.map unghost) m) :
    ((frames vs m).cnt.toNat : ℤ) - m.cnt.toNat =
        (frames (vs.map unghost) m).cnt.toNat - m.cnt.toNat ↔
      (Slots.zero :: vs).IsChain Apart := by
  have hshort := ghost_shortfall hkeys hend
  have hcnt := (frames_exact haway).1
  have hcnt' := (frames_exact haway').1
  rw [hlast] at hcnt hcnt'
  rw [allDuplicates_unghost] at hcnt'
  have hchain : (Slots.zero :: vs).IsChain Apart ↔ Population.stepSum frameClash .zero vs = 0 := by
    rw [Population.stepSum_eq_zero_iff]
    simp only [frameClash_eq_zero_iff]
  rw [hchain]
  omega

/-- A key whose copy is seen in one frame. -/
def shortGhost : List Slots :=
  [⟨4, 0, 0, 0, 0, 0⟩, ⟨4, 0, 0, 0, 4, 0⟩, ⟨4, 0, 0, 0, 0, 0⟩, .zero]

theorem ghost_counted_once_iff_shortGhost :
    ((frames shortGhost { ram with cnt := 7 }).cnt.toNat : ℤ) - 7 =
        (frames (shortGhost.map unghost) { ram with cnt := 7 }).cnt.toNat - 7 ↔
      (Slots.zero :: shortGhost).IsChain Apart :=
  ghost_counted_once_iff { ram with cnt := 7 } shortGhost rfl (by decide) rfl (by decide)
    (by decide)

/-- A key whose copy is seen in two frames is not counted at all. -/
theorem long_ghost_not_counted :
    ¬ ∀ (m : Mem Unit) (vs : List Slots), m.last = .zero → m.isOverflow = false →
      (∀ v ∈ vs, v.Valid) → vs.head? = some .zero → vs.getLastD .zero = .zero → Away vs m →
      Away (vs.map unghost) m →
      ((frames vs m).cnt.toNat : ℤ) - m.cnt.toNat =
        (frames (vs.map unghost) m).cnt.toNat - m.cnt.toNat := by
  intro h
  have hcount := h { ram with cnt := 7 }
    [.zero, ⟨4, 0, 0, 0, 4, 0⟩, ⟨4, 0, 0, 0, 4, 0⟩, .zero] rfl rfl (by decide) rfl rfl (by decide)
    (by decide)
  exact absurd hcount (by decide)

end Byter
