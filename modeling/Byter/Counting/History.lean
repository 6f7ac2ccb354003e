import Byter.Counting.Exact
import Byter.Episode.Basic
import Byter.Sketch.Parser

/-!
# The count as a function of the frames

A slot is a sensor in the sense of `Episode`: a value in the valid range is on,
zero is off, and any other value says nothing. The update of a remembered value
is the automaton that counts the episodes, and the six slots run it side by side.
The remembered values and the count after a run of frames are therefore read off
the six columns of the frames.
-/

namespace Byter

open Episode

/-- What the value of a slot says. -/
def signal (v : Int) : Signal :=
  if v = 0 then .off else if validMinUsageId ≤ v ∧ v ≤ validMaxUsageId then .on else .skip

theorem signal_eq_off_iff (v : Int) : signal v = .off ↔ v = 0 := by
  unfold signal
  split_ifs with hzero <;> simp [hzero]

theorem signal_eq_on_iff (v : Int) :
    signal v = .on ↔ validMinUsageId ≤ v ∧ v ≤ validMaxUsageId := by
  have hmin : validMinUsageId = 4 := rfl
  unfold signal
  split_ifs with hzero hvalid <;> simp <;> omega

/-- The update counts the episode that ends. -/
theorem slotUpdate_ends (last v : Int) :
    (slotUpdate last v).2 = ends (last ≠ 0) (signal v) := by
  rw [slotUpdate_snd]
  cases h : signal v with
  | off =>
      rw [signal_eq_off_iff] at h
      by_cases hlast : last = 0 <;> simp [ends, h, hlast]
  | on | skip =>
      have hv : v ≠ 0 := by
        rw [Ne, ← signal_eq_off_iff, h]
        simp
      simp [ends, hv]

/-- A value is remembered as long as the episode is open. -/
theorem slotUpdate_holds (last v : Int) :
    decide ((slotUpdate last v).1 ≠ 0) = holds (last ≠ 0) (signal v) := by
  have hmin : validMinUsageId = 4 := rfl
  unfold slotUpdate signal
  split_ifs <;> simp [holds] <;> omega

/-! ## Runs of frames -/

variable {ε : Type*}

/-- The frame code on frames, in order. -/
def frames (vs : List Slots) (m : Mem ε) : Mem ε := vs.foldl (fun m v => keyFrame v m) m

@[simp] theorem frames_nil (m : Mem ε) : frames [] m = m := rfl

@[simp] theorem frames_cons (v : Slots) (vs : List Slots) (m : Mem ε) :
    frames (v :: vs) m = frames vs (keyFrame v m) := rfl

theorem frames_append (vs ws : List Slots) (m : Mem ε) :
    frames (vs ++ ws) m = frames ws (frames vs m) := by
  simp [frames]

theorem actAll_eq_frames (fs : List Report) (m : Mem ε) :
    actAll fs m = frames (fs.map Report.slots) m := by
  rw [frames, List.foldl_map, actAll]

/-- What each of the six slots shows in a run of frames. -/
def columns (vs : List Slots) : List (List Int) :=
  [vs.map (·.v3), vs.map (·.v4), vs.map (·.v5), vs.map (·.v6), vs.map (·.v7), vs.map (·.v8)]

/-- The releases that a slot shows in a run of frames. -/
def slotReleases (last : Int) (xs : List Int) : ℕ := count (last ≠ 0) (xs.map signal)

/-- The sum of a list. -/
def total : List ℕ → ℕ
  | [] => 0
  | n :: ns => n + total ns

@[simp] theorem total_nil : total [] = 0 := rfl

@[simp] theorem total_cons (n : ℕ) (ns : List ℕ) : total (n :: ns) = n + total ns := rfl

/-- The releases that the six slots show in a run of frames. -/
def releases (last : Slots) (vs : List Slots) : ℕ :=
  total (List.zipWith slotReleases last.toList (columns vs))

/-- The duplicates in a run of frames. -/
def allDuplicates (vs : List Slots) : ℕ := total (vs.map duplicates)

theorem slotReleases_cons (last v : Int) (xs : List Int) :
    slotReleases last (v :: xs) =
      (slotUpdate last v).2 + slotReleases (slotUpdate last v).1 xs := by
  rw [slotReleases, List.map_cons, count_cons, slotReleases, slotUpdate_holds, slotUpdate_ends]

theorem releases_eq (last : Slots) (vs : List Slots) :
    releases last vs =
      slotReleases last.v3 (vs.map (·.v3)) + slotReleases last.v4 (vs.map (·.v4)) +
        slotReleases last.v5 (vs.map (·.v5)) + slotReleases last.v6 (vs.map (·.v6)) +
        slotReleases last.v7 (vs.map (·.v7)) + slotReleases last.v8 (vs.map (·.v8)) := by
  simp only [releases, Slots.toList, columns, List.zipWith_cons_cons, List.zipWith_nil_right,
    total_cons, total_nil]
  omega

@[simp] theorem releases_nil (last : Slots) : releases last [] = 0 := by
  simp [releases_eq, slotReleases]

theorem releases_cons (last v : Slots) (vs : List Slots) :
    releases last (v :: vs) = released last v + releases (remember last v) vs := by
  simp only [releases_eq, List.map_cons, slotReleases_cons, released, remember]
  omega

@[simp] theorem allDuplicates_nil : allDuplicates [] = 0 := rfl

theorem allDuplicates_cons (v : Slots) (vs : List Slots) :
    allDuplicates (v :: vs) = duplicates v + allDuplicates vs := by
  simp [allDuplicates]

/-- The duplicates of a run, pair by pair. -/
theorem allDuplicates_eq (vs : List Slots) :
    allDuplicates vs =
      vs.countP (fun v => v.v3 = v.v7 ∧ v.v3 ≠ 0) +
        vs.countP (fun v => v.v4 = v.v8 ∧ v.v4 ≠ 0) := by
  induction vs with
  | nil => rfl
  | cons v vs ih =>
      rw [allDuplicates_cons, ih, List.countP_cons, List.countP_cons, duplicates]
      simp only [decide_eq_true_eq, and_comm]
      omega

/-- The count after a run of frames, as the code computes it. -/
theorem frames_cnt (vs : List Slots) (m : Mem ε) :
    (frames vs m).cnt =
      m.cnt + UInt32.ofNat (releases m.last vs) - UInt32.ofNat (allDuplicates vs) := by
  induction vs generalizing m with
  | nil => simp
  | cons v vs ih =>
      rw [frames_cons, ih, keyFrame_cnt, keyFrame_last, releases_cons, allDuplicates_cons,
        UInt32.ofNat_add, UInt32.ofNat_add]
      grind

/-! ## Runs away from the ends of the range -/

/-- No frame of a run has to take more than the count, or leads up to `maxCnt`. -/
def Away : List Slots → Mem ε → Prop
  | [], _ => True
  | v :: vs, m =>
      (duplicates v ≤ m.cnt.toNat ∧
          m.cnt.toNat + released m.last v < maxCnt.toNat + duplicates v) ∧
        Away vs (keyFrame v m)

instance decidableAway (vs : List Slots) (m : Mem ε) : Decidable (Away vs m) :=
  match vs with
  | [] => isTrue trivial
  | v :: vs =>
      have : Decidable (Away vs (keyFrame v m)) := decidableAway vs _
      inferInstanceAs (Decidable (_ ∧ _))

theorem keyFrame_cnt_of_away {v : Slots} {vs : List Slots} {m : Mem ε} (h : Away (v :: vs) m) :
    (keyFrame v m).cnt.toNat = m.cnt.toNat - duplicates v + released m.last v :=
  keyFrame_cnt_exact ⟨h.1.1, h.1.2.le⟩

/-- Away from the ends the count follows the integers, and the latch stays as it
is. -/
theorem frames_exact {vs : List Slots} {m : Mem ε} (h : Away vs m) :
    ((frames vs m).cnt.toNat : ℤ) = m.cnt.toNat + releases m.last vs - allDuplicates vs ∧
      (frames vs m).isOverflow = m.isOverflow := by
  induction vs generalizing m with
  | nil => simp
  | cons v vs ih =>
      have hexact := keyFrame_cnt_of_away h
      obtain ⟨⟨henough, hlow⟩, haway⟩ := h
      obtain ⟨hcnt, hlatch⟩ := ih haway
      have hne : (keyFrame v m).cnt ≠ maxCnt := ne_maxCnt_of_lt (by omega)
      constructor
      · rw [frames_cons, hcnt, hexact, keyFrame_last, releases_cons, allDuplicates_cons]
        omega
      · rw [frames_cons, hlatch, keyFrame_isOverflow]
        simp [hne]

/-! ## The closed form -/

/-- The newest value in range that a slot has shown since it last showed zero, or
zero if there is none. -/
def recentKey (xs : List Int) : Int := (recent signal xs).getD 0

theorem recentKey_valid (xs : List Int) :
    recentKey xs = 0 ∨ validMinUsageId ≤ recentKey xs ∧ recentKey xs ≤ validMaxUsageId := by
  rw [recentKey]
  cases h : recent signal xs with
  | none => exact Or.inl rfl
  | some v => exact Or.inr ((signal_eq_on_iff v).1 (signal_of_recent h))

theorem slotUpdate_recentKey (xs : List Int) (v : Int) :
    (slotUpdate (recentKey xs) v).1 = recentKey (xs ++ [v]) := by
  have hmin : validMinUsageId = 4 := rfl
  have hnext : recentKey (xs ++ [v]) =
      if v = 0 then 0
      else if validMinUsageId ≤ v ∧ v ≤ validMaxUsageId then v else recentKey xs := by
    rw [recentKey, recent_snoc, signal]
    split_ifs <;> rfl
  rw [hnext, slotUpdate]
  split_ifs <;> simp <;> omega

theorem frames_last {m : Mem ε} (vs : List Slots) (hlast : m.last = .zero) :
    (frames vs m).last.toList = (columns vs).map recentKey := by
  induction vs using List.reverseRecOn with
  | nil => rw [frames_nil, hlast]; rfl
  | append_singleton vs v ih =>
      simp only [Slots.toList, columns, List.map_cons, List.map_nil, List.cons.injEq,
        and_true] at ih
      obtain ⟨h3, h4, h5, h6, h7, h8⟩ := ih
      rw [frames_append, frames_cons, frames_nil, keyFrame_last]
      simp only [Slots.toList, remember, columns, List.map_append, List.map_cons, List.map_nil,
        ← slotUpdate_recentKey, h3, h4, h5, h6, h7, h8]

/-- The closed form of the counting automaton. From empty slots and after any
frames, each remembered value is the newest value in range that its slot has
shown since it last showed zero. The count has grown by the number of times that
a slot shows zero after a value in range, and has lost the number of frames that
show a key twice in a pair of slots, modulo `2^32`. -/
theorem counting_closed_form (vs : List Slots) (m : Mem ε) (hlast : m.last = .zero) :
    (frames vs m).last.toList = (columns vs).map recentKey ∧
      (∀ v ∈ (frames vs m).last.toList,
        v = 0 ∨ validMinUsageId ≤ v ∧ v ≤ validMaxUsageId) ∧
      (frames vs m).cnt =
        m.cnt + UInt32.ofNat (total ((columns vs).map (closed signal))) -
          UInt32.ofNat (vs.countP fun v => v.v3 = v.v7 ∧ v.v3 ≠ 0) -
          UInt32.ofNat (vs.countP fun v => v.v4 = v.v8 ∧ v.v4 ≠ 0) := by
  have hkeys := frames_last vs hlast
  refine ⟨hkeys, ?_, ?_⟩
  · rw [hkeys]
    intro v hv
    obtain ⟨xs, -, rfl⟩ := List.mem_map.1 hv
    exact recentKey_valid xs
  · have hreleases : releases m.last vs = total ((columns vs).map (closed signal)) := by
      rw [hlast, releases_eq]
      simp only [Slots.zero, slotReleases, ne_eq, not_true, decide_false, count_eq_closed, columns,
        List.map_cons, List.map_nil, total_cons, total_nil]
      omega
    rw [frames_cnt, hreleases, allDuplicates_eq, UInt32.ofNat_add]
    grind

theorem counting_closed_form_mixed :
    (frames [⟨4, -1, 0, 0, 4, 0⟩, ⟨1, 5, 0, 0, 0, 0⟩, ⟨0, 100, 0, 0, 0, 5⟩] ram).last.toList =
      [0, 5, 0, 0, 0, 5] :=
  (counting_closed_form [⟨4, -1, 0, 0, 4, 0⟩, ⟨1, 5, 0, 0, 0, 0⟩, ⟨0, 100, 0, 0, 0, 5⟩] ram rfl).1

end Byter
