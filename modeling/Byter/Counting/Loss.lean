import Byter.Counting.History

/-!
# Frames that are lost

Frames go missing while `loop` waits in `displayText` and when the receive buffer
runs over. What is then handled is a subsequence of the frames. As long as no
frame shows a key twice nothing is taken off the count, and the releases of each
slot can only become fewer.
-/

namespace Byter

variable {ε : Type*}

theorem slotReleases_sublist (last : Int) {xs ys : List Int} (h : xs.Sublist ys) :
    slotReleases last xs ≤ slotReleases last ys :=
  Episode.count_sublist _ (h.map signal)

/-- A subsequence of the frames shows at most the releases of all of them. -/
theorem releases_sublist (last : Slots) {vs ws : List Slots} (h : vs.Sublist ws) :
    releases last vs ≤ releases last ws := by
  have hslot : ∀ (last : Int) (f : Slots → Int),
      slotReleases last (vs.map f) ≤ slotReleases last (ws.map f) :=
    fun last f => slotReleases_sublist last (h.map f)
  have h3 := hslot last.v3 (·.v3)
  have h4 := hslot last.v4 (·.v4)
  have h5 := hslot last.v5 (·.v5)
  have h6 := hslot last.v6 (·.v6)
  have h7 := hslot last.v7 (·.v7)
  have h8 := hslot last.v8 (·.v8)
  rw [releases_eq, releases_eq]
  omega

theorem allDuplicates_eq_zero {vs : List Slots}
    (h : ∀ v ∈ vs, ¬(v.v3 = v.v7 ∧ v.v3 ≠ 0) ∧ ¬(v.v4 = v.v8 ∧ v.v4 ≠ 0)) :
    allDuplicates vs = 0 := by
  rw [allDuplicates_eq, List.countP_eq_zero.2 (by simpa using fun v hv => (h v hv).1),
    List.countP_eq_zero.2 (by simpa using fun v hv => (h v hv).2)]

/-- A run away from the ends has room for all its releases. -/
theorem Away.releases_lt {vs : List Slots} {m : Mem ε} (h : Away vs m) (hne : vs ≠ []) :
    m.cnt.toNat + releases m.last vs < maxCnt.toNat + allDuplicates vs := by
  induction vs generalizing m with
  | nil => exact absurd rfl hne
  | cons v vs ih =>
      have hcnt := keyFrame_cnt_of_away h
      obtain ⟨⟨henough, hlow⟩, haway⟩ := h
      rw [releases_cons, allDuplicates_cons]
      by_cases hvs : vs = []
      · subst hvs
        simpa using hlow
      · have hrest := ih haway hvs
        rw [keyFrame_last, hcnt] at hrest
        omega

/-- Without duplicates, room for all releases is enough. -/
theorem away_of_releases_lt {vs : List Slots} {m : Mem ε} (hdup : allDuplicates vs = 0)
    (hroom : m.cnt.toNat + releases m.last vs < maxCnt.toNat) : Away vs m := by
  induction vs generalizing m with
  | nil => trivial
  | cons v vs ih =>
      rw [releases_cons] at hroom
      rw [allDuplicates_cons] at hdup
      have hcnt : (keyFrame v m).cnt.toNat = m.cnt.toNat - duplicates v + released m.last v :=
        keyFrame_cnt_exact ⟨by omega, by omega⟩
      refine ⟨⟨by omega, by omega⟩, ih (by omega) ?_⟩
      rw [keyFrame_last, hcnt]
      omega

/-- What is left of a run away from the ends, after a loss, is away from them. -/
theorem Away.sublist {vs ws : List Slots} {m : Mem ε} (hsub : vs.Sublist ws)
    (hdup : allDuplicates vs = 0 ∧ allDuplicates ws = 0) (h : Away ws m) : Away vs m := by
  by_cases hne : ws = []
  · subst hne
    rw [List.sublist_nil.1 hsub]
    trivial
  · have hreleases := releases_sublist m.last hsub
    have hroom := h.releases_lt hne
    exact away_of_releases_lt hdup.1 (by omega)

/-- Of a run without duplicates that stays below `maxCnt`, a subsequence stays
below `maxCnt` too and gains no more than the whole run. -/
theorem loss_never_inflates (m : Mem ε) (hlatch : m.isOverflow = false) {vs ws : List Slots}
    (hsub : vs.Sublist ws)
    (hdup : ∀ w ∈ ws, ¬(w.v3 = w.v7 ∧ w.v3 ≠ 0) ∧ ¬(w.v4 = w.v8 ∧ w.v4 ≠ 0))
    (haway : Away ws m) :
    ((frames vs m).cnt.toNat : ℤ) - m.cnt.toNat ≤ (frames ws m).cnt.toNat - m.cnt.toNat ∧
      Away vs m ∧ (frames vs m).isOverflow = false ∧ (frames ws m).isOverflow = false := by
  have hfew := allDuplicates_eq_zero fun v hv => hdup v (hsub.subset hv)
  have hall := allDuplicates_eq_zero hdup
  have hreleases := releases_sublist m.last hsub
  have haway' := haway.sublist hsub ⟨hfew, hall⟩
  obtain ⟨hcnt', hlow'⟩ := frames_exact haway'
  obtain ⟨hcnt, hlow⟩ := frames_exact haway
  exact ⟨by omega, haway', hlow'.trans hlatch, hlow.trans hlatch⟩

/-- One key goes down and comes up twice, and the first time the keyboard sends a
value out of range in between. -/
def twoStrokes : List Slots :=
  [⟨4, 0, 0, 0, 0, 0⟩, ⟨1, 1, 2, 1, 0, 0⟩, .zero, ⟨4, 5, 0, 0, 0, 0⟩, .zero]

theorem loss_never_inflates_twoStrokes :
    ((frames [⟨4, 0, 0, 0, 0, 0⟩, ⟨4, 5, 0, 0, 0, 0⟩, .zero] ram).cnt.toNat : ℤ) - ram.cnt.toNat ≤
      (frames twoStrokes ram).cnt.toNat - ram.cnt.toNat :=
  (loss_never_inflates ram rfl (by decide) (by decide) (by decide)).1

end Byter
