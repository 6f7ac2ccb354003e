import Mathlib.Tactic.Ring
import Byter.Raster.Basic

/-!
# Rows of tiles

A row of tiles shows a list of symbols side by side. A tile is `w` dots wide and `h` dots
high, and a dot is a square of `s` by `s` points. Each dot can be read off the picture at
its corner, and so can the symbols, if they have tiles that differ and are not blank.
-/

namespace Raster

variable {α : Type*} {tile : α → ℕ → ℕ → Bool} {w h s : ℕ} {x y : ℤ} {cs cs' : List α}

/-- The points of a row of tiles. -/
def row (tile : α → ℕ → ℕ → Bool) (w h s : ℕ) (x y : ℤ) (cs : List α) : Picture :=
  {q | ∃ (k : ℕ) (c : α), cs[k]? = some c ∧ ∃ i < w, ∃ j < h, tile c i j = true ∧
    q ∈ box (x + ((w * k + i : ℕ) : ℤ) * s) (y + (j : ℤ) * s) s s}

/-- The corner of a dot. -/
def corner (w s : ℕ) (x y : ℤ) (k i j : ℕ) : ℤ × ℤ :=
  (x + ((w * k + i : ℕ) : ℤ) * s, y + (j : ℤ) * s)

theorem eq_of_corner_mem {a b : ℕ} {z : ℤ} (hlow : z + (b : ℤ) * s ≤ z + (a : ℤ) * s)
    (hhigh : z + (a : ℤ) * s < z + (b : ℤ) * s + s) : a = b := by
  have hle : (b : ℤ) ≤ a := by
    by_contra hlt
    have hmul : ((a : ℤ) + 1) * s ≤ b * s := Int.mul_le_mul_of_nonneg_right (by omega) (by omega)
    rw [Int.add_mul] at hmul
    omega
  have hge : (a : ℤ) ≤ b := by
    by_contra hlt
    have hmul : ((b : ℤ) + 1) * s ≤ a * s := Int.mul_le_mul_of_nonneg_right (by omega) (by omega)
    rw [Int.add_mul] at hmul
    omega
  omega

/-- Each dot is read off at its corner. -/
theorem corner_mem_row_iff (hs : 0 < s) {k i j : ℕ} (hi : i < w) (hj : j < h) :
    corner w s x y k i j ∈ row tile w h s x y cs ↔ ∃ c, cs[k]? = some c ∧ tile c i j = true := by
  constructor
  · rintro ⟨k', c, hc, i', hi', j', hj', htile, hq⟩
    rw [mem_box] at hq
    obtain ⟨hxlow, hxhigh, hylow, hyhigh⟩ := hq
    have hcolumn : w * k + i = w * k' + i' := eq_of_corner_mem hxlow hxhigh
    obtain rfl : j = j' := eq_of_corner_mem hylow hyhigh
    have hk : k = k' := by
      have hdiv := congrArg (· / w) hcolumn
      simpa [Nat.mul_add_div (show 0 < w by omega), Nat.div_eq_of_lt hi, Nat.div_eq_of_lt hi'] using
        hdiv
    subst hk
    obtain rfl : i = i' := by omega
    exact ⟨c, hc, htile⟩
  · rintro ⟨c, hc, htile⟩
    refine ⟨k, c, hc, i, hi, j, hj, htile, ?_⟩
    rw [mem_box, corner]
    omega

/-- A row that is no wider than `n` symbols is known from what it shows of their dots: the
symbols have tiles that differ and are not blank. -/
theorem row_injective (hs : 0 < s) {n : ℕ} {D : Picture}
    (hD : ∀ k < n, ∀ i < w, ∀ j < h, corner w s x y k i j ∈ D)
    (hlength : cs.length ≤ n) (hlength' : cs'.length ≤ n)
    (hblank : ∀ c, c ∈ cs ∨ c ∈ cs' → ∃ i < w, ∃ j < h, tile c i j = true)
    (hdiffer : ∀ c ∈ cs, ∀ c' ∈ cs', (∀ i < w, ∀ j < h, tile c i j = tile c' i j) → c = c')
    (hsame : row tile w h s x y cs ∩ D = row tile w h s x y cs' ∩ D) : cs = cs' := by
  have hread : ∀ k < n, ∀ i < w, ∀ j < h, (∃ c, cs[k]? = some c ∧ tile c i j = true) ↔
      ∃ c, cs'[k]? = some c ∧ tile c i j = true := by
    intro k hk i hi j hj
    rw [← corner_mem_row_iff (x := x) (y := y) hs hi hj,
      ← corner_mem_row_iff (x := x) (y := y) hs hi hj]
    have hin := Set.ext_iff.1 hsame (corner w s x y k i j)
    rwa [Set.mem_inter_iff, Set.mem_inter_iff, and_iff_left (hD k hk i hi j hj),
      and_iff_left (hD k hk i hi j hj)] at hin
  apply List.ext_getElem?
  intro k
  by_cases hk : k < n
  · cases hc : cs[k]? with
    | none =>
        cases hc' : cs'[k]? with
        | none => rfl
        | some c' =>
            obtain ⟨i, hi, j, hj, htile⟩ := hblank c' (Or.inr (List.mem_of_getElem? hc'))
            obtain ⟨c, hnone, -⟩ := (hread k hk i hi j hj).2 ⟨c', hc', htile⟩
            rw [hc] at hnone
            cases hnone
    | some c =>
        cases hc' : cs'[k]? with
        | none =>
            obtain ⟨i, hi, j, hj, htile⟩ := hblank c (Or.inl (List.mem_of_getElem? hc))
            obtain ⟨c', hnone, -⟩ := (hread k hk i hi j hj).1 ⟨c, hc, htile⟩
            rw [hc'] at hnone
            cases hnone
        | some c' =>
            have htiles : ∀ i < w, ∀ j < h, tile c i j = tile c' i j := by
              intro i hi j hj
              have hbit := hread k hk i hi j hj
              simp only [hc, hc', Option.some.injEq, exists_eq_left'] at hbit
              exact Bool.eq_iff_iff.2 hbit
            rw [hdiffer c (List.mem_of_getElem? hc) c' (List.mem_of_getElem? hc') htiles]
  · rw [List.getElem?_eq_none (by omega), List.getElem?_eq_none (by omega)]

end Raster
