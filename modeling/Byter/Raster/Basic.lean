import Mathlib.Data.Set.SymmDiff
import Mathlib.Data.Set.Lattice
import Mathlib.Order.CompletePartialOrder
import Mathlib.Order.ConditionallyCompleteLattice.Basic

/-!
# Pictures as sets of lit points

A picture in two colours is the set of its lit points. Drawing in an ink lights the
points of a shape, puts them out, turns them over or leaves them. Shapes that do not
meet may be drawn one after the other, or at once as their union.
-/

namespace Raster

/-- The lit points. -/
abbrev Picture := Set (ℤ × ℤ)

inductive Ink
  | black
  | white
  | inverse
  | transparent
deriving DecidableEq, Repr

/-- What an ink makes of a point that was lit or not. -/
def Ink.paint : Ink → Bool → Bool
  | black, _ => false
  | white, _ => true
  | inverse, b => !b
  | transparent, b => b

/-- The picture after the shape `S` has been drawn. -/
def Ink.draw : Ink → Picture → Picture → Picture
  | black, S, P => P \ S
  | white, S, P => P ∪ S
  | inverse, S, P => symmDiff P S
  | transparent, _, P => P

variable {S T P Q : Picture} {q : ℤ × ℤ} {i : Ink}

namespace Ink

theorem mem_draw_iff {b : Bool} (hb : q ∈ P ↔ b = true) :
    q ∈ i.draw S P ↔ q ∈ S ∧ i.paint b = true ∨ q ∉ S ∧ b = true := by
  cases i with
  | black => simp [draw, paint, hb, and_comm]
  | white =>
      by_cases hS : q ∈ S
      · simp [draw, paint, hS]
      · simp [draw, hS, hb]
  | inverse =>
      by_cases hS : q ∈ S
      · simp [draw, paint, Set.mem_symmDiff, hS, hb]
      · simp [draw, Set.mem_symmDiff, hS, hb]
  | transparent => by_cases hS : q ∈ S <;> simp [draw, paint, hS, hb]

/-- Whether a point is lit depends on that point only. -/
theorem mem_draw_congr {r : ℤ × ℤ} (hS : q ∈ S ↔ r ∈ T) (hP : q ∈ P ↔ r ∈ Q) :
    q ∈ i.draw S P ↔ r ∈ i.draw T Q := by
  cases i with
  | black => rw [draw, draw, Set.mem_sdiff, Set.mem_sdiff, hS, hP]
  | white => rw [draw, draw, Set.mem_union, Set.mem_union, hS, hP]
  | inverse => rw [draw, draw, Set.mem_symmDiff, Set.mem_symmDiff, hS, hP]
  | transparent => exact hP

theorem mem_draw_of_not_mem (h : q ∉ S) : q ∈ i.draw S P ↔ q ∈ P := by
  cases i with
  | black => simp [draw, h]
  | white => simp [draw, h]
  | inverse => simp [draw, Set.mem_symmDiff, h]
  | transparent => rfl

@[simp] theorem draw_empty : i.draw ∅ P = P := by
  cases i with
  | black => exact Set.sdiff_empty
  | white => exact Set.union_empty P
  | inverse => exact symmDiff_bot P
  | transparent => rfl

/-- Shapes that do not meet may be drawn at once. -/
theorem draw_draw (h : Disjoint S T) : i.draw T (i.draw S P) = i.draw (S ∪ T) P := by
  cases i with
  | black => exact sdiff_sdiff_left
  | white => exact Set.union_assoc P S T
  | inverse =>
      change symmDiff (symmDiff P S) T = symmDiff P (S ∪ T)
      rw [symmDiff_assoc, h.symmDiff_eq_sup]
      rfl
  | transparent => rfl

end Ink

/-- The points of a box with its corner at `(x, y)`, `w` wide and `h` high. -/
def box (x y w h : ℤ) : Picture := {q | x ≤ q.1 ∧ q.1 < x + w ∧ y ≤ q.2 ∧ q.2 < y + h}

theorem mem_box {x y w h : ℤ} :
    q ∈ box x y w h ↔ x ≤ q.1 ∧ q.1 < x + w ∧ y ≤ q.2 ∧ q.2 < y + h := Iff.rfl

end Raster
