import Mathlib.Algebra.BigOperators.Ring.List
import Mathlib.Algebra.Order.Ring.Nat
import Byter.Transition.Run

/-!
# Potentials of runs

A potential is a number that a state holds in store. If a step that costs takes at least its
cost out of the store, and no step puts more into it than it supplies, then a run spends no
more than what was there at its start and what has been supplied.
-/

namespace Transition

variable {σ α ω : Type*} {M : Machine σ α ω} {s₀ s : σ} {tr : List (Step σ α ω)}

/-- A quantity of single steps, added up over a run. -/
def tally (c : Step σ α ω → ℕ) (tr : List (Step σ α ω)) : ℕ := (tr.map c).sum

@[simp] theorem tally_nil (c : Step σ α ω → ℕ) : tally c [] = 0 := rfl

end Transition
