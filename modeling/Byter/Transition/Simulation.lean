import Byter.Transition.Run

/-!
# Abstractions of a machine

An abstraction of a machine `M` by a machine `N` reads every state of `M` as a
state of `N`, and every step of `M` either as one step of `N` with the same
outputs or as no step at all. It takes a run of `M` to a run of `N`, step by
step, and the outputs stay the same.
-/

namespace Transition

variable {σ τ α β ω : Type*}

/-- A reading of the states and steps of `M` as states and steps of `N`. -/
structure Abstraction (M : Machine σ α ω) (N : Machine τ β ω) where
  state : σ → τ
  act : Step σ α ω → Option β
  visible : ∀ s a o s' b, M.step s a = some (s', o) → act ⟨s, a, o, s'⟩ = some b →
    N.step (state s) b = some (state s', o)
  silent : ∀ s a o s', M.step s a = some (s', o) → act ⟨s, a, o, s'⟩ = none →
    o = [] ∧ state s' = state s

namespace Abstraction

variable {M : Machine σ α ω} {N : Machine τ β ω} (A : Abstraction M N)

/-- What a step is read as. -/
def step (st : Step σ α ω) : Option (Step τ β ω) :=
  (A.act st).map fun b => ⟨A.state st.src, b, st.out, A.state st.dst⟩

/-- What a run is read as. -/
def steps (tr : List (Step σ α ω)) : List (Step τ β ω) := tr.filterMap A.step

theorem steps_snoc (tr : List (Step σ α ω)) (st : Step σ α ω) :
    A.steps (tr ++ [st]) = A.steps tr ++ (A.step st).toList := by
  rw [steps, List.filterMap_append, ← steps]
  cases h : A.step st <;> simp [h]

theorem run {s₀ s : σ} {tr : List (Step σ α ω)} (h : Run M s₀ tr s) :
    Run N (A.state s₀) (A.steps tr) (A.state s) := by
  induction h with
  | nil => exact Run.nil
  | @snoc tr s s' a o prev last ih =>
      rw [steps_snoc]
      cases hact : A.act ⟨s, a, o, s'⟩ with
      | none =>
          obtain ⟨-, hstate⟩ := A.silent s a o s' last hact
          simpa [step, hact, hstate] using ih
      | some b =>
          have hrun := ih.snoc (A.visible s a o s' b last hact)
          simpa [step, hact] using hrun

theorem outputs_steps {s₀ s : σ} {tr : List (Step σ α ω)} (h : Run M s₀ tr s) :
    outputs (A.steps tr) = outputs tr := by
  induction h with
  | nil => rfl
  | @snoc tr s s' a o prev last ih =>
      rw [steps_snoc, outputs_append, outputs_append, ih]
      cases hact : A.act ⟨s, a, o, s'⟩ with
      | none =>
          obtain ⟨rfl, -⟩ := A.silent s a o s' last hact
          simp [step, hact]
      | some b => simp [step, hact]

end Abstraction

end Transition
