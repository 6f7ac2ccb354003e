import Mathlib.Data.List.Basic
import Mathlib.Tactic.TypeStar

/-!
# Runs of a transition function

A `Machine` takes one action at a time and may refuse it. A run is kept as the
list of its steps, each with the state before and after it and with what it
puts out, so that a property of a run can speak about the steps taken so far
and about the order of its outputs. Runs grow at the end: an invariant is then
carried from the history of a state to the history of its successor, and
`Run.invariant` is the only induction over runs that the rest needs.
-/

namespace Transition

/-- A machine that reacts to an action with a next state and a list of outputs,
or refuses the action. -/
structure Machine (σ α ω : Type*) where
  step : σ → α → Option (σ × List ω)

/-- One step of a run. -/
structure Step (σ α ω : Type*) where
  src : σ
  act : α
  out : List ω
  dst : σ

variable {σ α ω : Type*}

/-- `Run M s₀ tr s` says that `M` can take the steps `tr` from `s₀` to `s`. -/
inductive Run (M : Machine σ α ω) (s₀ : σ) : List (Step σ α ω) → σ → Prop
  | nil : Run M s₀ [] s₀
  | snoc {tr : List (Step σ α ω)} {s s' : σ} {a : α} {o : List ω}
      (prev : Run M s₀ tr s) (last : M.step s a = some (s', o)) :
      Run M s₀ (tr ++ [⟨s, a, o, s'⟩]) s'

/-- The outputs of a run, in the order in which they are made. -/
def outputs (tr : List (Step σ α ω)) : List ω := tr.flatMap Step.out

@[simp] theorem outputs_nil : outputs ([] : List (Step σ α ω)) = [] := rfl

@[simp] theorem outputs_append (tr tr' : List (Step σ α ω)) :
    outputs (tr ++ tr') = outputs tr ++ outputs tr' := by
  simp [outputs]

@[simp] theorem outputs_cons (st : Step σ α ω) (tr : List (Step σ α ω)) :
    outputs (st :: tr) = st.out ++ outputs tr := rfl

/-- A fold does not move if none of its steps does. -/
theorem foldl_eq_self {β γ : Type*} {f : γ → β → γ} {c : γ} {l : List β}
    (h : ∀ x ∈ l, f c x = c) : l.foldl f c = c := by
  induction l with
  | nil => rfl
  | cons x l ih =>
      rw [List.foldl_cons, h x List.mem_cons_self]
      exact ih fun y hy => h y (List.mem_cons_of_mem x hy)

/-- `Along C tr` says that `C` holds of every step of `tr`, read together with
the steps before it. -/
def Along (C : List (Step σ α ω) → Step σ α ω → Prop) (tr : List (Step σ α ω)) : Prop :=
  ∀ pre st post, tr = pre ++ st :: post → C pre st

theorem along_nil (C : List (Step σ α ω) → Step σ α ω → Prop) : Along C [] := by
  intro pre st post h
  simp at h

/-- A position in a list that ends in `x` is the last one or lies before it. -/
theorem snoc_eq_append_cons {β : Type*} {l pre post : List β} {x y : β}
    (h : l ++ [x] = pre ++ y :: post) :
    (pre = l ∧ y = x ∧ post = []) ∨ ∃ post', post = post' ++ [x] ∧ l = pre ++ y :: post' := by
  rcases List.eq_nil_or_concat post with rfl | ⟨post', z, rfl⟩
  · obtain ⟨rfl, hx⟩ := List.append_inj' h rfl
    cases hx
    exact Or.inl ⟨rfl, rfl, rfl⟩
  · have hsplit : l ++ [x] = (pre ++ y :: post') ++ [z] := by simpa using h
    obtain ⟨hpre, hx⟩ := List.append_inj' hsplit rfl
    cases hx
    exact Or.inr ⟨post', by simp, hpre⟩

theorem along_snoc {C : List (Step σ α ω) → Step σ α ω → Prop}
    {tr : List (Step σ α ω)} {x : Step σ α ω} :
    Along C (tr ++ [x]) ↔ Along C tr ∧ C tr x := by
  constructor
  · intro h
    refine ⟨?_, h tr x [] rfl⟩
    intro pre st post htr
    exact h pre st (post ++ [x]) (by simp [htr])
  · rintro ⟨hall, hx⟩ pre st post htr
    rcases snoc_eq_append_cons htr with ⟨rfl, rfl, rfl⟩ | ⟨post', rfl, htr'⟩
    · exact hx
    · exact hall pre st post' htr'

/-- What holds along a run holds along its beginning, and of the step after it. -/
theorem Along.at {C : List (Step σ α ω) → Step σ α ω → Prop}
    {pre post : List (Step σ α ω)} {st : Step σ α ω} (h : Along C (pre ++ st :: post)) :
    Along C pre ∧ C pre st := by
  refine ⟨?_, h pre st post rfl⟩
  rintro pre' st' post' rfl
  exact h pre' st' (post' ++ st :: post) (by simp)

namespace Run

variable {M : Machine σ α ω} {s₀ s t : σ} {tr tr' : List (Step σ α ω)}

/-- What holds at the start and is kept by every step that meets `C` holds
after every run whose steps all meet `C`. The invariant may speak about the
whole history. -/
theorem invariant {I : List (Step σ α ω) → σ → Prop}
    {C : List (Step σ α ω) → Step σ α ω → Prop} (start : I [] s₀)
    (keep : ∀ tr s a o s', Run M s₀ tr s → I tr s → C tr ⟨s, a, o, s'⟩ →
      M.step s a = some (s', o) → I (tr ++ [⟨s, a, o, s'⟩]) s')
    (h : Run M s₀ tr s) (hC : Along C tr) : I tr s := by
  induction h with
  | nil => exact start
  | snoc prev last ih =>
      obtain ⟨hprev, hlast⟩ := along_snoc.1 hC
      exact keep _ _ _ _ _ prev (ih hprev) hlast last

/-- The same rule for an invariant of the state alone, over all runs. -/
theorem state_invariant {I : σ → Prop} (start : I s₀)
    (keep : ∀ s a o s', I s → M.step s a = some (s', o) → I s')
    (h : Run M s₀ tr s) : I s := by
  induction h with
  | nil => exact start
  | snoc prev last ih => exact keep _ _ _ _ ih last

theorem single {a : α} {o : List ω} (h : M.step s a = some (t, o)) :
    Run M s [⟨s, a, o, t⟩] t :=
  Run.nil.snoc h

theorem eq_of_nil (h : Run M s₀ [] s) : s = s₀ := by
  generalize htr : [] = tr at h
  cases h with
  | nil => rfl
  | snoc prev last => simp at htr

theorem append (h : Run M s₀ tr s) (h' : Run M s tr' t) : Run M s₀ (tr ++ tr') t := by
  induction h' with
  | nil => simpa using h
  | snoc prev last ih =>
      rw [← List.append_assoc]
      exact ih.snoc last

/-- A run can be cut at any of its steps: the steps before it lead to the
step's source, and the steps after it start from its target. -/
theorem split {pre post : List (Step σ α ω)} {st : Step σ α ω}
    (h : Run M s₀ (pre ++ st :: post) s) :
    Run M s₀ pre st.src ∧ M.step st.src st.act = some (st.dst, st.out) ∧
      Run M st.dst post s := by
  generalize htr : pre ++ st :: post = tr at h
  induction h generalizing post with
  | nil => simp at htr
  | snoc prev last ih =>
      rcases snoc_eq_append_cons htr.symm with ⟨rfl, rfl, rfl⟩ | ⟨post', rfl, htr'⟩
      · exact ⟨prev, last, Run.nil⟩
      · obtain ⟨hpre, hst, hpost⟩ := ih htr'.symm
        exact ⟨hpre, hst, hpost.snoc last⟩

/-- The first step of a run. -/
theorem uncons {post : List (Step σ α ω)} {st : Step σ α ω} (h : Run M s₀ (st :: post) s) :
    st.src = s₀ ∧ M.step st.src st.act = some (st.dst, st.out) ∧ Run M st.dst post s := by
  rw [← List.nil_append (st :: post)] at h
  obtain ⟨hpre, hstep, hpost⟩ := h.split
  exact ⟨hpre.eq_of_nil, hstep, hpost⟩

end Run

namespace Machine

/-- Run a machine on a list of actions, recording its steps. -/
def exec (M : Machine σ α ω) : σ → List α → Option (List (Step σ α ω) × σ)
  | s, [] => some ([], s)
  | s, a :: as =>
      (M.step s a).bind fun r =>
        (exec M r.1 as).map fun rest => (⟨s, a, r.2, r.1⟩ :: rest.1, rest.2)

theorem run_of_exec {M : Machine σ α ω} {s t : σ} {as : List α}
    {tr : List (Step σ α ω)} (h : M.exec s as = some (tr, t)) : Run M s tr t := by
  induction as generalizing s tr with
  | nil =>
      simp only [exec, Option.some.injEq, Prod.mk.injEq] at h
      obtain ⟨rfl, rfl⟩ := h
      exact Run.nil
  | cons a as ih =>
      simp only [exec, Option.bind_eq_some_iff, Option.map_eq_some_iff] at h
      obtain ⟨⟨s', o⟩, hstep, ⟨tr', t'⟩, hrest, heq⟩ := h
      simp only [Prod.mk.injEq] at heq
      obtain ⟨rfl, rfl⟩ := heq
      exact (Run.single hstep).append (ih hrest)

/-- A run with a decidable property is found by executing its actions. -/
theorem exists_run_of_exec (M : Machine σ α ω) (s : σ) (as : List α)
    (P : List (Step σ α ω) → σ → Bool)
    (h : (M.exec s as).any (fun r => P r.1 r.2) = true) :
    ∃ tr t, Run M s tr t ∧ P tr t = true := by
  cases hexec : M.exec s as with
  | none => simp [hexec] at h
  | some r =>
      refine ⟨r.1, r.2, run_of_exec hexec, ?_⟩
      simpa [hexec] using h

/-- A run whose last step is of a decidable kind, given the steps before it. -/
theorem exists_last_of_exec (M : Machine σ α ω) (s : σ) (as : List α)
    (P : List (Step σ α ω) → Step σ α ω → Bool)
    (h : (M.exec s as).any (fun r => r.1.getLast?.any (P r.1.dropLast)) = true) :
    ∃ pre st t, Run M s (pre ++ [st]) t ∧ P pre st = true := by
  obtain ⟨tr, t, hrun, hlast⟩ :=
    exists_run_of_exec M s as (fun tr _ => tr.getLast?.any (P tr.dropLast)) h
  rcases List.eq_nil_or_concat tr with rfl | ⟨pre, st, rfl⟩
  · simp at hlast
  · rw [List.concat_eq_append] at hrun hlast
    exact ⟨pre, st, t, hrun, by simpa using hlast⟩

/-- A step of a decidable kind is found by executing actions up to it. -/
theorem exists_step_of_exec (M : Machine σ α ω) (s : σ) (as : List α)
    (P : Step σ α ω → Bool) (h : (M.exec s as).any (fun r => r.1.any P) = true) :
    ∃ pre st post t, Run M s (pre ++ st :: post) t ∧ P st = true := by
  obtain ⟨tr, t, hrun, hany⟩ := exists_run_of_exec M s as (fun tr _ => tr.any P) h
  obtain ⟨st, hmem, hst⟩ := List.any_eq_true.1 hany
  obtain ⟨pre, post, rfl⟩ := List.append_of_mem hmem
  exact ⟨pre, st, post, t, hrun, hst⟩

end Machine

end Transition
