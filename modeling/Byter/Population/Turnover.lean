import Mathlib.Data.Finset.Card
import Mathlib.Data.List.Chain
import Mathlib.Tactic.TypeStar

/-!
# Arrivals, departures and turnover of a changing population

A population is a finite set that changes from one census to the next. Between
two censuses `A` and `B` the members of `B \ A` arrive and those of `A \ B`
depart. An observer who only sees the sizes notices `A.card - B.card`
departures; what he misses is the turnover, the departures that are hidden by
an arrival in the same interval. Over a whole sequence of censuses that starts
and ends with nobody, the arrivals exceed the noticed departures by exactly the
turnover.
-/

namespace Population

/-- The sum of `f` over the consecutive pairs of the sequence `a, l`. -/
def stepSum {β : Type*} (f : β → β → ℕ) : β → List β → ℕ
  | _, [] => 0
  | a, b :: l => f a b + stepSum f b l

@[simp] theorem stepSum_nil {β : Type*} (f : β → β → ℕ) (a : β) : stepSum f a [] = 0 := rfl

theorem stepSum_cons {β : Type*} (f : β → β → ℕ) (a b : β) (l : List β) :
    stepSum f a (b :: l) = f a b + stepSum f b l := rfl

theorem stepSum_add {β : Type*} (f g : β → β → ℕ) (a : β) (l : List β) :
    stepSum (fun x y => f x y + g x y) a l = stepSum f a l + stepSum g a l := by
  induction l generalizing a with
  | nil => rfl
  | cons b l ih =>
      simp only [stepSum_cons, ih b]
      omega

theorem stepSum_map {β γ : Type*} (f : γ → γ → ℕ) (g : β → γ) (a : β) (l : List β) :
    stepSum f (g a) (l.map g) = stepSum (fun x y => f (g x) (g y)) a l := by
  induction l generalizing a with
  | nil => rfl
  | cons b l ih => rw [List.map_cons, stepSum_cons, stepSum_cons, ih b]

/-- Sums over consecutive pairs split where the sequence is cut. -/
theorem stepSum_append {β : Type*} (f : β → β → ℕ) (a : β) (l l' : List β) :
    stepSum f a (l ++ l') = stepSum f a l + stepSum f (l.getLastD a) l' := by
  induction l generalizing a with
  | nil => simp
  | cons b l ih =>
      rw [List.cons_append, stepSum_cons, stepSum_cons, ih b, List.getLastD_cons, Nat.add_assoc]

theorem stepSum_eq_zero_iff {β : Type*} (f : β → β → ℕ) (a : β) (l : List β) :
    stepSum f a l = 0 ↔ (a :: l).IsChain fun x y => f x y = 0 := by
  induction l generalizing a with
  | nil => simp
  | cons b l ih => simp [stepSum_cons, ih b, List.isChain_cons_cons]

variable {α : Type*} [DecidableEq α]

/-- How many members of `B` are new. -/
def arrivals (A B : Finset α) : ℕ := (B \ A).card

/-- How many members of `A` are gone. -/
def departures (A B : Finset α) : ℕ := (A \ B).card

/-- The fall in size, which is what an observer of sizes notices. -/
def shrinkage (A B : Finset α) : ℕ := A.card - B.card

/-- The departures that are hidden by arrivals in the same interval. -/
def turnover (A B : Finset α) : ℕ := min (arrivals A B) (departures A B)

theorem card_add_arrivals (A B : Finset α) :
    A.card + arrivals A B = departures A B + B.card := by
  have hunion : (B \ A).card + A.card = (A \ B).card + B.card := by
    rw [Finset.card_sdiff_add_card, Finset.card_sdiff_add_card, Finset.union_comm]
  unfold arrivals departures
  omega

/-- Every departure is either noticed in the size or hidden by an arrival. -/
theorem shrinkage_add_turnover (A B : Finset α) :
    shrinkage A B + turnover A B = departures A B := by
  have hcard := card_add_arrivals A B
  unfold shrinkage turnover
  omega

/-- Nobody arrives, or nobody departs. -/
def OneWay (A B : Finset α) : Prop := B ⊆ A ∨ A ⊆ B

theorem turnover_eq_zero_iff (A B : Finset α) : turnover A B = 0 ↔ OneWay A B := by
  unfold turnover arrivals departures OneWay
  rw [Nat.min_eq_zero_iff, Finset.card_eq_zero, Finset.card_eq_zero,
    Finset.sdiff_eq_empty_iff_subset, Finset.sdiff_eq_empty_iff_subset]

/-- The balance of a whole sequence: those present at the start and those who
arrive are those who depart and those present at the end. -/
theorem card_add_stepSum_arrivals (A : Finset α) (l : List (Finset α)) :
    A.card + stepSum arrivals A l = stepSum departures A l + (l.getLastD A).card := by
  induction l generalizing A with
  | nil => simp
  | cons B l ih =>
      have hstep := card_add_arrivals A B
      have hrest := ih B
      rw [stepSum_cons, stepSum_cons, List.getLastD_cons]
      omega

/-- From nobody to nobody, the arrivals are the noticed departures and the
turnover. -/
theorem stepSum_arrivals_eq (l : List (Finset α)) (hl : l.getLastD ∅ = ∅) :
    stepSum arrivals ∅ l = stepSum shrinkage ∅ l + stepSum turnover ∅ l := by
  have hbalance := card_add_stepSum_arrivals ∅ l
  rw [hl, Finset.card_empty, Nat.zero_add, Nat.add_zero] at hbalance
  rw [hbalance, ← stepSum_add]
  simp only [shrinkage_add_turnover]

theorem stepSum_turnover_eq_zero_iff (A : Finset α) (l : List (Finset α)) :
    stepSum turnover A l = 0 ↔ (A :: l).IsChain OneWay := by
  simp only [stepSum_eq_zero_iff, turnover_eq_zero_iff]

/-- From nobody to nobody, the noticed departures account for all arrivals
exactly when no interval has both arrivals and departures. -/
theorem stepSum_arrivals_eq_shrinkage_iff (l : List (Finset α)) (hl : l.getLastD ∅ = ∅) :
    stepSum arrivals ∅ l = stepSum shrinkage ∅ l ↔ (∅ :: l).IsChain OneWay := by
  rw [← stepSum_turnover_eq_zero_iff, stepSum_arrivals_eq l hl]
  omega

end Population
