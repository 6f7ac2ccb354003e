import Mathlib.Data.List.Infix
import Mathlib.Tactic.TypeStar

/-!
# Scanners

A scanner reads one item at a time. At each item it moves to a new position and
may report something. `dest S p l` is the position after the items `l`, and
`scan S p l` are the reports made on the way.

A scanner that recognises patterns has a trail: at every position it knows
which most recent items it is still working on, and what it reports is a trail
that has become complete. Whatever such a scanner reports has then been present
contiguously in its input.
-/

/-- A scanner with positions `π`, items `ι` and reports `κ`. -/
structure Scanner (π ι κ : Type*) where
  next : π → ι → π × Option κ

namespace Scanner

variable {π ι κ : Type*}

/-- The position after reading `l` from the position `p`. -/
def dest (S : Scanner π ι κ) : π → List ι → π
  | p, [] => p
  | p, r :: l => dest S (S.next p r).1 l

/-- The reports made while reading `l` from the position `p`. -/
def scan (S : Scanner π ι κ) : π → List ι → List κ
  | _, [] => []
  | p, r :: l => (S.next p r).2.toList ++ scan S (S.next p r).1 l

@[simp] theorem dest_nil (S : Scanner π ι κ) (p : π) : S.dest p [] = p := rfl

@[simp] theorem dest_cons (S : Scanner π ι κ) (p : π) (r : ι) (l : List ι) :
    S.dest p (r :: l) = S.dest (S.next p r).1 l := rfl

@[simp] theorem scan_nil (S : Scanner π ι κ) (p : π) : S.scan p [] = [] := rfl

@[simp] theorem scan_cons (S : Scanner π ι κ) (p : π) (r : ι) (l : List ι) :
    S.scan p (r :: l) = (S.next p r).2.toList ++ S.scan (S.next p r).1 l := rfl

theorem dest_append (S : Scanner π ι κ) (p : π) (l l' : List ι) :
    S.dest p (l ++ l') = S.dest (S.dest p l) l' := by
  induction l generalizing p with
  | nil => rfl
  | cons r l ih => simp [ih]

theorem scan_append (S : Scanner π ι κ) (p : π) (l l' : List ι) :
    S.scan p (l ++ l') = S.scan p l ++ S.scan (S.dest p l) l' := by
  induction l generalizing p with
  | nil => rfl
  | cons r l ih => simp [ih]

/-- The items a scanner is still working on at each position. A report closes
the trail it is made from. -/
structure Trail (S : Scanner π ι κ) where
  trail : π → List ι
  closed : κ → List ι
  suffix : ∀ p r, trail (S.next p r).1 <:+ trail p ++ [r]
  reports : ∀ p r k, (S.next p r).2 = some k → closed k = trail p ++ [r]

namespace Trail

variable {S : Scanner π ι κ} (T : S.Trail)

/-- The trail consists of the most recent items. -/
theorem trail_dest (p : π) (l : List ι) : T.trail (S.dest p l) <:+ T.trail p ++ l := by
  induction l generalizing p with
  | nil => simp
  | cons r l ih =>
      have hstep : T.trail (S.next p r).1 ++ l <:+ (T.trail p ++ [r]) ++ l :=
        (List.suffix_append_self_iff).2 (T.suffix p r)
      have htail := (ih (S.next p r).1).trans hstep
      simpa using htail

/-- Whatever is reported was present contiguously in the input. -/
theorem closed_infix_of_mem_scan {p : π} {l : List ι} {k : κ} (hk : k ∈ S.scan p l) :
    T.closed k <:+: T.trail p ++ l := by
  induction l generalizing p with
  | nil => simp at hk
  | cons r l ih =>
      have happend : T.trail p ++ r :: l = (T.trail p ++ [r]) ++ l := by simp
      rw [scan_cons, List.mem_append] at hk
      rw [happend]
      rcases hk with hnow | hlater
      · have hclosed := T.reports p r k (by simpa using hnow)
        rw [hclosed]
        exact (List.prefix_append _ _).isInfix
      · have hsuffix : T.trail (S.next p r).1 ++ l <:+ (T.trail p ++ [r]) ++ l :=
          (List.suffix_append_self_iff).2 (T.suffix p r)
        exact (ih hlater).trans hsuffix.isInfix

/-- Too little input for a whole pattern yields no report. -/
theorem scan_eq_nil_of_short {p : π} {l : List ι} {n : ℕ} (hn : ∀ k, n ≤ (T.closed k).length)
    (hl : (T.trail p).length + l.length < n) : S.scan p l = [] := by
  rw [List.eq_nil_iff_forall_not_mem]
  intro k hk
  have hlen := (T.closed_infix_of_mem_scan hk).length_le
  rw [List.length_append] at hlen
  have := hn k
  omega

end Trail

end Scanner
