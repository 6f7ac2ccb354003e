import Mathlib.Data.List.Basic
import Mathlib.Tactic.TypeStar

/-!
# Where a text leaves the cursor

A text is written on rows of `w` columns. Each character is printed at the cursor
and moves it one column on, or begins a new row, or is passed over. The cursor may
rest behind the last column; the next character that is printed then begins a new
row by itself.
-/

namespace Text

/-- What a character does to the cursor. -/
inductive Kind
  | printed
  | newline
  | ignored
deriving DecidableEq, Repr

/-- A place on rows that go on forever. -/
structure Position where
  column : ℕ
  row : ℕ
deriving DecidableEq, Repr

/-- One character. -/
def advance (w : ℕ) (p : Position) : Kind → Position
  | .printed => if p.column < w then ⟨p.column + 1, p.row⟩ else ⟨1, p.row + 1⟩
  | .newline => ⟨0, p.row + 1⟩
  | .ignored => p

/-- The cursor behind a text that is written from `p` on. -/
def place (w : ℕ) (p : Position) (ks : List Kind) : Position := ks.foldl (advance w) p

/-- How many times a text that starts at the beginning of a row goes on to the next one. -/
def breaks (w : ℕ) (ks : List Kind) : ℕ := (place w ⟨0, 0⟩ ks).row

theorem place_cons (w : ℕ) (p : Position) (k : Kind) (ks : List Kind) :
    place w p (k :: ks) = place w (advance w p k) ks := rfl

/-- A text of printed characters that fits its row stays on it. -/
theorem place_of_fits {w : ℕ} {p : Position} {ks : List Kind} (hks : ∀ k ∈ ks, k = .printed)
    (hfits : p.column + ks.length ≤ w) : place w p ks = ⟨p.column + ks.length, p.row⟩ := by
  induction ks generalizing p with
  | nil => rfl
  | cons k ks ih =>
      obtain rfl : k = .printed := hks k List.mem_cons_self
      rw [List.length_cons] at hfits ⊢
      have hlt : p.column < w := by omega
      rw [place_cons, advance, if_pos hlt, ih (fun k hk => hks k (List.mem_cons_of_mem _ hk))]
      · rw [Nat.add_right_comm, Nat.add_assoc]
      · change p.column + 1 + ks.length ≤ w
        omega

theorem breaks_of_fits {w : ℕ} {ks : List Kind} (hks : ∀ k ∈ ks, k = .printed)
    (hfits : ks.length ≤ w) : breaks w ks = 0 := by
  rw [breaks, place_of_fits hks (by simpa using hfits)]

end Text
