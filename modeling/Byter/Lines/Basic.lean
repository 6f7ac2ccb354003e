import Mathlib.Data.List.Basic
import Mathlib.Tactic.TypeStar

/-!
# Blocks of lines

A block is a list of lines, each followed by two symbols that end it, and then an empty
line. A reader goes through the symbols one by one and returns the lines with what stands
behind the block. It reads back what has been written, and finds nothing in a part of a
block.
-/

namespace Lines

variable {α : Type*} {cr lf : α} {l bs cur : List α} {ls : List (List α)}

/-- The lines, each with its end. -/
def join (cr lf : α) (ls : List (List α)) : List α := ls.flatMap fun l => l ++ [cr, lf]

/-- The lines and the empty line behind them. -/
def block (cr lf : α) (ls : List (List α)) : List α := join cr lf ls ++ [cr, lf]

@[simp] theorem join_nil : join cr lf [] = [] := rfl

@[simp] theorem join_cons : join cr lf (l :: ls) = l ++ [cr, lf] ++ join cr lf ls := rfl

theorem join_append (ls ls' : List (List α)) :
    join cr lf (ls ++ ls') = join cr lf ls ++ join cr lf ls' := List.flatMap_append

variable [DecidableEq α]

/-- Reads a block, the first line of which has begun with `cur`. -/
def readBlock (cr lf : α) : List α → List α → Option (List (List α) × List α)
  | _, [] => none
  | cur, b :: bs =>
      if b = lf ∧ cur.getLast? = some cr then
        if cur = [cr] then some ([], bs)
        else (readBlock cr lf [] bs).map fun r => (cur.dropLast :: r.1, r.2)
      else readBlock cr lf (cur ++ [b]) bs

theorem readBlock_append_of_not_mem (h : lf ∉ l) :
    readBlock cr lf cur (l ++ bs) = readBlock cr lf (cur ++ l) bs := by
  induction l generalizing cur with
  | nil => simp
  | cons b l ih =>
      have hb : b ≠ lf := fun hb => h (hb ▸ List.mem_cons_self)
      rw [List.cons_append, readBlock, if_neg fun hend => hb hend.1,
        ih fun hl => h (List.mem_cons_of_mem b hl), List.append_assoc, List.singleton_append]

/-- One line. -/
theorem readBlock_line (bs : List α) (hne : cr ≠ lf) (h : lf ∉ l) :
    readBlock cr lf [] (l ++ [cr, lf] ++ bs) =
      if l = [] then some ([], bs) else (readBlock cr lf [] bs).map fun r => (l :: r.1, r.2) := by
  have hline : lf ∉ l ++ [cr] := by
    rw [List.mem_append, List.mem_singleton]
    exact fun hl => hl.elim h fun heq => hne heq.symm
  have hsplit : l ++ [cr, lf] ++ bs = (l ++ [cr]) ++ lf :: bs := by simp
  rw [hsplit, readBlock_append_of_not_mem hline, List.nil_append, readBlock,
    if_pos ⟨rfl, by simp⟩, List.dropLast_concat]
  by_cases hl : l = []
  · rw [if_pos hl, if_pos (by rw [hl]; rfl)]
  · rw [if_neg hl, if_neg fun hsingle => hl (by simpa using hsingle)]

/-- A block is read back. -/
theorem readBlock_block (bs : List α) (hne : cr ≠ lf) (h : ∀ l ∈ ls, l ≠ [] ∧ lf ∉ l) :
    readBlock cr lf [] (block cr lf ls ++ bs) = some (ls, bs) := by
  induction ls with
  | nil =>
      have hempty := readBlock_line bs hne (List.not_mem_nil (a := lf))
      rwa [if_pos rfl] at hempty
  | cons l ls ih =>
      obtain ⟨hl, hlf⟩ := h l List.mem_cons_self
      have hsplit : block cr lf (l :: ls) ++ bs = l ++ [cr, lf] ++ (block cr lf ls ++ bs) := by
        simp [block]
      rw [hsplit, readBlock_line _ hne hlf, if_neg hl,
        ih fun l' hl' => h l' (List.mem_cons_of_mem l hl')]
      rfl

/-- What follows a block does not change how it is read. -/
theorem readBlock_append {r s : List α} (h : readBlock cr lf cur bs = some (ls, r)) :
    readBlock cr lf cur (bs ++ s) = some (ls, r ++ s) := by
  induction bs generalizing cur ls with
  | nil => cases h
  | cons b bs ih =>
      rw [readBlock] at h
      rw [List.cons_append, readBlock]
      by_cases hend : b = lf ∧ cur.getLast? = some cr
      · rw [if_pos hend] at h ⊢
        by_cases hcur : cur = [cr]
        · rw [if_pos hcur] at h ⊢
          cases h
          rfl
        · rw [if_neg hcur] at h ⊢
          obtain ⟨⟨ls', r'⟩, hrest, hpair⟩ := Option.map_eq_some_iff.1 h
          cases hpair
          rw [ih hrest]
          rfl
      · rw [if_neg hend] at h ⊢
        exact ih h

end Lines
