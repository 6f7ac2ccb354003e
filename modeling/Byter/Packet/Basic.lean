import Mathlib.Data.List.Basic

/-!
# Filling packets

Data is sent in packets that begin with a header and hold no more than a limit. A packet
is closed when the next byte would go beyond the limit. Without the headers the packets
are the data again.
-/

namespace Packet

variable {α : Type*}

/-- The packets of `data`, the first of which has been filled with `current`. -/
def fill (limit : ℕ) (header : α) : List α → List α → List (List α)
  | current, [] => [current]
  | current, b :: data =>
      if limit ≤ current.length then current :: fill limit header [header, b] data
      else fill limit header (current ++ [b]) data

variable {limit : ℕ} {header : α} {current data : List α} {t : List α}

theorem length_le_of_mem_fill (hlimit : 2 ≤ limit) (hcurrent : current.length ≤ limit)
    (ht : t ∈ fill limit header current data) : t.length ≤ limit := by
  induction data generalizing current with
  | nil =>
      obtain rfl := List.mem_singleton.1 ht
      exact hcurrent
  | cons b data ih =>
      rw [fill] at ht
      split at ht
      · obtain rfl | ht := List.mem_cons.1 ht
        · exact hcurrent
        · have hnext : [header, b].length ≤ limit := hlimit
          exact ih hnext ht
      · refine ih ?_ ht
        rw [List.length_append, List.length_singleton]
        omega

/-- Every packet begins with the header. -/
theorem head_of_mem_fill (hcurrent : current.head? = some header)
    (ht : t ∈ fill limit header current data) : t.head? = some header := by
  induction data generalizing current with
  | nil =>
      obtain rfl := List.mem_singleton.1 ht
      exact hcurrent
  | cons b data ih =>
      rw [fill] at ht
      split at ht
      · obtain rfl | ht := List.mem_cons.1 ht
        · exact hcurrent
        · exact ih rfl ht
      · refine ih ?_ ht
        rw [List.head?_append, hcurrent]
        rfl

/-- Without the headers the packets are the data. -/
theorem flatMap_tail_fill (hcurrent : current ≠ []) :
    (fill limit header current data).flatMap List.tail = current.tail ++ data := by
  induction data generalizing current with
  | nil => simp [fill]
  | cons b data ih =>
      rw [fill]
      split
      · rw [List.flatMap_cons, ih (List.cons_ne_nil _ _)]
        rfl
      · rw [ih (by simp), List.tail_append_of_ne_nil hcurrent, List.append_assoc]
        rfl

end Packet
