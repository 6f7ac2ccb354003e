import Mathlib.Data.List.Basic
import Byter.Population.Turnover

/-!
# Episodes in a stream of readings

A sensor is read again and again. A reading says that something is there (`on`),
that nothing is there (`off`), or nothing at all (`skip`). An episode begins with
a reading that is on and ends with the next one that is off. An automaton with
one bit counts the episodes that end; read against the whole history, they are
the readings that are off and have one that is on since the last that was off,
and each episode is known by the readings that begin and end it.

Two questions about lost and doubled readings are answered here. Dropping
readings never makes more episodes end. And when some of the readings that are on
are echoes, counting all of them and taking one off for each echo falls short of
counting without the echoes by the number of places where an echo stands beside a
reading that is not off.
-/

namespace Episode

open Population

/-- What a reading says. -/
inductive Signal
  | on
  | off
  | skip
deriving DecidableEq, Repr

/-- Whether an episode is open after a reading. -/
def holds (held : Bool) : Signal → Bool
  | .on => true
  | .off => false
  | .skip => held

/-- The episodes that end at a reading. -/
def ends (held : Bool) : Signal → ℕ
  | .off => held.toNat
  | _ => 0

/-- The episodes that end in a stream of readings. -/
def count (held : Bool) : List Signal → ℕ
  | [] => 0
  | x :: xs => ends held x + count (holds held x) xs

@[simp] theorem count_nil (held : Bool) : count held [] = 0 := rfl

theorem count_cons (held : Bool) (x : Signal) (xs : List Signal) :
    count held (x :: xs) = ends held x + count (holds held x) xs := rfl

theorem count_append (held : Bool) (xs ys : List Signal) :
    count held (xs ++ ys) = count held xs + count (xs.foldl holds held) ys := by
  induction xs generalizing held with
  | nil => simp
  | cons x xs ih =>
      rw [List.cons_append, count_cons, count_cons, ih, List.foldl_cons, Nat.add_assoc]

/-! ## The count read off the history -/

section History

variable {α : Type*} (signal : α → Signal)

/-- The readings since the last one that was off, the newest first. -/
def sinceOff (xs : List α) : List α := xs.reverse.takeWhile fun x => signal x ≠ .off

/-- The newest reading that is on, if there is one since the last that was off. -/
def recent (xs : List α) : Option α := (sinceOff signal xs).find? fun x => signal x = .on

/-- How many readings are off and have one that is on since the last that was
off. -/
def closed (xs : List α) : ℕ :=
  (List.range xs.length).countP fun i =>
    (xs[i]?.any fun x => signal x = .off) &&
      (sinceOff signal (xs.take i)).any fun x => signal x = .on

variable {signal}

@[simp] theorem recent_nil : recent signal [] = none := rfl

theorem sinceOff_snoc (xs : List α) (x : α) :
    sinceOff signal (xs ++ [x]) = if signal x = .off then [] else x :: sinceOff signal xs := by
  rw [sinceOff, List.reverse_concat, List.takeWhile_cons]
  by_cases h : signal x = .off
  · simp [h]
  · simp [h, sinceOff]

theorem recent_snoc (xs : List α) (x : α) :
    recent signal (xs ++ [x]) =
      match signal x with
      | .on => some x
      | .off => none
      | .skip => recent signal xs := by
  rw [recent, sinceOff_snoc]
  cases h : signal x <;> simp [h, recent]

/-- What is remembered is a reading that is on. -/
theorem signal_of_recent {xs : List α} {x : α} (h : recent signal xs = some x) :
    signal x = .on := by
  simpa using List.find?_some h

theorem recent_isSome (xs : List α) :
    (recent signal xs).isSome = (sinceOff signal xs).any fun x => signal x = .on := by
  rw [recent, Bool.eq_iff_iff, List.find?_isSome, List.any_eq_true]

/-- The bit of the automaton says whether something is remembered. -/
theorem foldl_holds (xs : List α) :
    (xs.map signal).foldl holds false = (recent signal xs).isSome := by
  induction xs using List.reverseRecOn with
  | nil => rfl
  | append_singleton xs x ih =>
      rw [List.map_append, List.foldl_append, ih, recent_snoc]
      cases h : signal x <;> simp [h, holds]

theorem closed_snoc (xs : List α) (x : α) :
    closed signal (xs ++ [x]) =
      closed signal xs + ends (recent signal xs).isSome (signal x) := by
  have hbefore : ∀ i ∈ List.range xs.length,
      (((xs ++ [x])[i]?.any fun x => signal x = .off) &&
          (sinceOff signal ((xs ++ [x]).take i)).any fun x => signal x = .on) =
        ((xs[i]?.any fun x => signal x = .off) &&
          (sinceOff signal (xs.take i)).any fun x => signal x = .on) := by
    intro i hi
    have hlt := List.mem_range.1 hi
    rw [List.getElem?_append_left hlt, List.take_append_of_le_length (by omega)]
  have hget : (xs ++ [x])[xs.length]? = some x := List.getElem?_concat_length
  have htake : (xs ++ [x]).take xs.length = xs := List.take_left
  rw [closed, List.length_append, List.length_singleton, List.range_succ, List.countP_append,
    List.countP_congr (fun i hi => by rw [hbefore i hi]), recent_isSome, List.countP_singleton,
    hget, htake, ← closed]
  generalize ((sinceOff signal xs).any fun x => signal x = .on) = held
  cases h : signal x <;> cases held <;> simp [h, ends]

/-- The automaton counts what the history shows. -/
theorem count_eq_closed (xs : List α) : count false (xs.map signal) = closed signal xs := by
  induction xs using List.reverseRecOn with
  | nil => rfl
  | append_singleton xs x ih =>
      rw [List.map_append, count_append, ih, foldl_holds, closed_snoc]
      simp [count_cons]

/-! ### Whole episodes -/

variable (signal)

/-- The oldest reading that is on, if there is one since the last that was off. -/
def oldest (xs : List α) : Option α :=
  ((sinceOff signal xs).filter fun x => signal x = .on).getLast?

/-- The episodes that have ended, in order, each with the reading that begins it
and the reading that ends it. -/
def episodes (xs : List α) : List (α × α) :=
  (List.range xs.length).filterMap fun i =>
    xs[i]?.bind fun x =>
      if signal x = .off then (oldest signal (xs.take i)).map fun a => (a, x) else none

variable {signal}

@[simp] theorem oldest_nil : oldest signal [] = none := rfl

@[simp] theorem episodes_nil : episodes signal [] = [] := rfl

theorem oldest_snoc (xs : List α) (x : α) :
    oldest signal (xs ++ [x]) =
      match signal x with
      | .on => some ((oldest signal xs).getD x)
      | .off => none
      | .skip => oldest signal xs := by
  rw [oldest, sinceOff_snoc]
  cases h : signal x <;> simp [h, oldest, List.getLast?_cons]

theorem episodes_snoc (xs : List α) (x : α) :
    episodes signal (xs ++ [x]) =
      episodes signal xs ++
        (if signal x = .off then (oldest signal xs).map fun a => (a, x) else none).toList := by
  have hbefore : ∀ i ∈ List.range xs.length,
      ((xs ++ [x])[i]?.bind fun y =>
          if signal y = .off then
            (oldest signal ((xs ++ [x]).take i)).map fun a => (a, y)
          else none) =
        xs[i]?.bind fun y =>
          if signal y = .off then (oldest signal (xs.take i)).map fun a => (a, y) else none := by
    intro i hi
    have hlt := List.mem_range.1 hi
    rw [List.getElem?_append_left hlt, List.take_append_of_le_length (by omega)]
  have hget : (xs ++ [x])[xs.length]? = some x := List.getElem?_concat_length
  have htake : (xs ++ [x]).take xs.length = xs := List.take_left
  rw [episodes, List.length_append, List.length_singleton, List.range_succ,
    List.filterMap_append, List.filterMap_congr hbefore, ← episodes, List.filterMap_cons, hget,
    htake, Option.bind_some, List.filterMap_nil]
  generalize (if signal x = .off then (oldest signal xs).map fun a => (a, x) else none) = ended
  cases ended <;> rfl

/-- The readings may be taken through a map that keeps what they say. -/
theorem oldest_map {β : Type*} (f : β → α) (xs : List β) :
    oldest signal (xs.map f) = (oldest (signal ∘ f) xs).map f := by
  induction xs using List.reverseRecOn with
  | nil => rfl
  | append_singleton xs x ih =>
      rw [List.map_append, List.map_singleton, oldest_snoc, oldest_snoc, ih]
      cases h : signal (f x) <;> cases oldest (signal ∘ f) xs <;> simp [h]

theorem episodes_map {β : Type*} (f : β → α) (xs : List β) :
    episodes signal (xs.map f) = (episodes (signal ∘ f) xs).map (Prod.map f f) := by
  induction xs using List.reverseRecOn with
  | nil => rfl
  | append_singleton xs x ih =>
      rw [List.map_append, List.map_singleton, episodes_snoc, episodes_snoc, ih, oldest_map,
        List.map_append]
      by_cases h : signal (f x) = .off <;> cases oldest (signal ∘ f) xs <;> simp [h]

theorem oldest_eq_none_iff (xs : List α) : oldest signal xs = none ↔ recent signal xs = none := by
  simp [oldest, recent]

/-- An episode that is open began with a reading that is on, and none was off
since. -/
theorem exists_split_of_oldest {xs : List α} {a : α} (h : oldest signal xs = some a) :
    ∃ pre run, xs = pre ++ a :: run ∧ signal a = .on ∧ recent signal pre = none ∧
      ∀ y ∈ run, signal y ≠ .off := by
  induction xs using List.reverseRecOn with
  | nil => simp at h
  | append_singleton xs x ih =>
      have hgrow : oldest signal xs = some a → signal x ≠ .off →
          ∃ pre run, xs ++ [x] = pre ++ a :: run ∧ signal a = .on ∧ recent signal pre = none ∧
            ∀ y ∈ run, signal y ≠ .off := by
        intro hxs hx
        obtain ⟨pre, run, rfl, ha, hpre, hrun⟩ := ih hxs
        refine ⟨pre, run ++ [x], by simp, ha, hpre, ?_⟩
        intro y hy
        rcases List.mem_append.1 hy with hy | hy
        · exact hrun y hy
        · obtain rfl := List.mem_singleton.1 hy
          exact hx
      rw [oldest_snoc] at h
      cases hx : signal x with
      | off => simp [hx] at h
      | skip =>
          rw [hx] at h
          exact hgrow h (by simp [hx])
      | on =>
          rw [hx] at h
          cases hxs : oldest signal xs with
          | none =>
              obtain rfl : x = a := by simpa [hxs] using h
              exact ⟨xs, [], rfl, hx, (oldest_eq_none_iff xs).1 hxs, by simp⟩
          | some b =>
              obtain rfl : b = a := by simpa [hxs] using h
              exact hgrow hxs (by simp [hx])

/-- An episode is a longest stretch of readings: it begins with one that is on
where none was open, ends with one that is off, and has none that is off between. -/
theorem exists_split_of_mem_episodes {xs : List α} {a b : α} (h : (a, b) ∈ episodes signal xs) :
    ∃ pre run post, xs = pre ++ a :: (run ++ b :: post) ∧ signal a = .on ∧ signal b = .off ∧
      recent signal pre = none ∧ ∀ y ∈ run, signal y ≠ .off := by
  induction xs using List.reverseRecOn with
  | nil => simp at h
  | append_singleton xs x ih =>
      rw [episodes_snoc] at h
      rcases List.mem_append.1 h with h | h
      · obtain ⟨pre, run, post, rfl, hsplit⟩ := ih h
        exact ⟨pre, run, post ++ [x], by simp, hsplit⟩
      · by_cases hx : signal x = .off
        · rw [if_pos hx, Option.mem_toList, Option.map_eq_some_iff] at h
          obtain ⟨a', hold, heq⟩ := h
          cases heq
          obtain ⟨pre, run, rfl, ha, hpre, hrun⟩ := exists_split_of_oldest hold
          exact ⟨pre, run, [], by simp, ha, hx, hpre, hrun⟩
        · simp [hx] at h

end History

/-! ## Lost readings -/

theorem count_true_le (xs : List Signal) : count true xs ≤ count false xs + 1 := by
  induction xs with
  | nil => simp
  | cons x xs ih =>
      cases x <;> simp only [count_cons, ends, holds, Bool.toNat_true, Bool.toNat_false] <;> omega

theorem count_false_le (xs : List Signal) : count false xs ≤ count true xs := by
  induction xs with
  | nil => simp
  | cons x xs ih =>
      cases x <;> simp only [count_cons, ends, holds, Bool.toNat_true, Bool.toNat_false] <;> omega

/-- One more reading in front does not make fewer episodes end. -/
theorem count_le_cons (held : Bool) (x : Signal) (xs : List Signal) :
    count held xs ≤ count held (x :: xs) := by
  have htrue := count_true_le xs
  have hfalse := count_false_le xs
  cases x <;> cases held <;>
    simp only [count_cons, ends, holds, Bool.toNat_true, Bool.toNat_false] <;> omega

/-- Losing readings never makes more episodes end. -/
theorem count_sublist (held : Bool) {xs ys : List Signal} (h : xs.Sublist ys) :
    count held xs ≤ count held ys := by
  induction h generalizing held with
  | slnil => exact le_rfl
  | cons y _ ih => exact (ih held).trans (count_le_cons held y _)
  | cons_cons x _ ih =>
      rw [count_cons, count_cons]
      exact Nat.add_le_add_left (ih _) _

/-! ## Echoes -/

/-- A reading of a sensor that may pick up the echo of another one. -/
inductive Heard
  | off
  | key
  | echo
deriving DecidableEq, Repr

namespace Heard

/-- An echo is taken for a reading that is on. -/
def naive : Heard → Signal
  | off => .off
  | _ => .on

/-- An echo is left out. -/
def cleaned : Heard → Signal
  | key => .on
  | _ => .off

/-- An echo beside a reading that is not off. -/
def clash : Heard → Heard → ℕ
  | echo, off | off, _ | key, off | key, key => 0
  | echo, _ | key, echo => 1

/-- Whether an echo is still to be made up for. -/
def due : Heard → ℕ
  | echo => 1
  | _ => 0

theorem clash_eq_zero_iff (x y : Heard) :
    clash x y = 0 ↔ (x = echo → y = off) ∧ (y = echo → x = off) := by
  cases x <;> cases y <;> simp [clash]

end Heard

/-- How often an echo stands beside a reading that is not off. -/
def clashes (x : Heard) (xs : List Heard) : ℕ := stepSum Heard.clash x xs

/-- Counting with the echoes and taking one off for each falls short of counting
without them by the clashes. The two automata are in step except behind an echo,
where one release is still due. -/
theorem count_echoes (x : Heard) (xs : List Heard) :
    xs.count .echo + count (x.cleaned = .on) (xs.map Heard.cleaned) + x.due =
      count (x.naive = .on) (xs.map Heard.naive) + clashes x xs + (xs.getLastD x).due := by
  induction xs generalizing x with
  | nil => simp [clashes]
  | cons y xs ih =>
      have hy := ih y
      rw [List.getLastD_cons, List.map_cons, List.map_cons, count_cons, count_cons,
        List.count_cons, clashes, stepSum_cons]
      rw [clashes] at hy
      cases x <;> cases y <;>
        simp [ends, holds, Heard.cleaned, Heard.naive, Heard.clash, Heard.due] at hy ⊢ <;> omega

/-- From off to off, the shortfall is the number of clashes. -/
theorem count_echoes_of_last_off {xs : List Heard} (hlast : xs.getLastD .off = .off) :
    xs.count .echo + count false (xs.map Heard.cleaned) =
      count false (xs.map Heard.naive) + clashes .off xs := by
  have hcount := count_echoes .off xs
  rw [hlast] at hcount
  exact hcount

end Episode
