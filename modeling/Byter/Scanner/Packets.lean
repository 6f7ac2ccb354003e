import Byter.Scanner.Basic

/-!
# Scanners that are fed in packets

What a scanner reads may reach it in packets, cut anywhere. A function on packets follows
a scanner if it does on each packet what the scanner does item by item. The packets then
have the effect of all their items, and where they are cut does not matter.
-/

namespace Scanner

variable {π ι κ ω : Type*}

/-- One packet after the other, with what they put out. -/
def feedAll (feed : List ι → π → Option (π × List ω)) :
    List (List ι) → π → Option (π × List ω)
  | [], p => some (p, [])
  | l :: ls, p => (feed l p).bind fun r =>
      (feedAll feed ls r.1).map fun next => (next.1, r.2 ++ next.2)

theorem feedAll_snoc {feed : List ι → π → Option (π × List ω)} (ls : List (List ι)) (l : List ι)
    (p : π) :
    feedAll feed (ls ++ [l]) p =
      (feedAll feed ls p).bind fun r => (feed l r.1).map fun next => (next.1, r.2 ++ next.2) := by
  induction ls generalizing p with
  | nil =>
      simp only [List.nil_append, feedAll, Option.map_some, Option.bind_some, List.append_nil]
      cases feed l p <;> rfl
  | cons l' ls ih =>
      rw [List.cons_append, feedAll, feedAll]
      cases feed l' p with
      | none => rfl
      | some r =>
          simp only [Option.bind_some, ih]
          cases feedAll feed ls r.1 with
          | none => rfl
          | some r' =>
              simp only [Option.bind_some, Option.map_some, Option.map_map]
              cases feed l r'.1 with
              | none => rfl
              | some r'' => simp

/-- Where `ok` holds of a position and what is read there, `feed` does what the scanner does,
and puts out `out` of its reports. What is `ok` may be read in two parts, if the second is not
empty. -/
structure Follows (S : Scanner π ι κ) (out : κ → List ω)
    (feed : List ι → π → Option (π × List ω)) (ok : π → List ι → Prop) : Prop where
  feed_eq : ∀ p l, ok p l → feed l p = some (S.dest p l, (S.scan p l).flatMap out)
  ok_append : ∀ p l l', l' ≠ [] → ok p (l ++ l') → ok p l ∧ ok (S.dest p l) l'

namespace Follows

variable {S : Scanner π ι κ} {out : κ → List ω} {feed : List ι → π → Option (π × List ω)}
  {ok : π → List ι → Prop} {p : π} {ls ls' : List (List ι)}

theorem feedAll_eq (h : S.Follows out feed ok) (hne : [] ∉ ls) (hok : ok p ls.flatten) :
    feedAll feed ls p = some (S.dest p ls.flatten, (S.scan p ls.flatten).flatMap out) := by
  induction ls generalizing p with
  | nil => rfl
  | cons l ls ih =>
      rw [List.mem_cons, not_or] at hne
      rw [List.flatten_cons] at hok
      have hfirst : ok p l ∧ feedAll feed ls (S.dest p l) =
          some (S.dest (S.dest p l) ls.flatten, (S.scan (S.dest p l) ls.flatten).flatMap out) := by
        cases ls with
        | nil => exact ⟨by simpa using hok, rfl⟩
        | cons l' ls =>
            have hrest : (l' :: ls).flatten ≠ [] := fun hnil =>
              hne.2 (List.flatten_eq_nil_iff.1 hnil l' List.mem_cons_self ▸ List.mem_cons_self)
            obtain ⟨hl, hls⟩ := h.ok_append p l _ hrest hok
            exact ⟨hl, ih hne.2 hls⟩
      rw [feedAll, h.feed_eq p l hfirst.1, Option.bind_some, hfirst.2, Option.map_some,
        List.flatten_cons, dest_append, scan_append, List.flatMap_append]

/-- Where the packets are cut does not matter. -/
theorem feedAll_congr (h : S.Follows out feed ok) (hne : [] ∉ ls) (hne' : [] ∉ ls')
    (hsame : ls.flatten = ls'.flatten) (hok : ok p ls.flatten) :
    feedAll feed ls p = feedAll feed ls' p := by
  rw [h.feedAll_eq hne hok, h.feedAll_eq hne' (hsame ▸ hok), hsame]

end Follows

end Scanner
