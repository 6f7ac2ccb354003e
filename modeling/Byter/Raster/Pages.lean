import Byter.Raster.Basic

/-!
# Bitmaps in pages

A bitmap of `n` pages holds `w` bytes for each of them. A byte is a column of eight
points, with the lowest bit on top; the byte of column `x` in page `k` has the index
`x + k * w`. Writing through a mask draws the points of the mask in that column.
-/

namespace Raster

/-- The bytes of a bitmap, page after page. -/
abbrev Pages (w n : ℕ) := Vector (BitVec 8) (w * n)

namespace Ink

/-- How an ink goes through a mask into a byte. -/
def mask : Ink → BitVec 8 → BitVec 8 → BitVec 8
  | black, m, byte => byte &&& ~~~m
  | white, m, byte => byte ||| m
  | inverse, m, byte => byte ^^^ m
  | transparent, _, byte => byte

theorem getLsbD_mask (i : Ink) (m byte : BitVec 8) {j : ℕ} (hj : j < 8) :
    (i.mask m byte).getLsbD j =
      if m.getLsbD j then i.paint (byte.getLsbD j) else byte.getLsbD j := by
  cases i with
  | black =>
      rw [mask, BitVec.getLsbD_and, BitVec.getLsbD_not]
      cases m.getLsbD j <;> simp [paint, hj]
  | white =>
      rw [mask, BitVec.getLsbD_or]
      cases m.getLsbD j <;> simp [paint]
  | inverse =>
      rw [mask, BitVec.getLsbD_xor]
      cases m.getLsbD j <;> simp [paint]
  | transparent => simp [mask, paint]

end Ink

/-- The points of a mask in column `x` of page `k`. -/
def strip (x k : ℕ) (m : BitVec 8) : Picture :=
  {q | q.1 = x ∧ q.2 / 8 = k ∧ m.getLsbD (q.2 % 8).toNat = true}

theorem mem_strip {x k : ℕ} {m : BitVec 8} {q : ℤ × ℤ} :
    q ∈ strip x k m ↔ q.1 = x ∧ q.2 / 8 = k ∧ m.getLsbD (q.2 % 8).toNat = true := Iff.rfl

namespace Pages

variable {w n : ℕ}

theorem index_lt {x k : ℕ} (hx : x < w) (hk : k < n) : x + k * w < w * n := by
  calc x + k * w < (k + 1) * w := by rw [Nat.add_one_mul]; omega
    _ ≤ n * w := Nat.mul_le_mul_right w hk
    _ = w * n := Nat.mul_comm n w

theorem index_inj {x x' k k' : ℕ} (hx : x < w) (hx' : x' < w) (h : x + k * w = x' + k' * w) :
    x = x' ∧ k = k' := by
  have hxx' : x = x' := by
    rw [← Nat.mod_eq_of_lt hx, ← Nat.mod_eq_of_lt hx', ← Nat.add_mul_mod_self_right x k w, h,
      Nat.add_mul_mod_self_right]
  subst hxx'
  exact ⟨rfl, Nat.eq_of_mul_eq_mul_right (by omega) (Nat.add_left_cancel h)⟩

/-- The byte of a column of a page. -/
def byte (b : Pages w n) (x k : ℕ) (hx : x < w) (hk : k < n) : BitVec 8 :=
  b.get ⟨x + k * w, index_lt hx hk⟩

/-- Changes the byte of a column of a page. -/
def modify (b : Pages w n) (x k : ℕ) (hx : x < w) (hk : k < n) (f : BitVec 8 → BitVec 8) :
    Pages w n :=
  b.set (x + k * w) (f (b.byte x k hx hk)) (index_lt hx hk)

theorem byte_modify (b : Pages w n) {x x' k k' : ℕ} (hx : x < w) (hk : k < n) (hx' : x' < w)
    (hk' : k' < n) (f : BitVec 8 → BitVec 8) :
    (b.modify x k hx hk f).byte x' k' hx' hk' =
      if x = x' ∧ k = k' then f (b.byte x' k' hx' hk') else b.byte x' k' hx' hk' := by
  have hget : (b.modify x k hx hk f).byte x' k' hx' hk' =
      if x + k * w = x' + k' * w then f (b.byte x k hx hk) else b.byte x' k' hx' hk' :=
    Vector.getElem_set (index_lt hx hk) (index_lt hx' hk')
  rw [hget]
  by_cases h : x + k * w = x' + k' * w
  · obtain ⟨rfl, rfl⟩ := index_inj hx hx' h
    rw [if_pos rfl, if_pos ⟨rfl, rfl⟩]
  · have hne : ¬(x = x' ∧ k = k') := by
      rintro ⟨rfl, rfl⟩
      exact h rfl
    rw [if_neg h, if_neg hne]

/-- A point with its coordinates as column, page and bit. -/
theorem point_cases (q : ℤ × ℤ) :
    (∃ (x k j : ℕ) (_ : x < w) (_ : k < n) (_ : j < 8), q = (↑x, ↑(8 * k + j))) ∨
      ¬(0 ≤ q.1 ∧ q.1 < w ∧ 0 ≤ q.2 ∧ q.2 / 8 < n) := by
  by_cases h : 0 ≤ q.1 ∧ q.1 < w ∧ 0 ≤ q.2 ∧ q.2 / 8 < n
  · refine Or.inl ⟨q.1.toNat, (q.2 / 8).toNat, (q.2 % 8).toNat, by omega, by omega, by omega, ?_⟩
    apply Prod.ext
    · change q.1 = (q.1.toNat : ℤ)
      omega
    · change q.2 = ((8 * (q.2 / 8).toNat + (q.2 % 8).toNat : ℕ) : ℤ)
      omega
  · exact Or.inr h

/-- The points whose bits are set. -/
def picture (b : Pages w n) : Picture :=
  {q | ∃ (x k j : ℕ) (hx : x < w) (hk : k < n), j < 8 ∧ q = (↑x, ↑(8 * k + j)) ∧
    (b.byte x k hx hk).getLsbD j = true}

theorem mem_picture_iff (b : Pages w n) {x k j : ℕ} (hx : x < w) (hk : k < n) (hj : j < 8) :
    ((x : ℤ), ((8 * k + j : ℕ) : ℤ)) ∈ b.picture ↔ (b.byte x k hx hk).getLsbD j = true := by
  constructor
  · rintro ⟨x', k', j', hx', hk', hj', hq, hlit⟩
    obtain ⟨hxx, hyy⟩ := Prod.mk.inj hq
    obtain rfl : x = x' := by omega
    obtain rfl : k = k' := by omega
    obtain rfl : j = j' := by omega
    exact hlit
  · exact fun hlit => ⟨x, k, j, hx, hk, hj, rfl, hlit⟩

theorem bounds_of_mem_picture {b : Pages w n} {q : ℤ × ℤ} (h : q ∈ b.picture) :
    0 ≤ q.1 ∧ q.1 < w ∧ 0 ≤ q.2 ∧ q.2 / 8 < n := by
  obtain ⟨x, k, j, hx, hk, hj, rfl, -⟩ := h
  dsimp only
  omega

/-- A bitmap is known from its picture. -/
theorem picture_injective : Function.Injective (picture : Pages w n → Picture) := by
  intro b b' h
  apply Vector.ext
  intro i hi
  have hw : 0 < w := Nat.pos_of_ne_zero fun hw => by simp [hw] at hi
  have hx : i % w < w := Nat.mod_lt i hw
  have hk : i / w < n := (Nat.div_lt_iff_lt_mul hw).2 (by rwa [Nat.mul_comm])
  have hi' : i % w + i / w * w = i := by rw [Nat.mul_comm]; exact Nat.mod_add_div i w
  have hbyte : b.byte (i % w) (i / w) hx hk = b'.byte (i % w) (i / w) hx hk := by
    apply BitVec.eq_of_getLsbD_eq
    intro j hj
    rw [Bool.eq_iff_iff, ← b.mem_picture_iff hx hk hj, ← b'.mem_picture_iff hx hk hj, h]
  have hget : b.get ⟨i, hi⟩ = b'.get ⟨i, hi⟩ := by simpa only [byte, hi'] using hbyte
  exact hget

/-- Writing through a mask draws its points. -/
theorem picture_modify_mask (b : Pages w n) {x k : ℕ} (hx : x < w) (hk : k < n) (i : Ink)
    (m : BitVec 8) :
    (b.modify x k hx hk (i.mask m)).picture = i.draw (strip x k m) b.picture := by
  ext q
  obtain ⟨x', k', j, hx', hk', hj, rfl⟩ | hout := point_cases (w := w) (n := n) q
  · rw [mem_picture_iff _ hx' hk' hj, Ink.mem_draw_iff (b.mem_picture_iff hx' hk' hj),
      byte_modify]
    have hstrip : ((x' : ℤ), ((8 * k' + j : ℕ) : ℤ)) ∈ strip x k m ↔
        (x = x' ∧ k = k') ∧ m.getLsbD j = true := by
      have hpage : ((8 * k' + j : ℕ) : ℤ) / 8 = k' := by omega
      have hbit : (((8 * k' + j : ℕ) : ℤ) % 8).toNat = j := by omega
      rw [mem_strip, hpage, hbit, Int.natCast_inj, Int.natCast_inj, eq_comm (a := x'),
        eq_comm (a := k'), and_assoc]
    rw [hstrip]
    by_cases hxk : x = x' ∧ k = k'
    · rw [if_pos hxk, Ink.getLsbD_mask i m _ hj]
      cases m.getLsbD j <;> simp [hxk]
    · rw [if_neg hxk]
      simp [hxk]
  · have hstrip : q ∉ strip x k m := by
      rintro ⟨hqx, hqk, -⟩
      exact hout (by omega)
    rw [Ink.mem_draw_of_not_mem hstrip]
    exact iff_of_false (fun h => hout (bounds_of_mem_picture h))
      fun h => hout (bounds_of_mem_picture h)

end Pages

end Raster
