import Mathlib.Tactic.Ring
import Mathlib.Data.Set.Insert
import Byter.Sketch.Lines
import Byter.Panel.Buffer

/-!
# What the lines draw

An operation on the buffer draws a shape in an ink: it accesses nothing outside of the
buffer, and the picture behind it is that of drawing the shape. The lines draw exactly
the points of their segment that lie on the screen.
-/

namespace Byter

open Raster

variable {p : Panel} {i : Ink} {S T : Picture} {color : UInt16}

/-- The ink of a colour; the other colours leave no trace. -/
def ink (color : UInt16) : Ink :=
  if color = SSD1306_WHITE then .white
  else if color = SSD1306_BLACK then .black
  else if color = SSD1306_INVERSE then .inverse
  else .transparent

theorem blend_eq_mask (color : UInt16) : blend color = (ink color).mask := by
  funext mask byte
  unfold blend ink
  split_ifs <;> rfl

theorem color_cases {color : UInt16} (h : color ≤ 2) :
    color = SSD1306_BLACK ∨ color = SSD1306_WHITE ∨ color = SSD1306_INVERSE := by
  have htoNat : color.toNat ≤ 2 := h
  have hcolor : color.toNat = 0 ∨ color.toNat = 1 ∨ color.toNat = 2 := by omega
  exact hcolor.imp (fun h => UInt16.toNat_inj.1 h)
    (Or.imp (fun h => UInt16.toNat_inj.1 h) fun h => UInt16.toNat_inj.1 h)

theorem solid_eq_mask (hcolor : color ≤ 2) : solid color = (ink color).mask 0xFF := by
  funext byte
  obtain rfl | rfl | rfl := color_cases hcolor
  · exact (BitVec.and_zero (w := 8)).symm
  · exact (BitVec.or_allOnes (w := 8)).symm
  · rfl

/-! ## Operations that draw -/

/-- The operation draws the shape `S`, wherever it is used. -/
def Draws (i : Ink) (S : Picture) (op : Buffer p → Option (Buffer p)) : Prop :=
  ∀ b, ∃ b', op b = some b' ∧ b'.picture = i.draw S b.picture

namespace Draws

theorem nothing : Draws i ∅ (some : Buffer p → Option (Buffer p)) :=
  fun b => ⟨b, rfl, Ink.draw_empty.symm⟩

theorem bind {op op' : Buffer p → Option (Buffer p)} (h : Draws i S op) (h' : Draws i T op')
    (hST : Disjoint S T) : Draws i (S ∪ T) (fun b => op b >>= op') := by
  intro b
  obtain ⟨b', hop, hpicture⟩ := h b
  obtain ⟨b'', hop', hpicture'⟩ := h' b'
  have hboth : (op b >>= op') = some b'' := by rw [hop]; exact hop'
  refine ⟨b'', hboth, ?_⟩
  rw [hpicture', hpicture, Ink.draw_draw hST]

/-- Two operations that draw the same shape are the same operation. -/
theorem unique {op op' : Buffer p → Option (Buffer p)} (h : Draws i S op) (h' : Draws i S op') :
    op = op' := by
  funext b
  obtain ⟨c, hop, hc⟩ := h b
  obtain ⟨c', hop', hc'⟩ := h' b
  rw [hop, hop', Pages.picture_injective (hc.trans hc'.symm)]

/-- Operations one after the other, for shapes that do not meet. -/
theorem foldlM {α : Type*} {l : List α} (shape : α → Picture)
    (op : α → Buffer p → Option (Buffer p)) (h : ∀ a ∈ l, Draws i (shape a) (op a))
    (hdisjoint : l.Pairwise fun a a' => Disjoint (shape a) (shape a')) :
    Draws i {q | ∃ a ∈ l, q ∈ shape a} (fun b => l.foldlM (fun b a => op a b) b) := by
  induction l with
  | nil =>
      have hnone : {q | ∃ a ∈ ([] : List α), q ∈ shape a} = (∅ : Picture) := by simp
      rw [hnone]
      exact nothing
  | cons a l ih =>
      rw [List.pairwise_cons] at hdisjoint
      have hrest := ih (fun a ha => h a (List.mem_cons_of_mem _ ha)) hdisjoint.2
      have hdis : Disjoint (shape a) {q | ∃ a ∈ l, q ∈ shape a} := by
        rw [Set.disjoint_left]
        rintro q hq ⟨a', ha', hq'⟩
        exact Set.disjoint_left.1 (hdisjoint.1 a' ha') hq hq'
      have hunion : {q | ∃ a' ∈ a :: l, q ∈ shape a'} = shape a ∪ {q | ∃ a ∈ l, q ∈ shape a} := by
        ext q
        simp
      rw [hunion]
      exact (h a List.mem_cons_self).bind hrest hdis

end Draws

/-! ## Single bytes -/

theorem update_eq (b : Buffer p) {x k : ℕ} (hx : x < p.WIDTH) (hk : k < p.pages)
    (f : BitVec 8 → BitVec 8) : update b (x + k * p.WIDTH) f = some (b.modify x k hx hk f) := by
  have hindex := Pages.index_lt hx hk
  have hcast : ((x : ℤ) + k * p.WIDTH) = (x + k * p.WIDTH : ℕ) := by push_cast; rfl
  rw [update, dif_pos (by rw [hcast]; exact ⟨Int.natCast_nonneg _, by exact_mod_cast hindex⟩)]
  have htoNat : ((x : ℤ) + k * p.WIDTH).toNat = x + k * p.WIDTH := by rw [hcast]; rfl
  simp only [Pages.modify, Pages.byte, htoNat]

theorem draws_strip (color : UInt16) {x k : ℕ} (hx : x < p.WIDTH) (hk : k < p.pages)
    (m : BitVec 8) : Draws (p := p) (ink color) (strip x k m)
      (fun b => update b (x + k * p.WIDTH) (blend color m)) := by
  intro b
  refine ⟨_, update_eq b hx hk _, ?_⟩
  rw [blend_eq_mask, Pages.picture_modify_mask]

theorem draws_solid (hcolor : color ≤ 2) {x k : ℕ} (hx : x < p.WIDTH) (hk : k < p.pages) :
    Draws (p := p) (ink color) (strip x k 0xFF)
      (fun b => update b (x + k * p.WIDTH) (solid color)) := by
  intro b
  refine ⟨_, update_eq b hx hk _, ?_⟩
  rw [solid_eq_mask hcolor, Pages.picture_modify_mask]

/-! ## Masks -/

theorem getLsbD_bit {j l : ℕ} (hj : j < 8) :
    ((1 : BitVec 8) <<< j).getLsbD l = true ↔ l = j := by
  have hone : (1 : BitVec 8) <<< j = BitVec.twoPow 8 j := (BitVec.twoPow_eq 8 j).symm
  rw [hone, BitVec.getLsbD_twoPow]
  simp [hj, eq_comm]

/-- A byte tested with a single bit. -/
theorem and_bit_ne_zero {j : ℕ} (hj : j < 8) (byte : BitVec 8) :
    (byte &&& ((1 : BitVec 8) <<< j) != 0) = byte.getLsbD j := by
  have hone : (1 : BitVec 8) <<< j = BitVec.twoPow 8 j := (BitVec.twoPow_eq 8 j).symm
  rw [hone, BitVec.and_twoPow]
  cases byte.getLsbD j with
  | false => rfl
  | true =>
      have hne : BitVec.twoPow 8 j ≠ 0 := by
        intro hzero
        have hbit := (getLsbD_bit (l := j) hj).2 rfl
        rw [hone, hzero] at hbit
        simp at hbit
      exact bne_iff_ne.2 hne

theorem getLsbD_premask {mod l : ℕ} (hmod : mod < 8) (hl : l < 8) :
    (premask mod).getLsbD l = true ↔ 8 - mod ≤ l := by
  have hall : ∀ mod < 8, ∀ l < 8, (premask mod).getLsbD l = true ↔ 8 - mod ≤ l := by decide
  exact hall mod hmod l hl

theorem getLsbD_postmask {mod l : ℕ} (hmod : mod < 8) (hl : l < 8) :
    (postmask mod).getLsbD l = true ↔ l < mod := by
  have hall : ∀ mod < 8, ∀ l < 8, (postmask mod).getLsbD l = true ↔ l < mod := by decide
  exact hall mod hmod l hl

theorem getLsbD_rest {k l : ℕ} (hk : k < 8) (hl : l < 8) :
    ((0xFF : BitVec 8) >>> k).getLsbD l = true ↔ l < 8 - k := by
  have hall : ∀ k < 8, ∀ l < 8, ((0xFF : BitVec 8) >>> k).getLsbD l = true ↔ l < 8 - k := by decide
  exact hall k hk l hl

/-! ## Horizontal lines -/

/-- Unless the sum in the first step wraps, the points that are left are those of the line
that have their coordinate in the row. -/
theorem clip_spec {x w : ℤ} {size : ℕ} (hsize : size < 256) (hx : x ≤ 32767) (hw : w ≤ 32767)
    (hsum : 0 ≤ x ∨ -32768 ≤ w + x) {x' w' : ℤ} (h : clip x w size = (x', w')) :
    0 ≤ x' ∧ (0 < w' → x' + w' ≤ size) ∧
      ∀ c, x' ≤ c ∧ c < x' + w' ↔ (x ≤ c ∧ c < x + w) ∧ 0 ≤ c ∧ c < size := by
  have hleft : x < 0 → int16 (w + x) = w + x := fun hneg => int16_of_small (by omega) (by omega)
  have hright : ∀ x₀ : ℤ, 0 ≤ x₀ → x₀ ≤ 32767 → int16 (size - x₀) = size - x₀ :=
    fun x₀ h0 h1 => int16_of_small (by omega) (by omega)
  unfold clip at h
  dsimp only at h
  by_cases hneg : x < 0
  · rw [if_pos hneg, if_pos hneg, hleft hneg, hright 0 (by omega) (by omega)] at h
    split at h
    all_goals
      obtain ⟨rfl, rfl⟩ := Prod.mk.inj h
      refine ⟨by omega, by omega, fun c => ?_⟩
      omega
  · rw [if_neg hneg, if_neg hneg, hright x (by omega) hx] at h
    split at h
    all_goals
      obtain ⟨rfl, rfl⟩ := Prod.mk.inj h
      refine ⟨by omega, by omega, fun c => ?_⟩
      omega

/-- The points of a mask in the columns from `x` to `x + w` of page `k`. -/
def stripes (x w k : ℕ) (m : BitVec 8) : Picture :=
  {q | x ≤ q.1 ∧ q.1 < x + w ∧ q.2 / 8 = k ∧ m.getLsbD (q.2 % 8).toNat = true}

theorem hLoop_draws (color : UInt16) {x w k : ℕ} (hx : x + w ≤ p.WIDTH)
    (hk : k < p.pages) (m : BitVec 8) :
    Draws (p := p) (ink color) (stripes x w k m) (hLoop color m w (x + k * p.WIDTH)) := by
  induction w generalizing x with
  | zero =>
      have hnone : stripes x 0 k m = ∅ := by
        ext q
        simp only [stripes, Set.mem_ofPred_eq, Set.mem_empty_iff_false, iff_false]
        omega
      rw [hnone]
      exact Draws.nothing
  | succ w ih =>
      have hnext : ((x : ℤ) + k * p.WIDTH + 1) = ((x + 1 : ℕ) : ℤ) + k * p.WIDTH := by
        push_cast
        ring
      have hsplit : stripes x (w + 1) k m = strip x k m ∪ stripes (x + 1) w k m := by
        ext q
        simp only [stripes, strip, Set.mem_ofPred_eq, Set.mem_union]
        constructor
        · rintro ⟨hlow, hhigh, hpage, hbit⟩
          by_cases hq : q.1 = x
          · exact Or.inl ⟨hq, hpage, hbit⟩
          · exact Or.inr ⟨by push_cast; omega, by push_cast at hhigh ⊢; omega, hpage, hbit⟩
        · rintro (⟨hq, hpage, hbit⟩ | ⟨hlow, hhigh, hpage, hbit⟩)
          · exact ⟨by omega, by push_cast; omega, hpage, hbit⟩
          · exact ⟨by push_cast at hlow; omega, by push_cast at hhigh ⊢; omega, hpage, hbit⟩
      have hdisjoint : Disjoint (strip x k m) (stripes (x + 1) w k m) := by
        rw [Set.disjoint_left]
        rintro q ⟨hq, -⟩ ⟨hlow, -⟩
        push_cast at hlow
        omega
      rw [hsplit]
      have hrest := ih (x := x + 1) (by omega)
      rw [← hnext] at hrest
      exact (draws_strip color (by omega) hk m).bind hrest hdisjoint

theorem Panel.lt_pages {y : ℤ} (h0 : 0 ≤ y) (h : y < p.HEIGHT) : (y / 8).toNat < p.pages := by
  unfold Panel.pages
  omega

theorem Draws.of_eq {op op' : Buffer p → Option (Buffer p)} (h : Draws i S op) (hST : S = T)
    (hop : ∀ b, op' b = op b) : Draws i T op' := by
  subst hST
  intro b
  rw [hop]
  exact h b

theorem Draws.none_of_empty {op : Buffer p → Option (Buffer p)} (hS : ∀ q, q ∉ S)
    (hop : ∀ b, op b = some b) : Draws i S op :=
  Draws.nothing.of_eq (Set.eq_empty_of_forall_notMem hS).symm hop

/-- A horizontal line draws those of its points that are on the screen. -/
theorem drawFastHLineInternal_draws (color : UInt16) {x y w : ℤ} (hx : x ≤ 32767)
    (hw : w ≤ 32767) (hsum : 0 ≤ x ∨ -32768 ≤ w + x) :
    Draws (p := p) (ink color) (box x y w 1 ∩ p.screen) (drawFastHLineInternal x y w color) := by
  by_cases hy : 0 ≤ y ∧ y < p.HEIGHT
  · rcases hclip : clip x w p.WIDTH with ⟨x', w'⟩
    obtain ⟨hx', hfits, hpoints⟩ := clip_spec p.width_lt hx hw hsum hclip
    by_cases hpos : w' > 0
    · have hloop := hLoop_draws (p := p) color (x := x'.toNat) (w := w'.toNat) (by omega)
        (Panel.lt_pages hy.1 hy.2) ((1 : BitVec 8) <<< (y % 8).toNat)
      refine hloop.of_eq ?_ fun b => ?_
      · ext q
        have hq := hpoints q.1
        simp only [stripes, Set.mem_ofPred_eq, Set.mem_inter_iff, mem_box, Panel.screen]
        rw [getLsbD_bit (j := (y % 8).toNat) (by omega)]
        omega
      · rw [drawFastHLineInternal, if_pos hy, hclip]
        dsimp only
        rw [if_pos hpos]
        congr 1
        rw [Int.toNat_of_nonneg hx', Int.toNat_of_nonneg (by omega)]
        ring
    · refine Draws.none_of_empty ?_ fun b => ?_
      · rintro q ⟨hbox, hscreen⟩
        have hq := hpoints q.1
        rw [Panel.screen] at hscreen
        rw [mem_box] at hbox hscreen
        omega
      · rw [drawFastHLineInternal, if_pos hy, hclip]
        exact if_neg hpos
  · refine Draws.none_of_empty ?_ fun b => ?_
    · rintro q ⟨hbox, hscreen⟩
      rw [Panel.screen] at hscreen
      rw [mem_box] at hbox hscreen
      omega
    · rw [drawFastHLineInternal, if_neg hy]

/-! ## Vertical lines -/

theorem strip_solid (x k : ℕ) : strip x k 0xFF = box x (8 * k : ℕ) 1 8 := by
  have hall : ∀ l < 8, (0xFF : BitVec 8).getLsbD l = true := by decide
  ext q
  rw [mem_strip, mem_box]
  have hbit := hall (q.2 % 8).toNat (by omega)
  simp only [hbit, and_true]
  push_cast
  omega

theorem strip_postmask {x k h : ℕ} (hh : h < 8) :
    strip x k (postmask h) = box x (8 * k : ℕ) 1 h := by
  ext q
  rw [mem_strip, mem_box, getLsbD_postmask hh (by omega)]
  push_cast
  omega

/-- The mask of the first partial byte. -/
theorem strip_premask {x y h : ℕ} (hy : y % 8 ≠ 0) :
    strip x (y / 8) (if h < 8 - y % 8 then
        premask (8 - y % 8) &&& ((0xFF : BitVec 8) >>> (8 - y % 8 - h))
      else premask (8 - y % 8)) = box x y 1 (min h (8 - y % 8) : ℕ) := by
  ext q
  rw [mem_strip, mem_box]
  split
  · rename_i hshort
    rw [BitVec.getLsbD_and, Bool.and_eq_true, getLsbD_premask (by omega) (by omega)]
    by_cases hzero : h = 0
    · subst hzero
      have hrest : 8 - y % 8 - 0 < 8 := by omega
      rw [getLsbD_rest hrest (by omega)]
      push_cast
      omega
    · rw [getLsbD_rest (by omega) (by omega)]
      push_cast
      omega
  · rw [getLsbD_premask (by omega) (by omega)]
    push_cast
    omega

theorem box_append (x y : ℤ) (h h' : ℕ) :
    box x y 1 h ∪ box x (y + h) 1 h' = box x y 1 (h + h' : ℕ) := by
  ext q
  rw [Set.mem_union, mem_box, mem_box, mem_box]
  push_cast
  omega

theorem disjoint_box_append (x y : ℤ) (h h' : ℕ) :
    Disjoint (box x y 1 h) (box x (y + h) 1 h') := by
  rw [Set.disjoint_left]
  rintro q hq hq'
  rw [mem_box] at hq hq'
  omega

/-- The loop draws whole bytes, and leaves the rest of the height. -/
theorem vLoop_draws (hcolor : color ≤ 2) {x k h : ℕ} (hx : x < p.WIDTH)
    (hh : 8 * k + h ≤ 8 * p.pages) (b : Buffer p) :
    ∃ b', vLoop color h (k * p.WIDTH + x) b =
        some (h % 8, ((k + h / 8 : ℕ) : ℤ) * p.WIDTH + x, b') ∧
      b'.picture = (ink color).draw (box x (8 * k : ℕ) 1 (8 * (h / 8) : ℕ)) b.picture := by
  induction h using Nat.strongRecOn generalizing k b with
  | ind h ih =>
      by_cases hmore : 8 ≤ h
      · obtain ⟨h', rfl⟩ := Nat.exists_eq_add_of_le' hmore
        obtain ⟨b₁, hupdate, hpicture⟩ := draws_solid (p := p) hcolor hx (k := k) (by omega) b
        have hpointer : ((x : ℤ) + k * p.WIDTH) = k * p.WIDTH + x := Int.add_comm _ _
        rw [hpointer] at hupdate
        obtain ⟨b₂, hloop, hpicture'⟩ := ih h' (by omega) (k := k + 1) (by omega) b₁
        have hnext : ((k : ℤ) * p.WIDTH + x + p.WIDTH) = ((k + 1 : ℕ) : ℤ) * p.WIDTH + x := by
          push_cast
          ring
        refine ⟨b₂, ?_, ?_⟩
        · rw [vLoop]
          dsimp only at hupdate
          rw [hupdate]
          change vLoop color h' ((k : ℤ) * p.WIDTH + x + p.WIDTH) b₁ = _
          have hmod : (h' + 8) % 8 = h' % 8 := by omega
          have hdiv : k + (h' + 8) / 8 = k + 1 + h' / 8 := by omega
          rw [hnext, hloop, hmod, hdiv]
        · have hbelow : ((8 * (k + 1) : ℕ) : ℤ) = ((8 * k : ℕ) : ℤ) + (8 : ℕ) := by
            push_cast
            ring
          have hheight : 8 * ((h' + 8) / 8) = 8 + 8 * (h' / 8) := by omega
          rw [hpicture', hpicture, strip_solid, hbelow, hheight, ← box_append]
          exact Ink.draw_draw (disjoint_box_append x _ 8 _)
      · have hdiv : h / 8 = 0 := by omega
        have hmod : h % 8 = h := by omega
        refine ⟨b, ?_, ?_⟩
        · rw [hdiv, hmod, vLoop]
          · simp
          · rintro h' rfl
            omega
        · have hnone : box x (8 * k : ℕ) 1 (8 * (h / 8) : ℕ) = ∅ := by
            ext q
            rw [mem_box, hdiv]
            simp only [Set.mem_empty_iff_false, iff_false]
            push_cast
            omega
          rw [hnone, Ink.draw_empty]

/-- Behind the partial byte the whole bytes and the last partial byte are drawn. -/
theorem vRest_draws (hcolor : color ≤ 2) {x k h : ℕ} (hx : x < p.WIDTH)
    (hh : 8 * k + h ≤ 8 * p.pages) :
    Draws (p := p) (ink color) (box x (8 * k : ℕ) 1 h) (fun b => do
      let (h, pBuf, b) ← vLoop color h (k * p.WIDTH + x) b
      if h ≠ 0 then update b pBuf (blend color (postmask (h % 8))) else some b) := by
  intro b
  obtain ⟨b₁, hloop, hpicture⟩ := vLoop_draws hcolor hx hh b
  dsimp only
  rw [hloop]
  change ∃ b', (if h % 8 ≠ 0 then
      update b₁ (((k + h / 8 : ℕ) : ℤ) * p.WIDTH + x) (blend color (postmask (h % 8 % 8)))
    else some b₁) = some b' ∧ _
  by_cases hrest : h % 8 ≠ 0
  · rw [if_pos hrest, Int.add_comm, Nat.mod_mod]
    obtain ⟨b₂, hupdate, hpicture'⟩ :=
      draws_strip (p := p) color hx (k := k + h / 8) (by omega) (postmask (h % 8)) b₁
    refine ⟨b₂, hupdate, ?_⟩
    have hbelow : ((8 * (k + h / 8) : ℕ) : ℤ) = ((8 * k : ℕ) : ℤ) + (8 * (h / 8) : ℕ) := by
      push_cast
      ring
    have hheight : h = 8 * (h / 8) + h % 8 := (Nat.div_add_mod h 8).symm
    rw [hpicture', hpicture, strip_postmask (Nat.mod_lt h (by decide)), hbelow,
      Ink.draw_draw (disjoint_box_append x _ _ _), box_append, ← hheight]
  · have hheight : 8 * (h / 8) = h := by omega
    rw [if_neg hrest]
    rw [hheight] at hpicture
    exact ⟨b₁, rfl, hpicture⟩

theorem vBytes_draws (hcolor : color ≤ 2) {x y h : ℕ} (hx : x < p.WIDTH)
    (hh : y + h ≤ p.HEIGHT) :
    Draws (p := p) (ink color) (box x y 1 h) (vBytes x y h color) := by
  have hpages : p.HEIGHT ≤ 8 * p.pages := by
    unfold Panel.pages
    omega
  by_cases hmod : y % 8 ≠ 0
  · have hhead := draws_strip (p := p) color hx (k := y / 8) (by omega)
      (if h < 8 - y % 8 then premask (8 - y % 8) &&& ((0xFF : BitVec 8) >>> (8 - y % 8 - h))
        else premask (8 - y % 8))
    rw [strip_premask hmod] at hhead
    have hne : 8 - y % 8 ≠ 0 := by omega
    have hfirst : (if y % 8 ≠ 0 then 8 - y % 8 else 0) = 8 - y % 8 := if_pos hmod
    by_cases hmore : 8 - y % 8 ≤ h
    · have hrest := vRest_draws (p := p) hcolor hx (k := y / 8 + 1) (h := h - (8 - y % 8)) (by omega)
      have hmin : min h (8 - y % 8) = 8 - y % 8 := by omega
      have hbelow : ((8 * (y / 8 + 1) : ℕ) : ℤ) = (y : ℤ) + ((8 - y % 8 : ℕ) : ℤ) := by omega
      rw [hbelow] at hrest
      rw [hmin] at hhead
      refine (hhead.bind hrest (disjoint_box_append x y _ _)).of_eq ?_ fun b => ?_
      · rw [box_append, Nat.add_sub_cancel' hmore]
      · have hnext : (((y / 8 + 1 : ℕ) : ℤ) * p.WIDTH + x) =
            ((y / 8 : ℕ) : ℤ) * p.WIDTH + x + p.WIDTH := by
          push_cast
          ring
        unfold vBytes
        simp only [hfirst, if_pos hne, if_pos hmore, hnext, Int.add_comm (x : ℤ)]
    · have hmin : min h (8 - y % 8) = h := by omega
      rw [hmin] at hhead
      refine hhead.of_eq rfl fun b => ?_
      unfold vBytes
      simp only [hfirst, if_pos hne, if_neg hmore, Int.add_comm (x : ℤ)]
      exact bind_pure _
  · have hrest := vRest_draws (p := p) hcolor hx (k := y / 8) (h := h) (by omega)
    have hy : ((8 * (y / 8) : ℕ) : ℤ) = y := by omega
    rw [hy] at hrest
    have hwhole : (if y % 8 ≠ 0 then 8 - y % 8 else 0) = 0 := if_neg hmod
    refine hrest.of_eq rfl fun b => ?_
    unfold vBytes
    simp only [hwhole]
    rfl

/-- A vertical line draws those of its points that are on the screen. -/
theorem drawFastVLineInternal_draws (hcolor : color ≤ 2) {x y h : ℤ} (hy : y ≤ 32767)
    (hh : h ≤ 32767) (hsum : 0 ≤ y ∨ -32768 ≤ h + y) :
    Draws (p := p) (ink color) (box x y 1 h ∩ p.screen) (drawFastVLineInternal x y h color) := by
  have hheight := p.height_lt
  by_cases hx : 0 ≤ x ∧ x < p.WIDTH
  · rcases hclip : clip y h p.HEIGHT with ⟨y', h'⟩
    obtain ⟨hy', hfits, hpoints⟩ := clip_spec p.height_lt hy hh hsum hclip
    by_cases hpos : h' > 0
    · have hbytes := vBytes_draws (p := p) hcolor (x := x.toNat) (y := y'.toNat) (h := h'.toNat)
        (by omega) (by omega)
      refine hbytes.of_eq ?_ fun b => ?_
      · ext q
        have hq := hpoints q.2
        rw [Set.mem_inter_iff, Panel.screen, mem_box, mem_box, mem_box]
        omega
      · have hy8 : y'.toNat % 256 = y'.toNat := Nat.mod_eq_of_lt (by omega)
        have hh8 : h'.toNat % 256 = h'.toNat := Nat.mod_eq_of_lt (by omega)
        rw [drawFastVLineInternal, if_pos hx, hclip]
        dsimp only
        rw [if_pos hpos, hy8, hh8, Int.toNat_of_nonneg hx.1]
    · refine Draws.none_of_empty ?_ fun b => ?_
      · rintro q ⟨hbox, hscreen⟩
        have hq := hpoints q.2
        rw [Panel.screen] at hscreen
        rw [mem_box] at hbox hscreen
        omega
      · rw [drawFastVLineInternal, if_pos hx, hclip]
        exact if_neg hpos
  · refine Draws.none_of_empty ?_ fun b => ?_
    · rintro q ⟨hbox, hscreen⟩
      rw [Panel.screen] at hscreen
      rw [mem_box] at hbox hscreen
      omega
    · rw [drawFastVLineInternal, if_neg hx]

end Byter
