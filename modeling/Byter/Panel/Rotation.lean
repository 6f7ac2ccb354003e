import Byter.Panel.Strokes

/-!
# Drawing in rotated coordinates

A program draws in coordinates that follow the rotation of the display. A shape in these
coordinates lies on the screen where the coordinates of a pixel, turned back, are a point
of it. For all coordinates and lengths that an `int16_t` can hold, the fast lines draw
the same points as the loops of `Adafruit_GFX`, in every rotation, although some of the
turned coordinates wrap.
-/

namespace Byter

open Raster

variable {p : Panel} {i : Ink} {S T : Picture} {color : UInt16}

/-- The values of an `int16_t`. -/
def IsInt16 (x : ℤ) : Prop := -32768 ≤ x ∧ x ≤ 32767

/-- An `int16_t` differs from its value by a multiple of `2^16`. -/
theorem int16_spec (x : ℤ) : ∃ k : ℤ, int16 x = x + 65536 * k ∧ IsInt16 (int16 x) := by
  unfold int16 IsInt16
  rw [Int.bmod_def]
  split
  · exact ⟨-(x / 65536), by omega, by omega, by omega⟩
  · exact ⟨-(x / 65536) - 1, by omega, by omega, by omega⟩

namespace Panel

/-- The pixels in rotated coordinates. -/
def area (p : Panel) : Picture := box 0 0 p.width p.height

/-- The rotated coordinates of a pixel of the buffer. -/
def turned (p : Panel) (q : ℤ × ℤ) : ℤ × ℤ :=
  match p.rotation with
  | 0 => q
  | 1 => (q.2, p.WIDTH - q.1 - 1)
  | 2 => (p.WIDTH - q.1 - 1, p.HEIGHT - q.2 - 1)
  | 3 => (p.HEIGHT - q.2 - 1, q.1)

/-- Where a shape lies in the buffer. -/
def shape (p : Panel) (S : Picture) : Picture := {q | p.turned q ∈ S ∧ q ∈ p.screen}

theorem mem_shape {q : ℤ × ℤ} : q ∈ p.shape S ↔ p.turned q ∈ S ∧ q ∈ p.screen := Iff.rfl

/-- What the buffer shows, in rotated coordinates. -/
def view (p : Panel) (b : Buffer p) : Picture := {r | r ∈ p.area ∧ p.raw r.1 r.2 ∈ b.picture}

theorem rotation_cases (p : Panel) :
    p.rotation = 0 ∨ p.rotation = 1 ∨ p.rotation = 2 ∨ p.rotation = 3 := by
  have hall : ∀ r : Fin 4, r = 0 ∨ r = 1 ∨ r = 2 ∨ r = 3 := by decide
  exact hall p.rotation

theorem turned_raw (r : ℤ × ℤ) : p.turned (p.raw r.1 r.2) = r := by
  have hback : ∀ w x : ℤ, w - (w - x - 1) - 1 = x := fun w x => by omega
  obtain hr | hr | hr | hr := p.rotation_cases <;> simp [raw, turned, hr, hback]

theorem raw_turned (q : ℤ × ℤ) : p.raw (p.turned q).1 (p.turned q).2 = q := by
  have hback : ∀ w x : ℤ, w - (w - x - 1) - 1 = x := fun w x => by omega
  obtain hr | hr | hr | hr := p.rotation_cases <;> simp [raw, turned, hr, hback]

theorem raw_mem_screen_iff (r : ℤ × ℤ) : p.raw r.1 r.2 ∈ p.screen ↔ r ∈ p.area := by
  obtain hr | hr | hr | hr := p.rotation_cases <;>
    simp [raw, screen, area, width, height, mem_box, hr] <;> omega

theorem raw_mem_shape_iff {r : ℤ × ℤ} (h : r ∈ p.area) : p.raw r.1 r.2 ∈ p.shape S ↔ r ∈ S := by
  rw [mem_shape, turned_raw, raw_mem_screen_iff, and_iff_left h]

theorem shape_union : p.shape (S ∪ T) = p.shape S ∪ p.shape T := by
  ext q
  rw [Set.mem_union, mem_shape, mem_shape, mem_shape, Set.mem_union, or_and_right]

theorem disjoint_shape (h : Disjoint S T) : Disjoint (p.shape S) (p.shape T) :=
  Set.disjoint_left.2 fun _ hS hT => Set.disjoint_left.1 h hS.1 hT.1

end Panel

/-- An operation that draws a shape draws it in what the buffer shows. -/
theorem Draws.view {op : Buffer p → Option (Buffer p)} (h : Draws i (p.shape S) op)
    {b b' : Buffer p} (hop : op b = some b') : p.view b' = p.area ∩ i.draw S (p.view b) := by
  obtain ⟨c, hc, hpicture⟩ := h b
  obtain rfl : b' = c := by simpa [hop] using hc
  ext r
  by_cases hr : r ∈ p.area
  · have hb : ∀ c : Buffer p, r ∈ p.view c ↔ p.raw r.1 r.2 ∈ c.picture :=
      fun c => and_iff_right hr
    rw [hb, hpicture, Set.mem_inter_iff, and_iff_right hr]
    exact Ink.mem_draw_congr (Panel.raw_mem_shape_iff hr) (hb b).symm
  · exact iff_of_false (fun h => hr h.1) fun h => hr h.1

/-! ## Pixels -/

theorem Panel.point_of_mem_screen {q : ℤ × ℤ} (h : q ∈ p.screen) :
    q.1.toNat < p.WIDTH ∧ (q.2 / 8).toNat < p.pages ∧
      q.1 + q.2 / 8 * p.WIDTH = q.1.toNat + (q.2 / 8).toNat * p.WIDTH := by
  rw [Panel.screen, mem_box] at h
  refine ⟨by omega, Panel.lt_pages (by omega) (by omega), ?_⟩
  rw [Int.toNat_of_nonneg (by omega), Int.toNat_of_nonneg (by omega)]

theorem mem_area_iff {x y : ℤ} :
    (x, y) ∈ p.area ↔ 0 ≤ x ∧ x < p.width ∧ 0 ≤ y ∧ y < p.height := by
  rw [Panel.area, mem_box, Int.zero_add, Int.zero_add]

theorem drawPixel_draws (color : UInt16) (x y : ℤ) :
    Draws (p := p) (ink color) (p.shape {(x, y)}) (drawPixel x y color) := by
  by_cases harea : 0 ≤ x ∧ x < p.width ∧ 0 ≤ y ∧ y < p.height
  · have hscreen : p.raw x y ∈ p.screen :=
      (Panel.raw_mem_screen_iff (x, y)).2 (mem_area_iff.2 harea)
    obtain ⟨hx, hk, hindex⟩ := Panel.point_of_mem_screen hscreen
    refine (draws_strip (p := p) color hx hk ((1 : BitVec 8) <<< ((p.raw x y).2 % 8).toNat)).of_eq
      ?_ fun b => ?_
    · have hpoint : p.shape {(x, y)} = {p.raw x y} := by
        ext q
        rw [Panel.mem_shape, Set.mem_singleton_iff, Set.mem_singleton_iff]
        constructor
        · rintro ⟨hq, -⟩
          rw [← Panel.raw_turned (p := p) q, hq]
        · rintro rfl
          exact ⟨Panel.turned_raw (x, y), hscreen⟩
      rw [hpoint]
      rw [Panel.screen, mem_box] at hscreen
      ext q
      rw [mem_strip, getLsbD_bit (by omega), Set.mem_singleton_iff, Prod.ext_iff]
      omega
    · rw [drawPixel, if_pos harea]
      dsimp only
      rw [hindex]
  · refine Draws.none_of_empty ?_ fun b => ?_
    · rintro q ⟨hq, hscreen⟩
      rw [Set.mem_singleton_iff] at hq
      rw [← Panel.raw_turned (p := p) q, hq] at hscreen
      exact harea (mem_area_iff.1 ((Panel.raw_mem_screen_iff (x, y)).1 hscreen))
    · rw [drawPixel, if_neg harea]

/-- `getPixel` reads what is shown. -/
theorem getPixel_eq (x y : ℤ) (b : Buffer p) :
    ∃ lit, getPixel x y b = some lit ∧ (lit = true ↔ (x, y) ∈ p.view b) := by
  by_cases harea : 0 ≤ x ∧ x < p.width ∧ 0 ≤ y ∧ y < p.height
  · have hscreen : p.raw x y ∈ p.screen :=
      (Panel.raw_mem_screen_iff (x, y)).2 (mem_area_iff.2 harea)
    obtain ⟨hx, hk, hindex⟩ := Panel.point_of_mem_screen hscreen
    have hread : readByte b ((p.raw x y).1 + (p.raw x y).2 / 8 * p.WIDTH) =
        some (b.byte _ _ hx hk) := by
      have hlt := Pages.index_lt hx hk
      rw [hindex, readByte, dif_pos ⟨by omega, by exact_mod_cast hlt⟩, Pages.byte]
      congr 1
    refine ⟨_, by rw [getPixel, if_pos harea]; dsimp only; rw [hread]; rfl, ?_⟩
    rw [Panel.screen, mem_box] at hscreen
    have hpoint : p.raw x y = ((((p.raw x y).1.toNat : ℕ) : ℤ),
        ((8 * ((p.raw x y).2 / 8).toNat + ((p.raw x y).2 % 8).toNat : ℕ) : ℤ)) := by
      rw [Prod.ext_iff]
      dsimp only
      omega
    have hmem := Pages.mem_picture_iff b hx hk (j := ((p.raw x y).2 % 8).toNat) (by omega)
    rw [← hpoint] at hmem
    have hview : (x, y) ∈ p.view b ↔ p.raw x y ∈ b.picture :=
      and_iff_right (mem_area_iff.2 harea)
    rw [hview, hmem]
    dsimp only
    rw [and_bit_ne_zero (by omega)]
  · refine ⟨false, by rw [getPixel, if_neg harea], ?_⟩
    rw [iff_false_left Bool.false_ne_true]
    exact fun h => harea (mem_area_iff.1 h.1)

/-! ## Lines -/

/-- A horizontal line, in every rotation. The turned coordinates may wrap; what is drawn on the
screen does not depend on it. -/
theorem drawFastHLine_draws (hcolor : color ≤ 2) {x y w : ℤ} (hx : IsInt16 x)
    (hy : IsInt16 y) (hw : IsInt16 w) (hpos : 0 ≤ w) :
    Draws (p := p) (ink color) (p.shape (box x y w 1)) (drawFastHLine x y w color) := by
  have hwidth := p.width_lt
  have hheight := p.height_lt
  unfold IsInt16 at hx hy hw
  obtain hr | hr | hr | hr := p.rotation_cases
  · refine (drawFastHLineInternal_draws (p := p) color (y := y) hx.2 hw.2 (by omega)).of_eq ?_
      fun b => by simp only [drawFastHLine, hr]
    ext q
    simp only [Panel.mem_shape, Set.mem_inter_iff, Panel.turned, hr]
  · obtain ⟨k, hk, hk16⟩ := int16_spec (p.WIDTH - y - 1)
    refine (drawFastVLineInternal_draws (p := p) hcolor (x := int16 (p.WIDTH - y - 1)) hx.2 hw.2
      (by omega)).of_eq ?_ fun b => by simp only [drawFastHLine, hr]
    unfold IsInt16 at hk16
    ext q
    simp only [Panel.mem_shape, Set.mem_inter_iff, Panel.turned, hr, mem_box, Panel.screen]
    omega
  · obtain ⟨k, hk, hk16⟩ := int16_spec (p.WIDTH - x - 1)
    obtain ⟨l, hl, hl16⟩ := int16_spec (p.HEIGHT - y - 1)
    obtain ⟨m, hm, hm16⟩ := int16_spec (int16 (p.WIDTH - x - 1) - (w - 1))
    unfold IsInt16 at hk16 hl16 hm16
    refine (drawFastHLineInternal_draws (p := p) color (y := int16 (p.HEIGHT - y - 1)) hm16.2 hw.2
      (by omega)).of_eq ?_ fun b => by simp only [drawFastHLine, hr]
    ext q
    simp only [Panel.mem_shape, Set.mem_inter_iff, Panel.turned, hr, mem_box, Panel.screen]
    omega
  · obtain ⟨k, hk, hk16⟩ := int16_spec (p.HEIGHT - x - 1)
    obtain ⟨m, hm, hm16⟩ := int16_spec (int16 (p.HEIGHT - x - 1) - (w - 1))
    unfold IsInt16 at hk16 hm16
    refine (drawFastVLineInternal_draws (p := p) hcolor (x := y) hm16.2 hw.2 (by omega)).of_eq ?_
      fun b => by simp only [drawFastHLine, hr]
    ext q
    simp only [Panel.mem_shape, Set.mem_inter_iff, Panel.turned, hr, mem_box, Panel.screen]
    omega

/-- A vertical line, in every rotation. -/
theorem drawFastVLine_draws (hcolor : color ≤ 2) {x y h : ℤ} (hx : IsInt16 x)
    (hy : IsInt16 y) (hh : IsInt16 h) (hpos : 0 ≤ h) :
    Draws (p := p) (ink color) (p.shape (box x y 1 h)) (drawFastVLine x y h color) := by
  have hwidth := p.width_lt
  have hheight := p.height_lt
  unfold IsInt16 at hx hy hh
  obtain hr | hr | hr | hr := p.rotation_cases
  · refine (drawFastVLineInternal_draws (p := p) hcolor (x := x) hy.2 hh.2 (by omega)).of_eq ?_
      fun b => by simp only [drawFastVLine, hr]
    ext q
    simp only [Panel.mem_shape, Set.mem_inter_iff, Panel.turned, hr]
  · obtain ⟨k, hk, hk16⟩ := int16_spec (p.WIDTH - y - 1)
    obtain ⟨m, hm, hm16⟩ := int16_spec (int16 (p.WIDTH - y - 1) - (h - 1))
    unfold IsInt16 at hk16 hm16
    refine (drawFastHLineInternal_draws (p := p) color (y := x) hm16.2 hh.2 (by omega)).of_eq ?_
      fun b => by simp only [drawFastVLine, hr]
    ext q
    simp only [Panel.mem_shape, Set.mem_inter_iff, Panel.turned, hr, mem_box, Panel.screen]
    omega
  · obtain ⟨k, hk, hk16⟩ := int16_spec (p.WIDTH - x - 1)
    obtain ⟨l, hl, hl16⟩ := int16_spec (p.HEIGHT - y - 1)
    obtain ⟨m, hm, hm16⟩ := int16_spec (int16 (p.HEIGHT - y - 1) - (h - 1))
    unfold IsInt16 at hk16 hl16 hm16
    refine (drawFastVLineInternal_draws (p := p) hcolor (x := int16 (p.WIDTH - x - 1)) hm16.2 hh.2
      (by omega)).of_eq ?_ fun b => by simp only [drawFastVLine, hr]
    ext q
    simp only [Panel.mem_shape, Set.mem_inter_iff, Panel.turned, hr, mem_box, Panel.screen]
    omega
  · obtain ⟨k, hk, hk16⟩ := int16_spec (p.HEIGHT - x - 1)
    unfold IsInt16 at hk16
    refine (drawFastHLineInternal_draws (p := p) color (y := int16 (p.HEIGHT - x - 1)) hy.2 hh.2
      (by omega)).of_eq ?_ fun b => by simp only [drawFastVLine, hr]
    ext q
    simp only [Panel.mem_shape, Set.mem_inter_iff, Panel.turned, hr, mem_box, Panel.screen]
    omega

/-! ## The lines of `Adafruit_GFX` -/

/-- One round of the loop, for a line along an axis: the error does not change. -/
theorem writeLineLoop_axis {steep : Bool} {x0 y0 x1 dx ystep err : ℤ} (herr : 0 ≤ err)
    (herr' : err ≤ 32767) (hx : x0 ≤ x1) (fuel : ℕ) (b : Buffer p) :
    writeLineLoop steep dx 0 ystep x1 color (fuel + 1) x0 y0 err b =
      (if steep then drawPixel y0 x0 color b else drawPixel x0 y0 color b) >>=
        writeLineLoop steep dx 0 ystep x1 color fuel (int16 (x0 + 1)) y0 err := by
  have hsame : int16 (err - 0) = err := by rw [Int.sub_zero, int16_of_small (by omega) (by omega)]
  have hnonneg : ¬ err < 0 := by omega
  rw [writeLineLoop, if_pos hx]
  simp only [hsame, if_neg hnonneg]
  cases steep <;> rfl

/-- A line along an axis goes through its pixels one by one. -/
theorem writeLineLoop_draws (color : UInt16) (steep : Bool) (n fuel : ℕ) (x0 y0 x1 dx ystep err : ℤ)
    (hn : x1 = x0 + n) (hx0 : -32768 ≤ x0) (hx1 : x1 < 32767) (herr : 0 ≤ err)
    (herr' : err ≤ 32767) (hfuel : n + 2 ≤ fuel) :
    Draws (p := p) (ink color) (p.shape (if steep then box y0 x0 1 (n + 1) else box x0 y0 (n + 1) 1))
      (writeLineLoop steep dx 0 ystep x1 color fuel x0 y0 err) := by
  have hpixel : Draws (p := p) (ink color) (p.shape {if steep then (y0, x0) else (x0, y0)})
      (fun b => if steep then drawPixel y0 x0 color b else drawPixel x0 y0 color b) := by
    cases steep with
    | true => exact drawPixel_draws color y0 x0
    | false => exact drawPixel_draws color x0 y0
  have hstep : int16 (x0 + 1) = x0 + 1 := int16_of_small (by omega) (by omega)
  induction n generalizing x0 fuel with
  | zero =>
      obtain ⟨fuel, rfl⟩ := Nat.exists_eq_add_of_le' hfuel
      refine hpixel.of_eq ?_ fun b => ?_
      · congr 1
        cases steep <;> ext q <;>
          simp only [Set.mem_singleton_iff, mem_box, Prod.ext_iff, if_true, Bool.false_eq_true,
            if_false] <;>
          omega
      · have hend : writeLineLoop (p := p) steep dx 0 ystep x1 color (fuel + 1) (x0 + 1) y0 err =
            pure := by
          funext c
          rw [writeLineLoop, if_neg (by omega)]
          rfl
        rw [writeLineLoop_axis herr herr' (by omega), hstep, hend, bind_pure]
  | succ n ih =>
      obtain ⟨fuel, rfl⟩ := Nat.exists_eq_add_of_le' hfuel
      have hrest := ih (fuel + n + 2) (x0 + 1) (by push_cast at hn; omega) (by omega)
        (by omega) (by
          cases steep with
          | true => exact drawPixel_draws color y0 (x0 + 1)
          | false => exact drawPixel_draws color (x0 + 1) y0)
        (int16_of_small (by push_cast at hn; omega) (by push_cast at hn; omega))
      have hdisjoint : Disjoint ({if steep then (y0, x0) else (x0, y0)} : Picture)
          (if steep then box y0 (x0 + 1) 1 (n + 1) else box (x0 + 1) y0 (n + 1) 1) := by
        rw [Set.disjoint_singleton_left]
        cases steep <;> simp [mem_box]
      refine (hpixel.bind hrest (Panel.disjoint_shape hdisjoint)).of_eq ?_ fun b => ?_
      · rw [← Panel.shape_union]
        congr 1
        cases steep <;> ext q <;>
          simp only [Set.mem_union, Set.mem_singleton_iff, mem_box, Prod.ext_iff, if_true,
            Bool.false_eq_true, if_false] <;>
          push_cast <;> omega
      · rw [← hstep]
        exact writeLineLoop_axis herr herr' (by omega) _ b

theorem writeLine_vertical {x y y1 : ℤ} (h : y < y1) (b : Buffer p) :
    writeLine x y x y1 color b = writeLineLoop true (int16 (y1 - y)) 0 (-1) y1 color 65537 y x
      ((int16 (y1 - y)).tdiv 2) b := by
  have hsteep : |y1 - y| > |x - x| := by
    rw [Int.sub_self, abs_zero, gt_iff_lt, abs_pos]
    omega
  have hzero : int16 |x - x| = 0 := by
    rw [Int.sub_self, abs_zero]
    rfl
  have horder : ¬ y > y1 := by omega
  unfold writeLine
  simp only [if_pos hsteep, if_neg horder, hzero, if_neg (lt_irrefl x), decide_eq_true hsteep]

theorem writeLine_flat {x x1 y : ℤ} (h : x ≤ x1) (b : Buffer p) :
    writeLine x y x1 y color b = writeLineLoop false (int16 (x1 - x)) 0 (-1) x1 color 65537 x y
      ((int16 (x1 - x)).tdiv 2) b := by
  have hsteep : ¬ |y - y| > |x1 - x| := by
    rw [Int.sub_self, abs_zero, gt_iff_lt, not_lt]
    exact abs_nonneg _
  have hzero : int16 |y - y| = 0 := by
    rw [Int.sub_self, abs_zero]
    rfl
  have horder : ¬ x > x1 := by omega
  unfold writeLine
  simp only [if_neg hsteep, if_neg horder, hzero, if_neg (lt_irrefl y), decide_eq_false hsteep]

/-- The pixel loop for a horizontal line that ends before the greatest `int16_t`. -/
theorem gfxDrawFastHLine_draws (color : UInt16) {x y w : ℤ} (hx : IsInt16 x)
    (hw : IsInt16 w) (hpos : 1 ≤ w) (hend : x + w ≤ 32767) :
    Draws (p := p) (ink color) (p.shape (box x y w 1)) (gfxDrawFastHLine x y w color) := by
  unfold IsInt16 at hx hw
  have hlast : int16 (x + w - 1) = x + w - 1 := int16_of_small (by omega) (by omega)
  have hdx : int16 (x + w - 1 - x) = w - 1 := by
    rw [int16_of_small (by omega) (by omega)]
    omega
  have herr : (w - 1).tdiv 2 = (w - 1) / 2 := Int.tdiv_eq_ediv_of_nonneg (by omega)
  refine (writeLineLoop_draws (p := p) color false (w - 1).toNat 65537 x y (x + w - 1) (w - 1) (-1)
    ((w - 1) / 2) (by omega) (by omega) (by omega) (by omega) (by omega) (by omega)).of_eq ?_ fun b => ?_
  · have hlength : (((w - 1).toNat : ℕ) : ℤ) + 1 = w := by omega
    rw [hlength]
    rfl
  · rw [gfxDrawFastHLine, hlast, writeLine_flat (by omega), hdx, herr]

/-- The pixel loop for a vertical line that ends above the greatest `int16_t`. -/
theorem gfxDrawFastVLine_draws (color : UInt16) {x y h : ℤ} (hx : IsInt16 x)
    (hy : IsInt16 y) (hh : IsInt16 h) (hpos : 1 ≤ h) (hend : y + h ≤ 32767) (hx' : x < 32767) :
    Draws (p := p) (ink color) (p.shape (box x y 1 h)) (gfxDrawFastVLine x y h color) := by
  unfold IsInt16 at hx hy hh
  have hlast : int16 (y + h - 1) = y + h - 1 := int16_of_small (by omega) (by omega)
  by_cases hone : h = 1
  · subst hone
    have hline : Draws (p := p) (ink color) (p.shape (box x y 1 1)) (gfxDrawFastHLine x y 1 color) :=
      gfxDrawFastHLine_draws color hx (by unfold IsInt16; omega) (by omega) (by omega)
    refine hline.of_eq rfl fun b => ?_
    rw [gfxDrawFastVLine, gfxDrawFastHLine, Int.add_sub_cancel, Int.add_sub_cancel,
      int16_of_small (by omega) (by omega), int16_of_small (by omega) (by omega)]
  · have hdx : int16 (y + h - 1 - y) = h - 1 := by
      rw [int16_of_small (by omega) (by omega)]
      omega
    have herr : (h - 1).tdiv 2 = (h - 1) / 2 := Int.tdiv_eq_ediv_of_nonneg (by omega)
    refine (writeLineLoop_draws (p := p) color true (h - 1).toNat 65537 y x (y + h - 1) (h - 1) (-1)
      ((h - 1) / 2) (by omega) (by omega) (by omega) (by omega) (by omega) (by omega)).of_eq ?_ fun b => ?_
    · have hlength : (((h - 1).toNat : ℕ) : ℤ) + 1 = h := by omega
      rw [hlength]
      rfl
    · rw [gfxDrawFastVLine, hlast, writeLine_vertical (by omega), hdx, herr]

/-! ## The fast lines against the pixel loops -/

/-- The fast lines leave the same bytes as the lines of `Adafruit_GFX`, for every line of at least
one pixel that stays below 32767, where the coordinate of a pixel loop wraps around. Of a line of
length 0 the pixel loop draws two pixels and the fast line none. -/
def FastLinesAgree (p : Panel) (color : UInt16) : Prop :=
  ∀ x y n : ℤ, IsInt16 x → IsInt16 y → IsInt16 n → 1 ≤ n → ∀ b : Buffer p,
    (x + n ≤ 32767 → drawFastHLine x y n color b = gfxDrawFastHLine x y n color b) ∧
      (x < 32767 → y + n ≤ 32767 →
        drawFastVLine x y n color b = gfxDrawFastVLine x y n color b)

theorem fastLinesAgree_of_le (hcolor : color ≤ 2) : FastLinesAgree p color := by
  intro x y n hx hy hn hpos b
  constructor
  · intro hxn
    have hrow := (drawFastHLine_draws (p := p) hcolor hx hy hn (by omega)).unique
      (gfxDrawFastHLine_draws color hx hn hpos hxn)
    exact congrFun hrow b
  · intro hx' hyn
    have hcolumn := (drawFastVLine_draws (p := p) hcolor hx hy hn (by omega)).unique
      (gfxDrawFastVLine_draws color hx hy hn hpos hyn hx')
    exact congrFun hcolumn b

theorem Draws.eq_of_transparent {op : Buffer p → Option (Buffer p)}
    (h : Draws .transparent S op) (b : Buffer p) : op b = some b := by
  obtain ⟨b', hop, hpicture⟩ := h b
  rw [hop, Pages.picture_injective hpicture]

theorem ink_of_lt (h : 2 < color) : ink color = .transparent := by
  have hne : ∀ c : UInt16, c ≤ 2 → color ≠ c := by
    rintro c hc rfl
    exact absurd hc (UInt16.not_le.2 h)
  rw [ink, if_neg (hne _ (by decide)), if_neg (hne _ (by decide)), if_neg (hne _ (by decide))]

/-- A whole page of a column is written in any colour. -/
theorem drawFastVLineInternal_page (h : 2 < color) {x : ℤ} (hx : 0 ≤ x) (hx' : x < p.WIDTH)
    (hheight : 8 ≤ p.HEIGHT) :
    drawFastVLineInternal x 0 8 color (clearDisplay p) ≠ some (clearDisplay p) := by
  have hlt := p.height_lt
  have hpages : 0 < p.pages := by
    unfold Panel.pages
    omega
  have hne : ∀ c : UInt16, c ≤ 2 → color ≠ c := by
    rintro c hc rfl
    exact absurd hc (UInt16.not_le.2 h)
  have hclip : clip 0 8 p.HEIGHT = (0, 8) := by
    have hstart : ¬ (0 : ℤ) < 0 := by decide
    unfold clip
    dsimp only
    rw [if_neg hstart, if_neg hstart, if_neg (by omega)]
  have hpage : drawFastVLineInternal x 0 8 color (clearDisplay p) =
      update (clearDisplay p) ((x.toNat : ℤ) + (0 : ℕ) * p.WIDTH) (solid color) := by
    rw [drawFastVLineInternal, if_pos ⟨hx, hx'⟩, hclip, Int.toNat_of_nonneg hx]
    have hloop : ∀ (pBuf : ℤ) (b : Buffer p), vLoop color 8 pBuf b =
        (update b pBuf (solid color)).bind fun b => some (0, pBuf + p.WIDTH, b) := fun _ _ => rfl
    simp only [vBytes, Nat.cast_zero, zero_mul, add_zero]
    cases hupdate : update (clearDisplay p) x (solid color) <;> simp [hloop, hupdate]
  rw [hpage, update_eq _ (by omega) hpages]
  intro heq
  have hbyte := congrArg
    (fun b : Buffer p => b.byte x.toNat 0 (by omega) hpages) (Option.some.inj heq)
  rw [Pages.byte_modify, if_pos ⟨rfl, rfl⟩] at hbyte
  have hzero : (clearDisplay p).byte x.toNat 0 (by omega) hpages = 0 :=
    Vector.getElem_replicate _
  rw [hzero, solid, if_neg (hne _ (by decide)), if_pos (hne _ (by decide))] at hbyte
  exact absurd hbyte (by decide)

/-- The fast lines agree with the pixel loops, in every rotation and for every line, exactly
in the three colours: in another colour `drawPixel` does nothing, but whole bytes are
written. -/
theorem fastLines_agree_iff (hwidth : 0 < p.WIDTH) (hheight : 8 ≤ p.HEIGHT) :
    FastLinesAgree p color ↔ color ≤ 2 := by
  refine ⟨fun hagree => ?_, fastLinesAgree_of_le⟩
  by_contra hcolor
  rw [UInt16.not_le] at hcolor
  have hw := p.width_lt
  have hh := p.height_lt
  have hink := ink_of_lt hcolor
  have hrow : ∀ x, IsInt16 x → x + 8 ≤ 32767 →
      drawFastHLine x 0 8 color (clearDisplay p) = some (clearDisplay p) := by
    intro x hx hx'
    have hplain := gfxDrawFastHLine_draws (p := p) (y := 0) color hx (w := 8)
      (by unfold IsInt16; omega) (by omega) hx'
    rw [hink] at hplain
    rw [(hagree x 0 8 hx (by unfold IsInt16; omega) (by unfold IsInt16; omega) (by omega) _).1 hx']
    exact hplain.eq_of_transparent _
  have hcolumn : ∀ y, IsInt16 y → y + 8 ≤ 32767 →
      drawFastVLine 0 y 8 color (clearDisplay p) = some (clearDisplay p) := by
    intro y hy hy'
    have hplain := gfxDrawFastVLine_draws (p := p) (x := 0) (h := 8) color
      (by unfold IsInt16; omega) hy (by unfold IsInt16; omega) (by omega) hy' (by omega)
    rw [hink] at hplain
    rw [(hagree 0 y 8 (by unfold IsInt16; omega) hy (by unfold IsInt16; omega) (by omega) _).2
      (by omega) hy']
    exact hplain.eq_of_transparent _
  have hpage := fun x hx hx' => drawFastVLineInternal_page (p := p) hcolor (x := x) hx hx' hheight
  -- the line that lies on the first page of a column, in each rotation
  obtain hr | hr | hr | hr := p.rotation_cases
  · have hline := hcolumn 0 (by unfold IsInt16; omega) (by omega)
    simp only [drawFastVLine, hr] at hline
    exact hpage 0 (by omega) (by omega) hline
  · have hline := hrow 0 (by unfold IsInt16; omega) (by omega)
    simp only [drawFastHLine, hr] at hline
    rw [int16_of_small (by omega) (by omega)] at hline
    exact hpage _ (by omega) (by omega) hline
  · have hline := hcolumn (p.HEIGHT - 8) (by unfold IsInt16; omega) (by omega)
    have htop : int16 (int16 (p.HEIGHT - (p.HEIGHT - 8) - 1) - (8 - 1)) = 0 := by
      rw [int16_of_small (x := p.HEIGHT - (p.HEIGHT - 8) - 1) (by omega) (by omega),
        int16_of_small (by omega) (by omega)]
      omega
    simp only [drawFastVLine, hr, htop] at hline
    rw [int16_of_small (by omega) (by omega)] at hline
    exact hpage _ (by omega) (by omega) hline
  · have hline := hrow (p.HEIGHT - 8) (by unfold IsInt16; omega) (by omega)
    have htop : int16 (int16 (p.HEIGHT - (p.HEIGHT - 8) - 1) - (8 - 1)) = 0 := by
      rw [int16_of_small (x := p.HEIGHT - (p.HEIGHT - 8) - 1) (by omega) (by omega),
        int16_of_small (by omega) (by omega)]
      omega
    simp only [drawFastHLine, hr, htop] at hline
    exact hpage 0 (by omega) (by omega) hline

theorem fastLines_agree_iff_oled : FastLinesAgree oled SSD1306_WHITE ↔ SSD1306_WHITE ≤ 2 :=
  fastLines_agree_iff (by decide) (by decide)

end Byter
