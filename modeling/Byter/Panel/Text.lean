import Byter.Panel.Font
import Byter.Panel.Rotation

/-!
# Characters on the buffer

`drawChar` goes through the dots of a character. A dot is a pixel at text size one, and a
filled square otherwise. Whatever the place and the size of a character, nothing outside of
the buffer is accessed, and a transparent character draws its dots that are on the
screen and nothing else; the clipping at the start only leaves out characters of which
nothing would be seen.
-/

namespace Byter

open Raster

variable {p : Panel} {i : Ink} {S T : Picture} {color : UInt16}

/-! ## The functions -/

/-- The loop of `fillRect`, with `i < x + w` as `stop`. When no `int16_t` reaches the end it
goes on forever. -/
def fillRectLoop (stop y h : ℤ) (color : UInt16) : ℕ → ℤ → Buffer p → Option (Buffer p)
  | 0, _, _ => none
  | fuel + 1, i, buffer =>
      if i < stop then do
        let buffer ← drawFastVLine i y h color buffer
        fillRectLoop stop y h color fuel (int16 (i + 1)) buffer
      else
        some buffer

def fillRect (x y w h : ℤ) (color : UInt16) (buffer : Buffer p) : Option (Buffer p) :=
  fillRectLoop (x + w) y h color 65537 x buffer

/-- The dot `(i, j)` of a character at `(x, y)`. -/
def drawDot (x y : ℤ) (i j : ℕ) (color : UInt16) (sizeX sizeY : UInt8) (buffer : Buffer p) :
    Option (Buffer p) :=
  if sizeX = 1 ∧ sizeY = 1 then
    drawPixel (int16 (x + i)) (int16 (y + j)) color buffer
  else
    fillRect (int16 (x + i * sizeX.toNat)) (int16 (y + j * sizeY.toNat)) sizeX.toNat
      sizeY.toNat color buffer

/-- The place of a character in the font: without `_cp437` one is left out. -/
def fontIndex (c : UInt8) : UInt8 := if c ≥ 176 then c + 1 else c

/-- `drawChar` with the classic font. -/
def drawChar (x y : ℤ) (c : UInt8) (color bg : UInt16) (sizeX sizeY : UInt8)
    (buffer : Buffer p) : Option (Buffer p) :=
  if x ≥ p.width ∨ y ≥ p.height ∨ x + 6 * sizeX.toNat - 1 < 0 ∨ y + 8 * sizeY.toNat - 1 < 0 then
    some buffer
  else do
    let buffer ← (List.range 5).foldlM (fun buffer i => do
      let line ← font[(fontIndex c).toNat * 5 + i]?
      (List.range 8).foldlM (fun buffer j =>
        if (line >>> j).getLsbD 0 then drawDot x y i j color sizeX sizeY buffer
        else if bg ≠ color then drawDot x y i j bg sizeX sizeY buffer
        else some buffer) buffer) buffer
    if bg ≠ color then
      if sizeX = 1 ∧ sizeY = 1 then
        drawFastVLine (int16 (x + 5)) y 8 bg buffer
      else
        fillRect (int16 (x + 5 * sizeX.toNat)) y sizeX.toNat (8 * sizeY.toNat) bg buffer
    else
      some buffer

/-! ## Rectangles -/

theorem fillRectLoop_draws (hcolor : color ≤ 2) (n fuel : ℕ) (x stop : ℤ) {y h : ℤ}
    (hn : stop = x + n) (hx : -32768 ≤ x) (hend : stop ≤ 32767) (hy : IsInt16 y) (hh : IsInt16 h)
    (hpos : 0 ≤ h) (hfuel : n < fuel) :
    Draws (p := p) (ink color) (p.shape (box x y n h)) (fillRectLoop stop y h color fuel x) := by
  induction n generalizing x fuel with
  | zero =>
      obtain ⟨fuel, rfl⟩ := Nat.exists_eq_add_of_le' hfuel
      refine Draws.none_of_empty ?_ fun b => ?_
      · rintro q ⟨hq, -⟩
        rw [mem_box] at hq
        omega
      · rw [fillRectLoop, if_neg (by omega)]
  | succ n ih =>
      obtain ⟨fuel, rfl⟩ := Nat.exists_eq_add_of_le' hfuel
      have hnext : int16 (x + 1) = x + 1 :=
        int16_of_small (by omega) (by push_cast at hn; omega)
      have hline := drawFastVLine_draws (p := p) hcolor (x := x) (y := y) (h := h)
        (by unfold IsInt16; push_cast at hn; omega) hy hh hpos
      have hrest := ih (fuel + n + 1) (x + 1) (by push_cast at hn; omega) (by omega)
        (by omega)
      have hdisjoint : Disjoint (box x y 1 h) (box (x + 1) y n h) := by
        rw [Set.disjoint_left]
        rintro q hq hq'
        rw [mem_box] at hq hq'
        omega
      refine (hline.bind hrest (Panel.disjoint_shape hdisjoint)).of_eq ?_ fun b => ?_
      · rw [← Panel.shape_union]
        congr 1
        ext q
        rw [Set.mem_union, mem_box, mem_box, mem_box]
        push_cast
        omega
      · rw [← hnext]
        exact if_pos (by push_cast at hn; omega)

theorem fillRect_draws (hcolor : color ≤ 2) {x y w h : ℤ} (hx : IsInt16 x) (hy : IsInt16 y)
    (hw : 0 ≤ w) (hend : x + w ≤ 32767) (hh : IsInt16 h) (hpos : 0 ≤ h) :
    Draws (p := p) (ink color) (p.shape (box x y w h)) (fillRect x y w h color) := by
  unfold IsInt16 at hx
  have hloop := fillRectLoop_draws (p := p) hcolor w.toNat 65537 x (x + w)
    (by omega) hx.1 hend hy hh hpos (by omega)
  rw [Int.toNat_of_nonneg hw] at hloop
  exact hloop

/-! ## Characters -/

/-- Whether the dot `(i, j)` of a character is set. -/
def dot (c : UInt8) (i j : ℕ) : Bool := (font.getD ((fontIndex c).toNat * 5 + i) 0).getLsbD j

/-- The dot `(i, j)` of a character at `(x, y)`. -/
def dotBox (x y : ℤ) (sx sy i j : ℕ) : Picture := box (x + i * sx) (y + j * sy) sx sy

/-- The dots of a character. -/
def charShape (x y : ℤ) (c : UInt8) (sx sy : ℕ) : Picture :=
  {q | ∃ i < 5, ∃ j < 8, dot c i j = true ∧ q ∈ dotBox x y sx sy i j}

theorem lt_of_mem_dots {x y : ℤ} {sx sy i j i' j' : ℕ} {q : ℤ × ℤ}
    (h : q ∈ dotBox x y sx sy i j) (h' : q ∈ dotBox x y sx sy i' j') : i ≤ i' ∧ j ≤ j' := by
  rw [dotBox, mem_box] at h h'
  constructor
  · by_contra hlt
    have hle : ((i' : ℤ) + 1) * sx ≤ i * sx :=
      Int.mul_le_mul_of_nonneg_right (by omega) (by omega)
    rw [Int.add_mul] at hle
    omega
  · by_contra hlt
    have hle : ((j' : ℤ) + 1) * sy ≤ j * sy :=
      Int.mul_le_mul_of_nonneg_right (by omega) (by omega)
    rw [Int.add_mul] at hle
    omega

/-- The dots of a character do not meet. -/
theorem disjoint_dotBox {x y : ℤ} {sx sy i j i' j' : ℕ} (h : i ≠ i' ∨ j ≠ j') :
    Disjoint (dotBox x y sx sy i j) (dotBox x y sx sy i' j') := by
  rw [Set.disjoint_left]
  intro q hq hq'
  have hle := lt_of_mem_dots hq hq'
  have hge := lt_of_mem_dots hq' hq
  omega

theorem drawDot_draws (hcolor : color ≤ 2) {x y : ℤ} {i j : ℕ} {sizeX sizeY : UInt8}
    (hx : -2048 ≤ x) (hx' : x ≤ 256) (hy : -2048 ≤ y) (hy' : y ≤ 256) (hi : i < 8) (hj : j < 8) :
    Draws (p := p) (ink color) (p.shape (dotBox x y sizeX.toNat sizeY.toNat i j))
      (drawDot x y i j color sizeX sizeY) := by
  have hsx := sizeX.toNat_lt
  have hsy := sizeY.toNat_lt
  have hix : (i : ℤ) * sizeX.toNat ≤ 7 * 255 := by
    exact_mod_cast Nat.mul_le_mul (show i ≤ 7 by omega) (show sizeX.toNat ≤ 255 by omega)
  have hjy : (j : ℤ) * sizeY.toNat ≤ 7 * 255 := by
    exact_mod_cast Nat.mul_le_mul (show j ≤ 7 by omega) (show sizeY.toNat ≤ 255 by omega)
  have hix0 : 0 ≤ (i : ℤ) * sizeX.toNat :=
    Int.mul_nonneg (Int.natCast_nonneg i) (Int.natCast_nonneg _)
  have hjy0 : 0 ≤ (j : ℤ) * sizeY.toNat :=
    Int.mul_nonneg (Int.natCast_nonneg j) (Int.natCast_nonneg _)
  by_cases hone : sizeX = 1 ∧ sizeY = 1
  · obtain ⟨rfl, rfl⟩ := hone
    refine (drawPixel_draws (p := p) color (x + i) (y + j)).of_eq ?_ fun b => ?_
    · congr 1
      ext q
      rw [dotBox, mem_box, Set.mem_singleton_iff, Prod.ext_iff]
      simp only [UInt8.toNat_one, Nat.cast_one, mul_one]
      omega
    · rw [drawDot, if_pos ⟨rfl, rfl⟩, int16_of_small (by omega) (by omega),
        int16_of_small (by omega) (by omega)]
  · refine (fillRect_draws (p := p) hcolor (x := x + i * sizeX.toNat) (y := y + j * sizeY.toNat)
      (w := sizeX.toNat) (h := sizeY.toNat) (by unfold IsInt16; omega) (by unfold IsInt16; omega)
      (by omega) (by omega) (by unfold IsInt16; omega) (by omega)).of_eq rfl fun b => ?_
    rw [drawDot, if_neg hone, int16_of_small (by omega) (by omega),
      int16_of_small (by omega) (by omega)]

/-- One column of a character. -/
theorem drawColumn_draws (hcolor : color ≤ 2) {x y : ℤ} {i : ℕ} (c sizeX sizeY : UInt8)
    (hx : -2048 ≤ x) (hx' : x ≤ 256) (hy : -2048 ≤ y) (hy' : y ≤ 256) (hi : i < 5) :
    Draws (p := p) (ink color)
      (p.shape {q | ∃ j < 8, dot c i j = true ∧ q ∈ dotBox x y sizeX.toNat sizeY.toNat i j})
      (fun b => do
        let line ← font[(fontIndex c).toNat * 5 + i]?
        (List.range 8).foldlM (fun b j =>
          if (line >>> j).getLsbD 0 then drawDot x y i j color sizeX sizeY b
          else if color ≠ color then drawDot x y i j color sizeX sizeY b
          else some b) b) := by
  have hindex : (fontIndex c).toNat * 5 + i < font.length := by
    have hlt := (fontIndex c).toNat_lt
    rw [length_font]
    omega
  have hdot : ∀ j, (font[(fontIndex c).toNat * 5 + i] >>> j).getLsbD 0 = dot c i j := by
    intro j
    rw [dot, BitVec.getLsbD_ushiftRight, Nat.add_zero, List.getElem_eq_getD 0]
  have hrow := Draws.foldlM (p := p) (i := ink color) (l := List.range 8)
    (fun j => p.shape
      (if dot c i j = true then dotBox x y sizeX.toNat sizeY.toNat i j else ∅))
    (fun j b => if dot c i j = true then drawDot x y i j color sizeX sizeY b else some b)
    (fun j hj => by
      rw [List.mem_range] at hj
      cases dot c i j with
      | true => exact drawDot_draws hcolor hx hx' hy hy' (by omega) hj
      | false => exact Draws.none_of_empty (fun q hq => hq.1) fun b => rfl)
    (List.nodup_range.imp_of_mem fun {j j'} _ _ hne => by
      apply Panel.disjoint_shape
      split
      · split
        · exact disjoint_dotBox (Or.inr hne)
        · exact Set.disjoint_empty _
      · exact Set.empty_disjoint _)
  refine hrow.of_eq ?_ fun b => ?_
  · ext q
    rw [Panel.mem_shape]
    simp only [Set.mem_ofPred_eq, List.mem_range, Panel.mem_shape]
    constructor
    · rintro ⟨j, hj, hq, hscreen⟩
      split at hq
      · rename_i hset
        exact ⟨⟨j, hj, hset, hq⟩, hscreen⟩
      · exact absurd hq (Set.notMem_empty _)
    · rintro ⟨⟨j, hj, hset, hq⟩, hscreen⟩
      exact ⟨j, hj, by rwa [if_pos hset], hscreen⟩
  · rw [List.getElem?_eq_getElem hindex]
    simp only [Option.bind_eq_bind, Option.bind_some, hdot, ne_eq, not_true_eq_false, if_false]

/-- A character that is clipped at the start would leave nothing on the screen. -/
theorem charShape_clipped {x y : ℤ} {c : UInt8} {sx sy : ℕ}
    (h : x ≥ p.width ∨ y ≥ p.height ∨ x + 6 * sx - 1 < 0 ∨ y + 8 * sy - 1 < 0) (q : ℤ × ℤ) :
    q ∉ p.shape (charShape x y c sx sy) := by
  rintro ⟨⟨i, hi, j, hj, -, hq⟩, hscreen⟩
  have harea : p.turned q ∈ p.area := by
    rw [← Panel.raw_mem_screen_iff, Panel.raw_turned]
    exact hscreen
  rw [Panel.area, mem_box] at harea
  rw [dotBox, mem_box] at hq
  have hix : (i : ℤ) * sx ≤ 4 * sx := Int.mul_le_mul_of_nonneg_right (by omega) (by omega)
  have hjy : (j : ℤ) * sy ≤ 7 * sy := Int.mul_le_mul_of_nonneg_right (by omega) (by omega)
  have hix0 : 0 ≤ (i : ℤ) * sx := Int.mul_nonneg (Int.natCast_nonneg i) (Int.natCast_nonneg _)
  have hjy0 : 0 ≤ (j : ℤ) * sy := Int.mul_nonneg (Int.natCast_nonneg j) (Int.natCast_nonneg _)
  omega

/-- A transparent character, of any size and wherever it lies, draws those of its dots that
are on the screen. -/
theorem drawChar_draws (hcolor : color ≤ 2) (x y : ℤ) (c sizeX sizeY : UInt8) :
    Draws (p := p) (ink color) (p.shape (charShape x y c sizeX.toNat sizeY.toNat))
      (drawChar x y c color color sizeX sizeY) := by
  have hwidth : p.width ≤ 255 := by
    have := p.width_lt
    have := p.height_lt
    unfold Panel.width
    split <;> omega
  have hheight : p.height ≤ 255 := by
    have := p.width_lt
    have := p.height_lt
    unfold Panel.height
    split <;> omega
  by_cases hclip : x ≥ p.width ∨ y ≥ p.height ∨ x + 6 * sizeX.toNat - 1 < 0 ∨
      y + 8 * sizeY.toNat - 1 < 0
  · exact Draws.none_of_empty (charShape_clipped hclip) fun b => if_pos hclip
  · have hsx := sizeX.toNat_lt
    have hsy := sizeY.toNat_lt
    have hcolumns := Draws.foldlM (p := p) (i := ink color) (l := List.range 5) _ _
      (fun i hi => drawColumn_draws (p := p) hcolor (x := x) (y := y) c sizeX sizeY
        (by omega) (by omega) (by omega) (by omega) (List.mem_range.1 hi))
      (List.nodup_range.imp_of_mem fun {i i'} _ _ hne => by
        apply Panel.disjoint_shape
        rw [Set.disjoint_left]
        rintro q ⟨j, -, -, hq⟩ ⟨j', -, -, hq'⟩
        exact Set.disjoint_left.1 (disjoint_dotBox (Or.inl hne)) hq hq')
    refine hcolumns.of_eq ?_ fun b => ?_
    · ext q
      rw [Panel.mem_shape]
      simp only [Set.mem_ofPred_eq, List.mem_range, Panel.mem_shape, charShape]
      constructor
      · rintro ⟨i, hi, ⟨j, hj, hset, hq⟩, hscreen⟩
        exact ⟨⟨i, hi, j, hj, hset, hq⟩, hscreen⟩
      · rintro ⟨⟨i, hi, j, hj, hset, hq⟩, hscreen⟩
        exact ⟨i, hi, ⟨j, hj, hset, hq⟩, hscreen⟩
    · rw [drawChar, if_neg hclip]
      simp only [ne_eq, not_true_eq_false, if_false]
      exact bind_pure _

/-- What `getPixel` reads behind a transparent character, in every rotation: the dots of the
character that are on the screen in its ink, and every other pixel as it was. -/
theorem getPixel_drawChar (hcolor : color ≤ 2) (x y : ℤ) (c sizeX sizeY : UInt8) (b : Buffer p) :
    ∃ b', drawChar x y c color color sizeX sizeY b = some b' ∧
      ∀ x' y', ∃ lit lit', getPixel x' y' b = some lit ∧ getPixel x' y' b' = some lit' ∧
        ((x', y') ∈ p.area ∩ charShape x y c sizeX.toNat sizeY.toNat →
          lit' = (ink color).paint lit) ∧
        ((x', y') ∉ p.area ∩ charShape x y c sizeX.toNat sizeY.toNat → lit' = lit) := by
  have hdraws := drawChar_draws (p := p) hcolor x y c sizeX sizeY
  obtain ⟨b', hop, -⟩ := hdraws b
  have hview := hdraws.view hop
  refine ⟨b', hop, fun x' y' => ?_⟩
  obtain ⟨lit, hread, hlit⟩ := getPixel_eq x' y' b
  obtain ⟨lit', hread', hlit'⟩ := getPixel_eq x' y' b'
  refine ⟨lit, lit', hread, hread', ?_, ?_⟩
  · rintro ⟨harea, hshape⟩
    rw [hview, Set.mem_inter_iff, and_iff_right harea, Ink.mem_draw_iff hlit.symm] at hlit'
    rw [Bool.eq_iff_iff, hlit']
    simp [hshape]
  · intro hout
    rw [hview, Set.mem_inter_iff] at hlit'
    rw [Bool.eq_iff_iff, hlit', hlit]
    by_cases harea : (x', y') ∈ p.area
    · rw [and_iff_right harea, Ink.mem_draw_of_not_mem fun hshape => hout ⟨harea, hshape⟩]
    · exact iff_of_false (fun h => harea h.1) fun h => harea h.1

/-- A digit of double size that only begins on the screen. -/
theorem getPixel_drawChar_clippedDigit :
    ∃ b', drawChar 120 25 0x37 SSD1306_WHITE SSD1306_WHITE 2 2 (clearDisplay oled) = some b' ∧
      ∀ x' y', ∃ lit lit', getPixel x' y' (clearDisplay oled) = some lit ∧
        getPixel x' y' b' = some lit' ∧
        ((x', y') ∈ oled.area ∩ charShape 120 25 0x37 2 2 →
          lit' = (ink SSD1306_WHITE).paint lit) ∧
        ((x', y') ∉ oled.area ∩ charShape 120 25 0x37 2 2 → lit' = lit) :=
  getPixel_drawChar (by decide) 120 25 0x37 2 2 (clearDisplay oled)

end Byter
