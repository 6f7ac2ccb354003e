import Byter.Panel.Picture
import Byter.Raster.Tiles

/-!
# Reading the number off the panel

What `displayNum` shows can be read back: two counts never give the same picture. The
branches of `displayNum` are told apart by the top row of what is lit and by two points of
it, and the digits by their dots.
-/

namespace Byter

open Raster

/-! ## Lines as rows of tiles -/

/-- A character of the classic font with the empty column behind it. -/
def fontTile (c : Char) (i j : ℕ) : Bool := decide (i < 5) && dot (UInt8.ofNat c.toNat) i j

theorem mem_charShape_iff {x y : ℤ} {c : Char} {s k : ℕ} {q : ℤ × ℤ} :
    q ∈ charShape (x + 6 * s * k) y (UInt8.ofNat c.toNat) s s ↔
      ∃ i < 6, ∃ j < 8, fontTile c i j = true ∧
        q ∈ box (x + ((6 * k + i : ℕ) : ℤ) * s) (y + (j : ℤ) * s) s s := by
  have hplace : ∀ i : ℕ, x + ((6 * k + i : ℕ) : ℤ) * s = x + 6 * s * k + i * s := by
    intro i
    push_cast
    ring
  constructor
  · rintro ⟨i, hi, j, hj, hset, hq⟩
    refine ⟨i, by omega, j, hj, ?_, ?_⟩
    · rw [fontTile, decide_eq_true hi, hset, Bool.true_and]
    · rwa [hplace]
  · rintro ⟨i, hi, j, hj, hset, hq⟩
    rw [fontTile, Bool.and_eq_true, decide_eq_true_eq] at hset
    exact ⟨i, hset.1, j, hj, hset.2, by rwa [dotBox, ← hplace]⟩

theorem glyphsShape_glyphsFrom (x y : ℤ) (s : ℕ) (cs : List Char) :
    glyphsShape (glyphsFrom x y s cs) = row fontTile 6 8 s x y cs := by
  have hmem : ∀ q, q ∈ glyphsShape (glyphsFrom x y s cs) ↔ ∃ (k : ℕ) (c : Char), cs[k]? = some c ∧
      q ∈ charShape (x + 6 * s * k) y (UInt8.ofNat c.toNat) s s := by
    intro q
    induction cs generalizing x with
    | nil => simp [glyphsShape, glyphsFrom]
    | cons c cs ih =>
        have hsplit : q ∈ glyphsShape (glyphsFrom x y s (c :: cs)) ↔
            q ∈ charShape x y (UInt8.ofNat c.toNat) s s ∨
              q ∈ glyphsShape (glyphsFrom (x + 6 * s) y s cs) := by
          simp [glyphsShape, glyphsFrom, Glyph.shape]
        have hnext : ∀ k : ℕ, x + 6 * s + 6 * s * k = x + 6 * s * (k + 1 : ℕ) := by
          intro k
          push_cast
          ring
        rw [hsplit, ih]
        constructor
        · rintro (hq | ⟨k, c', hc', hq⟩)
          · exact ⟨0, c, rfl, by simpa using hq⟩
          · exact ⟨k + 1, c', by simpa using hc', by rwa [← hnext]⟩
        · rintro ⟨k, c', hc', hq⟩
          cases k with
          | zero =>
              obtain rfl : c = c' := by simpa using hc'
              exact Or.inl (by simpa using hq)
          | succ k => exact Or.inr ⟨k, c', by simpa using hc', by rwa [hnext]⟩
  ext q
  rw [hmem]
  exact exists_congr fun k => exists_congr fun c => and_congr_right fun _ => mem_charShape_iff

/-- What the screen shows of a line that begins at the left edge. -/
def lineRow (y : ℤ) (s : ℕ) (text : String) : Picture := row fontTile 6 8 s 0 y text.toList

theorem bounds_of_mem_lineRow {y : ℤ} {s : ℕ} {text : String} {q : ℤ × ℤ}
    (h : q ∈ lineRow y s text) : y ≤ q.2 ∧ q.2 < y + 8 * s := by
  obtain ⟨k, c, -, i, -, j, hj, -, hq⟩ := h
  rw [mem_box] at hq
  have hlow : 0 ≤ (j : ℤ) * s := Int.mul_nonneg (Int.natCast_nonneg j) (Int.natCast_nonneg s)
  have hhigh : ((j : ℤ) + 1) * s ≤ 8 * s := Int.mul_le_mul_of_nonneg_right (by omega) (by omega)
  rw [Int.add_mul] at hhigh
  omega

theorem corner_mem_lineRow_iff {y : ℤ} {s k i j : ℕ} {text : String} (hs : 0 < s) (hi : i < 6)
    (hj : j < 8) : (((6 * k + i : ℕ) : ℤ) * s, y + (j : ℤ) * s) ∈ lineRow y s text ↔
      ∃ c, text.toList[k]? = some c ∧ fontTile c i j = true := by
  have hcorner : corner 6 s 0 y k i j ∈ row fontTile 6 8 s 0 y text.toList ↔
      ∃ c, text.toList[k]? = some c ∧ fontTile c i j = true := corner_mem_row_iff hs hi hj
  rw [corner, Int.zero_add] at hcorner
  exact hcorner

/-- The points of a dot are lit together. -/
theorem next_mem_lineRow_iff {y : ℤ} {s : ℕ} {text : String} (hs : 2 ≤ s) :
    ((0 : ℤ), y) ∈ lineRow y s text ↔ ((1 : ℤ), y) ∈ lineRow y s text := by
  have hbox : ∀ k i j : ℕ,
      ((0 : ℤ), y) ∈ box (0 + ((6 * k + i : ℕ) : ℤ) * s) (y + (j : ℤ) * s) s s ↔
        ((1 : ℤ), y) ∈ box (0 + ((6 * k + i : ℕ) : ℤ) * s) (y + (j : ℤ) * s) s s := by
    intro k i j
    rw [mem_box, mem_box]
    by_cases hzero : 6 * k + i = 0
    · rw [hzero]
      push_cast
      omega
    · have hle : (s : ℤ) ≤ ((6 * k + i : ℕ) : ℤ) * s := by
        have hmul := Int.mul_le_mul_of_nonneg_right (show (1 : ℤ) ≤ ((6 * k + i : ℕ) : ℤ) by omega)
          (Int.natCast_nonneg s)
        omega
      omega
  refine exists_congr fun k => exists_congr fun c => and_congr_right fun _ =>
    exists_congr fun i => and_congr_right fun _ => exists_congr fun j => ?_
  rw [hbox]

/-! ## Digits -/

theorem exists_digitChar {c : Char} (h : c.isDigit = true) : ∃ d < 10, c = Nat.digitChar d := by
  have hlow : 48 ≤ c.toNat := (Char.isDigit_iff_toNat.1 h).1
  have hhigh : c.toNat ≤ 57 := (Char.isDigit_iff_toNat.1 h).2
  have hall : ∀ d < 10, Nat.digitChar d = Char.ofNat (48 + d) := by decide
  refine ⟨c.toNat - 48, by omega, ?_⟩
  have hsum : 48 + (c.toNat - 48) = c.toNat := by omega
  rw [hall _ (by omega), hsum, Char.ofNat_toNat]

/-- Every digit has a dot in each of its rows but the last. -/
theorem digit_rows {c : Char} (h : c.isDigit = true) {j : ℕ} (hj : j < 7) :
    ∃ i < 5, fontTile c i j = true := by
  have hall : ∀ d < 10, ∀ j < 7, ∃ i < 5, fontTile (Nat.digitChar d) i j = true := by
    decide +kernel
  obtain ⟨d, hd, rfl⟩ := exists_digitChar h
  exact hall d hd j hj

/-- The digits look different. -/
theorem digit_eq_of_tile {c c' : Char} (h : c.isDigit = true) (h' : c'.isDigit = true)
    (hsame : ∀ i < 6, ∀ j < 8, fontTile c i j = fontTile c' i j) : c = c' := by
  have hall : ∀ d < 10, ∀ d' < 10,
      (∀ i < 6, ∀ j < 8, fontTile (Nat.digitChar d) i j = fontTile (Nat.digitChar d') i j) →
        d = d' := by
    decide +kernel
  obtain ⟨d, hd, rfl⟩ := exists_digitChar h
  obtain ⟨d', hd', rfl⟩ := exists_digitChar h'
  rw [hall d hd d' hd' hsame]

theorem isDigit_of_mem_number {n : ℕ} {c : Char} (h : c ∈ (toString n).toList) :
    c.isDigit = true := by
  rw [toList_toString] at h
  exact isDigit_of_mem_digits h

theorem exists_first_digit (n : ℕ) : ∃ c, (toString n).toList[0]? = some c ∧ c.isDigit = true := by
  cases hdigits : (toString n).toList with
  | nil =>
      rw [toList_toString] at hdigits
      exact absurd hdigits Nat.toDigits_ne_nil
  | cons c cs =>
      exact ⟨c, rfl, isDigit_of_mem_number (n := n) (by rw [hdigits]; exact List.mem_cons_self)⟩

/-- A number lights each row of dots but the last, within its first digit. -/
theorem number_rows {n : ℕ} {y : ℤ} {s j : ℕ} (hs : 0 < s) (hj : j < 7) :
    ∃ i < 5, (((i : ℕ) : ℤ) * s, y + (j : ℤ) * s) ∈ lineRow y s (toString n) := by
  obtain ⟨c, hc, hdigit⟩ := exists_first_digit n
  obtain ⟨i, hi, htile⟩ := digit_rows hdigit hj
  refine ⟨i, hi, ?_⟩
  have hcorner : (((6 * 0 + i : ℕ) : ℤ) * s, y + (j : ℤ) * s) ∈ lineRow y s (toString n) ↔
      ∃ c, (toString n).toList[0]? = some c ∧ fontTile c i j = true :=
    corner_mem_lineRow_iff hs (by omega) (by omega)
  rw [Nat.mul_zero, Nat.zero_add] at hcorner
  exact hcorner.2 ⟨c, hc, htile⟩

theorem length_number {n k : ℕ} (hk : 0 < k) (hn : n < 10 ^ k) :
    (toString n).toList.length ≤ k := by
  rw [String.length_toList, Nat.toString_eq_repr]
  exact (Nat.length_repr_le_iff hk).2 hn

/-- A number of at most `k` digits is known from its row, where the row is on the screen. -/
theorem number_of_lineRow {n n' k s : ℕ} {y : ℤ} {D : Picture} (hs : 0 < s)
    (hn : (toString n).toList.length ≤ k) (hn' : (toString n').toList.length ≤ k)
    (hD : ∀ q : ℤ × ℤ, 0 ≤ q.1 → q.1 < 6 * k * s → y ≤ q.2 → q.2 ≤ y + 7 * s → q ∈ D)
    (hsame : lineRow y s (toString n) ∩ D = lineRow y s (toString n') ∩ D) : n = n' := by
  apply toString_injective
  apply String.toList_inj.1
  refine row_injective (n := k) hs ?_ hn hn' ?_ ?_ hsame
  · intro l hl i hi j hj
    have hcolumn : ((6 * l + i : ℕ) : ℤ) + 1 ≤ 6 * k := by
      have := Nat.mul_le_mul_left 6 hl
      omega
    have hx := Int.mul_le_mul_of_nonneg_right hcolumn (Int.natCast_nonneg s)
    have hx0 : 0 ≤ ((6 * l + i : ℕ) : ℤ) * s :=
      Int.mul_nonneg (Int.natCast_nonneg _) (Int.natCast_nonneg s)
    have hy : (j : ℤ) * s ≤ 7 * s := Int.mul_le_mul_of_nonneg_right (by omega) (by omega)
    have hy0 : 0 ≤ (j : ℤ) * s := Int.mul_nonneg (Int.natCast_nonneg j) (Int.natCast_nonneg s)
    rw [Int.add_mul] at hx
    rw [corner]
    apply hD <;> dsimp only <;> omega
  · intro c hc
    have hdigit : c.isDigit = true := hc.elim isDigit_of_mem_number isDigit_of_mem_number
    obtain ⟨i, hi, htile⟩ := digit_rows hdigit (j := 0) (by decide)
    exact ⟨i, by omega, 0, by decide, htile⟩
  · intro c hc c' hc' htiles
    exact digit_eq_of_tile (isDigit_of_mem_number hc) (isDigit_of_mem_number hc') htiles

/-! ## The branches of `displayNum` -/

/-- The branches of `displayNum`. -/
inductive Layout
  | five
  | seven
  | ten
  | close
  | overflow
deriving DecidableEq, Repr

def layout (n : UInt32) (isCloseToMax : Bool) : Layout :=
  if n ≤ 99999 then .five
  else if n ≤ 9999999 then .seven
  else if n < maxCnt then
    if isCloseToMax then .close else .ten
  else .overflow

/-- `t` is the top row of what is lit. -/
def Top (S : Picture) (t : ℤ) : Prop := (∃ x, (x, t) ∈ S) ∧ ∀ q ∈ S, t ≤ q.2

theorem Top.unique {S : Picture} {t t' : ℤ} (h : Top S t) (h' : Top S t') : t = t' := by
  obtain ⟨⟨x, hx⟩, hall⟩ := h
  obtain ⟨⟨x', hx'⟩, hall'⟩ := h'
  have hle : t ≤ t' := hall _ hx'
  have hge : t' ≤ t := hall' _ hx
  omega

/-- Something is lit below row 7. -/
def Deep (S : Picture) : Prop := ∃ q ∈ S, 8 ≤ q.2

/-- How a branch looks on the screen. -/
def Looks : Layout → Picture → Prop
  | .five, S => Top S 2 ∧ Deep S ∧ ((0, 2) ∈ S ↔ (1, 2) ∈ S)
  | .seven, S => Top S 5 ∧ Deep S ∧ ((0, 5) ∈ S ↔ (1, 5) ∈ S)
  | .ten, S => Top S 9 ∧ ((0, 9) ∈ S ↔ (1, 9) ∈ S)
  | .close, S => Top S 9 ∧ (0, 9) ∉ S ∧ (1, 9) ∈ S ∧ (4, 11) ∉ S
  | .overflow, S => ¬ Deep S ∨ (∃ x, (x, 0) ∈ S) ∨
      ∃ t, Top S t ∧ (0, t) ∉ S ∧ (1, t) ∈ S ∧ (t = 9 → (4, 11) ∈ S)

theorem Looks.not_overflow {l : Layout} {S : Picture} (h : Looks l S) (hl : l ≠ .overflow) :
    ¬ Looks .overflow S := by
  have htop : ∀ t, Top S t → 2 ≤ t → Deep S → ((0, t) ∈ S ↔ (1, t) ∈ S) ∨
      (t = 9 ∧ (4, 11) ∉ S) → ¬ Looks .overflow S := by
    rintro t ht hlow hdeep hpair (hshallow | ⟨x, hx⟩ | ⟨t', ht', hnot, hin, hnine⟩)
    · exact hshallow hdeep
    · have hle := ht.2 _ hx
      dsimp only at hle
      omega
    · obtain rfl := ht.unique ht'
      obtain hpair | ⟨rfl, hoff⟩ := hpair
      · exact hnot (hpair.2 hin)
      · exact hoff (hnine rfl)
  have hdeep : Top S 9 → Deep S := fun ht => by
    obtain ⟨x, hx⟩ := ht.1
    exact ⟨_, hx, show (8 : ℤ) ≤ 9 by decide⟩
  cases l with
  | five => exact htop 2 h.1 (by decide) h.2.1 (Or.inl h.2.2)
  | seven => exact htop 5 h.1 (by decide) h.2.1 (Or.inl h.2.2)
  | ten => exact htop 9 h.1 (by decide) (hdeep h.1) (Or.inl h.2)
  | close => exact htop 9 h.1 (by decide) (hdeep h.1) (Or.inr ⟨rfl, h.2.2.2⟩)
  | overflow => exact absurd rfl hl

/-- The branches look different. -/
theorem Looks.unique {l l' : Layout} {S : Picture} (h : Looks l S) (h' : Looks l' S) : l = l' := by
  have hrows : ∀ {t t' : ℤ}, Top S t → Top S t' → t ≠ t' → l = l' :=
    fun ht ht' hne => absurd (ht.unique ht') hne
  cases l with
  | five =>
      cases l' with
      | five => rfl
      | seven => exact hrows h.1 h'.1 (by decide)
      | ten => exact hrows h.1 h'.1 (by decide)
      | close => exact hrows h.1 h'.1 (by decide)
      | overflow => exact absurd h' (h.not_overflow (by decide))
  | seven =>
      cases l' with
      | five => exact hrows h.1 h'.1 (by decide)
      | seven => rfl
      | ten => exact hrows h.1 h'.1 (by decide)
      | close => exact hrows h.1 h'.1 (by decide)
      | overflow => exact absurd h' (h.not_overflow (by decide))
  | ten =>
      cases l' with
      | five => exact hrows h.1 h'.1 (by decide)
      | seven => exact hrows h.1 h'.1 (by decide)
      | ten => rfl
      | close => exact absurd (h.2.2 h'.2.2.1) h'.2.1
      | overflow => exact absurd h' (h.not_overflow (by decide))
  | close =>
      cases l' with
      | five => exact hrows h.1 h'.1 (by decide)
      | seven => exact hrows h.1 h'.1 (by decide)
      | ten => exact absurd (h'.2.2 h.2.2.1) h.2.1
      | close => rfl
      | overflow => exact absurd h' (h.not_overflow (by decide))
  | overflow =>
      cases l' with
      | five => exact absurd h (h'.not_overflow (by decide))
      | seven => exact absurd h (h'.not_overflow (by decide))
      | ten => exact absurd h (h'.not_overflow (by decide))
      | close => exact absurd h (h'.not_overflow (by decide))
      | overflow => rfl

/-! ## What `displayNum` shows -/

/-- What the panel shows behind `displayNum(n)`, when it finds the display as `g`. -/
def numberPicture (n : UInt32) (isCloseToMax : Bool) (g : Gfx) : Picture :=
  oled.shape (glyphsShape ((displayNumLines n isCloseToMax g).flatMap Line.glyphs))

theorem oled_shape (S : Picture) : oled.shape S = S ∩ oled.screen := rfl

theorem mem_oled_screen {q : ℤ × ℤ} :
    q ∈ oled.screen ↔ 0 ≤ q.1 ∧ q.1 < 128 ∧ 0 ≤ q.2 ∧ q.2 < 32 := by
  rw [Panel.screen, mem_box, Int.zero_add, Int.zero_add]
  rfl

theorem shape_line (y : ℤ) (s : ℕ) (text : String) :
    glyphsShape (Line.glyphs ⟨0, y, s, text⟩) = lineRow y s text :=
  glyphsShape_glyphsFrom 0 y s text.toList

theorem shape_one_line (y : ℤ) (s : ℕ) (text : String) :
    oled.shape (glyphsShape ([(⟨0, y, s, text⟩ : Line)].flatMap Line.glyphs)) =
      lineRow y s text ∩ oled.screen := by
  rw [List.flatMap_singleton, shape_line, oled_shape]

theorem shape_two_lines (y y' : ℤ) (s s' : ℕ) (text text' : String) :
    oled.shape (glyphsShape
        ([(⟨0, y, s, text⟩ : Line), ⟨0, y', s', text'⟩].flatMap Line.glyphs)) =
      (lineRow y s text ∪ lineRow y' s' text') ∩ oled.screen := by
  rw [List.flatMap_cons, List.flatMap_singleton, glyphsShape_append, shape_line, shape_line,
    oled_shape]

theorem numberPicture_five {n : UInt32} (h : n ≤ 99999) {g : Gfx} (hx : g.cursorX = 0)
    (isCloseToMax : Bool) : numberPicture n isCloseToMax g =
      lineRow 2 4 (toString n.toNat) ∩ oled.screen := by
  rw [numberPicture, displayNumLines_eq hx, if_pos h]
  exact shape_one_line 2 4 _

theorem numberPicture_seven {n : UInt32} (h : ¬ n ≤ 99999) (h' : n ≤ 9999999) {g : Gfx}
    (hx : g.cursorX = 0) (isCloseToMax : Bool) : numberPicture n isCloseToMax g =
      lineRow 5 3 (toString n.toNat) ∩ oled.screen := by
  rw [numberPicture, displayNumLines_eq hx, if_neg h, if_pos h']
  exact shape_one_line 5 3 _

theorem numberPicture_ten {n : UInt32} (h : ¬ n ≤ 99999) (h' : ¬ n ≤ 9999999) (hmax : n < maxCnt)
    {g : Gfx} (hx : g.cursorX = 0) : numberPicture n false g =
      lineRow 9 2 (toString n.toNat) ∩ oled.screen := by
  rw [numberPicture, displayNumLines_eq hx, if_neg h, if_neg h', if_pos hmax,
    if_neg Bool.false_ne_true]
  exact shape_one_line 9 2 _

theorem numberPicture_close {n : UInt32} (h : ¬ n ≤ 99999) (h' : ¬ n ≤ 9999999)
    (hmax : n < maxCnt) {g : Gfx} (hx : g.cursorX = 0) : numberPicture n true g =
      (lineRow 9 1 "CloseToMAX.." ∪ lineRow 17 1 (toString n.toNat)) ∩ oled.screen := by
  rw [numberPicture, displayNumLines_eq hx, if_neg h, if_neg h', if_pos hmax, if_pos rfl]
  exact shape_two_lines 9 17 1 1 _ _

theorem numberPicture_over {n : UInt32} (h : ¬ n ≤ 99999) (h' : ¬ n ≤ 9999999)
    (hmax : ¬ n < maxCnt) {g : Gfx} (hx : g.cursorX = 0) (isCloseToMax : Bool) :
    numberPicture n isCloseToMax g =
      (lineRow g.cursorY 1 "Overflowing" ∪
        lineRow (int16 (g.cursorY + 8)) 1 (toString maxCnt.toNat)) ∩ oled.screen := by
  rw [numberPicture, displayNumLines_eq hx, if_neg h, if_neg h', if_neg hmax]
  exact shape_two_lines g.cursorY (int16 (g.cursorY + 8)) 1 1 _ _

/-- A number with its top row on the screen. -/
theorem looks_number {n : ℕ} {y : ℤ} {s : ℕ} (hs : 2 ≤ s) (hs' : s ≤ 4) (hy : 0 ≤ y)
    (hroom : y + 6 * s < 32) (hdeep : 8 ≤ y + 6 * s) :
    Top (lineRow y s (toString n) ∩ oled.screen) y ∧
      Deep (lineRow y s (toString n) ∩ oled.screen) ∧
      ((0, y) ∈ lineRow y s (toString n) ∩ oled.screen ↔
        (1, y) ∈ lineRow y s (toString n) ∩ oled.screen) := by
  have hcolumn : ∀ i : ℕ, i < 5 → ((i : ℕ) : ℤ) * s ≤ 4 * 4 := by
    intro i hi
    exact_mod_cast Nat.mul_le_mul (show i ≤ 4 by omega) hs'
  have hcolumn0 : ∀ i : ℕ, 0 ≤ ((i : ℕ) : ℤ) * s :=
    fun i => Int.mul_nonneg (Int.natCast_nonneg i) (Int.natCast_nonneg s)
  refine ⟨⟨?_, ?_⟩, ?_, ?_⟩
  · obtain ⟨i, hi, hlit⟩ := number_rows (n := n) (y := y) (s := s) (j := 0) (by omega) (by decide)
    have h4 := hcolumn i hi
    have h0 := hcolumn0 i
    have hrow : y + ((0 : ℕ) : ℤ) * s = y := by simp
    rw [hrow] at hlit
    refine ⟨_, hlit, ?_⟩
    rw [mem_oled_screen]
    dsimp only
    omega
  · exact fun q hq => (bounds_of_mem_lineRow hq.1).1
  · obtain ⟨i, hi, hlit⟩ := number_rows (n := n) (y := y) (s := s) (j := 6) (by omega) (by decide)
    have h4 := hcolumn i hi
    have h0 := hcolumn0 i
    refine ⟨_, ⟨hlit, ?_⟩, ?_⟩
    · rw [mem_oled_screen]
      push_cast
      omega
    · push_cast
      omega
  · rw [Set.mem_inter_iff, Set.mem_inter_iff, next_mem_lineRow_iff hs]
    refine and_congr_right fun _ => ?_
    rw [mem_oled_screen, mem_oled_screen]
    dsimp only
    omega

/-- A dot of a line of size one. -/
theorem mem_lineRow_one_iff {y : ℤ} {k i j : ℕ} {text : String} {c : Char}
    (hc : text.toList[k]? = some c) (hi : i < 6) (hj : j < 8) {q : ℤ × ℤ}
    (hx : q.1 = 6 * k + i) (hy : q.2 = y + j) : q ∈ lineRow y 1 text ↔ fontTile c i j = true := by
  have hq : q = (((6 * k + i : ℕ) : ℤ) * ((1 : ℕ) : ℤ), y + (j : ℤ) * ((1 : ℕ) : ℤ)) := by
    rw [Prod.ext_iff]
    push_cast
    constructor <;> omega
  rw [hq, corner_mem_lineRow_iff (by decide) hi hj, hc]
  simp

theorem not_mem_lineRow {y : ℤ} {s : ℕ} {text : String} {q : ℤ × ℤ}
    (h : q.2 < y ∨ y + 8 * s ≤ q.2) : q ∉ lineRow y s text := by
  intro hq
  have hrows := bounds_of_mem_lineRow hq
  omega

theorem looks_close (n : ℕ) : Looks .close
    ((lineRow 9 1 "CloseToMAX.." ∪ lineRow 17 1 (toString n)) ∩ oled.screen) := by
  have hc : "CloseToMAX..".toList[0]? = some 'C' := rfl
  have hbelow : ∀ q : ℤ × ℤ, q.2 < 17 → q ∉ lineRow 17 1 (toString n) :=
    fun q hq => not_mem_lineRow (Or.inl hq)
  have hlit : ((1 : ℤ), (9 : ℤ)) ∈ (lineRow 9 1 "CloseToMAX.." ∪ lineRow 17 1 (toString n)) ∩
      oled.screen := by
    refine ⟨Or.inl ?_, by rw [mem_oled_screen]; decide⟩
    exact (mem_lineRow_one_iff hc (i := 1) (j := 0) (by decide) (by decide) rfl rfl).2
      (by decide +kernel)
  refine ⟨⟨⟨1, hlit⟩, ?_⟩, ?_, hlit, ?_⟩
  · rintro q ⟨hq | hq, -⟩
    · exact (bounds_of_mem_lineRow hq).1
    · have hrows := (bounds_of_mem_lineRow hq).1
      omega
  · rintro ⟨hq | hq, -⟩
    · rw [mem_lineRow_one_iff hc (i := 0) (j := 0) (by decide) (by decide) rfl rfl] at hq
      exact absurd hq (by decide +kernel)
    · exact hbelow _ (by decide) hq
  · rintro ⟨hq | hq, -⟩
    · rw [mem_lineRow_one_iff hc (i := 4) (j := 2) (by decide) (by decide) rfl rfl] at hq
      exact absurd hq (by decide +kernel)
    · exact hbelow _ (by decide) hq

/-- The overflow message begins wherever the cursor was left. -/
theorem looks_overflow {y : ℤ} (hy : IsInt16 y) (n : ℕ) : Looks .overflow
    ((lineRow y 1 "Overflowing" ∪ lineRow (int16 (y + 8)) 1 (toString n)) ∩ oled.screen) := by
  have hO : "Overflowing".toList[0]? = some 'O' := rfl
  have hg : "Overflowing".toList[10]? = some 'g' := rfl
  obtain ⟨k, hk, hlow, hhigh⟩ := int16_spec (y + 8)
  obtain ⟨hy0, hy1⟩ := hy
  by_cases habove : y < -7
  · -- the message is above the screen
    refine Or.inl ?_
    rintro ⟨q, ⟨hq | hq, hscreen⟩, hdeep⟩
    · have hrows := bounds_of_mem_lineRow hq
      push_cast at hrows
      omega
    · have hrows := bounds_of_mem_lineRow hq
      push_cast at hrows
      omega
  · by_cases hbelow : 32 ≤ y
    · -- it is below the screen, and so is the number unless its row wraps
      refine Or.inl ?_
      rintro ⟨q, ⟨hq | hq, hscreen⟩, hdeep⟩
      · have hrows := bounds_of_mem_lineRow hq
        rw [mem_oled_screen] at hscreen
        omega
      · have hrows := bounds_of_mem_lineRow hq
        rw [mem_oled_screen] at hscreen
        push_cast at hrows
        omega
    · by_cases hcut : y < 0
      · -- its upper rows are above the screen
        refine Or.inr (Or.inl ?_)
        have hrow : ∀ j : ℕ, j < 8 → ∃ k c i, k < 11 ∧ "Overflowing".toList[k]? = some c ∧ i < 6 ∧
            fontTile c i j = true := by
          intro j hj
          by_cases hlast : j = 7
          · subst hlast
            exact ⟨10, 'g', 1, by decide, hg, by decide, by decide +kernel⟩
          · have hall : ∀ j < 7, ∃ i < 6, fontTile 'O' i j = true := by decide +kernel
            obtain ⟨i, hi, htile⟩ := hall j (by omega)
            exact ⟨0, 'O', i, by decide, hO, hi, htile⟩
        obtain ⟨k, c, i, hk, hc, hi, htile⟩ := hrow (-y).toNat (by omega)
        refine ⟨6 * k + i, Or.inl ?_, ?_⟩
        · exact (mem_lineRow_one_iff hc hi (j := (-y).toNat) (by omega) rfl
            (show (0 : ℤ) = y + ((-y).toNat : ℕ) by omega)).2 htile
        · rw [mem_oled_screen]
          dsimp only
          omega
      · have hsecond : int16 (y + 8) = y + 8 := int16_of_small (by omega) (by omega)
        have hnext : ∀ q : ℤ × ℤ, q.2 < y + 8 → q ∉ lineRow (int16 (y + 8)) 1 (toString n) := by
          intro q hq
          rw [hsecond]
          exact not_mem_lineRow (Or.inl hq)
        have hlit : ((1 : ℤ), y) ∈ (lineRow y 1 "Overflowing" ∪
            lineRow (int16 (y + 8)) 1 (toString n)) ∩ oled.screen := by
          refine ⟨Or.inl ?_, by rw [mem_oled_screen]; dsimp only; omega⟩
          exact (mem_lineRow_one_iff hO (i := 1) (j := 0) (by decide) (by decide) rfl
            (show y = y + ((0 : ℕ) : ℤ) by simp)).2 (by decide +kernel)
        refine Or.inr (Or.inr ⟨y, ⟨⟨1, hlit⟩, ?_⟩, ?_, hlit, ?_⟩)
        · rintro q ⟨hq | hq, -⟩
          · exact (bounds_of_mem_lineRow hq).1
          · have hrows := (bounds_of_mem_lineRow hq).1
            omega
        · rintro ⟨hq | hq, -⟩
          · rw [mem_lineRow_one_iff hO (i := 0) (j := 0) (by decide) (by decide) rfl
              (show y = y + ((0 : ℕ) : ℤ) by simp)] at hq
            exact absurd hq (by decide +kernel)
          · exact hnext (0, y) (by dsimp only; omega) hq
        · rintro rfl
          refine ⟨Or.inl ?_, by rw [mem_oled_screen]; decide⟩
          exact (mem_lineRow_one_iff hO (i := 4) (j := 2) (by decide) (by decide) rfl rfl).2
            (by decide +kernel)

theorem looks_layout {g : Gfx} (hx : g.cursorX = 0) (hy : IsInt16 g.cursorY) (n : UInt32)
    (isCloseToMax : Bool) : Looks (layout n isCloseToMax) (numberPicture n isCloseToMax g) := by
  unfold layout
  split_ifs with h5 h7 hmax hclose
  · rw [numberPicture_five h5 hx]
    exact looks_number (by decide) (by decide) (by decide) (by decide) (by decide)
  · rw [numberPicture_seven h5 h7 hx]
    exact looks_number (by decide) (by decide) (by decide) (by decide) (by decide)
  · rw [hclose, numberPicture_close h5 h7 hmax hx]
    exact looks_close n.toNat
  · rw [Bool.not_eq_true] at hclose
    obtain ⟨htop, -, hpair⟩ := looks_number (n := n.toNat) (y := 9) (s := 2) (by decide)
      (by decide) (by decide) (by decide) (by decide)
    rw [hclose, numberPicture_ten h5 h7 hmax hx]
    exact ⟨htop, hpair⟩
  · rw [numberPicture_over h5 h7 hmax hx]
    exact looks_overflow hy _

/-- What a branch says about the count. -/
def Layout.Holds (n : UInt32) (isCloseToMax : Bool) : Layout → Prop
  | .five => n ≤ 99999
  | .seven => ¬ n ≤ 99999 ∧ n ≤ 9999999
  | .ten => ¬ n ≤ 99999 ∧ ¬ n ≤ 9999999 ∧ n < maxCnt ∧ isCloseToMax = false
  | .close => ¬ n ≤ 99999 ∧ ¬ n ≤ 9999999 ∧ n < maxCnt ∧ isCloseToMax = true
  | .overflow => n = maxCnt

theorem layout_holds (n : UInt32) (isCloseToMax : Bool) :
    (layout n isCloseToMax).Holds n isCloseToMax := by
  unfold layout
  split_ifs with h5 h7 hmax hclose
  · exact h5
  · exact ⟨h5, h7⟩
  · exact ⟨h5, h7, hmax, hclose⟩
  · exact ⟨h5, h7, hmax, Bool.not_eq_true _ ▸ hclose⟩
  · exact eq_maxCnt_of_not_lt hmax

/-- Two counts never look the same on the panel, wherever the cursor was before and whether
or not the count is near its end. -/
theorem eq_of_numberPicture_eq {g g' : Gfx} (hx : g.cursorX = 0) (hx' : g'.cursorX = 0)
    (hy : IsInt16 g.cursorY) (hy' : IsInt16 g'.cursorY) {n n' : UInt32} {flag flag' : Bool}
    (h : numberPicture n flag g = numberPicture n' flag' g') : n = n' := by
  have hlayout : layout n flag = layout n' flag' := by
    have hlooks := looks_layout hx hy n flag
    rw [h] at hlooks
    exact hlooks.unique (looks_layout hx' hy' n' flag')
  have hn := layout_holds n flag
  have hn' := layout_holds n' flag'
  rw [← hlayout] at hn'
  have hlength : ∀ n : UInt32, (toString n.toNat).toList.length ≤ 10 := fun n =>
    length_number (by decide) (by have := n.toNat_lt; omega)
  apply UInt32.toNat_inj.1
  cases hl : layout n flag with
  | five =>
      rw [hl] at hn hn'
      rw [numberPicture_five hn hx, numberPicture_five hn' hx'] at h
      have hle : n.toNat ≤ 99999 := hn
      have hle' : n'.toNat ≤ 99999 := hn'
      refine number_of_lineRow (k := 5) (by decide) (length_number (by decide) (by omega))
        (length_number (by decide) (by omega)) (fun q => ?_) h
      rw [mem_oled_screen]
      omega
  | seven =>
      rw [hl] at hn hn'
      rw [numberPicture_seven hn.1 hn.2 hx, numberPicture_seven hn'.1 hn'.2 hx'] at h
      have hle : n.toNat ≤ 9999999 := hn.2
      have hle' : n'.toNat ≤ 9999999 := hn'.2
      refine number_of_lineRow (k := 7) (by decide) (length_number (by decide) (by omega))
        (length_number (by decide) (by omega)) (fun q => ?_) h
      rw [mem_oled_screen]
      omega
  | ten =>
      rw [hl] at hn hn'
      obtain ⟨h5, h7, hmax, rfl⟩ := hn
      obtain ⟨h5', h7', hmax', rfl⟩ := hn'
      rw [numberPicture_ten h5 h7 hmax hx, numberPicture_ten h5' h7' hmax' hx'] at h
      refine number_of_lineRow (k := 10) (by decide) (hlength n) (hlength n') (fun q => ?_) h
      rw [mem_oled_screen]
      omega
  | close =>
      rw [hl] at hn hn'
      obtain ⟨h5, h7, hmax, rfl⟩ := hn
      obtain ⟨h5', h7', hmax', rfl⟩ := hn'
      rw [numberPicture_close h5 h7 hmax hx, numberPicture_close h5' h7' hmax' hx'] at h
      -- the number stands below the message
      have hbelow : ∀ n : ℕ, (lineRow 9 1 "CloseToMAX.." ∪ lineRow 17 1 (toString n)) ∩
          oled.screen ∩ {q | 17 ≤ q.2} =
            lineRow 17 1 (toString n) ∩ (oled.screen ∩ {q | 17 ≤ q.2}) := by
        intro n
        ext q
        constructor
        · rintro ⟨⟨hq | hq, hscreen⟩, hrow⟩
          · exact absurd hq (not_mem_lineRow (Or.inr hrow))
          · exact ⟨hq, hscreen, hrow⟩
        · exact fun hq => ⟨⟨Or.inr hq.1, hq.2.1⟩, hq.2.2⟩
      have hsame := congrArg (· ∩ {q : ℤ × ℤ | 17 ≤ q.2}) h
      rw [hbelow, hbelow] at hsame
      refine number_of_lineRow (k := 10) (by decide) (hlength n) (hlength n') (fun q => ?_) hsame
      rw [Set.mem_inter_iff, mem_oled_screen]
      intro hx0 hx1 hy0 hy1
      refine ⟨by omega, hy0⟩
  | overflow =>
      rw [hl] at hn hn'
      rw [show n = maxCnt from hn, show n' = maxCnt from hn']

theorem isInt16_int16 (x : ℤ) : IsInt16 (int16 x) := (int16_spec x).choose_spec.2

/-- The bytes that have been sent to the panel behind `displayNum(n)` determine `n`, whatever
has been drawn before and with whatever value of `isCloseToMax`. -/
theorem count_of_bytes {calls calls' : List DrawCall} {n n' : UInt32} {flag flag' : Bool}
    {b b' sent sent' : Buffer oled} {o o' : Oled oled}
    (h : drawnBytes (Oled.begun b sent) (calls ++ [.displayNum n flag]) = some o)
    (h' : drawnBytes (Oled.begun b' sent') (calls' ++ [.displayNum n' flag']) = some o')
    (hsent : o.sent = o'.sent) : n = n' := by
  have hpicture : ∀ (calls : List DrawCall) (n : UInt32) (flag : Bool) (b sent : Buffer oled)
      (o : Oled oled),
      drawnBytes (Oled.begun b sent) (calls ++ [.displayNum n flag]) = some o →
        o.sent.picture = numberPicture n flag (drawn calls) := by
    intro calls n flag b sent o hdrawn
    have hne : calls ++ [.displayNum n flag] ≠ [] := by simp
    obtain ⟨o₁, hdrawn₁, hsent₁⟩ := picture_of_calls (p := oled) rfl hne b sent
    obtain rfl : o = o₁ := by simpa [hdrawn] using hdrawn₁
    have hpanel : (drawn (calls ++ [.displayNum n flag])).panel =
        (displayNumLines n flag (drawn calls)).flatMap Line.glyphs := by
      rw [drawn, List.foldl_append]
      exact displayNum_panel (m := { ram with gfx := drawn calls, isCloseToMax := flag })
        (drawn_atRow calls).cursorX
    rw [hsent₁, hpanel, numberPicture]
  have hcursor : ∀ calls, (drawn calls).cursorX = 0 ∧ IsInt16 (drawn calls).cursorY := by
    intro calls
    have hrow := drawn_atRow calls
    exact ⟨hrow.cursorX, by rw [hrow.cursorY]; exact isInt16_int16 _⟩
  have hsame : numberPicture n flag (drawn calls) = numberPicture n' flag' (drawn calls') := by
    rw [← hpicture calls n flag b sent o h, ← hpicture calls' n' flag' b' sent' o' h', hsent]
  exact eq_of_numberPicture_eq (hcursor calls).1 (hcursor calls').1 (hcursor calls).2
    (hcursor calls').2 hsame

/-- The number 7, behind the title and on a display that has only been begun. -/
theorem count_of_bytes_seven :
    ∃ o o' : Oled oled,
      drawnBytes (Oled.begun (clearDisplay oled) (clearDisplay oled))
          ([.startDisplay] ++ [.displayNum 7 false]) = some o ∧
        drawnBytes (Oled.begun (clearDisplay oled) (clearDisplay oled))
          ([] ++ [.displayNum 7 true]) = some o' ∧
        o.sent = o'.sent ∧ (7 : UInt32) = 7 := by
  obtain ⟨o, hdrawn, hpicture⟩ := picture_of_calls (p := oled) rfl
    (List.append_ne_nil_of_right_ne_nil [.startDisplay] (List.cons_ne_nil (.displayNum 7 false) []))
    (clearDisplay oled) (clearDisplay oled)
  obtain ⟨o', hdrawn', hpicture'⟩ := picture_of_calls (p := oled) rfl
    (List.append_ne_nil_of_right_ne_nil [] (List.cons_ne_nil (.displayNum 7 true) []))
    (clearDisplay oled) (clearDisplay oled)
  have hpanel : (drawn ([.startDisplay] ++ [.displayNum 7 false])).panel =
      (drawn ([] ++ [.displayNum 7 true])).panel := by decide
  have hsent : o.sent = o'.sent := by
    apply Pages.picture_injective
    rw [hpicture, hpicture', hpanel]
  exact ⟨o, o', hdrawn, hdrawn', hsent, count_of_bytes hdrawn hdrawn' hsent⟩

end Byter
