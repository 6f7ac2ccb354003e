import Byter.Stream.Frame

/-!
# Resynchronisation after garbage

When `57` occurs in no frame but as its first byte, a whole frame brings the
reads of `rw` back to the outer loop from wherever garbage has left them: a
header match in progress breaks at the `57`, and a frame in progress is complete
before the next `57`. From then on every frame is read as it was sent. The
remembered slots still bear the marks of the garbage, until a frame with no key
down sets them all to zero.
-/

namespace Byter

/-- `57` occurs in the frame only as its first byte. -/
def Frame.Clean (f : Frame) : Prop := ∀ b ∈ f.bytes.tail, b ≠ 0x57

instance (f : Frame) : Decidable f.Clean :=
  List.decidableBAll (fun b => b ≠ 0x57) f.bytes.tail

theorem Frame.Clean.body_ne {f : Frame} (h : f.Clean) : ∀ b ∈ f.body, byteRead b ≠ 0x57 := by
  intro b hb heq
  have hmem : b ∈ f.bytes.tail := by
    simp only [Frame.bytes, List.cons_append, List.tail_cons, List.nil_append, List.mem_cons]
    exact Or.inr (Or.inr (Or.inr (Or.inr (Or.inr hb))))
  exact h b hmem ((byteRead_eq_iff b 0x57 (by decide)).1 heq)

/-- From the outer loop, a clean frame is read as it was sent. -/
theorem scan_clean {f : Frame} (h : f.Clean) :
    parser.scan .read57 (header ++ f.body.map byteRead) = [f.report] := by
  have hseq : byteRead f.seq ≠ 0x57 := h.body_ne _ (by simp [Frame.body])
  have hchk : byteRead f.chk ≠ 0x57 := h.body_ne _ (by simp [Frame.body])
  simp [header, Frame.body, Pos.next, hseq, hchk, Frame.report]

/-- From any position, a clean frame leads back to the outer loop. -/
theorem dest_clean {f : Frame} (h : f.Clean) (p : Pos) :
    parser.dest p (header ++ f.body.map byteRead) = .read57 := by
  have hbody := h.body_ne
  simp only [Frame.body, List.forall_mem_cons, List.not_mem_nil, false_implies, implies_true,
    and_true] at hbody
  obtain ⟨hm, hr, h1, h2, h3, h4, h5, h6, hs, hc⟩ := hbody
  cases p <;> simp [header, Frame.body, Pos.next, hm, hr, h1, h2, h3, h4, h5, h6, hs, hc]

theorem dest_readAll {f : Frame} {fs : List Frame} (h : ∀ x ∈ f :: fs, x.Clean) (p : Pos) :
    parser.dest p (readAll (f :: fs)) = .read57 := by
  induction fs generalizing f p with
  | nil => simpa [readAll_cons] using dest_clean (h f (by simp)) p
  | cons f' fs ih =>
      rw [readAll_cons, Scanner.dest_append, dest_clean (h f (by simp))]
      exact ih (fun x hx => h x (List.mem_cons_of_mem _ hx)) .read57

theorem scan_readAll {fs : List Frame} (h : ∀ f ∈ fs, f.Clean) :
    parser.scan .read57 (readAll fs) = fs.map Frame.report := by
  induction fs with
  | nil => rfl
  | cons f fs ih =>
      have hf := h f (by simp)
      rw [readAll_cons, Scanner.scan_append, scan_clean hf, dest_clean hf,
        ih (fun x hx => h x (List.mem_cons_of_mem _ hx))]
      rfl

/-- After any bytes and one clean frame, all further clean frames are acted on
as they were sent. -/
theorem acted_append_clean (g : List UInt8) {f : Frame} {fs : List Frame}
    (h : ∀ x ∈ f :: fs, x.Clean) :
    acted (g ++ encodeAll (f :: fs)) = acted (g ++ encodeAll [f]) ++ fs.map Frame.report := by
  have hf : ∀ x ∈ [f], x.Clean := fun x hx => h x (by simp at hx; simp [hx])
  have hend : ∀ l : List Frame, (∀ x ∈ f :: l, x.Clean) →
      parser.dest .read57 ((g ++ encodeAll (f :: l)).map byteRead) = .read57 := by
    intro l hl
    rw [List.map_append, Scanner.dest_append]
    exact dest_readAll hl _
  have hsplit : (encodeAll (f :: fs)).map byteRead = readAll [f] ++ readAll fs := by
    simp [readAll, encodeAll]
  simp only [acted, reads, hend fs h, hend [] hf, Pos.timeouts, List.replicate_zero,
    List.append_nil]
  rw [List.map_append, hsplit, ← List.append_assoc, Scanner.scan_append, Scanner.dest_append,
    dest_readAll hf, scan_readAll (fun x hx => h x (List.mem_cons_of_mem _ hx)), List.map_append]
  rfl

theorem acted_clean {fs : List Frame} (h : ∀ f ∈ fs, f.Clean) :
    acted (encodeAll fs) = fs.map Frame.report := by
  cases fs with
  | nil => rfl
  | cons f fs =>
      have hend := dest_readAll h .read57
      rw [readAll] at hend
      simp only [acted, reads, hend, Pos.timeouts, List.replicate_zero, List.append_nil]
      exact scan_readAll h

variable {ε : Type*}

/-- A frame with no key down clears the remembered slots. -/
theorem remember_zero (last : Slots) : remember last .zero = .zero := by
  have hslot : ∀ l : Int, (slotUpdate l 0).1 = 0 := by
    intro l
    rw [slotUpdate, if_neg (by rintro ⟨hmin, -⟩; exact absurd hmin (by decide))]
    split
    next => rfl
    next h =>
      simpa using h
  simp [remember, Slots.zero, hslot]

/-- Acting on the same reports from the same remembered slots leads to the same
remembered slots. -/
theorem actAll_last_congr (fs : List Report) {m m' : Mem ε} (h : m.last = m'.last) :
    (actAll fs m).last = (actAll fs m').last := by
  induction fs generalizing m m' with
  | nil => exact h
  | cons f fs ih => exact ih (by simp [h])

/-- Garbage followed by clean frames: `rw` acts on every frame from the second
one on as it was sent. Once it has acted on one of these with no key down, the
remembered slots are all zero, and from there on each frame finds and leaves the
remembered slots, and changes the count, as in the run without the garbage. -/
theorem rw_resynchronises (m : Mem ε) (hlatch : m.isOverflow = false) (g : List UInt8)
    (f₀ : Frame) (fs : List Frame) (hclean : ∀ f ∈ f₀ :: fs, f.Clean) :
    let early := acted (g ++ encodeAll [f₀])
    acted (g ++ encodeAll (f₀ :: fs)) = early ++ fs.map Frame.report ∧
      rw (g ++ encodeAll (f₀ :: fs)) m = (actAll (early ++ fs.map Frame.report) m, []) ∧
      rw (encodeAll (f₀ :: fs)) m = (actAll ((f₀ :: fs).map Frame.report) m, []) ∧
      ∀ as z bs, fs = as ++ z :: bs → z.report.slots = .zero →
        (actAll (early ++ (as ++ [z]).map Frame.report) m).last = .zero ∧
        ∀ cs f ds, bs = cs ++ f :: ds →
          let with_g := actAll (early ++ (as ++ z :: cs).map Frame.report) m
          let without := actAll ((f₀ :: (as ++ z :: cs)).map Frame.report) m
          with_g.last = without.last ∧
          (keyFrame f.report.slots with_g).last = (keyFrame f.report.slots without).last ∧
          (keyFrame f.report.slots with_g).cnt - with_g.cnt =
            (keyFrame f.report.slots without).cnt - without.cnt := by
  refine ⟨acted_append_clean g hclean, ?_, ?_, ?_⟩
  · simp [rw, hlatch, acted_append_clean g hclean]
  · simp [rw, hlatch, acted_clean hclean]
  · rintro as z bs - hz
    have hhealed : ∀ l : List Report,
        (actAll (l ++ (as ++ [z]).map Frame.report) m).last = .zero := by
      intro l
      rw [List.map_append, ← List.append_assoc, actAll_append]
      simp [hz, remember_zero]
    refine ⟨hhealed _, ?_⟩
    intro cs f ds _
    have hsplit : ∀ l : List Report, l ++ (as ++ z :: cs).map Frame.report =
        (l ++ (as ++ [z]).map Frame.report) ++ cs.map Frame.report := by
      simp
    have hlast : ∀ l l' : List Report, (actAll (l ++ (as ++ z :: cs).map Frame.report) m).last =
        (actAll (l' ++ (as ++ z :: cs).map Frame.report) m).last := by
      intro l l'
      rw [hsplit l, hsplit l', actAll_append (l ++ _), actAll_append (l' ++ _)]
      exact actAll_last_congr _ ((hhealed l).trans (hhealed l').symm)
    have hlast' := hlast (acted (g ++ encodeAll [f₀])) [f₀.report]
    rw [List.singleton_append, ← List.map_cons] at hlast'
    dsimp only
    refine ⟨hlast', by rw [keyFrame_last, keyFrame_last, hlast'], ?_⟩
    rw [keyFrame_cnt, keyFrame_cnt, hlast']
    grind

theorem rw_resynchronises_fragment :
    acted ([0x57, 0xAB, 0x83, 0x0C, 0x12, 0x01, 0x00] ++
        encodeAll [pressFrame, releaseFrame, pressFrame]) =
      acted ([0x57, 0xAB, 0x83, 0x0C, 0x12, 0x01, 0x00] ++ encodeAll [pressFrame]) ++
        [releaseFrame, pressFrame].map Frame.report :=
  (rw_resynchronises ram rfl [0x57, 0xAB, 0x83, 0x0C, 0x12, 0x01, 0x00] pressFrame
    [releaseFrame, pressFrame] (by decide)).1

end Byter
