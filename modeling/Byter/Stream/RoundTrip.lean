import Byter.Stream.Frame

/-!
# Reading back a stream of frames

`rw` reads fourteen bytes of a frame and leaves the sequence number and the
checksum to its outer loop. There a `57` starts a match: if it is the checksum,
or the sequence number followed by a checksum `AB`, the match swallows the `57`
of the next frame and that frame is not seen. These are the only trailing bytes
that do harm, and they always do: what is read instead of the next frame is
never that frame, and no later frame can make up for it, since a frame's sixteen
bytes complete at most one header.
-/

namespace Byter

namespace Frame

/-- The checksum byte holds the checksum. -/
def Checked (f : Frame) : Prop := f.chk = f.checksum

instance (f : Frame) : Decidable f.Checked := inferInstanceAs (Decidable (_ = _))

/-- The trailing bytes of the frame swallow the `57` of the next frame. -/
def Swallows (f : Frame) : Prop :=
  (f.seq ≠ 0x57 ∧ f.chk = 0x57) ∨ (f.seq = 0x57 ∧ f.chk = 0xAB)

instance (f : Frame) : Decidable f.Swallows := inferInstanceAs (Decidable (_ ∨ _))

/-- A frame as `rw` reads it. -/
def reads (f : Frame) : List Int := header ++ f.body.map byteRead

end Frame

/-- The reports made by the reads that find nothing, until the outer loop is
reached again. -/
def flush (p : Pos) : List Report := parser.scan p (List.replicate p.timeouts (-1))

/-- The reports made from the position `p` on a stream of frames, to its end. -/
def actedFrom : Pos → List Frame → List Report
  | p, [] => flush p
  | p, f :: fs => parser.scan p f.reads ++ actedFrom (parser.dest p f.reads) fs

theorem actedFrom_eq (p : Pos) (fs : List Frame) :
    actedFrom p fs = parser.scan p (readAll fs) ++ flush (parser.dest p (readAll fs)) := by
  induction fs generalizing p with
  | nil => simp [actedFrom]
  | cons f fs ih =>
      rw [actedFrom, ih, readAll_cons, Scanner.scan_append, Scanner.dest_append, List.append_assoc]
      rfl

theorem acted_encodeAll (fs : List Frame) : acted (encodeAll fs) = actedFrom .read57 fs := by
  rw [actedFrom_eq, acted, Byter.reads, Scanner.scan_append]
  rfl

/-! ## A frame read from the outer loop -/

theorem scan_complete (f : Report) : parser.scan .read57 (header ++ f.toList) = [f] := rfl

theorem dest_complete (f : Report) : parser.dest .read57 (header ++ f.toList) = .read57 := rfl

theorem Frame.reads_eq (f : Frame) :
    f.reads = (header ++ f.report.toList) ++ [byteRead f.seq, byteRead f.chk] := rfl

theorem scan_reads (f : Frame) : parser.scan .read57 f.reads = [f.report] := by
  rw [f.reads_eq, Scanner.scan_append, scan_complete, dest_complete, scan_short (by simp)]
  rfl

theorem dest_reads (f : Frame) :
    parser.dest .read57 f.reads = parser.dest .read57 [byteRead f.seq, byteRead f.chk] := by
  rw [f.reads_eq, Scanner.dest_append, dest_complete]

theorem dest_trailing (s c : Int) :
    parser.dest .read57 [s, c] =
      if s = 0x57 then (if c = 0xAB then .read83 else .read57)
      else (if c = 0x57 then .readAB else .read57) := by
  simp only [Scanner.dest_cons, Scanner.dest_nil, parser_next, Pos.next]
  by_cases hs : s = 0x57
  · simp [hs]
  · simp [hs]

theorem Frame.swallows_iff (f : Frame) :
    f.Swallows ↔ (byteRead f.seq ≠ 0x57 ∧ byteRead f.chk = 0x57) ∨
      (byteRead f.seq = 0x57 ∧ byteRead f.chk = 0xAB) := by
  have hseq : byteRead f.seq = 0x57 ↔ f.seq = 0x57 := byteRead_eq_iff f.seq 0x57 (by decide)
  have hchk : byteRead f.chk = 0x57 ↔ f.chk = 0x57 := byteRead_eq_iff f.chk 0x57 (by decide)
  have hchk' : byteRead f.chk = 0xAB ↔ f.chk = 0xAB := byteRead_eq_iff f.chk 0xAB (by decide)
  rw [Frame.Swallows, Ne, Ne, hseq, hchk, hchk']

/-- The trailing bytes lead back to the outer loop unless they swallow. -/
theorem dest_reads_of_not_swallows {f : Frame} (h : ¬ f.Swallows) :
    parser.dest .read57 f.reads = .read57 := by
  rw [f.swallows_iff, not_or, not_and, not_and] at h
  rw [dest_reads, dest_trailing]
  split
  next hseq => exact if_neg (h.2 hseq)
  next hseq => exact if_neg (h.1 hseq)

/-- Where trailing bytes that swallow lead to: a match that the `57` of the next
frame will break. -/
theorem dest_reads_of_swallows {f : Frame} (h : f.Swallows) :
    parser.dest .read57 f.reads = .readAB ∨ parser.dest .read57 f.reads = .read83 := by
  rw [f.swallows_iff] at h
  rw [dest_reads, dest_trailing]
  rcases h with ⟨hseq, hchk⟩ | ⟨hseq, hchk⟩
  · rw [if_neg hseq, if_pos hchk]
    exact Or.inl rfl
  · rw [if_pos hseq, if_pos hchk]
    exact Or.inr rfl

theorem flush_trailing (s c : Int) : flush (parser.dest .read57 [s, c]) = [] := by
  rw [dest_trailing]
  split_ifs <;> rfl

/-- A stream in which no frame but the last swallows is read as it was sent. -/
theorem actedFrom_of_not_swallows {fs : List Frame} (h : ∀ f ∈ fs.dropLast, ¬ f.Swallows) :
    actedFrom .read57 fs = fs.map Frame.report := by
  induction fs with
  | nil => rfl
  | cons f fs ih =>
      rw [actedFrom, scan_reads]
      cases fs with
      | nil =>
          rw [actedFrom, dest_reads, flush_trailing]
          rfl
      | cons f' fs =>
          rw [dest_reads_of_not_swallows (h f (by simp)),
            ih (fun x hx => h x (by simp [hx]))]
          rfl

/-! ## How many reports a stream of frames can yield -/

/-- Whether a whole header has been read. -/
def Pos.armed : Pos → ℕ
  | .read57 | .readAB | .read83 | .read0C | .read12 | .read01 => 0
  | _ => 1

theorem Pos.armed_le (p : Pos) : p.armed ≤ 1 := by
  cases p <;> simp [Pos.armed]

/-- A read after a whole header: it completes the frame, or is kept with what
was read before. -/
theorem armed_next {p : Pos} (hp : p.armed = 1) (r : Int) :
    (p.timeouts = 1 ∧ ∃ f, p.next r = (.read57, some f)) ∨
      ∃ n q, p.timeouts = n + 2 ∧ p.next r = (q, none) ∧ q.armed = 1 ∧ q.timeouts = n + 1 ∧
        q.trail = p.trail ++ [r] := by
  cases p <;> simp [Pos.armed] at hp
  case readV8 => exact Or.inl ⟨rfl, _, rfl⟩
  all_goals exact Or.inr ⟨_, _, rfl, rfl, rfl, rfl, rfl⟩

/-- After a whole header, the reads that are still missing make a report,
whatever they are. -/
theorem scan_armed {p : Pos} (hp : p.armed = 1) {l : List Int} (hl : l.length = p.timeouts) :
    ∃ f, parser.scan p l = [f] ∧ parser.dest p l = .read57 ∧ header ++ f.toList = p.trail ++ l := by
  induction l generalizing p with
  | nil => cases p <;> simp [Pos.armed, Pos.timeouts] at hp hl
  | cons r l ih =>
      rcases armed_next hp r with ⟨ht, f, hnext⟩ | ⟨n, q, ht, hnext, hq, hqt, htrail⟩
      · have hnil : l = [] := by
          rw [ht, List.length_cons] at hl
          exact List.length_eq_zero_iff.1 (by omega)
        subst hnil
        exact ⟨f, by simp [hnext], by simp [hnext], Pos.trail_report (by rw [hnext])⟩
      · rw [List.length_cons] at hl
        obtain ⟨f, hscan, hdest, htoList⟩ := ih hq (by omega)
        refine ⟨f, by simp [hnext, hscan], by simp [hnext, hdest], ?_⟩
        rw [htoList, htrail, List.append_assoc, List.singleton_append]

theorem flush_length (p : Pos) : (flush p).length = p.armed := by
  cases p <;> rfl

/-- From a header match in progress, a frame's own header is not seen. -/
theorem frame_unarmed {p : Pos} (hp : p.armed = 0) (hne : p ≠ .read57) (f : Frame) :
    parser.scan p f.reads = [] ∧
      parser.dest p f.reads = parser.dest .read57 (f.body.map byteRead) := by
  have hshort := scan_short (l := f.body.map byteRead) (by simp [Frame.body])
  cases p <;> simp [Pos.armed] at hp hne <;>
  · rw [Frame.reads, Scanner.scan_append, Scanner.dest_append]
    exact ⟨by simpa [header, Pos.next] using hshort, by simp [header, Pos.next]⟩

/-- Without its first byte a frame makes no report. -/
theorem scan_drop (f : Frame) {t : ℕ} (ht : 1 ≤ t) :
    parser.scan .read57 (f.reads.drop t) = [] := by
  have hlen : f.reads.length = 16 := by simp [Frame.reads, header, Frame.body]
  have hbody := scan_short (l := f.body.map byteRead) (by simp [Frame.body])
  by_cases h3 : 3 ≤ t
  · exact scan_short (by rw [List.length_drop, hlen]; omega)
  · obtain rfl | rfl : t = 1 ∨ t = 2 := by omega
    · simpa [Frame.reads, header, Pos.next] using hbody
    · simpa [Frame.reads, header, Pos.next] using hbody

theorem timeouts_le (p : Pos) : p.timeouts ≤ 8 := by
  cases p <;> simp [Pos.timeouts]

theorem timeouts_pos {p : Pos} (hp : p.armed = 1) : 1 ≤ p.timeouts := by
  cases p <;> simp [Pos.armed, Pos.timeouts] at hp ⊢

/-- After a whole header, a frame completes one report with its first bytes, and
no other. -/
theorem frame_armed {p : Pos} (hp : p.armed = 1) (f : Frame) :
    ∃ g, parser.scan p f.reads = [g] ∧ header ++ g.toList = p.trail ++ f.reads.take p.timeouts := by
  have hlen : (f.reads.take p.timeouts).length = p.timeouts := by
    have := timeouts_le p
    simp [Frame.reads, header, Frame.body]
    omega
  obtain ⟨g, hscan, hdest, htoList⟩ := scan_armed hp hlen
  refine ⟨g, ?_, htoList⟩
  have hsplit := List.take_append_drop p.timeouts f.reads
  rw [← hsplit, Scanner.scan_append, hscan, hdest, scan_drop f (timeouts_pos hp)]
  rfl

/-- Sixteen bytes of a frame complete at most one header. -/
theorem frame_length (p : Pos) (f : Frame) :
    (parser.scan p f.reads).length + (parser.dest p f.reads).armed ≤ 1 + p.armed := by
  have harmed := (parser.dest p f.reads).armed_le
  by_cases hp : p.armed = 0
  · by_cases hread : p = .read57
    · subst hread
      have htrailing : (parser.dest .read57 [byteRead f.seq, byteRead f.chk]).armed = 0 := by
        rw [dest_trailing]
        split_ifs <;> rfl
      rw [scan_reads, dest_reads, htrailing]
      simp
    · rw [(frame_unarmed hp hread f).1]
      simpa using by omega
  · have hp1 : p.armed = 1 := by
      have := p.armed_le
      omega
    obtain ⟨g, hscan, -⟩ := frame_armed hp1 f
    rw [hscan, hp1]
    simpa using by omega

/-- No more reports than frames, but for a header already read. -/
theorem actedFrom_length (p : Pos) (fs : List Frame) :
    (actedFrom p fs).length ≤ fs.length + p.armed := by
  induction fs generalizing p with
  | nil => simp [actedFrom, flush_length]
  | cons f fs ih =>
      have hframe := frame_length p f
      have hrest := ih (parser.dest p f.reads)
      rw [actedFrom, List.length_append, List.length_cons]
      omega

/-! ## A frame that is swallowed -/

theorem byteRead_lt (b : UInt8) : byteRead b < 256 := by
  have := b.toNat_lt
  unfold byteRead
  omega

theorem Frame.Checked.sum_mod {f : Frame} (h : f.Checked) :
    byteRead f.chk = (1 + byteRead f.m + byteRead f.r + byteRead f.k1 + byteRead f.k2 +
      byteRead f.k3 + byteRead f.k4 + byteRead f.k5 + byteRead f.k6 + byteRead f.seq) % 256 := by
  rw [Frame.Checked] at h
  rw [h]
  simp [byteRead, Frame.checksum]

/-- A frame that ends too early is acted on with `v8 = -1`. -/
theorem flush_armed {p : Pos} (hp : p.armed = 1) : ∃ f, flush p = [f] ∧ f.v8 = -1 := by
  cases p <;> simp [Pos.armed] at hp
  all_goals exact ⟨_, rfl, rfl⟩

/-- Where the bytes of a swallowed frame lead, its last bytes are what has been
read. -/
theorem trail_body (f : Frame) :
    let q := parser.dest .read57 (f.body.map byteRead)
    q.trail = (f.body.map byteRead).drop (10 - q.trail.length) := by
  have hsuffix := parserTrail.trail_dest .read57 (f.body.map byteRead)
  have hdrop := List.suffix_iff_eq_drop.1 hsuffix
  simpa [parserTrail, Pos.trail, Frame.body] using hdrop

/-- No checked frame is at once what its own last bytes and the next frame's
first bytes are read as. The header would have to lie in it at two places, or,
where these agree, the checksum would have to be twice the sequence number plus
an odd number. -/
theorem not_read_and_sent {q : Pos} {f f' : Frame} (hf : f.Checked) (hq : q.armed = 1)
    (hbody : q.trail = (f.body.map byteRead).drop (10 - q.trail.length))
    (hsent : header ++ f.report.toList = q.trail ++ f'.reads.take q.timeouts) : False := by
  have hsum := hf.sum_mod
  have hchk := byteRead_lt f.chk
  have hseq := byteRead_nonneg f.seq
  cases q <;> simp [Pos.armed] at hq
  -- too much of the frame would have been read behind the header
  case readV6 | readV7 | readV8 => simp [Pos.trail, header, Frame.body] at hbody
  all_goals
    simp only [Pos.trail, header, Frame.body, List.cons_append, List.nil_append, List.map_cons,
      List.map_nil, List.length_cons, List.length_nil, List.drop_succ_cons, List.drop_zero,
      Nat.reduceAdd, Nat.reduceSub, List.cons.injEq] at hbody
    simp [Pos.trail, Pos.timeouts, header, Frame.body, Report.toList, Frame.report,
      Frame.reads] at hsent
    omega

/-- A frame whose `57` was swallowed is not acted on as it was sent. -/
theorem actedFrom_swallowed {p : Pos} (hp : p = .readAB ∨ p = .read83) {f : Frame}
    (hf : f.Checked) (fs : List Frame) :
    actedFrom p (f :: fs) ≠ (f :: fs).map Frame.report := by
  intro heq
  have hpos : p.armed = 0 ∧ p ≠ .read57 := by
    rcases hp with rfl | rfl <;> decide
  obtain ⟨hscan, hdest⟩ := frame_unarmed hpos.1 hpos.2 f
  have hbody := trail_body f
  rw [actedFrom, hscan, hdest, List.nil_append, List.map_cons] at heq
  generalize parser.dest .read57 (f.body.map byteRead) = q at heq hbody
  have hq : q.armed = 1 := by
    have hlen := actedFrom_length q fs
    have hle := q.armed_le
    rw [heq, List.length_cons, List.length_map] at hlen
    omega
  -- so the header was read in the frame, and what follows it is the report
  cases fs with
  | nil =>
      obtain ⟨g, hflush, hv8⟩ := flush_armed hq
      rw [actedFrom, hflush, List.map_nil, List.cons.injEq] at heq
      have hnonneg := byteRead_nonneg f.k6
      have hk6 : byteRead f.k6 = -1 := by rw [← hv8, heq.1, Frame.report]
      omega
  | cons f' fs =>
      obtain ⟨g, hscan', htoList⟩ := frame_armed hq f'
      rw [actedFrom, hscan', List.singleton_append, List.cons.injEq] at heq
      rw [heq.1] at htoList
      exact not_read_and_sent hf hq hbody htoList

theorem not_swallows_of_actedFrom {fs : List Frame} (hchk : ∀ f ∈ fs, f.Checked)
    (heq : actedFrom .read57 fs = fs.map Frame.report) :
    ∀ f ∈ fs.dropLast, ¬ f.Swallows := by
  induction fs with
  | nil => simp
  | cons f fs ih =>
      cases fs with
      | nil => simp
      | cons f' fs =>
          rw [actedFrom, scan_reads, List.map_cons, List.singleton_append,
            List.cons.injEq] at heq
          have hrest := heq.2
          have hf : ¬ f.Swallows := fun h =>
            actedFrom_swallowed (dest_reads_of_swallows h) (hchk f' (by simp)) fs hrest
          rw [dest_reads_of_not_swallows hf] at hrest
          intro x hx
          rw [List.dropLast_cons_cons, List.mem_cons] at hx
          rcases hx with rfl | hx
          · exact hf
          · exact ih (fun x hx => hchk x (List.mem_cons_of_mem _ hx)) hrest x hx

variable {ε : Type*}

/-- A stream of checked frames is read as it was sent if and only if no frame
but the last swallows the start of its successor. -/
theorem rw_roundtrip_iff (m : Mem ε) (hlatch : m.isOverflow = false) (fs : List Frame)
    (hchk : ∀ f ∈ fs, f.Checked) :
    (acted (encodeAll fs) = fs.map Frame.report ∧
      rw (encodeAll fs) m = (actAll (fs.map Frame.report) m, [])) ↔
    ∀ f ∈ fs.dropLast, ¬ f.Swallows := by
  constructor
  · rintro ⟨hacted, -⟩
    rw [acted_encodeAll] at hacted
    exact not_swallows_of_actedFrom hchk hacted
  · intro h
    have hacted : acted (encodeAll fs) = fs.map Frame.report := by
      rw [acted_encodeAll, actedFrom_of_not_swallows h]
    exact ⟨hacted, by simp [rw, hlatch, hacted]⟩

theorem rw_roundtrip_iff_ordinary :
    acted (encodeAll [pressFrame, releaseFrame]) = [pressFrame, releaseFrame].map Frame.report :=
  ((rw_roundtrip_iff ram rfl [pressFrame, releaseFrame] (by decide)).2 (by decide)).1

/-- A key goes down in a frame whose checksum is `57`, and the frame in which it
comes up again is lost: the key is never counted. -/
theorem frame_after_checksum_lost :
    let fs : List Frame :=
      [⟨0, 0, 4, 0, 0, 0, 0, 0, 0x52, 0x57⟩, ⟨0, 0, 0, 0, 0, 0, 0, 0, 0x53, 0x54⟩]
    (∀ f ∈ fs, f.Checked) ∧ (actAll (fs.map Frame.report) ram).isOverflow = false ∧
      (actAll (fs.map Frame.report) ram).cnt = 1 ∧ (rw (encodeAll fs) ram).1.cnt = 0 := by
  decide

end Byter
