import Byter.Sketch.Parser

/-!
# Frames in the byte stream

A key frame of the keyboard chip is the header `57 AB 83 0C 12 01`, two bytes
that are not keys, six key bytes, a sequence number and a checksum. `rw` reads
the first fourteen bytes of it. The trail of a read is what has been read of the
current frame, so that whatever `rw` acts on was preceded by a whole header.
-/

namespace Byter

/-- The bytes that `rw` looks for. -/
def header : List Int := [0x57, 0xAB, 0x83, 0x0C, 0x12, 0x01]

namespace Pos

/-- What has been read of the current frame. -/
def trail : Pos → List Int
  | read57 => []
  | readAB => [0x57]
  | read83 => [0x57, 0xAB]
  | read0C => [0x57, 0xAB, 0x83]
  | read12 => [0x57, 0xAB, 0x83, 0x0C]
  | read01 => [0x57, 0xAB, 0x83, 0x0C, 0x12]
  | readV1 => header
  | readV2 v1 => header ++ [v1]
  | readV3 v1 v2 => header ++ [v1, v2]
  | readV4 v1 v2 v3 => header ++ [v1, v2, v3]
  | readV5 v1 v2 v3 v4 => header ++ [v1, v2, v3, v4]
  | readV6 v1 v2 v3 v4 v5 => header ++ [v1, v2, v3, v4, v5]
  | readV7 v1 v2 v3 v4 v5 v6 => header ++ [v1, v2, v3, v4, v5, v6]
  | readV8 v1 v2 v3 v4 v5 v6 v7 => header ++ [v1, v2, v3, v4, v5, v6, v7]

theorem trail_next (p : Pos) (r : Int) : (p.next r).1.trail <:+ p.trail ++ [r] := by
  cases p <;> simp only [next]
  case read57 | readAB | read83 | read0C | read12 | read01 =>
    split
    next h => simp [h, trail, header]
    next => simp [trail]
  all_goals simp [trail, header]

theorem trail_report {p : Pos} {r : Int} {f : Report} (h : (p.next r).2 = some f) :
    header ++ f.toList = p.trail ++ [r] := by
  cases p <;> simp [next] at h
  subst h
  simp [trail, header, Report.toList]

end Pos

/-- The trail of the reads of `rw`. -/
def parserTrail : parser.Trail where
  trail := Pos.trail
  closed f := header ++ f.toList
  suffix := Pos.trail_next
  reports _ _ _ h := Pos.trail_report h

/-- Fewer than fourteen reads from the outer loop on do not make a report. -/
theorem scan_short {l : List Int} (h : l.length < 14) : parser.scan .read57 l = [] :=
  parserTrail.scan_eq_nil_of_short (n := 14) (fun f => by simp [parserTrail, header, Report.toList])
    (by simpa [parserTrail, Pos.trail] using h)

/-- The ten bytes of a frame that are not fixed. -/
structure Frame where
  m : UInt8
  r : UInt8
  k1 : UInt8
  k2 : UInt8
  k3 : UInt8
  k4 : UInt8
  k5 : UInt8
  k6 : UInt8
  seq : UInt8
  chk : UInt8
deriving DecidableEq, Repr

namespace Frame

/-- The bytes of a frame that are not fixed, in their order. -/
def body (f : Frame) : List UInt8 :=
  [f.m, f.r, f.k1, f.k2, f.k3, f.k4, f.k5, f.k6, f.seq, f.chk]

/-- The sixteen bytes of a frame. -/
def bytes (f : Frame) : List UInt8 := [0x57, 0xAB, 0x83, 0x0C, 0x12, 0x01] ++ f.body

/-- The sum that the checksum byte is to hold, from `01` through the sequence
number. -/
def checksum (f : Frame) : UInt8 :=
  0x01 + f.m + f.r + f.k1 + f.k2 + f.k3 + f.k4 + f.k5 + f.k6 + f.seq

/-- What `rw` is to read in the frame. -/
def report (f : Frame) : Report :=
  ⟨byteRead f.m, byteRead f.r, byteRead f.k1, byteRead f.k2, byteRead f.k3,
    byteRead f.k4, byteRead f.k5, byteRead f.k6⟩

end Frame

/-- The frame of one key down, the frame of no key down. -/
def pressFrame : Frame := ⟨0, 0, 4, 0, 0, 0, 0, 0, 0x12, 0x17⟩

def releaseFrame : Frame := ⟨0, 0, 0, 0, 0, 0, 0, 0, 0x13, 0x14⟩

/-- A stream of frames, one after the other. -/
def encodeAll (fs : List Frame) : List UInt8 := fs.flatMap Frame.bytes

/-- The same stream as `rw` reads it. -/
def readAll (fs : List Frame) : List Int := (encodeAll fs).map byteRead

@[simp] theorem readAll_nil : readAll [] = [] := rfl

theorem readAll_cons (f : Frame) (fs : List Frame) :
    readAll (f :: fs) = header ++ f.body.map byteRead ++ readAll fs := by
  simp [readAll, encodeAll, Frame.bytes, header, byteRead]

theorem byteRead_eq_iff (b : UInt8) (n : ℕ) (hn : n < 256) :
    byteRead b = n ↔ b = UInt8.ofNat n := by
  unfold byteRead
  rw [← UInt8.toNat_inj, UInt8.toNat_ofNat']
  omega

theorem byteRead_nonneg (b : UInt8) : 0 ≤ byteRead b := by
  simp [byteRead]

end Byter
