import Byter.Scanner.Basic
import Byter.Sketch.Frame

/-!
# The reads of `rw`

`rw` is a chain of nested `Serial.read()` calls. `Pos` names the read that comes
next, with the values read so far in this frame, and `Pos.next` is what the code
does with the result of that read. A read yields a byte, or `-1` when no byte is
there. The read at `read57` is the one of the outer loop, behind the test of
`Serial.available()`; all others follow a `delay(1)`.

`rw` itself is given for the case that nothing arrives while it runs: the reads
are then the bytes that are available, followed by the reads that find nothing
until the outer loop is reached again.
-/

namespace Byter

/-- The eight values `v1..v8` of a frame. -/
structure Report where
  v1 : Int
  v2 : Int
  v3 : Int
  v4 : Int
  v5 : Int
  v6 : Int
  v7 : Int
  v8 : Int
deriving DecidableEq, Repr

namespace Report

/-- The six values that count as keys. -/
def slots (f : Report) : Slots := ⟨f.v3, f.v4, f.v5, f.v6, f.v7, f.v8⟩

def toList (f : Report) : List Int :=
  [f.v1, f.v2, f.v3, f.v4, f.v5, f.v6, f.v7, f.v8]

end Report

/-- Which read of `rw` is next, with its local variables so far. -/
inductive Pos
  | read57
  | readAB
  | read83
  | read0C
  | read12
  | read01
  | readV1
  | readV2 (v1 : Int)
  | readV3 (v1 v2 : Int)
  | readV4 (v1 v2 v3 : Int)
  | readV5 (v1 v2 v3 v4 : Int)
  | readV6 (v1 v2 v3 v4 v5 : Int)
  | readV7 (v1 v2 v3 v4 v5 v6 : Int)
  | readV8 (v1 v2 v3 v4 v5 v6 v7 : Int)
deriving DecidableEq, Repr

namespace Pos

/-- What a read leads to: the next read, and a report when it was the last of
the eight values. -/
def next : Pos → Int → Pos × Option Report
  | read57, r => (if r = 0x57 then readAB else read57, none)
  | readAB, r => (if r = 0xAB then read83 else read57, none)
  | read83, r => (if r = 0x83 then read0C else read57, none)
  | read0C, r => (if r = 0x0C then read12 else read57, none)
  | read12, r => (if r = 0x12 then read01 else read57, none)
  | read01, r => (if r = 0x01 then readV1 else read57, none)
  | readV1, v1 => (readV2 v1, none)
  | readV2 v1, v2 => (readV3 v1 v2, none)
  | readV3 v1 v2, v3 => (readV4 v1 v2 v3, none)
  | readV4 v1 v2 v3, v4 => (readV5 v1 v2 v3 v4, none)
  | readV5 v1 v2 v3 v4, v5 => (readV6 v1 v2 v3 v4 v5, none)
  | readV6 v1 v2 v3 v4 v5, v6 => (readV7 v1 v2 v3 v4 v5 v6, none)
  | readV7 v1 v2 v3 v4 v5 v6, v7 => (readV8 v1 v2 v3 v4 v5 v6 v7, none)
  | readV8 v1 v2 v3 v4 v5 v6 v7, v8 => (read57, some ⟨v1, v2, v3, v4, v5, v6, v7, v8⟩)

/-- How many reads that find nothing lead back to the outer loop. -/
def timeouts : Pos → ℕ
  | read57 => 0
  | readAB | read83 | read0C | read12 | read01 => 1
  | readV1 => 8
  | readV2 .. => 7
  | readV3 .. => 6
  | readV4 .. => 5
  | readV5 .. => 4
  | readV6 .. => 3
  | readV7 .. => 2
  | readV8 .. => 1

end Pos

/-- The reads of `rw` as a scanner. -/
def parser : Scanner Pos Int Report := ⟨Pos.next⟩

@[simp] theorem parser_next (p : Pos) (r : Int) : parser.next p r = p.next r := rfl

/-- A byte as `Serial.read()` returns it. -/
def byteRead (b : UInt8) : Int := b.toNat

/-- `Serial.read()` on the receive buffer. -/
def serialRead : List UInt8 → Int × List UInt8
  | [] => (-1, [])
  | b :: rx => (byteRead b, rx)

/-- The reads of `rw` from the position `p` until it leaves its loop, when
exactly the bytes `rx` are available. -/
def reads (p : Pos) (rx : List UInt8) : List Int :=
  rx.map byteRead ++
    List.replicate (parser.dest p (rx.map byteRead)).timeouts (-1)

/-- The reports `rw` acts on, when exactly the bytes `rx` are available. -/
def acted (rx : List UInt8) : List Report := parser.scan .read57 (reads .read57 rx)

variable {ε : Type*}

/-- Acting on reports, in order. -/
def actAll (fs : List Report) (m : Mem ε) : Mem ε :=
  fs.foldl (fun m f => keyFrame f.slots m) m

/-- `rw` on the bytes that are available, with what it leaves in the buffer. -/
def rw (rx : List UInt8) (m : Mem ε) : Mem ε × List UInt8 :=
  if m.isOverflow then (m, rx) else (actAll (acted rx) m, [])

theorem actAll_append (fs gs : List Report) (m : Mem ε) :
    actAll (fs ++ gs) m = actAll gs (actAll fs m) := by
  simp [actAll]

@[simp] theorem actAll_nil (m : Mem ε) : actAll [] m = m := rfl

@[simp] theorem actAll_cons (f : Report) (fs : List Report) (m : Mem ε) :
    actAll (f :: fs) m = actAll fs (keyFrame f.slots m) := rfl

end Byter
