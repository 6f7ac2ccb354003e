import Mathlib.Data.List.ReduceOption
import Byter.Sketch.Eeprom
import Byter.Sketch.Steps
import Byter.Stream.RoundTrip

/-!
# What `rw` acts on

Bytes arrive whenever they like, and a read that comes too early finds none. The
reads of a run are kept here as a list of options, `none` for a read that found
nothing: the bytes among them are what has left the receive buffer, and the
position of `rw` is a trail of them. So everything that `rw` does to the count
and to the remembered slots goes back to a whole header in the stream, with the
bytes of the frame right behind it. The sequence number and the checksum have no
part in it.
-/

namespace Byter

open Transition

variable {ε : Type*}

/-- The result of a read. -/
def readResult : Option UInt8 → Int
  | none => -1
  | some b => byteRead b

theorem serialRead_eq (rx : List UInt8) :
    ∃ c : Option UInt8, (serialRead rx).1 = readResult c ∧ rx = c.toList ++ (serialRead rx).2 := by
  cases rx with
  | nil => exact ⟨none, rfl, rfl⟩
  | cons b rx => exact ⟨some b, rfl, rfl⟩

/-- What has been read of the current frame at a point of `loop`. -/
def Pc.trail : Pc Pos → List Int
  | .rw p => p.trail
  | _ => []

/-- `reads` are the reads that took the stream `rx` to the state `s`. -/
structure Consumed (rx : List UInt8) (s : Sys ε) (reads : List (Option UInt8)) : Prop where
  stream : rx = reads.reduceOption ++ s.rx
  trail : s.pc.trail <:+ reads.map readResult

/-! ## Steps that read nothing -/

theorem LoopMove.trail {E : Esp ε} {m m' : Mem ε} {pc pc' : Pc Pos} {o : List Out}
    (h : LoopMove E .read57 m pc m' pc' o) : pc'.trail = [] := by
  cases h with
  | shown c src dst mem out =>
      rcases dst with ⟨rfl, -⟩ | ⟨rfl, -⟩ | ⟨rfl, -⟩
      · rfl
      · rfl
      · rfl
  | call src latch dst mem out | skip src latch dst mem out | clear src event dst mem out
  | noClear src event dst mem out | set src event dst mem out | noSet src event dst mem out
  | again src dst mem out =>
      rw [dst]
      rfl

theorem ButtonMove.trail {m m' : Mem ε} {pc' : Pc Pos} {o : List Out}
    (h : ButtonMove m m' pc' o) : pc'.trail = [] := by
  rcases h.dst with hdst | ⟨c, hdst, -⟩
  · rw [hdst]
    rfl
  · rw [hdst]
    rfl

/-! ## The reads of a run -/

theorem Consumed.read {rx : List UInt8} {s : Sys ε} {reads : List (Option UInt8)} {p q : Pos}
    {k : Option Report} (h : Consumed rx s reads) (hpc : s.pc = .rw p)
    (hnext : p.next (serialRead s.rx).1 = (q, k)) (m : Mem ε) :
    ∃ c, (serialRead s.rx).1 = readResult c ∧
      Consumed rx ⟨m, (serialRead s.rx).2, .rw q⟩ (reads ++ [c]) := by
  obtain ⟨c, hc, hrx⟩ := serialRead_eq s.rx
  have htrail := h.trail
  rw [hpc] at htrail
  have hq : q.trail <:+ p.trail ++ [readResult c] := by
    have := Pos.trail_next p (serialRead s.rx).1
    rwa [hnext, hc] at this
  refine ⟨c, hc, ?_, ?_⟩
  · have hone : [c].reduceOption = c.toList := by cases c <;> rfl
    rw [h.stream, List.reduceOption_append, List.append_assoc, hone, ← hrx]
  · rw [List.map_append]
    exact hq.trans (List.suffix_append_self_iff.2 htrail)

end Byter
