import Byter.System.Events
import Byter.Transition.Potential

/-!
# How long an iteration of `loop` can take

Only `rw` has a loop of its own, and only bytes keep it going: a frame that breaks off
behind its header takes fourteen reads for six bytes. So what `loop` does is bounded by the
bytes that come in and by the number of its iterations, whatever the requests, the ticker and the
button do meanwhile. A clear that waits is carried out in that time.
-/

namespace Byter

open Transition

variable {ε : Type*}

/-! ## What is counted -/

/-- A byte that comes in. -/
def Act.ofLine : Act → ℕ
  | .rx _ => 1
  | _ => 0

/-- The step with which `loop` begins again. -/
def newIteration (st : Step (Sys ε) Act Out) : ℕ :=
  if st.src.pc = .loopEnd ∧ st.act = .cpu then 1 else 0

/-- How many bytes have come in. -/
def received (tr : List (Step (Sys ε) Act Out)) : ℕ := tally (fun st => st.act.ofLine) tr

namespace Pos

/-- Three for each read that may still follow without another byte. A byte of the header
leaves four of its seven to the reads behind the header. -/
def effort : Pos → ℕ
  | read57 => 0
  | readAB => 4
  | read83 => 8
  | read0C => 12
  | read12 => 16
  | read01 => 20
  | readV1 => 24
  | readV2 .. => 21
  | readV3 .. => 18
  | readV4 .. => 15
  | readV5 .. => 12
  | readV6 .. => 9
  | readV7 .. => 6
  | readV8 .. => 3

end Pos

/-- Three for each step that may still follow in an iteration without another byte. -/
def Pc.effort (event : ℤ) : Pc Pos → ℕ
  | .loop => 24
  | .rw p => 21 + p.effort
  | .button => 18
  | .displayText .eventClear => 9
  | .displayText .manualSetCnt => 6
  | .displayText _ => 15
  | .event1 => 12
  | .event2 => if event = 2 then 9 else 6
  | .loopEnd => 3

def Sys.effort (s : Sys ε) : ℕ := s.pc.effort s.mem.event + 7 * s.rx.length

theorem LoopMove.effort {E : Esp ε} {s : Sys ε} {m : Mem ε} {pc : Pc Pos} {o : List Out}
    (h : LoopMove E .read57 s.mem s.pc m pc o) :
    pc.effort m.event + 3 ≤
      s.pc.effort s.mem.event + 24 * newIteration ⟨s, .cpu, o, { s with mem := m, pc := pc }⟩ := by
  have hpays : pc.effort m.event + 3 ≤ s.pc.effort s.mem.event → pc.effort m.event + 3 ≤
      s.pc.effort s.mem.event + 24 * newIteration ⟨s, .cpu, o, { s with mem := m, pc := pc }⟩ :=
    fun h => h.trans (Nat.le_add_right _ _)
  cases h with
  | call src latch dst mem out => exact hpays (by simp [src, dst, Pc.effort, Pos.effort])
  | skip src latch dst mem out => exact hpays (by simp [src, dst, Pc.effort])
  | clear src event dst mem out => exact hpays (by simp [src, dst, Pc.effort])
  | noClear src event dst mem out =>
      refine hpays ?_
      rw [src, dst]
      simp only [Pc.effort]
      split <;> omega
  | set src event dst mem out => exact hpays (by simp [src, dst, Pc.effort, event])
  | noSet src event dst mem out => exact hpays (by simp [src, dst, Pc.effort, event])
  | shown c src dst mem out =>
      refine hpays ?_
      rcases dst with ⟨hdst, -, hclear, hset⟩ | ⟨hdst, hzero, rfl⟩ | ⟨hdst, -, rfl⟩
      · rw [src, hdst]
        cases c with
        | eventClear => exact absurd rfl hclear
        | manualSetCnt => exact absurd rfl hset
        | _ => simp [Pc.effort]
      · simp [src, hdst, Pc.effort, hzero]
      · simp [src, hdst, Pc.effort]
  | again src dst mem out => simp [src, dst, Pc.effort, newIteration]

theorem ButtonMove.effort {m m' : Mem ε} {pc : Pc Pos} {o : List Out}
    (h : ButtonMove m m' pc o) (event : ℤ) : pc.effort event ≤ 15 := by
  rcases h.dst with rfl | ⟨c, rfl, hclear, hset⟩
  · simp [Pc.effort]
  · cases c with
    | eventClear => exact absurd rfl hclear
    | manualSetCnt => exact absurd rfl hset
    | _ => simp [Pc.effort]

variable {E : Esp ε} {e : ε} {rx : List UInt8} {s₀ s : Sys ε}
  {tr : List (Step (Sys ε) Act Out)}

/-- Three for each step that `loop` may still take, without another byte, before it clears. -/
def Pc.untilClear : Pc Pos → ℕ
  | .loop => 15
  | .rw p => 12 + p.effort
  | .button => 9
  | .displayText _ => 6
  | .event1 => 3
  | .event2 => 0
  | .loopEnd => 18

def Sys.untilClear (s : Sys ε) : ℕ := s.pc.untilClear + 7 * s.rx.length

theorem LoopMove.untilClear {E : Esp ε} {s : Sys ε} {m : Mem ε} {pc : Pc Pos} {o : List Out}
    (h : LoopMove E .read57 s.mem s.pc m pc o) (hs : Waiting s) (hout : .cleared ∉ o) :
    pc.untilClear + 3 ≤ s.pc.untilClear := by
  cases h with
  | call src latch dst mem out => simp [src, dst, Pc.untilClear, Pos.effort]
  | skip src latch dst mem out => simp [src, dst, Pc.untilClear]
  | clear src event dst mem out => simp [out] at hout
  | noClear src event dst mem out => exact absurd hs.event event
  | set src event dst mem out => exact absurd src hs.event2
  | noSet src event dst mem out => exact absurd src hs.event2
  | shown c src dst mem out =>
      rcases dst with ⟨hdst, -⟩ | ⟨-, -, rfl⟩ | ⟨-, -, rfl⟩
      · simp [src, hdst, Pc.untilClear]
      · exact absurd src hs.eventClear
      · exact absurd src hs.manualSetCnt
  | again src dst mem out => simp [src, dst, Pc.untilClear]

end Byter
