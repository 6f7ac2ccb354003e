import Byter.System.Ledger
import Byter.Transition.Simulation

/-!
# Frames as indivisible steps

A frame is read over thirteen `delay(1)`s, in each of which a handler or the
ticker may run. The machine `atomic` knows nothing of bytes: inside `rw` a whole
frame is applied in one step, and handlers run before it or after it. Every run
of the sketch is a run of `atomic` with the same outputs in the same order and
the same memory, because all that a frame keeps between two reads are local
variables of `rw`, which no handler sees.
-/

namespace Byter

open Transition

variable {ε : Type*} {π ρ : Type*}

/-- The same point of `loop`, with other places inside `rw`. -/
def Pc.map (g : π → ρ) : Pc π → Pc ρ
  | .loop => .loop
  | .rw p => .rw (g p)
  | .button => .button
  | .event1 => .event1
  | .event2 => .event2
  | .displayText c => .displayText c
  | .loopEnd => .loopEnd

/-- The state of the sketch without the receive buffer and the reads of `rw`. -/
structure AtomicSys (ε : Type*) where
  mem : Mem ε
  pc : Pc Unit

inductive AtomicAct
  | frame (f : Report)
  | cpu
  | sample (curState : Level) (millis : UInt32)
  | http (q : Request)
  | ticker
deriving DecidableEq, Repr

/-- Anywhere inside `rw` counts as a delay. -/
def atomicInDelay : Pc Unit → Bool
  | .rw _ => true
  | .displayText _ => true
  | .loopEnd => true
  | _ => false

def atomicStep (E : Esp ε) (s : AtomicSys ε) : AtomicAct → Option (AtomicSys ε × List Out)
  | .frame f =>
      if s.pc = .rw () then
        some ({ s with mem := keyFrame f.slots s.mem }, [.frame f])
      else
        none
  | .cpu =>
      match s.pc with
      | .rw _ => some ({ s with pc := .button }, [])
      | pc => (loopStep E () s.mem pc).map fun r => (⟨r.1, r.2.1⟩, r.2.2)
  | .sample curState millis =>
      if s.pc = .button then
        let r := sampleButton E curState millis s.mem
        some (⟨r.1, r.2.1⟩, r.2.2)
      else
        none
  | .http q =>
      if atomicInDelay s.pc then
        let r := handle E s.mem q
        some ({ s with mem := r.1 }, [.sent q r.2])
      else
        none
  | .ticker =>
      if atomicInDelay s.pc then
        let r := writeCnt E s.mem
        some ({ s with mem := r.2 }, [.wrote r.1])
      else
        none

def atomic (E : Esp ε) : Machine (AtomicSys ε) AtomicAct Out := ⟨atomicStep E⟩

def atomicBoot (E : Esp ε) (e : ε) : AtomicSys ε := ⟨setup E e, .loop⟩

/-- What the atomic view sees of a state of the sketch. -/
def Sys.atomic (s : Sys ε) : AtomicSys ε := ⟨s.mem, s.pc.map fun _ => ()⟩

/-! ## `loop` outside `rw` does not depend on the places inside it -/

theorem loopStep_map (E : Esp ε) (g : π → ρ) (entry : π) (m : Mem ε) (pc : Pc π) :
    loopStep E (g entry) m (pc.map g) =
      (loopStep E entry m pc).map fun r => (r.1, r.2.1.map g, r.2.2) := by
  cases pc with
  | loop => cases h : m.isOverflow <;> simp [loopStep, Pc.map, h]
  | rw p => rfl
  | button => rfl
  | event1 => by_cases h : m.event = 1 <;> simp [loopStep, Pc.map, h]
  | event2 => by_cases h : m.event = 2 <;> simp [loopStep, Pc.map, h]
  | displayText c => cases c <;> rfl
  | loopEnd => rfl

theorem sampleButton_map {E : Esp ε} (g : π → ρ) {curState : Level} {millis : UInt32}
    {m m' : Mem ε} {pc : Pc π} {o : List Out}
    (h : sampleButton E curState millis m = (m', pc, o)) :
    sampleButton E curState millis m = (m', pc.map g, o) := by
  have hmap : sampleButton E curState millis m =
      ((sampleButton (π := π) E curState millis m).1,
        (sampleButton E curState millis m).2.1.map g,
        (sampleButton (π := π) E curState millis m).2.2) := by
    unfold sampleButton
    dsimp only
    split_ifs <;> rfl
  rw [hmap, h]

/-! ## The refinement -/

theorem atomicInDelay_of_inDelay {pc : Pc Pos} (h : inDelay pc = true) :
    atomicInDelay (pc.map fun _ => ()) = true := by
  cases pc with
  | rw p => rfl
  | displayText c => rfl
  | loopEnd => rfl
  | loop | button | event1 | event2 => simp [inDelay] at h

/-- What a step of the sketch is in the atomic view: nothing for an arrival and
for a read that does not complete a frame, and the whole frame for the read of
its last key byte. -/
def atomicAct (st : Step (Sys ε) Act Out) : Option AtomicAct :=
  match st.act, st.src.pc with
  | .cpu, .rw _ =>
      match st.out, st.dst.pc with
      | [.frame f], _ => some (.frame f)
      | _, .rw _ => none
      | _, _ => some .cpu
  | .cpu, _ => some .cpu
  | .sample curState millis, _ => some (.sample curState millis)
  | .rx _, _ => none
  | .http q, _ => some (.http q)
  | .ticker, _ => some .ticker

/-- A step does nothing in the atomic view, or does there what it does in the
sketch. -/
theorem atomicAct_step {E : Esp ε} {s s' : Sys ε} {a : Act} {o : List Out}
    (h : step E s a = some (s', o)) :
    (atomicAct ⟨s, a, o, s'⟩ = none ∧ o = [] ∧ s'.atomic = s.atomic) ∨
      ∃ b, atomicAct ⟨s, a, o, s'⟩ = some b ∧ atomicStep E s.atomic b = some (s'.atomic, o) := by
  cases moves_of_step h with
  | drained hpc hrx =>
      refine Or.inr ⟨.cpu, ?_, ?_⟩
      · simp [atomicAct, hpc]
      · simp [atomicStep, Sys.atomic, Pc.map, hpc]
  | read p q hpc hrx hnext =>
      refine Or.inl ⟨?_, rfl, ?_⟩
      · simp [atomicAct, hpc]
      · simp [Sys.atomic, Pc.map, hpc]
  | frame p f hpc hrx hnext =>
      refine Or.inr ⟨.frame f, ?_, ?_⟩
      · simp [atomicAct, hpc]
      · simp [atomicStep, Sys.atomic, Pc.map, hpc]
  | main m pc o hmain =>
      have hmap := loopStep_map E (fun _ => ()) Pos.read57 s.mem s.pc
      rw [hmain] at hmap
      cases hpc : s.pc with
      | rw p => simp [hpc, loopStep] at hmain
      | _ =>
          refine Or.inr ⟨.cpu, by simp [atomicAct, hpc], ?_⟩
          rw [hpc] at hmap
          simp only [atomicStep, Sys.atomic, hpc, Pc.map] at hmap ⊢
          rw [hmap]
          rfl
  | sample curState millis m pc o hpc hsample =>
      have hmap := sampleButton_map (fun _ => ()) hsample
      refine Or.inr ⟨.sample curState millis, rfl, ?_⟩
      simp [atomicStep, Sys.atomic, Pc.map, hpc, hmap]
  | rx b => exact Or.inl ⟨rfl, rfl, rfl⟩
  | http q hpc =>
      have hdelay := atomicInDelay_of_inDelay hpc
      exact Or.inr ⟨.http q, rfl, by simp [atomicStep, Sys.atomic, hdelay]⟩
  | ticker hpc =>
      have hdelay := atomicInDelay_of_inDelay hpc
      exact Or.inr ⟨.ticker, rfl, by simp [atomicStep, Sys.atomic, hdelay]⟩

/-- The sketch, seen with indivisible frames. -/
def atomicView (E : Esp ε) : Abstraction (sketch E) (Byter.atomic E) where
  state := Sys.atomic
  act := atomicAct
  visible := by
    intro s a o s' b hstep hact
    rcases atomicAct_step hstep with ⟨hnone, -, -⟩ | ⟨b', hsome, hstep'⟩
    · rw [hnone] at hact
      cases hact
    · obtain rfl : b' = b := by simpa [hsome] using hact
      exact hstep'
  silent := by
    intro s a o s' hstep hact
    rcases atomicAct_step hstep with ⟨-, hout, hstate⟩ | ⟨b', hsome, -⟩
    · exact ⟨hout, hstate⟩
    · rw [hsome] at hact
      cases hact

/-- The step that acts on a frame is the one that reads its last key byte, and it
is the whole frame in the atomic view. -/
theorem atomicAct_frame {E : Esp ε} {s s' : Sys ε} {a : Act} {o : List Out} {f : Report}
    (h : step E s a = some (s', o)) (hf : .frame f ∈ o) :
    (∃ p, s.pc = .rw p ∧ p.next (serialRead s.rx).1 = (.read57, some f)) ∧
      atomicAct ⟨s, a, o, s'⟩ = some (.frame f) := by
  cases moves_of_step h with
  | frame p g hpc hrx hnext =>
      obtain rfl : f = g := by simpa using hf
      exact ⟨⟨p, hpc, hnext⟩, by simp [atomicAct, hpc]⟩
  | main m pc o hmain =>
      cases (loopStep_cases hmain).memStep with
      | clear out noFrame cnt last latch => exact absurd hf (noFrame f)
      | quiet noFrame noClear cnt last latch => exact absurd hf (noFrame f)
  | sample curState millis m pc o hpc hsample =>
      cases (sampleButton_cases hsample).mem with
      | clear out noFrame cnt last latch => exact absurd hf (noFrame f)
      | quiet noFrame noClear cnt last latch => exact absurd hf (noFrame f)
  | _ => simp at hf

variable {E : Esp ε} {e : ε} {rx : List UInt8} {s : Sys ε} {tr : List (Step (Sys ε) Act Out)}

/-- Every run of the sketch is, step by step, a run with indivisible frames:
each frame is applied at the step that reads its last key byte, the outputs are
the same in the same order, and so is the memory at the end. The count is the
ledger modulo `2^32`. -/
theorem interleaving_refines_atomic (hrun : Run (sketch E) (boot E e rx) tr s) :
    Run (Byter.atomic E) (atomicBoot E e) ((atomicView E).steps tr) s.atomic ∧
      outputs ((atomicView E).steps tr) = outputs tr ∧
      s.atomic.mem = s.mem ∧
      (∀ st ∈ tr, ∀ f, .frame f ∈ st.out →
        (∃ p, st.src.pc = .rw p ∧ p.next (serialRead st.src.rx).1 = (.read57, some f)) ∧
          (atomicView E).step st = some ⟨st.src.atomic, .frame f, st.out, st.dst.atomic⟩) ∧
      (s.mem.cnt.toNat : ℤ) ≡ (ledger E (.boot E e) tr).count [ZMOD 4294967296] := by
  have hatomic := (atomicView E).run hrun
  have hout := (atomicView E).outputs_steps hrun
  refine ⟨hatomic, hout, rfl, ?_, (cnt_modEq_ledger hrun).2⟩
  intro st hst f hf
  obtain ⟨pre, post, rfl⟩ := List.append_of_mem hst
  obtain ⟨hread, hact⟩ := atomicAct_frame hrun.split.2.1 hf
  refine ⟨hread, ?_⟩
  have hview : (atomicView E).act st = some (.frame f) := hact
  rw [Abstraction.step, hview]
  rfl

/-- A `/set` between two bytes of a frame. -/
theorem interleaving_refines_atomic_set :
    ∃ tr s, Run (sketch esp) (boot esp (stored 0) (encodeAll keystroke)) tr s ∧
      decide (s.mem.cnt = 13 ∧ s.mem.event = 2) = true ∧
      Run (Byter.atomic esp) (atomicBoot esp (stored 0)) ((atomicView esp).steps tr) s.atomic := by
  obtain ⟨tr, s, hrun, hset⟩ :=
    Machine.exists_run_of_exec (sketch esp) (boot esp (stored 0) (encodeAll keystroke))
      (List.replicate 10 .cpu ++ [.http (.set (some "12") (some "hack"))] ++
        List.replicate 22 .cpu)
      (fun _ s => decide (s.mem.cnt = 13 ∧ s.mem.event = 2)) (by decide)
  exact ⟨tr, s, hrun, hset, (interleaving_refines_atomic hrun).1⟩

end Byter
