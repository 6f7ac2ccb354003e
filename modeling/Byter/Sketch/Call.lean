import Byter.Sketch.Loop

/-!
# A call of `rw` as a run

When nothing else happens while `rw` runs, the steps of the machine from the
call of `rw` to the sampling of the button come to an end, and what they do is
the function `rw`: the machine acts on the same reports in the same order and
leaves the same memory and the same buffer.
-/

namespace Byter

open Transition

variable {ε : Type*}

/-- The sketch gets from `s` to `s'` on its own, acting on the reports `fs`. -/
def Alone (E : Esp ε) (s : Sys ε) (fs : List Report) (s' : Sys ε) : Prop :=
  ∃ tr, Run (sketch E) s tr s' ∧ (∀ st ∈ tr, st.act = .cpu) ∧ outputs tr = fs.map Out.frame

theorem Alone.trans {E : Esp ε} {s s' s'' : Sys ε} {fs gs : List Report}
    (h : Alone E s fs s') (h' : Alone E s' gs s'') : Alone E s (fs ++ gs) s'' := by
  obtain ⟨tr, hrun, hcpu, hout⟩ := h
  obtain ⟨tr', hrun', hcpu', hout'⟩ := h'
  refine ⟨tr ++ tr', hrun.append hrun', ?_, by rw [outputs_append, hout, hout', List.map_append]⟩
  intro st hst
  rcases List.mem_append.1 hst with hst | hst
  · exact hcpu st hst
  · exact hcpu' st hst

theorem Alone.of_step {E : Esp ε} {s s' : Sys ε} {fs : List Report}
    (h : step E s .cpu = some (s', fs.map Out.frame)) : Alone E s fs s' := by
  have hstep : (sketch E).step s .cpu = some (s', fs.map Out.frame) := h
  exact ⟨_, Run.single hstep, by simp, by simp⟩

/-- One read. -/
theorem step_read (E : Esp ε) (m : Mem ε) {rx : List UInt8} {p : Pos}
    (h : ¬(p = .read57 ∧ rx = [])) :
    step E ⟨m, rx, .rw p⟩ .cpu =
      some (⟨actAll (p.next (serialRead rx).1).2.toList m, (serialRead rx).2,
        .rw (p.next (serialRead rx).1).1⟩, (p.next (serialRead rx).1).2.toList.map Out.frame) := by
  simp only [step, rwStep, if_neg h]
  cases p.next (serialRead rx).1 with
  | mk q k => cases k <;> rfl

theorem reads_step {rx : List UInt8} {p : Pos} (h : ¬(p = .read57 ∧ rx = [])) :
    reads p rx =
      (serialRead rx).1 :: reads (p.next (serialRead rx).1).1 (serialRead rx).2 := by
  cases rx with
  | nil =>
      cases p
      case read57 => simp at h
      all_goals rfl
  | cons b rx => rfl

/-- From any position `rw` reads the bytes that are there, and then -1 as often
as it takes to reach its outer loop again. -/
theorem alone_reads (E : Esp ε) (m : Mem ε) (rx : List UInt8) (p : Pos) :
    Alone E ⟨m, rx, .rw p⟩ (parser.scan p (reads p rx))
      ⟨actAll (parser.scan p (reads p rx)) m, [], .rw .read57⟩ := by
  -- every read leaves one read less
  generalize hlen : (reads p rx).length = n
  induction n generalizing m rx p with
  | zero =>
      have hnil := List.eq_nil_of_length_eq_zero hlen
      obtain ⟨hrx, hp⟩ := List.append_eq_nil_iff.1 hnil
      obtain rfl : rx = [] := by simpa using hrx
      have hread : p = .read57 := by cases p <;> simp [Pos.timeouts] at hp ⊢
      subst hread
      exact ⟨[], Run.nil, by simp, rfl⟩
  | succ n ih =>
      have hne : ¬(p = .read57 ∧ rx = []) := by
        rintro ⟨rfl, rfl⟩
        simp [reads, Pos.timeouts] at hlen
      rw [reads_step hne] at hlen ⊢
      have hfirst := Alone.of_step (step_read E m hne)
      have hrest := ih (actAll (p.next (serialRead rx).1).2.toList m) (serialRead rx).2
        (p.next (serialRead rx).1).1 (by simpa using hlen)
      have hall := hfirst.trans hrest
      rwa [← actAll_append] at hall

/-- A call of `rw` ends, and does what the function `rw` says. -/
theorem alone_rw (E : Esp ε) (m : Mem ε) (rx : List UInt8) :
    Alone E ⟨m, rx, .loop⟩ (if m.isOverflow then [] else acted rx)
      ⟨(rw rx m).1, (rw rx m).2, .button⟩ := by
  by_cases hlatch : m.isOverflow = true
  · rw [if_pos hlatch, rw, if_pos hlatch]
    exact Alone.of_step (by simp [step, loopStep, hlatch])
  · have hcall : Alone E ⟨m, rx, .loop⟩ [] ⟨m, rx, .rw .read57⟩ :=
      Alone.of_step (by simp [step, loopStep, hlatch])
    have hend : ∀ m : Mem ε, Alone E ⟨m, [], .rw .read57⟩ [] ⟨m, [], .button⟩ :=
      fun m => Alone.of_step (by simp [step, rwStep])
    have hall := (hcall.trans (alone_reads E m rx .read57)).trans (hend _)
    rw [if_neg hlatch, rw, if_neg hlatch]
    simpa [acted] using hall

end Byter
