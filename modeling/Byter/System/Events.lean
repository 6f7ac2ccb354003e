import Byter.Sketch.Eeprom
import Byter.Sketch.Steps

/-!
# The event flag

A `/clear` request is answered at once and carried out later: the handler sets
`event` to `1`, and `loop` clears the count when it gets to the test of the flag.
The same flag stands for an accepted `/set`, and `loop` resets it after the two
seconds for which the message of either event is shown. A clear is therefore
lost in two ways: a `/set` overwrites the flag before `loop` gets to it, or the
request comes while `loop` is about to reset the flag for an earlier event. If
neither happens, every acknowledged clear is carried out.
-/

namespace Byter

open Transition

variable {ε : Type*}

/-- An acknowledged clear has not been carried out yet. -/
def Pending (tr : List (Step (Sys ε) Act Out)) : Prop :=
  ∃ pre q post, tr = pre ++ q :: post ∧ q.act = .http .clear ∧ ∀ y ∈ post, .cleared ∉ y.out

theorem not_pending_nil : ¬ Pending ([] : List (Step (Sys ε) Act Out)) := by
  rintro ⟨pre, q, post, h, -, -⟩
  simp at h

theorem pending_snoc {tr : List (Step (Sys ε) Act Out)} {st : Step (Sys ε) Act Out}
    (h : Pending (tr ++ [st])) :
    st.act = .http .clear ∨ (Pending tr ∧ .cleared ∉ st.out) := by
  obtain ⟨pre, q, post, htr, hq, hpost⟩ := h
  rcases snoc_eq_append_cons htr with ⟨rfl, rfl, rfl⟩ | ⟨post', rfl, rfl⟩
  · exact Or.inl hq
  · refine Or.inr ⟨⟨pre, q, post', rfl, hq, ?_⟩, hpost st (by simp)⟩
    intro y hy
    exact hpost y (List.mem_append_left _ hy)

/-- No step takes `event` away from `1` while an acknowledged clear has not been
carried out. -/
def ClearKept (tr : List (Step (Sys ε) Act Out)) : Prop :=
  Along (fun pre st => st.src.mem.event = 1 → st.dst.mem.event ≠ 1 → ¬ Pending pre) tr

/-- A request that comes at a good time: no `/set` is accepted while a clear is
pending, and no `/clear` comes while the message of an earlier event is shown. -/
structure InTurn (E : Esp ε) (pre : List (Step (Sys ε) Act Out)) (st : Step (Sys ε) Act Out) :
    Prop where
  set : st.act.setsTo E ≠ none → ¬ Pending pre
  clear : st.act = .http .clear →
    st.src.pc ≠ .displayText .eventClear ∧ st.src.pc ≠ .displayText .manualSetCnt

/-- The flag stands for a clear that `loop` will still get to. -/
structure Waiting (s : Sys ε) : Prop where
  event : s.mem.event = 1
  eventClear : s.pc ≠ .displayText .eventClear
  manualSetCnt : s.pc ≠ .displayText .manualSetCnt
  event2 : s.pc ≠ .event2

/-! ## Steps while a clear waits -/

/-- In `loop` the flag is changed only by the two resets, which a clear that waits
is not before; and `loop` does not pass the test of the flag without clearing. -/
theorem LoopMove.waiting {E : Esp ε} {s : Sys ε} {m : Mem ε} {pc : Pc Pos} {o : List Out}
    (h : LoopMove E .read57 s.mem s.pc m pc o) (hs : Waiting s) :
    m.event = 1 ∧ (.cleared ∉ o → Waiting { s with mem := m, pc := pc }) := by
  have hevent := hs.event
  have hmoved : m.event = 1 → pc ≠ .displayText .eventClear → pc ≠ .displayText .manualSetCnt →
      pc ≠ .event2 → m.event = 1 ∧ (.cleared ∉ o → Waiting { s with mem := m, pc := pc }) :=
    fun hm hclear hset hevent2 => ⟨hm, fun _ => ⟨hm, hclear, hset, hevent2⟩⟩
  cases h with
  | call src latch dst mem out | skip src latch dst mem out | again src dst mem out =>
      subst mem dst
      exact hmoved hevent (by simp) (by simp) (by simp)
  | clear src event dst mem out =>
      subst mem out
      exact ⟨hevent, fun hout => absurd (by simp) hout⟩
  | noClear src event dst mem out => exact absurd hevent event
  | set src event dst mem out => exact absurd src hs.event2
  | noSet src event dst mem out => exact absurd src hs.event2
  | shown c src dst mem out =>
      rcases dst with ⟨rfl, hsame, -⟩ | ⟨-, -, rfl⟩ | ⟨-, -, rfl⟩
      · exact hmoved (hsame.trans hevent) (by simp) (by simp) (by simp)
      · exact absurd src hs.eventClear
      · exact absurd src hs.manualSetCnt

theorem ButtonMove.waiting {s : Sys ε} {m : Mem ε} {pc : Pc Pos} {o : List Out}
    (h : ButtonMove s.mem m pc o) (hs : Waiting s) : Waiting { s with mem := m, pc := pc } := by
  have hevent := h.event.trans hs.event
  rcases h.dst with rfl | ⟨c, rfl, hclear, hset⟩
  · exact ⟨hevent, by simp, by simp, by simp⟩
  · exact ⟨hevent, by simpa using hclear, by simpa using hset, by simp⟩

theorem handle_waiting {E : Esp ε} {s : Sys ε} (hs : Waiting s) {q : Request}
    (hset : (Act.http q).setsTo E = none) : Waiting { s with mem := (handle E s.mem q).1 } := by
  obtain ⟨hevent, hclear, hset', hevent2⟩ := hs
  refine ⟨?_, hclear, hset', hevent2⟩
  cases handle_cases E s.mem q with
  | root noSet mem => simpa [mem, readCnt] using hevent
  | clear noSet mem => simp [mem]
  | set n act mem =>
      rw [hset] at act
      exact absurd act (by simp)
  | refused noSet mem => simpa [mem] using hevent

/-- A clear goes on waiting through every step that neither carries it out nor
accepts a `/set`. -/
theorem waiting_step {E : Esp ε} {s s' : Sys ε} {a : Act} {o : List Out}
    (h : step E s a = some (s', o)) (hs : Waiting s) (hset : a.setsTo E = none)
    (hout : .cleared ∉ o) : Waiting s' := by
  cases moves_of_step h with
  | drained hpc hrx => exact ⟨hs.event, by simp, by simp, by simp⟩
  | read p q hpc hrx hnext => exact ⟨hs.event, by simp, by simp, by simp⟩
  | frame p f hpc hrx hnext => exact ⟨by simp [hs.event], by simp, by simp, by simp⟩
  | main m pc o hmain => exact ((loopStep_cases hmain).waiting hs).2 hout
  | sample curState millis m pc o hpc hsample => exact (sampleButton_cases hsample).waiting hs
  | rx b => exact ⟨hs.event, hs.eventClear, hs.manualSetCnt, hs.event2⟩
  | http q hpc => exact handle_waiting hs hset
  | ticker hpc => exact ⟨hs.event, hs.eventClear, hs.manualSetCnt, hs.event2⟩

/-- While a clear waits, only a `/set` changes the flag. -/
theorem event_stays {E : Esp ε} {s s' : Sys ε} {a : Act} {o : List Out}
    (h : step E s a = some (s', o)) (hs : Waiting s) (hset : a.setsTo E = none) :
    s'.mem.event = 1 := by
  by_cases hout : .cleared ∈ o
  · cases moves_of_step h with
    | main m pc o hmain => exact ((loopStep_cases hmain).waiting hs).1
    | sample curState millis m pc o hpc hsample =>
        exact ((sampleButton_cases hsample).waiting hs).event
    | _ => simp at hout
  · exact (waiting_step h hs hset hout).event

/-- A clear that comes in turn waits. -/
theorem waiting_of_clear {E : Esp ε} {s s' : Sys ε} {o : List Out}
    (h : step E s (.http .clear) = some (s', o)) (hclear : s.pc ≠ .displayText .eventClear)
    (hset : s.pc ≠ .displayText .manualSetCnt) : Waiting s' := by
  cases moves_of_step h with
  | http q hpc =>
      refine ⟨rfl, hclear, hset, ?_⟩
      intro hpc'
      dsimp only at hpc'
      simp [hpc', inDelay] at hpc

variable {E : Esp ε} {e : ε} {rx : List UInt8} {s : Sys ε} {tr : List (Step (Sys ε) Act Out)}

/-- Only an accepted `/set` takes the flag away from a clear that waits. -/
theorem pending_waiting (hrun : Run (sketch E) (boot E e rx) tr s)
    (hturn : Along (InTurn E) tr) : Pending tr → Waiting s := by
  refine hrun.invariant (I := fun tr s => Pending tr → Waiting s) ?_ ?_ hturn
  · exact fun h => absurd h not_pending_nil
  · intro tr s a o s' _ ih hst hstep hpending
    rcases pending_snoc hpending with hclear | ⟨hbefore, hout⟩
    · obtain ⟨hpc, hpc'⟩ := hst.clear hclear
      dsimp only at hclear hpc hpc'
      subst hclear
      exact waiting_of_clear hstep hpc hpc'
    · have hset : a.setsTo E = none := by
        by_contra hset
        exact hst.set hset hbefore
      exact waiting_step hstep (ih hbefore) hset hout

/-- No acknowledged clear is lost in a run from boot in which every request
comes in turn. -/
theorem clear_kept (hrun : Run (sketch E) (boot E e rx) tr s)
    (hturn : Along (InTurn E) tr) : ClearKept tr := by
  rintro pre st post rfl - hchange hpending
  obtain ⟨hpre, hstep, -⟩ := hrun.split
  obtain ⟨hbefore, hnow⟩ := hturn.at
  have hwaiting := pending_waiting hpre hbefore hpending
  have hset : st.act.setsTo E = none := by
    by_contra hset
    exact hnow.set hset hpending
  exact hchange (event_stays hstep hwaiting hset)

/-- WiFi is turned on, and a clear is asked for at the end of the loop. -/
def askForClear : List Act :=
  [.cpu, .cpu, .sample .high 0, .cpu, .cpu, .cpu, .cpu, .cpu, .sample .low 2000, .cpu, .cpu, .cpu,
    .http .clear, .cpu, .cpu, .cpu, .sample .low 5000, .cpu]

theorem clear_kept_once :
    ∃ tr s, Run (sketch esp) (boot esp (stored 7) []) tr s ∧
      decide (s.mem.event = 0 ∧ s.mem.cnt = 0) = true ∧ ClearKept tr := by
  obtain ⟨tr, s, hrun, hs⟩ :=
    Machine.exists_run_of_exec (sketch esp) (boot esp (stored 7) []) (askForClear ++ [.cpu])
      (fun tr s => decide ((s.mem.event = 0 ∧ s.mem.cnt = 0) ∧
        ∀ st ∈ tr, st.act.setsTo esp = none ∧ (st.act = .http .clear →
          st.src.pc ≠ .displayText .eventClear ∧ st.src.pc ≠ .displayText .manualSetCnt)))
      (by decide)
  obtain ⟨hend, hsteps⟩ := of_decide_eq_true hs
  refine ⟨tr, s, hrun, decide_eq_true hend, clear_kept hrun ?_⟩
  rintro pre st post rfl
  obtain ⟨hset, hclear⟩ := hsteps st (by simp)
  exact ⟨fun h => absurd hset h, hclear⟩

/-- A clear that is asked for while "Cleared !" is shown is acknowledged and
forgotten. -/
theorem clear_forgotten :
    ¬ ∀ (e : Eeprom) (rx : List UInt8) (tr : List (Step (Sys Eeprom) Act Out)) (s : Sys Eeprom),
      Run (sketch esp) (boot esp e rx) tr s → ClearKept tr := by
  intro h
  obtain ⟨pre, st, t, hrun, hst⟩ :=
    Machine.exists_last_of_exec (sketch esp) (boot esp (stored 7) [])
      (askForClear ++ [.http .clear, .cpu])
      (fun pre st => decide ((st.src.mem.event = 1 ∧ st.dst.mem.event ≠ 1) ∧
        (pre.getLast?.any fun q => decide (q.act = .http .clear)) = true)) (by decide)
  obtain ⟨⟨hevent, hchange⟩, hlast⟩ := of_decide_eq_true hst
  refine h _ _ _ t hrun pre st [] rfl hevent hchange ?_
  rcases List.eq_nil_or_concat pre with rfl | ⟨pre', q, rfl⟩
  · simp at hlast
  · exact ⟨pre', q, [], by simp, by simpa using hlast, by simp⟩

end Byter
