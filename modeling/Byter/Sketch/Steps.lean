import Byter.Sketch.Loop

/-!
# What a step can do

`Moves` lists the steps of the machine by their kind; `LoopMove` does so for the
pieces of `loop` outside `rw` and `ButtonCase` for the branches of the button,
and `ButtonMove` says what these branches have in common. `CoreStep` says what any step of the
sketch does to the count, the remembered slots and the overflow latch. A step
acts on a frame, or carries out a clear, or handles an accepted `/set`, or leaves
count and slots alone; in the last case it may still redraw the count and so
raise the latch.
-/

namespace Byter

open Transition

variable {ε : Type*} {π : Type*}

/-- The value an accepted `/set` request stores in `cnt`. -/
def Act.setsTo (E : Esp ε) : Act → Option UInt32
  | .http (.set (some param1) (some param2)) =>
      if equals param2 "hack" then some (E.toInt param1).toUInt32 else none
  | _ => none

/-- What a step from `s` to `s'` with the action `a` and the outputs `o` does
to the count, the remembered slots and the latch. -/
inductive CoreStep (E : Esp ε) (s : Sys ε) (a : Act) (s' : Sys ε) (o : List Out) : Prop
  | frame (f : Report) (p : Pos) (src : s.pc = .rw p) (dst : s'.pc = .rw .read57)
      (act : a = .cpu) (out : o = [.frame f]) (mem : s'.mem = keyFrame f.slots s.mem)
  | clear (out : .cleared ∈ o) (noFrame : ∀ f, .frame f ∉ o) (noSet : a.setsTo E = none)
      (cnt : s'.mem.cnt = 0) (last : s'.mem.last = s.mem.last)
      (latch : s'.mem.isOverflow = s.mem.isOverflow)
  | set (n : UInt32) (act : a.setsTo E = some n) (noFrame : ∀ f, .frame f ∉ o)
      (noClear : .cleared ∉ o) (cnt : s'.mem.cnt = n) (last : s'.mem.last = s.mem.last)
      (latch : s'.mem.isOverflow = s.mem.isOverflow)
  | quiet (noFrame : ∀ f, .frame f ∉ o) (noClear : .cleared ∉ o) (noSet : a.setsTo E = none)
      (cnt : s'.mem.cnt = s.mem.cnt) (last : s'.mem.last = s.mem.last)
      (latch : s'.mem.isOverflow = s.mem.isOverflow ∨
        s'.mem.isOverflow = (s.mem.isOverflow || s.mem.cnt == maxCnt))

/-! ## The parts of a step -/

theorem next_some {p q : Pos} {r : Int} {f : Report} (h : p.next r = (q, some f)) :
    q = .read57 := by
  cases p <;> simp [Pos.next] at h
  exact h.1.symm

/-- The three things a read of `rw` can do. -/
theorem rwStep_cases (s : Sys ε) (p : Pos) :
    (p = .read57 ∧ s.rx = [] ∧ rwStep s p = ({ s with pc := .button }, [])) ∨
    (∃ q, ¬(p = .read57 ∧ s.rx = []) ∧ p.next (serialRead s.rx).1 = (q, none) ∧
      rwStep s p = ({ s with rx := (serialRead s.rx).2, pc := .rw q }, [])) ∨
    (∃ f, ¬(p = .read57 ∧ s.rx = []) ∧ p.next (serialRead s.rx).1 = (.read57, some f) ∧
      rwStep s p =
        ({ mem := keyFrame f.slots s.mem, rx := (serialRead s.rx).2, pc := .rw .read57 },
          [.frame f])) := by
  by_cases hempty : p = .read57 ∧ s.rx = []
  · exact Or.inl ⟨hempty.1, hempty.2, by simp [rwStep, hempty]⟩
  · cases hnext : p.next (serialRead s.rx).1 with
    | mk q o =>
        cases o with
        | none => exact Or.inr (Or.inl ⟨q, hempty, rfl, by simp [rwStep, hempty, hnext]⟩)
        | some f =>
            obtain rfl := next_some hnext
            exact Or.inr (Or.inr ⟨f, hempty, rfl, by simp [rwStep, hempty, hnext]⟩)

/-- The pieces of `loop` outside `rw` and the button: where each starts and
ends, when it is taken and what it does. -/
inductive LoopMove (E : Esp ε) (entry : π) (m : Mem ε) (pc : Pc π) (m' : Mem ε) (pc' : Pc π)
    (o : List Out) : Prop
  | call (src : pc = .loop) (latch : m.isOverflow = false) (dst : pc' = .rw entry)
      (mem : m' = m) (out : o = [])
  | skip (src : pc = .loop) (latch : m.isOverflow = true) (dst : pc' = .button)
      (mem : m' = m) (out : o = [])
  | clear (src : pc = .event1) (event : m.event = 1) (dst : pc' = .displayText .eventClear)
      (mem : m' = manualClearCnt E m) (out : o = [.cleared])
  | noClear (src : pc = .event1) (event : m.event ≠ 1) (dst : pc' = .event2)
      (mem : m' = m) (out : o = [])
  | set (src : pc = .event2) (event : m.event = 2) (dst : pc' = .displayText .manualSetCnt)
      (mem : m' = manualSetCnt m) (out : o = [])
  | noSet (src : pc = .event2) (event : m.event ≠ 2) (dst : pc' = .loopEnd)
      (mem : m' = m) (out : o = [])
  | shown (c : Caller) (src : pc = .displayText c)
      (dst : pc' = .event1 ∧ m'.event = m.event ∧ c ≠ .eventClear ∧ c ≠ .manualSetCnt ∨
        pc' = .event2 ∧ m'.event = 0 ∧ c = .eventClear ∨
        pc' = .loopEnd ∧ m'.event = 0 ∧ c = .manualSetCnt)
      (mem : m' = (resume (π := π) c m).1) (out : o = [])
  | again (src : pc = .loopEnd) (dst : pc' = .loop) (mem : m' = m) (out : o = [])

theorem loopStep_cases {E : Esp ε} {entry : π} {m m' : Mem ε} {pc pc' : Pc π} {o : List Out}
    (h : loopStep E entry m pc = some (m', pc', o)) : LoopMove E entry m pc m' pc' o := by
  cases pc with
  | loop =>
      cases hlatch : m.isOverflow with
      | false =>
          simp only [loopStep, hlatch] at h
          cases h
          exact .call rfl hlatch rfl rfl rfl
      | true =>
          simp only [loopStep, hlatch] at h
          cases h
          exact .skip rfl hlatch rfl rfl rfl
  | rw p => simp [loopStep] at h
  | button => simp [loopStep] at h
  | event1 =>
      simp only [loopStep] at h
      split at h
      next hevent =>
        cases h
        exact .clear rfl hevent rfl rfl rfl
      next hevent =>
        cases h
        exact .noClear rfl hevent rfl rfl rfl
  | event2 =>
      simp only [loopStep] at h
      split at h
      next hevent =>
        cases h
        exact .set rfl hevent rfl rfl rfl
      next hevent =>
        cases h
        exact .noSet rfl hevent rfl rfl rfl
  | displayText c =>
      simp only [loopStep, Option.some.injEq, Prod.mk.injEq] at h
      obtain ⟨rfl, rfl, rfl⟩ := h
      refine .shown c rfl ?_ rfl rfl
      cases c <;> simp [resume, turnOnLed, turnOffLed]
  | loopEnd =>
      cases h
      exact .again rfl rfl rfl rfl

/-- What the code outside `rw` and `/set` does to count, slots and latch. -/
inductive MemStep (m m' : Mem ε) (o : List Out) : Prop
  | clear (out : .cleared ∈ o) (noFrame : ∀ f, .frame f ∉ o) (cnt : m'.cnt = 0)
      (last : m'.last = m.last) (latch : m'.isOverflow = m.isOverflow)
  | quiet (noFrame : ∀ f, .frame f ∉ o) (noClear : .cleared ∉ o) (cnt : m'.cnt = m.cnt)
      (last : m'.last = m.last)
      (latch : m'.isOverflow = m.isOverflow ∨ m'.isOverflow = (m.isOverflow || m.cnt == maxCnt))

theorem MemStep.refl (m : Mem ε) : MemStep m m [] :=
  .quiet (by simp) (by simp) rfl rfl (Or.inl rfl)

theorem resume_mem (c : Caller) (m : Mem ε) : MemStep m (resume (π := π) c m).1 [] := by
  cases c <;> exact .quiet (by simp) (by simp) (by simp [resume, turnOnLed, turnOffLed])
    (by simp [resume, turnOnLed, turnOffLed])
    (Or.inr (by simp [resume, turnOnLed, turnOffLed]))

theorem LoopMove.memStep {E : Esp ε} {entry : π} {m m' : Mem ε} {pc pc' : Pc π} {o : List Out}
    (h : LoopMove E entry m pc m' pc' o) : MemStep m m' o := by
  cases h with
  | clear src event dst mem out =>
      rw [mem, out]
      exact .clear (by simp) (by simp) rfl rfl rfl
  | set src event dst mem out =>
      rw [mem, out]
      exact .quiet (by simp) (by simp) rfl rfl (Or.inl rfl)
  | shown c src dst mem out =>
      rw [mem, out]
      exact resume_mem c m
  | call src latch dst mem out | skip src latch dst mem out | noClear src event dst mem out
  | noSet src event dst mem out | again src dst mem out =>
      rw [mem, out]
      exact .refl m

/-- How long the button was down, when it comes up at `millis`. -/
def Mem.pressMillis (m : Mem ε) (millis : UInt32) : Int :=
  (millis - m.pressedMillis).toInt32.toInt

/-- The branches of the button part of `loop`. -/
inductive ButtonCase (E : Esp ε) (curState : Level) (millis : UInt32) (m : Mem ε) :
    Mem ε → Pc π → List Out → Prop
  | press (hlast : m.lastState = .low) (hcur : curState = .high) :
      ButtonCase E curState millis m
        { m with curState := curState, pressedMillis := millis, lastState := curState }
        .event1 []
  | level (hpress : ¬(m.lastState = .low ∧ curState = .high))
      (hrelease : ¬(m.lastState = .high ∧ curState = .low)) :
      ButtonCase E curState millis m { m with curState := curState, lastState := curState }
        .event1 []
  | save (hlast : m.lastState = .high) (hcur : curState = .low)
      (hms : m.pressMillis millis < 1000) :
      ButtonCase E curState millis m
        (manualWriteCnt E { m with curState := curState, releasedMillis := millis })
        (.displayText .manualWriteCnt)
        [.pressed (m.pressMillis millis), .wrote (writeCnt E m).1]
  | wifiOff (hlast : m.lastState = .high) (hcur : curState = .low)
      (hms : ¬ m.pressMillis millis < 1000 ∧ m.pressMillis millis < 10000)
      (hwifi : m.isWifiOn = true) :
      ButtonCase E curState millis m
        (disableWifi { m with curState := curState, releasedMillis := millis })
        (.displayText .disableWifi) [.pressed (m.pressMillis millis)]
  | wifiOn (hlast : m.lastState = .high) (hcur : curState = .low)
      (hms : ¬ m.pressMillis millis < 1000 ∧ m.pressMillis millis < 10000)
      (hwifi : ¬ m.isWifiOn = true) :
      ButtonCase E curState millis m
        (enableWifi { m with curState := curState, releasedMillis := millis })
        (.displayText .enableWifi) [.pressed (m.pressMillis millis)]
  | clear (hlast : m.lastState = .high) (hcur : curState = .low)
      (hms : ¬ m.pressMillis millis < 10000 ∧ m.pressMillis millis < 20000) :
      ButtonCase E curState millis m
        (manualClearCnt E { m with curState := curState, releasedMillis := millis })
        (.displayText .buttonClear) [.pressed (m.pressMillis millis), .cleared]
  | ignored (hlast : m.lastState = .high) (hcur : curState = .low)
      (hms : ¬ m.pressMillis millis < 20000) :
      ButtonCase E curState millis m
        { m with curState := curState, releasedMillis := millis, lastState := curState }
        .event1 [.pressed (m.pressMillis millis)]

theorem sampleButton_branch {E : Esp ε} {curState : Level} {millis : UInt32} {m m' : Mem ε}
    {pc' : Pc π} {o : List Out} (h : sampleButton E curState millis m = (m', pc', o)) :
    ButtonCase E curState millis m m' pc' o := by
  unfold sampleButton at h
  dsimp only at h
  split_ifs at h with hpress hrelease hshort hlong hwifi hlonger <;> cases h
  · exact .press hpress.1 hpress.2
  · exact .save hrelease.1 hrelease.2 hshort
  · exact .wifiOff hrelease.1 hrelease.2 ⟨hshort, hlong⟩ hwifi
  · exact .wifiOn hrelease.1 hrelease.2 ⟨hshort, hlong⟩ hwifi
  · exact .clear hrelease.1 hrelease.2 ⟨hlong, hlonger⟩
  · exact .ignored hrelease.1 hrelease.2 hlonger
  · exact .level hpress hrelease

/-- What a sampling of the button does, whatever it finds. -/
structure ButtonMove (m m' : Mem ε) (pc' : Pc π) (o : List Out) : Prop where
  mem : MemStep m m' o
  event : m'.event = m.event
  dst : pc' = .event1 ∨ ∃ c, pc' = .displayText c ∧ c ≠ .eventClear ∧ c ≠ .manualSetCnt

theorem sampleButton_cases {E : Esp ε} {curState : Level} {millis : UInt32} {m m' : Mem ε}
    {pc' : Pc π} {o : List Out} (h : sampleButton E curState millis m = (m', pc', o)) :
    ButtonMove m m' pc' o := by
  cases sampleButton_branch h with
  | press | level | ignored =>
      exact ⟨.quiet (by simp) (by simp) rfl rfl (Or.inl rfl), rfl, Or.inl rfl⟩
  | save | wifiOff | wifiOn =>
      exact ⟨.quiet (by simp) (by simp) rfl rfl (Or.inl rfl), rfl, Or.inr ⟨_, rfl, by simp⟩⟩
  | clear => exact ⟨.clear (by simp) (by simp) rfl rfl rfl, rfl, Or.inr ⟨_, rfl, by simp⟩⟩

theorem onSet_refused {E : Esp ε} {cnt hack : Option String} (m : Mem ε)
    (h : (Act.http (.set cnt hack)).setsTo E = none) :
    onSet E cnt hack m = (m, ⟨400, "invalid request"⟩) := by
  rcases cnt with _ | param1 <;> rcases hack with _ | param2
  · rfl
  · rfl
  · rfl
  · by_cases hhack : equals param2 "hack" = true
    · simp [Act.setsTo, hhack] at h
    · simp [onSet, hhack]

theorem onSet_accepted {E : Esp ε} {cnt hack : Option String} (m : Mem ε) {n : UInt32}
    (h : (Act.http (.set cnt hack)).setsTo E = some n) :
    (onSet E cnt hack m).1 = { m with cnt := n, event := 2 } := by
  rcases cnt with _ | param1 <;> rcases hack with _ | param2
  · simp [Act.setsTo] at h
  · simp [Act.setsTo] at h
  · simp [Act.setsTo] at h
  · by_cases hhack : equals param2 "hack" = true
    · simp only [Act.setsTo, hhack, if_true, Option.some.injEq] at h
      simp [onSet, hhack, h]
    · simp [Act.setsTo, hhack] at h

/-- What the handlers do to the memory: `GET /` opens and closes a session, `/clear`
raises the flag, and `/set` is accepted or refused. -/
inductive HandleCase (E : Esp ε) (m : Mem ε) (q : Request) (m' : Mem ε) : Prop
  | root (noSet : (Act.http q).setsTo E = none) (mem : m' = (readCnt E m).2)
  | clear (noSet : (Act.http q).setsTo E = none) (mem : m' = { m with event := 1 })
  | set (n : UInt32) (act : (Act.http q).setsTo E = some n)
      (mem : m' = { m with cnt := n, event := 2 })
  | refused (noSet : (Act.http q).setsTo E = none) (mem : m' = m)

theorem handle_cases (E : Esp ε) (m : Mem ε) (q : Request) :
    HandleCase E m q (handle E m q).1 := by
  cases q with
  | root => exact .root rfl rfl
  | clear => exact .clear rfl rfl
  | set cnt hack =>
      cases hset : (Act.http (.set cnt hack)).setsTo E with
      | none => exact .refused hset (by rw [handle, onSet_refused m hset])
      | some n => exact .set n hset (by rw [handle, onSet_accepted m hset])

/-- The handlers act on the count, the event flag and the EEPROM object. -/
theorem handle_eq (E : Esp ε) (m : Mem ε) (q : Request) :
    (handle E m q).1 =
      { m with
        cnt := (handle E m q).1.cnt
        event := (handle E m q).1.event
        eeprom := (handle E m q).1.eeprom } := by
  cases handle_cases E m q with
  | root noSet mem =>
      rw [mem]
      rfl
  | clear noSet mem | set n act mem | refused noSet mem => rw [mem]

/-! ## The parts put together -/

/-- The steps of the machine by their kind. -/
inductive Moves (E : Esp ε) (s : Sys ε) : Act → Sys ε → List Out → Prop
  | drained (hpc : s.pc = .rw .read57) (hrx : s.rx = []) :
      Moves E s .cpu { s with pc := .button } []
  | read (p q : Pos) (hpc : s.pc = .rw p) (hrx : ¬(p = .read57 ∧ s.rx = []))
      (hnext : p.next (serialRead s.rx).1 = (q, none)) :
      Moves E s .cpu { s with rx := (serialRead s.rx).2, pc := .rw q } []
  | frame (p : Pos) (f : Report) (hpc : s.pc = .rw p) (hrx : ¬(p = .read57 ∧ s.rx = []))
      (hnext : p.next (serialRead s.rx).1 = (.read57, some f)) :
      Moves E s .cpu ⟨keyFrame f.slots s.mem, (serialRead s.rx).2, .rw .read57⟩ [.frame f]
  | main (m : Mem ε) (pc : Pc Pos) (o : List Out)
      (hstep : loopStep E .read57 s.mem s.pc = some (m, pc, o)) :
      Moves E s .cpu { s with mem := m, pc := pc } o
  | sample (curState : Level) (millis : UInt32) (m : Mem ε) (pc : Pc Pos) (o : List Out)
      (hpc : s.pc = .button) (hstep : sampleButton E curState millis s.mem = (m, pc, o)) :
      Moves E s (.sample curState millis) { s with mem := m, pc := pc } o
  | rx (b : UInt8) : Moves E s (.rx b) { s with rx := s.rx ++ [b] } []
  | http (q : Request) (hpc : inDelay s.pc = true) :
      Moves E s (.http q) { s with mem := (handle E s.mem q).1 } [.sent q (handle E s.mem q).2]
  | ticker (hpc : inDelay s.pc = true) :
      Moves E s .ticker { s with mem := (writeCnt E s.mem).2 } [.wrote (writeCnt E s.mem).1]

theorem moves_of_step {E : Esp ε} {s s' : Sys ε} {a : Act} {o : List Out}
    (h : step E s a = some (s', o)) : Moves E s a s' o := by
  cases a with
  | cpu =>
      by_cases hrw : ∃ p, s.pc = .rw p
      · obtain ⟨p, hpc⟩ := hrw
        simp only [step, hpc, Option.some.injEq] at h
        rcases rwStep_cases s p with ⟨rfl, hrx, hs⟩ | ⟨q, hrx, hnext, hs⟩ | ⟨f, hrx, hnext, hs⟩
        · rw [hs] at h
          cases h
          exact .drained hpc hrx
        · rw [hs] at h
          cases h
          exact .read p q hpc hrx hnext
        · rw [hs] at h
          cases h
          exact .frame p f hpc hrx hnext
      · have hmain : (loopStep E .read57 s.mem s.pc).map
            (fun r => ({ s with mem := r.1, pc := r.2.1 }, r.2.2)) = some (s', o) := by
          cases hpc : s.pc with
          | rw p => exact absurd ⟨p, hpc⟩ hrw
          | _ => simpa only [step, hpc] using h
        obtain ⟨⟨m, pc, o'⟩, hstep, heq⟩ := Option.map_eq_some_iff.1 hmain
        cases heq
        exact .main m pc o' hstep
  | sample curState millis =>
      simp only [step] at h
      split at h
      next hpc =>
        cases h
        exact .sample curState millis _ _ _ hpc rfl
      next => simp at h
  | rx b =>
      simp only [step, Option.some.injEq] at h
      cases h
      exact .rx b
  | http q =>
      simp only [step] at h
      split at h
      next hpc =>
        cases h
        exact .http q hpc
      next => simp at h
  | ticker =>
      simp only [step] at h
      split at h
      next hpc =>
        cases h
        exact .ticker hpc
      next => simp at h

theorem MemStep.coreStep {E : Esp ε} {s s' : Sys ε} {a : Act} {o : List Out}
    (h : MemStep s.mem s'.mem o) (hset : a.setsTo E = none) : CoreStep E s a s' o := by
  cases h with
  | clear out noFrame cnt last latch => exact .clear out noFrame hset cnt last latch
  | quiet noFrame noClear cnt last latch => exact .quiet noFrame noClear hset cnt last latch

/-- Every step does one of the four things that `CoreStep` lists. -/
theorem core_step {E : Esp ε} {s s' : Sys ε} {a : Act} {o : List Out}
    (h : step E s a = some (s', o)) : CoreStep E s a s' o := by
  cases moves_of_step h with
  | drained hpc hrx => exact .quiet (by simp) (by simp) rfl rfl rfl (Or.inl rfl)
  | read p q hpc hrx hnext => exact .quiet (by simp) (by simp) rfl rfl rfl (Or.inl rfl)
  | frame p f hpc hrx hnext => exact .frame f p hpc rfl rfl rfl rfl
  | main m pc o hstep => exact (loopStep_cases hstep).memStep.coreStep rfl
  | sample curState millis m pc o hpc hstep => exact (sampleButton_cases hstep).mem.coreStep rfl
  | rx b => exact .quiet (by simp) (by simp) rfl rfl rfl (Or.inl rfl)
  | http q hpc =>
      cases handle_cases E s.mem q with
      | root noSet mem =>
          exact .quiet (by simp) (by simp) noSet (by simp [mem, readCnt]) (by simp [mem, readCnt])
            (Or.inl (by simp [mem, readCnt]))
      | clear noSet mem | refused noSet mem =>
          exact .quiet (by simp) (by simp) noSet (by simp [mem]) (by simp [mem])
            (Or.inl (by simp [mem]))
      | set n act mem =>
          exact .set n act (by simp) (by simp) (by simp [mem]) (by simp [mem]) (by simp [mem])
  | ticker hpc => exact .quiet (by simp) (by simp) rfl rfl rfl (Or.inl rfl)

/-- No step lowers the latch. -/
theorem latch_stays {E : Esp ε} {s s' : Sys ε} {a : Act} {o : List Out}
    (h : step E s a = some (s', o)) (hs : s.mem.isOverflow = true) :
    s'.mem.isOverflow = true := by
  cases core_step h with
  | frame f p src dst act out mem => simp [mem, keyFrame_isOverflow, hs]
  | clear out noFrame noSet cnt last latch => rw [latch, hs]
  | set n act noFrame noClear cnt last latch => rw [latch, hs]
  | quiet noFrame noClear noSet cnt last latch =>
      rcases latch with h | h
      · rw [h, hs]
      · simp [h, hs]

end Byter
