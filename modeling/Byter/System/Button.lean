import Mathlib.Algebra.Ring.Parity
import Byter.Episode.Basic
import Byter.Sketch.Eeprom
import Byter.Sketch.Steps

/-!
# The button and the clock

`loop` sees the button only now and then: each sampling finds a level of the pin
and a value of `millis()`, which counts milliseconds modulo `2^32`. A hold is a
longest stretch of high samples with the low sample behind it. What `loop` does
for it depends on its length, of which the sketch remembers the clock at the
first high sample only.

The clock of a history may be unbounded or read off a register. The run is first
described with the clock as it is read; when the register shows an unbounded clock
that does not go back, and no hold is as long as `2^31`, the two agree.
-/

namespace Byter

open Transition Episode

variable {ε : Type*}

/-! ## Samples and holds -/

/-- A level of the pin, with a time on some clock. -/
structure Sample (τ : Type*) where
  level : Level
  millis : τ
deriving DecidableEq, Repr

namespace Sample

variable {τ υ : Type*}

/-- The same sample on another clock. -/
def map (g : τ → υ) (x : Sample τ) : Sample υ := ⟨x.level, g x.millis⟩

/-- A high level says that the button is down, a low one that it is up. -/
def signal (x : Sample τ) : Signal :=
  match x.level with
  | .high => .on
  | .low => .off

theorem signal_comp_map (g : τ → υ) : signal ∘ map g = signal := rfl

end Sample

/-- The holds that have ended, in order, each with its first high sample and the
low sample that ends it. -/
def holds {τ : Type*} (xs : List (Sample τ)) : List (Sample τ × Sample τ) :=
  episodes Sample.signal xs

/-- The samples of a run. -/
def sampleOf (st : Step (Sys ε) Act Out) : Option (Sample UInt32) :=
  match st.act with
  | .sample curState millis => some ⟨curState, millis⟩
  | _ => none

def samples (tr : List (Step (Sys ε) Act Out)) : List (Sample UInt32) := tr.filterMap sampleOf

theorem samples_snoc (tr : List (Step (Sys ε) Act Out)) (st : Step (Sys ε) Act Out) :
    samples (tr ++ [st]) = samples tr ++ (sampleOf st).toList := by
  rw [samples, List.filterMap_append, ← samples]
  cases h : sampleOf st <;> simp [h]

/-- A clock that shows `t` modulo `2^32`. -/
def clock (t : ℕ) : UInt32 := UInt32.ofNat t

/-- The length of a hold as `loop` computes it: an unsigned difference, read as signed. -/
def pressLength (h : Sample UInt32 × Sample UInt32) : ℤ :=
  (h.2.millis - h.1.millis).toInt32.toInt

/-- The length of a hold on an unbounded clock. -/
def elapsed (h : Sample ℕ × Sample ℕ) : ℤ := h.2.millis - h.1.millis

/-- The computed length is the true one if that is below `2^31`. -/
theorem pressLength_clock {h : Sample ℕ × Sample ℕ} (hle : h.1.millis ≤ h.2.millis)
    (hlt : h.2.millis < h.1.millis + 2147483648) :
    pressLength (Prod.map (Sample.map clock) (Sample.map clock) h) = elapsed h := by
  have hdiff : pressLength (Prod.map (Sample.map clock) (Sample.map clock) h) =
      (elapsed h).bmod 4294967296 := by
    simp only [pressLength, elapsed, clock, Prod.map, Sample.map, UInt32.toInt32_sub,
      UInt32.toInt32_ofNat', Int32.toInt_sub, Int32.toInt_ofNat']
    exact (Int.sub_bmod _ _ _).symm
  rw [hdiff]
  apply Int.bmod_eq_of_le_mul_two <;> unfold elapsed <;> omega

/-! ## What a hold is for -/

/-- The kinds of presses that `loop` tells apart. -/
inductive Press
  | short
  | long
  | muchLonger
  /-- none of the three -/
  | other
deriving DecidableEq, Repr

namespace Press

/-- The kind of a press that lasted `d` milliseconds. -/
def ofLength (d : ℤ) : Press :=
  if d < 1000 then .short
  else if d < 10000 then .long
  else if d < 20000 then .muchLonger
  else .other

/-- What `loop` does for a press, up to the delay of `displayText` if it calls it:
it saves the count, toggles WiFi, clears the count, or goes on. -/
def perform (E : Esp ε) (m : Mem ε) : Press → Mem ε × Pc Pos
  | .short => (manualWriteCnt E m, .displayText .manualWriteCnt)
  | .long =>
      if m.isWifiOn then (disableWifi m, .displayText .disableWifi)
      else (enableWifi m, .displayText .enableWifi)
  | .muchLonger => (manualClearCnt E m, .displayText .buttonClear)
  | .other => ({ m with lastState := m.curState }, .event1)

end Press

/-- The press for which `loop` does something in a step, by the function that it
calls. A press that is none of the three is only reported. -/
def performed (st : Step (Sys ε) Act Out) : Option Press :=
  match st.act, st.dst.pc with
  | .sample _ _, .displayText .manualWriteCnt => some .short
  | .sample _ _, .displayText .enableWifi => some .long
  | .sample _ _, .displayText .disableWifi => some .long
  | .sample _ _, .displayText .buttonClear => some .muchLonger
  | .sample _ _, _ => if st.out = [] then none else some .other
  | _, _ => none

/-! ## What a step does to the button -/

/-- The variables that belong to the button. -/
structure Button where
  curState : Level
  lastState : Level
  pressedMillis : UInt32
  isWifiOn : Bool

def Mem.button (m : Mem ε) : Button := ⟨m.curState, m.lastState, m.pressedMillis, m.isWifiOn⟩

@[simp] theorem displayNum_button (n : UInt32) (m : Mem ε) :
    (displayNum n m).button = m.button := by
  rw [displayNum_eq]
  rfl

@[simp] theorem keyFrame_button (v : Slots) (m : Mem ε) : (keyFrame v m).button = m.button := by
  rw [keyFrame_only]
  rfl

/-- The message of a press is shown; `lastState` is still to be brought up to date. -/
def inPressText : Pc Pos → Bool
  | .displayText .eventClear => false
  | .displayText .manualSetCnt => false
  | .displayText _ => true
  | _ => false

/-- A step samples the button, comes back from the message of a press, or leaves
the button alone. -/
inductive ButtonStep (E : Esp ε) (s s' : Sys ε) (a : Act) (o : List Out) : Prop
  | sample (curState : Level) (millis : UInt32) (act : a = .sample curState millis)
      (src : s.pc = .button)
      (branch : ButtonCase E curState millis s.mem s'.mem s'.pc o)
  | shown (act : a = .cpu)
      (button : s'.mem.button = { s.mem.button with lastState := s.mem.curState })
  | quiet (noSample : ∀ curState millis, a ≠ .sample curState millis)
      (button : s'.mem.button = s.mem.button)
      (pc : inPressText s.pc = true → inPressText s'.pc = true)

theorem LoopMove.buttonStep {E : Esp ε} {s : Sys ε} {m : Mem ε} {pc : Pc Pos} {o : List Out}
    (h : LoopMove E .read57 s.mem s.pc m pc o) :
    ButtonStep E s { s with mem := m, pc := pc } .cpu o := by
  have hquiet : inPressText s.pc = false → m.button = s.mem.button →
      ButtonStep E s { s with mem := m, pc := pc } .cpu o := by
    intro hpc hm
    exact .quiet (by simp) hm (by simp [hpc])
  cases h with
  | shown c src dst mem out =>
      rw [mem]
      cases c with
      | eventClear | manualSetCnt =>
          refine .quiet (by simp) ?_ (by simp [src, inPressText])
          exact displayNum_button _ _
      | manualWriteCnt | enableWifi | disableWifi | buttonClear =>
          refine .shown rfl ?_
          have hdraw := displayNum_button s.mem.cnt s.mem
          simp only [Mem.button, Button.mk.injEq] at hdraw
          simp [resume, turnOnLed, turnOffLed, Mem.button, hdraw]
  | clear src event dst mem out | set src event dst mem out =>
      refine hquiet (by simp [src, inPressText]) ?_
      rw [mem]
      rfl
  | call src latch dst mem out | skip src latch dst mem out | noClear src event dst mem out
  | noSet src event dst mem out | again src dst mem out =>
      exact hquiet (by simp [src, inPressText]) (by rw [mem])

theorem handle_button (E : Esp ε) (m : Mem ε) (q : Request) :
    (handle E m q).1.button = m.button := by
  rw [handle_eq]
  rfl

theorem button_step {E : Esp ε} {s s' : Sys ε} {a : Act} {o : List Out}
    (h : step E s a = some (s', o)) : ButtonStep E s s' a o := by
  cases moves_of_step h with
  | drained hpc hrx => exact .quiet (by simp) rfl (by simp [hpc, inPressText])
  | read p q hpc hrx hnext => exact .quiet (by simp) rfl (by simp [hpc, inPressText])
  | frame p f hpc hrx hnext =>
      exact .quiet (by simp) (keyFrame_button _ _) (by simp [hpc, inPressText])
  | main m pc o hstep => exact (loopStep_cases hstep).buttonStep
  | sample curState millis m pc o hpc hstep =>
      exact .sample curState millis rfl hpc (sampleButton_branch hstep)
  | rx b => exact .quiet (by simp) rfl (fun hpc => hpc)
  | http q hpc => exact .quiet (by simp) (handle_button E s.mem q) (fun hpc => hpc)
  | ticker hpc => exact .quiet (by simp) rfl (fun hpc => hpc)

/-! ## The branches of a sampling -/

/-- A sampling begins a hold, or sees the level it saw before, or ends a hold. -/
inductive SampleMove (E : Esp ε) (x : Sample UInt32) (m m' : Mem ε) (pc' : Pc Pos)
    (o : List Out) : Prop
  | press (last : m.lastState = .low) (cur : x.level = .high)
      (button : m'.button = ⟨.high, .high, x.millis, m.isWifiOn⟩) (pc : pc' = .event1)
      (out : o = [])
  | level (last : m.lastState = x.level)
      (button : m'.button = ⟨x.level, x.level, m.pressedMillis, m.isWifiOn⟩)
      (pc : pc' = .event1) (out : o = [])
  | release (last : m.lastState = .high) (cur : x.level = .low)
      (mem : (m', pc') = (Press.ofLength (m.pressMillis x.millis)).perform E
        { m with curState := .low, releasedMillis := x.millis })
      (out : o ≠ [])

theorem ButtonCase.sampleMove {E : Esp ε} {curState : Level} {millis : UInt32} {m m' : Mem ε}
    {pc' : Pc Pos} {o : List Out} (h : ButtonCase E curState millis m m' pc' o) :
    SampleMove E ⟨curState, millis⟩ m m' pc' o := by
  cases h with
  | press hlast hcur => exact .press hlast hcur (by rw [hcur]; rfl) rfl rfl
  | level hpress hrelease =>
      refine .level ?_ rfl rfl rfl
      cases hlast : m.lastState <;> cases hcur : curState <;>
        simp [hlast, hcur] at hpress hrelease ⊢
  | save hlast hcur hms =>
      refine .release hlast hcur ?_ (by simp)
      rw [Press.ofLength, if_pos hms, hcur]
      rfl
  | wifiOff hlast hcur hms hwifi =>
      refine .release hlast hcur ?_ (by simp)
      rw [Press.ofLength, if_neg hms.1, if_pos hms.2, hcur]
      simp [Press.perform, hwifi]
  | wifiOn hlast hcur hms hwifi =>
      refine .release hlast hcur ?_ (by simp)
      rw [Press.ofLength, if_neg hms.1, if_pos hms.2, hcur]
      simp [Press.perform, hwifi]
  | clear hlast hcur hms =>
      refine .release hlast hcur ?_ (by simp)
      have hshort : ¬ m.pressMillis millis < 1000 := by omega
      rw [Press.ofLength, if_neg hshort, if_neg hms.1, if_pos hms.2, hcur]
      rfl
  | ignored hlast hcur hms =>
      refine .release hlast hcur ?_ (by simp)
      have hshort : ¬ m.pressMillis millis < 1000 := by omega
      have hlong : ¬ m.pressMillis millis < 10000 := by omega
      rw [Press.ofLength, if_neg hshort, if_neg hlong, if_neg hms, hcur]
      rfl

/-- Acting on a press leaves the time of the press alone, toggles WiFi if the press
was a long one, and is done with `lastState` unless a message is shown. -/
theorem Press.perform_button (E : Esp ε) (m : Mem ε) (k : Press) :
    (k.perform E m).1.curState = m.curState ∧
      ((k.perform E m).1.isWifiOn = if k = .long then !m.isWifiOn else m.isWifiOn) ∧
      (inPressText (k.perform E m).2 = true ∨ (k.perform E m).1.lastState = m.curState) := by
  cases k with
  | long => cases hwifi : m.isWifiOn <;> simp [perform, hwifi, enableWifi, disableWifi, displayText,
      inPressText]
  | short => exact ⟨rfl, rfl, Or.inl rfl⟩
  | muchLonger => exact ⟨rfl, rfl, Or.inl rfl⟩
  | other => exact ⟨rfl, rfl, Or.inr rfl⟩

theorem performed_of_perform {E : Esp ε} {s s' : Sys ε} {curState : Level} {millis : UInt32}
    {o : List Out} {m : Mem ε} {k : Press} (h : (s'.mem, s'.pc) = k.perform E m) (ho : o ≠ []) :
    performed ⟨s, .sample curState millis, o, s'⟩ = some k := by
  have hpc : s'.pc = (k.perform E m).2 := congrArg Prod.snd h
  cases k with
  | long => cases hwifi : m.isWifiOn <;> simp [performed, hpc, Press.perform, hwifi]
  | short | muchLonger => simp [performed, hpc, Press.perform]
  | other => simp [performed, hpc, Press.perform, ho]

theorem performed_of_event1 {s s' : Sys ε} {curState : Level} {millis : UInt32} {o : List Out}
    (hpc : s'.pc = .event1) (ho : o = []) :
    performed ⟨s, .sample curState millis, o, s'⟩ = none := by
  simp [performed, hpc, ho]

theorem performed_of_not_sample {s s' : Sys ε} {a : Act} {o : List Out}
    (h : ∀ curState millis, a ≠ .sample curState millis) : performed ⟨s, a, o, s'⟩ = none := by
  cases a with
  | sample curState millis => exact absurd rfl (h curState millis)
  | _ => rfl

/-! ## The button over a run -/

/-- What the variables of the button say about the samples so far. -/
structure Held (xs : List (Sample UInt32)) (s : Sys ε) : Prop where
  cur : s.mem.curState = if (oldest Sample.signal xs).isSome then .high else .low
  pressed : ∀ x, oldest Sample.signal xs = some x → s.mem.pressedMillis = x.millis
  last : inPressText s.pc = true ∨ s.mem.lastState = s.mem.curState

/-- The history of the presses: the variables of the button belong to the samples,
every hold that has ended was acted on by its computed length, and WiFi is on after
an odd number of long presses. -/
structure PressHistory (tr : List (Step (Sys ε) Act Out)) (s : Sys ε) : Prop where
  held : Held (samples tr) s
  acted : tr.filterMap performed =
    (holds (samples tr)).map fun h => Press.ofLength (pressLength h)
  wifi : s.mem.isWifiOn = true ↔ Odd ((tr.filterMap performed).count .long)

theorem Held.of_button {xs : List (Sample UInt32)} {s s' : Sys ε} (h : Held xs s)
    (hbutton : s'.mem.button = s.mem.button)
    (hpc : inPressText s.pc = true → inPressText s'.pc = true) : Held xs s' := by
  obtain ⟨hcur, hlast, hpressed, -⟩ := Button.mk.inj hbutton
  refine ⟨hcur.trans h.cur, fun x hx => hpressed.trans (h.pressed x hx), ?_⟩
  rcases h.last with htext | hsame
  · exact Or.inl (hpc htext)
  · exact Or.inr (by rw [hlast, hcur, hsame])

/-- A step that ends no hold and does nothing for a press. -/
theorem PressHistory.snoc_none {tr : List (Step (Sys ε) Act Out)} {st : Step (Sys ε) Act Out}
    (h : PressHistory tr st.src) (hheld : Held (samples (tr ++ [st])) st.dst)
    (hholds : holds (samples (tr ++ [st])) = holds (samples tr))
    (hwifi : st.dst.mem.isWifiOn = st.src.mem.isWifiOn) (hdone : performed st = none) :
    PressHistory (tr ++ [st]) st.dst := by
  have hacted : (tr ++ [st]).filterMap performed = tr.filterMap performed := by
    rw [List.filterMap_append]
    simp [hdone]
  exact ⟨hheld, by rw [hacted, hholds, h.acted], by rw [hwifi, hacted, h.wifi]⟩

/-- A sampling that does not end a hold. -/
theorem PressHistory.snoc_quiet {tr : List (Step (Sys ε) Act Out)} {s s' : Sys ε}
    {x : Sample UInt32} {o : List Out} (h : PressHistory tr s)
    (hheld : Held (samples tr ++ [x]) s') (hwifi : s'.mem.isWifiOn = s.mem.isWifiOn)
    (hdone : performed ⟨s, .sample x.level x.millis, o, s'⟩ = none)
    (hend : x.signal = .off → oldest Sample.signal (samples tr) = none) :
    PressHistory (tr ++ [⟨s, .sample x.level x.millis, o, s'⟩]) s' := by
  have hsamples : samples (tr ++ [⟨s, .sample x.level x.millis, o, s'⟩]) = samples tr ++ [x] :=
    samples_snoc tr _
  refine h.snoc_none (by rwa [hsamples]) ?_ hwifi hdone
  rw [hsamples, holds, episodes_snoc, ← holds]
  by_cases hx : x.signal = .off
  · simp [hx, hend hx]
  · simp [hx]

theorem Held.oldest_of_low {xs : List (Sample UInt32)} {s : Sys ε} (h : Held xs s)
    (hcur : s.mem.curState = .low) : oldest Sample.signal xs = none := by
  have hlevel := h.cur
  cases hold : oldest Sample.signal xs with
  | none => rfl
  | some a => simp [hcur, hold] at hlevel

theorem Held.oldest_of_high {xs : List (Sample UInt32)} {s : Sys ε} (h : Held xs s)
    (hcur : s.mem.curState = .high) :
    ∃ x, oldest Sample.signal xs = some x ∧ s.mem.pressedMillis = x.millis := by
  have hlevel := h.cur
  cases hold : oldest Sample.signal xs with
  | none => simp [hcur, hold] at hlevel
  | some a => exact ⟨a, rfl, h.pressed a hold⟩

/-- A sampling that ends a hold. -/
theorem PressHistory.snoc_release {E : Esp ε} {tr : List (Step (Sys ε) Act Out)} {s s' : Sys ε}
    {x : Sample UInt32} {o : List Out} (h : PressHistory tr s) (hcur : s.mem.curState = .high)
    (hlow : x.level = .low)
    (hmem : (s'.mem, s'.pc) = (Press.ofLength (s.mem.pressMillis x.millis)).perform E
      { s.mem with curState := .low, releasedMillis := x.millis })
    (hout : o ≠ []) :
    PressHistory (tr ++ [⟨s, .sample x.level x.millis, o, s'⟩]) s' := by
  obtain ⟨a, hold, ha⟩ := h.held.oldest_of_high hcur
  have hoff : x.signal = .off := by simp [Sample.signal, hlow]
  have hnext : oldest Sample.signal (samples tr ++ [x]) = none := by rw [oldest_snoc, hoff]
  have hsamples : samples (tr ++ [⟨s, .sample x.level x.millis, o, s'⟩]) = samples tr ++ [x] :=
    samples_snoc tr _
  have hholds : holds (samples tr ++ [x]) = holds (samples tr) ++ [(a, x)] := by
    rw [holds, episodes_snoc, ← holds, if_pos hoff, hold]
    rfl
  have hlength : pressLength (a, x) = s.mem.pressMillis x.millis := by
    rw [pressLength, Mem.pressMillis, ha]
  have hdone : performed ⟨s, .sample x.level x.millis, o, s'⟩ =
      some (Press.ofLength (s.mem.pressMillis x.millis)) := performed_of_perform hmem hout
  obtain ⟨hcur', hwifi, hlast'⟩ := (Press.ofLength (s.mem.pressMillis x.millis)).perform_button E
    { s.mem with curState := .low, releasedMillis := x.millis }
  rw [← hmem] at hcur' hwifi hlast'
  have hup : s'.mem.curState = .low := hcur'
  have hon : s'.mem.isWifiOn = if Press.ofLength (s.mem.pressMillis x.millis) = .long then
      !s.mem.isWifiOn else s.mem.isWifiOn := hwifi
  refine ⟨?_, ?_, ?_⟩
  · rw [hsamples]
    refine ⟨by rw [hup, hnext]; rfl, fun y hy => by simp [hnext] at hy, ?_⟩
    rw [hup]
    exact hlast'
  · rw [hsamples, hholds, List.filterMap_append, h.acted, List.map_append]
    simp [hdone, hlength]
  · rw [List.filterMap_append, List.count_append]
    simp only [List.filterMap_cons, hdone, List.filterMap_nil, List.count_singleton]
    by_cases hlong : Press.ofLength (s.mem.pressMillis x.millis) = .long
    · simp only [hlong, if_true] at hon
      simp only [hlong, beq_self_eq_true, if_true]
      rw [hon, Nat.odd_add_one, ← h.wifi, Bool.not_eq_true', Bool.not_eq_true]
    · simp only [hlong, if_false] at hon
      simp only [hlong, beq_iff_eq, if_false, Nat.add_zero]
      rw [hon, h.wifi]

theorem PressHistory.snoc_sample {E : Esp ε} {tr : List (Step (Sys ε) Act Out)} {s s' : Sys ε}
    {x : Sample UInt32} {o : List Out} (h : PressHistory tr s) (hpc : s.pc = .button)
    (hmove : SampleMove E x s.mem s'.mem s'.pc o) :
    PressHistory (tr ++ [⟨s, .sample x.level x.millis, o, s'⟩]) s' := by
  have hsame : s.mem.lastState = s.mem.curState := by
    rcases h.held.last with htext | hsame
    · simp [hpc, inPressText] at htext
    · exact hsame
  cases hmove with
  | press last cur button pc out =>
      have hnone := h.held.oldest_of_low (hsame ▸ last)
      have hnext : oldest Sample.signal (samples tr ++ [x]) = some x := by
        rw [oldest_snoc, hnone]
        simp [Sample.signal, cur]
      obtain ⟨hcur', hlast', hpressed, hwifi⟩ := Button.mk.inj button
      refine h.snoc_quiet ⟨by rw [hcur', hnext]; rfl, ?_, Or.inr (by rw [hlast', hcur'])⟩
        hwifi (performed_of_event1 pc out) (fun _ => hnone)
      intro y hy
      rw [hnext, Option.some.injEq] at hy
      rw [hpressed, hy]
  | level last button pc out =>
      obtain ⟨hcur', hlast', hpressed, hwifi⟩ := Button.mk.inj button
      have hcur : s.mem.curState = x.level := hsame.symm.trans last
      have hnext :
          oldest Sample.signal (samples tr ++ [x]) = oldest Sample.signal (samples tr) := by
        cases hx : x.level with
        | low =>
            rw [oldest_snoc, h.held.oldest_of_low (hcur.trans hx)]
            simp [Sample.signal, hx]
        | high =>
            obtain ⟨a, hold, -⟩ := h.held.oldest_of_high (hcur.trans hx)
            rw [oldest_snoc, hold]
            simp [Sample.signal, hx]
      refine h.snoc_quiet ⟨?_, ?_, Or.inr (by rw [hlast', hcur'])⟩ hwifi
        (performed_of_event1 pc out) ?_
      · rw [hcur', hnext, ← hcur, h.held.cur]
      · intro y hy
        rw [hnext] at hy
        rw [hpressed, h.held.pressed y hy]
      · intro hoff
        refine h.held.oldest_of_low (hcur.trans ?_)
        cases hx : x.level with
        | low => rfl
        | high => simp [Sample.signal, hx] at hoff
  | release last cur mem out => exact h.snoc_release (hsame ▸ last) cur mem out

variable {E : Esp ε} {e : ε} {rx : List UInt8} {s : Sys ε} {tr : List (Step (Sys ε) Act Out)}

theorem PressHistory.snoc {s' : Sys ε} {a : Act} {o : List Out} (h : PressHistory tr s)
    (hstep : step E s a = some (s', o)) : PressHistory (tr ++ [⟨s, a, o, s'⟩]) s' := by
  have hother : (∀ curState millis, a ≠ .sample curState millis) → Held (samples tr) s' →
      s'.mem.isWifiOn = s.mem.isWifiOn → PressHistory (tr ++ [⟨s, a, o, s'⟩]) s' := by
    intro ha hheld hwifi
    have hsample : sampleOf ⟨s, a, o, s'⟩ = none := by
      cases a with
      | sample curState millis => exact absurd rfl (ha curState millis)
      | _ => rfl
    have hsamples : samples (tr ++ [⟨s, a, o, s'⟩]) = samples tr := by
      rw [samples_snoc, hsample]
      exact List.append_nil _
    exact h.snoc_none (by rwa [hsamples]) (by rw [hsamples]) hwifi (performed_of_not_sample ha)
  cases button_step hstep with
  | sample curState millis act src branch =>
      rw [act]
      exact h.snoc_sample src branch.sampleMove
  | shown act button =>
      obtain ⟨hcur, hlast, hpressed, hwifi⟩ := Button.mk.inj button
      exact hother (by simp [act])
        ⟨hcur.trans h.held.cur, fun x hx => hpressed.trans (h.held.pressed x hx),
          Or.inr (hlast.trans hcur.symm)⟩ hwifi
  | quiet noSample button pc =>
      exact hother noSample (h.held.of_button button pc) (congrArg Button.isWifiOn button)

/-- Whatever the samples are, the presses of a run are the holds of its history, told
apart by their lengths as they are computed. -/
theorem press_history (hrun : Run (sketch E) (boot E e rx) tr s) : PressHistory tr s := by
  induction hrun with
  | nil =>
      have hbutton : (setup E e).button = ⟨.low, .low, 0, false⟩ := displayNum_button _ _
      obtain ⟨hcur, hlast, -, hwifi⟩ := Button.mk.inj hbutton
      refine ⟨⟨hcur, by simp [samples], Or.inr (hlast.trans hcur.symm)⟩, rfl, ?_⟩
      simp [boot, hwifi]
  | snoc prev last ih => exact ih.snoc last

/-- What `loop` does for a press is what the press is for. -/
theorem performed_spec {s' : Sys ε} {a : Act} {o : List Out} {k : Press}
    (hstep : step E s a = some (s', o)) (hk : performed ⟨s, a, o, s'⟩ = some k) :
    ∃ millis, a = .sample .low millis ∧
      (s'.mem, s'.pc) = k.perform E { s.mem with curState := .low, releasedMillis := millis } := by
  cases button_step hstep with
  | sample curState millis act src branch =>
      subst act
      cases branch.sampleMove with
      | press last cur button pc out | level last button pc out =>
          rw [performed_of_event1 pc out] at hk
          cases hk
      | release last cur mem out =>
          rw [performed_of_perform mem out, Option.some.injEq] at hk
          rw [hk] at mem
          exact ⟨millis, by rw [← cur], mem⟩
  | shown act button =>
      rw [act] at hk
      cases hk
  | quiet noSample button pc =>
      rw [performed_of_not_sample noSample] at hk
      cases hk

/-- Let the samples of a run be taken at times that do not go back, on a clock that
shows them modulo `2^32`, and let no hold be as long as `2^31` milliseconds. Then
`loop` acts once on every hold, in their order, by its true length: it saves the count,
toggles WiFi, clears the count or does nothing. WiFi is on exactly when it was toggled an
odd number of times. -/
theorem presses_classified {xs : List (Sample ℕ)} (hrun : Run (sketch E) (boot E e rx) tr s)
    (hxs : samples tr = xs.map (Sample.map clock)) (htime : xs.Pairwise (·.millis ≤ ·.millis))
    (hhold : ∀ h ∈ holds xs, h.2.millis < h.1.millis + 2147483648) :
    tr.filterMap performed = (holds xs).map (fun h => Press.ofLength (elapsed h)) ∧
      (∀ st ∈ tr, ∀ k, performed st = some k → ∃ millis, st.act = .sample .low millis ∧
        (st.dst.mem, st.dst.pc) =
          k.perform E { st.src.mem with curState := .low, releasedMillis := millis }) ∧
      (s.mem.isWifiOn = true ↔ Odd ((tr.filterMap performed).count .long)) := by
  have hhistory := press_history hrun
  refine ⟨?_, ?_, hhistory.wifi⟩
  · have hholds : holds (samples tr) =
        (holds xs).map (Prod.map (Sample.map clock) (Sample.map clock)) := by
      rw [hxs, holds, episodes_map, Sample.signal_comp_map, ← holds]
    rw [hhistory.acted, hholds, List.map_map]
    refine List.map_congr_left fun h hh => ?_
    obtain ⟨pre, run, post, hsplit, -⟩ := exists_split_of_mem_episodes hh
    have hle : h.1.millis ≤ h.2.millis := by
      rw [hsplit] at htime
      exact (List.pairwise_cons.1 (List.pairwise_append.1 htime).2.1).1 h.2 (by simp)
    rw [Function.comp, pressLength_clock hle (hhold h hh)]
  · intro st hst k hk
    obtain ⟨pre, post, rfl⟩ := List.append_of_mem hst
    exact performed_spec hrun.split.2.1 hk

/-- A press of 1200 milliseconds over which the clock wraps. -/
def wrappingPress : List (Sample ℕ) :=
  [⟨.high, 4294966796⟩, ⟨.high, 4294967295⟩, ⟨.low, 4294967996⟩]

theorem presses_classified_wrappingPress :
    ∃ tr s, Run (sketch esp) (boot esp (stored 7) []) tr s ∧ decide (s.mem.isWifiOn = true) = true ∧
      tr.filterMap performed = (holds wrappingPress).map (fun h => Press.ofLength (elapsed h)) := by
  obtain ⟨tr, s, hrun, hs⟩ :=
    Machine.exists_run_of_exec (sketch esp) (boot esp (stored 7) [])
      (wrappingPress.flatMap fun x =>
        [.cpu, .cpu, .sample x.level (clock x.millis), .cpu, .cpu, .cpu])
      (fun tr s => decide (s.mem.isWifiOn = true ∧
        samples tr = wrappingPress.map (Sample.map clock))) (by decide)
  obtain ⟨hwifi, hxs⟩ := of_decide_eq_true hs
  exact ⟨tr, s, hrun, decide_eq_true hwifi,
    (presses_classified hrun hxs (by decide) (by decide)).1⟩

end Byter
