import Byter.Sketch.Parser
import Byter.Transition.Run

/-!
# The sketch as a machine

`loop` runs over and over. It gives way to other code only inside a `delay()`:
there, and only there, an HTTP handler or the ticker may run, and it runs to its
end. A byte may arrive in the receive buffer at any time. The steps of the
machine are therefore the pieces of `loop` from one read or one delay to the
next, the handlers, the ticker, and the arrival of a byte.

A point of `loop` is a `Pc`. The places inside `rw` are a parameter of it: here
they are the reads of `Pos`, in a coarser view of the loop they can be fewer.
What `loop` does outside `rw` is written once, for both.
-/

namespace Byter

/-- From where `displayText` was called, and so what follows its delay. -/
inductive Caller
  | manualWriteCnt
  | enableWifi
  | disableWifi
  | buttonClear
  | eventClear
  | manualSetCnt
deriving DecidableEq, Repr

/-- The points of `loop` between two steps. -/
inductive Pc (π : Type*)
  /-- at the call of `rw` -/
  | loop
  /-- in `rw` -/
  | rw (p : π)
  /-- at the sampling of the button -/
  | button
  /-- at the test `event == 1` -/
  | event1
  /-- at the test `event == 2` -/
  | event2
  /-- in the `delay(2000)` of `displayText` -/
  | displayText (c : Caller)
  /-- in the `delay(1)` that ends `loop` -/
  | loopEnd
deriving DecidableEq, Repr

/-- A request to the web server. -/
inductive Request
  | root
  | clear
  | set (cnt hack : Option String)
deriving DecidableEq, Repr

structure Response where
  code : ℕ
  text : String
deriving DecidableEq, Repr

/-- What a step shows to the outside, or to the history of a run. -/
inductive Out
  /-- `rw` has acted on a report -/
  | frame (f : Report)
  /-- `manualClearCnt` has run `clearCnt` and `cnt = 0` -/
  | cleared
  /-- `writeCnt` has run, with its result -/
  | wrote (res : Bool)
  /-- a button press was classified, by its length in milliseconds -/
  | pressed (pressMillis : Int)
  /-- a request was answered -/
  | sent (q : Request) (a : Response)
deriving DecidableEq, Repr

/-- What may happen next. The button is sampled with a level of its pin and
with the value `millis()` has there. -/
inductive Act
  | cpu
  | sample (curState : Level) (millis : UInt32)
  | rx (b : UInt8)
  | http (q : Request)
  | ticker
deriving DecidableEq, Repr

variable {ε : Type*} {π : Type*}

/-! ## Handlers -/

def onRoot (E : Esp ε) (m : Mem ε) : Mem ε × Response :=
  let (cnt, m) := readCnt E m
  (m, ⟨200, "Up to now, " ++ toString cnt.toNat ++ " keyboard strokes have been recorded."⟩)

/-- The request is answered first; the clearing is left to `loop`. -/
def onClear (m : Mem ε) : Mem ε × Response :=
  ({ m with event := 1 }, ⟨200, "KeyStoke Count Cleared!"⟩)

/-- `==` of a `String` and a C string compares them up to the first `NUL`. -/
def equals (s cstr : String) : Bool :=
  (s.toList.takeWhile fun c => c.toNat ≠ 0) = cstr.toList.takeWhile fun c => c.toNat ≠ 0

def onSet (E : Esp ε) (cnt hack : Option String) (m : Mem ε) : Mem ε × Response :=
  match cnt, hack with
  | some param1, some param2 =>
      if equals param2 "hack" then
        ({ m with cnt := (E.toInt param1).toUInt32, event := 2 },
          ⟨200, "KeyStoke Count Has Been Hacked To " ++ param1⟩)
      else
        (m, ⟨400, "invalid request"⟩)
  | _, _ => (m, ⟨400, "invalid request"⟩)

def handle (E : Esp ε) (m : Mem ε) : Request → Mem ε × Response
  | .root => onRoot E m
  | .clear => onClear m
  | .set cnt hack => onSet E cnt hack m

/-! ## The loop outside `rw` -/

/-- The button part of `loop`, up to the delay of `displayText` if it calls it. -/
def sampleButton (E : Esp ε) (curState : Level) (millis : UInt32) (m : Mem ε) :
    Mem ε × Pc π × List Out :=
  let m := { m with curState := curState }
  if m.lastState = .low ∧ m.curState = .high then
    ({ m with pressedMillis := millis, lastState := m.curState }, .event1, [])
  else if m.lastState = .high ∧ m.curState = .low then
    let m := { m with releasedMillis := millis }
    let pressMillis := (m.releasedMillis - m.pressedMillis).toInt32.toInt
    if pressMillis < 1000 then
      (manualWriteCnt E m, .displayText .manualWriteCnt,
        [.pressed pressMillis, .wrote (writeCnt E m).1])
    else if pressMillis < 10000 then
      if m.isWifiOn then
        (disableWifi m, .displayText .disableWifi, [.pressed pressMillis])
      else
        (enableWifi m, .displayText .enableWifi, [.pressed pressMillis])
    else if pressMillis < 20000 then
      (manualClearCnt E m, .displayText .buttonClear, [.pressed pressMillis, .cleared])
    else
      ({ m with lastState := m.curState }, .event1, [.pressed pressMillis])
  else
    ({ m with lastState := m.curState }, .event1, [])

/-- What follows the delay in `displayText`: its `displayNum(cnt)`, and the rest
of its caller. -/
def resume (c : Caller) (m : Mem ε) : Mem ε × Pc π :=
  let m := displayNum m.cnt m
  match c with
  | .manualWriteCnt => ({ m with lastState := m.curState }, .event1)
  | .enableWifi => (let m := turnOnLed m; { m with lastState := m.curState }, .event1)
  | .disableWifi => (let m := turnOffLed m; { m with lastState := m.curState }, .event1)
  | .buttonClear => ({ m with lastState := m.curState }, .event1)
  | .eventClear => ({ m with event := 0 }, .event2)
  | .manualSetCnt => ({ m with event := 0 }, .loopEnd)

/-- The steps of `loop` that are neither in `rw` nor at the button. Calling `rw`
tests the latch once and goes to the place `entry`. -/
def loopStep (E : Esp ε) (entry : π) (m : Mem ε) : Pc π → Option (Mem ε × Pc π × List Out)
  | .loop => some (m, if m.isOverflow then .button else .rw entry, [])
  | .rw _ => none
  | .button => none
  | .event1 =>
      if m.event = 1 then
        some (manualClearCnt E m, .displayText .eventClear, [.cleared])
      else
        some (m, .event2, [])
  | .event2 =>
      if m.event = 2 then
        some (manualSetCnt m, .displayText .manualSetCnt, [])
      else
        some (m, .loopEnd, [])
  | .displayText c =>
      let r : Mem ε × Pc π := resume c m
      some (r.1, r.2, [])
  | .loopEnd => some (m, .loop, [])

/-! ## The machine -/

/-- The state of the sketch: its memory, the receive buffer and the point of
`loop`. -/
structure Sys (ε : Type*) where
  mem : Mem ε
  rx : List UInt8
  pc : Pc Pos

/-- Whether `loop` is inside a `delay()`. -/
def inDelay : Pc Pos → Bool
  | .rw .read57 => false
  | .rw _ => true
  | .displayText _ => true
  | .loopEnd => true
  | _ => false

/-- One read of `rw`. At the outer loop an empty buffer ends `rw`; anywhere else
it yields `-1`. -/
def rwStep (s : Sys ε) (p : Pos) : Sys ε × List Out :=
  if p = .read57 ∧ s.rx = [] then
    ({ s with pc := .button }, [])
  else
    let (r, rx) := serialRead s.rx
    match p.next r with
    | (q, none) => ({ s with rx := rx, pc := .rw q }, [])
    | (q, some f) => ({ mem := keyFrame f.slots s.mem, rx := rx, pc := .rw q }, [.frame f])

def step (E : Esp ε) (s : Sys ε) : Act → Option (Sys ε × List Out)
  | .cpu =>
      match s.pc with
      | .rw p => some (rwStep s p)
      | pc => (loopStep E .read57 s.mem pc).map fun r => ({ s with mem := r.1, pc := r.2.1 }, r.2.2)
  | .sample curState millis =>
      if s.pc = .button then
        let r := sampleButton E curState millis s.mem
        some ({ s with mem := r.1, pc := r.2.1 }, r.2.2)
      else
        none
  | .rx b => some ({ s with rx := s.rx ++ [b] }, [])
  | .http q =>
      if inDelay s.pc then
        let r := handle E s.mem q
        some ({ s with mem := r.1 }, [.sent q r.2])
      else
        none
  | .ticker =>
      if inDelay s.pc then
        let r := writeCnt E s.mem
        some ({ s with mem := r.2 }, [.wrote r.1])
      else
        none

/-- The sketch as a machine. -/
def sketch (E : Esp ε) : Transition.Machine (Sys ε) Act Out := ⟨step E⟩

/-- The state at the first call of `loop`, with the bytes that came in during
`setup`. -/
def boot (E : Esp ε) (e : ε) (rx : List UInt8) : Sys ε := ⟨setup E e, rx, .loop⟩

end Byter
