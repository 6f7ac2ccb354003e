import Byter.Counting.Exact
import Byter.Sketch.Call
import Byter.Sketch.Eeprom
import Byter.Sketch.Steps
import Byter.Stream.Frame

/-!
# The overflow latch

`isOverflow` is raised when a count of `maxCnt` is drawn, and nothing lowers it.
So it tells the truth about the count exactly as long as nothing changes the
count after it is raised: no clear, no `/set` to another value, and no frame
that frees more or fewer slots than it shows duplicates.

`rw` tests the latch when it is called. A frame that comes while the latch is
high therefore comes in the very call in which another frame raised it.
-/

namespace Byter

open Transition

variable {ε : Type*}

/-- The latch is raised only at `maxCnt`. -/
def Truthful (s : Sys ε) : Prop := s.mem.isOverflow = true → s.mem.cnt = maxCnt

/-- A step keeps the count, in so far as it sets, clears or counts. -/
structure KeepsCnt (E : Esp ε) (st : Step (Sys ε) Act Out) : Prop where
  set : ∀ n, st.act.setsTo E = some n → n = maxCnt
  clear : .cleared ∉ st.out
  frame : ∀ f, .frame f ∈ st.out → freed st.src.mem.last f.slots = duplicates f.slots

theorem keyFrame_keeps_iff {m : Mem ε} (f : Report) :
    (keyFrame f.slots m).cnt = m.cnt ↔ freed m.last f.slots = duplicates f.slots := by
  rw [keyFrame_cnt_eq_iff, released_eq_freed]

theorem truthful_step {E : Esp ε} {s s' : Sys ε} {a : Act} {o : List Out}
    (h : step E s a = some (s', o)) (hs : Truthful s) :
    Truthful s' ↔ (s.mem.isOverflow = true → KeepsCnt E ⟨s, a, o, s'⟩) := by
  have hmax : (0 : UInt32) ≠ maxCnt := by decide
  cases core_step h with
  | frame f p src dst act out mem =>
      subst act out
      rw [Truthful, mem]
      constructor
      · intro htrue hhigh
        have hcnt := htrue (by simp [keyFrame_isOverflow, hhigh])
        rw [← hs hhigh, keyFrame_keeps_iff] at hcnt
        refine ⟨by simp [Act.setsTo], by simp, ?_⟩
        intro g hg
        obtain rfl : g = f := by simpa using hg
        exact hcnt
      · intro hkeeps hhigh'
        by_cases hhigh : s.mem.isOverflow = true
        · rw [← hs hhigh, keyFrame_keeps_iff]
          exact (hkeeps hhigh).frame f (by simp)
        · simp [keyFrame_isOverflow, hhigh] at hhigh'
          exact hhigh'.2
  | clear out noFrame noSet cnt last latch =>
      rw [Truthful, latch, cnt]
      exact ⟨fun htrue hhigh => absurd (htrue hhigh) hmax,
        fun hkeeps hhigh => absurd out (hkeeps hhigh).clear⟩
  | set n act noFrame noClear cnt last latch =>
      rw [Truthful, latch, cnt]
      constructor
      · intro htrue hhigh
        refine ⟨?_, noClear, fun f hf => absurd hf (noFrame f)⟩
        intro k hk
        obtain rfl : n = k := by simpa [act] using hk
        exact htrue hhigh
      · intro hkeeps hhigh
        exact (hkeeps hhigh).set n act
  | quiet noFrame noClear noSet cnt last latch =>
      have hkeeps : KeepsCnt E ⟨s, a, o, s'⟩ :=
        ⟨by simp [noSet], noClear, fun f hf => absurd hf (noFrame f)⟩
      refine ⟨fun _ _ => hkeeps, fun _ hhigh' => ?_⟩
      rw [cnt]
      rcases latch with h | h
      · exact hs (by rw [← h, hhigh'])
      · rw [h, Bool.or_eq_true] at hhigh'
        rcases hhigh' with hhigh | heq
        · exact hs hhigh
        · simpa using heq

theorem truthful_boot (E : Esp ε) (e : ε) (rx : List UInt8) : Truthful (boot E e rx) := by
  intro h
  simpa [boot, setup, startDisplay, readCnt, turnOffLed] using h

/-- While the latch is high, every step keeps the count. -/
def KeptWhileHigh (E : Esp ε) (tr : List (Step (Sys ε) Act Out)) : Prop :=
  ∀ st ∈ tr, st.src.mem.isOverflow = true → KeepsCnt E st

variable {E : Esp ε} {e : ε} {rx : List UInt8} {s : Sys ε} {tr : List (Step (Sys ε) Act Out)}

theorem truthful_of_forall (hrun : Run (sketch E) (boot E e rx) tr s)
    (h : ∀ st ∈ tr, Truthful st.dst) : Truthful s := by
  cases hrun with
  | nil => exact truthful_boot E e rx
  | snoc prev last => exact h _ (List.mem_append_right _ (List.mem_singleton_self _))

/-- In a run from boot the latch tells the truth in every state exactly when
every step keeps the count while the latch is high. -/
theorem truthful_run_iff (hrun : Run (sketch E) (boot E e rx) tr s) :
    (∀ st ∈ tr, Truthful st.dst) ↔ KeptWhileHigh E tr := by
  induction hrun with
  | nil => simp [KeptWhileHigh]
  | snoc prev last ih =>
      rw [KeptWhileHigh, List.forall_mem_append, List.forall_mem_append, ← KeptWhileHigh,
        List.forall_mem_singleton, List.forall_mem_singleton]
      constructor
      · rintro ⟨hall, hnow⟩
        exact ⟨ih.1 hall, (truthful_step last (truthful_of_forall prev hall)).1 hnow⟩
      · rintro ⟨hall, hnow⟩
        have htrue := ih.2 hall
        exact ⟨htrue, (truthful_step last (truthful_of_forall prev htrue)).2 hnow⟩

/-- In a run from boot the latch tells the truth in every state exactly when
every step keeps the count while the latch is high. In such a run, wherever `rw`
is called with a count other than `maxCnt`, it acts on what the buffer holds. -/
theorem latch_describes_count (hrun : Run (sketch E) (boot E e rx) tr s) :
    ((∀ st ∈ tr, Truthful st.dst) ↔ KeptWhileHigh E tr) ∧
      (KeptWhileHigh E tr → Truthful s ∧
        (s.pc = .loop → s.mem.cnt ≠ maxCnt →
          Alone E s (acted s.rx) ⟨actAll (acted s.rx) s.mem, [], .button⟩)) := by
  have hiff := truthful_run_iff hrun
  refine ⟨hiff, fun hkept => ?_⟩
  have htrue := truthful_of_forall hrun (hiff.2 hkept)
  refine ⟨htrue, fun hpc hcnt => ?_⟩
  have hlow : s.mem.isOverflow = false := by
    by_contra hhigh
    exact hcnt (htrue (by simpa using hhigh))
  have hcall := alone_rw E s.mem s.rx
  simp only [rw, hlow] at hcall
  rw [← hpc] at hcall
  exact hcall

/-- Flash that has never been written. -/
def erased : Eeprom := ⟨[], none, false, []⟩

/-- A press of ten seconds after boot, and the loop after it to its end. -/
def longPress : List Act :=
  [.cpu, .sample .high 0, .cpu, .cpu, .cpu, .cpu, .sample .low 10000, .cpu, .cpu, .cpu]

theorem latch_describes_count_erased :
    ∃ tr s, Run (sketch esp) (boot esp erased []) tr s ∧
      decide (s.mem.isOverflow = true ∧ s.pc = .button) = true ∧
      ((∀ st ∈ tr, Truthful st.dst) ↔ KeptWhileHigh esp tr) := by
  obtain ⟨tr, s, hrun, hlatch⟩ :=
    Machine.exists_run_of_exec (sketch esp) (boot esp erased []) [.cpu]
      (fun _ s => decide (s.mem.isOverflow = true ∧ s.pc = .button)) (by decide)
  exact ⟨tr, s, hrun, hlatch, (latch_describes_count hrun).1⟩

/-- The button clears the count and leaves the latch high. -/
theorem latch_outlives_clear :
    ¬ ∀ (e : Eeprom) (rx : List UInt8) (tr : List (Step (Sys Eeprom) Act Out)) (s : Sys Eeprom),
      Run (sketch esp) (boot esp e rx) tr s → s.pc = .loopEnd → s.mem.event = 0 → Truthful s := by
  intro h
  obtain ⟨tr, s, hrun, hs⟩ :=
    Machine.exists_run_of_exec (sketch esp) (boot esp erased []) longPress
      (fun _ s => decide (s.pc = .loopEnd ∧ s.mem.event = 0 ∧ s.mem.isOverflow = true ∧
        s.mem.cnt ≠ maxCnt)) (by decide)
  obtain ⟨hpc, hevent, hlatch, hcnt⟩ := of_decide_eq_true hs
  exact hcnt (h erased [] tr s hrun hpc hevent hlatch)

/-! ## Frames that come while the latch is high -/

/-- The latch was raised by a frame of the current call of `rw`. -/
def RaisedInCall (tr : List (Step (Sys ε) Act Out)) : Prop :=
  ∃ a x b, tr = a ++ x :: b ∧ x.src.mem.isOverflow = false ∧ x.dst.mem.isOverflow = true ∧
    (∃ f, .frame f ∈ x.out) ∧ ∀ y ∈ b, ∃ p, y.src.pc = .rw p

theorem RaisedInCall.snoc {tr : List (Step (Sys ε) Act Out)} {st : Step (Sys ε) Act Out}
    (h : RaisedInCall tr) {p : Pos} (hpc : st.src.pc = .rw p) : RaisedInCall (tr ++ [st]) := by
  obtain ⟨a, x, b, rfl, hlow, hhigh, hframe, hrw⟩ := h
  refine ⟨a, x, b ++ [st], by simp, hlow, hhigh, hframe, ?_⟩
  intro y hy
  rcases List.mem_append.1 hy with hy | hy
  · exact hrw y hy
  · rw [List.mem_singleton.1 hy]
    exact ⟨p, hpc⟩

theorem handle_isOverflow (E : Esp ε) (m : Mem ε) (q : Request) :
    (handle E m q).1.isOverflow = m.isOverflow := by
  rw [handle_eq]

/-- `loop` gets into `rw` only by a call with the latch low. -/
theorem LoopMove.low_of_rw {E : Esp ε} {m m' : Mem ε} {pc : Pc Pos} {p : Pos} {o : List Out}
    (h : LoopMove E .read57 m pc m' (.rw p) o) : m'.isOverflow = false := by
  cases h with
  | call src latch dst mem out => rw [mem, latch]
  | shown c src dst mem out => simp at dst
  | skip src latch dst mem out | clear src event dst mem out | noClear src event dst mem out
  | set src event dst mem out | noSet src event dst mem out | again src dst mem out => cases dst

/-- Inside `rw` the latch is high only if a frame of the same call has raised
it. -/
theorem raisedInCall (hrun : Run (sketch E) (boot E e rx) tr s) {p : Pos}
    (hpc : s.pc = .rw p) (hhigh : s.mem.isOverflow = true) : RaisedInCall tr := by
  induction hrun generalizing p with
  | nil => simp [boot] at hpc
  | @snoc tr s s' a o prev last ih =>
      have hmoves : step E s a = some (s', o) := last
      cases moves_of_step hmoves with
      | drained hpc' hrx => simp at hpc
      | read p' q hpc' hrx hnext => exact (ih hpc' hhigh).snoc hpc'
      | frame p' f hpc' hrx hnext =>
          -- either the latch was high before this frame, or this frame raised it
          by_cases hsrc : s.mem.isOverflow = true
          · exact (ih hpc' hsrc).snoc hpc'
          · exact ⟨tr, _, [], rfl, by simpa using hsrc, hhigh, ⟨f, by simp⟩, by simp⟩
      | main m pc o hmain =>
          dsimp only at hpc hhigh
          subst hpc
          rw [(loopStep_cases hmain).low_of_rw] at hhigh
          exact absurd hhigh (by simp)
      | sample curState millis m pc o hpc' hsample =>
          rcases (sampleButton_cases hsample).dst with hdst | ⟨c, hdst, -⟩ <;>
          · rw [hdst] at hpc
            cases hpc
      | rx b => exact (ih hpc hhigh).snoc hpc
      | http q hdelay =>
          rw [handle_isOverflow] at hhigh
          exact (ih hpc hhigh).snoc hpc
      | ticker hdelay => exact (ih hpc hhigh).snoc hpc

/-- A latch raised in a call is high ever after. -/
theorem high_of_raisedInCall {E : Esp ε} {s₀ s : Sys ε} {tr : List (Step (Sys ε) Act Out)}
    (hrun : Run (sketch E) s₀ tr s) (h : RaisedInCall tr) : s.mem.isOverflow = true := by
  obtain ⟨a, x, b, rfl, -, hhigh, -, -⟩ := h
  obtain ⟨-, -, hrest⟩ := hrun.split
  exact hrest.state_invariant (I := fun s => s.mem.isOverflow = true) hhigh
    (fun s a o s' hs hstep => latch_stays hstep hs)

/-- The count has been neither set nor cleared since the latch was raised. -/
def Undisturbed (E : Esp ε) (tr : List (Step (Sys ε) Act Out)) : Prop :=
  ∀ st ∈ tr, st.src.mem.isOverflow = true → st.act.setsTo E = none ∧ .cleared ∉ st.out

/-- No frame changes the count any more once the latch is high, until the count
is set or cleared. -/
def CountingStops (E : Esp ε) (tr : List (Step (Sys ε) Act Out)) : Prop :=
  Along (fun pre st => st.src.mem.isOverflow = true → Undisturbed E pre →
    ∀ f, .frame f ∈ st.out → st.dst.mem.cnt = st.src.mem.cnt) tr

/-- Every frame behind the one that raised the latch, in the same call of `rw`,
frees as many slots as it shows duplicates. -/
def RestOfCallKeeps (E : Esp ε) (tr : List (Step (Sys ε) Act Out)) : Prop :=
  Along (fun pre st => RaisedInCall pre → Undisturbed E pre →
    ∀ f, .frame f ∈ st.out → freed st.src.mem.last f.slots = duplicates f.slots) tr

theorem frame_in_run {E : Esp ε} {s₀ s : Sys ε} {pre post : List (Step (Sys ε) Act Out)}
    {st : Step (Sys ε) Act Out} (hrun : Run (sketch E) s₀ (pre ++ st :: post) s) {f : Report}
    (hf : .frame f ∈ st.out) :
    (∃ p, st.src.pc = .rw p) ∧
      (st.dst.mem.cnt = st.src.mem.cnt ↔
        freed st.src.mem.last f.slots = duplicates f.slots) := by
  obtain ⟨-, hstep, -⟩ := hrun.split
  cases core_step hstep with
  | frame g p src dst act out mem =>
      rw [out] at hf
      obtain rfl : f = g := by simpa using hf
      exact ⟨⟨p, src⟩, by rw [mem, keyFrame_keeps_iff]⟩
  | clear out noFrame noSet cnt last latch => exact absurd hf (noFrame f)
  | set n act noFrame noClear cnt last latch => exact absurd hf (noFrame f)
  | quiet noFrame noClear noSet cnt last latch => exact absurd hf (noFrame f)

theorem countingStops_iff_restOfCallKeeps (hrun : Run (sketch E) (boot E e rx) tr s) :
    CountingStops E tr ↔ RestOfCallKeeps E tr := by
  constructor
  · rintro h pre st post rfl hraised hundisturbed f hf
    have hhigh := high_of_raisedInCall hrun.split.1 hraised
    exact (frame_in_run hrun hf).2.1 (h pre st post rfl hhigh hundisturbed f hf)
  · rintro h pre st post rfl hhigh hundisturbed f hf
    obtain ⟨⟨p, hpc⟩, hiff⟩ := frame_in_run hrun hf
    exact hiff.2 (h pre st post rfl (raisedInCall hrun.split.1 hpc hhigh) hundisturbed f hf)

/-- As long as counting stops, an undisturbed count stays at `maxCnt`. -/
theorem keptWhileHigh_of_undisturbed {E : Esp ε} {s₀ s : Sys ε}
    {tr : List (Step (Sys ε) Act Out)} (hrun : Run (sketch E) s₀ tr s)
    (hstops : CountingStops E tr) (hundisturbed : Undisturbed E tr) : KeptWhileHigh E tr := by
  intro st hst hhigh
  obtain ⟨hset, hclear⟩ := hundisturbed st hst hhigh
  obtain ⟨pre, post, rfl⟩ := List.append_of_mem hst
  have hpre : Undisturbed E pre := fun y hy => hundisturbed y (List.mem_append_left _ hy)
  refine ⟨by simp [hset], hclear, fun f hf => ?_⟩
  exact (frame_in_run hrun hf).2.1 (hstops pre st post rfl hhigh hpre f hf)

/-- In a run from boot no frame changes the count between the raising of the
latch and the next clear or `/set` exactly when every frame behind the one that
raised the latch, in the same call of `rw`, frees as many slots as it shows
duplicates. The count is then `maxCnt` all that time. -/
theorem counting_stops_iff (hrun : Run (sketch E) (boot E e rx) tr s) :
    (CountingStops E tr ↔ RestOfCallKeeps E tr) ∧
      (RestOfCallKeeps E tr → Undisturbed E tr → Truthful s) := by
  refine ⟨countingStops_iff_restOfCallKeeps hrun, fun hkeeps hundisturbed => ?_⟩
  have hstops := (countingStops_iff_restOfCallKeeps hrun).2 hkeeps
  have hkept := keptWhileHigh_of_undisturbed hrun hstops hundisturbed
  exact truthful_of_forall hrun ((truthful_run_iff hrun).2 hkept)

/-- A key goes down and comes up, twice. -/
def twoKeystrokes : List Frame := [pressFrame, releaseFrame, pressFrame, releaseFrame]

theorem counting_stops_iff_separate :
    ∃ tr s, Run (sketch esp) (boot esp (stored 4294967294) (encodeAll twoKeystrokes)) tr s ∧
      decide (s.mem.isOverflow = true) = true ∧
      (CountingStops esp tr ↔ RestOfCallKeeps esp tr) := by
  obtain ⟨tr, s, hrun, hlatch⟩ :=
    Machine.exists_run_of_exec (sketch esp)
      (boot esp (stored 4294967294) (encodeAll twoKeystrokes)) (List.replicate 31 .cpu)
      (fun _ s => decide (s.mem.isOverflow = true)) (by decide)
  exact ⟨tr, s, hrun, hlatch, (counting_stops_iff hrun).1⟩

/-- Two keystrokes in one buffer lead from `maxCnt - 1` past `maxCnt`. -/
theorem counting_goes_on :
    ¬ ∀ (e : Eeprom) (rx : List UInt8) (tr : List (Step (Sys Eeprom) Act Out)) (s : Sys Eeprom),
      Run (sketch esp) (boot esp e rx) tr s → CountingStops esp tr := by
  intro h
  obtain ⟨pre, st, t, hrun, hst⟩ :=
    Machine.exists_last_of_exec (sketch esp)
      (boot esp (stored 4294967294) (encodeAll twoKeystrokes)) (List.replicate 63 .cpu)
      (fun pre st => decide (st.src.mem.isOverflow = true ∧
        (∀ y ∈ pre, y.act.setsTo esp = none ∧ Out.cleared ∉ y.out) ∧
        Out.frame ⟨0, 0, 0, 0, 0, 0, 0, 0⟩ ∈ st.out ∧ st.dst.mem.cnt ≠ st.src.mem.cnt)) (by decide)
  obtain ⟨hhigh, hundisturbed, hframe, hcnt⟩ := of_decide_eq_true hst
  exact hcnt (h _ _ _ t hrun pre st [] rfl hhigh (fun y hy _ => hundisturbed y hy) _ hframe)

end Byter
