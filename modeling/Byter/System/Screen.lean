import Byter.Sketch.Screen
import Byter.System.Ledger

/-!
# The number on the screen

The count changes in `rw`, in a clear and in the handler of `/set`, and it is
drawn again only on some of these paths. After a clear and after a `/set` the
event flag is up until a message has been shown and the count is drawn behind it.
`rw` draws the count when a frame releases a slot. A frame that takes duplicates
off the count and releases nothing leaves the old number on the screen; how far
the screen is behind is the sum of the duplicates since the count was last drawn.
-/

namespace Byter

open Transition

variable {ε : Type*}

/-- Whether the action goes on from the delay in `displayText`. -/
def afterText (s : Sys ε) (a : Act) : Bool :=
  match a, s.pc with
  | .cpu, .displayText _ => true
  | _, _ => false

/-- What the outputs of a step add to the duplicates that are not drawn, when
`last` are the remembered slots before it. A frame that releases a slot draws the
count. -/
def undrawnOut (last : Slots) (k : ℕ) : Out → ℕ
  | .frame f => if freed last f.slots = 0 then k + duplicates f.slots else 0
  | _ => k

def undrawnStep (k : ℕ) (st : Step (Sys ε) Act Out) : ℕ :=
  if afterText st.src st.act then 0 else st.out.foldl (undrawnOut st.src.mem.last) k

/-- The duplicates taken off since the count was last drawn. -/
def undrawn (tr : List (Step (Sys ε) Act Out)) : ℕ := tr.foldl undrawnStep 0

@[simp] theorem undrawn_nil : undrawn ([] : List (Step (Sys ε) Act Out)) = 0 := rfl

@[simp] theorem undrawn_snoc (tr : List (Step (Sys ε) Act Out)) (st : Step (Sys ε) Act Out) :
    undrawn (tr ++ [st]) = undrawnStep (undrawn tr) st := by
  simp [undrawn]

theorem foldl_undrawnOut {o : List Out} (last : Slots) (k : ℕ) (h : ∀ f, .frame f ∉ o) :
    o.foldl (undrawnOut last) k = k := by
  refine foldl_eq_self fun x hx => ?_
  cases x with
  | frame f => exact absurd hx (h f)
  | _ => rfl

/-! ## What a step does to the screen -/

/-- What a step does to the panel, the count and the event flag. -/
inductive ScreenStep (s s' : Sys ε) (a : Act) (o : List Out) : Prop
  | frame (f : Report) (p : Pos) (src : s.pc = .rw p) (act : a = .cpu) (out : o = [.frame f])
      (mem : s'.mem = keyFrame f.slots s.mem)
  | shown (c : Caller) (src : s.pc = .displayText c) (act : a = .cpu)
      (drawn : Drawn s'.mem.cnt s'.mem)
  | message (c : Caller) (dst : s'.pc = .displayText c)
  | event (pc : s'.pc = s.pc) (event : s'.mem.event ≠ 0)
  | quiet (noFrame : ∀ f, .frame f ∉ o) (noText : afterText s a = false)
      (pc : ∀ c, s.pc = .displayText c → s'.pc = .displayText c)
      (gfx : s'.mem.gfx = s.mem.gfx) (cnt : s'.mem.cnt = s.mem.cnt)
      (event : s'.mem.event = s.mem.event)

theorem resume_drawn {π : Type*} (c : Caller) (m : Mem ε) :
    Drawn (resume (π := π) c m).1.cnt (resume (π := π) c m).1 := by
  refine ⟨m, ?_⟩
  cases c <;> simp [resume, turnOnLed, turnOffLed]

theorem LoopMove.screenStep {E : Esp ε} {s : Sys ε} {m : Mem ε} {pc : Pc Pos} {o : List Out}
    (h : LoopMove E .read57 s.mem s.pc m pc o) :
    ScreenStep s { s with mem := m, pc := pc } .cpu o := by
  have hquiet : (∀ c, s.pc ≠ .displayText c) → m = s.mem → o = [] →
      ScreenStep s { s with mem := m, pc := pc } .cpu o := by
    rintro hpc rfl rfl
    refine .quiet (by simp) ?_ (fun c hc => absurd hc (hpc c)) rfl rfl rfl
    cases hsrc : s.pc with
    | displayText c => exact absurd hsrc (hpc c)
    | _ => simp [afterText, hsrc]
  cases h with
  | clear src event dst mem out => exact .message .eventClear dst
  | set src event dst mem out => exact .message .manualSetCnt dst
  | shown c src dst mem out =>
      refine .shown c src rfl ?_
      rw [mem]
      exact resume_drawn c s.mem
  | call src latch dst mem out | skip src latch dst mem out | noClear src event dst mem out
  | noSet src event dst mem out | again src dst mem out =>
      exact hquiet (by simp [src]) mem out

theorem ButtonCase.screenStep {E : Esp ε} {curState : Level} {millis : UInt32} {s : Sys ε}
    {m : Mem ε} {pc : Pc Pos} {o : List Out} (hpc : s.pc = .button)
    (h : ButtonCase E curState millis s.mem m pc o) :
    ScreenStep s { s with mem := m, pc := pc } (.sample curState millis) o := by
  cases h with
  | save | wifiOff | wifiOn | clear => exact .message _ rfl
  | press | level | ignored => exact .quiet (by simp) rfl (by simp [hpc]) rfl rfl rfl

theorem handle_screen (E : Esp ε) (s : Sys ε) (q : Request) :
    ScreenStep s { s with mem := (handle E s.mem q).1 } (.http q)
      [.sent q (handle E s.mem q).2] := by
  cases handle_cases E s.mem q with
  | root noSet mem =>
      rw [mem]
      exact .quiet (by simp) rfl (fun c hc => hc) rfl rfl rfl
  | refused noSet mem =>
      rw [mem]
      exact .quiet (by simp) rfl (fun c hc => hc) rfl rfl rfl
  | clear noSet mem | set n act mem => exact .event rfl (by simp [mem])

theorem screen_step {E : Esp ε} {s s' : Sys ε} {a : Act} {o : List Out}
    (h : step E s a = some (s', o)) : ScreenStep s s' a o := by
  cases moves_of_step h with
  | drained hpc hrx =>
      exact .quiet (by simp) (by simp [afterText, hpc]) (by simp [hpc]) rfl rfl rfl
  | read p q hpc hrx hnext =>
      exact .quiet (by simp) (by simp [afterText, hpc]) (by simp [hpc]) rfl rfl rfl
  | frame p f hpc hrx hnext => exact .frame f p hpc rfl rfl rfl
  | main m pc o hstep => exact (loopStep_cases hstep).screenStep
  | sample curState millis m pc o hpc hstep =>
      exact (sampleButton_branch hstep).screenStep hpc
  | rx b => exact .quiet (by simp) rfl (fun c hc => hc) rfl rfl rfl
  | http q hpc => exact handle_screen E s q
  | ticker hpc => exact .quiet (by simp) rfl (fun c hc => hc) rfl rfl rfl

/-! ## The screen over a run -/

/-- A message is shown, or an event is pending, or the screen is behind the count
by `k`. -/
inductive Screen (k : ℕ) (s : Sys ε) : Prop
  | message (c : Caller) (pc : s.pc = .displayText c)
  | pending (event : s.mem.event ≠ 0)
  | number (n : UInt32) (drawn : Drawn n s.mem) (cnt : n = s.mem.cnt + UInt32.ofNat k)

theorem screen_frame {s s' : Sys ε} {k : ℕ} {f : Report} {p : Pos} (hs : Screen k s)
    (hpc : s.pc = .rw p) (hmem : s'.mem = keyFrame f.slots s.mem) :
    Screen (undrawnOut s.mem.last k (.frame f)) s' := by
  cases hs with
  | message c pc =>
      rw [hpc] at pc
      exact absurd pc (by simp)
  | pending event => exact .pending (by rwa [hmem, keyFrame_event])
  | number n drawn cnt =>
      rw [undrawnOut, ← released_eq_freed]
      by_cases hrel : released s.mem.last f.slots = 0
      · have hgfx : s'.mem.gfx = s.mem.gfx := by
          rw [hmem, keyFrame_eq]
          simp [hrel]
        have hcnt : s'.mem.cnt = s.mem.cnt - UInt32.ofNat (duplicates f.slots) := by
          rw [hmem, keyFrame_cnt, hrel]
          simp
        obtain ⟨m₀, hm₀⟩ := drawn
        refine .number n ⟨m₀, by rw [hgfx, hm₀]⟩ ?_
        rw [if_pos hrel, cnt, hcnt, UInt32.ofNat_add]
        grind
      · rw [if_neg hrel]
        refine .number s'.mem.cnt ?_ (by simp)
        rw [hmem, keyFrame_eq]
        simp only [ne_eq, hrel, not_false_eq_true, if_true, displayNum_cnt]
        exact ⟨_, rfl⟩

theorem screen_kept {E : Esp ε} {s s' : Sys ε} {a : Act} {o : List Out} {k : ℕ}
    (h : step E s a = some (s', o)) (hs : Screen k s) :
    Screen (undrawnStep k ⟨s, a, o, s'⟩) s' := by
  rw [undrawnStep]
  dsimp only
  cases screen_step h with
  | frame f p src act out mem =>
      rw [act, out, if_neg (by simp [afterText, src])]
      exact screen_frame hs src mem
  | shown c src act drawn =>
      rw [act, if_pos (by simp [afterText, src])]
      exact .number s'.mem.cnt drawn (by simp)
  | message c dst => exact .message c dst
  | event pc event => exact .pending event
  | quiet noFrame noText pc gfx cnt event =>
      rw [noText, if_neg (by simp), foldl_undrawnOut _ _ noFrame]
      cases hs with
      | message c hpc => exact .message c (pc c hpc)
      | pending hevent => exact .pending (by rwa [event])
      | number n drawn hcnt =>
          obtain ⟨m₀, hm₀⟩ := drawn
          exact .number n ⟨m₀, by rw [gfx, hm₀]⟩ (by rw [hcnt, cnt])

variable {E : Esp ε} {e : ε} {rx : List UInt8} {s : Sys ε} {tr : List (Step (Sys ε) Act Out)}

theorem screen_of_run (hrun : Run (sketch E) (boot E e rx) tr s) : Screen (undrawn tr) s := by
  induction hrun with
  | nil =>
      refine .number (setup E e).cnt ?_ (by simp [boot])
      exact ⟨_, by rw [boot, setup, displayNum_cnt]⟩
  | snoc prev last ih =>
      rw [undrawn_snoc]
      exact screen_kept last ih

/-- At the end of an iteration of `loop` with no event pending, in any run from
boot, the screen shows a number, and it is the count exactly when the duplicates
taken off since the count was last drawn are a multiple of `2^32`. -/
theorem screen_shows_count_iff (hrun : Run (sketch E) (boot E e rx) tr s) (hpc : s.pc = .loopEnd)
    (hevent : s.mem.event = 0) :
    (∃ n, Drawn n s.mem ∧ ∀ n', Drawn n' s.mem → n' = n) ∧
      (Drawn s.mem.cnt s.mem ↔ 4294967296 ∣ undrawn tr) := by
  cases screen_of_run hrun with
  | message c pc => exact absurd (hpc.symm.trans pc) (by simp)
  | pending event => exact absurd hevent event
  | number n drawn cnt =>
      refine ⟨⟨n, drawn, fun n' h => h.unique drawn⟩, ?_⟩
      have hsame : Drawn s.mem.cnt s.mem ↔ n = s.mem.cnt := by
        constructor
        · exact fun h => drawn.unique h
        · rintro rfl
          exact drawn
      have hlt := s.mem.cnt.toNat_lt
      rw [hsame, cnt, ← UInt32.toNat_inj, UInt32.toNat_add, UInt32.toNat_ofNat']
      omega

/-- A key that shows twice, and then comes up. -/
def ghostStroke : List Frame := [ghost, releaseFrame]

theorem screen_shows_count_iff_ghostStroke :
    ∃ tr s, Run (sketch esp) (boot esp (stored 5) (encodeAll ghostStroke)) tr s ∧
      decide (s.mem.cnt = 6) = true ∧ (Drawn s.mem.cnt s.mem ↔ 4294967296 ∣ undrawn tr) := by
  obtain ⟨tr, s, hrun, hs⟩ :=
    Machine.exists_run_of_exec (sketch esp) (boot esp (stored 5) (encodeAll ghostStroke))
      (List.replicate 34 .cpu ++ [.sample .low 0, .cpu, .cpu])
      (fun _ s => decide (s.mem.cnt = 6 ∧ s.pc = .loopEnd ∧ s.mem.event = 0)) (by decide)
  obtain ⟨hcnt, hpc, hevent⟩ := of_decide_eq_true hs
  exact ⟨tr, s, hrun, decide_eq_true hcnt, (screen_shows_count_iff hrun hpc hevent).2⟩

/-- A frame that shows a key twice takes one off the count and leaves the old
number on the screen. -/
theorem screen_behind_count :
    ¬ ∀ (e : Eeprom) (rx : List UInt8) (tr : List (Step (Sys Eeprom) Act Out)) (s : Sys Eeprom),
      Run (sketch esp) (boot esp e rx) tr s → s.pc = .loopEnd → s.mem.event = 0 →
      Drawn s.mem.cnt s.mem := by
  intro h
  obtain ⟨tr, s, hrun, hs⟩ :=
    Machine.exists_run_of_exec (sketch esp) (boot esp (stored 5) ghost.bytes)
      (List.replicate 18 .cpu ++ [.sample .low 0, .cpu, .cpu])
      (fun _ s => decide (s.pc = .loopEnd ∧ s.mem.event = 0 ∧
        s.mem.gfx.panelText.filter Char.isDigit ≠ Nat.toDigits 10 s.mem.cnt.toNat)) (by decide)
  obtain ⟨hpc, hevent, hdigits⟩ := of_decide_eq_true hs
  exact hdigits (h _ _ tr s hrun hpc hevent).digits

end Byter
