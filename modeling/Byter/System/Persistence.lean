import Byter.Sketch.Steps
import Byter.Storage.Core

/-!
# The stored count over whole runs

`writeCnt`, `clearCnt` and `readCnt` open the EEPROM object each on their own, and
`setup` leaves a session of another size open. A run may also be cut by a reset,
after which `setup` starts from what is in the flash. The history of a run says
what must be stored: the count at the last save, zero after a clear. When every
write to the flash succeeds, that is what every read returns.
-/

namespace Byter

open Transition

variable {ε : Type*} {α : Type*}

/-! ## What a history leaves stored -/

/-- Whether an output tells of a save. -/
def Out.isSave : Out → Bool
  | .wrote _ => true
  | _ => false

/-- What is stored after a step, when `w` was stored before it. -/
def keep (w : UInt32) (st : Step (Sys ε) α Out) : UInt32 :=
  if .cleared ∈ st.out then 0 else if st.out.any Out.isSave then st.src.mem.cnt else w

/-- What is stored after a run that began with `w` in the flash. -/
def persisted (w : UInt32) (tr : List (Step (Sys ε) α Out)) : UInt32 := tr.foldl keep w

@[simp] theorem persisted_nil (w : UInt32) :
    persisted w ([] : List (Step (Sys ε) α Out)) = w := rfl

@[simp] theorem persisted_snoc (w : UInt32) (tr : List (Step (Sys ε) α Out))
    (st : Step (Sys ε) α Out) : persisted w (tr ++ [st]) = keep (persisted w tr) st := by
  simp [persisted]

theorem keep_sent (w : UInt32) (s s' : Sys ε) (a : α) (q : Request) (r : Response) :
    keep w ⟨s, a, [.sent q r], s'⟩ = w := by
  simp [keep, Out.isSave]

/-! ## What a step does to the EEPROM object -/

/-- A step saves, clears, reads, or leaves the EEPROM object alone. -/
inductive StoreStep (E : Esp ε) (m m' : Mem ε) (o : List Out) : Prop
  | save (out : o.any Out.isSave = true) (noClear : .cleared ∉ o)
      (eeprom : m'.eeprom = (writeCnt E m).2.eeprom)
  | clear (out : .cleared ∈ o) (eeprom : m'.eeprom = (clearCnt E m).eeprom)
  | read (noSave : o.any Out.isSave = false) (noClear : .cleared ∉ o)
      (eeprom : m'.eeprom = (readCnt E m).2.eeprom)
  | quiet (noSave : o.any Out.isSave = false) (noClear : .cleared ∉ o)
      (eeprom : m'.eeprom = m.eeprom)

theorem LoopMove.storeStep {π : Type*} {E : Esp ε} {entry : π} {m m' : Mem ε} {pc pc' : Pc π}
    {o : List Out} (h : LoopMove E entry m pc m' pc' o) : StoreStep E m m' o := by
  cases h with
  | clear src event dst mem out =>
      rw [mem, out]
      exact .clear (by simp) rfl
  | shown c src dst mem out =>
      rw [mem, out]
      refine .quiet rfl (by simp) ?_
      cases c <;> simp [resume, turnOnLed, turnOffLed]
  | call src latch dst mem out | skip src latch dst mem out | noClear src event dst mem out
  | set src event dst mem out | noSet src event dst mem out | again src dst mem out =>
      rw [mem, out]
      exact .quiet rfl (by simp) rfl

theorem ButtonCase.storeStep {π : Type*} {E : Esp ε} {curState : Level} {millis : UInt32}
    {m m' : Mem ε} {pc' : Pc π} {o : List Out} (h : ButtonCase E curState millis m m' pc' o) :
    StoreStep E m m' o := by
  cases h with
  | save => exact .save rfl (by simp) rfl
  | clear => exact .clear (by simp) rfl
  | press | level | wifiOff | wifiOn | ignored => exact .quiet rfl (by simp) rfl

theorem handle_store (E : Esp ε) (m : Mem ε) (q : Request) :
    StoreStep E m (handle E m q).1 [.sent q (handle E m q).2] := by
  cases handle_cases E m q with
  | root noSet mem => exact .read rfl (by simp) (by rw [mem])
  | clear noSet mem | set n act mem | refused noSet mem =>
      exact .quiet rfl (by simp) (by rw [mem])

theorem store_step {E : Esp ε} {s s' : Sys ε} {a : Act} {o : List Out}
    (h : step E s a = some (s', o)) : StoreStep E s.mem s'.mem o := by
  cases moves_of_step h with
  | drained hpc hrx => exact .quiet rfl (by simp) rfl
  | read p q hpc hrx hnext => exact .quiet rfl (by simp) rfl
  | frame p f hpc hrx hnext => exact .quiet rfl (by simp) (keyFrame_eeprom _ _)
  | main m pc o hstep => exact (loopStep_cases hstep).storeStep
  | sample curState millis m pc o hpc hstep => exact (sampleButton_branch hstep).storeStep
  | rx b => exact .quiet rfl (by simp) rfl
  | http q hpc => exact handle_store E s.mem q
  | ticker hpc => exact .save rfl (by simp) rfl

/-! ## Steps with a reliable flash -/

variable {E : Esp ε} {V : Chip ε} {e : ε} {rx : List UInt8} {s s' : Sys ε}

/-- With a reliable flash, a step leaves stored what its history asks for. -/
theorem StoreStep.keep {a : α} {o : List Out} (h : StoreStep E s.mem s'.mem o)
    (hE : V.Lawful E) (hout : V.Reliable s.mem.eeprom) :
    V.word s'.mem.eeprom = Byter.keep (V.word s.mem.eeprom) ⟨s, a, o, s'⟩ ∧
      V.Reliable s'.mem.eeprom := by
  cases h with
  | save out noClear eeprom =>
      obtain ⟨-, hword, hshift⟩ := hE.writeCnt_spec s.mem
      rw [eeprom]
      refine ⟨?_, hout.of_shift hshift⟩
      rw [hword, hout 0, Byter.keep, if_neg noClear, if_pos out]
      simp
  | clear out eeprom =>
      obtain ⟨hword, hshift⟩ := hE.clearCnt_spec s.mem
      rw [eeprom]
      refine ⟨?_, hout.of_shift hshift⟩
      rw [hword, hout 0, Byter.keep, if_pos out, if_pos rfl]
  | read noSave noClear eeprom =>
      have hquiet := (hE.readCnt_spec s.mem).2
      rw [eeprom, hquiet.word, hquiet.reliable, Byter.keep, if_neg noClear, noSave]
      exact ⟨rfl, hout⟩
  | quiet noSave noClear eeprom =>
      rw [eeprom, Byter.keep, if_neg noClear, noSave]
      exact ⟨rfl, hout⟩

/-! ## Runs with resets -/

/-- What may happen to a chip that is reset now and then: a step of the sketch, or
a reset, with the bytes that come in during `setup`. -/
inductive PowerAct
  | run (a : Act)
  | reset (rx : List UInt8)
deriving DecidableEq, Repr

def poweredStep (V : Chip ε) (E : Esp ε) (s : Sys ε) : PowerAct → Option (Sys ε × List Out)
  | .run a => step E s a
  | .reset rx => some (boot E (V.powerOn s.mem.eeprom) rx, [])

/-- The sketch on a chip that may be reset at any time. -/
def powered (V : Chip ε) (E : Esp ε) : Machine (Sys ε) PowerAct Out := ⟨poweredStep V E⟩

/-- The answer to `GET /`. -/
def countReport (cnt : UInt32) : Response :=
  ⟨200, "Up to now, " ++ toString cnt.toNat ++ " keyboard strokes have been recorded."⟩

theorem countReport_injective {m n : UInt32} (h : countReport m = countReport n) : m = n := by
  simp only [countReport, Response.mk.injEq, true_and] at h
  have hlist := congrArg String.toList h
  rw [String.toList_append, String.toList_append, String.toList_append, String.toList_append,
    List.append_cancel_right_eq, List.append_cancel_left_eq, String.toList_inj] at hlist
  exact UInt32.toNat_inj.1 (toString_injective hlist)

theorem http_step {q : Request} {o : List Out} (h : step E s (.http q) = some (s', o)) :
    o = [.sent q (handle E s.mem q).2] ∧ s'.mem = (handle E s.mem q).1 := by
  cases moves_of_step h with
  | http q hpc => exact ⟨rfl, rfl⟩

theorem get_out {o : List Out} (h : step E s (.http .root) = some (s', o)) :
    o = [.sent .root (countReport (readCnt E s.mem).1)] :=
  (http_step h).1

/-- In every state of a run with a reliable flash, the stored word is what the
history asks for. -/
theorem word_eq_persisted {tr : List (Step (Sys ε) PowerAct Out)} (hE : V.Lawful E)
    (hrun : Run (powered V E) (boot E e rx) tr s) (hout : V.Reliable e) :
    V.word s.mem.eeprom = persisted (V.word e) tr ∧ V.Reliable s.mem.eeprom := by
  induction hrun with
  | nil =>
      have hquiet := (hE.setup_spec e).2
      exact ⟨hquiet.word, hquiet.reliable.2 hout⟩
  | @snoc tr s s' a o prev last ih =>
      obtain ⟨hword, hout'⟩ := ih
      rw [persisted_snoc, ← hword]
      cases a with
      | run a => exact (store_step last).keep hE hout'
      | reset rx =>
          cases last
          have hquiet := (hE.powerOn_quiet s.mem.eeprom).trans (hE.setup_spec _).2
          refine ⟨?_, hquiet.reliable.2 hout'⟩
          rw [keep]
          exact hquiet.word

/-- In a run of any length, with resets, in which every write to the flash
succeeds, every read of the count returns the count at the last save, zero if a
clear came after it, and the word that was in the flash if there was neither. -/
theorem reads_return_last_save (hE : V.Lawful E) (hout : V.Reliable e)
    {tr : List (Step (Sys ε) PowerAct Out)} (hrun : Run (powered V E) (boot E e rx) tr s) :
    (boot E e rx).mem.cnt = V.word e ∧
      (readCnt E s.mem).1 = persisted (V.word e) tr ∧
      ∀ pre st post, tr = pre ++ st :: post →
        (st.act = .run (.http .root) →
          st.out = [.sent .root (countReport (persisted (V.word e) pre))]) ∧
        ∀ rx', st.act = .reset rx' → st.dst.mem.cnt = persisted (V.word e) pre := by
  refine ⟨(hE.setup_spec e).1, ?_, ?_⟩
  · rw [(hE.readCnt_spec s.mem).1]
    exact (word_eq_persisted hE hrun hout).1
  · rintro pre ⟨t, a, o, t'⟩ post rfl
    obtain ⟨hpre, hstep, -⟩ := hrun.split
    have hword := (word_eq_persisted hE hpre hout).1
    dsimp only at hword hstep ⊢
    constructor
    · rintro rfl
      rw [get_out hstep, (hE.readCnt_spec t.mem).1, hword]
    · rintro rx' rfl
      cases hstep
      exact (hE.setup_spec _).1.trans ((hE.powerOn_quiet _).word.trans hword)

/-- The steps of `loop` when nothing is to be done, up to its delay. -/
def idle : List Act := [.cpu, .cpu, .sample .low 0, .cpu, .cpu]

theorem reads_return_last_save_reset :
    ∃ tr s, Run (powered Eeprom.chip esp) (boot esp (stored 7) []) tr s ∧
      decide (s.mem.cnt = 12) = true ∧
      (readCnt esp s.mem).1 = persisted (Eeprom.chip.word (stored 7)) tr := by
  obtain ⟨tr, s, hrun, hcnt⟩ :=
    Machine.exists_run_of_exec (powered Eeprom.chip esp) (boot esp (stored 7) [])
      ((idle ++ [Act.http (.set (some "12") (some "hack")), Act.ticker]).map PowerAct.run ++
        [.reset []])
      (fun _ s => decide (s.mem.cnt = 12)) (by decide)
  exact ⟨tr, s, hrun, hcnt, (reads_return_last_save Eeprom.chip_lawful (fun _ => rfl) hrun).2.1⟩

end Byter
