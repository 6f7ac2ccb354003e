import Mathlib.Data.Int.ModEq
import Byter.Counting.History
import Byter.Stream.Frame
import Byter.Sketch.Eeprom
import Byter.Sketch.Steps

/-!
# The ledger of a run

The ledger of a run is kept in integers, from what goes into the run only: the
count at boot, the values of accepted `/set` requests, the clears and the
frames. The count of the sketch is always the ledger modulo `2^32`. It is the
ledger itself as long as every frame fits it, and a frame that does not fit is
exactly one on which the stored count leaves the integers.
-/

namespace Byter

open Transition

variable {ε : Type*}

/-- The integer count, and the slots that the frames so far leave held. -/
structure Ledger where
  count : ℤ
  last : Slots

namespace Ledger

/-- What a frame frees comes on top, its duplicates come off. -/
def frame (l : Ledger) (f : Report) : Ledger :=
  ⟨l.count + freed l.last f.slots - duplicates f.slots, remember l.last f.slots⟩

def out (l : Ledger) : Out → Ledger
  | .frame f => l.frame f
  | .cleared => { l with count := 0 }
  | _ => l

def step (E : Esp ε) (l : Ledger) (st : Step (Sys ε) Act Out) : Ledger :=
  match st.act.setsTo E with
  | some n => { l with count := n.toNat }
  | none => st.out.foldl out l

/-- There is enough in the ledger to take the duplicates of the frame from, and
what the frame frees does not lead past `maxCnt`. -/
def Fits (l : Ledger) (f : Report) : Prop :=
  duplicates f.slots ≤ l.count ∧
    l.count + freed l.last f.slots ≤ maxCnt.toNat + duplicates f.slots

/-- The ledger at boot. -/
def boot (E : Esp ε) (e : ε) : Ledger := ⟨(setup E e).cnt.toNat, .zero⟩

theorem foldl_quiet {o : List Out} (l : Ledger) (hframe : ∀ f, Out.frame f ∉ o)
    (hclear : Out.cleared ∉ o) : o.foldl out l = l := by
  refine foldl_eq_self fun x hx => ?_
  cases x with
  | frame f => exact absurd hx (hframe f)
  | cleared => exact absurd hx hclear
  | _ => rfl

theorem foldl_clear {o : List Out} (l : Ledger) (hframe : ∀ f, Out.frame f ∉ o)
    (hclear : Out.cleared ∈ o) : o.foldl out l = { l with count := 0 } := by
  induction o generalizing l with
  | nil => simp at hclear
  | cons x o ih =>
      have htail : ∀ f, Out.frame f ∉ o := fun f hf => hframe f (List.mem_cons_of_mem _ hf)
      rw [List.foldl_cons]
      by_cases ho : Out.cleared ∈ o
      · rw [ih _ htail ho]
        cases x with
        | frame f => exact absurd List.mem_cons_self (hframe f)
        | _ => rfl
      · obtain rfl : x = .cleared := by
          rcases List.mem_cons.1 hclear with h | h
          · exact h.symm
          · exact absurd h ho
        exact foldl_quiet _ htail ho

end Ledger

/-- The ledger of a run that starts with the ledger `l`. -/
def ledger (E : Esp ε) (l : Ledger) (tr : List (Step (Sys ε) Act Out)) : Ledger :=
  tr.foldl (Ledger.step E) l

@[simp] theorem ledger_snoc (E : Esp ε) (l : Ledger) (tr : List (Step (Sys ε) Act Out))
    (st : Step (Sys ε) Act Out) : ledger E l (tr ++ [st]) = (ledger E l tr).step E st := by
  simp [ledger]

/-- What a step with the outputs `o` does to the ledger, along with what it does
to the memory. -/
inductive LedgerStep (l l' : Ledger) (m m' : Mem ε) (o : List Out) : Prop
  | frame (f : Report) (out : o = [.frame f]) (ledger : l' = l.frame f)
      (mem : m' = keyFrame f.slots m)
  | load (n : UInt32) (noFrame : ∀ f, .frame f ∉ o) (ledger : l' = { l with count := n.toNat })
      (cnt : m'.cnt = n) (last : m'.last = m.last)
  | quiet (noFrame : ∀ f, .frame f ∉ o) (ledger : l' = l) (cnt : m'.cnt = m.cnt)
      (last : m'.last = m.last)

theorem ledger_step {E : Esp ε} {s s' : Sys ε} {a : Act} {o : List Out}
    (h : step E s a = some (s', o)) (l : Ledger) :
    LedgerStep l (l.step E ⟨s, a, o, s'⟩) s.mem s'.mem o := by
  cases core_step h with
  | frame f p src dst act out mem =>
      subst act
      subst out
      exact .frame f rfl rfl mem
  | clear out noFrame noSet cnt last latch =>
      have hl : l.step E ⟨s, a, o, s'⟩ = { l with count := (0 : UInt32).toNat } := by
        simp only [Ledger.step, noSet]
        exact Ledger.foldl_clear l noFrame out
      exact .load 0 noFrame hl cnt last
  | set n act noFrame noClear cnt last latch =>
      have hl : l.step E ⟨s, a, o, s'⟩ = { l with count := n.toNat } := by
        simp only [Ledger.step, act]
      exact .load n noFrame hl cnt last
  | quiet noFrame noClear noSet cnt last latch =>
      have hl : l.step E ⟨s, a, o, s'⟩ = l := by
        simp only [Ledger.step, noSet]
        exact Ledger.foldl_quiet l noFrame noClear
      exact .quiet noFrame hl cnt last

/-! ## The count is the ledger, modulo `2^32` -/

theorem keyFrame_modEq {m : Mem ε} {l : Ledger} (f : Report) (hlast : m.last = l.last)
    (hcnt : (m.cnt.toNat : ℤ) ≡ l.count [ZMOD 4294967296]) :
    ((keyFrame f.slots m).cnt.toNat : ℤ) ≡ (l.frame f).count [ZMOD 4294967296] := by
  have hdup := duplicates_le f.slots
  have hcount : (l.frame f).count = l.count + freed l.last f.slots - duplicates f.slots := rfl
  rw [keyFrame_cnt_toNat, released_eq_freed, hlast, hcount]
  unfold Int.ModEq at hcnt ⊢
  omega

variable {E : Esp ε} {e : ε} {rx : List UInt8} {s : Sys ε} {tr : List (Step (Sys ε) Act Out)}

/-- After every run from boot, the count is the ledger modulo `2^32`, and the
remembered slots are those of the ledger. -/
theorem cnt_modEq_ledger (hrun : Run (sketch E) (boot E e rx) tr s) :
    s.mem.last = (ledger E (.boot E e) tr).last ∧
      (s.mem.cnt.toNat : ℤ) ≡ (ledger E (.boot E e) tr).count [ZMOD 4294967296] := by
  induction hrun with
  | nil => exact ⟨displayNum_last _ _, Int.ModEq.refl _⟩
  | snoc prev last ih =>
      obtain ⟨hlast, hcnt⟩ := ih
      rw [ledger_snoc]
      cases ledger_step last (ledger E (.boot E e) _) with
      | frame f out ledger mem =>
          rw [ledger, mem]
          exact ⟨by rw [keyFrame_last, hlast]; rfl, keyFrame_modEq f hlast hcnt⟩
      | load n noFrame ledger cnt last' =>
          rw [ledger, cnt]
          exact ⟨last'.trans hlast, Int.ModEq.refl _⟩
      | quiet noFrame ledger cnt last' =>
          rw [ledger, cnt]
          exact ⟨last'.trans hlast, hcnt⟩

/-! ## The remembered slots are those of the frames -/

/-- The frames that `rw` has acted on in a run. -/
def framesIn (tr : List (Step (Sys ε) Act Out)) : List Slots :=
  (outputs tr).filterMap fun
    | .frame f => some f.slots
    | _ => none

theorem framesIn_snoc (tr : List (Step (Sys ε) Act Out)) (s s' : Sys ε) (a : Act)
    (o : List Out) (h : ∀ f, .frame f ∉ o) : framesIn (tr ++ [⟨s, a, o, s'⟩]) = framesIn tr := by
  have hnone : (o.filterMap fun
      | .frame f => some f.slots
      | _ => none) = ([] : List Slots) := by
    refine List.filterMap_eq_nil_iff.2 fun x hx => ?_
    cases x with
    | frame f => exact absurd hx (h f)
    | _ => rfl
  simp [framesIn, hnone]

theorem framesIn_frame (tr : List (Step (Sys ε) Act Out)) (s s' : Sys ε) (a : Act) (f : Report) :
    framesIn (tr ++ [⟨s, a, [.frame f], s'⟩]) = framesIn tr ++ [f.slots] := by
  simp [framesIn]

/-- After every run from boot, each remembered value is the newest value in range
that its slot has shown since it last showed zero, in the frames acted on. -/
theorem last_of_run (hrun : Run (sketch E) (boot E e rx) tr s) :
    s.mem.last.toList = (columns (framesIn tr)).map recentKey := by
  have hframes : s.mem.last = (frames (framesIn tr) ram).last := by
    induction hrun with
    | nil => exact displayNum_last _ _
    | snoc prev last ih =>
        cases core_step last with
        | frame f p src dst act out mem =>
            rw [out, framesIn_frame, frames_append, frames_cons, frames_nil, mem, keyFrame_last,
              keyFrame_last, ih]
        | clear out noFrame noSet cnt last' latch => rw [framesIn_snoc _ _ _ _ _ noFrame, last', ih]
        | set n act noFrame noClear cnt last' latch =>
            rw [framesIn_snoc _ _ _ _ _ noFrame, last', ih]
        | quiet noFrame noClear noSet cnt last' latch =>
            rw [framesIn_snoc _ _ _ _ _ noFrame, last', ih]
  rw [hframes]
  exact frames_last _ rfl

/-! ## The count is the ledger, while every frame fits -/

theorem hasRoom_iff_fits {m : Mem ε} {l : Ledger} (f : Report) (hlast : m.last = l.last)
    (hcnt : (m.cnt.toNat : ℤ) = l.count) : HasRoom f.slots m ↔ l.Fits f := by
  rw [HasRoom, Ledger.Fits, released_eq_freed, hlast, ← hcnt]
  omega

/-- All frames that come while the latch is low fit the ledger. -/
def AllFit (E : Esp ε) (e : ε) (tr : List (Step (Sys ε) Act Out)) : Prop :=
  Along (fun pre st => st.src.mem.isOverflow = false → ∀ f, .frame f ∈ st.out →
    (ledger E (.boot E e) pre).Fits f) tr

/-- All frames that come while the latch is low are counted in the integers. -/
def AllExact (tr : List (Step (Sys ε) Act Out)) : Prop :=
  Along (fun _ st => st.src.mem.isOverflow = false → ∀ f, .frame f ∈ st.out →
    CountsExactly f.slots st.src.mem) tr

theorem cnt_eq_ledger (hrun : Run (sketch E) (boot E e rx) tr s)
    (hfit : AllFit E e tr) (hlatch : s.mem.isOverflow = false) :
    (s.mem.cnt.toNat : ℤ) = (ledger E (.boot E e) tr).count := by
  induction hrun with
  | nil => rfl
  | @snoc tr s s' a o prev last ih =>
      obtain ⟨hfit, hfit'⟩ := along_snoc.1 hfit
      have hlast := (cnt_modEq_ledger prev).1
      have hlow : s.mem.isOverflow = false := by
        by_contra hhigh
        rw [latch_stays last (by simpa using hhigh)] at hlatch
        exact absurd hlatch (by simp)
      have hcnt := ih hfit hlow
      rw [ledger_snoc]
      cases ledger_step last (ledger E (.boot E e) tr) with
      | frame f out ledger mem =>
          have hroom := (hasRoom_iff_fits f hlast hcnt).2 (hfit' hlow f (by simp [out]))
          have henough := hroom.1
          rw [ledger, mem, keyFrame_cnt_exact hroom, released_eq_freed, hlast, Ledger.frame]
          dsimp only
          omega
      | load n noFrame ledger cnt last' => rw [ledger, cnt]
      | quiet noFrame ledger cnt last' => rw [ledger, cnt, hcnt]

/-- In a run from boot, every frame that comes while the latch is low is counted
in the integers, with no decrement of a zero and no increment past `maxCnt`,
exactly when every such frame fits the ledger. -/
theorem counts_exactly_iff (hrun : Run (sketch E) (boot E e rx) tr s) :
    AllExact tr ↔ AllFit E e tr := by
  induction hrun with
  | nil => exact ⟨fun _ => along_nil _, fun _ => along_nil _⟩
  | @snoc tr s s' a o prev last ih =>
      have hlast := (cnt_modEq_ledger prev).1
      have hiff : ∀ f, AllFit E e tr → s.mem.isOverflow = false →
          (CountsExactly f.slots s.mem ↔ (ledger E (.boot E e) tr).Fits f) := by
        intro f hfit hlow
        rw [countsExactly_iff, hasRoom_iff_fits f hlast (cnt_eq_ledger prev hfit hlow)]
      rw [AllExact, AllFit, along_snoc, along_snoc]
      constructor
      · rintro ⟨hall, hnow⟩
        have hfit := ih.1 hall
        exact ⟨hfit, fun hlow f hf => (hiff f hfit hlow).1 (hnow hlow f hf)⟩
      · rintro ⟨hfit, hnow⟩
        exact ⟨ih.2 hfit, fun hlow f hf => (hiff f hfit hlow).2 (hnow hlow f hf)⟩

/-- One key goes down and comes up. -/
def keystroke : List Frame := [pressFrame, releaseFrame]

theorem counts_exactly_iff_keystroke :
    ∃ tr s, Run (sketch esp) (boot esp (stored 0) (encodeAll keystroke)) tr s ∧
      decide (s.mem.cnt = 1) = true ∧ (AllExact tr ↔ AllFit esp (stored 0) tr) := by
  obtain ⟨tr, s, hrun, hcnt⟩ :=
    Machine.exists_run_of_exec (sketch esp) (boot esp (stored 0) (encodeAll keystroke))
      (List.replicate 32 .cpu) (fun _ s => decide (s.mem.cnt = 1)) (by decide)
  exact ⟨tr, s, hrun, hcnt, counts_exactly_iff hrun⟩

/-- A key that shows in `v3` and in `v7`. -/
def ghost : Frame := ⟨0, 0, 4, 0, 0, 0, 4, 0, 0x12, 0x1B⟩

/-- From a stored count of zero, a duplicate wraps the count. -/
theorem duplicate_wraps :
    ¬ ∀ (e : Eeprom) (rx : List UInt8) (tr : List (Step (Sys Eeprom) Act Out)) (s : Sys Eeprom),
      (setup esp e).cnt < maxCnt → Run (sketch esp) (boot esp e rx) tr s → AllExact tr := by
  intro h
  obtain ⟨pre, st, post, t, hrun, hst⟩ :=
    Machine.exists_step_of_exec (sketch esp) (boot esp (stored 0) ghost.bytes)
      (List.replicate 15 .cpu)
      (fun st => decide (st.src.mem.isOverflow = false ∧ .frame ghost.report ∈ st.out ∧
        st.src.mem.cnt = 0)) (by decide)
  obtain ⟨hlow, hframe, hzero⟩ := of_decide_eq_true hst
  have hexact := h (stored 0) ghost.bytes _ t (by decide) hrun pre st post rfl hlow _ hframe
  exact hexact.first_decrement (by decide) hzero

end Byter
