import Mathlib.Data.List.GetD
import Byter.Sketch.Eeprom

/-!
# What the sketch relies on in the EEPROM object

The EEPROM object of the core is not part of the repository. `Chip` names what
can be observed of its state: the flash, the buffer of an open session, whether
the buffer differs from what was loaded, and whether the next writes to the flash
will succeed. `Lawful` says how the calls of the sketch act on that. A failed
write leaves the flash as it was; nothing is assumed about the flash behind the
end of the buffer.

From these laws each of the three functions of the sketch that open a session
gets one lemma about the stored word, whatever session was open before.
-/

namespace Byter

variable {ε : Type*}

/-- The observations of the state of the EEPROM object. `outcome e n` is the
outcome of the `n`-th write to the flash from now on, and `powerOn` is what is
left of the object after a reset. -/
structure Chip (ε : Type*) where
  flash : ε → ℕ → UInt8
  data : ε → Option (List UInt8)
  dirty : ε → Bool
  outcome : ε → ℕ → Bool
  powerOn : ε → ε

/-- From `e` to `e'` the flash and the outcomes to come are as they were. -/
structure Chip.Quiet (V : Chip ε) (e e' : ε) : Prop where
  flash : V.flash e' = V.flash e
  outcome : V.outcome e' = V.outcome e

/-- The documented behaviour of the EEPROM object. -/
structure Chip.Lawful (V : Chip ε) (E : Esp ε) : Prop where
  /-- `begin` rounds the size up to whole words and loads the flash. -/
  begin_data (e : ε) (n : ℕ) (hpos : 0 < n) (hle : n ≤ 4096) :
    V.data (E.eepromBegin e n) = some ((List.range ((n + 3) / 4 * 4)).map (V.flash e))
  begin_dirty (e : ε) (n : ℕ) (hpos : 0 < n) : V.dirty (E.eepromBegin e n) = false
  begin_quiet (e : ε) (n : ℕ) : V.Quiet e (E.eepromBegin e n)
  /-- `put` copies the four bytes when they fit. -/
  put_data (e : ε) (d : List UInt8) (addr : ℕ) (t : UInt32) (hd : V.data e = some d)
    (hfit : addr + 4 ≤ d.length) :
    V.data (E.eepromPut e addr t) = some (d.take addr ++ littleEndian t ++ d.drop (addr + 4))
  put_dirty (e : ε) (d : List UInt8) (addr : ℕ) (t : UInt32) (hd : V.data e = some d)
    (hfit : addr + 4 ≤ d.length) :
    V.dirty (E.eepromPut e addr t) = (V.dirty e || (d.drop addr).take 4 != littleEndian t)
  put_quiet (e : ε) (addr : ℕ) (t : UInt32) : V.Quiet e (E.eepromPut e addr t)
  get_data (e : ε) (d : List UInt8) (addr : ℕ) (hd : V.data e = some d)
    (hfit : addr + 4 ≤ d.length) : E.eepromGet e addr = wordOf ((d.drop addr).take 4)
  write_data (e : ε) (d : List UInt8) (addr : ℕ) (b : UInt8) (hd : V.data e = some d)
    (hfit : addr < d.length) : V.data (E.eepromWrite e addr b) = some (d.set addr b)
  write_dirty (e : ε) (d : List UInt8) (addr : ℕ) (b : UInt8) (hd : V.data e = some d)
    (hfit : addr < d.length) :
    V.dirty (E.eepromWrite e addr b) = (V.dirty e || d.getD addr 0 != b)
  write_quiet (e : ε) (addr : ℕ) (b : UInt8) : V.Quiet e (E.eepromWrite e addr b)
  /-- `commit` does nothing to an unchanged buffer. -/
  commit_clean (e : ε) (d : List UInt8) (hd : V.data e = some d) (hdirty : V.dirty e = false) :
    E.eepromCommit e = (true, e)
  /-- `commit` writes a changed buffer to the flash. -/
  commit_written (e : ε) (d : List UInt8) (hd : V.data e = some d) (hdirty : V.dirty e = true)
    (hout : V.outcome e 0 = true) :
    (E.eepromCommit e).1 = true ∧ V.data (E.eepromCommit e).2 = some d ∧
      V.dirty (E.eepromCommit e).2 = false ∧
      ∀ i < d.length, V.flash (E.eepromCommit e).2 i = d.getD i 0
  /-- A buffer that could not be written stays changed. -/
  commit_failed (e : ε) (d : List UInt8) (hd : V.data e = some d) (hdirty : V.dirty e = true)
    (hout : V.outcome e 0 = false) :
    (E.eepromCommit e).1 = false ∧ V.data (E.eepromCommit e).2 = some d ∧
      V.dirty (E.eepromCommit e).2 = true ∧ V.flash (E.eepromCommit e).2 = V.flash e
  commit_outcome (e : ε) (d : List UInt8) (hd : V.data e = some d) (hdirty : V.dirty e = true)
    (n : ℕ) : V.outcome (E.eepromCommit e).2 n = V.outcome e (n + 1)
  /-- `end` commits, and drops the buffer. -/
  end_result (e : ε) : (E.eepromEnd e).1 = (E.eepromCommit e).1
  end_quiet (e : ε) : V.Quiet (E.eepromCommit e).2 (E.eepromEnd e).2
  powerOn_quiet (e : ε) : V.Quiet e (V.powerOn e)

namespace Chip

variable {V : Chip ε} {E : Esp ε}

/-- The word that is stored at `addr`. -/
def word (V : Chip ε) (e : ε) : UInt32 :=
  wordOf [V.flash e 1, V.flash e 2, V.flash e 3, V.flash e 4]

/-- All writes to the flash succeed. -/
def Reliable (V : Chip ε) (e : ε) : Prop := ∀ n, V.outcome e n = true

/-- The word that a buffer leaves in the flash. -/
theorem word_of_flash {e : ε} {d : List UInt8} (hlen : 5 ≤ d.length)
    (hflash : ∀ i < d.length, V.flash e i = d.getD i 0) :
    V.word e = wordOf ((d.drop 1).take 4) := by
  rw [word, hflash 1 (by omega), hflash 2 (by omega), hflash 3 (by omega), hflash 4 (by omega)]
  match d, hlen with
  | _ :: _ :: _ :: _ :: _ :: _, _ => rfl

namespace Quiet

theorem refl (e : ε) : V.Quiet e e := ⟨rfl, rfl⟩

theorem trans {e e' e'' : ε} (h : V.Quiet e e') (h' : V.Quiet e' e'') : V.Quiet e e'' :=
  ⟨h'.flash.trans h.flash, h'.outcome.trans h.outcome⟩

theorem word {e e' : ε} (h : V.Quiet e e') : V.word e' = V.word e := by
  rw [Chip.word, Chip.word, h.flash]

theorem reliable {e e' : ε} (h : V.Quiet e e') : V.Reliable e' ↔ V.Reliable e := by
  rw [Reliable, Reliable, h.outcome]

end Quiet

theorem Reliable.of_shift {e e' : ε} (hout : V.Reliable e)
    (hshift : ∃ k, ∀ n, V.outcome e' n = V.outcome e (n + k)) : V.Reliable e' := by
  obtain ⟨k, hshift⟩ := hshift
  intro n
  rw [hshift]
  exact hout (n + k)

namespace Lawful

variable (h : V.Lawful E)

/-! ## Ending a session -/

include h

theorem end_clean {e : ε} {d : List UInt8} (hd : V.data e = some d) (hdirty : V.dirty e = false) :
    V.Quiet e (E.eepromEnd e).2 := by
  have hquiet := h.end_quiet e
  rw [h.commit_clean e d hd hdirty] at hquiet
  exact hquiet

/-- A changed buffer is in the flash after `end` if the write succeeds, and the
flash is as before if it fails. -/
theorem end_dirty {e : ε} {d : List UInt8} (hd : V.data e = some d) (hdirty : V.dirty e = true) :
    (if V.outcome e 0 then ∀ i < d.length, V.flash (E.eepromEnd e).2 i = d.getD i 0
      else V.flash (E.eepromEnd e).2 = V.flash e) ∧
      ∀ n, V.outcome (E.eepromEnd e).2 n = V.outcome e (n + 1) := by
  have hquiet := h.end_quiet e
  constructor
  · cases hout : V.outcome e 0 with
    | true => simpa [hquiet.flash] using (h.commit_written e d hd hdirty hout).2.2.2
    | false => simpa [hquiet.flash] using (h.commit_failed e d hd hdirty hout).2.2.2
  · intro n
    rw [hquiet.outcome, h.commit_outcome e d hd hdirty]

/-! ## A session of five bytes -/

/-- The buffer after `begin(5)`. -/
theorem begin_five (e : ε) :
    V.data (E.eepromBegin e 5) = some ((List.range 8).map (V.flash e)) ∧
      V.dirty (E.eepromBegin e 5) = false ∧ V.Quiet e (E.eepromBegin e 5) :=
  ⟨h.begin_data e 5 (by decide) (by decide), h.begin_dirty e 5 (by decide), h.begin_quiet e 5⟩

/-- The buffer after `put(addr, t)` in such a session. -/
theorem put_five (e : ε) (t : UInt32) :
    ∃ d, V.data (E.eepromPut (E.eepromBegin e 5) addr t) = some d ∧ 5 ≤ d.length ∧
      wordOf ((d.drop 1).take 4) = t ∧
      V.dirty (E.eepromPut (E.eepromBegin e 5) addr t) = decide (V.word e ≠ t) ∧
      V.Quiet e (E.eepromPut (E.eepromBegin e 5) addr t) := by
  obtain ⟨hdata, hdirty, hquiet⟩ := h.begin_five e
  have hslice : (((List.range 8).map (V.flash e)).drop addr).take 4 =
      [V.flash e 1, V.flash e 2, V.flash e 3, V.flash e 4] := rfl
  refine ⟨_, h.put_data _ _ addr t hdata (by simp [addr]), by simp [addr, littleEndian],
    wordOf_littleEndian t, ?_, hquiet.trans (h.put_quiet _ _ _)⟩
  rw [h.put_dirty _ _ addr t hdata (by simp [addr]), hdirty, hslice, Bool.false_or, bne,
    Bool.eq_iff_iff]
  simp only [Bool.not_eq_true', beq_eq_false_iff_ne, decide_eq_true_eq, ne_eq, word, wordOf_eq_iff]

/-- Zeros written from the start of a buffer. If nothing has changed, they were
zeros before. -/
theorem write_zeros {e : ε} {d : List UInt8} (hd : V.data e = some d) (n : ℕ)
    (hn : n ≤ d.length) :
    V.data ((List.range n).foldl (fun e i => E.eepromWrite e i 0) e) =
        some (List.replicate n 0 ++ d.drop n) ∧
      (V.dirty ((List.range n).foldl (fun e i => E.eepromWrite e i 0) e) = false →
        d.take n = List.replicate n 0) ∧
      V.Quiet e ((List.range n).foldl (fun e i => E.eepromWrite e i 0) e) := by
  induction n with
  | zero => exact ⟨by simpa using hd, by simp, .refl e⟩
  | succ n ih =>
      obtain ⟨hdata, hclean, hquiet⟩ := ih (by omega)
      have hlen : n < (List.replicate n (0 : UInt8) ++ d.drop n).length := by
        simp
        omega
      have hnext : d.drop n = d[n] :: d.drop (n + 1) := List.drop_eq_getElem_cons (by omega)
      rw [List.range_succ, List.foldl_append, List.foldl_cons, List.foldl_nil]
      refine ⟨?_, ?_, hquiet.trans (h.write_quiet _ _ _)⟩
      · rw [h.write_data _ _ n 0 hdata hlen, hnext, List.set_append_right _ _ (by simp),
          List.length_replicate, Nat.sub_self, List.set_cons_zero, List.replicate_succ',
          List.append_assoc, List.singleton_append]
      · rw [h.write_dirty _ _ n 0 hdata hlen, hnext, List.getD_append_right _ _ _ _ (by simp)]
        intro hdirty
        simp only [Bool.or_eq_false_iff, bne_eq_false_iff_eq, List.length_replicate, Nat.sub_self,
          List.getD_cons_zero] at hdirty
        rw [List.take_succ_eq_append_getElem (by omega), hclean hdirty.1, hdirty.2,
          List.replicate_succ']

/-- The buffer in which `clearCnt` has set the five bytes to zero. -/
theorem writes_five (e : ε) :
    ∃ d, V.data ((List.range 5).foldl (fun e i => E.eepromWrite e i 0) (E.eepromBegin e 5)) =
        some d ∧ 5 ≤ d.length ∧ wordOf ((d.drop 1).take 4) = 0 ∧
      (V.dirty ((List.range 5).foldl (fun e i => E.eepromWrite e i 0) (E.eepromBegin e 5)) = false →
        V.word e = 0) ∧
      V.Quiet e ((List.range 5).foldl (fun e i => E.eepromWrite e i 0) (E.eepromBegin e 5)) := by
  obtain ⟨hbegin, -, hquiet⟩ := h.begin_five e
  obtain ⟨hdata, hzero, hquiet'⟩ := h.write_zeros hbegin 5 (by simp)
  refine ⟨_, hdata, by simp, rfl, ?_, hquiet.trans hquiet'⟩
  intro hdirty
  have hbytes : [V.flash e 0, V.flash e 1, V.flash e 2, V.flash e 3, V.flash e 4] =
      [0, 0, 0, 0, 0] := hzero hdirty
  simp only [List.cons.injEq, and_true] at hbytes
  obtain ⟨-, h1, h2, h3, h4⟩ := hbytes
  rw [word, h1, h2, h3, h4]
  rfl

/-! ## What the sketch does to the stored word -/

/-- `readCnt` returns the stored word and leaves it as it is. -/
theorem readCnt_spec (m : Mem ε) :
    (readCnt E m).1 = V.word m.eeprom ∧ V.Quiet m.eeprom (readCnt E m).2.eeprom := by
  obtain ⟨hdata, hdirty, hquiet⟩ := h.begin_five m.eeprom
  exact ⟨h.get_data _ _ addr hdata (by simp [addr]), hquiet.trans (h.end_clean hdata hdirty)⟩

/-- `writeCnt` reports the first of up to two writes. The count is stored if it
was stored before or if one of the two succeeds. -/
theorem writeCnt_spec (m : Mem ε) :
    (writeCnt E m).1 = (V.word m.eeprom == m.cnt || V.outcome m.eeprom 0) ∧
      V.word (writeCnt E m).2.eeprom =
        (if V.word m.eeprom = m.cnt ∨ V.outcome m.eeprom 0 ∨ V.outcome m.eeprom 1 then m.cnt
          else V.word m.eeprom) ∧
      ∃ k, ∀ n, V.outcome (writeCnt E m).2.eeprom n = V.outcome m.eeprom (n + k) := by
  obtain ⟨d, hdata, hlen, hword, hdirty, hquiet⟩ := h.put_five m.eeprom m.cnt
  have hres : (writeCnt E m).1 =
      (E.eepromCommit (E.eepromPut (E.eepromBegin m.eeprom 5) addr m.cnt)).1 := rfl
  have hmem : (writeCnt E m).2.eeprom =
      (E.eepromEnd (E.eepromCommit (E.eepromPut (E.eepromBegin m.eeprom 5) addr m.cnt)).2).2 := rfl
  rw [hres, hmem]
  generalize E.eepromPut (E.eepromBegin m.eeprom 5) addr m.cnt = e at *
  by_cases hsame : V.word m.eeprom = m.cnt
  · -- the buffer is as the flash, and nothing is written
    have hclean : V.dirty e = false := by rw [hdirty]; simp [hsame]
    have hend := hquiet.trans (h.end_clean hdata hclean)
    rw [h.commit_clean e d hdata hclean]
    exact ⟨by simp [hsame], by rw [hend.word]; simp [hsame], 0, fun n => by rw [hend.outcome]; rfl⟩
  · have hchanged : V.dirty e = true := by rw [hdirty]; simp [hsame]
    cases hout : V.outcome e 0 with
    | true =>
        obtain ⟨hfirst, hdata', hclean, hflash⟩ := h.commit_written e d hdata hchanged hout
        have hend := h.end_clean hdata' hclean
        rw [← hquiet.outcome, hfirst, hend.word, word_of_flash hlen hflash, hword, hout]
        refine ⟨by simp, by simp, 1, fun n => ?_⟩
        rw [hend.outcome, h.commit_outcome e d hdata hchanged]
    | false =>
        obtain ⟨hfirst, hdata', hdirty', hflash⟩ := h.commit_failed e d hdata hchanged hout
        obtain ⟨hsecond, hnext⟩ := h.end_dirty hdata' hdirty'
        have hshift := h.commit_outcome e d hdata hchanged
        rw [← hquiet.outcome, hfirst, hout]
        rw [hshift] at hsecond
        refine ⟨by simp [hsame], ?_, 2, fun n => by rw [hnext, hshift]⟩
        cases hout' : V.outcome e 1 with
        | true =>
            simp only [Nat.zero_add, hout', if_true] at hsecond
            rw [word_of_flash hlen hsecond, hword]
            simp
        | false =>
            simp only [Nat.zero_add, hout'] at hsecond
            rw [word, hsecond, hflash, hquiet.flash, ← word]
            simp [hsame]

/-- `clearCnt` stores a zero if its write succeeds, and leaves the stored word as
it is if the write fails. -/
theorem clearCnt_spec (m : Mem ε) :
    V.word (clearCnt E m).eeprom = (if V.outcome m.eeprom 0 then 0 else V.word m.eeprom) ∧
      ∃ k, ∀ n, V.outcome (clearCnt E m).eeprom n = V.outcome m.eeprom (n + k) := by
  obtain ⟨d, hdata, hlen, hword, hzero, hquiet⟩ := h.writes_five m.eeprom
  have hmem : (clearCnt E m).eeprom =
      (E.eepromEnd ((List.range 5).foldl (fun e i => E.eepromWrite e i 0)
        (E.eepromBegin m.eeprom 5))).2 := rfl
  rw [hmem]
  generalize (List.range 5).foldl (fun e i => E.eepromWrite e i 0) (E.eepromBegin m.eeprom 5) = e
    at *
  rw [← hquiet.outcome, ← hquiet.word]
  cases hdirty : V.dirty e with
  | false =>
      have hend := h.end_clean hdata hdirty
      rw [hend.word, hquiet.word, hzero hdirty]
      exact ⟨by simp, 0, fun n => by rw [hend.outcome]; rfl⟩
  | true =>
      obtain ⟨hend, hnext⟩ := h.end_dirty hdata hdirty
      refine ⟨?_, 1, hnext⟩
      cases hout : V.outcome e 0 with
      | true =>
          rw [hout, if_pos rfl] at hend
          rw [word_of_flash hlen hend, hword, if_pos rfl]
      | false =>
          rw [hout] at hend
          rw [word, hend]
          rfl

/-- After a reset the count is the stored word, and `setup` leaves that as it is. -/
theorem setup_spec (e : ε) : (setup E e).cnt = V.word e ∧ V.Quiet e (setup E e).eeprom := by
  have hbegin := h.begin_quiet e 256
  obtain ⟨hread, hquiet⟩ := h.readCnt_spec { eeprom := E.eepromBegin e 256 }
  constructor
  · rw [setup, displayNum_cnt]
    exact hread.trans hbegin.word
  · rw [setup, displayNum_eeprom]
    exact hbegin.trans hquiet

end Lawful

end Chip

/-! ## The EEPROM object of the model -/

namespace Eeprom

/-- Flash behind the end of the list reads `FF`, and writes for which no outcome
is listed succeed. -/
def chip : Chip Eeprom where
  flash e i := e.sector.getD i 0xFF
  data := Eeprom.data
  dirty := Eeprom.dirty
  outcome e n := e.outcomes.getD n true
  powerOn e := { e with data := none, dirty := false }

theorem put_eq {e : Eeprom} {d : List UInt8} {addr : ℕ} (t : UInt32) (hd : e.data = some d)
    (hfit : addr + 4 ≤ d.length) :
    e.put addr t =
      if (d.drop addr).take 4 ≠ littleEndian t then
        { e with
          data := some (d.take addr ++ littleEndian t ++ d.drop (addr + 4))
          dirty := true }
      else e := by
  simp only [put, hd, hfit, true_and]

theorem commit_eq {e : Eeprom} {d : List UInt8} (hd : e.data = some d) (hdirty : e.dirty = true) :
    e.commit =
      if e.outcomes.getD 0 true then
        (true, { e with
          sector := d ++ e.sector.drop d.length
          dirty := false
          outcomes := e.outcomes.tail })
      else (false, { e with outcomes := e.outcomes.tail }) := by
  rcases hout : e.outcomes with _ | ⟨_ | _, outcomes⟩ <;> simp [commit, hd, hdirty, hout]

theorem chip_lawful : chip.Lawful esp where
  begin_data e n hpos hle := by
    have hsize : min n 4096 = n := by omega
    simp [chip, esp, load, hsize, Nat.ne_of_gt hpos]
  begin_dirty e n hpos := by simp [chip, esp, load, Nat.ne_of_gt hpos]
  begin_quiet e n := by
    by_cases hn : n = 0
    · exact ⟨by simp [chip, esp, load, hn], by simp [chip, esp, load, hn]⟩
    · exact ⟨by simp [chip, esp, load, hn], by simp [chip, esp, load, hn]⟩
  put_data e d addr t hd hfit := by
    change (e.put addr t).data = _
    have hd' : e.data = some d := hd
    rw [put_eq t hd hfit]
    split_ifs with hsame
    · rfl
    · rw [not_not] at hsame
      rw [hd', ← hsame, List.append_assoc, ← List.drop_drop, List.take_append_drop,
        List.take_append_drop]
  put_dirty e d addr t hd hfit := by
    change (e.put addr t).dirty = (e.dirty || _)
    rw [put_eq t hd hfit]
    split_ifs with hsame <;> simp [hsame]
  put_quiet e addr t := by
    cases hd : e.data with
    | none => exact ⟨by simp [chip, esp, put, hd], by simp [chip, esp, put, hd]⟩
    | some d =>
        refine ⟨?_, ?_⟩ <;> simp only [chip, esp, put, hd] <;> split_ifs <;> rfl
  get_data e d addr hd hfit := by
    change e.get addr = _
    rw [get, show e.data = some d from hd]
  write_data e d addr b hd hfit := by
    change (e.write addr b).data = _
    have hd' : e.data = some d := hd
    simp only [write, hd', hfit, true_and]
    split_ifs with hsame
    · rfl
    · rw [not_not, List.getD_eq_getElem _ _ hfit] at hsame
      rw [hd', ← hsame, List.set_getElem_self]
  write_dirty e d addr b hd hfit := by
    change (e.write addr b).dirty = (e.dirty || _)
    have hd' : e.data = some d := hd
    simp only [write, hd', hfit, true_and]
    split_ifs with hsame
    · rw [bne_iff_ne.2 hsame, Bool.or_true]
    · rw [not_not] at hsame
      rw [hsame, bne_self_eq_false, Bool.or_false]
  write_quiet e addr b := by
    cases hd : e.data with
    | none => exact ⟨by simp [chip, esp, write, hd], by simp [chip, esp, write, hd]⟩
    | some d =>
        refine ⟨?_, ?_⟩ <;> simp only [chip, esp, write, hd] <;> split_ifs <;> rfl
  commit_clean e d hd hdirty := by
    have hd' : e.data = some d := hd
    have hdirty' : e.dirty = false := hdirty
    change e.commit = _
    simp [commit, hd', hdirty']
  commit_written e d hd hdirty hout := by
    have hcommit := commit_eq hd hdirty
    rw [if_pos (show e.outcomes.getD 0 true = true from hout)] at hcommit
    change e.commit.1 = true ∧ e.commit.2.data = some d ∧ e.commit.2.dirty = false ∧
      ∀ i < d.length, e.commit.2.sector.getD i 0xFF = d.getD i 0
    rw [hcommit]
    refine ⟨rfl, hd, rfl, fun i hi => ?_⟩
    rw [List.getD_append _ _ _ _ hi, List.getD_eq_getElem _ _ hi, List.getD_eq_getElem _ _ hi]
  commit_failed e d hd hdirty hout := by
    have hcommit := commit_eq hd hdirty
    rw [if_neg (by simpa [chip] using hout)] at hcommit
    change e.commit.1 = false ∧ e.commit.2.data = some d ∧ e.commit.2.dirty = true ∧
      (fun i => e.commit.2.sector.getD i 0xFF) = fun i => e.sector.getD i 0xFF
    rw [hcommit]
    exact ⟨rfl, hd, hdirty, rfl⟩
  commit_outcome e d hd hdirty n := by
    have hcommit := commit_eq hd hdirty
    change e.commit.2.outcomes.getD n true = e.outcomes.getD (n + 1) true
    rw [hcommit]
    split_ifs <;> cases e.outcomes <;> rfl
  end_result e := rfl
  end_quiet e := ⟨rfl, rfl⟩
  powerOn_quiet e := ⟨rfl, rfl⟩

end Eeprom

end Byter
