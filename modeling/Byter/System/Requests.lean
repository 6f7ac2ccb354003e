import Mathlib.Data.List.TakeWhile
import Byter.System.Persistence

/-!
# What a web client can rely on

`/set` does not look at the text that it is given: with the right password every
text is accepted, and what `String::toInt` makes of it is stored in `cnt`. Neither
`/set` nor `/clear` touches the flash, and `GET /` reads nothing else. A client
therefore reads its own writes only after a save or after the clear has been
carried out.
-/

namespace Byter

open Transition

variable {ε : Type*}

/-! ## Numerals -/

/-- The decimal numerals of `n`. -/
structure Numeral (text : String) (n : ℕ) : Prop where
  nonempty : text.toList ≠ []
  digits : ∀ c ∈ text.toList, c.isDigit = true
  value : Nat.ofDigitChars 10 text.toList 0 = n

theorem numeral_twelve : Numeral "12" 12 :=
  ⟨by decide, List.all_eq_true.1 (by decide), by decide⟩

theorem foldl_digits (cs : List Char) (n : ℕ) (h : ∀ c ∈ cs, c.isDigit = true) :
    cs.foldl (fun (n : Int) c => 10 * n + ((c.toNat : Int) - 48)) n =
      Nat.ofDigitChars 10 cs n := by
  induction cs generalizing n with
  | nil => simp
  | cons c cs ih =>
      have hlow : 48 ≤ c.toNat := (Char.isDigit_iff_toNat.1 (h c List.mem_cons_self)).1
      have hdigit : 10 * (n : Int) + ((c.toNat : Int) - 48) =
          ((10 * n + (c.toNat - 48) : ℕ) : Int) := by
        omega
      rw [List.foldl_cons, hdigit, ih _ fun d hd => h d (List.mem_cons_of_mem c hd),
        Nat.ofDigitChars_cons]
      rfl

/-- `atol` on digits is their value, up to the greatest `long`. -/
theorem atol_digits {cs : List Char} (h : ∀ c ∈ cs, c.isDigit = true) :
    atol cs = min 2147483647 (Nat.ofDigitChars 10 cs 0 : Int) := by
  have hblank : cs.dropWhile (fun c => c.toNat = 32 ∨ 9 ≤ c.toNat ∧ c.toNat ≤ 13) = cs := by
    cases cs with
    | nil => rfl
    | cons c cs =>
        have hlow : 48 ≤ c.toNat := (Char.isDigit_iff_toNat.1 (h c List.mem_cons_self)).1
        rw [List.dropWhile_cons_of_neg]
        simp
        omega
  have hall : cs.takeWhile Char.isDigit = cs := List.takeWhile_eq_self_iff.2 h
  have hvalue := foldl_digits cs 0 h
  have hnat := Int.natCast_nonneg (Nat.ofDigitChars 10 cs 0)
  unfold atol
  dsimp only
  rw [hblank]
  split
  · exact absurd (h '-' List.mem_cons_self) (by decide)
  · exact absurd (h '+' List.mem_cons_self) (by decide)
  · rw [hall]
    rw [Int.natCast_zero] at hvalue
    rw [hvalue]
    omega

/-- The documented behaviour of `String::toInt`. -/
def Esp.ToIntIsAtol (E : Esp ε) : Prop := ∀ text, E.toInt text = Int32.ofInt (atol text.toList)

theorem toUInt32_numeral {E : Esp ε} (hE : E.ToIntIsAtol) {text : String} {n : ℕ}
    (h : Numeral text n) (hn : n ≤ 2147483647) : (E.toInt text).toUInt32 = UInt32.ofNat n := by
  have hvalue : atol text.toList = n := by
    rw [atol_digits h.digits, h.value]
    omega
  rw [hE, hvalue, Int32.ofInt_eq_ofNat, Int32.toUInt32_ofNat']

/-! ## What `/set` accepts -/

variable {E : Esp ε}

/-- The password, or the password with a `NUL` and anything behind it. -/
def HasPassword (hack : Option String) : Prop :=
  hack = some "hack" ∨ ∃ rest, hack = some ("hack\x00" ++ rest)

theorem hasPassword_iff (text : String) : HasPassword (some text) ↔ equals text "hack" = true := by
  have hplain : "hack".toList.takeWhile (fun c => c.toNat ≠ 0) = "hack".toList := by decide
  rw [HasPassword, equals, decide_eq_true_iff, hplain]
  simp only [Option.some.injEq]
  constructor
  · rintro (rfl | ⟨rest, rfl⟩)
    · exact hplain
    · rw [String.toList_append]
      rfl
  · intro h
    have hsplit := List.takeWhile_append_dropWhile
      (p := fun c => decide (c.toNat ≠ 0)) (l := text.toList)
    rw [h] at hsplit
    cases hrest : text.toList.dropWhile fun c => decide (c.toNat ≠ 0) with
    | nil =>
        rw [hrest, List.append_nil] at hsplit
        exact Or.inl (String.toList_inj.1 hsplit.symm)
    | cons c cs =>
        have hzero := List.head?_dropWhile_not (fun c => decide (c.toNat ≠ 0)) text.toList
        rw [hrest] at hzero hsplit
        have hc : c = '\x00' := Char.toNat_inj.1 (by simpa using hzero)
        have hend : "hack\x00".toList = "hack".toList ++ ['\x00'] := by decide
        have hcs : (String.ofList cs).toList = cs := String.toList_ofList
        refine Or.inr ⟨String.ofList cs, String.toList_inj.1 ?_⟩
        rw [← hsplit, hc, String.toList_append, hend, hcs, List.append_assoc]
        rfl

/-- `/set` answers `200` to every text that comes with the password, raises the
event and stores a number: the value of the text if it is a numeral up to
`2147483647`. Without a text or without the password it answers `400` and changes
nothing. -/
theorem set_answers (hE : E.ToIntIsAtol) (m : Mem ε) (cnt hack : Option String) :
    (∀ text, cnt = some text → HasPassword hack →
      (handle E m (.set cnt hack)).2.code = 200 ∧
        (∃ k, (handle E m (.set cnt hack)).1 = { m with cnt := k, event := 2 }) ∧
        ∀ n, Numeral text n → n ≤ 2147483647 →
          (handle E m (.set cnt hack)).1.cnt.toNat = n) ∧
      (cnt = none ∨ ¬ HasPassword hack →
        handle E m (.set cnt hack) = (m, ⟨400, "invalid request"⟩)) := by
  constructor
  · intro text hcnt hhack
    obtain ⟨password, rfl⟩ : ∃ password, hack = some password := by
      obtain h | ⟨rest, h⟩ := hhack <;> exact ⟨_, h⟩
    have hpassword := (hasPassword_iff password).1 hhack
    subst hcnt
    have hset : handle E m (.set (some text) (some password)) =
        ({ m with cnt := (E.toInt text).toUInt32, event := 2 },
          ⟨200, "KeyStoke Count Has Been Hacked To " ++ text⟩) := by
      simp [handle, onSet, hpassword]
    rw [hset]
    refine ⟨rfl, ⟨_, rfl⟩, ?_⟩
    intro n hn hle
    dsimp only
    rw [toUInt32_numeral hE hn hle, UInt32.toNat_ofNat']
    omega
  · intro hbad
    refine onSet_refused m ?_
    rcases cnt with _ | text
    · rfl
    · rcases hack with _ | password
      · rfl
      · have hne : ¬ equals password "hack" = true := fun hpassword =>
          hbad.elim (fun hnone => by cases hnone) fun hno =>
            hno ((hasPassword_iff password).2 hpassword)
        simp [Act.setsTo, hne]

theorem set_answers_twelve :
    (handle esp (setup esp (stored 7)) (.set (some "12") (some "hack"))).1.cnt.toNat = 12 :=
  ((set_answers (fun _ => rfl) (setup esp (stored 7)) (some "12") (some "hack")).1 "12" rfl
    (Or.inl rfl)).2.2 12 numeral_twelve (by decide)

/-- A text that is no numeral is accepted. -/
theorem set_accepts_letters :
    ¬ ∀ (e : Eeprom) (text : String), (∀ n, n ≤ 4294967295 → ¬ Numeral text n) →
      (handle esp (setup esp e) (.set (some text) (some "hack"))).2.code = 400 := by
  intro h
  have hletters : ∀ n, n ≤ 4294967295 → ¬ Numeral "abc" n :=
    fun n _ hn => absurd (hn.digits 'a' (by decide)) (by decide)
  exact absurd (h (stored 7) "abc" hletters) (by decide)

/-! ## What a client reads after its own request -/

section Reading

variable {V : Chip ε} {t s u : Sys ε} {tr : List (Step (Sys ε) Act Out)}

/-- Whether a clear has been carried out. -/
def clearedIn (tr : List (Step (Sys ε) Act Out)) : Bool := tr.any fun st => .cleared ∈ st.out

/-- Whether the count has been saved. -/
def savedIn (tr : List (Step (Sys ε) Act Out)) : Bool := tr.any fun st => st.out.any Out.isSave

/-- What is stored after a stretch of a run that began with the count `n` and the
stored word `w`, when the count is changed by clears only. -/
def storedAfter (tr : List (Step (Sys ε) Act Out)) (n w : UInt32) : UInt32 :=
  if clearedIn tr then 0 else if savedIn tr then n else w

/-- No frame is acted on and no `/set` is accepted. -/
def Untouched (E : Esp ε) (tr : List (Step (Sys ε) Act Out)) : Prop :=
  ∀ st ∈ tr, (∀ f, .frame f ∉ st.out) ∧ st.act.setsTo E = none

/-- What is stored after an untouched stretch, and what the count is. -/
theorem persisted_untouched (hrun : Run (sketch E) t tr u) (h : Untouched E tr) (w : UInt32) :
    persisted w tr = storedAfter tr t.mem.cnt w ∧
      u.mem.cnt = if clearedIn tr then 0 else t.mem.cnt := by
  induction hrun with
  | nil => exact ⟨rfl, rfl⟩
  | @snoc tr s s' a o prev last ih =>
      obtain ⟨hword, hcnt⟩ := ih fun st hst => h st (List.mem_append_left _ hst)
      obtain ⟨hframe, hset⟩ := h ⟨s, a, o, s'⟩ (by simp)
      have hclear : clearedIn (tr ++ [⟨s, a, o, s'⟩]) =
          (clearedIn tr || decide (.cleared ∈ o)) := by
        simp [clearedIn]
      have hsave : savedIn (tr ++ [⟨s, a, o, s'⟩]) = (savedIn tr || o.any Out.isSave) := by
        simp [savedIn]
      rw [persisted_snoc, hword, keep, storedAfter, storedAfter, hclear, hsave]
      dsimp only at hframe hset ⊢
      rw [hcnt]
      cases core_step last with
      | frame f p src dst act out mem => exact absurd (by simp [out]) (hframe f)
      | clear out noFrame noSet cnt last latch => simp [out, cnt]
      | set n act noFrame noClear cnt last latch =>
          rw [hset] at act
          exact absurd act (by simp)
      | quiet noFrame noClear noSet cnt last latch =>
          rw [cnt, hcnt]
          simp only [noClear, decide_false, Bool.or_false, if_false]
          cases clearedIn tr <;> cases savedIn tr <;> cases o.any Out.isSave <;> simp

theorem word_since (hE : V.Lawful E) (hrun : Run (sketch E) t tr u)
    (hout : V.Reliable t.mem.eeprom) :
    V.word u.mem.eeprom = persisted (V.word t.mem.eeprom) tr ∧ V.Reliable u.mem.eeprom := by
  induction hrun with
  | nil => exact ⟨rfl, hout⟩
  | snoc prev last ih =>
      obtain ⟨hword, hout'⟩ := ih
      rw [persisted_snoc, ← hword]
      exact (store_step last).keep hE hout'

/-- A client reads the stored count. For a request and a later `GET /`, with no
frame and no accepted `/set` in between: after `/set` to a numeral up to
`2147483647` the client reads zero if a clear was carried out in between, else
that number if it was saved in between, and else what was stored before; after
`/clear` it reads zero if the clear was carried out in between. -/
theorem get_after_request (hE : V.Lawful E) (hatol : E.ToIntIsAtol)
    (hout : V.Reliable t.mem.eeprom) {q g : Step (Sys ε) Act Out}
    (hrun : Run (sketch E) t (q :: (tr ++ [g])) s) (huntouched : Untouched E tr)
    (hget : g.act = .http .root) :
    (∀ text n, Numeral text n → n ≤ 2147483647 →
      q.act = .http (.set (some text) (some "hack")) →
        (∃ text', q.out = [.sent (.set (some text) (some "hack")) ⟨200, text'⟩]) ∧
          g.out = [.sent .root
            (countReport (storedAfter tr (UInt32.ofNat n) (V.word t.mem.eeprom)))]) ∧
      (q.act = .http .clear →
        (∃ text', q.out = [.sent .clear ⟨200, text'⟩]) ∧
          g.out = [.sent .root
            (countReport (storedAfter tr t.mem.cnt (V.word t.mem.eeprom)))]) := by
  obtain ⟨hsrc, hq, hrest⟩ := hrun.uncons
  obtain ⟨hmid, hg, -⟩ := hrest.split
  rw [hget] at hg
  rw [hsrc] at hq
  obtain ⟨hkept, hout'⟩ := (store_step hq).keep (a := q.act) hE hout
  have hword := (word_since hE hmid hout').1
  have hreport : g.out = [.sent .root (countReport (storedAfter tr q.dst.mem.cnt
      (V.word q.dst.mem.eeprom)))] := by
    rw [get_out hg, (hE.readCnt_spec g.src.mem).1, hword, (persisted_untouched hmid huntouched _).1]
  have hanswer : ∀ r, q.act = .http r → q.out = [.sent r (handle E t.mem r).2] ∧
      q.dst.mem = (handle E t.mem r).1 ∧ V.word q.dst.mem.eeprom = V.word t.mem.eeprom := by
    intro r hact
    rw [hact] at hq
    obtain ⟨hsent, hmem⟩ := http_step hq
    rw [hsent, keep_sent] at hkept
    exact ⟨hsent, hmem, hkept⟩
  rw [hreport]
  constructor
  · intro text n hn hle hact
    obtain ⟨hsent, hmem, hsame⟩ := hanswer _ hact
    have hset : handle E t.mem (.set (some text) (some "hack")) =
        ({ t.mem with cnt := UInt32.ofNat n, event := 2 },
          ⟨200, "KeyStoke Count Has Been Hacked To " ++ text⟩) := by
      have hpassword : equals "hack" "hack" = true := rfl
      simp [handle, onSet, hpassword, toUInt32_numeral hatol hn hle]
    rw [hset] at hsent hmem
    rw [hsame, hmem]
    exact ⟨⟨_, hsent⟩, rfl⟩
  · intro hact
    obtain ⟨hsent, hmem, hsame⟩ := hanswer _ hact
    rw [hsame, hmem]
    exact ⟨⟨_, hsent⟩, rfl⟩

end Reading

/-- The sketch in the delay that ends `loop`, with a seven stored. -/
def waiting : Sys Eeprom := ⟨setup esp (stored 7), [], .loopEnd⟩

theorem get_after_request_saved :
    ∃ q p g s, Run (sketch esp) waiting (q :: ([p] ++ [g])) s ∧
      g.out = [.sent .root (countReport 12)] := by
  obtain ⟨tr, s, hrun, htr⟩ := Machine.exists_run_of_exec (sketch esp) waiting
    [.http (.set (some "12") (some "hack")), .ticker, .http .root]
    (fun tr _ => decide (tr.map Step.act =
      [.http (.set (some "12") (some "hack")), .ticker, .http .root] ∧
        (tr.map Step.out)[1]? = some [Out.wrote true])) (by decide)
  obtain ⟨hacts, hsaved⟩ := of_decide_eq_true htr
  rcases tr with _ | ⟨q, _ | ⟨p, _ | ⟨g, _ | ⟨_, _⟩⟩⟩⟩
  all_goals simp at hacts
  obtain ⟨hq, hp, hg⟩ := hacts
  have hout : p.out = [.wrote true] := by simpa using hsaved
  have huntouched : Untouched esp [p] := by
    intro st hst
    obtain rfl := List.mem_singleton.1 hst
    exact ⟨by simp [hout], by rw [hp]; rfl⟩
  refine ⟨q, p, g, s, hrun, ?_⟩
  have hread := ((get_after_request Eeprom.chip_lawful (fun _ => rfl) (fun _ => rfl)
    hrun huntouched hg).1 "12" 12 numeral_twelve (by decide) hq).2
  rw [hread]
  simp [storedAfter, clearedIn, savedIn, hout, Out.isSave]

/-- A count that was set is not read back before it is saved. -/
theorem set_not_read_back :
    ¬ ∀ (e : Eeprom) (rx : List UInt8) (pre tr : List (Step (Sys Eeprom) Act Out))
        (q g : Step (Sys Eeprom) Act Out) (s : Sys Eeprom), Eeprom.chip.Reliable e →
      Run (sketch esp) (boot esp e rx) (pre ++ q :: (tr ++ [g])) s → Untouched esp tr →
      (∀ st ∈ tr, st.act ≠ .http .clear) →
      q.act = .http (.set (some "12") (some "hack")) → g.act = .http .root →
      g.out = [.sent .root (countReport 12)] := by
  intro h
  obtain ⟨pre, g, s, hrun, hg⟩ :=
    Machine.exists_last_of_exec (sketch esp) (boot esp (stored 7) [])
      (idle ++ [.http (.set (some "12") (some "hack")), .http .root])
      (fun pre st => decide (st.act = Act.http .root ∧ (readCnt esp st.src.mem).1 = 7) &&
        pre.getLast?.any fun q => decide (q.act = Act.http (.set (some "12") (some "hack"))))
      (by decide)
  simp only [Bool.and_eq_true, decide_eq_true_eq] at hg
  obtain ⟨⟨hget, hseven⟩, hlast⟩ := hg
  rcases List.eq_nil_or_concat pre with rfl | ⟨pre', q, rfl⟩
  · simp at hlast
  · rw [List.concat_eq_append] at hrun
    have hq : q.act = .http (.set (some "12") (some "hack")) := by simpa using hlast
    obtain ⟨-, hstep, -⟩ := hrun.split
    rw [hget] at hstep
    have hout := h (stored 7) [] pre' [] q g s (fun _ => rfl) (by simpa using hrun)
      (by simp [Untouched]) (by simp) hq hget
    rw [get_out hstep, hseven] at hout
    simp only [List.cons.injEq, and_true, Out.sent.injEq, true_and] at hout
    exact absurd (countReport_injective hout) (by decide)

end Byter
