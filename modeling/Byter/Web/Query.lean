import Mathlib.Tactic.SplitIfs
import Byter.Web.Packets

/-!
# Targets of requests

A client writes the path and the parameters of a request into one target. It may write
a byte in more than one way, and a parameter with or without a sign of equality. Only what
ends a part of the target must be escaped in it. Whatever the client chooses, the server
decodes the path and the parameters that were meant, in their order.
-/

namespace Byter

/-! ## What a client writes -/

/-- `t` writes the bytes `v` in a part of a target that these bytes would end. -/
inductive Writes (ends : Bytes) : Bytes → Bytes → Prop
  | nil : Writes ends [] []
  | plain {v t : Bytes} {b : UInt8} (graphic : 32 < b) (free : b ∉ bytes "%+" ++ ends)
      (rest : Writes ends v t) : Writes ends (b :: v) (b :: t)
  | plus {v t : Bytes} (rest : Writes ends v t) : Writes ends (32 :: v) (43 :: t)
  | percent {v t : Bytes} {c d h l : UInt8} (high : hexDigit c = some h)
      (low : hexDigit d = some l) (rest : Writes ends v t) :
      Writes ends ((16 * h + l) :: v) (37 :: c :: d :: t)

/-- `f` writes a parameter, which has a name and a value. -/
inductive WritesParam : Bytes × Bytes → Bytes → Prop
  | assigned {n v t u : Bytes} (name : Writes (bytes "&=") n t) (value : Writes (bytes "&") v u) :
      WritesParam (n, v) (t ++ 61 :: u)
  | bare {n t : Bytes} (name : Writes (bytes "&=") n t) (nonempty : t ≠ []) : WritesParam (n, []) t

inductive WritesQuery : List (Bytes × Bytes) → Bytes → Prop
  | one {p : Bytes × Bytes} {f : Bytes} (param : WritesParam p f) : WritesQuery [p] f
  | more {p : Bytes × Bytes} {ps : List (Bytes × Bytes)} {f q : Bytes} (param : WritesParam p f)
      (rest : WritesQuery ps q) : WritesQuery (p :: ps) (f ++ 38 :: q)

/-- `t` writes a path and the parameters of a query. -/
inductive WritesTarget : Bytes → List (Bytes × Bytes) → Bytes → Prop
  | path {v t : Bytes} (path : Writes (bytes "?") v t) (nonempty : t ≠ []) : WritesTarget v [] t
  | query {v t q : Bytes} {ps : List (Bytes × Bytes)} (path : Writes (bytes "?") v t)
      (nonempty : t ≠ []) (query : WritesQuery ps q) : WritesTarget v ps (t ++ 63 :: q)

variable {ends n v t u f q : Bytes} {p : Bytes × Bytes} {ps : List (Bytes × Bytes)}

/-- Most bytes may stand for themselves. -/
theorem writes_self (h : ∀ b ∈ v, 32 < b ∧ b ∉ bytes "%+" ++ ends) : Writes ends v v := by
  induction v with
  | nil => exact .nil
  | cons b v ih =>
      obtain ⟨hgraphic, hfree⟩ := h b List.mem_cons_self
      exact .plain hgraphic hfree (ih fun b' hb' => h b' (List.mem_cons_of_mem b hb'))

/-! ## Bytes of a target -/

theorem graphic_hexDigit {c h : UInt8} (hdigit : hexDigit c = some h) :
    32 < c ∧ c ∉ bytes "&=?" := by
  have hlist : bytes "&=?" = [38, 61, 63] := by decide
  rw [hlist]
  unfold hexDigit at hdigit
  grind

theorem Writes.graphic (h : Writes ends v t) : ∀ b ∈ t, 32 < b := by
  induction h with
  | nil => simp
  | plain graphic free rest ih => exact List.forall_mem_cons.2 ⟨graphic, ih⟩
  | plus rest ih => exact List.forall_mem_cons.2 ⟨by decide, ih⟩
  | percent high low rest ih =>
      refine List.forall_mem_cons.2 ⟨by decide, ?_⟩
      exact List.forall_mem_cons.2
        ⟨(graphic_hexDigit high).1, List.forall_mem_cons.2 ⟨(graphic_hexDigit low).1, ih⟩⟩

/-- What would end the part does not occur in it. -/
theorem Writes.not_mem (h : Writes ends v t) {b : UInt8} (hends : b ∈ ends)
    (hb : b ∈ bytes "&=?") : b ∉ t := by
  have hlist : bytes "&=?" = [38, 61, 63] := by decide
  have hsign : b ≠ 37 ∧ b ≠ 43 := by
    rw [hlist] at hb
    grind
  induction h with
  | nil => exact List.not_mem_nil
  | plain graphic free rest ih =>
      rw [List.mem_cons, not_or]
      exact ⟨fun heq => free (List.mem_append_right _ (heq ▸ hends)), ih⟩
  | plus rest ih => exact List.mem_cons.not.2 (not_or.2 ⟨hsign.2, ih⟩)
  | percent high low rest ih =>
      simp only [List.mem_cons, not_or]
      exact ⟨hsign.1, fun heq => (graphic_hexDigit high).2 (heq ▸ hb),
        fun heq => (graphic_hexDigit low).2 (heq ▸ hb), ih⟩

theorem WritesParam.not_mem_amp (h : WritesParam p f) : 38 ∉ f := by
  cases h with
  | assigned name value =>
      have hname := name.not_mem (b := 38) (by decide) (by decide)
      have hvalue := value.not_mem (b := 38) (by decide) (by decide)
      simp [hname, hvalue]
  | bare name nonempty => exact name.not_mem (by decide) (by decide)

theorem WritesParam.ne_nil (h : WritesParam p f) : f ≠ [] := by
  cases h with
  | assigned name value => simp
  | bare name nonempty => exact nonempty

/-- There is no blank and no zero byte in a query. -/
theorem WritesParam.graphic (h : WritesParam p f) : ∀ b ∈ f, 32 < b := by
  cases h with
  | assigned name value =>
      intro b hb
      rw [List.mem_append, List.mem_cons] at hb
      obtain hb | rfl | hb := hb
      · exact name.graphic b hb
      · decide
      · exact value.graphic b hb
  | bare name nonempty => exact name.graphic

theorem WritesQuery.graphic (h : WritesQuery ps q) : ∀ b ∈ q, 32 < b := by
  induction h with
  | one param => exact param.graphic
  | more param rest ih =>
      intro b hb
      rw [List.mem_append, List.mem_cons] at hb
      obtain hb | rfl | hb := hb
      · exact param.graphic b hb
      · decide
      · exact ih b hb

theorem WritesTarget.graphic (h : WritesTarget v ps t) : ∀ b ∈ t, 32 < b := by
  cases h with
  | path path nonempty => exact path.graphic
  | query path nonempty query =>
      intro b hb
      rw [List.mem_append, List.mem_cons] at hb
      obtain hb | rfl | hb := hb
      · exact path.graphic b hb
      · decide
      · exact query.graphic b hb

/-! ## Decoding -/

theorem urlDecode_cons {b : UInt8} (h : b ∉ bytes "%+") : urlDecode (b :: t) = b :: urlDecode t := by
  have hlist : bytes "%+" = [37, 43] := by decide
  rw [hlist, List.mem_cons, List.mem_singleton, not_or] at h
  rw [urlDecode]
  · rintro c d rest rfl
    exact absurd rfl h.1
  · exact h.2

theorem urlDecode_of_writes (h : Writes ends v t) : urlDecode t = v := by
  induction h with
  | nil => rfl
  | plain graphic free rest ih =>
      rw [urlDecode_cons fun hmem => free (List.mem_append_left ends hmem), ih]
  | plus rest ih => rw [urlDecode, ih]
  | percent high low rest ih =>
      rw [urlDecode, ih, strtol, high, low]

/-! ## Parts of a string -/

/-- Where the strings have no zero byte, `indexOf` finds the first of its character. -/
theorem indexOf_append (pre : Bytes) {l : Bytes} {c : UInt8} (hzero : 0 ∉ l) :
    indexOf (pre ++ l) c pre.length = (l.idxOf? c).map (· + pre.length) := by
  unfold indexOf
  split
  · have hnil : l = [] := by
      rw [List.length_append] at *
      exact List.eq_nil_of_length_eq_zero (by omega)
    rw [hnil]
    rfl
  · rw [List.drop_left, cstr_of_not_mem hzero]

theorem idxOf?_append {l l' : Bytes} {c : UInt8} (h : c ∉ l) :
    (l ++ l').idxOf? c = (l'.idxOf? c).map (· + l.length) := by
  induction l with
  | nil => simp
  | cons b l ih =>
      rw [List.mem_cons, not_or] at h
      rw [List.cons_append, List.idxOf?_cons, if_neg (by simpa using Ne.symm h.1), ih h.2,
        Option.map_map]
      rfl

theorem idxOf?_append_cons {l l' : Bytes} {c : UInt8} (h : c ∉ l) :
    (l ++ c :: l').idxOf? c = some l.length := by
  simp [idxOf?_append h, List.idxOf?_cons]

theorem substring_append (pre l rest : Bytes) :
    substring (pre ++ (l ++ rest)) pre.length (some (pre.length + l.length)) = l := by
  simp [substring]

/-! ## The parameters of a query -/

/-- The parameter that is read. -/
def queryParam (p : Bytes × Bytes) : AsyncWebParameter := ⟨p.1, p.2, false, false, 0⟩

/-- One round of the loop reads one parameter. -/
theorem getParamsLoop_param (pre rest : Bytes) (h : WritesParam p f)
    (hrest : rest = [] ∨ ∃ q, rest = 38 :: q) (hzero : 0 ∉ f ++ rest) (fuel : ℕ) :
    getParamsLoop (pre ++ (f ++ rest)) (fuel + 1) pre.length =
      queryParam p :: getParamsLoop (pre ++ (f ++ rest)) fuel (pre.length + f.length + 1) := by
  have hstart : pre.length < (pre ++ (f ++ rest)).length := by
    have := List.length_pos_iff.2 h.ne_nil
    simp only [List.length_append]
    omega
  have hstop : (indexOf (pre ++ (f ++ rest)) 38 pre.length).getD (pre ++ (f ++ rest)).length =
      pre.length + f.length := by
    rw [indexOf_append pre hzero]
    obtain rfl | ⟨q, rfl⟩ := hrest
    · rw [List.append_nil, List.idxOf?_eq_none_iff.2 h.not_mem_amp]
      simp
    · rw [idxOf?_append_cons h.not_mem_amp]
      simp [Nat.add_comm]
  rw [getParamsLoop, if_pos hstart]
  dsimp only
  rw [hstop, indexOf_append pre hzero]
  cases h with
  | @assigned n v t u name value =>
      have hequal : ((t ++ 61 :: u) ++ rest).idxOf? 61 = some t.length := by
        rw [List.append_assoc]
        exact idxOf?_append_cons (name.not_mem (by decide) (by decide))
      have hname := substring_append pre t (61 :: u ++ rest)
      have hvalue := substring_append (pre ++ t ++ [61]) u rest
      have hlength : (t ++ 61 :: u).length = t.length + 1 + u.length := by
        simp only [List.length_append, List.length_cons]
        omega
      have hsplit : pre ++ t ++ [61] ++ (u ++ rest) = pre ++ ((t ++ 61 :: u) ++ rest) := by simp
      have hpre : (pre ++ t ++ [61]).length = pre.length + t.length + 1 := by simp [Nat.add_assoc]
      rw [hsplit, hpre] at hvalue
      rw [← List.append_assoc t (61 :: u) rest] at hname
      simp only [hequal, Option.map_some, hlength]
      rw [if_neg (by omega), Nat.add_comm t.length, hname, urlDecode_of_writes name]
      congr 2
      split
      · have hend : pre.length + (t.length + 1 + u.length) = pre.length + t.length + 1 + u.length := by
          omega
        rw [hend, hvalue, urlDecode_of_writes value]
      · have hu : u = [] := List.eq_nil_of_length_eq_zero (by omega)
        subst hu
        exact urlDecode_of_writes value
  | bare name nonempty =>
      have hname := substring_append pre f rest
      rw [idxOf?_append (name.not_mem (by decide) (by decide))]
      cases rest.idxOf? 61 with
      | none =>
          simp only [Option.map_none]
          rw [hname, urlDecode_of_writes name, if_neg (Nat.not_lt.2 (Nat.le_succ _))]
          rfl
      | some i =>
          have hequal : (if i + f.length + pre.length > pre.length + f.length then
              pre.length + f.length else i + f.length + pre.length) = pre.length + f.length := by
            split <;> omega
          simp only [Option.map_some]
          rw [hequal, hname, urlDecode_of_writes name, if_neg (by omega)]
          rfl

theorem getParamsLoop_of_writes (pre : Bytes) (h : WritesQuery ps q) {fuel : ℕ}
    (hfuel : q.length ≤ fuel) :
    getParamsLoop (pre ++ q) fuel pre.length = ps.map queryParam := by
  have hgraphic := h.graphic
  induction h generalizing pre fuel with
  | @one p f param =>
      have hlength := List.length_pos_iff.2 param.ne_nil
      obtain ⟨fuel, rfl⟩ : ∃ k, fuel = k + 1 := ⟨fuel - 1, by omega⟩
      have hround := getParamsLoop_param pre [] param (Or.inl rfl)
        (fun hmem => absurd (hgraphic 0 (by simpa using hmem)) (by decide)) fuel
      rw [List.append_nil] at hround
      rw [hround]
      cases fuel with
      | zero => rfl
      | succ fuel =>
          rw [getParamsLoop, if_neg (by simp)]
          rfl
  | @more p ps f q param rest ih =>
      obtain ⟨fuel, rfl⟩ : ∃ k, fuel = k + 1 := by
        refine ⟨fuel - 1, ?_⟩
        simp only [List.length_append, List.length_cons] at hfuel
        omega
      have hround := getParamsLoop_param pre (38 :: q) param (Or.inr ⟨q, rfl⟩)
        (fun hmem => absurd (hgraphic 0 hmem) (by decide)) fuel
      have hsplit : pre ++ (f ++ 38 :: q) = (pre ++ f ++ [38]) ++ q := by simp
      have hpre : pre.length + f.length + 1 = (pre ++ f ++ [38]).length := by simp [Nat.add_assoc]
      have hfuel' : q.length ≤ fuel := by
        simp only [List.length_append, List.length_cons] at hfuel
        omega
      rw [hround, hpre, hsplit, ih _ hfuel' fun b hb => hgraphic b (by simp [hb])]
      rfl

/-- Whatever way the client writes the parameters, these are the parameters that are read. -/
theorem getParams_of_writes (h : WritesQuery ps q) : getParams q = ps.map queryParam :=
  getParamsLoop_of_writes [] h (Nat.le_refl _)

end Byter
