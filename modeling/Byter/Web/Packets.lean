import Byter.Scanner.Packets
import Byter.Web.Body

/-!
# Requests in packets

TCP hands over the bytes of a request in packets that are cut anywhere. Up to the end of the
head, `_onData` does on a packet what can be said byte by byte, so that the cuts do not matter.
Behind the head only the length of the packets counts for the time at which the handler is
called.
-/

namespace Byter

open AsyncWebServerRequest

variable {ρ : Type*} {S : AsyncWebServer ρ} {r r' : AsyncWebServerRequest ρ} {l buf : Bytes}

/-! ## The head byte by byte -/

/-- Lines are still expected. -/
def AsyncWebServerRequest.Reading (r : AsyncWebServerRequest ρ) : Prop :=
  r.parseState = .reqStart ∨ r.parseState = .reqHeaders

/-- What the head of a request makes of a byte: the line grows, or is parsed. -/
def AsyncWebServer.head (S : AsyncWebServer ρ) :
    Scanner (AsyncWebServerRequest ρ) UInt8 (List Effect) where
  next r b :=
    match r.parseState with
    | .reqStart | .reqHeaders =>
        if b = LF then
          let next := S.parseLine { r with temp := trim r.temp }
          (next.1, some next.2)
        else ({ r with temp := r.temp ++ [b] }, none)
    | _ => (r, none)

theorem head_next_of_ne (h : r.Reading) {b : UInt8} (hb : b ≠ LF) :
    S.head.next r b = ({ r with temp := r.temp ++ [b] }, none) := by
  obtain h | h := h <;> simp [AsyncWebServer.head, h, hb]

theorem head_next_lf (h : r.Reading) :
    S.head.next r LF = ((S.parseLine { r with temp := trim r.temp }).1,
      some (S.parseLine { r with temp := trim r.temp }).2) := by
  obtain h | h := h <;> simp [AsyncWebServer.head, h]

theorem head_of_not_reading (h : ¬ r.Reading) (l : Bytes) :
    S.head.dest r l = r ∧ S.head.scan r l = [] := by
  have hnext : ∀ b, S.head.next r b = (r, none) := by
    intro b
    unfold AsyncWebServer.head
    dsimp only
    split
    · exact absurd (Or.inl ‹_›) h
    · exact absurd (Or.inr ‹_›) h
    · rfl
  induction l with
  | nil => exact ⟨rfl, rfl⟩
  | cons b l ih => simp [hnext, ih]

/-- A part of a line. -/
theorem head_line (h : r.Reading) (hl : LF ∉ l) :
    S.head.dest r l = { r with temp := r.temp ++ l } ∧ S.head.scan r l = [] := by
  induction l generalizing r with
  | nil => simp
  | cons b l ih =>
      have hb : b ≠ LF := fun hb => hl (hb ▸ List.mem_cons_self)
      obtain ⟨hdest, hscan⟩ := ih (r := { r with temp := r.temp ++ [b] }) h fun hmem =>
        hl (List.mem_cons_of_mem b hmem)
      rw [Scanner.dest_cons, Scanner.scan_cons, head_next_of_ne h hb, hdest, hscan]
      simp

/-- A line with its end. -/
theorem head_line_lf (h : r.Reading) (hl : LF ∉ l) (rest : Bytes) :
    S.head.dest r (l ++ LF :: rest) =
        S.head.dest (S.parseLine { r with temp := trim (r.temp ++ l) }).1 rest ∧
      S.head.scan r (l ++ LF :: rest) =
        (S.parseLine { r with temp := trim (r.temp ++ l) }).2 ::
          S.head.scan (S.parseLine { r with temp := trim (r.temp ++ l) }).1 rest := by
  obtain ⟨hdest, hscan⟩ := head_line (S := S) h hl
  have hreading : { r with temp := r.temp ++ l }.Reading := h
  rw [Scanner.dest_append, Scanner.scan_append, hdest, hscan, Scanner.dest_cons,
    Scanner.scan_cons, head_next_lf hreading]
  exact ⟨rfl, rfl⟩

/-! ## Packets of a head -/

/-- None of these bytes is zero, and none belongs to a body: a body may begin behind the last. -/
def AsyncWebServer.HeadOnly (S : AsyncWebServer ρ) (r : AsyncWebServerRequest ρ) (l : Bytes) :
    Prop := 0 ∉ l ∧ (S.head.dest r l.dropLast).parseState ≠ .reqBody

/-- A body that has begun does not end. -/
theorem ne_reqBody_before {l' : Bytes} (hpre : l <+: l')
    (h : (S.head.dest r l').parseState ≠ .reqBody) : (S.head.dest r l).parseState ≠ .reqBody := by
  obtain ⟨rest, rfl⟩ := hpre
  intro hstate
  have hdone : ¬ (S.head.dest r l).Reading := by
    rintro (h | h) <;> rw [hstate] at h <;> cases h
  rw [Scanner.dest_append, (head_of_not_reading hdone rest).1] at h
  exact h hstate

namespace AsyncWebServer.HeadOnly

theorem append {l' : Bytes} (hne : l' ≠ []) (h : S.HeadOnly r (l ++ l')) :
    S.HeadOnly r l ∧ S.HeadOnly (S.head.dest r l) l' := by
  obtain ⟨hzero, hbody⟩ := h
  rw [List.mem_append, not_or] at hzero
  rw [List.dropLast_append_of_ne_nil hne] at hbody
  have hpre : l.dropLast <+: l ++ l'.dropLast :=
    (List.dropLast_prefix l).trans (List.prefix_append l _)
  refine ⟨⟨hzero.1, ne_reqBody_before hpre hbody⟩, hzero.2, ?_⟩
  rwa [Scanner.dest_append] at hbody

/-- A head that is not yet over. -/
theorem of_reading (hzero : 0 ∉ l) (h : (S.head.dest r l).Reading) : S.HeadOnly r l := by
  refine ⟨hzero, ne_reqBody_before (List.dropLast_prefix l) ?_⟩
  obtain h | h := h <;> rw [h] <;> decide

end AsyncWebServer.HeadOnly

/-- A packet without the end of a line. -/
theorem concat_packet (h : 0 ∉ l) : cstr l.dropLast ++ l.getLast?.toList = l := by
  rw [cstr_of_not_mem fun hzero => h (List.dropLast_subset l hzero)]
  cases l using List.reverseRecOn with
  | nil => rfl
  | append_singleton l b => simp

theorem onDataLoop_of_not_reading (h : ¬ r.Reading) (hbody : r.parseState ≠ .reqBody) (fuel : ℕ) :
    S.onDataLoop fuel buf r = some (r, []) := by
  cases fuel with
  | zero => rfl
  | succ fuel =>
      unfold AsyncWebServer.onDataLoop
      split
      · exact absurd (Or.inl ‹_›) h
      · exact absurd (Or.inr ‹_›) h
      · exact absurd ‹_› hbody
      · rfl
      · rfl

theorem onDataLoop_of_reading (h : r.Reading) (fuel : ℕ) :
    S.onDataLoop (fuel + 1) buf r =
      let line := buf.takeWhile (· ≠ LF)
      if line.length = buf.length then
        some ({ r with temp := r.temp ++ cstr line.dropLast ++ line.getLast?.toList }, [])
      else
        let (r, effects) := S.parseLine { r with temp := trim (r.temp ++ cstr line) }
        let rest := buf.drop (line.length + 1)
        if rest.length ≠ 0 then
          (S.onDataLoop fuel rest r).map fun next => (next.1, effects ++ next.2)
        else some (r, effects) := by
  obtain h | h := h <;> rw [AsyncWebServer.onDataLoop, h]

/-- A packet without the end of a line. -/
theorem onDataLoop_part (hreading : r.Reading) (hlf : LF ∉ buf) (hzero : 0 ∉ buf) (fuel : ℕ) :
    S.onDataLoop (fuel + 1) buf r = some ({ r with temp := r.temp ++ buf }, []) := by
  have hall : buf.takeWhile (· ≠ LF) = buf :=
    List.takeWhile_eq_self_iff.2 fun b hb => decide_eq_true fun heq => hlf (heq ▸ hb)
  rw [onDataLoop_of_reading hreading]
  dsimp only
  rw [hall, if_pos rfl, List.append_assoc, concat_packet hzero]

/-- A line in a packet. -/
theorem onDataLoop_line (hreading : r.Reading) {line : Bytes} (hlf : LF ∉ line) (hzero : 0 ∉ line)
    (rest : Bytes) (fuel : ℕ) :
    S.onDataLoop (fuel + 1) (line ++ LF :: rest) r =
      let next := S.parseLine { r with temp := trim (r.temp ++ line) }
      if rest = [] then some next
      else (S.onDataLoop fuel rest next.1).map fun last => (last.1, next.2 ++ last.2) := by
  have hline : ∀ b ∈ line, decide (b ≠ LF) = true := by
    intro b hb
    exact decide_eq_true fun heq => hlf (heq ▸ hb)
  have htake : (line ++ LF :: rest).takeWhile (· ≠ LF) = line := by
    rw [List.takeWhile_append_of_pos hline]
    simp
  have hdrop : (line ++ LF :: rest).drop (line.length + 1) = rest := by simp
  have hshort : ¬ line.length = (line ++ LF :: rest).length := by simp
  rw [onDataLoop_of_reading hreading]
  dsimp only
  rw [htake, if_neg hshort, hdrop, cstr_of_not_mem hzero]
  by_cases hrest : rest = []
  · simp [hrest]
  · rw [if_pos fun hlength => hrest (List.eq_nil_of_length_eq_zero hlength), if_neg hrest]

theorem onDataLoop_eq {fuel : ℕ} (hfuel : buf.length < fuel) (h : S.HeadOnly r buf) :
    S.onDataLoop fuel buf r = some (S.head.dest r buf, (S.head.scan r buf).flatMap id) := by
  induction fuel generalizing buf r with
  | zero => omega
  | succ fuel ih =>
      by_cases hreading : r.Reading
      · by_cases hlf : LF ∈ buf
        · obtain ⟨line, rest, rfl, hline⟩ := List.eq_append_cons_of_mem hlf
          have hzero : 0 ∉ line := fun hmem => h.1 (List.mem_append_left _ hmem)
          obtain ⟨hdest, hscan⟩ := head_line_lf (S := S) hreading hline rest
          rw [onDataLoop_line hreading hline hzero, hdest, hscan, List.flatMap_cons]
          dsimp only
          by_cases hrest : rest = []
          · simp [hrest]
          · have hsplit : line ++ LF :: rest = (line ++ [LF]) ++ rest := by simp
            have hfirst := (head_line_lf (S := S) hreading hline []).1
            have hnext : S.HeadOnly (S.head.dest r (line ++ [LF])) rest :=
              (AsyncWebServer.HeadOnly.append hrest (hsplit ▸ h)).2
            rw [hfirst, Scanner.dest_nil] at hnext
            have hlength : rest.length < fuel := by
              simp only [List.length_append, List.length_cons] at hfuel
              omega
            rw [if_neg hrest, ih hlength hnext]
            rfl
        · obtain ⟨hdest, hscan⟩ := head_line (S := S) hreading hlf
          rw [onDataLoop_part hreading hlf h.1, hdest, hscan]
          rfl
      · have hdest := head_of_not_reading (S := S) hreading buf
        have hbody := h.2
        rw [(head_of_not_reading hreading _).1] at hbody
        rw [onDataLoop_of_not_reading hreading hbody, hdest.1, hdest.2]
        rfl

theorem onData_follows (S : AsyncWebServer ρ) : S.head.Follows id S.onData S.HeadOnly where
  feed_eq _ buf h := onDataLoop_eq (Nat.lt_succ_self buf.length) h
  ok_append _ _ _ hne h := h.append hne

/-- What the packets of a connection do, one after the other. -/
def AsyncWebServer.receive (S : AsyncWebServer ρ) (packets : List Bytes)
    (r : AsyncWebServerRequest ρ) : Option (AsyncWebServerRequest ρ × List Effect) :=
  Scanner.feedAll S.onData packets r

/-- However the bytes of a head, or of a part of it, are cut into packets, the request becomes the
same and has the same effects in the same order. -/
theorem receive_congr {packets packets' : List Bytes} (hne : [] ∉ packets) (hne' : [] ∉ packets')
    (hsame : packets.flatten = packets'.flatten) (h : S.HeadOnly r packets.flatten) :
    S.receive packets r = S.receive packets' r :=
  (onData_follows S).feedAll_congr hne hne' hsame h

/-- A head that announces a body. -/
theorem receive_congr_cut :
    AsyncWebServer.receive ⟨[], ⟨[], HTTP_ANY, none⟩⟩
        [bytes "GET / HTTP/1.1\r\nContent-Length: 2\r\n\r\n"]
        (new [] : AsyncWebServerRequest Unit) =
      AsyncWebServer.receive ⟨[], ⟨[], HTTP_ANY, none⟩⟩
        [bytes "GE", bytes "T / HTTP/1.1\r", bytes "\nContent-Length: 2\r\n\r", bytes "\n"]
        (new []) :=
  receive_congr (by decide) (by decide) (by decide) ⟨by decide, by decide +kernel⟩

end Byter
