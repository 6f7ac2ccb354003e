import Mathlib.Tactic.SplitIfs
import Byter.Web.Packets

/-!
# What a body cannot do

Whatever a body consists of and however it is read, it leaves alone what has been read from
the head: the URL, the method, the handler and the parameters of the query. A body only adds
parameters that are marked as its own, and with its last byte it lets the handler be called, once.
-/

namespace Byter

open AsyncWebServerRequest

variable {ρ : Type*} {S : AsyncWebServer ρ} {r r' r'' : AsyncWebServerRequest ρ}

/-- What the head says, without its parameters. -/
def AsyncWebServerRequest.fixed (r : AsyncWebServerRequest ρ) :
    ℕ × UInt8 × Bytes × Bool × Option (AsyncCallbackWebHandler ρ) :=
  (r.version, r.method, r.url, r.expectingContinue, r.handler)

/-- What all but the end of a part leaves as it is. -/
def AsyncWebServerRequest.outer (r : AsyncWebServerRequest ρ) :
    (ℕ × UInt8 × Bytes × Bool × Option (AsyncCallbackWebHandler ρ)) × List AsyncWebParameter ×
      ParseState := (r.fixed, r.params, r.parseState)

/-! ## Functions that keep to the part -/

@[simp] theorem outer_itemWriteByte (b : UInt8) (r : AsyncWebServerRequest ρ) :
    (itemWriteByte b r).outer = r.outer := rfl

@[simp] theorem outer_itemWriteBytes (bs : Bytes) (r : AsyncWebServerRequest ρ) :
    (itemWriteBytes bs r).outer = r.outer := by
  induction bs generalizing r with
  | nil => rfl
  | cons b bs ih => exact (ih (itemWriteByte b r)).trans (outer_itemWriteByte b r)

@[simp] theorem outer_waitForReturn1 (data : UInt8) (r : AsyncWebServerRequest ρ) :
    (waitForReturn1 data r).outer = r.outer := by
  unfold waitForReturn1
  split <;> rfl

@[simp] theorem outer_itemNamed (name nameVal : Bytes) (r : AsyncWebServerRequest ρ) :
    (itemNamed name nameVal r).outer = r.outer := by
  unfold itemNamed
  split_ifs <;> rfl

@[simp] theorem outer_dispositionLoop (fuel : ℕ) (r : AsyncWebServerRequest ρ) :
    (dispositionLoop fuel r).outer = r.outer := by
  induction fuel generalizing r with
  | zero => rfl
  | succ fuel ih =>
      unfold dispositionLoop
      dsimp only
      split
      · exact (ih _).trans (outer_itemNamed _ _ r)
      · exact outer_itemNamed _ _ r

@[simp] theorem outer_parsePartHeader (r : AsyncWebServerRequest ρ) :
    (parsePartHeader r).outer = r.outer := by
  unfold parsePartHeader
  dsimp only
  split_ifs
  · rfl
  · exact outer_dispositionLoop _ _
  · rfl

theorem outer_itemWriteBoundary (h : itemWriteBoundary r = some r') : r'.outer = r.outer := by
  unfold itemWriteBoundary at h
  split at h
  · cases h
    exact outer_itemWriteBytes r.boundary r
  · cases h

/-! ## Functions that may add a parameter -/

/-- The head is as before, and the parameters that have come are those of a body. -/
structure KeepsHead (r r' : AsyncWebServerRequest ρ) : Prop where
  fixed : r'.fixed = r.fixed
  params : ∃ posts, r'.params = r.params ++ posts ∧ ∀ p ∈ posts, p.isForm = true

namespace KeepsHead

theorem of_outer (h : r'.outer = r.outer) : KeepsHead r r' := by
  have hparams : r'.params = r.params := congrArg (fun o => o.2.1) h
  exact ⟨congrArg Prod.fst h, [], by rw [hparams, List.append_nil], by simp⟩

theorem post (hfixed : r'.fixed = r.fixed) {p : AsyncWebParameter}
    (hparams : r'.params = r.params ++ [p]) (hp : p.isForm = true) : KeepsHead r r' :=
  ⟨hfixed, [p], hparams, by simpa using hp⟩

theorem trans (h : KeepsHead r r') (h' : KeepsHead r' r'') : KeepsHead r r'' := by
  obtain ⟨posts, hparams, hposts⟩ := h.params
  obtain ⟨posts', hparams', hposts'⟩ := h'.params
  refine ⟨h'.fixed.trans h.fixed, posts ++ posts', ?_, ?_⟩
  · rw [hparams', hparams, List.append_assoc]
  · intro p hp
    exact (List.mem_append.1 hp).elim (hposts p) (hposts' p)

/-- A body has no part in what the query says. -/
theorem getParam_eq (h : KeepsHead r r') (name : Bytes) (file : Bool) :
    r'.getParam name false file = r.getParam name false file := by
  obtain ⟨posts, hparams, hposts⟩ := h.params
  have hnone : posts.find? (fun p => p.name = name ∧ p.isForm = false ∧ p.isFile = file) = none := by
    rw [List.find?_eq_none]
    intro p hp
    simp [hposts p hp]
  rw [getParam, getParam, hparams, List.find?_append, hnone, Option.or_none]

end KeepsHead

/-- A request that is still in its body. -/
structure KeepsBody (r r' : AsyncWebServerRequest ρ) : Prop extends KeepsHead r r' where
  state : r'.parseState = r.parseState

namespace KeepsBody

theorem of_outer (h : r'.outer = r.outer) : KeepsBody r r' :=
  ⟨.of_outer h, congrArg (fun o => o.2.2) h⟩

theorem trans (h : KeepsBody r r') (h' : KeepsBody r' r'') : KeepsBody r r'' :=
  ⟨h.toKeepsHead.trans h'.toKeepsHead, h'.state.trans h.state⟩

end KeepsBody

theorem keeps_addItem (r : AsyncWebServerRequest ρ) : KeepsBody r (addItem r) := by
  unfold addItem
  split
  · exact ⟨⟨rfl, _, rfl, by simp⟩, rfl⟩
  · split
    · exact ⟨⟨rfl, _, rfl, by simp⟩, rfl⟩
    · exact .of_outer rfl

theorem keeps_parseMultipartPostByte {data : UInt8}
    (h : parseMultipartPostByte data r = some r') : KeepsBody r r' := by
  unfold parseMultipartPostByte at h
  dsimp only at h
  have hstart : (if r.parsedLength = 0 then
      { r with multiParseState := .expectBoundary, temp := [], itemName := [], itemFilename := [] }
      else r).outer = r.outer := by
    split <;> rfl
  generalize (if r.parsedLength = 0 then
      { r with multiParseState := .expectBoundary, temp := [], itemName := [], itemFilename := [] }
      else r) = s at h hstart
  refine (KeepsBody.of_outer hstart).trans ?_
  split at h
  · -- in the data of a part
    cases h
    exact .of_outer (outer_waitForReturn1 data s)
  · -- in the first boundary
    split_ifs at h <;> cases h <;> exact .of_outer rfl
  · -- in the head of a part
    have hgrown : (if data ≠ CR ∧ data ≠ LF then { s with temp := s.temp ++ [data] }
        else s).outer = s.outer := by
      split <;> rfl
    generalize (if data ≠ CR ∧ data ≠ LF then { s with temp := s.temp ++ [data] } else s) = t
      at h hgrown
    refine (KeepsBody.of_outer hgrown).trans ?_
    split at h
    · split at h <;> cases h
      · exact .of_outer (outer_parsePartHeader t)
      · exact .of_outer rfl
    · cases h
      exact .of_outer rfl
  · -- behind a carriage return
    split at h <;> cases h
    · exact .of_outer (outer_waitForReturn1 data _)
    · exact .of_outer rfl
  · -- behind the end of a line
    split at h <;> cases h
    · exact .of_outer ((outer_waitForReturn1 data _).trans (outer_itemWriteBytes _ s))
    · exact .of_outer rfl
  · -- behind the first hyphen
    split at h <;> cases h
    · exact .of_outer ((outer_waitForReturn1 data _).trans (outer_itemWriteBytes _ s))
    · exact .of_outer rfl
  · -- in what may be a boundary
    split at h
    · cases h
      exact .of_outer ((outer_waitForReturn1 data _).trans (outer_itemWriteBytes _ s))
    · split at h <;> cases h
      · exact (keeps_addItem s).trans (.of_outer rfl)
      · exact .of_outer rfl
  · -- behind a boundary
    have hclosed : (if data = 45 ∧ s.contentLength ≠ s.parsedLength + 4 then
        { s with contentLength := s.parsedLength + 4 } else s).outer = s.outer := by
      split <;> rfl
    generalize (if data = 45 ∧ s.contentLength ≠ s.parsedLength + 4 then
        { s with contentLength := s.parsedLength + 4 } else s) = t at h hclosed
    refine (KeepsBody.of_outer hclosed).trans ?_
    split at h
    · cases h
      exact .of_outer rfl
    · split at h
      · cases h
        exact .of_outer rfl
      · obtain ⟨u, hu, rfl⟩ := Option.map_eq_some_iff.1 h
        refine .of_outer ((outer_waitForReturn1 data u).trans ?_)
        exact (outer_itemWriteBoundary hu).trans (outer_itemWriteBytes _ t)
  · -- behind the carriage return of a boundary
    split at h
    · cases h
      exact .of_outer rfl
    · obtain ⟨u, hu, rfl⟩ := Option.map_eq_some_iff.1 h
      refine .of_outer ((outer_waitForReturn1 data _).trans ?_)
      exact (outer_itemWriteBoundary hu).trans (outer_itemWriteBytes _ s)
  · cases h
    exact .of_outer rfl
  · cases h
    exact .of_outer rfl

/-! ## Pieces of a body -/

theorem keeps_parsePlainPostChar (data : UInt8) (r : AsyncWebServerRequest ρ) :
    KeepsBody r (parsePlainPostChar data r) := by
  unfold parsePlainPostChar
  dsimp only
  have hgrown : (if data ≠ 0 ∧ data ≠ 38 then { r with temp := r.temp ++ [data] }
      else r).outer = r.outer := by
    split <;> rfl
  generalize (if data ≠ 0 ∧ data ≠ 38 then { r with temp := r.temp ++ [data] } else r) = s at hgrown
  refine (KeepsBody.of_outer hgrown).trans ?_
  split_ifs
  · exact ⟨⟨rfl, _, rfl, by simp⟩, rfl⟩
  · exact ⟨⟨rfl, _, rfl, by simp⟩, rfl⟩
  · exact .of_outer rfl

theorem outer_sniff (buf : Bytes) (r : AsyncWebServerRequest ρ) : (sniff buf r).outer = r.outer := by
  unfold sniff
  split_ifs <;> rfl

/-- Steps of a body one after the other. -/
theorem keeps_foldlM {f : AsyncWebServerRequest ρ → UInt8 → Option (AsyncWebServerRequest ρ)}
    (hf : ∀ r b r', f r b = some r' → KeepsBody r r') {buf : Bytes}
    (h : buf.foldlM f r = some r') : KeepsBody r r' := by
  induction buf generalizing r with
  | nil =>
      cases h
      exact .of_outer rfl
  | cons b buf ih =>
      rw [List.foldlM_cons] at h
      obtain ⟨s, hs, h⟩ := Option.bind_eq_some_iff.1 h
      exact (hf r b s hs).trans (ih h)

theorem keeps_foldl {f : AsyncWebServerRequest ρ → UInt8 → AsyncWebServerRequest ρ}
    (hf : ∀ r b, KeepsBody r (f r b)) (buf : Bytes) (r : AsyncWebServerRequest ρ) :
    KeepsBody r (buf.foldl f r) := by
  induction buf generalizing r with
  | nil => exact .of_outer rfl
  | cons b buf ih => exact (hf r b).trans (ih (f r b))

theorem keeps_bodyBytes {buf : Bytes} (h : bodyBytes buf r = some r') : KeepsBody r r' := by
  unfold bodyBytes at h
  dsimp only at h
  split at h
  · split at h
    · refine keeps_foldlM (fun r b r' hbyte => ?_) h
      obtain ⟨s, hs, rfl⟩ := Option.map_eq_some_iff.1 hbyte
      exact (keeps_parseMultipartPostByte hs).trans (.of_outer rfl)
    · cases h
      exact .of_outer rfl
  · refine (KeepsBody.of_outer (outer_sniff buf r)).trans ?_
    split at h
    · cases h
      exact .of_outer rfl
    · split at h <;> cases h
      · refine keeps_foldl (fun r b => ?_) buf _
        have hcounted : KeepsBody r { r with parsedLength := r.parsedLength + 1 } := .of_outer rfl
        exact hcounted.trans (keeps_parsePlainPostChar b _)
      · exact .of_outer rfl

theorem bodyData_eq {buf : Bytes} {effects : List Effect}
    (h : bodyData buf r = some (r', effects)) :
    ∃ s, bodyBytes buf r = some s ∧
      (s.parsedLength = s.contentLength ∧ r' = { s with parseState := .reqEnd } ∧
        effects = [.handleRequest] ∨
      s.parsedLength ≠ s.contentLength ∧ r' = s ∧ effects = []) := by
  obtain ⟨s, hs, h⟩ := Option.map_eq_some_iff.1 h
  refine ⟨s, hs, ?_⟩
  split at h
  · cases h
    exact Or.inl ⟨‹_›, rfl, rfl⟩
  · cases h
    exact Or.inr ⟨‹_›, rfl, rfl⟩

/-! ## Behind the head -/

/-- Behind the head the number of rounds does not matter. -/
theorem onDataLoop_behind (h : ¬ r.Reading) {fuel : ℕ} (hfuel : 0 < fuel) {buf : Bytes} :
    S.onDataLoop fuel buf r = S.onData buf r := by
  obtain ⟨k, rfl⟩ : ∃ k, fuel = k + 1 := ⟨fuel - 1, by omega⟩
  unfold AsyncWebServer.onData AsyncWebServer.onDataLoop
  split
  · exact absurd (Or.inl ‹_›) h
  · exact absurd (Or.inr ‹_›) h
  · simp only [*]
  · simp only [*]
  · simp only [*]

/-- Behind the head a packet leaves the head alone, and the handler is called as the request
comes to its end. -/
theorem onData_behind_head (h : ¬ r.Reading) {buf : Bytes} {effects : List Effect}
    (hdata : S.onData buf r = some (r', effects)) :
    KeepsHead r r' ∧ ¬ r'.Reading ∧
      effects = if r'.parseState = .reqEnd ∧ r.parseState ≠ .reqEnd then [.handleRequest] else [] := by
  by_cases hbody : r.parseState = .reqBody
  · unfold AsyncWebServer.onData AsyncWebServer.onDataLoop at hdata
    simp only [hbody] at hdata
    obtain ⟨s, hs, ⟨-, rfl, rfl⟩ | ⟨-, rfl, rfl⟩⟩ := bodyData_eq hdata
    · refine ⟨(keeps_bodyBytes hs).toKeepsHead.trans ⟨rfl, [], by simp, by simp⟩, ?_, ?_⟩
      · rintro (h | h) <;> cases h
      · simp [hbody]
    · have hkeeps := keeps_bodyBytes hs
      have hstate := hkeeps.state.trans hbody
      refine ⟨hkeeps.toKeepsHead, ?_, ?_⟩
      · rintro (h | h) <;> rw [hstate] at h <;> cases h
      · simp [hstate]
  · rw [AsyncWebServer.onData, onDataLoop_of_not_reading h hbody] at hdata
    cases hdata
    refine ⟨.of_outer rfl, h, ?_⟩
    rw [if_neg fun hend => hend.2 hend.1]

/-- A request that has been answered, or given up, does not change. -/
theorem onData_at_end (h : r.parseState = .reqEnd) (buf : Bytes) : S.onData buf r = some (r, []) := by
  refine onDataLoop_of_not_reading ?_ ?_ _
  · rintro (hstate | hstate) <;> rw [h] at hstate <;> cases hstate
  · rw [h]
    exact fun hstate => by cases hstate

theorem receive_at_end (h : r.parseState = .reqEnd) (packets : List Bytes) :
    S.receive packets r = some (r, []) := by
  induction packets with
  | nil => rfl
  | cons buf packets ih =>
      unfold AsyncWebServer.receive at ih ⊢
      rw [Scanner.feedAll, onData_at_end h, Option.bind_some, ih]
      rfl

theorem receive_cons {buf : Bytes} {packets : List Bytes} {effects : List Effect}
    (h : S.receive (buf :: packets) r = some (r', effects)) :
    ∃ s es es', S.onData buf r = some (s, es) ∧ S.receive packets s = some (r', es') ∧
      effects = es ++ es' := by
  obtain ⟨⟨s, es⟩, hs, h⟩ := Option.bind_eq_some_iff.1 h
  obtain ⟨⟨r'', es'⟩, hr'', h⟩ := Option.map_eq_some_iff.1 h
  cases h
  exact ⟨s, es, es', hs, hr'', rfl⟩

/-- However a body is cut into packets and whatever it holds: it changes neither the head nor
the parameters of the query. -/
theorem receive_behind_head (h : ¬ r.Reading) {packets : List Bytes} {effects : List Effect}
    (hreceive : S.receive packets r = some (r', effects)) : KeepsHead r r' := by
  induction packets generalizing r effects with
  | nil =>
      cases hreceive
      exact .of_outer rfl
  | cons buf packets ih =>
      obtain ⟨s, es, es', hs, hrest, -⟩ := receive_cons hreceive
      obtain ⟨hkeeps, hreading, -⟩ := onData_behind_head h hs
      exact hkeeps.trans (ih hreading hrest)

/-! ## How often the handler is called -/

/-- The client has asked for a `100 Continue`, and the head is over. -/
def AsyncWebServerRequest.Continuing (r : AsyncWebServerRequest ρ) : Prop :=
  r.expectingContinue = true ∧ ¬ r.Reading

/-- The effects of a packet, by what the request has become. -/
def Due (r : AsyncWebServerRequest ρ) (effects : List Effect) : Prop :=
  ∃ first, effects = first ++ (if r.parseState = .reqEnd then [.handleRequest] else []) ∧
    (first = [] ∨ first = [.close] ∨ first = [.writeContinue] ∧ r.Continuing)

theorem due_nil (h : r.parseState ≠ .reqEnd) : Due r [] := ⟨[], by rw [if_neg h]; rfl, Or.inl rfl⟩

theorem parseReqHeader_fixed (r : AsyncWebServerRequest ρ) :
    r.parseReqHeader.parseState = r.parseState ∧ r.parseReqHeader.version = r.version := by
  unfold parseReqHeader
  dsimp only
  split_ifs <;> exact ⟨rfl, rfl⟩

theorem attachHandler_eq (r : AsyncWebServerRequest ρ) :
    S.attachHandler r = { r with handler := (S.attachHandler r).handler } := by
  unfold AsyncWebServer.attachHandler
  split <;> rfl

/-- Where the empty line leads. -/
def AsyncWebServer.headEnd (S : AsyncWebServer ρ) (r : AsyncWebServerRequest ρ) :
    AsyncWebServerRequest ρ :=
  { S.attachHandler r with parseState := if r.contentLength ≠ 0 then .reqBody else .reqEnd }

theorem headEnd_eq (r : AsyncWebServerRequest ρ) :
    S.headEnd r =
      { r with
        handler := (S.attachHandler r).handler
        parseState := if r.contentLength ≠ 0 then .reqBody else .reqEnd } := by
  rw [AsyncWebServer.headEnd, attachHandler_eq]

theorem headEnd_not_reading (r : AsyncWebServerRequest ρ) : ¬ (S.headEnd r).Reading := by
  unfold AsyncWebServer.headEnd
  rintro (h | h) <;> dsimp only at h <;> split at h <;> cases h

theorem parseLine_empty (hstate : r.parseState = .reqHeaders) (htemp : r.temp = []) :
    S.parseLine r = (S.headEnd r,
      (if r.expectingContinue then [Effect.writeContinue] else []) ++
        if r.contentLength ≠ 0 then [] else [.handleRequest]) := by
  have hlength : (S.attachHandler r).contentLength = r.contentLength := by
    rw [attachHandler_eq]
  have hexpecting : (S.attachHandler r).expectingContinue = r.expectingContinue := by
    rw [attachHandler_eq]
  unfold AsyncWebServer.parseLine AsyncWebServer.headEnd
  simp only [hstate, htemp, List.length_nil, if_true, hlength, hexpecting]
  split
  · rw [List.append_nil]
  · rfl

theorem due_headEnd (r : AsyncWebServerRequest ρ) :
    Due (S.headEnd r) ((if r.expectingContinue then [Effect.writeContinue] else []) ++
      if r.contentLength ≠ 0 then [] else [.handleRequest]) := by
  refine ⟨if r.expectingContinue then [Effect.writeContinue] else [], ?_, ?_⟩
  · rw [headEnd_eq]
    dsimp only
    split <;> simp
  · by_cases hexpecting : r.expectingContinue = true
    · rw [if_pos hexpecting]
      refine Or.inr (Or.inr ⟨rfl, ?_, headEnd_not_reading r⟩)
      rw [headEnd_eq]
      exact hexpecting
    · rw [if_neg hexpecting]
      exact Or.inl rfl

/-- A line has an effect only where it ends the head. -/
theorem parseLine_due (h : r.Reading) :
    (S.parseLine r).1.version ≤ max r.version 1 ∧
      ((S.parseLine r).1.Reading ∧ (S.parseLine r).2 = [] ∨
        ¬ (S.parseLine r).1.Reading ∧ Due (S.parseLine r).1 (S.parseLine r).2) := by
  obtain h | h := h
  · unfold AsyncWebServer.parseLine
    simp only [h]
    split
    · refine ⟨le_max_left _ _, Or.inr ⟨?_, [.close], rfl, Or.inr (Or.inl rfl)⟩⟩
      rintro (h | h) <;> cases h
    · refine ⟨?_, Or.inl ⟨Or.inr rfl, rfl⟩⟩
      have hversion : r.parseReqHead.version ≤ max r.version 1 := by
        unfold parseReqHead addGetParams
        dsimp only
        split
        · exact le_max_left _ _
        · exact le_max_right _ _
      exact hversion
  · by_cases hempty : r.temp = []
    · rw [parseLine_empty h hempty]
      refine ⟨?_, Or.inr ⟨headEnd_not_reading r, due_headEnd r⟩⟩
      rw [headEnd_eq]
      exact le_max_left _ _
    · have hlength : ¬ r.temp.length = 0 := fun hzero => hempty (List.eq_nil_of_length_eq_zero hzero)
      obtain ⟨hstate, hversion⟩ := parseReqHeader_fixed r
      unfold AsyncWebServer.parseLine
      simp only [h, if_neg hlength]
      exact ⟨hversion ▸ le_max_left _ _, Or.inl ⟨Or.inr (hstate.trans h), trivial⟩⟩

/-- The effects of what follows a line that ends the head. -/
theorem Due.behind {effects es : List Effect} {buf : Bytes} (h : Due r effects) (hr : ¬ r.Reading)
    (hdata : S.onData buf r = some (r', es)) : Due r' (effects ++ es) := by
  obtain ⟨first, rfl, hfirst⟩ := h
  by_cases hend : r.parseState = .reqEnd
  · rw [onData_at_end hend] at hdata
    cases hdata
    exact ⟨first, List.append_nil _, hfirst⟩
  · obtain ⟨hkeeps, hr', rfl⟩ := onData_behind_head hr hdata
    refine ⟨first, ?_, ?_⟩
    · simp [hend]
    · obtain rfl | rfl | ⟨rfl, hexpecting, -⟩ := hfirst
      · exact Or.inl rfl
      · exact Or.inr (Or.inl rfl)
      · have hsame : r'.expectingContinue = r.expectingContinue :=
          congrArg (fun o => o.2.2.2.1) hkeeps.fixed
        exact Or.inr (Or.inr ⟨rfl, hsame.trans hexpecting, hr'⟩)

theorem onDataLoop_due {fuel : ℕ} {buf : Bytes} {effects : List Effect}
    (hopen : r.parseState ≠ .reqEnd) (hdata : S.onDataLoop fuel buf r = some (r', effects)) :
    r'.version ≤ max r.version 1 ∧ Due r' effects := by
  induction fuel generalizing buf r effects with
  | zero =>
      cases hdata
      exact ⟨le_max_left _ _, due_nil hopen⟩
  | succ fuel ih =>
      by_cases hreading : r.Reading
      · rw [onDataLoop_of_reading hreading] at hdata
        dsimp only at hdata
        split at hdata
        · cases hdata
          exact ⟨le_max_left _ _, due_nil hopen⟩
        · have hline := parseLine_due (S := S)
            (r := { r with temp := trim (r.temp ++ cstr (buf.takeWhile (· ≠ LF))) }) hreading
          generalize S.parseLine { r with temp := trim (r.temp ++ cstr (buf.takeWhile (· ≠ LF))) } =
            next at hdata hline
          obtain ⟨hversion, hline⟩ := hline
          split at hdata
          · obtain ⟨⟨s, es⟩, hrest, hpair⟩ := Option.map_eq_some_iff.1 hdata
            cases hpair
            obtain ⟨hnext, heffects⟩ | ⟨hnext, hdue⟩ := hline
            · have hopen' : next.1.parseState ≠ .reqEnd := by
                intro hend
                obtain h | h := hnext <;> rw [hend] at h <;> cases h
              obtain ⟨hversion', hdue⟩ := ih hopen' hrest
              rw [heffects, List.nil_append]
              exact ⟨by dsimp only at hversion; omega, hdue⟩
            · cases fuel with
              | zero =>
                  cases hrest
                  rw [List.append_nil]
                  exact ⟨hversion, hdue⟩
              | succ fuel =>
                  rw [onDataLoop_behind hnext (Nat.succ_pos fuel)] at hrest
                  have hkeeps := (onData_behind_head hnext hrest).1
                  have hsame : s.version = next.1.version := congrArg Prod.fst hkeeps.fixed
                  exact ⟨hsame ▸ hversion, hdue.behind hnext hrest⟩
          · cases hdata
            refine ⟨hversion, ?_⟩
            obtain ⟨hnext, heffects⟩ | ⟨hnext, hdue⟩ := hline
            · rw [heffects]
              refine due_nil fun hend => ?_
              obtain h | h := hnext <;> rw [hend] at h <;> cases h
            · exact hdue
      · rw [onDataLoop_behind hreading (Nat.succ_pos fuel)] at hdata
        obtain ⟨hkeeps, -, heffects⟩ := onData_behind_head hreading hdata
        have hsame : r'.version = r.version := congrArg Prod.fst hkeeps.fixed
        refine ⟨hsame ▸ le_max_left _ _, [], ?_, Or.inl rfl⟩
        simpa [hopen] using heffects

/-- `100 Continue` is written for the packet in which the head ends. -/
theorem onData_due {buf : Bytes} {effects : List Effect} (hopen : r.parseState ≠ .reqEnd)
    (hdata : S.onData buf r = some (r', effects)) :
    r'.version ≤ max r.version 1 ∧
      ∃ first, effects = first ++ (if r'.parseState = .reqEnd then [.handleRequest] else []) ∧
        (first = [] ∨ first = [.close] ∨
          first = [.writeContinue] ∧ r.Reading ∧ r'.Continuing) := by
  obtain ⟨hversion, first, heffects, hfirst⟩ := onDataLoop_due hopen hdata
  refine ⟨hversion, ?_⟩
  by_cases hreading : r.Reading
  · refine ⟨first, heffects, hfirst.imp id (Or.imp id ?_)⟩
    rintro ⟨hline, hcontinuing⟩
    exact ⟨hline, hreading, hcontinuing⟩
  · obtain ⟨-, -, hbehind⟩ := onData_behind_head hreading hdata
    refine ⟨[], ?_, Or.inl rfl⟩
    simpa [hopen] using hbehind

/-- How often the handler has been called. -/
def calls (effects : List Effect) : ℕ := effects.count .handleRequest

theorem calls_append (es es' : List Effect) : calls (es ++ es') = calls es + calls es' :=
  List.count_append

theorem Due.calls {effects : List Effect} (h : Due r effects) :
    calls effects = if r.parseState = .reqEnd then 1 else 0 := by
  obtain ⟨first, rfl, rfl | rfl | ⟨rfl, -⟩⟩ := h <;> split <;> rfl

/-- Whatever comes in, in whatever packets: the handler is called at most once, and it has been
called exactly when the request is complete. -/
theorem handler_called_once {packets : List Bytes} {effects : List Effect}
    (hopen : r.parseState ≠ .reqEnd) (hreceive : S.receive packets r = some (r', effects)) :
    calls effects = if r'.parseState = .reqEnd then 1 else 0 := by
  induction packets generalizing r effects with
  | nil =>
      cases hreceive
      rw [if_neg hopen]
      rfl
  | cons buf packets ih =>
      obtain ⟨s, es, es', hs, hrest, rfl⟩ := receive_cons hreceive
      rw [calls_append, (onDataLoop_due hopen hs).2.calls]
      by_cases hend : s.parseState = .reqEnd
      · rw [receive_at_end hend] at hrest
        cases hrest
        simp [hend, calls]
      · rw [ih hend hrest]
        simp [hend]

/-! ## When a body is complete -/

/-- What a piece of the body adds to. -/
def AsyncWebServerRequest.lengths (r : AsyncWebServerRequest ρ) : ℕ × ℕ × Bool :=
  (r.parsedLength, r.contentLength, r.isMultipart)

theorem lengths_parsePlainPostChar (data : UInt8) (r : AsyncWebServerRequest ρ) :
    (parsePlainPostChar data r).lengths = r.lengths := by
  unfold parsePlainPostChar
  dsimp only
  split_ifs <;> rfl

theorem lengths_foldl (buf : Bytes) (r : AsyncWebServerRequest ρ) :
    (buf.foldl (fun r b =>
        parsePlainPostChar b { r with parsedLength := r.parsedLength + 1 }) r).lengths =
      (r.parsedLength + buf.length, r.contentLength, r.isMultipart) := by
  induction buf generalizing r with
  | nil => rfl
  | cons b buf ih =>
      have hbyte := lengths_parsePlainPostChar b { r with parsedLength := r.parsedLength + 1 }
      obtain ⟨hparsed, hlengths⟩ := Prod.mk.inj hbyte
      obtain ⟨hcontent, hmultipart⟩ := Prod.mk.inj hlengths
      rw [List.foldl_cons, ih, hparsed, hcontent, hmultipart, List.length_cons]
      have hsum : r.parsedLength + 1 + buf.length = r.parsedLength + (buf.length + 1) := by omega
      rw [hsum]

theorem bodyBytes_lengths (hplain : r.isMultipart = false) (buf : Bytes) :
    ∃ s, bodyBytes buf r = some s ∧ s.parseState = r.parseState ∧
      s.lengths = (r.parsedLength + buf.length, r.contentLength, false) := by
  have hsniff : (sniff buf r).lengths = (r.parsedLength, r.contentLength, false) := by
    rw [← hplain]
    unfold sniff
    split_ifs <;> rfl
  obtain ⟨hparsed, hlengths⟩ := Prod.mk.inj hsniff
  obtain ⟨hcontent, hmultipart⟩ := Prod.mk.inj hlengths
  obtain ⟨s, hs, hslengths⟩ : ∃ s, bodyBytes buf r = some s ∧
      s.lengths = (r.parsedLength + buf.length, r.contentLength, false) := by
    unfold bodyBytes
    simp only [hplain, Bool.false_eq_true, if_false]
    split
    · exact ⟨_, rfl, by simp only [lengths, hparsed, hcontent, hmultipart]⟩
    · split
      · exact ⟨_, rfl, by rw [lengths_foldl, hparsed, hcontent, hmultipart]⟩
      · exact ⟨_, rfl, by simp only [lengths, hparsed, hcontent, hmultipart]⟩
  exact ⟨s, hs, (keeps_bodyBytes hs).state, hslengths⟩

/-- A body that does not come in parts is complete exactly when a packet ends with its last
byte: bytes behind the body in the same packet are counted too. -/
theorem body_complete_iff (hbody : r.parseState = .reqBody) (hplain : r.isMultipart = false)
    (hmissing : r.parsedLength ≠ r.contentLength) (packets : List Bytes) :
    ∃ r' effects, S.receive packets r = some (r', effects) ∧
      (r'.parseState = .reqEnd ↔
        ∃ pre, pre <+: packets ∧ r.parsedLength + pre.flatten.length = r.contentLength) := by
  induction packets generalizing r with
  | nil =>
      refine ⟨r, [], rfl, ?_⟩
      simp [hmissing, hbody]
  | cons buf packets ih =>
      obtain ⟨s, hs, hstate, hlengths⟩ := bodyBytes_lengths hplain buf
      obtain ⟨hparsed, hlengths⟩ := Prod.mk.inj hlengths
      obtain ⟨hcontent, hmultipart⟩ := Prod.mk.inj hlengths
      have hdata : S.onData buf r =
          some (if s.parsedLength = s.contentLength then
            ({ s with parseState := .reqEnd }, [.handleRequest]) else (s, [])) := by
        unfold AsyncWebServer.onData AsyncWebServer.onDataLoop
        simp only [hbody, bodyData, hs, Option.map_some]
      have hends : (∃ pre, pre <+: buf :: packets ∧
          r.parsedLength + pre.flatten.length = r.contentLength) ↔
            ∃ pre, pre <+: packets ∧ s.parsedLength + pre.flatten.length = s.contentLength := by
        constructor
        · rintro ⟨pre, hpre, hlength⟩
          cases pre with
          | nil => exact absurd hlength (by simpa using hmissing)
          | cons buf' pre =>
              obtain ⟨rfl, hrest⟩ := List.cons_prefix_cons.1 hpre
              refine ⟨pre, hrest, ?_⟩
              rw [List.flatten_cons, List.length_append] at hlength
              omega
        · rintro ⟨pre, hpre, hlength⟩
          refine ⟨buf :: pre, List.cons_prefix_cons.2 ⟨rfl, hpre⟩, ?_⟩
          rw [List.flatten_cons, List.length_append]
          omega
      rw [hends]
      by_cases hend : s.parsedLength = s.contentLength
      · rw [if_pos hend] at hdata
        have hrest := receive_at_end (S := S) (r := { s with parseState := .reqEnd }) rfl packets
        unfold AsyncWebServer.receive at hrest ⊢
        refine ⟨{ s with parseState := .reqEnd }, [.handleRequest], ?_, ?_⟩
        · rw [Scanner.feedAll, hdata, Option.bind_some, hrest]
          rfl
        · exact iff_of_true rfl ⟨[], List.nil_prefix, by simpa using hend⟩
      · rw [if_neg hend] at hdata
        obtain ⟨r', effects, hrest, hiff⟩ := ih (hstate.trans hbody) hmultipart hend
        unfold AsyncWebServer.receive at hrest ⊢
        refine ⟨r', effects, ?_, hiff⟩
        rw [Scanner.feedAll, hdata, Option.bind_some, hrest]
        rfl

end Byter
