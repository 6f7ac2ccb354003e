import Byter.Lines.Basic
import Byter.Web.Boundary
import Byter.Web.Query

/-!
# Heads that a client writes

A client writes a request line and some headers. If none of them announces a body, the
server reads from it the method, the path and the parameters that were meant and calls the
handler for them, once: whatever the other headers say, however TCP cuts the bytes into
packets, and whatever follows on the connection.
-/

namespace Byter

open AsyncWebServerRequest

variable {ρ : Type*} {S : AsyncWebServer ρ} {r r' : AsyncWebServerRequest ρ}

/-! ## Lines -/

/-- The end of a line that the server has not yet taken away. -/
theorem trim_line (l : Bytes) : trim (l ++ [CR]) = trim l := by
  unfold trim
  rw [List.dropWhile_append]
  split
  · rename_i hempty
    rw [List.isEmpty_iff.1 hempty]
    decide
  · exact List.rdropWhile_concat_pos isspace _ CR (by decide)

theorem trim_eq_self {l : Bytes} (h : ∀ b ∈ l.head?, isspace b = false)
    (h' : ∀ b ∈ l.getLast?, isspace b = false) : trim l = l := by
  have hfirst : l.dropWhile isspace = l := by
    rw [List.dropWhile_eq_self_iff]
    intro hlength
    have hhead := h l[0] (by simp [List.head?_eq_getElem?, hlength])
    simp [hhead]
  unfold trim
  rw [hfirst, List.rdropWhile_eq_self_iff]
  intro hne
  have hlast := h' (l.getLast hne) (List.getLast_mem_getLast? hne)
  simp [hlast]

theorem isspace_of_graphic {b : UInt8} (h : 32 < b) : isspace b = false := by
  unfold isspace
  grind

/-! ## The request line -/

/-- The bytes of a word of the request line. -/
structure Word (w : Bytes) : Prop where
  nonempty : w ≠ []
  graphic : ∀ b ∈ w, 32 < b

namespace Word

variable {w : Bytes}

theorem not_mem (h : Word w) {b : UInt8} (hb : b ≤ 32) : b ∉ w := fun hmem =>
  absurd (h.graphic b hmem) (UInt8.not_lt.2 hb)

end Word

theorem WritesTarget.word {v t : Bytes} {ps : List (Bytes × Bytes)} (h : WritesTarget v ps t) :
    Word t := by
  refine ⟨?_, h.graphic⟩
  cases h with
  | path path nonempty => exact nonempty
  | query path nonempty query => simp

/-- A method, a target and the version of the protocol. -/
def requestLine (m t protocol : Bytes) : Bytes := m ++ 32 :: (t ++ 32 :: protocol)

theorem requestLine_clean {m t protocol : Bytes} (hm : Word m) (ht : Word t)
    (hprotocol : Word protocol) {b : UInt8} (hb : b < 32) : b ∉ requestLine m t protocol := by
  have hle : b ≤ 32 := UInt8.le_of_lt hb
  have hne : b ≠ 32 := fun heq => by simp [heq] at hb
  simp [requestLine, hm.not_mem hle, ht.not_mem hle, hprotocol.not_mem hle, hne]

theorem trim_requestLine {m t protocol : Bytes} (hm : Word m) (hprotocol : Word protocol) :
    trim (requestLine m t protocol) = requestLine m t protocol := by
  refine trim_eq_self (fun b hb => isspace_of_graphic ?_) fun b hb => isspace_of_graphic ?_
  · obtain ⟨c, m, rfl⟩ := List.exists_cons_of_ne_nil hm.nonempty
    obtain rfl : c = b := by simpa [requestLine] using hb
    exact hm.graphic c List.mem_cons_self
  · obtain hnil | ⟨init, c, rfl⟩ := List.eq_nil_or_concat' protocol
    · exact absurd hnil hprotocol.nonempty
    · obtain rfl : c = b := by
        rw [requestLine, ← List.cons_append, ← List.append_assoc, ← List.cons_append,
          ← List.append_assoc, List.getLast?_concat] at hb
        exact Option.some_inj.1 hb
      exact hprotocol.graphic c (by simp)

theorem indexOf_word (pre : Bytes) {l rest : Bytes} {c : UInt8} (hzero : 0 ∉ l ++ c :: rest)
    (hc : c ∉ l) :
    indexOf (pre ++ (l ++ c :: rest)) c pre.length = some (pre.length + l.length) := by
  rw [indexOf_append pre hzero, idxOf?_append_cons hc, Option.map_some, Nat.add_comm]

theorem substring_end (pre l : Bytes) : substring (pre ++ l) pre.length none = l := by
  simp [substring]

/-- The path and the parameters in a target. -/
theorem target_parts {url t : Bytes} {ps : List (Bytes × Bytes)} (h : WritesTarget url ps t) :
    (indexOf t 63 0 = none ∧ urlDecode t = url ∧ ps = []) ∨
      ∃ i, 0 < i ∧ indexOf t 63 0 = some i ∧ urlDecode (substring t 0 (some i)) = url ∧
        getParams (substring t (i + 1) none) = ps.map queryParam := by
  have hzero : 0 ∉ t := h.word.not_mem (by decide)
  cases h with
  | path path nonempty =>
      have hindex := indexOf_append [] (c := 63) hzero
      rw [List.idxOf?_eq_none_iff.2 (path.not_mem (by decide) (by decide))] at hindex
      exact Or.inl ⟨hindex, urlDecode_of_writes path, rfl⟩
  | @query u g _ path nonempty query =>
      have hindex := indexOf_word [] hzero (path.not_mem (by decide) (by decide))
      have hu := substring_append [] u (63 :: g)
      have hg := substring_end (u ++ [63]) g
      have hlength : (u ++ [63]).length = u.length + 1 := by simp
      rw [List.append_assoc, List.singleton_append, hlength] at hg
      simp only [List.nil_append, List.length_nil, Nat.zero_add] at hindex hu
      refine Or.inr ⟨u.length, List.length_pos_iff.2 nonempty, hindex, ?_, ?_⟩
      · rw [hu, urlDecode_of_writes path]
      · rw [hg, getParams_of_writes query]

theorem parseReqHead_of_writes {m url t protocol : Bytes} {ps : List (Bytes × Bytes)} (hm : Word m)
    (ht : WritesTarget url ps t) (hprotocol : Word protocol) :
    { r with temp := requestLine m t protocol }.parseReqHead =
      { r with
        temp := []
        method := methodOf m
        url := url
        params := r.params ++ ps.map queryParam
        version := if startsWith protocol (bytes "HTTP/1.0") then r.version else 1 } := by
  have hzero : 0 ∉ m ++ 32 :: (t ++ 32 :: protocol) :=
    requestLine_clean hm ht.word hprotocol (by decide)
  have hzero' : 0 ∉ t ++ 32 :: protocol := fun hmem =>
    hzero (List.mem_append_right m (List.mem_cons_of_mem 32 hmem))
  have hfirst := indexOf_word [] hzero (hm.not_mem (by decide))
  have hmethod := substring_append [] m (32 :: (t ++ 32 :: protocol))
  simp only [List.nil_append, List.length_nil, Nat.zero_add] at hfirst hmethod
  have hlength : (m ++ [32]).length = m.length + 1 := by simp
  have hsecond := indexOf_word (m ++ [32]) hzero' (ht.word.not_mem (by decide))
  have htarget := substring_append (m ++ [32]) t (32 :: protocol)
  rw [List.append_assoc, List.singleton_append, hlength] at hsecond htarget
  have hlength' : (m ++ 32 :: (t ++ [32])).length = m.length + 1 + t.length + 1 := by
    simp only [List.length_append, List.length_cons, List.length_nil]
    omega
  have hversion := substring_end (m ++ 32 :: (t ++ [32])) protocol
  rw [List.append_assoc, List.cons_append, List.append_assoc, List.singleton_append,
    hlength'] at hversion
  unfold parseReqHead requestLine
  simp only [hfirst, Option.elim_some, hmethod, hsecond, htarget, hversion, addGetParams]
  obtain ⟨hindex, hurl, rfl⟩ | ⟨i, hpos, hindex, hurl, hparams⟩ := target_parts ht
  · rw [hindex]
    dsimp only
    rw [hurl]
    rfl
  · rw [hindex]
    dsimp only
    rw [if_pos hpos, hurl, hparams]

/-! ## Headers -/

/-- What stands before the first colon. -/
def headerName (l : Bytes) : Bytes := (trim l).takeWhile (· ≠ 58)

/-- What stands behind the colon and one more character. -/
def headerValue (l : Bytes) : Bytes := (trim l).drop ((headerName l).length + 2)

/-- A line with a name and a colon. -/
structure Header (l : Bytes) : Prop where
  zero : 0 ∉ l
  line : LF ∉ l
  name : headerName l ≠ []
  colon : 58 ∈ trim l

/-- The length of the body that the headers announce, and whether it comes in parts. -/
def announced (a : ℕ × Bool) (l : Bytes) : ℕ × Bool :=
  (if equalsIgnoreCase (headerName l) (bytes "Content-Length") then atoi (headerValue l) else a.1,
    a.2 || (equalsIgnoreCase (headerName l) (bytes "Content-Type") &&
      startsWith (headerValue l) (bytes "multipart/")))

theorem Header.split {l : Bytes} (h : Header l) :
    ∃ rest, trim l = headerName l ++ 58 :: rest ∧ 58 ∉ headerName l := by
  have hsplit := List.takeWhile_append_dropWhile (p := fun b => decide (b ≠ 58)) (l := trim l)
  have hfree : 58 ∉ headerName l := fun hmem => by
    simpa using List.mem_takeWhile_imp hmem
  rcases hrest : (trim l).dropWhile (· ≠ 58) with _ | ⟨b, rest⟩
  · rw [hrest, List.append_nil] at hsplit
    have hcolon := h.colon
    rw [← hsplit] at hcolon
    exact absurd hcolon hfree
  · obtain rfl : b = 58 := by
      have hhead := List.head?_dropWhile_not (fun b => decide (b ≠ 58)) (trim l)
      rw [hrest] at hhead
      simpa using hhead
    rw [hrest] at hsplit
    exact ⟨rest, hsplit.symm, hfree⟩

/-- What the request line has said, and where the request stands. -/
def AsyncWebServerRequest.said (r : AsyncWebServerRequest ρ) :
    UInt8 × Bytes × List AsyncWebParameter × ParseState := (r.method, r.url, r.params, r.parseState)

/-- What a header leaves as it was, and what it announces. -/
structure KeepsLine (r r' : AsyncWebServerRequest ρ) (a : ℕ × Bool) : Prop where
  said : r'.said = r.said
  temp : r'.temp = []
  lengths : r'.lengths = (r.parsedLength, a)

theorem substring_all (s : Bytes) (left : ℕ) : substring s left none = s.drop left := by
  simp [substring]

theorem parseReqHeader_of_header {l : Bytes} (h : Header l) :
    KeepsLine r { r with temp := trim l }.parseReqHeader
      (announced (r.contentLength, r.isMultipart) l) := by
  obtain ⟨rest, hsplit, hfree⟩ := h.split
  have hzero : 0 ∉ trim l := fun hmem => by
    have htrim : trim l <+: l.dropWhile isspace := List.rdropWhile_prefix isspace _
    exact h.zero ((List.dropWhile_sublist isspace).subset (htrim.subset hmem))
  have hindex : indexOf (trim l) 58 0 = some (headerName l).length := by
    have hall := indexOf_word [] (hsplit ▸ hzero) hfree
    rwa [List.nil_append, ← hsplit, List.length_nil, Nat.zero_add] at hall
  have hname : substring (trim l) 0 (some (headerName l).length) = headerName l := by
    have hall := substring_append [] (headerName l) (58 :: rest)
    rwa [List.nil_append, ← hsplit, List.length_nil, Nat.zero_add] at hall
  have hvalue : substring (trim l) ((headerName l).length + 2) none = headerValue l :=
    substring_all _ _
  have hnonempty : ¬ (some (headerName l).length = some 0) := fun heq =>
    h.name (List.eq_nil_of_length_eq_zero (Option.some_inj.1 heq))
  unfold parseReqHeader announced
  simp only [hindex, Option.elim_some, hname, hvalue, if_neg hnonempty]
  by_cases htype : equalsIgnoreCase (headerName l) (bytes "Content-Type") = true
  · have hlength : equalsIgnoreCase (headerName l) (bytes "Content-Length") = false := by
      rw [equalsIgnoreCase, decide_eq_true_iff] at htype
      have hother : (bytes "Content-Type").length ≠ (bytes "Content-Length").length := by decide
      rw [equalsIgnoreCase, decide_eq_false_iff_not, htype.1]
      exact fun h => hother h.1
    rw [if_pos htype]
    by_cases hmultipart : startsWith (headerValue l) (bytes "multipart/") = true
    · rw [if_pos hmultipart]
      refine ⟨rfl, rfl, ?_⟩
      simp [lengths, hlength, htype, hmultipart]
    · rw [if_neg hmultipart]
      refine ⟨rfl, rfl, ?_⟩
      simp [lengths, hlength, hmultipart]
  · rw [if_neg htype]
    by_cases hlength : equalsIgnoreCase (headerName l) (bytes "Content-Length") = true
    · rw [if_pos hlength]
      refine ⟨rfl, rfl, ?_⟩
      simp [lengths, hlength, htype]
    · rw [if_neg hlength]
      have hkept : (r.contentLength, r.isMultipart) =
          ((if equalsIgnoreCase (headerName l) (bytes "Content-Length") then atoi (headerValue l)
            else r.contentLength),
            r.isMultipart || (equalsIgnoreCase (headerName l) (bytes "Content-Type") &&
              startsWith (headerValue l) (bytes "multipart/"))) := by
        simp [hlength, htype]
      rw [← hkept]
      split <;> exact ⟨rfl, rfl, rfl⟩

/-! ## A whole head -/

/-- These bytes end a head, make this of the request and have these effects. -/
structure Leads (S : AsyncWebServer ρ) (r : AsyncWebServerRequest ρ) (head : Bytes)
    (r' : AsyncWebServerRequest ρ) (effects : List Effect) : Prop where
  ends : S.Ends r head
  dest : S.head.dest r head = r'
  effects : (S.head.scan r head).flatMap id = effects

namespace Leads

variable {tail : Bytes} {es es' : List Effect}

theorem nil (h : ¬ r.Reading) : Leads S r [] r [] where
  ends :=
    { zero := by simp
      done := h
      early := fun pre hpre hne => absurd (List.prefix_nil.1 hpre) hne }
  dest := rfl
  effects := rfl

theorem line (hreading : r.Reading) (htemp : r.temp = []) {l : Bytes} (hlf : LF ∉ l) (hzero : 0 ∉ l)
    {next : AsyncWebServerRequest ρ} (hparse : S.parseLine { r with temp := trim l } = (next, es))
    (h : Leads S next tail r' es') : Leads S r (l ++ [CR, LF] ++ tail) r' (es ++ es') := by
  have hline : LF ∉ l ++ [CR] := by
    rw [List.mem_append, List.mem_singleton]
    exact fun hmem => hmem.elim hlf (by decide)
  have hsplit : l ++ [CR, LF] ++ tail = (l ++ [CR]) ++ LF :: tail := by simp
  have hnext := fun rest => head_line_lf (S := S) hreading hline rest
  simp only [htemp, List.nil_append, trim_line, hparse] at hnext
  rw [hsplit]
  refine ⟨⟨?_, ?_, ?_⟩, ?_, ?_⟩
  · simp only [List.mem_append, List.mem_cons, List.not_mem_nil, or_false, not_or]
    exact ⟨⟨hzero, by decide⟩, by decide, h.ends.zero⟩
  · rw [(hnext tail).1]
    exact h.ends.done
  · intro pre hpre hne
    have hshort : ∀ pre', pre' <+: l ++ [CR] → (S.head.dest r pre').Reading := by
      intro pre' hpre'
      rw [(head_line (S := S) hreading fun hmem => hline (hpre'.subset hmem)).1]
      exact hreading
    obtain ⟨post, hpost⟩ := hpre
    obtain ⟨rest, hrest, -⟩ | ⟨rest, rfl, hrest⟩ := List.append_eq_append_iff.1 hpost
    · exact hshort pre ⟨rest, hrest.symm⟩
    · cases rest with
      | nil =>
          rw [List.append_nil]
          exact hshort _ (List.prefix_refl _)
      | cons b rest =>
          rw [List.cons_append, List.cons.injEq] at hrest
          obtain ⟨rfl, rfl⟩ := hrest
          rw [(hnext rest).1]
          exact h.ends.early rest (List.prefix_append rest post) fun heq => hne (by rw [← heq])
  · rw [(hnext tail).1, h.dest]
  · rw [(hnext tail).2, List.flatMap_cons, h.effects]
    rfl

end Leads

/-- The handler depends on the method and on the path. -/
theorem attachHandler_handler (hmethod : r'.method = r.method) (hurl : r'.url = r.url) :
    (S.attachHandler r').handler = (S.attachHandler r).handler := by
  have hcan : ∀ h : AsyncCallbackWebHandler ρ, h.canHandle r' = h.canHandle r := by
    intro h
    unfold AsyncCallbackWebHandler.canHandle
    rw [hmethod, hurl]
  unfold AsyncWebServer.attachHandler
  simp only [hcan]
  split <;> rfl

/-- The empty line chooses a handler. -/
theorem leads_end (hstate : r.parseState = .reqHeaders) (htemp : r.temp = []) :
    ∃ effects, Leads S r [CR, LF] (S.headEnd r) effects := by
  have hsame : { r with temp := trim [] } = r := by
    rw [show trim [] = r.temp from htemp.symm]
  have hleads := Leads.line (l := []) (Or.inr hstate) htemp (by simp) (by simp)
    ((congrArg S.parseLine hsame).trans (parseLine_empty hstate htemp))
    (Leads.nil (headEnd_not_reading r))
  rw [List.append_nil] at hleads
  exact ⟨_, hleads⟩

/-- The headers, one after the other. -/
theorem leads_headers {headers : List Bytes} (h : ∀ l ∈ headers, Header l)
    (hstate : r.parseState = .reqHeaders) (htemp : r.temp = []) :
    ∃ r' effects, KeepsLine r r' (headers.foldl announced (r.contentLength, r.isMultipart)) ∧
      Leads S r (Lines.block CR LF headers) (S.headEnd r') effects := by
  induction headers generalizing r with
  | nil =>
      obtain ⟨effects, hleads⟩ := leads_end (S := S) hstate htemp
      exact ⟨r, effects, ⟨rfl, htemp, rfl⟩, hleads⟩
  | cons l headers ih =>
      have hl := h l List.mem_cons_self
      have hheld := parseReqHeader_of_header (r := r) hl
      have hparse : S.parseLine { r with temp := trim l } =
          ({ r with temp := trim l }.parseReqHeader, []) := by
        have hlength : (trim l).length ≠ 0 := fun hzero => by
          have hcolon := hl.colon
          rw [List.eq_nil_of_length_eq_zero hzero] at hcolon
          cases hcolon
        unfold AsyncWebServer.parseLine
        simp only [hstate, if_neg hlength]
      have hstate' : { r with temp := trim l }.parseReqHeader.parseState = .reqHeaders :=
        (congrArg (fun o => o.2.2.2) hheld.said).trans hstate
      obtain ⟨r', effects, hheld', hleads⟩ :=
        ih (fun l' hl' => h l' (List.mem_cons_of_mem l hl')) hstate' hheld.temp
      have hsplit : Lines.block CR LF (l :: headers) =
          l ++ [CR, LF] ++ Lines.block CR LF headers := by simp [Lines.block]
      have hannounced : (_, _) = announced (r.contentLength, r.isMultipart) l :=
        (Prod.mk.inj hheld.lengths).2
      refine ⟨r', effects, ⟨hheld'.said.trans hheld.said, hheld'.temp, ?_⟩, ?_⟩
      · rw [hheld'.lengths, List.foldl_cons, ← hannounced, (Prod.mk.inj hheld.lengths).1]
      · rw [hsplit]
        exact Leads.line (Or.inr hstate) htemp hl.line hl.zero hparse hleads

/-- What the server knows of a request when its head is over. -/
structure Understood (S : AsyncWebServer ρ) (method : UInt8) (url : Bytes)
    (ps : List (Bytes × Bytes)) (r : AsyncWebServerRequest ρ) : Prop where
  method : r.method = method
  url : r.url = url
  params : r.params = ps.map queryParam
  handler : r.handler = (S.attachHandler r).handler

/-- The head is understood as it was meant, and a body is expected if one is announced. -/
theorem leads_request {m url t protocol : Bytes} {ps : List (Bytes × Bytes)} {headers : List Bytes}
    (hm : Word m) (ht : WritesTarget url ps t) (hprotocol : Word protocol)
    (hheaders : ∀ l ∈ headers, Header l) (behind : Bytes) :
    ∃ r effects,
      Leads S (new behind) (Lines.block CR LF (requestLine m t protocol :: headers)) r effects ∧
        Understood S (methodOf m) url ps r ∧ r.lengths = (0, headers.foldl announced (0, false)) ∧
        r.parseState = if r.contentLength ≠ 0 then .reqBody else .reqEnd := by
  have hlength : (requestLine m t protocol).length ≠ 0 := by simp [requestLine]
  have hparse : S.parseLine { (new behind : AsyncWebServerRequest ρ) with
      temp := trim (requestLine m t protocol) } =
        ({ (new behind : AsyncWebServerRequest ρ) with
          method := methodOf m
          url := url
          params := ps.map queryParam
          version := if startsWith protocol (bytes "HTTP/1.0") then 0 else 1
          parseState := .reqHeaders }, []) := by
    rw [trim_requestLine hm hprotocol]
    unfold AsyncWebServer.parseLine
    rw [parseReqHead_of_writes hm ht hprotocol]
    simp only [new, if_neg hlength, List.nil_append]
  obtain ⟨r, effects, hheld, hleads⟩ := leads_headers (S := S) hheaders (r :=
    { (new behind : AsyncWebServerRequest ρ) with
      method := methodOf m
      url := url
      params := ps.map queryParam
      version := if startsWith protocol (bytes "HTTP/1.0") then 0 else 1
      parseState := .reqHeaders }) rfl rfl
  have hsplit : Lines.block CR LF (requestLine m t protocol :: headers) =
      requestLine m t protocol ++ [CR, LF] ++ Lines.block CR LF headers := by simp [Lines.block]
  have hclean := fun b => requestLine_clean hm ht.word hprotocol (b := b)
  refine ⟨S.headEnd r, effects, ?_, ?_, ?_, ?_⟩
  · rw [hsplit]
    exact Leads.line (Or.inl rfl) rfl (hclean LF (by decide)) (hclean 0 (by decide)) hparse hleads
  · rw [headEnd_eq]
    exact
      { method := congrArg Prod.fst hheld.said
        url := congrArg (fun o => o.2.1) hheld.said
        params := congrArg (fun o => o.2.2.1) hheld.said
        handler := attachHandler_handler rfl rfl }
  · rw [headEnd_eq]
    exact hheld.lengths
  · rw [headEnd_eq]

/-! ## A whole request -/

/-- A request line, headers, and the empty line behind them. -/
def requestHead (m t protocol : Bytes) (headers : List Bytes) : Bytes :=
  Lines.block CR LF (requestLine m t protocol :: headers)

theorem requestHead_ne_nil (m t protocol : Bytes) (headers : List Bytes) :
    requestHead m t protocol headers ≠ [] := by simp [requestHead, Lines.block]

/-- The head has arrived, or a part of it. -/
theorem arrived_cases {α : Type*} {l head body : List α} (h : l <+: head ++ body) :
    (∃ body', l = head ++ body') ∨ ∃ rest, rest ≠ [] ∧ l ++ rest = head := by
  obtain ⟨rest, hrest⟩ := h
  obtain ⟨rest', hhead, -⟩ | ⟨body', hl, -⟩ := List.append_eq_append_iff.1 hrest
  · by_cases hnil : rest' = []
    · rw [hnil, List.append_nil] at hhead
      exact Or.inl ⟨[], by rw [hhead, List.append_nil]⟩
    · exact Or.inr ⟨rest', hnil, hhead.symm⟩
  · exact Or.inl ⟨body', hl⟩

variable {m url t protocol body behind : Bytes} {ps : List (Bytes × Bytes)}
  {headers packets : List Bytes}

/-- As long as a byte of the head is missing, lines are expected. -/
theorem receive_part (hm : Word m) (ht : WritesTarget url ps t) (hprotocol : Word protocol)
    (hheaders : ∀ l ∈ headers, Header l)
    {rest : Bytes} (hrest : rest ≠ [])
    (hpackets : packets.flatten ++ rest = requestHead m t protocol headers) (behind : Bytes) :
    packets.flatten.length < (requestHead m t protocol headers).length ∧
      ∃ r' effects, S.receive packets (new behind) = some (r', effects) ∧ r'.Reading := by
  obtain ⟨r, es, hleads, -⟩ := leads_request (S := S) hm ht hprotocol hheaders behind
  have hends := hleads.ends
  rw [← requestHead, ← hpackets] at hends
  have hreading := hends.early _ (List.prefix_append packets.flatten rest) fun heq =>
    hrest (List.append_right_eq_self.1 heq.symm)
  have hpos := List.length_pos_iff.2 hrest
  refine ⟨?_, _, _, receive_early hends hrest, hreading⟩
  rw [← hpackets, List.length_append]
  omega

/-- Whatever the client sends for a head, however the bytes are cut into packets, and whatever
a body consists of: once the head has arrived, the request stays what it has said. -/
theorem receive_understood (hm : Word m) (ht : WritesTarget url ps t) (hprotocol : Word protocol)
    (hheaders : ∀ l ∈ headers, Header l)
    (hpackets : packets.flatten <+: requestHead m t protocol headers ++ body)
    {effects : List Effect} (hreceive : S.receive packets (new behind) = some (r', effects)) :
    (packets.flatten.length < (requestHead m t protocol headers).length ∧ r'.Reading) ∨
      (requestHead m t protocol headers).length ≤ packets.flatten.length ∧
        ∃ r, Understood S (methodOf m) url ps r ∧ KeepsHead r r' := by
  obtain ⟨body', hbody⟩ | ⟨rest, hrest, hpart⟩ := arrived_cases hpackets
  · obtain ⟨r, es, hleads, hunderstood, -, -⟩ :=
      leads_request (S := S) hm ht hprotocol hheaders behind
    have hne := requestHead_ne_nil m t protocol headers
    obtain ⟨packets', -, -, hsame⟩ := receive_ends hleads.ends hne hbody
    rw [hreceive, hleads.dest] at hsame
    obtain ⟨⟨last, es'⟩, hlast, hpair⟩ := Option.map_eq_some_iff.1 hsame.symm
    cases hpair
    have hdone := hleads.ends.done
    rw [hleads.dest] at hdone
    refine Or.inr ⟨?_, r, hunderstood, receive_behind_head hdone hlast⟩
    rw [hbody, List.length_append]
    exact Nat.le_add_right _ _
  · obtain ⟨hmissing, r, es, hsame, hreading⟩ :=
      receive_part (S := S) hm ht hprotocol hheaders hrest hpart behind
    rw [hreceive] at hsame
    cases hsame
    exact Or.inl ⟨hmissing, hreading⟩

/-- The request is complete exactly if its head has arrived and no body is announced, or if a
packet ends with the last byte of the body that is. -/
theorem receive_complete (hm : Word m) (ht : WritesTarget url ps t) (hprotocol : Word protocol)
    (hheaders : ∀ l ∈ headers, Header l) {n : ℕ}
    (hannounced : headers.foldl announced (0, false) = (n, false))
    (hpackets : packets.flatten <+: requestHead m t protocol headers ++ body) (behind : Bytes) :
    ∃ r' effects, S.receive packets (new behind) = some (r', effects) ∧
      (r'.parseState = .reqEnd ↔
        (requestHead m t protocol headers).length ≤ packets.flatten.length ∧
          (n = 0 ∨ PacketEnd packets ((requestHead m t protocol headers).length + n))) := by
  obtain ⟨body', hbody⟩ | ⟨rest, hrest, hpart⟩ := arrived_cases hpackets
  · obtain ⟨r, es, hleads, -, hlengths, hstate⟩ :=
      leads_request (S := S) hm ht hprotocol hheaders behind
    have hne := requestHead_ne_nil m t protocol headers
    have hwhole : (requestHead m t protocol headers).length ≤ packets.flatten.length := by
      rw [hbody, List.length_append]
      exact Nat.le_add_right _ _
    obtain ⟨packets', -, hends, hsame⟩ := receive_ends hleads.ends hne hbody
    rw [hannounced] at hlengths
    obtain ⟨hparsed, hrest⟩ := Prod.mk.inj hlengths
    obtain ⟨hlength, hplain⟩ := Prod.mk.inj hrest
    rw [hleads.dest] at hsame
    by_cases hn : n = 0
    · have hend : r.parseState = .reqEnd := by rw [hstate, if_neg (by omega)]
      rw [receive_at_end hend] at hsame
      exact ⟨_, _, hsame, iff_of_true hend ⟨hwhole, Or.inl hn⟩⟩
    · have hreqBody : r.parseState = .reqBody := by rw [hstate, if_pos (by omega)]
      obtain ⟨r', effects, hreceive, hiff⟩ :=
        body_complete_iff (S := S) hreqBody hplain (by omega) packets'
      rw [hreceive] at hsame
      refine ⟨_, _, hsame, ?_⟩
      rw [hiff, hparsed, hlength, or_iff_right hn, and_iff_right hwhole]
      simp only [Nat.zero_add]
      exact hends n (by omega)
  · obtain ⟨hmissing, r', effects, hreceive, hreading⟩ :=
      receive_part (S := S) hm ht hprotocol hheaders hrest hpart behind
    refine ⟨r', effects, hreceive, iff_of_false (fun hend => ?_) fun h => ?_⟩
    · obtain h | h := hreading <;> rw [hend] at h <;> cases h
    · exact absurd h.1 (Nat.not_le.2 hmissing)

end Byter
