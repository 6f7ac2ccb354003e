import Byter.Web.Delivery

/-!
# What the client reads

A client reads lines up to an empty one, finds the length of the content among them and
takes as many bytes. It recovers the code and the content of every response of less than `2 ^ 31`
bytes, whatever the content is, and reads nothing as long as a byte is missing.
-/

namespace Byter

open AsyncBasicResponse

/-! ## Numbers -/

/-- The value of decimal digits. -/
def readNat (s : Bytes) : ℕ := Nat.ofDigitChars 10 (text s).toList 0

theorem text_bytes {s : String} (h : ∀ c ∈ s.toList, c.toNat < 256) : text (bytes s) = s := by
  have hchar : ∀ c ∈ s.toList,
      ((fun b : UInt8 => Char.ofNat b.toNat) ∘ fun c : Char => UInt8.ofNat c.toNat) c = id c := by
    intro c hc
    change Char.ofNat (UInt8.ofNat c.toNat).toNat = c
    rw [UInt8.toNat_ofNat_of_lt' (h c hc), Char.ofNat_toNat]
  rw [text, bytes, List.map_map, List.map_congr_left hchar, List.map_id, String.ofList_toList]

theorem digit_of_mem_number {n : ℕ} {c : Char} (h : c ∈ (toString n).toList) :
    48 ≤ c.toNat ∧ c.toNat ≤ 57 := by
  rw [toList_toString] at h
  exact Char.isDigit_iff_toNat.1 (Nat.isDigit_of_mem_toDigits (by decide) (by decide) h)

theorem readNat_number (n : ℕ) : readNat (bytes (toString n)) = n := by
  rw [readNat, text_bytes fun c hc => by have := digit_of_mem_number hc; omega, toList_toString]
  exact Nat.ofDigitChars_ten_toDigits

theorem number_byte {n : ℕ} {b : UInt8} (h : b ∈ bytes (toString n)) : 48 ≤ b ∧ b ≤ 57 := by
  obtain ⟨c, hc, rfl⟩ := List.mem_map.1 h
  obtain ⟨hlow, hhigh⟩ := digit_of_mem_number hc
  have hbyte : (UInt8.ofNat c.toNat).toNat = c.toNat :=
    UInt8.toNat_ofNat_of_lt' (show c.toNat < 256 by omega)
  rw [UInt8.le_iff_toNat_le, UInt8.le_iff_toNat_le, hbyte]
  exact ⟨hlow, hhigh⟩

theorem length_number_le {n k : ℕ} (hk : 0 < k) (hn : n < 10 ^ k) :
    (bytes (toString n)).length ≤ k := by
  rw [bytes, List.length_map, String.length_toList, Nat.toString_eq_repr]
  exact (Nat.length_repr_le_iff hk).2 hn

/-- Below `2 ^ 31` a length is printed as it is. -/
theorem decimal_eq_toString {n : ℕ} (h : n < 2147483648) : decimal n = bytes (toString n) := by
  have hsame : Int.bmod n 4294967296 = n := Int.bmod_eq_of_le (by omega) (by omega)
  rw [decimal, hsame]
  rfl

/-! ## The head -/

/-- The lines of the head. -/
def headLines (version : ℕ) (r : AsyncBasicResponse) : List Bytes :=
  [bytes "HTTP/1." ++ bytes (toString version) ++ bytes " " ++ bytes (toString r.code) ++ bytes " " ++
      bytes (responseCodeToString r.code),
    bytes "Content-Length: " ++ bytes (toString r.contentLength)] ++
  (if r.contentType.length ≠ 0 then [bytes "Content-Type: " ++ r.contentType] else []) ++
  (if version ≠ 0 then r.headers ++ [(bytes "Accept-Ranges", bytes "none")] else r.headers).map
    fun h => h.1 ++ bytes ": " ++ h.2

theorem responseCodeToString_line (code : ℕ) :
    (bytes (responseCodeToString code)).length ≤ 31 ∧ LF ∉ bytes (responseCodeToString code) := by
  unfold responseCodeToString
  split <;> decide

/-- A response of the sketch or of the server. -/
structure Simple (r : AsyncBasicResponse) : Prop extends r.Fresh where
  code : r.code < 1000
  length : r.content.length < 2147483648
  type : r.contentType = bytes "text/plain" ∨ r.contentType = []
  headers : r.headers = [(bytes "Connection", bytes "close")]

variable {r : AsyncBasicResponse} {version : ℕ}

theorem simple_new {code : ℕ} {contentType content : Bytes} (hcode : code < 1000)
    (hlength : content.length < 2147483648)
    (htype : contentType = bytes "text/plain" ∨ contentType = []) :
    Simple (new code contentType content) := by
  refine ⟨fresh_new code contentType content, hcode, hlength, ?_, rfl⟩
  unfold new
  dsimp only
  split
  · exact Or.inl rfl
  · exact htype

theorem snprintf_line {l : Bytes} (h : l.length ≤ 297) : snprintf (l ++ crlf) = l ++ [CR, LF] := by
  refine List.take_of_length_le ?_
  have hcrlf : crlf.length = 2 := rfl
  rw [List.length_append]
  omega

theorem typeLine_eq_join {contentType : Bytes}
    (h : contentType = bytes "text/plain" ∨ contentType = []) :
    (if contentType.length ≠ 0 then snprintf (bytes "Content-Type: " ++ contentType ++ crlf) else []) =
      Lines.join CR LF
        (if contentType.length ≠ 0 then [bytes "Content-Type: " ++ contentType] else []) := by
  obtain rfl | rfl := h <;> decide

theorem headerLines_eq_join {headers : List (Bytes × Bytes)}
    (h : headers = [(bytes "Connection", bytes "close")]) :
    (if version ≠ 0 then headers ++ [(bytes "Accept-Ranges", bytes "none")]
        else headers).flatMap (fun h => snprintf (h.1 ++ bytes ": " ++ h.2 ++ crlf)) =
      Lines.join CR LF ((if version ≠ 0 then headers ++ [(bytes "Accept-Ranges", bytes "none")]
        else headers).map fun h => h.1 ++ bytes ": " ++ h.2) := by
  subst h
  split <;> decide

/-- No line of the head is longer than the buffer of `snprintf`. -/
theorem assembleHead_eq_block (h : Simple r) (hversion : version ≤ 1) :
    r.assembleHead version = Lines.block CR LF (headLines version r) := by
  have hcode := length_number_le (n := r.code) (k := 3) (by decide) h.code
  have hversion' := length_number_le (n := version) (k := 1) (by decide) (by omega)
  have hdecimal : r.contentLength < 2147483648 := h.contentLength ▸ h.length
  have hlength := length_number_le (n := r.contentLength) (k := 10) (by decide) (by omega)
  have hcodeText := (responseCodeToString_line r.code).1
  have hlit : (bytes "HTTP/1.").length = 7 ∧ (bytes " ").length = 1 ∧
      (bytes "Content-Length: ").length = 16 := by decide
  have hstatus : (bytes "HTTP/1." ++ bytes (toString version) ++ bytes " " ++
      bytes (toString r.code) ++ bytes " " ++ bytes (responseCodeToString r.code)).length ≤ 297 := by
    simp only [List.length_append]
    omega
  have hcontent : (bytes "Content-Length: " ++ bytes (toString r.contentLength)).length ≤ 297 := by
    rw [List.length_append]
    omega
  unfold assembleHead headLines
  dsimp only
  rw [decimal_eq_toString hdecimal, snprintf_line hstatus, snprintf_line hcontent,
    typeLine_eq_join h.type, headerLines_eq_join h.headers, Lines.block, Lines.join_append,
    Lines.join_append]
  simp only [Lines.join_cons, Lines.join_nil, List.append_nil, List.append_assoc, crlf]

theorem headLines_clean (version : ℕ) (h : Simple r) (l : Bytes) (hl : l ∈ headLines version r) :
    l ≠ [] ∧ LF ∉ l := by
  have hnumber : ∀ n : ℕ, LF ∉ bytes (toString n) := fun n hLF =>
    absurd (number_byte hLF).1 (by decide)
  have hlit : LF ∉ bytes "HTTP/1." ∧ LF ∉ bytes " " ∧ LF ∉ bytes "Content-Length: " := by decide
  rw [headLines, List.mem_append, List.mem_append] at hl
  obtain (hl | hl) | hl := hl
  · rw [List.mem_cons, List.mem_singleton] at hl
    obtain rfl | rfl := hl
    · have hstatus := (responseCodeToString_line r.code).2
      refine ⟨by simp [bytes], ?_⟩
      simp only [List.mem_append, not_or]
      exact ⟨⟨⟨⟨⟨hlit.1, hnumber _⟩, hlit.2.1⟩, hnumber _⟩, hlit.2.1⟩, hstatus⟩
    · refine ⟨by simp [bytes], ?_⟩
      rw [List.mem_append, not_or]
      exact ⟨hlit.2.2, hnumber _⟩
  · revert hl
    obtain htype | htype := h.type <;> rw [htype] <;> revert l <;> decide
  · revert hl
    rw [h.headers]
    split <;> revert l <;> decide

/-! ## The client -/

/-- The code and the content of a response, and what stands behind it. -/
def readResponse (bs : Bytes) : Option (ℕ × Bytes × Bytes) :=
  (Lines.readBlock CR LF [] bs).bind fun block =>
    block.1.head?.bind fun status =>
      (block.1.findSome? fun l =>
        if startsWith l (bytes "Content-Length: ") then some (readNat (l.drop 16)) else none).bind
        fun length =>
          if length ≤ block.2.length then
            some (readNat ((status.drop 9).takeWhile (· ≠ 32)), block.2.take length,
              block.2.drop length)
          else none

theorem readResponse_append {bs content rest s : Bytes} {code : ℕ}
    (h : readResponse bs = some (code, content, rest)) :
    readResponse (bs ++ s) = some (code, content, rest ++ s) := by
  obtain ⟨⟨lines, body⟩, hblock, h⟩ := Option.bind_eq_some_iff.1 h
  obtain ⟨status, hstatus, h⟩ := Option.bind_eq_some_iff.1 h
  obtain ⟨length, hlength, h⟩ := Option.bind_eq_some_iff.1 h
  dsimp only at hstatus hlength h
  split at h
  · rename_i hle
    cases h
    have hle' : length ≤ (body ++ s).length := by
      rw [List.length_append]
      omega
    rw [readResponse, Lines.readBlock_append hblock]
    simp only [Option.bind_some, hstatus, hlength, if_pos hle', List.take_append_of_le_length hle,
      List.drop_append_of_le_length hle]
  · cases h

theorem readNat_status {version : ℕ} (hversion : version ≤ 1) (code : ℕ) (reason : Bytes) :
    readNat (((bytes "HTTP/1." ++ bytes (toString version) ++ bytes " " ++ bytes (toString code) ++
      bytes " " ++ reason).drop 9).takeWhile (· ≠ 32)) = code := by
  have hnine : (bytes "HTTP/1." ++ bytes (toString version) ++ bytes " ").length = 9 := by
    obtain rfl | rfl : version = 0 ∨ version = 1 := by omega
    all_goals decide
  have hdigits : ∀ b ∈ bytes (toString code), decide (b ≠ 32) = true := by
    intro b hb
    refine decide_eq_true fun h32 => ?_
    subst h32
    exact absurd (number_byte hb).1 (by decide)
  rw [List.append_assoc, List.append_assoc, List.drop_left' hnine,
    List.takeWhile_append_of_pos hdigits]
  exact (congrArg readNat (List.append_nil _)).trans (readNat_number code)

theorem findSome_length {status digits : Bytes} {lines : List Bytes}
    (h : startsWith status (bytes "Content-Length: ") = false) :
    ((status :: (bytes "Content-Length: " ++ digits) :: lines).findSome? fun l =>
      if startsWith l (bytes "Content-Length: ") then some (readNat (l.drop 16)) else none) =
        some (readNat digits) := by
  have hstart : startsWith (bytes "Content-Length: " ++ digits) (bytes "Content-Length: ") = true :=
    List.isPrefixOf_iff_prefix.2 (List.prefix_append _ _)
  have hdrop : (bytes "Content-Length: " ++ digits).drop 16 = digits :=
    List.drop_left' (by decide)
  rw [List.findSome?_cons, if_neg (by rw [h]; exact Bool.false_ne_true), List.findSome?_cons,
    if_pos hstart, hdrop]

/-- A response is read back, whatever follows it. -/
theorem readResponse_reply (h : Simple r) (hversion : version ≤ 1) (rest : Bytes) :
    readResponse (r.assembleHead version ++ r.content ++ rest) = some (r.code, r.content, rest) := by
  have hne : CR ≠ LF := by decide
  have hblock := Lines.readBlock_block (r.content ++ rest) hne (headLines_clean version h)
  have hle : r.content.length ≤ (r.content ++ rest).length := by
    rw [List.length_append]
    omega
  rw [readResponse, List.append_assoc, assembleHead_eq_block h hversion, hblock]
  unfold headLines
  simp only [Option.bind_some, List.cons_append, List.nil_append, List.head?_cons]
  rw [findSome_length rfl, readNat_number, readNat_status hversion, h.contentLength]
  simp only [Option.bind_some, if_pos hle, List.take_left, List.drop_left]

/-- Of a part of a response nothing is read. -/
theorem readResponse_part (h : Simple r) (hversion : version ≤ 1) {part missing : Bytes}
    (hmissing : missing ≠ []) (hparts : part ++ missing = r.assembleHead version ++ r.content) :
    readResponse part = none := by
  cases hread : readResponse part with
  | none => rfl
  | some reply =>
      obtain ⟨code, content, rest⟩ := reply
      have hall := readResponse_reply h hversion []
      rw [List.append_nil, ← hparts, readResponse_append hread] at hall
      simp only [Option.some_inj, Prod.mk.injEq, List.append_eq_nil_iff] at hall
      exact absurd hall.2.2.2 hmissing

/-- Whatever room there is at each turn, and as long as TCP refuses nothing: a client that has
received what TCP has taken reads the code and the content as soon as what has been offered
reaches the length of the message, and nothing before. -/
theorem client_reads_reply (h : Simple r) (hversion : version ≤ 1) {c : AsyncClient}
    (hsent : c.sent = []) (first : Turn) (turns : List Turn)
    (hrefused : (deliver version r c first turns).2.refused = c.refused) :
    readResponse (deliver version r c first turns).2.sent =
      if (r.assembleHead version ++ r.content).length ≤
          offered (r.assembleHead version) r.content first turns
      then some (r.code, r.content, []) else none := by
  have htaken := (deliver_progress h.toFresh version c first turns).taken.eq_of_refused hrefused
  rw [htaken, hsent, List.nil_append]
  by_cases hall : (r.assembleHead version ++ r.content).length ≤
      offered (r.assembleHead version) r.content first turns
  · rw [if_pos hall, List.take_of_length_le hall]
    have hreply := readResponse_reply h hversion []
    rwa [List.append_nil] at hreply
  · rw [if_neg hall]
    refine readResponse_part h hversion ?_ (List.take_append_drop _ _)
    rw [Ne, List.drop_eq_nil_iff]
    exact hall

theorem client_reads_reply_ok :
    readResponse (deliver 1 (new 200 (bytes "text/plain") (bytes "ok")) ⟨0, [], 0⟩ ⟨0, 60, .accepts⟩
      [⟨60, 60, .accepts⟩]).2.sent =
        if ((new 200 (bytes "text/plain") (bytes "ok")).assembleHead 1 ++ bytes "ok").length ≤ 120
        then some (200, bytes "ok", []) else none :=
  client_reads_reply (simple_new (by decide) (by decide) (Or.inl rfl)) (by decide) rfl
    ⟨0, 60, .accepts⟩ [⟨60, 60, .accepts⟩] rfl

end Byter
