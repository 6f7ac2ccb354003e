import Byter.Web.Network

/-!
# The count over the wire

From the bytes that a client sends for `GET /` to the bytes that it gets: the number in them is
the count at the last save before its request was complete.
-/

namespace Byter

open Transition

variable {ε ι : Type*} [DecidableEq ι] {E : Esp ε} {V : Chip ε} {e : ε} {rx : List UInt8}
  {behind : ι → Bytes}

/-- In a run without resets too, the stored word is what the history asks for. -/
theorem word_of_run (hE : V.Lawful E) (hout : V.Reliable e) {tr : List (Step (Sys ε) Act Out)}
    {s : Sys ε} (hrun : Run (sketch E) (boot E e rx) tr s) :
    V.word s.mem.eeprom = persisted (V.word e) tr ∧ V.Reliable s.mem.eeprom := by
  induction hrun with
  | nil =>
      have hquiet := (hE.setup_spec e).2
      exact ⟨hquiet.word, hquiet.reliable.2 hout⟩
  | snoc prev last ih =>
      obtain ⟨hword, hout'⟩ := ih
      rw [persisted_snoc, ← hword]
      exact (store_step last).keep hE hout'

theorem length_countReport (cnt : UInt32) : (bytes (countReport cnt).text).length ≤ 60 := by
  have hnumber := length_number_le (n := cnt.toNat) (k := 10) (by decide)
    (by have := cnt.toNat_lt; omega)
  have hlit : (bytes "Up to now, ").length = 11 ∧
      (bytes " keyboard strokes have been recorded.").length = 37 := by decide
  rw [countReport, bytes_append, bytes_append, List.length_append, List.length_append]
  omega

/-- The reply to `GET /` is about the last save before it. -/
theorem root_reply (hE : V.Lawful E) (hout : V.Reliable e) {i : ι}
    {tr : List (Transition.Step (Net ε ι) (NetAct ι) Out)} {s : Net ε ι}
    (h : Run (network E) (netBoot E e rx behind) tr s) {a : Response}
    (hreply : (.root, a) ∈ replies i tr) :
    ∃ pre st post, tr = pre ++ st :: post ∧ Replies i .root a st ∧
      a = countReport (persisted (V.word e) ((netAbstraction E).steps pre)) := by
  obtain ⟨pre, st, post, rfl, hst, hhandle⟩ := reply_handled h hreply
  refine ⟨pre, st, post, rfl, hst, ?_⟩
  have hword := (word_of_run hE hout ((netAbstraction E).run h.split.1)).1
  have hread := (hE.readCnt_spec st.src.sys.mem).1
  rw [← hword, hhandle]
  change countReport (readCnt E st.src.sys.mem).1 = _
  rw [hread]
  rfl

variable {i : ι} {tr : List (Transition.Step (Net ε ι) (NetAct ι) Out)} {s : Net ε ι}

/-- Whatever way the request is written and cut, and whatever the other clients do: what a client
reads in answer to `GET /` is the count at the last save before the packet that completed its
request, zero after a clear, and the word in the flash if there was neither. -/
theorem client_reads_last_save (hE : V.Lawful E) (hout : V.Reliable e)
    (h : Run (network E) (netBoot E e rx behind) tr s) {m url t protocol : Bytes}
    {ps : List (Bytes × Bytes)} {headers : List Bytes} (hm : Word m) (ht : WritesTarget url ps t)
    (hprotocol : Word protocol) (hheaders : ∀ l ∈ headers, Header l) {body : Bytes}
    (hpackets : (packetsOf i tr).flatten <+: requestHead m t protocol headers ++ body)
    (hroot : asked m url ps = some .root)
    (hexpecting : (s.conn i).request.expectingContinue = false)
    (hrefused : (s.conn i).client.refused = 0) {code : ℕ} {content rest : Bytes}
    (hread : readResponse (s.conn i).client.sent = some (code, content, rest)) :
    ∃ pre st post, tr = pre ++ st :: post ∧
      Replies i .root (countReport (persisted (V.word e) ((netAbstraction E).steps pre))) st ∧
      code = 200 ∧ rest = [] ∧
      content = bytes (countReport (persisted (V.word e) ((netAbstraction E).steps pre))).text := by
  have hserved := served_of_run h i
  obtain ⟨effects, hreceive⟩ := hserved.received
  have hasked : (s.conn i).request.parseState = .reqEnd →
      handleRequest (s.conn i).request = some .root := fun hend => by
    obtain ⟨-, hreading⟩ | ⟨-, hasked⟩ :=
      handleRequest_of_receive hm ht hprotocol hheaders hpackets hreceive
    · obtain h | h := hreading <;> rw [hend] at h <;> cases h
    · rw [hasked, hroot]
  have hreply : ∀ q a, (q, a) ∈ replies i tr → q = .root := by
    intro q a hmem
    obtain ⟨-, hnil⟩ | ⟨q', a', hq, hone, -, hr⟩ | ⟨-, hnil, -⟩ := hserved.answer
    · rw [hnil] at hmem
      cases hmem
    · rw [hone, List.mem_singleton] at hmem
      cases hmem
      exact Option.some_inj.1 (hq.symm.trans (hasked hr.complete))
    · rw [hnil] at hmem
      cases hmem
  have hlength : ∀ q a, (q, a) ∈ replies i tr → (bytes a.text).length < 2147483648 := by
    intro q a hmem
    obtain rfl := hreply q a hmem
    obtain ⟨pre, st, post, -, -, rfl⟩ := root_reply hE hout h hmem
    have := length_countReport (persisted (V.word e) ((netAbstraction E).steps pre))
    omega
  obtain hnothing | ⟨q, a, -, hone, hall⟩ | ⟨hnone, hend, -, -⟩ :=
    hserved.read hexpecting hrefused hlength
  · rw [hnothing] at hread
    cases hread
  · have hmem : (q, a) ∈ replies i tr := by
      rw [hone]
      exact List.mem_singleton_self _
    obtain rfl := hreply q a hmem
    obtain ⟨pre, st, post, htr, hst, rfl⟩ := root_reply hE hout h hmem
    rw [hall] at hread
    cases hread
    exact ⟨pre, st, post, htr, hst, rfl, rfl, rfl⟩
  · rw [hasked hend] at hnone
    cases hnone

theorem client_reads_last_save_twoClients :
    ∃ tr s, Run (network esp) (netBoot esp (stored 7) [] fun _ => [] : Net Eeprom ℕ) tr s ∧
      ∃ pre st post, tr = pre ++ st :: post ∧ Replies 0 .root (countReport
        (persisted (Eeprom.chip.word (stored 7)) ((netAbstraction esp).steps pre))) st := by
  obtain ⟨tr, s, hrun, hall⟩ := Machine.exists_run_of_exec (network esp)
    (netBoot esp (stored 7) [] fun _ => [] : Net Eeprom ℕ) twoClients
    (fun tr s => decide ((packetsOf 0 tr).flatten =
        requestHead (bytes "GET") (bytes "/") (bytes "HTTP/1.1") [] ++ [] ∧
      (s.conn 0).request.expectingContinue = false ∧ (s.conn 0).client.refused = 0 ∧
      (readResponse (s.conn 0).client.sent).isSome = true)) (by decide +kernel)
  obtain ⟨hpackets, hexpecting, hrefused, hsome⟩ := of_decide_eq_true hall
  obtain ⟨⟨code, content, rest⟩, hread⟩ := Option.isSome_iff_exists.1 hsome
  obtain ⟨pre, st, post, htr, hst, -⟩ := client_reads_last_save Eeprom.chip_lawful (fun _ => rfl)
    hrun word_get (.path (writes_self (by decide +kernel)) (by decide)) word_http (by simp)
    ⟨[], (List.append_nil _).trans hpackets⟩ (by decide) hexpecting hrefused hread
  exact ⟨tr, s, hrun, pre, st, post, htr, hst⟩

end Byter
