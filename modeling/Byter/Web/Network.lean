import Mathlib.Logic.Function.Basic
import Byter.System.Persistence
import Byter.Transition.Simulation
import Byter.Web.Connection

/-!
# The sketch and its clients

Any number of clients talk to the sketch. Their packets, the acknowledgements of TCP and the
polls of their connections come in any order between the steps of `loop`, while it is in a
`delay()`. For the sketch this is a run in which requests come from nowhere; to a
client it is a conversation of its own.
-/

namespace Byter

open Transition AsyncWebServerRequest

variable {ε ι : Type*} [DecidableEq ι]

/-- The sketch with its connections, which are named by `ι`. -/
structure Net (ε ι : Type*) where
  sys : Sys ε
  conn : ι → Connection

inductive NetAct (ι : Type*)
  /-- a step of the sketch other than a request -/
  | sketch (a : Act)
  /-- a packet has come in -/
  | packet (i : ι) (buf : Bytes) (t : Turn)
  /-- bytes have been acknowledged -/
  | ack (i : ι) (t : Turn)
  /-- TCP polls a connection -/
  | poll (i : ι) (t : Turn)

/-- Requests come in packets only. -/
def sketchStep (E : Esp ε) (s : Sys ε) : Act → Option (Sys ε × List Out)
  | .http _ => none
  | a => step E s a

def netStep (E : Esp ε) (s : Net ε ι) : NetAct ι → Option (Net ε ι × List Out)
  | .sketch a => (sketchStep E s.sys a).map fun r => ({ s with sys := r.1 }, r.2)
  | .packet i buf t =>
      if inDelay s.sys.pc then
        ((s.conn i).onData E buf t s.sys.mem).map fun r =>
          (⟨{ s.sys with mem := r.1 }, Function.update s.conn i r.2.1⟩, r.2.2)
      else none
  | .ack i t =>
      if inDelay s.sys.pc then
        some ({ s with conn := Function.update s.conn i ((s.conn i).onAck t) }, [])
      else none
  | .poll i t =>
      if inDelay s.sys.pc then
        some ({ s with conn := Function.update s.conn i ((s.conn i).onPoll t) }, [])
      else none

/-- The sketch with its clients as a machine. -/
def network (E : Esp ε) : Machine (Net ε ι) (NetAct ι) Out := ⟨netStep E⟩

/-- `behind` is what will lie in memory behind the first packets of bodies. -/
def netBoot (E : Esp ε) (e : ε) (rx : List UInt8) (behind : ι → Bytes) : Net ε ι :=
  ⟨boot E e rx, fun i => .new (behind i)⟩

variable {E : Esp ε} {s s' : Net ε ι} {a : NetAct ι} {o : List Out} {e : ε} {rx : List UInt8}
  {behind : ι → Bytes}

/-- What a step does. -/
theorem netStep_cases (h : netStep E s a = some (s', o)) :
    (∃ b, a = .sketch b ∧ step E s.sys b = some (s'.sys, o) ∧ s'.conn = s.conn) ∨
      (∃ i buf t c, a = .packet i buf t ∧ inDelay s.sys.pc = true ∧
        (s.conn i).onData E buf t s.sys.mem = some (s'.sys.mem, c, o) ∧
        s'.sys = { s.sys with mem := s'.sys.mem } ∧ s'.conn = Function.update s.conn i c) ∨
      (∃ i t c, (a = .ack i t ∧ c = (s.conn i).onAck t ∨ a = .poll i t ∧ c = (s.conn i).onPoll t) ∧
        s'.sys = s.sys ∧ s'.conn = Function.update s.conn i c ∧ o = []) := by
  cases a with
  | sketch b =>
      obtain ⟨r, hstep, hpair⟩ := Option.map_eq_some_iff.1 h
      cases hpair
      refine Or.inl ⟨b, rfl, ?_, rfl⟩
      cases b with
      | http q => cases hstep
      | cpu | sample curState millis | rx b | ticker => exact hstep
  | packet i buf t =>
      rw [netStep] at h
      split at h
      · rename_i hdelay
        obtain ⟨⟨m, c, out⟩, hdata, hpair⟩ := Option.map_eq_some_iff.1 h
        cases hpair
        exact Or.inr (Or.inl ⟨i, buf, t, c, rfl, hdelay, hdata, rfl, rfl⟩)
      · cases h
  | ack i t =>
      rw [netStep] at h
      split at h <;> cases h
      exact Or.inr (Or.inr ⟨i, t, _, Or.inl ⟨rfl, rfl⟩, rfl, rfl, rfl⟩)
  | poll i t =>
      rw [netStep] at h
      split at h <;> cases h
      exact Or.inr (Or.inr ⟨i, t, _, Or.inr ⟨rfl, rfl⟩, rfl, rfl, rfl⟩)

/-! ## The sketch under its clients -/

/-- What a step is for the sketch. -/
def sketchAct (st : Transition.Step (Net ε ι) (NetAct ι) Out) : Option Act :=
  match st.act, st.out with
  | .sketch a, _ => some a
  | .packet _ _ _, [.sent q _] => some (.http q)
  | _, _ => none

/-- Whatever the clients do, the sketch runs as it does when requests are simply made. -/
def netAbstraction (E : Esp ε) : Abstraction (network (ι := ι) E) (sketch E) where
  state := Net.sys
  act := sketchAct
  visible := by
    intro s a o s' b hstep hact
    obtain ⟨b', rfl, hsketch, -⟩ | ⟨i, buf, t, c, rfl, hdelay, hdata, hsys, -⟩ |
      ⟨i, t, c, ⟨rfl, -⟩ | ⟨rfl, -⟩, -, -, rfl⟩ := netStep_cases hstep
    · cases hact
      exact hsketch
    · obtain ⟨-, rfl⟩ | ⟨q, hm, rfl, -⟩ := onData_out hdata
      · cases hact
      · cases hact
        change (if inDelay s.sys.pc = true then _ else _) = _
        rw [if_pos hdelay, hsys, hm]
    · cases hact
    · cases hact
  silent := by
    intro s a o s' hstep hact
    obtain ⟨b', rfl, -, -⟩ | ⟨i, buf, t, c, rfl, -, hdata, hsys, -⟩ |
      ⟨i, t, c, -, hsys, -, rfl⟩ := netStep_cases hstep
    · cases hact
    · obtain ⟨hm, rfl⟩ | ⟨q, -, rfl, -⟩ := onData_out hdata
      · exact ⟨rfl, by rw [hsys, hm]⟩
      · cases hact
    · exact ⟨rfl, hsys⟩

/-- Every run with clients is for the sketch a run with requests, and puts out the same. -/
theorem network_refines {tr : List (Transition.Step (Net ε ι) (NetAct ι) Out)}
    (h : Run (network E) (netBoot E e rx behind) tr s) :
    Run (sketch E) (boot E e rx) ((netAbstraction E).steps tr) s.sys ∧
      outputs ((netAbstraction E).steps tr) = outputs tr :=
  ⟨(netAbstraction E).run h, (netAbstraction E).outputs_steps h⟩

/-- Two clients, the packets of one of which come on both sides of that of the other. -/
def twoClients : List (NetAct ℕ) :=
  idle.map .sketch ++
    [.packet 0 (bytes "GET / HT") ⟨0, 0, .accepts⟩,
      .packet 1 (bytes "GET /clear HTTP/1.1\r\n\r\n") ⟨0, 500, .accepts⟩,
      .packet 0 (bytes "TP/1.1\r\n\r\n") ⟨0, 40, .accepts⟩, .ack 0 ⟨40, 400, .accepts⟩]

theorem network_refines_twoClients :
    ∃ tr s, Run (network esp) (netBoot esp (stored 7) [] fun _ => [] : Net Eeprom ℕ) tr s ∧
      decide (s.sys.mem.event = 1) = true ∧
      Run (sketch esp) (boot esp (stored 7) []) ((netAbstraction esp).steps tr) s.sys := by
  obtain ⟨tr, s, hrun, hevent⟩ := Machine.exists_run_of_exec (network esp)
    (netBoot esp (stored 7) [] fun _ => [] : Net Eeprom ℕ) twoClients
    (fun _ s => decide (s.sys.mem.event = 1)) (by decide)
  exact ⟨tr, s, hrun, hevent, (network_refines hrun).1⟩

/-! ## Conversations -/

/-- The packets of a connection. -/
def packetsOf (i : ι) (tr : List (Transition.Step (Net ε ι) (NetAct ι) Out)) : List Bytes :=
  tr.filterMap fun st =>
    match st.act with
    | .packet j buf _ => if j = i then some buf else none
    | _ => none

/-- The requests that the sketch has answered on a connection, with its answers. -/
def replies (i : ι) (tr : List (Transition.Step (Net ε ι) (NetAct ι) Out)) :
    List (Request × Response) :=
  tr.flatMap fun st =>
    match st.act with
    | .packet j _ _ =>
        if j = i then
          st.out.filterMap fun o =>
            match o with
            | .sent q a => some (q, a)
            | _ => none
        else []
    | _ => []

theorem handle_code (E : Esp ε) (m : Mem ε) (q : Request) :
    (handle E m q).2.code = 200 ∨ (handle E m q).2.code = 400 := by
  cases q with
  | root => exact Or.inl rfl
  | clear => exact Or.inl rfl
  | set cnt hack =>
      change (onSet E cnt hack m).2.code = 200 ∨ (onSet E cnt hack m).2.code = 400
      unfold onSet
      split
      · split
        · exact Or.inl rfl
        · exact Or.inr rfl
      · exact Or.inr rfl

/-- What has come of the packets of a connection. -/
structure Served (behind : Bytes) (i : ι) (tr : List (Transition.Step (Net ε ι) (NetAct ι) Out))
    (c : Connection) : Prop where
  received : ∃ effects,
    startServer.receive (packetsOf i tr) (new behind) = some (c.request, effects)
  answer : Unanswered c ∧ replies i tr = [] ∨
    (∃ q a, handleRequest c.request = some q ∧ replies i tr = [(q, a)] ∧ a.code < 1000 ∧
      Answered (reply a) c) ∨
    (handleRequest c.request = none ∧ replies i tr = [] ∧
      Answered (AsyncBasicResponse.new 500 [] []) c)

variable {i : ι} {tr : List (Transition.Step (Net ε ι) (NetAct ι) Out)} {mem : Bytes}

theorem served_boot (mem : Bytes) (i : ι) :
    Served mem i ([] : List (Transition.Step (Net ε ι) (NetAct ι) Out)) (.new mem) :=
  ⟨⟨[], rfl⟩, Or.inl ⟨unanswered_new mem, rfl⟩⟩

theorem packetsOf_snoc (st : Transition.Step (Net ε ι) (NetAct ι) Out) :
    packetsOf i (tr ++ [st]) = packetsOf i tr ++ packetsOf i [st] := List.filterMap_append

theorem replies_snoc (st : Transition.Step (Net ε ι) (NetAct ι) Out) :
    replies i (tr ++ [st]) = replies i tr ++ replies i [st] := List.flatMap_append

/-- A step that brings the connection no packet. -/
theorem Served.skip {c : Connection} {st : Transition.Step (Net ε ι) (NetAct ι) Out}
    (h : Served mem i tr c) (hpackets : packetsOf i [st] = []) (hreplies : replies i [st] = []) :
    Served mem i (tr ++ [st]) c := by
  refine ⟨?_, ?_⟩
  · rw [packetsOf_snoc, hpackets, List.append_nil]
    exact h.received
  · rw [replies_snoc, hreplies, List.append_nil]
    exact h.answer

/-- A turn of TCP. -/
theorem Served.turn {c c' : Connection} {t : Turn} (h : Served mem i tr c)
    (hturn : c' = c.onAck t ∨ c' = c.onPoll t) : Served mem i tr c' := by
  have hrequest : c'.request = c.request := by
    obtain rfl | rfl := hturn
    · exact onAck_request t c
    · exact onPoll_request t c
  have hanswered : ∀ r, Answered r c → Answered r c' := by
    intro r hr
    obtain rfl | rfl := hturn
    · exact answered_onAck hr t
    · exact answered_onPoll hr t
  obtain ⟨hreceived, ⟨hunanswered, hreplies⟩ | ⟨q, a, hq, hreplies, hcode, hr⟩ |
    ⟨hnone, hreplies, hr⟩⟩ := h
  · have hsame : c' = c := by
      obtain rfl | rfl := hturn
      · exact unanswered_onAck hunanswered t
      · exact unanswered_onPoll hunanswered t
    rw [hsame]
    exact ⟨hreceived, Or.inl ⟨hunanswered, hreplies⟩⟩
  · rw [← hrequest] at hreceived hq
    exact ⟨hreceived, Or.inr (Or.inl ⟨q, a, hq, hreplies, hcode, hanswered _ hr⟩)⟩
  · rw [← hrequest] at hreceived hnone
    exact ⟨hreceived, Or.inr (Or.inr ⟨hnone, hreplies, hanswered _ hr⟩)⟩

/-- A packet for the connection. -/
theorem Served.packet {c c' : Connection} {buf : Bytes} {t : Turn} {m m' : Mem ε}
    {st : Transition.Step (Net ε ι) (NetAct ι) Out} (h : Served mem i tr c)
    (hdata : c.onData E buf t m = some (m', c', st.out)) (hpackets : packetsOf i [st] = [buf])
    (hreplies : replies i [st] = st.out.filterMap fun o =>
      match o with
      | .sent q a => some (q, a)
      | _ => none) : Served mem i (tr ++ [st]) c' := by
  obtain ⟨⟨effects, hreceive⟩, hanswer⟩ := h
  refine ⟨?_, ?_⟩
  · obtain ⟨effects', hrequest, -⟩ := onData_request hdata
    refine ⟨effects ++ effects', ?_⟩
    rw [packetsOf_snoc, hpackets, AsyncWebServer.receive, Scanner.feedAll_snoc,
      ← AsyncWebServer.receive, hreceive, Option.bind_some, hrequest]
    rfl
  · rw [replies_snoc, hreplies]
    obtain ⟨hunanswered, hnil⟩ | ⟨q, a, hq, hone, hcode, hr⟩ | ⟨hnone, hnil, hr⟩ := hanswer
    · obtain ⟨hunanswered', hout⟩ | ⟨q, hq, hout, hr⟩ | ⟨hnone, hout, hr⟩ :=
        unanswered_onData hunanswered hdata
      · rw [hnil, hout]
        exact Or.inl ⟨hunanswered', rfl⟩
      · rw [hnil, hout]
        have hcode : (handle E m q).2.code < 1000 := by
          obtain h | h := handle_code E m q <;> omega
        exact Or.inr (Or.inl ⟨q, _, hq, rfl, hcode, hr⟩)
      · rw [hnil, hout]
        exact Or.inr (Or.inr ⟨hnone, rfl, hr⟩)
    · obtain ⟨hr', hrequest, hout⟩ := answered_onData hr hdata
      rw [hone, hout, hrequest]
      exact Or.inr (Or.inl ⟨q, a, hq, rfl, hcode, hr'⟩)
    · obtain ⟨hr', hrequest, hout⟩ := answered_onData hr hdata
      rw [hnil, hout, hrequest]
      exact Or.inr (Or.inr ⟨hnone, rfl, hr'⟩)

/-- Every step keeps every conversation. -/
theorem served_step (h : Served mem i tr (s.conn i)) (hstep : netStep E s a = some (s', o)) :
    Served mem i (tr ++ [⟨s, a, o, s'⟩]) (s'.conn i) := by
  obtain ⟨b, rfl, -, hconn⟩ | ⟨j, buf, t, c, rfl, -, hdata, -, hconn⟩ |
    ⟨j, t, c, hact, -, hconn, rfl⟩ := netStep_cases hstep
  · rw [hconn]
    exact h.skip rfl rfl
  · by_cases hji : j = i
    · subst hji
      rw [hconn, Function.update_self]
      exact h.packet hdata (by simp [packetsOf]) (by simp [replies])
    · rw [hconn, Function.update_of_ne (Ne.symm hji)]
      exact h.skip (by simp [packetsOf, hji]) (by simp [replies, hji])
  · have hkept : Served mem i (tr ++ [⟨s, a, [], s'⟩]) (s.conn i) := by
      obtain ⟨rfl, -⟩ | ⟨rfl, -⟩ := hact <;> exact h.skip rfl rfl
    by_cases hji : j = i
    · subst hji
      rw [hconn, Function.update_self]
      exact hkept.turn (hact.imp And.right And.right)
    · rw [hconn, Function.update_of_ne (Ne.symm hji)]
      exact hkept

theorem served_of_run (h : Run (network E) (netBoot E e rx behind) tr s) (i : ι) :
    Served (behind i) i tr (s.conn i) := by
  induction h with
  | nil => exact served_boot (behind i) i
  | snoc prev last ih => exact served_step ih last

/-- The step in which a packet completes the request `q` of a connection and is answered `a`. -/
structure Replies (i : ι) (q : Request) (a : Response)
    (st : Transition.Step (Net ε ι) (NetAct ι) Out) : Prop where
  packet : ∃ buf t, st.act = .packet i buf t
  completes : Completes q (st.src.conn i) (st.dst.conn i)
  out : st.out = [.sent q a]

/-- A reply is made when a packet completes the request, and is what the handler gives in the
memory that the sketch then has. -/
theorem reply_handled (h : Run (network E) (netBoot E e rx behind) tr s)
    {q : Request} {a : Response} (hreply : (q, a) ∈ replies i tr) :
    ∃ pre st post, tr = pre ++ st :: post ∧ Replies i q a st ∧
      a = (handle E st.src.sys.mem q).2 := by
  obtain ⟨st, hst, hmem⟩ := List.mem_flatMap.1 hreply
  obtain ⟨pre, post, rfl⟩ := List.append_of_mem hst
  refine ⟨pre, st, post, rfl, ?_⟩
  obtain ⟨-, hstep, -⟩ := h.split
  obtain ⟨src, act, out, dst⟩ := st
  obtain ⟨b, rfl, -, -⟩ | ⟨j, buf, t, c, rfl, -, hdata, -, hconn⟩ |
    ⟨j, t, c, ⟨rfl, -⟩ | ⟨rfl, -⟩, -, -, -⟩ := netStep_cases hstep
  · cases hmem
  · dsimp only at hmem
    split at hmem
    · rename_i hji
      subst hji
      obtain ⟨-, hout⟩ | ⟨q', -, hout, hcompletes⟩ := onData_out hdata
      · change out = [] at hout
        rw [hout] at hmem
        cases hmem
      · change out = _ at hout
        rw [hout, List.filterMap_cons, List.filterMap_nil, List.mem_singleton] at hmem
        cases hmem
        refine ⟨⟨⟨buf, t, rfl⟩, ?_, hout⟩, rfl⟩
        change Completes q (src.conn j) (dst.conn j)
        rw [hconn, Function.update_self]
        exact hcompletes
    · cases hmem
  · cases hmem
  · cases hmem

/-! ## What a client asks and what it gets -/

/-- On a connection that brings a request, however it is written and cut into packets, however
much of it has come, and whatever the other clients do meanwhile: as soon as the request is
complete, the sketch has answered it once. Before that there is no reply, and nothing is sent but
`100 Continue`, behind the head and to a client that has asked for it. -/
theorem conversation (h : Run (network E) (netBoot E e rx behind) tr s)
    {m url t protocol : Bytes} {ps : List (Bytes × Bytes)} {headers : List Bytes} (hm : Word m)
    (ht : WritesTarget url ps t) (hprotocol : Word protocol) (hheaders : ∀ l ∈ headers, Header l)
    {n : ℕ} (hannounced : headers.foldl announced (0, false) = (n, false)) {body : Bytes}
    (hpackets : (packetsOf i tr).flatten <+: requestHead m t protocol headers ++ body) :
    if (requestHead m t protocol headers).length ≤ (packetsOf i tr).flatten.length ∧
        (n = 0 ∨ PacketEnd (packetsOf i tr) ((requestHead m t protocol headers).length + n)) then
      match asked m url ps with
      | some q => ∃ a, replies i tr = [(q, a)] ∧ Answered (reply a) (s.conn i)
      | none => replies i tr = [] ∧ Answered (AsyncBasicResponse.new 500 [] []) (s.conn i)
    else
      replies i tr = [] ∧ (s.conn i).response = none ∧
        (s.conn i).client.sent.Sublist continueLine ∧
        ((packetsOf i tr).flatten.length < (requestHead m t protocol headers).length ∨
            (s.conn i).request.expectingContinue = false → (s.conn i).client.sent = []) := by
  obtain ⟨⟨effects, hreceive⟩, hanswer⟩ := served_of_run h i
  have hasked := handleRequest_of_receive hm ht hprotocol hheaders hpackets hreceive
  obtain ⟨r, effects', hsame, hcomplete⟩ :=
    receive_complete (S := startServer) hm ht hprotocol hheaders hannounced hpackets (behind i)
  rw [hreceive] at hsame
  cases hsame
  have hmeant : (s.conn i).request.parseState = .reqEnd →
      asked m url ps = handleRequest (s.conn i).request := fun hend => by
    obtain ⟨hmissing, -⟩ | ⟨-, hasked⟩ := hasked
    · exact absurd (hcomplete.1 hend).1 (Nat.not_le.2 hmissing)
    · exact hasked.symm
  obtain ⟨hunanswered, hnil⟩ | ⟨q, a, hq, hone, -, hr⟩ | ⟨hnone, hnil, hr⟩ := hanswer
  · rw [if_neg fun h => hunanswered.pending (hcomplete.2 h)]
    obtain ⟨hsub, hsilent⟩ := hunanswered.silent
    refine ⟨hnil, hunanswered.response, hsub, fun hbefore => hsilent ?_⟩
    rintro ⟨hexpecting, hdone⟩
    obtain hmissing | hfalse := hbefore
    · obtain ⟨-, hreading⟩ | ⟨hwhole, -⟩ := hasked
      · exact hdone hreading
      · exact absurd hwhole (Nat.not_le.2 hmissing)
    · rw [hfalse] at hexpecting
      cases hexpecting
  · rw [if_pos (hcomplete.1 hr.complete), hmeant hr.complete, hq]
    exact ⟨a, hone, hr⟩
  · rw [if_pos (hcomplete.1 hr.complete), hmeant hr.complete, hnone]
    exact ⟨hnil, hr⟩

theorem conversation_twoClients :
    ∃ tr s, Run (network esp) (netBoot esp (stored 7) [] fun _ => [] : Net Eeprom ℕ) tr s ∧
      ∃ a, replies 0 tr = [(.root, a)] ∧ Answered (reply a) (s.conn 0) := by
  obtain ⟨tr, s, hrun, hpackets⟩ := Machine.exists_run_of_exec (network esp)
    (netBoot esp (stored 7) [] fun _ => [] : Net Eeprom ℕ) twoClients
    (fun tr _ => decide ((packetsOf 0 tr).flatten =
      requestHead (bytes "GET") (bytes "/") (bytes "HTTP/1.1") [] ++ [])) (by decide)
  have hflatten := of_decide_eq_true hpackets
  have hasked : asked (bytes "GET") (bytes "/") [] = some .root := by decide
  have hconversation := conversation hrun word_get
    (.path (writes_self (by decide +kernel)) (by decide)) word_http (by simp)
    (show [].foldl announced (0, false) = (0, false) from rfl)
    (show _ <+: requestHead (bytes "GET") (bytes "/") (bytes "HTTP/1.1") [] ++ [] from
      ⟨[], (List.append_nil _).trans hflatten⟩)
  rw [if_pos ⟨by rw [hflatten, List.append_nil], Or.inl rfl⟩, hasked] at hconversation
  exact ⟨tr, s, hrun, hconversation⟩

/-- What can be read on a connection: nothing, or the one reply of the sketch to its request, or
that there is no callback for it. -/
theorem Served.read {c : Connection} (h : Served mem i tr c)
    (hexpecting : c.request.expectingContinue = false) (hrefused : c.client.refused = 0)
    (hlength : ∀ q a, (q, a) ∈ replies i tr → (bytes a.text).length < 2147483648) :
    readResponse c.client.sent = none ∨
      (∃ q a, handleRequest c.request = some q ∧ replies i tr = [(q, a)] ∧
        readResponse c.client.sent = some (a.code, bytes a.text, [])) ∨
      (handleRequest c.request = none ∧ c.request.parseState = .reqEnd ∧ replies i tr = [] ∧
        readResponse c.client.sent = some (500, [], [])) := by
  obtain ⟨-, ⟨hunanswered, -⟩ | ⟨q, a, hq, hone, hcode, hr⟩ | ⟨hnone, hnil, hr⟩⟩ := h
  · exact Or.inl (unanswered_read hunanswered hexpecting hrefused)
  · have hmem : (q, a) ∈ replies i tr := by
      rw [hone]
      exact List.mem_singleton_self _
    have hsimple : Simple (reply a) := simple_new hcode (hlength q a hmem) (Or.inl rfl)
    refine (answered_read hr hsimple hexpecting hrefused).imp id fun hall => ?_
    exact Or.inl ⟨q, a, hq, hone, hall⟩
  · have hsimple : Simple (AsyncBasicResponse.new 500 [] []) :=
      simple_new (by decide) (by decide) (Or.inr rfl)
    refine (answered_read hr hsimple hexpecting hrefused).imp id fun hall => ?_
    exact Or.inr ⟨hnone, hr.complete, hnil, hall⟩

/-- Whatever comes on its connection, and whatever the other clients do: a client that does not
ask to continue, and from which TCP refuses nothing, reads at most one response. It is the
one reply that the sketch has made to it, or the `500` for a request without a callback. -/
theorem client_reads_own_reply (h : Run (network E) (netBoot E e rx behind) tr s) (i : ι)
    (hexpecting : (s.conn i).request.expectingContinue = false)
    (hrefused : (s.conn i).client.refused = 0)
    (hlength : ∀ q a, (q, a) ∈ replies i tr → (bytes a.text).length < 2147483648)
    {code : ℕ} {content rest : Bytes}
    (hread : readResponse (s.conn i).client.sent = some (code, content, rest)) :
    rest = [] ∧
      ((∃ q a, replies i tr = [(q, a)] ∧ code = a.code ∧ content = bytes a.text) ∨
        (replies i tr = [] ∧ code = 500 ∧ content = [])) := by
  obtain hnothing | ⟨q, a, -, hone, hall⟩ | ⟨-, -, hnil, hall⟩ :=
    (served_of_run h i).read hexpecting hrefused hlength
  · rw [hnothing] at hread
    cases hread
  · rw [hall] at hread
    cases hread
    exact ⟨rfl, Or.inl ⟨q, a, hone, rfl, rfl⟩⟩
  · rw [hall] at hread
    cases hread
    exact ⟨rfl, Or.inr ⟨hnil, rfl, rfl⟩⟩

theorem client_reads_own_reply_twoClients :
    ∃ tr s code content rest,
      Run (network esp) (netBoot esp (stored 7) [] fun _ => [] : Net Eeprom ℕ) tr s ∧
      readResponse (s.conn 0).client.sent = some (code, content, rest) ∧ rest = [] ∧
      ((∃ q a, replies 0 tr = [(q, a)] ∧ code = a.code ∧ content = bytes a.text) ∨
        (replies 0 tr = [] ∧ code = 500 ∧ content = [])) := by
  obtain ⟨tr, s, hrun, hall⟩ := Machine.exists_run_of_exec (network esp)
    (netBoot esp (stored 7) [] fun _ => [] : Net Eeprom ℕ) twoClients
    (fun tr s => decide ((s.conn 0).request.expectingContinue = false ∧
      (s.conn 0).client.refused = 0 ∧
      (replies 0 tr).all (fun p => (bytes p.2.text).length < 2147483648) = true ∧
      (readResponse (s.conn 0).client.sent).isSome = true)) (by decide +kernel)
  obtain ⟨hexpecting, hrefused, hlength, hsome⟩ := of_decide_eq_true hall
  obtain ⟨⟨code, content, rest⟩, hread⟩ := Option.isSome_iff_exists.1 hsome
  exact ⟨tr, s, code, content, rest, hrun, hread,
    client_reads_own_reply hrun 0 hexpecting hrefused
      (fun q a hmem => of_decide_eq_true (List.all_eq_true.1 hlength (q, a) hmem)) hread⟩

end Byter
