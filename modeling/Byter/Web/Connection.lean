import Byter.Web.Reply
import Byter.Web.Routes

/-!
# A connection

A connection has its request, the response once there is one, and the client to which TCP
brings the bytes. What a packet has for effects is carried out on the connection and on
the memory of the sketch. Whatever the packets and the turns of TCP are, the client gets at most
one answer, and of it only what comes first.
-/

namespace Byter

open AsyncBasicResponse

variable {ε : Type*}

structure Connection where
  request : AsyncWebServerRequest Route
  response : Option AsyncBasicResponse
  client : AsyncClient

/-- The client of a connection from which nothing has come and to which nothing has been sent. -/
def AsyncClient.new : AsyncClient := ⟨0, [], 0⟩

def continueLine : Bytes := bytes "HTTP/1.1 100 Continue\r\n\r\n"

/-- The response that a callback of the sketch sends. -/
def reply (a : Response) : AsyncBasicResponse :=
  AsyncBasicResponse.new a.code (bytes "text/plain") (bytes a.text)

namespace Connection

def new (behind : Bytes) : Connection := ⟨.new behind, none, .new⟩

/-- `send` of the request. -/
def send (tcp : Tcp) (response : AsyncBasicResponse) (c : Connection) : Connection :=
  let (response, client) := response.respond c.request.version tcp c.client
  { c with response := some response, client := client }

/-- Carries out the effects of a packet. -/
def perform (E : Esp ε) (tcp : Tcp) :
    List Effect → Mem ε → Connection → Mem ε × Connection × List Out
  | [], m, c => (m, c, [])
  | .close :: es, m, c => perform E tcp es m c
  | .writeContinue :: es, m, c =>
      perform E tcp es m { c with client := (c.client.write tcp continueLine).1 }
  | .handleRequest :: es, m, c =>
      match handleRequest c.request with
      | some q =>
          let (m, a) := handle E m q
          let (m, c, out) := perform E tcp es m (c.send tcp (reply a))
          (m, c, .sent q a :: out)
      | none => perform E tcp es m (c.send tcp (AsyncBasicResponse.new 500 [] []))

/-- `_onData`, with what it does to the memory of the sketch. A boundary that is too long keeps
it from coming to an end. -/
def onData (E : Esp ε) (buf : Bytes) (t : Turn) (m : Mem ε) (c : Connection) :
    Option (Mem ε × Connection × List Out) :=
  (startServer.onData buf c.request).map fun r =>
    perform E t.tcp r.2 m { c with request := r.1, client := { c.client with room := t.room } }

/-- `_onAck` of the request. -/
def onAck (t : Turn) (c : Connection) : Connection :=
  match c.response with
  | none => c
  | some r =>
      if r.state ≠ .finished then
        let (response, client) := turn (r, c.client) t
        { c with response := some response, client := client }
      else { c with response := none }

/-- `_onPoll` of the request. While a connection waits for an acknowledgement `canSend` is false:
that is a turn without room. -/
def onPoll (t : Turn) (c : Connection) : Connection :=
  match c.response with
  | none => c
  | some r =>
      if t.room ≠ 0 ∧ r.state ≠ .finished then
        let (response, client) := turn (r, c.client) { t with len := 0 }
        { c with response := some response, client := client }
      else c

end Connection

/-! ## What has been sent -/

variable {c : Connection} {p : Bytes}

/-- Before the answer at most `100 Continue` is sent, to a client that has asked for it and whose
head is over. -/
def Interim (r : AsyncWebServerRequest Route) (p : Bytes) : Prop :=
  p = [] ∨ r.Continuing ∧ p <+: continueLine

/-- What a client has got before the answer. -/
def Asked (r : AsyncWebServerRequest Route) (client : AsyncClient) : Prop :=
  ∃ p, Interim r p ∧ Taken p .new client

/-- The request has not been answered. -/
structure Unanswered (c : Connection) : Prop where
  pending : c.request.parseState ≠ .reqEnd
  version : c.request.version ≤ 1
  response : c.response = none
  sent : Asked c.request c.client

/-- How far the response `r` has come; it is gone when everything has been acknowledged. -/
def Sending (message : Bytes) (c₁ : AsyncClient) (c : Connection) : Prop :=
  match c.response with
  | some r => ∃ k n, Progress message c₁ k n (r, c.client)
  | none => Taken message c₁ c.client

/-- The request has been answered by `r`. -/
structure Answered (r : AsyncBasicResponse) (c : Connection) : Prop where
  complete : c.request.parseState = .reqEnd
  version : c.request.version ≤ 1
  sent : ∃ p c₁, Interim c.request p ∧ Taken p .new c₁ ∧
    Sending (r.assembleHead c.request.version ++ r.content) c₁ c

theorem unanswered_new (behind : Bytes) : Unanswered (.new behind) where
  pending := by
    intro h
    cases h
  version := Nat.zero_le 1
  response := rfl
  sent := ⟨[], Or.inl rfl, Taken.start 0⟩

/-! ## Packets -/

theorem Taken.trans {q : Bytes} {c₀ c₁ c₂ : AsyncClient} (h : Taken p c₀ c₁) (h' : Taken q c₁ c₂) :
    Taken (p ++ q) c₀ c₂ := by
  obtain ⟨w, hsent, hsub, hlength⟩ := h
  obtain ⟨w', hsent', hsub', hlength'⟩ := h'
  refine ⟨w ++ w', ?_, hsub.append hsub', ?_⟩
  · rw [hsent', hsent, List.append_assoc]
  · simp only [List.length_append]
    omega

/-- Only what there is room for is written. -/
theorem write_take (tcp : Tcp) (data : Bytes) (c : AsyncClient) :
    c.write tcp (data.take c.room) = c.write tcp data := by
  have hlength : (data.take c.room).length = min c.room data.length := List.length_take
  have hsame : (if c.room < (data.take c.room).length then c.room else (data.take c.room).length) =
      if c.room < data.length then c.room else data.length := by
    rw [hlength]
    split <;> split <;> omega
  have htake : (data.take c.room).take (if c.room < data.length then c.room else data.length) =
      data.take (if c.room < data.length then c.room else data.length) := by
    rw [List.take_take]
    congr 1
    split <;> omega
  unfold AsyncClient.write
  dsimp only
  rw [hsame, htake]

theorem taken_write (tcp : Tcp) (data : Bytes) (c : AsyncClient) :
    Taken (data.take c.room) c (c.write tcp data).1 := by
  have hfit : (data.take c.room).length ≤ c.room := List.length_take_le _ _
  have hstart : Taken [] c c := Taken.start c.room
  have hwrite := hstart.write hfit tcp
  rwa [List.nil_append, write_take] at hwrite

theorem Interim.behind {r r' : AsyncWebServerRequest Route} (h : Interim r p) {buf : Bytes}
    {effects : List Effect} (hdata : startServer.onData buf r = some (r', effects)) :
    Interim r' p := by
  obtain rfl | ⟨⟨hexpecting, hreading⟩, hpre⟩ := h
  · exact Or.inl rfl
  · obtain ⟨hkeeps, hreading', -⟩ := onData_behind_head hreading hdata
    have hsame : r'.expectingContinue = r.expectingContinue :=
      congrArg (fun o => o.2.2.2.1) hkeeps.fixed
    exact Or.inr ⟨⟨hsame.trans hexpecting, hreading'⟩, hpre⟩

/-- What is written when the head has just come to its end. -/
theorem Interim.continued {r r' : AsyncWebServerRequest Route} (h : Interim r p)
    (hreading : r.Reading) (hcontinuing : r'.Continuing) (room : ℕ) :
    Interim r' (p ++ continueLine.take room) := by
  obtain rfl | ⟨hdone, -⟩ := h
  · rw [List.nil_append]
    exact Or.inr ⟨hcontinuing, List.take_prefix room continueLine⟩
  · exact absurd hreading hdone.2

/-- What is done before the handler is called. -/
theorem perform_first (E : Esp ε) (tcp : Tcp) {first : List Effect} (rest : List Effect) (m : Mem ε)
    {continues : Prop} (h : first = [] ∨ first = [.close] ∨ first = [.writeContinue] ∧ continues) :
    ∃ client, Connection.perform E tcp (first ++ rest) m c =
        Connection.perform E tcp rest m { c with client := client } ∧
      (client = c.client ∨
        continues ∧ Taken (continueLine.take c.client.room) c.client client) := by
  obtain rfl | rfl | ⟨rfl, hcontinues⟩ := h
  · exact ⟨c.client, rfl, Or.inl rfl⟩
  · exact ⟨c.client, rfl, Or.inl rfl⟩
  · exact ⟨_, rfl, Or.inr ⟨hcontinues, taken_write tcp continueLine c.client⟩⟩

theorem perform_request (E : Esp ε) (tcp : Tcp) (effects : List Effect) (m : Mem ε)
    (c : Connection) : (Connection.perform E tcp effects m c).2.1.request = c.request := by
  induction effects generalizing m c with
  | nil => rfl
  | cons effect effects ih =>
      cases effect with
      | close => exact ih m c
      | writeContinue => exact ih m _
      | handleRequest =>
          unfold Connection.perform
          split
          · exact ih _ _
          · exact ih _ _

theorem onData_request {E : Esp ε} {buf : Bytes} {t : Turn} {m m' : Mem ε} {c' : Connection}
    {out : List Out} (hdata : c.onData E buf t m = some (m', c', out)) :
    ∃ effects, startServer.onData buf c.request = some (c'.request, effects) ∧
      (m', c', out) = Connection.perform E t.tcp effects m
        { c with request := c'.request, client := { c.client with room := t.room } } := by
  obtain ⟨⟨r, effects⟩, hrequest, hperform⟩ := Option.map_eq_some_iff.1 hdata
  have hsame := perform_request E t.tcp effects m
    { c with request := r, client := { c.client with room := t.room } }
  dsimp only at hperform hsame
  rw [hperform] at hsame
  dsimp only at hsame
  subst hsame
  exact ⟨effects, hrequest, hperform.symm⟩

/-- A packet leaves the request unanswered, or a callback answers it, or there is none. -/
theorem onData_cases {E : Esp ε} {buf : Bytes} {t : Turn} {m m' : Mem ε} {c' : Connection}
    {out : List Out} (hpending : c.request.parseState ≠ .reqEnd)
    (hdata : c.onData E buf t m = some (m', c', out)) :
    ∃ client, c'.request.version ≤ max c.request.version 1 ∧
      (Asked c.request c.client → Asked c'.request client) ∧
      (c'.request.parseState ≠ .reqEnd ∧ m' = m ∧ out = [] ∧
          c' = { c with request := c'.request, client := client } ∨
        c'.request.parseState = .reqEnd ∧ (∃ q, handleRequest c'.request = some q ∧
          m' = (handle E m q).1 ∧ out = [.sent q (handle E m q).2] ∧
          c' = { c with request := c'.request, client := client }.send t.tcp
            (reply (handle E m q).2)) ∨
        c'.request.parseState = .reqEnd ∧ handleRequest c'.request = none ∧ m' = m ∧ out = [] ∧
          c' = { c with request := c'.request, client := client }.send t.tcp
            (AsyncBasicResponse.new 500 [] [])) := by
  obtain ⟨effects, hrequest, hperform⟩ := onData_request hdata
  generalize c'.request = r' at *
  obtain ⟨hversion, first, rfl, hfirst⟩ := onData_due hpending hrequest
  obtain ⟨client, hrest, hclient⟩ := perform_first E t.tcp
    (if r'.parseState = .reqEnd then [.handleRequest] else []) m
    (c := { c with request := r', client := { c.client with room := t.room } }) hfirst
  dsimp only at hrest hclient
  rw [hrest] at hperform
  refine ⟨client, hversion, ?_, ?_⟩
  · rintro ⟨p, hinterim, htaken⟩
    obtain rfl | ⟨⟨hreading, hcontinuing⟩, hwritten⟩ := hclient
    · exact ⟨p, hinterim.behind hrequest, htaken.room t.room⟩
    · exact ⟨_, hinterim.continued hreading hcontinuing t.room, (htaken.room t.room).trans hwritten⟩
  · by_cases hend : r'.parseState = .reqEnd
    · right
      rw [if_pos hend] at hperform
      unfold Connection.perform at hperform
      split at hperform
      · rename_i q hq
        cases hperform
        exact Or.inl ⟨hend, q, hq, rfl, rfl, rfl⟩
      · rename_i hq
        cases hperform
        exact Or.inr ⟨hend, hq, rfl, rfl, rfl⟩
    · left
      rw [if_neg hend] at hperform
      cases hperform
      exact ⟨hend, rfl, rfl, rfl⟩

/-- The packet has completed the request, which is `q` for the sketch. -/
structure Completes (q : Request) (c c' : Connection) : Prop where
  pending : c.request.parseState ≠ .reqEnd
  complete : c'.request.parseState = .reqEnd
  asked : handleRequest c'.request = some q

/-- The memory changes as it does when the sketch is asked, and it is asked at most once, when the
request is complete. -/
theorem onData_out {E : Esp ε} {buf : Bytes} {t : Turn} {m m' : Mem ε} {c' : Connection}
    {out : List Out} (hdata : c.onData E buf t m = some (m', c', out)) :
    (m' = m ∧ out = []) ∨
      ∃ q, m' = (handle E m q).1 ∧ out = [.sent q (handle E m q).2] ∧ Completes q c c' := by
  by_cases hpending : c.request.parseState = .reqEnd
  · unfold Connection.onData at hdata
    rw [onData_at_end hpending] at hdata
    cases hdata
    exact Or.inl ⟨rfl, rfl⟩
  · obtain ⟨client, -, -, ⟨-, hm, hout, -⟩ | ⟨hend, q, hq, hm, hout, -⟩ | ⟨-, -, hm, hout, -⟩⟩ :=
      onData_cases hpending hdata
    · exact Or.inl ⟨hm, hout⟩
    · exact Or.inr ⟨q, hm, hout, hpending, hend, hq⟩
    · exact Or.inl ⟨hm, hout⟩

theorem answered_send {r : AsyncBasicResponse} (hr : r.Fresh) (tcp : Tcp)
    (hcomplete : c.request.parseState = .reqEnd) (hversion : c.request.version ≤ 1)
    (hasked : Asked c.request c.client) : Answered r (c.send tcp r) where
  complete := hcomplete
  version := hversion
  sent := by
    obtain ⟨p, hinterim, htaken⟩ := hasked
    exact ⟨p, c.client, hinterim, htaken, c.client.room, _,
      respond_progress hr c.request.version ⟨0, c.client.room, tcp⟩⟩

/-- What a packet can do to a connection that has not been answered. -/
theorem unanswered_onData {E : Esp ε} {buf : Bytes} {t : Turn} {m m' : Mem ε} {c' : Connection}
    {out : List Out} (h : Unanswered c) (hdata : c.onData E buf t m = some (m', c', out)) :
    (Unanswered c' ∧ out = []) ∨
      (∃ q, handleRequest c'.request = some q ∧ out = [.sent q (handle E m q).2] ∧
        Answered (reply (handle E m q).2) c') ∨
      (handleRequest c'.request = none ∧ out = [] ∧
        Answered (AsyncBasicResponse.new 500 [] []) c') := by
  obtain ⟨client, hversion, hasked, hcases⟩ := onData_cases h.pending hdata
  have hversion' : c'.request.version ≤ 1 := by
    have := h.version
    omega
  have hasked' := hasked h.sent
  obtain ⟨hpending, -, hout, hc⟩ | ⟨hcomplete, q, hq, -, hout, hc⟩ | ⟨hcomplete, hq, -, hout, hc⟩ :=
    hcases
  · refine Or.inl ⟨?_, hout⟩
    rw [hc]
    exact ⟨hpending, hversion', h.response, hasked'⟩
  · refine Or.inr (Or.inl ⟨q, hq, hout, ?_⟩)
    rw [hc]
    exact answered_send (fresh_new _ _ _) t.tcp hcomplete hversion' hasked'
  · refine Or.inr (Or.inr ⟨hq, hout, ?_⟩)
    rw [hc]
    exact answered_send (fresh_new _ _ _) t.tcp hcomplete hversion' hasked'

/-! ## A connection that has been answered -/

theorem Progress.room {message : Bytes} {c₁ c₂ : AsyncClient} {k n : ℕ} {r : AsyncBasicResponse}
    (h : Progress message c₁ k n (r, c₂)) (room : ℕ) :
    Progress message c₁ k n (r, { c₂ with room := room }) := by
  cases h with
  | content state first more content length taken =>
      exact .content state first more content length (taken.room room)
  | all state first all taken => exact .all state first all (taken.room room)

theorem Sending.room {message : Bytes} {c₁ : AsyncClient} (h : Sending message c₁ c) (room : ℕ) :
    Sending message c₁ { c with client := { c.client with room := room } } := by
  obtain ⟨request, response, client⟩ := c
  cases response with
  | none => exact Taken.room h room
  | some r =>
      obtain ⟨k, n, hprogress⟩ := h
      exact ⟨k, n, hprogress.room room⟩

/-- Whatever comes in afterwards is ignored. -/
theorem answered_onData {E : Esp ε} {buf : Bytes} {t : Turn} {m m' : Mem ε} {c' : Connection}
    {out : List Out} {r : AsyncBasicResponse} (h : Answered r c)
    (hdata : c.onData E buf t m = some (m', c', out)) :
    Answered r c' ∧ c'.request = c.request ∧ out = [] := by
  unfold Connection.onData at hdata
  rw [onData_at_end h.complete] at hdata
  cases hdata
  obtain ⟨p, c₁, hinterim, htaken, hsending⟩ := h.sent
  exact ⟨⟨h.complete, h.version, p, c₁, hinterim, htaken, hsending.room t.room⟩, rfl, rfl⟩

theorem answered_turn {r response : AsyncBasicResponse} (h : Answered r c)
    (hresponse : c.response = some response) (t : Turn) :
    Answered r { c with
      response := some (turn (response, c.client) t).1
      client := (turn (response, c.client) t).2 } where
  complete := h.complete
  version := h.version
  sent := by
    obtain ⟨p, c₁, hinterim, htaken, hsending⟩ := h.sent
    unfold Sending at hsending
    rw [hresponse] at hsending
    obtain ⟨k, n, hprogress⟩ := hsending
    exact ⟨p, c₁, hinterim, htaken, k, n + t.room, hprogress.turn t⟩

theorem answered_onAck {r : AsyncBasicResponse} (h : Answered r c) (t : Turn) :
    Answered r (c.onAck t) := by
  unfold Connection.onAck
  split
  · exact h
  · rename_i response hresponse
    split
    · exact answered_turn h hresponse t
    · rename_i hfinished
      obtain ⟨p, c₁, hinterim, htaken, hsending⟩ := h.sent
      unfold Sending at hsending
      rw [hresponse] at hsending
      obtain ⟨k, n, hprogress⟩ := hsending
      refine ⟨h.complete, h.version, p, c₁, hinterim, htaken, ?_⟩
      cases hprogress with
      | content state first more content length taken =>
          exact absurd (fun hend => by rw [state] at hend; cases hend) hfinished
      | all state first all taken => exact taken

theorem answered_onPoll {r : AsyncBasicResponse} (h : Answered r c) (t : Turn) :
    Answered r (c.onPoll t) := by
  unfold Connection.onPoll
  split
  · exact h
  · rename_i response hresponse
    split
    · exact answered_turn h hresponse { t with len := 0 }
    · exact h

theorem onAck_request (t : Turn) (c : Connection) : (c.onAck t).request = c.request := by
  unfold Connection.onAck
  split
  · rfl
  · split <;> rfl

theorem onPoll_request (t : Turn) (c : Connection) : (c.onPoll t).request = c.request := by
  unfold Connection.onPoll
  split
  · rfl
  · split <;> rfl

theorem unanswered_onAck (h : Unanswered c) (t : Turn) : c.onAck t = c := by
  rw [Connection.onAck, h.response]

theorem unanswered_onPoll (h : Unanswered c) (t : Turn) : c.onPoll t = c := by
  rw [Connection.onPoll, h.response]

/-! ## What a client reads -/

/-- Before the answer a client has got nothing but bytes of `100 Continue`, and nothing at all
if it has not asked for it or if the head is not over. -/
theorem Unanswered.silent (h : Unanswered c) :
    c.client.sent.Sublist continueLine ∧ (¬ c.request.Continuing → c.client.sent = []) := by
  obtain ⟨p, hinterim, w, hsent, hsub, -⟩ := h.sent
  rw [AsyncClient.new, List.nil_append] at hsent
  subst hsent
  obtain rfl | ⟨hcontinuing, hpre⟩ := hinterim
  · obtain hnil := List.sublist_nil.1 hsub
    rw [hnil]
    exact ⟨List.nil_sublist _, fun _ => rfl⟩
  · exact ⟨hsub.trans hpre.sublist, fun hdone => absurd hcontinuing hdone⟩

theorem Sending.taken {message : Bytes} {c₁ : AsyncClient} (h : Sending message c₁ c) :
    ∃ k, Taken (message.take k) c₁ c.client := by
  unfold Sending at h
  split at h
  · obtain ⟨k, n, hprogress⟩ := h
    exact ⟨n, hprogress.taken⟩
  · exact ⟨message.length, by rwa [List.take_length]⟩

theorem unanswered_read (h : Unanswered c) (hexpecting : c.request.expectingContinue = false)
    (hrefused : c.client.refused = 0) : readResponse c.client.sent = none := by
  obtain ⟨p, rfl | ⟨⟨htrue, -⟩, -⟩, htaken⟩ := h.sent
  · rw [htaken.eq_of_refused hrefused]
    rfl
  · rw [htrue] at hexpecting
    cases hexpecting

/-- A client that has not asked to continue, and from which TCP has refused nothing, reads the
answer or as yet nothing. -/
theorem answered_read {r : AsyncBasicResponse} (h : Answered r c) (hr : Simple r)
    (hexpecting : c.request.expectingContinue = false) (hrefused : c.client.refused = 0) :
    readResponse c.client.sent = none ∨ readResponse c.client.sent = some (r.code, r.content, []) := by
  obtain ⟨p, c₁, hinterim, htaken, hsending⟩ := h.sent
  obtain rfl | ⟨⟨htrue, -⟩, -⟩ := hinterim
  · obtain ⟨k, htake⟩ := hsending.taken
    have hall := (htaken.trans htake).eq_of_refused hrefused
    rw [List.nil_append] at hall
    change c.client.sent = [] ++ _ at hall
    rw [List.nil_append] at hall
    rw [hall]
    by_cases hk : (r.assembleHead c.request.version ++ r.content).length ≤ k
    · rw [List.take_of_length_le hk]
      have hreply := readResponse_reply hr h.version []
      rw [List.append_nil] at hreply
      exact Or.inr hreply
    · refine Or.inl (readResponse_part hr h.version ?_ (List.take_append_drop k _))
      rw [Ne, List.drop_eq_nil_iff]
      exact hk
  · rw [htrue] at hexpecting
    cases hexpecting

end Byter
