import Byter.Sketch.Loop
import Byter.Web.Head

/-!
# The requests of the sketch

`startServer` gives the web server three handlers. Behind the parser they see a path and
parameters; what the sketch is asked for depends on these alone. It is here compared with
what the client has written.
-/

namespace Byter

open AsyncWebServerRequest

/-! ## Handlers -/

/-- The callbacks of `startServer`. -/
inductive Route
  | root
  | clear
  | set
deriving DecidableEq, Repr

def paramCnt : Bytes := bytes "cnt"

def paramHack : Bytes := bytes "hack"

def startServer : AsyncWebServer Route where
  handlers :=
    [⟨bytes "/", HTTP_GET, some .root⟩, ⟨bytes "/clear", HTTP_GET, some .clear⟩,
      ⟨bytes "/set", HTTP_GET, some .set⟩]
  catchAllHandler := ⟨[], HTTP_ANY, none⟩

/-- The value of a parameter of the query, if there is one. -/
def paramValue (r : AsyncWebServerRequest Route) (name : Bytes) : Option String :=
  if r.hasParam name false false then (r.getParam name false false).map fun p => text p.value
  else none

/-- What the sketch is asked for by its callback. -/
def onRequest (r : AsyncWebServerRequest Route) : Route → Request
  | .root => .root
  | .clear => .clear
  | .set => .set (paramValue r paramCnt) (paramValue r paramHack)

/-- `handleRequest` of the handler: without a callback the answer is `500`. -/
def handleRequest (r : AsyncWebServerRequest Route) : Option Request :=
  (r.handler.bind AsyncCallbackWebHandler.onRequest).map (onRequest r)

/-! ## What a client asks for -/

/-- The first parameter of a name. -/
def firstValue (ps : List (Bytes × Bytes)) (name : Bytes) : Option String :=
  (ps.find? fun p => p.1 = name).map fun p => text p.2

/-- The path, or a path below it. -/
def Below (path url : Bytes) : Prop := url = path ∨ path ++ bytes "/" <+: url

instance (path url : Bytes) : Decidable (Below path url) :=
  inferInstanceAs (Decidable (_ ∨ _))

/-- What the sketch is asked for by a method, a path and parameters. Methods that the server
does not know count as `GET`. -/
def asked (m url : Bytes) (ps : List (Bytes × Bytes)) : Option Request :=
  if m ∈ ["POST", "DELETE", "PUT", "PATCH", "HEAD", "OPTIONS"].map bytes then none
  else if Below (bytes "/") url then some .root
  else if Below (bytes "/clear") url then some .clear
  else if Below (bytes "/set") url then
    some (.set (firstValue ps paramCnt) (firstValue ps paramHack))
  else none

/-! ## The choice of a handler -/

variable {r r' : AsyncWebServerRequest Route} {m url : Bytes} {ps : List (Bytes × Bytes)}

theorem methodOf_get_iff (hm : Word m) :
    methodOf m &&& HTTP_GET = 0 ↔
      m ∈ ["POST", "DELETE", "PUT", "PATCH", "HEAD", "OPTIONS"].map bytes := by
  unfold methodOf
  simp only [isLiteral_of_not_mem (hm.not_mem (b := 0) (by decide)), decide_eq_true_iff]
  split_ifs with hget hpost hdelete hput hpatch hhead hoptions
  · subst hget
    decide
  · exact iff_of_true (by decide) (by simp [hpost])
  · exact iff_of_true (by decide) (by simp [hdelete])
  · exact iff_of_true (by decide) (by simp [hput])
  · exact iff_of_true (by decide) (by simp [hpatch])
  · exact iff_of_true (by decide) (by simp [hhead])
  · exact iff_of_true (by decide) (by simp [hoptions])
  · exact iff_of_false (by decide) (by simp [hpost, hdelete, hput, hpatch, hhead, hoptions])

/-- A path without wildcards. -/
theorem canHandle_get (path : Bytes) (c : Route) (hempty : path.length ≠ 0)
    (hsuffix : startsWith path (bytes "/*.") = false) (hstar : endsWith path (bytes "*") = false) :
    AsyncCallbackWebHandler.canHandle ⟨path, HTTP_GET, some c⟩ r = true ↔
      r.method &&& HTTP_GET ≠ 0 ∧ Below path r.url := by
  unfold AsyncCallbackWebHandler.canHandle Below
  have hurl : startsWith r.url (path ++ bytes "/") = true ↔ path ++ bytes "/" <+: r.url :=
    List.isPrefixOf_iff_prefix
  simp only [hsuffix, hstar, ← hurl, UInt8.and_comm HTTP_GET]
  by_cases hmethod : r.method &&& HTTP_GET = 0
  · simp [hmethod]
  · by_cases hpath : r.url = path
    · simp [hmethod, hpath]
    · simp [hmethod, hpath, Ne.symm hpath, hempty]

theorem attachHandler_startServer (r : AsyncWebServerRequest Route) :
    ((startServer.attachHandler r).handler.bind AsyncCallbackWebHandler.onRequest) =
      if r.method &&& HTTP_GET = 0 then none
      else if Below (bytes "/") r.url then some .root
      else if Below (bytes "/clear") r.url then some .clear
      else if Below (bytes "/set") r.url then some .set
      else none := by
  have hroot := canHandle_get (r := r) (bytes "/") .root (by decide) (by decide) (by decide)
  have hclear := canHandle_get (r := r) (bytes "/clear") .clear (by decide) (by decide)
    (by decide)
  have hset := canHandle_get (r := r) (bytes "/set") .set (by decide) (by decide) (by decide)
  unfold AsyncWebServer.attachHandler startServer
  simp only [List.find?_cons, List.find?_nil]
  by_cases hmethod : r.method &&& HTTP_GET = 0
  · have hno : ∀ {can : Bool} {below : Prop}, (can = true ↔ r.method &&& HTTP_GET ≠ 0 ∧ below) →
        can = false := fun h => Bool.eq_false_iff.2 fun hcan => (h.1 hcan).1 hmethod
    rw [if_pos hmethod, hno hroot, hno hclear, hno hset]
    rfl
  · have hall : ∀ {can : Bool} {below : Prop} [Decidable below],
        (can = true ↔ r.method &&& HTTP_GET ≠ 0 ∧ below) → can = decide below := by
      intro can below _ h
      rw [Bool.eq_iff_iff, h, decide_eq_true_iff]
      exact and_iff_right hmethod
    rw [if_neg hmethod, hall hroot, hall hclear, hall hset]
    by_cases h : Below (bytes "/") r.url
    · simp [h]
    · by_cases h' : Below (bytes "/clear") r.url
      · simp [h, h']
      · by_cases h'' : Below (bytes "/set") r.url <;> simp [h, h', h'']

/-! ## The request and what was meant -/

theorem paramValue_eq_getParam (r : AsyncWebServerRequest Route) (name : Bytes) :
    paramValue r name = (r.getParam name false false).map fun p => text p.value := by
  have hfound : r.hasParam name false false = (r.getParam name false false).isSome := by
    rw [Bool.eq_iff_iff, hasParam, getParam, List.any_eq_true, List.find?_isSome]
  rw [paramValue, hfound]
  cases r.getParam name false false <;> rfl

theorem paramValue_of_params (h : r.params = ps.map queryParam) (name : Bytes) :
    paramValue r name = firstValue ps name := by
  rw [paramValue_eq_getParam]
  unfold firstValue getParam
  rw [h, List.find?_map, Option.map_map]
  simp only [queryParam, Function.comp_def, Bool.decide_and, decide_true, Bool.and_true]
  rfl

theorem handleRequest_of_understood (hm : Word m)
    (h : Understood startServer (methodOf m) url ps r) :
    handleRequest r = asked m url ps := by
  unfold handleRequest asked
  rw [h.handler, attachHandler_startServer, h.method, h.url]
  simp only [methodOf_get_iff hm]
  by_cases hmethod : m ∈ ["POST", "DELETE", "PUT", "PATCH", "HEAD", "OPTIONS"].map bytes
  · rw [if_pos hmethod, if_pos hmethod]
    rfl
  · rw [if_neg hmethod, if_neg hmethod]
    split
    · rfl
    split
    · rfl
    split
    · simp only [Option.map_some, onRequest, paramValue_of_params h.params]
    · rfl

/-- No body changes what the sketch is asked for. -/
theorem handleRequest_of_keeps (h : KeepsHead r r') : handleRequest r' = handleRequest r := by
  have hhandler : r'.handler = r.handler := congrArg (fun o => o.2.2.2.2) h.fixed
  have hvalue : ∀ name, paramValue r' name = paramValue r name := fun name => by
    rw [paramValue_eq_getParam, paramValue_eq_getParam, h.getParam_eq]
  have honRequest : onRequest r' = onRequest r := by
    funext route
    cases route with
    | root => rfl
    | clear => rfl
    | set => rw [onRequest, onRequest, hvalue, hvalue]
  rw [handleRequest, handleRequest, hhandler, honRequest]

variable {t protocol body behind : Bytes} {headers packets : List Bytes} {effects : List Effect}

/-- What the sketch is asked for stands in the request line. -/
theorem handleRequest_of_receive (hm : Word m) (ht : WritesTarget url ps t)
    (hprotocol : Word protocol) (hheaders : ∀ l ∈ headers, Header l)
    (hpackets : packets.flatten <+: requestHead m t protocol headers ++ body)
    (hreceive : startServer.receive packets (new behind) = some (r, effects)) :
    (packets.flatten.length < (requestHead m t protocol headers).length ∧ r.Reading) ∨
      (requestHead m t protocol headers).length ≤ packets.flatten.length ∧
        handleRequest r = asked m url ps := by
  refine (receive_understood hm ht hprotocol hheaders hpackets hreceive).imp id ?_
  rintro ⟨hwhole, r₀, hunderstood, hkeeps⟩
  exact ⟨hwhole, (handleRequest_of_keeps hkeeps).trans (handleRequest_of_understood hm hunderstood)⟩

/-- However a client writes its request, whatever other headers it sends, however TCP cuts the
bytes into packets, however many have come, and whatever stands in a body: once the head has
arrived, the sketch is asked for what the client has asked for. It is asked once, as soon as the
head is read if no body is announced, and otherwise exactly if a packet ends with the last byte of
the body. -/
theorem request_understood (hm : Word m) (ht : WritesTarget url ps t) (hprotocol : Word protocol)
    (hheaders : ∀ l ∈ headers, Header l) {n : ℕ}
    (hannounced : headers.foldl announced (0, false) = (n, false))
    (hpackets : packets.flatten <+: requestHead m t protocol headers ++ body) (behind : Bytes) :
    ∃ r effects, startServer.receive packets (new behind) = some (r, effects) ∧
      ((requestHead m t protocol headers).length ≤ packets.flatten.length →
        handleRequest r = asked m url ps) ∧
      calls effects =
        if (requestHead m t protocol headers).length ≤ packets.flatten.length ∧
            (n = 0 ∨ PacketEnd packets ((requestHead m t protocol headers).length + n)) then 1
        else 0 := by
  obtain ⟨r, effects, hreceive, hcomplete⟩ :=
    receive_complete (S := startServer) hm ht hprotocol hheaders hannounced hpackets behind
  refine ⟨r, effects, hreceive, fun hwhole => ?_, ?_⟩
  · obtain ⟨hmissing, -⟩ | ⟨-, hasked⟩ :=
      handleRequest_of_receive hm ht hprotocol hheaders hpackets hreceive
    · exact absurd hwhole (Nat.not_le.2 hmissing)
    · exact hasked
  · have hopen : (new behind : AsyncWebServerRequest Route).parseState ≠ .reqEnd :=
      fun hend => by cases hend
    rw [handler_called_once hopen hreceive]
    simp only [hcomplete]

theorem word_get : Word (bytes "GET") := ⟨by decide, by decide +kernel⟩

theorem word_http : Word (bytes "HTTP/1.1") := ⟨by decide, by decide +kernel⟩

theorem writes_set :
    WritesTarget (bytes "/set") [(bytes "cnt", bytes "5"), (bytes "hack", bytes "hack")]
      (bytes "/set" ++ 63 :: ((bytes "cnt" ++ 61 :: bytes "5") ++
        38 :: (bytes "hack" ++ 61 :: bytes "%68ack"))) :=
  .query (writes_self (by decide +kernel)) (by decide)
    (.more (.assigned (writes_self (by decide +kernel)) (writes_self (by decide +kernel)))
      (.one (.assigned (writes_self (by decide +kernel))
        (.percent (h := 6) (l := 8) rfl rfl (writes_self (by decide +kernel))))))

/-- A request with an escape, in three packets, the last of which ends with the body. -/
theorem request_understood_set :
    ∃ r effects, startServer.receive
        [bytes "GET /set?cnt=5&ha", bytes "ck=%68ack HTTP/1.1\r\nContent-Length: 2\r\n\r\no",
          bytes "k"] (new []) = some (r, effects) ∧
      handleRequest r = some (.set (some "5") (some "hack")) ∧ calls effects = 1 := by
  have hheaders : ∀ l ∈ [bytes "Content-Length: 2"], Header l :=
    List.forall_mem_singleton.2 ⟨by decide, by decide, by decide, by decide⟩
  have hpackets : [bytes "GET /set?cnt=5&ha",
      bytes "ck=%68ack HTTP/1.1\r\nContent-Length: 2\r\n\r\no", bytes "k"].flatten =
        requestHead (bytes "GET") (bytes "/set" ++ 63 :: ((bytes "cnt" ++ 61 :: bytes "5") ++
          38 :: (bytes "hack" ++ 61 :: bytes "%68ack"))) (bytes "HTTP/1.1")
          [bytes "Content-Length: 2"] ++ bytes "ok" := by decide
  obtain ⟨r, effects, hreceive, hasked, hcalls⟩ :=
    request_understood word_get writes_set word_http hheaders (show _ = (2, false) by decide)
      ⟨[], (List.append_nil _).trans hpackets⟩ []
  exact ⟨r, effects, hreceive, (hasked (by decide)).trans (by decide),
    hcalls.trans (if_pos (by decide))⟩

end Byter
