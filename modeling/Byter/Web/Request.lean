import Mathlib.Algebra.Order.Ring.Nat
import Byter.Web.Strings

/-!
# The head of a request

`AsyncWebServerRequest` takes a request line by line. The line `_temp` grows until a line
feed comes; it is then a request line, a header, or the empty line behind which a handler is
chosen. Requests, handlers and servers are those of the source for a type of callbacks:
what a callback does is said elsewhere.
-/

namespace Byter

def HTTP_GET : UInt8 := 0b00000001

def HTTP_POST : UInt8 := 0b00000010

def HTTP_DELETE : UInt8 := 0b00000100

def HTTP_PUT : UInt8 := 0b00001000

def HTTP_PATCH : UInt8 := 0b00010000

def HTTP_HEAD : UInt8 := 0b00100000

def HTTP_OPTIONS : UInt8 := 0b01000000

def HTTP_ANY : UInt8 := 0b01111111

inductive ParseState
  | reqStart
  | reqHeaders
  | reqBody
  | reqEnd
  | reqFail
deriving DecidableEq, Repr

inductive MultiParseState
  | expectBoundary
  | parseHeaders
  | waitForReturn1
  | expectFeed1
  | expectDash1
  | expectDash2
  | boundaryOrData
  | dash3OrReturn2
  | expectFeed2
  | parsingFinished
  | parseError
deriving DecidableEq, Repr

structure AsyncWebParameter where
  name : Bytes
  value : Bytes
  isForm : Bool
  isFile : Bool
  size : ℕ
deriving DecidableEq, Repr

/-- A handler with its callback, if it has one. -/
structure AsyncCallbackWebHandler (ρ : Type*) where
  uri : Bytes
  method : UInt8
  onRequest : Option ρ
deriving DecidableEq, Repr

/-- `behind` is no field of the source: it holds what lies in memory behind the packet with the
first byte of the body, of which the parser reads up to four bytes. -/
structure AsyncWebServerRequest (ρ : Type*) where
  temp : Bytes
  parseState : ParseState
  version : ℕ
  method : UInt8
  url : Bytes
  contentType : Bytes
  boundary : Bytes
  isMultipart : Bool
  isPlainPost : Bool
  expectingContinue : Bool
  contentLength : ℕ
  parsedLength : ℕ
  params : List AsyncWebParameter
  handler : Option (AsyncCallbackWebHandler ρ)
  multiParseState : MultiParseState
  boundaryPosition : ℕ
  itemSize : ℕ
  itemName : Bytes
  itemFilename : Bytes
  itemValue : Bytes
  itemIsFile : Bool
  behind : Bytes
deriving DecidableEq, Repr

structure AsyncWebServer (ρ : Type*) where
  handlers : List (AsyncCallbackWebHandler ρ)
  catchAllHandler : AsyncCallbackWebHandler ρ

/-- What a request does beyond its own fields. -/
inductive Effect
  /-- `_client->close()` -/
  | close
  /-- the bytes of `100 Continue` are written -/
  | writeContinue
  /-- the handler is called, or `501` is sent for want of one -/
  | handleRequest
deriving DecidableEq, Repr

variable {ρ : Type*}

namespace AsyncWebServerRequest

/-- The constructor. -/
def new (behind : Bytes) : AsyncWebServerRequest ρ where
  temp := []
  parseState := .reqStart
  version := 0
  method := HTTP_ANY
  url := []
  contentType := []
  boundary := []
  isMultipart := false
  isPlainPost := false
  expectingContinue := false
  contentLength := 0
  parsedLength := 0
  params := []
  handler := none
  multiParseState := .expectBoundary
  boundaryPosition := 0
  itemSize := 0
  itemName := []
  itemFilename := []
  itemValue := []
  itemIsFile := false
  behind := behind

end AsyncWebServerRequest

/-! ## Queries -/

def urlDecode : Bytes → Bytes
  | [] => []
  | 37 :: c :: d :: text => strtol c d :: urlDecode text
  | 43 :: text => 32 :: urlDecode text
  | c :: text => c :: urlDecode text

/-- The loop of `_addGetParams` from `start` on. -/
def getParamsLoop (params : Bytes) : ℕ → ℕ → List AsyncWebParameter
  | 0, _ => []
  | fuel + 1, start =>
      if start < params.length then
        let stop := (indexOf params 38 start).getD params.length
        let equal := match indexOf params 61 start with
          | none => stop
          | some equal => if equal > stop then stop else equal
        let name := substring params start (some equal)
        let value := if equal + 1 < stop then substring params (equal + 1) (some stop) else []
        ⟨urlDecode name, urlDecode value, false, false, 0⟩ :: getParamsLoop params fuel (stop + 1)
      else
        []

/-- The parameters that `_addGetParams` adds. The start moves on at each round. -/
def getParams (params : Bytes) : List AsyncWebParameter :=
  getParamsLoop params params.length 0

namespace AsyncWebServerRequest

variable (r : AsyncWebServerRequest ρ)

def addGetParams (params : Bytes) : AsyncWebServerRequest ρ :=
  { r with params := r.params ++ getParams params }

def hasParam (name : Bytes) (post file : Bool) : Bool :=
  r.params.any fun p => p.name = name ∧ p.isForm = post ∧ p.isFile = file

def getParam (name : Bytes) (post file : Bool) : Option AsyncWebParameter :=
  r.params.find? fun p => p.name = name ∧ p.isForm = post ∧ p.isFile = file

/-! ## Lines -/

/-- The method keeps its default where it is not one of these. -/
def methodOf (m : Bytes) : UInt8 :=
  if isLiteral m (bytes "GET") then HTTP_GET
  else if isLiteral m (bytes "POST") then HTTP_POST
  else if isLiteral m (bytes "DELETE") then HTTP_DELETE
  else if isLiteral m (bytes "PUT") then HTTP_PUT
  else if isLiteral m (bytes "PATCH") then HTTP_PATCH
  else if isLiteral m (bytes "HEAD") then HTTP_HEAD
  else if isLiteral m (bytes "OPTIONS") then HTTP_OPTIONS
  else HTTP_ANY

def parseReqHead : AsyncWebServerRequest ρ :=
  let index := indexOf r.temp 32 0
  let m := substring r.temp 0 index
  let index := indexOf r.temp 32 (index.elim 0 (· + 1))
  let u := substring r.temp (m.length + 1) index
  let temp := substring r.temp (index.elim 0 (· + 1)) none
  let (u, g) := match indexOf u 63 0 with
    | none => (u, [])
    | some index =>
        if index > 0 then (substring u 0 (some index), substring u (index + 1) none) else (u, [])
  let r := { r with method := methodOf m, url := urlDecode u }
  let r := r.addGetParams g
  { r with
    version := if startsWith temp (bytes "HTTP/1.0") then r.version else 1
    temp := [] }

/-- Of the headers, those that the parser itself reads. A missing colon is `-1`. -/
def parseReqHeader : AsyncWebServerRequest ρ :=
  let index := indexOf r.temp 58 0
  let r :=
    if index = some 0 then r
    else
      let name := substring r.temp 0 index
      let value := substring r.temp (index.elim 1 (· + 2)) none
      if equalsIgnoreCase name (bytes "Content-Type") then
        let r := { r with contentType := substring value 0 (indexOf value 59 0) }
        if startsWith value (bytes "multipart/") then
          { r with
            boundary :=
              (substring value ((indexOf value 61 0).elim 0 (· + 1)) none).filter (· ≠ 34)
            isMultipart := true }
        else r
      else if equalsIgnoreCase name (bytes "Content-Length") then
        { r with contentLength := atoi value }
      else if equalsIgnoreCase name (bytes "Expect") ∧ isLiteral value (bytes "100-continue") then
        { r with expectingContinue := true }
      else r
  { r with temp := [] }

end AsyncWebServerRequest

/-! ## Handlers -/

def lastIndexOf (s : Bytes) (c : UInt8) : Option ℕ :=
  (s.reverse.idxOf? c).map (s.length - 1 - ·)

/-- Regular expressions are not compiled in. -/
def AsyncCallbackWebHandler.canHandle (h : AsyncCallbackWebHandler ρ)
    (r : AsyncWebServerRequest ρ) : Bool :=
  if h.onRequest.isNone then false
  else if h.method &&& r.method = 0 then false
  else if h.uri.length ≠ 0 ∧ startsWith h.uri (bytes "/*.") then
    endsWith r.url (substring h.uri ((lastIndexOf h.uri 46).getD 0) none)
  else if h.uri.length ≠ 0 ∧ endsWith h.uri (bytes "*") then
    startsWith r.url (substring h.uri 0 (some (h.uri.length - 1)))
  else if h.uri.length ≠ 0 ∧ h.uri ≠ r.url ∧ ¬ startsWith r.url (h.uri ++ bytes "/") then false
  else true

/-- No handler has a filter, and nothing is rewritten. -/
def AsyncWebServer.attachHandler (S : AsyncWebServer ρ) (r : AsyncWebServerRequest ρ) :
    AsyncWebServerRequest ρ :=
  match S.handlers.find? fun h => h.canHandle r with
  | some h => { r with handler := some h }
  | none => { r with handler := some S.catchAllHandler }

def AsyncWebServer.parseLine (S : AsyncWebServer ρ) (r : AsyncWebServerRequest ρ) :
    AsyncWebServerRequest ρ × List Effect :=
  match r.parseState with
  | .reqStart =>
      if r.temp.length = 0 then ({ r with parseState := .reqFail }, [.close])
      else ({ r.parseReqHead with parseState := .reqHeaders }, [])
  | .reqHeaders =>
      if r.temp.length = 0 then
        let r := S.attachHandler r
        let continue100 := if r.expectingContinue then [Effect.writeContinue] else []
        if r.contentLength ≠ 0 then ({ r with parseState := .reqBody }, continue100)
        else ({ r with parseState := .reqEnd }, continue100 ++ [.handleRequest])
      else (r.parseReqHeader, [])
  | _ => (r, [])

end Byter
