import Byter.Web.Request

/-!
# The body of a request

A body is a form in parts, a plain form, or data that nothing in this program looks at.
Where a loop of the source does not end there is no result. Upload callbacks are left out, as
no handler has one; what a part holds is kept.
-/

namespace Byter

variable {ρ : Type*}

namespace AsyncWebServerRequest

/-! ## Plain forms -/

def parsePlainPostChar (data : UInt8) (r : AsyncWebServerRequest ρ) : AsyncWebServerRequest ρ :=
  let r := if data ≠ 0 ∧ data ≠ 38 then { r with temp := r.temp ++ [data] } else r
  if data = 0 ∨ data = 38 ∨ r.parsedLength = r.contentLength then
    let (name, value) :=
      if ¬ startsWith r.temp (bytes "\x7b") ∧ ¬ startsWith r.temp (bytes "[") ∧
          0 < (indexOf r.temp 61 0).getD 0 then
        (substring r.temp 0 (indexOf r.temp 61 0),
          substring r.temp ((indexOf r.temp 61 0).elim 0 (· + 1)) none)
      else (bytes "body", r.temp)
    { r with
      params := r.params ++ [⟨urlDecode name, urlDecode value, true, false, 0⟩]
      temp := [] }
  else r

/-! ## Forms in parts -/

def itemWriteByte (b : UInt8) (r : AsyncWebServerRequest ρ) : AsyncWebServerRequest ρ :=
  { r with
    itemSize := r.itemSize + 1
    itemValue := if r.itemIsFile then r.itemValue else r.itemValue ++ [b] }

def itemWriteBytes (bs : Bytes) (r : AsyncWebServerRequest ρ) : AsyncWebServerRequest ρ :=
  bs.foldl (fun r b => itemWriteByte b r) r

/-- `itemWriteByte` for all of the boundary, with a counter of eight bits. -/
def itemWriteBoundary (r : AsyncWebServerRequest ρ) : Option (AsyncWebServerRequest ρ) :=
  if r.boundary.length < 256 then some (itemWriteBytes r.boundary r) else none

/-- The first branch, which is also where the other branches go back to. -/
def waitForReturn1 (data : UInt8) (r : AsyncWebServerRequest ρ) : AsyncWebServerRequest ρ :=
  if data ≠ CR then itemWriteByte data { r with multiParseState := .waitForReturn1 }
  else { r with multiParseState := .expectFeed1 }

def itemNamed (name nameVal : Bytes) (r : AsyncWebServerRequest ρ) : AsyncWebServerRequest ρ :=
  if isLiteral name (bytes "name") then { r with itemName := nameVal }
  else if isLiteral name (bytes "filename") then
    { r with itemFilename := nameVal, itemIsFile := true }
  else r

/-- The loop over the fields of a disposition, and the last one behind it. -/
def dispositionLoop : ℕ → AsyncWebServerRequest ρ → AsyncWebServerRequest ρ
  | 0, r => r
  | fuel + 1, r =>
      let name := substring r.temp 0 (indexOf r.temp 61 0)
      let start := (indexOf r.temp 61 0).elim 1 (· + 2)
      let semicolon := (indexOf r.temp 59 0).getD 0
      if semicolon > 0 then
        let r := itemNamed name (substring r.temp start (some (semicolon - 1))) r
        dispositionLoop fuel { r with temp := substring r.temp (semicolon + 2) none }
      else
        itemNamed name
          (substring r.temp start (if r.temp.length = 0 then none else some (r.temp.length - 1))) r

/-- A line of the head of a part. -/
def parsePartHeader (r : AsyncWebServerRequest ρ) : AsyncWebServerRequest ρ :=
  let r :=
    if r.temp.length > 12 ∧
        equalsIgnoreCase (substring r.temp 0 (some 12)) (bytes "Content-Type") then
      { r with itemIsFile := true }
    else if r.temp.length > 19 ∧
        equalsIgnoreCase (substring r.temp 0 (some 19)) (bytes "Content-Disposition") then
      let r := { r with temp := substring r.temp ((indexOf r.temp 59 0).elim 1 (· + 2)) none }
      dispositionLoop (r.temp.length + 1) r
    else r
  { r with temp := [] }

/-- The part is complete. -/
def addItem (r : AsyncWebServerRequest ρ) : AsyncWebServerRequest ρ :=
  if ¬ r.itemIsFile then
    { r with params := r.params ++ [⟨r.itemName, r.itemValue, true, false, 0⟩] }
  else if r.itemSize ≠ 0 then
    { r with params := r.params ++ [⟨r.itemName, r.itemFilename, true, true, r.itemSize⟩] }
  else r

def parseMultipartPostByte (data : UInt8) (r : AsyncWebServerRequest ρ) :
    Option (AsyncWebServerRequest ρ) :=
  let r := if r.parsedLength = 0 then
      { r with multiParseState := .expectBoundary, temp := [], itemName := [], itemFilename := [] }
    else r
  match r.multiParseState with
  | .waitForReturn1 => some (waitForReturn1 data r)
  | .expectBoundary =>
      if r.parsedLength < 2 ∧ data ≠ 45 then
        some { r with multiParseState := .parseError }
      else if 2 ≤ r.parsedLength ∧ r.parsedLength - 2 < r.boundary.length ∧
          r.boundary.getD (r.parsedLength - 2) 0 ≠ data then
        some { r with multiParseState := .parseError }
      else if 2 ≤ r.parsedLength ∧ r.parsedLength - 2 = r.boundary.length ∧ data ≠ CR then
        some { r with multiParseState := .parseError }
      else if 3 ≤ r.parsedLength ∧ r.parsedLength - 3 = r.boundary.length then
        if data ≠ LF then some { r with multiParseState := .parseError }
        else some { r with multiParseState := .parseHeaders, itemIsFile := false }
      else some r
  | .parseHeaders =>
      let r := if data ≠ CR ∧ data ≠ LF then { r with temp := r.temp ++ [data] } else r
      if data = LF then
        if r.temp.length ≠ 0 then some (parsePartHeader r)
        else some { r with multiParseState := .waitForReturn1, itemSize := 0, itemValue := [] }
      else some r
  | .expectFeed1 =>
      if data ≠ LF then some (waitForReturn1 data (itemWriteByte CR r))
      else some { r with multiParseState := .expectDash1 }
  | .expectDash1 =>
      if data ≠ 45 then some (waitForReturn1 data (itemWriteBytes [CR, LF] r))
      else some { r with multiParseState := .expectDash2 }
  | .expectDash2 =>
      if data ≠ 45 then some (waitForReturn1 data (itemWriteBytes [CR, LF, 45] r))
      else some { r with multiParseState := .boundaryOrData, boundaryPosition := 0 }
  | .boundaryOrData =>
      if r.boundaryPosition < r.boundary.length ∧ r.boundary.getD r.boundaryPosition 0 ≠ data then
        some (waitForReturn1 data
          (itemWriteBytes ([CR, LF, 45, 45] ++ r.boundary.take r.boundaryPosition) r))
      else if r.boundaryPosition + 1 = r.boundary.length then
        some { addItem r with multiParseState := .dash3OrReturn2 }
      else some { r with boundaryPosition := (r.boundaryPosition + 1) % 256 }
  | .dash3OrReturn2 =>
      let r := if data = 45 ∧ r.contentLength ≠ r.parsedLength + 4 then
          { r with contentLength := r.parsedLength + 4 } else r
      if data = CR then some { r with multiParseState := .expectFeed2 }
      else if data = 45 ∧ r.contentLength = r.parsedLength + 4 then
        some { r with multiParseState := .parsingFinished }
      else (itemWriteBoundary (itemWriteBytes [CR, LF, 45, 45] r)).map (waitForReturn1 data)
  | .expectFeed2 =>
      if data = LF then some { r with multiParseState := .parseHeaders, itemIsFile := false }
      else (itemWriteBoundary (itemWriteBytes [CR, LF, 45, 45] r)).map fun r =>
        waitForReturn1 data (itemWriteByte CR r)
  | .parsingFinished => some r
  | .parseError => some r

/-! ## A piece of the body -/

/-- `isRequestHandlerTrivial` of the handler. -/
def needParse (r : AsyncWebServerRequest ρ) : Bool :=
  r.handler.any fun h => h.onRequest.isSome

/-- `__is_param_char(c)` -/
def isParamChar (c : UInt8) : Bool := c ≠ 0 ∧ c ≠ 123 ∧ c ≠ 91 ∧ c ≠ 38 ∧ c ≠ 61

/-- `__is_param_char(((char*)buf)[i++])`, with the `i` that it leaves: the macro evaluates its
argument once for every comparison that it makes, each time on the next byte. -/
def isParamCharNext (buf : ℕ → UInt8) (i : ℕ) : Bool × ℕ :=
  if buf i = 0 then (false, i + 1)
  else if buf (i + 1) = 123 then (false, i + 2)
  else if buf (i + 2) = 91 then (false, i + 3)
  else if buf (i + 3) = 38 then (false, i + 4)
  else (buf (i + 4) ≠ 61, i + 5)

/-- The loop over the first piece of a text, with `i` where it ends. -/
def paramCharLoop (buf : ℕ → UInt8) (len : ℕ) : ℕ → ℕ → ℕ
  | 0, i => i
  | fuel + 1, i =>
      if i < len then
        let (more, i) := isParamCharNext buf i
        if more then paramCharLoop buf len fuel i else i
      else i

/-- Whether the first piece of a text is taken for a form. The loop may read behind the piece, and
what it finds there counts. -/
def looksLikeForm (buf behind : Bytes) : Bool :=
  let mem := fun i => (buf ++ behind).getD i 0
  let i := paramCharLoop mem buf.length buf.length 0
  isParamChar (mem 0) && decide (i < buf.length) && mem (i - 1) == 61

def sniff (buf : Bytes) (r : AsyncWebServerRequest ρ) : AsyncWebServerRequest ρ :=
  if r.parsedLength = 0 then
    if startsWith r.contentType (bytes "application/x-www-form-urlencoded") then
      { r with isPlainPost := true }
    else if isLiteral r.contentType (bytes "text/plain") ∧ looksLikeForm buf r.behind then
      { r with isPlainPost := true }
    else r
  else r

/-- The bytes of a piece; the callback for bodies is left out, as no handler has one. -/
def bodyBytes (buf : Bytes) (r : AsyncWebServerRequest ρ) : Option (AsyncWebServerRequest ρ) :=
  if r.isMultipart then
    if r.needParse then
      buf.foldlM (fun r b =>
        (parseMultipartPostByte b r).map fun r => { r with parsedLength := r.parsedLength + 1 }) r
    else some { r with parsedLength := r.parsedLength + buf.length }
  else
    let r := sniff buf r
    if ¬ r.isPlainPost then some { r with parsedLength := r.parsedLength + buf.length }
    else if r.needParse then
      some (buf.foldl (fun r b =>
        parsePlainPostChar b { r with parsedLength := r.parsedLength + 1 }) r)
    else some { r with parsedLength := r.parsedLength + buf.length }

def bodyData (buf : Bytes) (r : AsyncWebServerRequest ρ) :
    Option (AsyncWebServerRequest ρ × List Effect) :=
  (bodyBytes buf r).map fun r =>
    if r.parsedLength = r.contentLength then ({ r with parseState := .reqEnd }, [.handleRequest])
    else (r, [])

end AsyncWebServerRequest

/-! ## A packet -/

/-- The loop of `_onData`: a line is taken off the packet at each round, until the rest holds
none or belongs to the body. -/
def AsyncWebServer.onDataLoop (S : AsyncWebServer ρ) :
    ℕ → Bytes → AsyncWebServerRequest ρ → Option (AsyncWebServerRequest ρ × List Effect)
  | 0, _, r => some (r, [])
  | fuel + 1, buf, r =>
      match r.parseState with
      | .reqStart | .reqHeaders =>
          let line := buf.takeWhile (· ≠ LF)
          if line.length = buf.length then
            some ({ r with temp := r.temp ++ cstr line.dropLast ++ line.getLast?.toList }, [])
          else
            let (r, effects) := S.parseLine { r with temp := trim (r.temp ++ cstr line) }
            let rest := buf.drop (line.length + 1)
            if rest.length ≠ 0 then
              (S.onDataLoop fuel rest r).map fun next => (next.1, effects ++ next.2)
            else some (r, effects)
      | .reqBody => r.bodyData buf
      | .reqEnd => some (r, [])
      | .reqFail => some (r, [])

/-- `_onData`. -/
def AsyncWebServer.onData (S : AsyncWebServer ρ) (buf : Bytes) (r : AsyncWebServerRequest ρ) :
    Option (AsyncWebServerRequest ρ × List Effect) :=
  S.onDataLoop (buf.length + 1) buf r

end Byter
