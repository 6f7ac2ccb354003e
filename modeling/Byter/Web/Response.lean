import Byter.Lines.Basic
import Byter.Web.Strings

/-!
# The response of the web server

`AsyncBasicResponse` sends a head and a content through an `AsyncClient`. TCP takes as much
at a time as there is room for in its send buffer: `_respond` sends what it can, and
every later call of `_ack`, for an acknowledgement or when the connection is polled, sends
more of what has been kept.
-/

namespace Byter

/-! ## The connection -/

/-- What `tcp_write` and `tcp_output` do with the bytes of a call of `write`. -/
inductive Tcp
  | accepts
  /-- `tcp_write` returns an error. -/
  | refuses
  /-- `tcp_write` takes the bytes, and `tcp_output` returns an error. -/
  | holds
deriving DecidableEq, Repr

/-- The room in the send buffer and the bytes that TCP has taken. `refused` counts the
bytes for which `tcp_write` has returned an error; the code does not keep it. -/
structure AsyncClient where
  room : ℕ
  sent : Bytes
  refused : ℕ
deriving DecidableEq, Repr

namespace AsyncClient

def space (c : AsyncClient) : ℕ := c.room

/-- What `write` returns is the number of bytes that it has sent. -/
def write (tcp : Tcp) (data : Bytes) (c : AsyncClient) : AsyncClient × ℕ :=
  let willSend := if c.room < data.length then c.room else data.length
  match tcp with
  | .accepts =>
      ({ c with room := c.room - willSend, sent := c.sent ++ data.take willSend }, willSend)
  | .refuses => ({ c with refused := c.refused + willSend }, 0)
  | .holds => ({ c with room := c.room - willSend, sent := c.sent ++ data.take willSend }, 0)

end AsyncClient

/-! ## The response -/

def responseCodeToString (code : ℕ) : String :=
  match code with
  | 100 => "Continue"
  | 101 => "Switching Protocols"
  | 200 => "OK"
  | 201 => "Created"
  | 202 => "Accepted"
  | 203 => "Non-Authoritative Information"
  | 204 => "No Content"
  | 205 => "Reset Content"
  | 206 => "Partial Content"
  | 300 => "Multiple Choices"
  | 301 => "Moved Permanently"
  | 302 => "Found"
  | 303 => "See Other"
  | 304 => "Not Modified"
  | 305 => "Use Proxy"
  | 307 => "Temporary Redirect"
  | 400 => "Bad Request"
  | 401 => "Unauthorized"
  | 402 => "Payment Required"
  | 403 => "Forbidden"
  | 404 => "Not Found"
  | 405 => "Method Not Allowed"
  | 406 => "Not Acceptable"
  | 407 => "Proxy Authentication Required"
  | 408 => "Request Time-out"
  | 409 => "Conflict"
  | 410 => "Gone"
  | 411 => "Length Required"
  | 412 => "Precondition Failed"
  | 413 => "Request Entity Too Large"
  | 414 => "Request-URI Too Large"
  | 415 => "Unsupported Media Type"
  | 416 => "Requested range not satisfiable"
  | 417 => "Expectation Failed"
  | 500 => "Internal Server Error"
  | 501 => "Not Implemented"
  | 502 => "Bad Gateway"
  | 503 => "Service Unavailable"
  | 504 => "Gateway Time-out"
  | 505 => "HTTP Version not supported"
  | _ => ""

inductive ResponseState
  | setup
  | headers
  | content
  | waitAck
  | finished
deriving DecidableEq, Repr

structure AsyncBasicResponse where
  code : ℕ
  headers : List (Bytes × Bytes)
  contentType : Bytes
  contentLength : ℕ
  content : Bytes
  sentLength : ℕ
  ackedLength : ℕ
  writtenLength : ℕ
  state : ResponseState
deriving DecidableEq, Repr

namespace AsyncBasicResponse

/-- The constructor. -/
def new (code : ℕ) (contentType content : Bytes) : AsyncBasicResponse where
  code := code
  headers := [(bytes "Connection", bytes "close")]
  contentType :=
    if content.length ≠ 0 ∧ contentType.length = 0 then bytes "text/plain" else contentType
  contentLength := content.length
  content := content
  sentLength := 0
  ackedLength := 0
  writtenLength := 0
  state := .setup

/-- `snprintf` into a buffer of 300 characters. -/
def snprintf (s : Bytes) : Bytes := s.take 299

/-- `%d` of a `size_t` -/
def decimal (n : ℕ) : Bytes := bytes (toString (Int.bmod n 4294967296))

def crlf : Bytes := [CR, LF]

/-- The head; `version` is the digit behind `HTTP/1.`. -/
def assembleHead (version : ℕ) (r : AsyncBasicResponse) : Bytes :=
  let headers := if version ≠ 0 then r.headers ++ [(bytes "Accept-Ranges", bytes "none")]
    else r.headers
  snprintf (bytes "HTTP/1." ++ bytes (toString version) ++ bytes " " ++ bytes (toString r.code) ++
      bytes " " ++ bytes (responseCodeToString r.code) ++ crlf) ++
    snprintf (bytes "Content-Length: " ++ decimal r.contentLength ++ crlf) ++
    (if r.contentType.length ≠ 0 then snprintf (bytes "Content-Type: " ++ r.contentType ++ crlf)
      else []) ++
    headers.flatMap (fun h => snprintf (h.1 ++ bytes ": " ++ h.2 ++ crlf)) ++ crlf

def respond (version : ℕ) (tcp : Tcp) (r : AsyncBasicResponse) (c : AsyncClient) :
    AsyncBasicResponse × AsyncClient :=
  let out := r.assembleHead version
  let outLen := out.length
  let space := c.space
  if r.contentLength = 0 ∧ space ≥ outLen then
    let (c, written) := c.write tcp out
    ({ r with writtenLength := r.writtenLength + written, state := .waitAck }, c)
  else if r.contentLength ≠ 0 ∧ space ≥ outLen + r.contentLength then
    let (c, written) := c.write tcp (out ++ r.content)
    ({ r with writtenLength := r.writtenLength + written, state := .waitAck }, c)
  else if space ≠ 0 ∧ space < outLen then
    let (c, written) := c.write tcp (out.take space)
    ({ r with
      content := out.drop space ++ r.content
      contentLength := r.contentLength + (outLen - space)
      writtenLength := r.writtenLength + written
      state := .content }, c)
  else if space > outLen ∧ space < outLen + r.contentLength then
    let shift := space - outLen
    let (c, written) := c.write tcp (out ++ r.content.take shift)
    ({ r with
      content := r.content.drop shift
      sentLength := r.sentLength + shift
      writtenLength := r.writtenLength + written
      state := .content }, c)
  else
    ({ r with
      content := out ++ r.content
      contentLength := r.contentLength + outLen
      state := .content }, c)

def ack (len : ℕ) (tcp : Tcp) (r : AsyncBasicResponse) (c : AsyncClient) :
    AsyncBasicResponse × AsyncClient :=
  let r := { r with ackedLength := r.ackedLength + len }
  match r.state with
  | .content =>
      let available := r.contentLength - r.sentLength
      let space := c.space
      if space > available then
        let (c, written) := c.write tcp (r.content.take available)
        ({ r with
          content := []
          writtenLength := r.writtenLength + written
          state := .waitAck }, c)
      else
        let (c, written) := c.write tcp (r.content.take space)
        ({ r with
          content := r.content.drop space
          sentLength := r.sentLength + space
          writtenLength := r.writtenLength + written }, c)
  | .waitAck => (if r.ackedLength ≥ r.writtenLength then { r with state := .finished } else r, c)
  | _ => (r, c)

end AsyncBasicResponse

end Byter
