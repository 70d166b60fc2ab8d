import Syscore.Proxy.SockReader

/-!
# The HTTP message model

`HTTPHeader`, `HTTPRequest` and `HTTPResponse` of the proxy: reading a message from a socket and
writing it out again.
-/

namespace Syscore
namespace Proxy

/-- `HTTPHeader`: the fields in order. -/
structure HTTPHeader where
  headers : List (Text × Text)
  deriving DecidableEq

namespace HTTPHeader

/-- `lower`. -/
def lower (s : Text) : Text := s.map tolower

/-- `add`. -/
def add (header : HTTPHeader) (name value : Text) : HTTPHeader :=
  ⟨header.headers ++ [(name, value)]⟩

/-- `remove`. -/
def remove (header : HTTPHeader) (name : Text) : HTTPHeader :=
  ⟨header.headers.filter fun h => lower h.1 ≠ lower name⟩

/-- `has`. -/
def has (header : HTTPHeader) (name : Text) : Bool :=
  header.headers.any fun h => lower h.1 = lower name

/-- `get`: the first value, or the empty string. -/
def get (header : HTTPHeader) (name : Text) : Text :=
  match header.headers.find? fun h => lower h.1 = lower name with
  | some h => h.2
  | none => []

/-- `serialize`. -/
def serialize (header : HTTPHeader) : Text :=
  header.headers.flatMap fun h => h.1 ++ ascii ": " ++ h.2 ++ [13, newline]

/-- The colon. -/
def colon : UInt8 := 58

/-- One line of the header block: a line without a colon is passed over. -/
def parseLine (header : HTTPHeader) (line : Text) : HTTPHeader :=
  if colon ∈ line then
    let name := line.takeWhile (· ≠ colon)
    let value := (line.dropWhile (· ≠ colon)).drop 1
    header.add name (value.dropWhile fun char => char = 32 || char = 9)
  else
    header

/-- `parse`: lines are read until the blank line or the end of the stream. -/
def parse (header : HTTPHeader) (reader : SockReader) : HTTPHeader × SockReader :=
  match _read : reader.readLine with
  | none => (header, reader)
  | some (line, rest) =>
      if line = [] then (header, rest) else parse (header.parseLine line) rest
termination_by reader.contents.length
decreasing_by exact SockReader.readLine_shorter _read

end HTTPHeader

/-- `RequestTarget`. -/
structure RequestTarget where
  host : Text
  port : ℕ
  path : Text
  deriving DecidableEq

/-- `HTTPRequest`. -/
structure HTTPRequest where
  method : Text
  url : Text
  protocol : Text
  target : RequestTarget
  headers : HTTPHeader
  body : Text
  deriving DecidableEq

/-- A request before it is parsed. -/
def HTTPRequest.initial : HTTPRequest where
  method := []
  url := []
  protocol := ascii "HTTP/1.0"
  target := { host := [], port := 80, path := ascii "/" }
  headers := ⟨[]⟩
  body := []

/-- A host with an optional port behind a colon. -/
def splitHost (authority : Text) : Text × ℕ :=
  if HTTPHeader.colon ∈ authority then
    (authority.takeWhile (· ≠ HTTPHeader.colon),
      (atoi ((authority.dropWhile (· ≠ HTTPHeader.colon)).drop 1) % 2 ^ 16).toNat)
  else
    (authority, 80)

/-- The slash. -/
def slash : UInt8 := 47

/-- `parseURL` behind the scheme. -/
def parseAuthority (rest : Text) : RequestTarget :=
  let (host, port) := splitHost (rest.takeWhile (· ≠ slash))
  let path := if slash ∈ rest then rest.dropWhile (· ≠ slash) else [slash]
  { host, port, path }

/-- `parseURL`. -/
def parseURL (url : Text) (t : RequestTarget) : RequestTarget :=
  match find (ascii "://") url with
  | some scheme => parseAuthority (url.drop (scheme + 3))
  | none =>
      if ascii "//" <+: url then
        parseAuthority (url.drop 2)
      else
        { t with path := if url = [] then [slash] else url }

/-- The value of `Content-Length`. -/
def HTTPHeader.contentLength (headers : HTTPHeader) : ℕ :=
  strtoul (headers.get (ascii "Content-Length"))

/-- The request line of `parse`: whether its three tokens are there, and the request. -/
def HTTPRequest.parseRequestLine (req : HTTPRequest) (line : Text) : Bool × HTTPRequest :=
  let iss := IStream.ofText line
  let (method, iss) := iss.extractString req.method
  let (url, iss) := iss.extractString req.url
  let (protocol, iss) := iss.extractString req.protocol
  (!iss.fail, { req with method, url, protocol })

/-- What `parse` does after the request line: target, header fields, host and body. -/
def HTTPRequest.parseRest (req : HTTPRequest) (reader : SockReader) : HTTPRequest × SockReader :=
  let target := parseURL req.url req.target
  let (headers, reader) := req.headers.parse reader
  let target :=
    if target.host = [] ∧ headers.has (ascii "Host") then
      let (host, port) := splitHost (headers.get (ascii "Host"))
      { target with host, port }
    else
      target
  let (body, reader) :=
    if headers.has (ascii "Content-Length") then
      reader.readExactly headers.contentLength
    else
      ([], reader)
  ({ req with target, headers, body := req.body ++ body }, reader)

/-- `HTTPRequest::parse`: what it returns, with the request and the reader as it leaves them. -/
def HTTPRequest.parseInto (req : HTTPRequest) (reader : SockReader) :
    (Bool × HTTPRequest) × SockReader :=
  match reader.readLine with
  | none => ((false, req), reader)
  | some (line, reader) =>
      if line = [] then
        ((false, req), reader)
      else
        match req.parseRequestLine line with
        | (false, req) => ((false, req), reader)
        | (true, req) => ((true, (req.parseRest reader).1), (req.parseRest reader).2)

/-- `HTTPRequest::parse` on a fresh request: `none` where it returns false. -/
def HTTPRequest.parse (reader : SockReader) : Option (HTTPRequest × SockReader) :=
  match HTTPRequest.initial.parseInto reader with
  | ((true, req), reader) => some (req, reader)
  | ((false, _), _) => none

theorem HTTPRequest.parse_eq_some_iff {reader rest : SockReader} {req : HTTPRequest} :
    HTTPRequest.parse reader = some (req, rest) ↔
      HTTPRequest.initial.parseInto reader = ((true, req), rest) := by
  rw [HTTPRequest.parse]
  split
  · rename_i parsed
    rw [parsed]
    simp
  · rename_i failed
    rw [failed]
    simp

/-- `HTTPRequest::serialize`. -/
def HTTPRequest.serialize (req : HTTPRequest) : Text :=
  req.method ++ [32] ++ req.target.path ++ [32] ++ req.protocol ++ [13, newline] ++
    req.headers.serialize ++ [13, newline] ++ req.body

/-- `HTTPResponse`. -/
structure HTTPResponse where
  protocol : Text
  code : ℤ
  reason : Text
  headers : HTTPHeader
  body : Text
  deriving DecidableEq

namespace HTTPResponse

/-- A response before anything is ingested. -/
def initial : HTTPResponse where
  protocol := ascii "HTTP/1.0"
  code := 0
  reason := []
  headers := ⟨[]⟩
  body := []

/-- The status line of `ingestFrom`. -/
def ingestStatus (resp : HTTPResponse) (line : Text) : HTTPResponse :=
  let iss := IStream.ofText line
  let (protocol, iss) := iss.extractString resp.protocol
  let (code, iss) := iss.extractInt resp.code
  let (reason, _) := iss.getline resp.reason
  let reason := if reason.head? = some 32 then reason.drop 1 else reason
  { resp with protocol, code, reason }

/-- The first line of `ingestFrom`; at the end of the stream the defaults stay. -/
def ingestFirst (resp : HTTPResponse) (reader : SockReader) : HTTPResponse × SockReader :=
  match reader.readLine with
  | some (line, rest) => (resp.ingestStatus line, rest)
  | none => (resp, reader)

/-- The header fields and the body of `ingestFrom`. -/
def ingestRest (resp : HTTPResponse) (reader : SockReader) : HTTPResponse × SockReader :=
  let (headers, reader) := resp.headers.parse reader
  let (body, reader) :=
    if headers.has (ascii "Content-Length") then
      reader.readExactly headers.contentLength
    else
      reader.readUntilEOF
  ({ resp with headers, body := resp.body ++ body }, reader)

/-- `ingestFrom`. -/
def ingestFrom (resp : HTTPResponse) (reader : SockReader) : HTTPResponse × SockReader :=
  let (resp, reader) := resp.ingestFirst reader
  resp.ingestRest reader

/-- `setStatus`. -/
def setStatus (resp : HTTPResponse) (code : ℤ) (reason : Text) : HTTPResponse :=
  { resp with code, reason }

/-- `setBody`. -/
def setBody (resp : HTTPResponse) (b : Text) : HTTPResponse :=
  let headers := resp.headers.remove (ascii "Content-Length")
  { resp with body := b, headers := headers.add (ascii "Content-Length") (decimal b.length) }

/-- `serialize`. -/
def serialize (resp : HTTPResponse) : Text :=
  resp.protocol ++ [32] ++ decimalInt resp.code ++ [32] ++ resp.reason ++ [13, newline] ++
    resp.headers.serialize ++ [13, newline] ++ resp.body

end HTTPResponse

end Proxy
end Syscore
