import Webserv.Client.State

/-!
# Reading the header of a request

The header phase of `Client::appendReadString`: cutting the header block into lines
(`_getHeaderLines`), the request line (`_parseRequestLine`), the header map (`_fillHeaders`) and
what is done with it (`_useHeaders`).
-/

namespace Webserv.Client

open Search Utils

/-- The loop of `_getHeaderLines` and of the CGI header splitting, on what follows `start`. -/
def linesFrom (lineEnd : Bytes) : ℕ → Bytes → List Bytes
  | 0, _ => []
  | fuel + 1, rest =>
    match find lineEnd rest with
    | none => []
    | some i => rest.take i :: linesFrom lineEnd fuel (rest.drop (i + lineEnd.length))

/-- `Client::_getHeaderLines`. Every round moves `start` forward, so there are at most as many
lines as bytes. -/
def getHeaderLines (header : Bytes) : List Bytes := linesFrom crlf (header.length + 1) header

/-- `Client::_getRequestMethodEnumFromString`. -/
def getRequestMethodEnumFromString (requestMethodString : Bytes) : ClientM RequestMethod :=
  if requestMethodString = bytes "GET" then pure .get
  else if requestMethodString = bytes "POST" then pure .post
  else if requestMethodString = bytes "DELETE" then pure .delete
  else raise .methodNotAllowed

/-- `Client::_decodeRequestTarget`. -/
def decodeRequestTarget : ClientM Unit :=
  modify fun c => { c with requestTarget := replaceAll c.requestTarget (bytes "%20") (bytes " ") }

/-- `Client::_isValidProtocol`; the last comparison is the `||` of the source. -/
def isValidProtocol (protocol : Bytes) : Bool :=
  protocol.length = (bytes "HTTP/0.0").length && startsWith protocol (bytes "HTTP/") &&
    (ch '0' ≤ protocol.getD 5 0 && protocol.getD 5 0 ≤ ch '9') && protocol.getD 6 0 = ch '.' &&
    (ch '0' ≤ protocol.getD 7 0 || protocol.getD 7 0 ≤ ch '9')

/-- `Client::_parseRequestLine`. -/
def parseRequestLine (line : Bytes) : ClientM Unit := do
  match find (bytes " ") line with
  | none => raise .badRequest
  | some requestMethodEndPos =>
    let method ← getRequestMethodEnumFromString (line.take requestMethodEndPos)
    modify fun c => { c with requestMethod := method }
    match findLast (ch ' ') line with
    | none => raise .badRequest
    | some pathEndPos =>
      if pathEndPos = requestMethodEndPos then raise .badRequest
      else
        let target := (line.drop (requestMethodEndPos + 1)).take
          (pathEndPos - (requestMethodEndPos + 1))
        modify fun c => { c with requestTarget := target }
        if target.head? ≠ some (ch '/') then raise .badRequest
        else
          decodeRequestTarget
          let protocol := line.drop (pathEndPos + 1)
          modify fun c => { c with protocol := protocol }
          if isValidProtocol protocol then pure () else raise .badRequest

/-- The name of a header, as `_fillHeaders` stores it: upper-cased, with `-` replaced by `_`. -/
def headerKey (name : Bytes) : Bytes :=
  name.map fun b => if toupper b = ch '-' then ch '_' else toupper b

/-- `Client::_fillHeaders`: whether it succeeds, and the map as it leaves it. -/
def fillHeaders : List Bytes → Headers → Bool × Headers
  | [], filledHeaders => (true, filledHeaders)
  | line :: headerLines, filledHeaders =>
    match find (bytes ":") line with
    | none => (false, filledHeaders)
    | some i =>
      if i = 0 then (false, filledHeaders)
      else
        let key := headerKey (line.take i)
        let value := trim (line.drop (i + 1)) (bytes " \t")
        if key ∈ filledHeaders then (false, filledHeaders)
        else fillHeaders headerLines (filledHeaders.emplace key value)

/-- The part of `Client::_useHeaders` about `Transfer-Encoding` and `Content-Length`. -/
def useFraming : ClientM Unit := do
  if (← get).headers.lookup (bytes "TRANSFER_ENCODING") = some (bytes "chunked") then
    modify fun c => { c with isChunked := true }
  match (← get).headers.lookup (bytes "CONTENT_LENGTH") with
  | none => pure ()
  | some value =>
    if (← get).isChunked then raise .badRequest
    let (accepted, number) := parseNumber value (sizeModulus - 1)
    modify fun c => { c with contentLength := number }
    if accepted then pure () else raise .badRequest

/-- The part of `Client::_useHeaders` about `Host`. -/
def useHost : ClientM Unit := do
  match (← get).headers.lookup (bytes "HOST") with
  | none => raise .badRequest
  | some host =>
    match find (bytes ":") host with
    | none =>
      modify fun c => { c with serverName := upper host, unuppercasedServerName := host }
    | some colonIndex =>
      if colonIndex = 0 then raise .badRequest
      else
        let name := host.take colonIndex
        modify fun c => { c with serverName := upper name, unuppercasedServerName := name }

/-- The part of `Client::_useHeaders` about `Content-Type`. -/
def useContentType : ClientM Unit := do
  match (← get).headers.lookup (bytes "CONTENT_TYPE") with
  | none => pure ()
  | some value => modify fun c => { c with contentType := value }

/-- `Client::_useHeaders`. -/
def useHeaders : ClientM Unit := do
  useFraming
  useHost
  useContentType

/-- The header phase of `Client::appendReadString` once the header block is complete: `_header`
holds the block up to and including the line end before the blank line. -/
def readHeaderBlock : ClientM Unit := do
  match getHeaderLines (← get).header with
  | [] => throw .outOfRange
  | requestLine :: headerLines =>
    parseRequestLine requestLine
    let (accepted, headers) := fillHeaders headerLines (← get).headers
    modify fun c => { c with headers := headers }
    if accepted then useHeaders else raise .badRequest

end Webserv.Client
