import Webserv.Client.Header

/-!
# Reading the body of a request

`Client::_parseBodyAppend` with its loop over the chunks of a chunked body, `_hexToNum`, and
`Client::appendReadString`, which takes one read of the connection through the header and body
phases.
-/

namespace Webserv.Client

open Search Utils

/-- The value of a hexadecimal digit, with the three ranges of `_hexToNum`. -/
def hexDigit (b : UInt8) : Option ℕ :=
  if ch '0' ≤ b ∧ b ≤ ch '9' then some (b.toNat - (ch '0').toNat)
  else if ch 'A' ≤ b ∧ b ≤ ch 'F' then some (b.toNat - (ch 'A').toNat + 10)
  else if ch 'a' ≤ b ∧ b ≤ ch 'f' then some (b.toNat - (ch 'a').toNat + 10)
  else none

/-- The `while` loop of `_hexToNum`: what is left of the line, and the number, a `size_t`. -/
def hexLoop : Bytes → ℕ → Bytes × ℕ
  | [], num => ([], num)
  | b :: line, num =>
    match hexDigit b with
    | some d => hexLoop line ((num * 16 % sizeModulus + d) % sizeModulus)
    | none => (b :: line, num)

/-- `Client::_hexToNum`: what is left of the line and the increased number, or `none` if the line
does not start with a hexadecimal digit, where it throws. -/
def hexToNum (line : Bytes) (num : ℕ) : Option (Bytes × ℕ) :=
  match line with
  | [] => none
  | b :: rest =>
    match hexDigit b with
    | some d => some (hexLoop rest ((num + d) % sizeModulus))
    | none => none

/-- What the chunk loop does once `_hexToNum` has read the size of a chunk. -/
def startChunk (c : Client) (rest : Bytes) (num : ℕ) : Client :=
  { c with
    chunkedBodyBuffer := rest
    chunkedRemainingContentLength := num
    contentLength := (c.contentLength + num) % sizeModulus
    chunkedReadState := .readingContentLenEndline }

/-- The `READING_CONTENT_LEN` branch of the chunk loop; `false` is its `break`. -/
def readContentLen : ClientM Bool := do
  let c ← get
  if c.chunkedBodyBuffer.all fun b => (bytes "1234567890abcdefABCDEF").contains b then pure false
  else
    match hexToNum c.chunkedBodyBuffer c.chunkedRemainingContentLength with
    | none => raise .badRequest
    | some (rest, num) => do
      set (c.startChunk rest num)
      pure true

/-- What the chunk loop does when the buffer holds the rest of the chunk. -/
def finishChunk (c : Client) : Client :=
  { c with
    body := c.body ++ c.chunkedBodyBuffer.take c.chunkedRemainingContentLength
    chunkedBodyBuffer := c.chunkedBodyBuffer.drop c.chunkedRemainingContentLength
    chunkedRemainingContentLength := 0
    chunkedReadState := .readingBodyEndline }

/-- What the chunk loop does when all of the buffer belongs to the chunk. -/
def continueChunk (c : Client) : Client :=
  { c with
    body := c.body ++ c.chunkedBodyBuffer
    chunkedRemainingContentLength := c.chunkedRemainingContentLength - c.chunkedBodyBuffer.length
    chunkedBodyBuffer := [] }

/-- The `READING_BODY` branch of the chunk loop; `false` is its `break`. -/
def readChunkBody : ClientM Bool := do
  let c ← get
  if c.chunkedRemainingContentLength ≤ c.chunkedBodyBuffer.length then
    set c.finishChunk
    pure true
  else
    set c.continueChunk
    pure false

/-- What the chunk loop does at a line end, with the bytes that follow it. -/
def finishLine (c : Client) (rest : Bytes) : Client :=
  if c.chunkedReadState = .readingContentLenEndline then
    -- The end of the chunked request
    if c.chunkedRemainingContentLength = 0 then
      { c with chunkedBodyBuffer := rest, clientToServerState := .done }
    else { c with chunkedBodyBuffer := rest, chunkedReadState := .readingBody }
  else { c with chunkedBodyBuffer := rest, chunkedReadState := .readingContentLen }

/-- The branch of the chunk loop for the two `_ENDLINE` states; `false` is its `break`. -/
def readEndline : ClientM Bool := do
  let c ← get
  match c.chunkedBodyBuffer with
  | b₀ :: b₁ :: rest =>
    if b₀ = 13 ∧ b₁ = 10 then
      set (c.finishLine rest)
      pure true
    else raise .badRequest
  | _ => pure false

/-- One round of the chunk loop of `_parseBodyAppend`: the three `if`s in turn, each on the state
the previous one left. `false` means that the loop was left by a `break`. -/
def chunkRound : ClientM Bool := do
  let proceed ← if (← get).chunkedReadState = .readingContentLen then readContentLen else pure true
  if proceed then
    let proceed ← if (← get).chunkedReadState = .readingBody then readChunkBody else pure true
    if proceed then
      if (← get).chunkedReadState = .readingContentLenEndline ∨
          (← get).chunkedReadState = .readingBodyEndline then readEndline
      else pure true
    else pure false
  else pure false

/-- The `while (true)` of `_parseBodyAppend`, for at most `fuel` rounds. -/
def chunkLoop : ℕ → ClientM Unit
  | 0 => pure ()
  | fuel + 1 => do if ← chunkRound then chunkLoop fuel else pure ()

/-- The chunked branch of `_parseBodyAppend`. A round that neither leaves the loop nor throws
erases a line end, so there are fewer rounds than bytes in the buffer, plus one. -/
def parseChunked (extraBody : Bytes) : ClientM Unit := do
  modify fun c => { c with chunkedBodyBuffer := c.chunkedBodyBuffer ++ extraBody }
  chunkLoop ((← get).chunkedBodyBuffer.length + 1)

/-- The branch of `_parseBodyAppend` for a body that is not chunked. -/
def parseUnchunked (extraBody : Bytes) : ClientM Unit :=
  modify fun c =>
    if c.contentLength ≤ c.body.length + extraBody.length then
      { c with
        body := c.body ++ extraBody.take (c.contentLength - c.body.length)
        clientToServerState := .done }
    else { c with body := c.body ++ extraBody }

/-- `Client::_parseBodyAppend`. -/
def parseBodyAppend (extraBody : Bytes) : ClientM Unit := do
  if (← get).isChunked then parseChunked extraBody else parseUnchunked extraBody
  if (← get).clientMaxBodySize < (← get).body.length then raise .requestEntityTooLarge

/-- The end of the header phase of `appendReadString`, with the bytes that followed the header
block in the read that completed it. -/
def startBody (extraBody : Bytes) : ClientM Unit := do
  let c ← get
  if c.requestMethod ≠ .post ∨ c.contentLength = 0 ∧ c.isChunked = false then
    set { c with clientToServerState := .done, serverToCgiState := .done }
  else
    set { c with clientToServerState := .body }
    if 0 < extraBody.length then parseBodyAppend extraBody

/-- `Client::appendReadString`. -/
def appendReadString (received : Bytes) : ClientM Unit := do
  match (← get).clientToServerState with
  | .header =>
    modify fun c => { c with header := c.header ++ received }
    let header := (← get).header
    match find (crlf ++ crlf) header with
    -- The header has not been fully read yet
    | none => pure ()
    | some separatorIndex =>
      modify fun c => { c with header := header.take (separatorIndex + 2) }
      readHeaderBlock
      startBody (header.drop (separatorIndex + 4))
  | .body => parseBodyAppend received
  -- Reading goes on, so that the end of the connection is still noticed
  | .done => pure ()

end Webserv.Client
