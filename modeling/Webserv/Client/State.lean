import Webserv.Fault
import Webserv.Foundations.Exec
import Webserv.Foundations.Map

/-!
# The state of a client

The fields of `Client`, its constructor, and its copy assignment, which leaves one field of the
object that is assigned to as it was.
-/

namespace Webserv

/-- `Client::ClientToServerState`. -/
inductive ClientToServerState
  | header
  | body
  | done
  deriving DecidableEq, Repr

/-- `Client::ServerToCGIState`. -/
inductive ServerToCgiState
  | notWriting
  | writing
  | done
  deriving DecidableEq, Repr

/-- `Client::CGIToServerState`. -/
inductive CgiToServerState
  | notReading
  | reading
  | done
  deriving DecidableEq, Repr

/-- `Client::ServerToClientState`. -/
inductive ServerToClientState
  | notWriting
  | writing
  | done
  deriving DecidableEq, Repr

/-- `Client::RequestMethod`. -/
inductive RequestMethod
  | none
  | get
  | post
  | delete
  deriving DecidableEq, Repr

/-- `Client::ChunkedReadState`. -/
inductive ChunkedReadState
  | readingContentLen
  | readingBody
  | readingContentLenEndline
  | readingBodyEndline
  deriving DecidableEq, Repr

/-- The headers of a request, by upper-cased name. -/
abbrev Headers := Map Bytes Bytes

/-- The fields of `Client`; `timeOfLastRead` is a reading of the steady clock in nanoseconds. -/
structure Client where
  serverFd : ℤ
  status : Status
  clientToServerState : ClientToServerState
  serverToCgiState : ServerToCgiState
  cgiToServerState : CgiToServerState
  serverToClientState : ServerToClientState
  requestMethod : RequestMethod
  requestTarget : Bytes
  protocol : Bytes
  headers : Headers
  body : Bytes
  bodyIndex : ℕ
  clientMaxBodySize : ℕ
  response : Bytes
  responseIndex : ℕ
  clientFd : ℤ
  serverToCgiFd : ℤ
  cgiToServerFd : ℤ
  cgiPid : ℤ
  cgiExitStatus : ℤ
  cgiKilled : Bool
  beingRemoved : Bool
  redirect : Bytes
  serverName : Bytes
  unuppercasedServerName : Bytes
  serverPort : Bytes
  contentType : Bytes
  contentLength : ℕ
  timeOfLastRead : ℕ
  customReasonPhrase : Bytes
  responseContentType : Bytes
  header : Bytes
  isChunked : Bool
  chunkedRemainingContentLength : ℕ
  chunkedBodyBuffer : Bytes
  chunkedReadState : ChunkedReadState

/-- A method of `Client`: it updates the client and may throw. -/
abbrev ClientM := EStateM Fault Client

namespace Client

/-- The constructor of `Client`. -/
def new (clientFd serverFd : ℤ) (serverPort : Bytes) (clientMaxBodySize : ℕ) : Client where
  serverFd := serverFd
  status := .ok
  clientToServerState := .header
  serverToCgiState := .notWriting
  cgiToServerState := .notReading
  serverToClientState := .notWriting
  requestMethod := .none
  requestTarget := []
  protocol := bytes "HTTP/1.1"
  headers := ∅
  body := []
  bodyIndex := 0
  clientMaxBodySize := clientMaxBodySize
  response := []
  responseIndex := 0
  clientFd := clientFd
  serverToCgiFd := -1
  cgiToServerFd := -1
  cgiPid := -1
  cgiExitStatus := -1
  cgiKilled := false
  beingRemoved := false
  redirect := []
  serverName := []
  unuppercasedServerName := []
  serverPort := serverPort
  contentType := []
  contentLength := 0
  timeOfLastRead := 0
  customReasonPhrase := []
  responseContentType := bytes "application/octet-stream"
  header := []
  isChunked := false
  chunkedRemainingContentLength := 0
  chunkedBodyBuffer := []
  chunkedReadState := .readingContentLen

/-- `Client::operator=`: every field of `src` is copied into `this` but `_chunked_read_state`. -/
def assign (this src : Client) : Client := { src with chunkedReadState := this.chunkedReadState }

/-- Throw a `ClientException`. -/
def raise {α : Type} (status : Status) : ClientM α := throw (.clientException status)

/-- `assert`. -/
def assert (p : Prop) [Decidable p] : ClientM Unit := if p then pure () else throw .assertion

end Client

end Webserv
