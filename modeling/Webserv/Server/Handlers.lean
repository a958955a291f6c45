import Webserv.Client.Response
import Webserv.Server.Location
import Webserv.Server.Tables

/-!
# The event handlers

What the server does for the events of a descriptor (`processPfd`) and for an exited child
(`reapChild`).
-/

namespace Webserv.Server

variable (config : Config) (env : Answers)

/-! ## Exceptions and CGI responses -/

/-- The first of the given servers that has the given name. -/
def findServerIndex (serverName : Bytes) : List ℕ → ServerM (Option ℕ)
  | [] => pure none
  | index :: indices =>
    match config.servers[index]? with
    | none => throw .outOfRange
    | some server =>
      if serverName ∈ server.serverNames then pure (some index)
      else findServerIndex serverName indices

/-- `Server::_getServerIndexFromClientServerName`, and the server at the index. -/
def getServer (i : ℕ) : ServerM ServerDirective := do
  let c ← clientAt i
  let serverIndices ← lookupAt (← get).bindFdToServerIndices c.serverFd
  let found ← findServerIndex config c.serverName serverIndices
  match found.or serverIndices.head? with
  | none => throw .outOfRange
  | some index =>
    match config.servers[index]? with
    | none => throw .outOfRange
    | some server => pure server

/-- The body of `_respondClientException`. -/
def answerException (status : Status) (i : ℕ) : ServerM Unit := do
  modifyClient i fun c => { c with status := status }
  killCgi env (← clientAt i).clientFd
  disableReadingFromClient i
  let server ← getServer config i
  onClient i (Client.respondWithError env.fs server.errorPages)
  enableWritingToClient i

/-- `Server::_respondClientException`. -/
def respondClientException (status : Status) (i : ℕ) : ServerM Unit := do
  log (.respondClientException (← clientAt i).clientFd)
  answerException config env status i

/-- The body of `_cgiEnd`. -/
def answerCgi (i : ℕ) (c : Client) : ServerM Unit := do
  if c.cgiExitStatus ≠ 0 then
    respondClientException config env .internalServerError i
  else
    onClient i Client.extractCGIDocumentResponseHeaders
    onClient i Client.prependResponseHeader
    enableWritingToClient i

/-- `Server::_cgiEnd`. -/
def cgiEnd (i : ℕ) : ServerM Unit := do
  let c ← clientAt i
  log (.cgiEnd c)
  answerCgi config env i c

/-- `Server::_pollhupCGIToServer`. -/
def pollhupCgiToServer (fd : ℤ) : ServerM Unit := do
  let i ← getClient fd
  modifyClient i fun c => { c with clientToServerState := .done }
  removeServerToCgiFd fd
  removeCgiToServerFd fd
  let c ← clientAt i
  log (.hangUp c)
  if c.cgiPid = -1 then cgiEnd config env i else pure ()

/-- `Server::_handlePollerr`. -/
def handlePollerr (fd : ℤ) (fdType : FdType) : ServerM Unit :=
  if fdType = .serverToCgi then removeServerToCgiFd fd
  else if fdType = .client then removeClient env fd
  else throw .assertion

/-- What `_reapChildCGIScripts` does for a child with an entry in `_cgi_pid_to_client_fd`. -/
def reapClient (childPid : ℤ) (exitStatus : Option ℤ) : ServerM Unit := do
  let clientFd ← lookupAt (← get).cgiPidToClientFd childPid
  let i ← lookupAt (← get).fdToClientIndex clientFd
  match (← get).clients[i]? with
  | none => throw .outOfRange
  | some c =>
    modify fun s => { s with cgiPidToClientFd := s.cgiPidToClientFd.erase c.cgiPid }
    modifyClient i fun c => { c with cgiPid := -1 }
    assert (c.clientToServerState = .done)
    assert (c.serverToCgiState = .done)
    assert (c.cgiToServerState ≠ .notReading)
    assert (c.serverToClientState = .notWriting)
    modifyClient i fun c => { c with cgiExitStatus := exitStatus.getD c.cgiExitStatus }
    if c.beingRemoved then removeClient env clientFd
    else if c.cgiToServerState = .done then cgiEnd config env i

/-- What `_reapChildCGIScripts` does for a child. -/
def reapPid (childPid : ℤ) (exitStatus : Option ℤ) : ServerM Bool := do
  modify fun s => { s with unreapedCgiCount := s.unreapedCgiCount - 1 }
  -- The client disconnects before the CGI has finished
  if childPid ∉ (← get).cgiPidToClientFd then pure true
  else
    reapClient config env childPid exitStatus
    pure true

/-- One round of the loop of `_reapChildCGIScripts`; `false` is its `return`. -/
def reapChild : ServerM Bool := do
  let child ← waitpid env
  -- There are no children at this moment
  if (← get).errno = some .echild then pure false
  -- The children are not ready to be reaped yet
  else if child.1 = 0 then pure false
  else reapPid config env child.1 child.2

/-! ## Reading -/

/-- `Server::_acceptClient`. -/
def acceptClient (serverFd : ℤ) : ServerM Unit := do
  let clientFd ← accept env serverFd
  fcntl env
  addClientFd clientFd (← get).clients.length .client { pollin := true }
  let serverPort ← lookupAt (← get).bindFdToPort serverFd
  log (.acceptClient clientFd)
  modify fun s => { s with
    clients := s.clients ++ [Client.new clientFd serverFd serverPort config.clientMaxBodySize] }

/-- What `_startCGI` does with the write end of the pipe to the CGI. -/
def connectServerToCgi (i clientIndex : ℕ) (serverToCgiFd : ℤ) : ServerM Unit := do
  let c ← clientAt i
  -- There is no body
  if c.serverToCgiState = .done then close serverToCgiFd
  else
    addClientFd serverToCgiFd clientIndex .serverToCgi { pollout := c.body ≠ [] }
    modifyClient i fun c => { c with serverToCgiFd := serverToCgiFd, serverToCgiState := .writing }
    enableWritingToCgi i

/-- What `_startCGI` does with the read end of the pipe from the CGI. -/
def connectCgiToServer (i clientIndex : ℕ) (cgiToServerFd : ℤ) : ServerM Unit := do
  addClientFd cgiToServerFd clientIndex .cgiToServer { pollin := true }
  modifyClient i fun c => { c with cgiToServerFd := cgiToServerFd, cgiToServerState := .reading }

/-- `Server::_startCGI`, as the parent runs it. -/
def startCgi (i : ℕ) : ServerM Unit := do
  let serverToCgiPipe ← pipe env.serverToCgiPipe
  let cgiToServerPipe ← pipe env.cgiToServerPipe
  let forkedPid ← fork env
  close serverToCgiPipe.1
  close cgiToServerPipe.2
  let c ← clientAt i
  modifyClient i fun c => { c with cgiPid := forkedPid }
  modify fun s => { s with cgiPidToClientFd := s.cgiPidToClientFd.emplace forkedPid c.clientFd }
  let clientIndex ← lookupAt (← get).fdToClientIndex c.clientFd
  connectServerToCgi i clientIndex serverToCgiPipe.2
  connectCgiToServer i clientIndex cgiToServerPipe.1
  log (.startCgi forkedPid c)
  modify fun s => { s with unreapedCgiCount := s.unreapedCgiCount + 1 }

/-- The result of a pure function that may throw. -/
def liftExcept {α : Type} : Except Fault α → ServerM α
  | .ok a => pure a
  | .error e => throw e

/-- The answer of `std::filesystem`, or its exception. -/
def askFs {α : Type} (answer : Option α) : ServerM α := liftExcept (orFilesystemError answer)

/-- The dispatch of a `GET` request for the index file of a directory. -/
def dispatchIndex (i : ℕ) (location : ResolvedLocation) : ServerM Unit := do
  if (← askFs (env.fs.isRegularFile location.indexPath)) = false then
    let directive := location.indexDirective
    -- A stream can be opened on a directory, too
    if (env.fs.readFile location.indexPath).isSome ∧ directive ≠ [] ∧
        (directive.getLast? ≠ some (ch '/') ∨
          directive.head? = some (ch '/') ∧ directive.getLast? = some (ch '/')) then
      if directive.getLast? = some (ch '/') then
        throw (.clientException .internalServerError)
      else
        modifyClient i fun c => { c with
          requestTarget :=
            if directive.head? = some (ch '/') then directive else ch '/' :: directive }
        throw (.clientException .movedPermanently)
    else throw (.clientException .forbidden)
  else
    onClient i (Client.respondWithFile env.fs location.indexPath)
    enableWritingToClient i

/-- The dispatch of a request for a path that ends in `/`. -/
def dispatchDirectory (i : ℕ) (method : RequestMethod) (location : ResolvedLocation) :
    ServerM Unit := do
  if method = .get then
    if location.hasIndex then dispatchIndex env i location
    else if location.autoindex then
      onClient i (Client.respondWithDirectoryListing env.fs location.path)
      enableWritingToClient i
    else throw (.clientException .forbidden)
  else throw (.clientException .forbidden)

/-- The dispatch of a request for a path that does not end in `/`. -/
def dispatchFile (i : ℕ) (method : RequestMethod) (location : ResolvedLocation) :
    ServerM Unit := do
  if ← askFs (env.fs.isDirectory location.path) then
    if method = .delete then throw (.clientException .methodNotAllowed)
    else throw (.clientException .movedPermanently)
  else if location.isCgiDirectory then startCgi env i
  else if method = .get then
    onClient i (Client.respondWithFile env.fs location.path)
    enableWritingToClient i
  else if method = .post then
    onClient i (Client.respondWithCreateFile env.fs location.path)
    enableWritingToClient i
  else
    onClient i (Client.respondWithDeleteFile env.fs location.path)
    enableWritingToClient i

/-- The part of `_readFd` for a client whose request is complete. -/
def answerRequest (i : ℕ) (c : Client) : ServerM Unit := do
  let server ← getServer config i
  let location ← liftExcept (resolveToLocation env.fs c.requestTarget server.locations)
  if location.resolved = false then throw (.clientException .notFound)
  else if location.hasRedirect then
    modifyClient i fun c => { c with redirect := location.path }
    throw (.clientException .movedTemporarily)
  else if isAllowedMethod location c.requestMethod = false then
    throw (.clientException .methodNotAllowed)
  else if (← liftExcept (back location.path)) = ch '/' then
    dispatchDirectory env i c.requestMethod location
  else dispatchFile env i c.requestMethod location

/-- Log that the request of a client is dispatched, and answer it. -/
def dispatch (i : ℕ) : ServerM Unit := do
  let c ← clientAt i
  log (.dispatch c)
  answerRequest config env i c

/-- The part of `_readFd` for bytes from a client. -/
def readClient (i : ℕ) (fd : ℤ) (received : Bytes) : ServerM Unit := do
  log (.read fd (← clientAt i) received)
  onClient i (Client.appendReadString received)
  if (← clientAt i).clientToServerState = .done then dispatch config env i else pure ()

/-- The part of `_readFd` for bytes from a CGI. -/
def readCgi (i : ℕ) (received : Bytes) : ServerM Unit := do
  let c ← clientAt i
  assert (c.cgiToServerState = .reading)
  log (.readCgi c received)
  modifyClient i fun c => { c with response := c.response ++ received }

/-- The part of `_readFd` for bytes. -/
def readBytes (i : ℕ) (fd : ℤ) (fdType : FdType) (received : Bytes) : ServerM Unit := do
  assert ((← clientAt i).serverToClientState ≠ .done)
  if fdType = .client then readClient config env i fd received
  else if fdType = .cgiToServer then readCgi i received
  else throw .assertion

/-- `Server::_readFd`; `true` is `skip_client`. -/
def readFd (i : ℕ) (fd : ℤ) (fdType : FdType) : ServerM Bool := do
  let received ← read env
  modifyClient i fun c => { c with timeOfLastRead := env.now }
  -- The client disconnected
  if received = [] then
    assert (fdType = .client)
    removeClient env (← clientAt i).clientFd
    pure true
  else
    readBytes config env i fd fdType received
    pure false

/-- `catch (const Client::ClientException &e)`. -/
def catchClientException {α : Type} (body : ServerM α) (handler : Status → ServerM α) :
    ServerM α := fun s =>
  match body s with
  | .error (.clientException status) s' => handler status s'
  | .error e s' => .error e s'
  | .ok a s' => .ok a s'

/-- `Server::_handlePollin`; `true` is `skip_client`. -/
def handlePollin (fd : ℤ) (fdType : FdType) : ServerM Bool := do
  if fdType = .server then
    acceptClient config env fd
    pure false
  else
    assert (fdType = .client ∨ fdType = .cgiToServer)
    let i ← getClient fd
    catchClientException (readFd config env i fd fdType) fun status => do
      respondClientException config env status i
      pure true

/-! ## Writing -/

/-- `MAX_CGI_WRITE_LEN`. -/
def maxCgiWriteLen : ℕ := 10000

/-- `MAX_CLIENT_WRITE_LEN`. -/
def maxClientWriteLen : ℕ := 10000

/-- `Server::_writeToCGI`. -/
def writeToCgi (i : ℕ) : ServerM Unit := do
  let c ← clientAt i
  assert (c.serverToCgiState = .writing)
  let bodySubstrLen := min (c.body.length - c.bodyIndex) maxCgiWriteLen
  assert (0 < bodySubstrLen)
  let bodySubstr := (c.body.drop c.bodyIndex).take bodySubstrLen
  modifyClient i fun c => { c with bodyIndex := c.bodyIndex + bodySubstrLen }
  match ← write env c.serverToCgiFd bodySubstr with
  | none => removeServerToCgiFd c.serverToCgiFd
  | some written =>
    assert (written ≠ 0)
    if c.bodyIndex + bodySubstrLen = c.body.length then removeServerToCgiFd c.serverToCgiFd

/-- `Server::_writeToClient`. -/
def writeToClient (i : ℕ) : ServerM Unit := do
  let c ← clientAt i
  assert (c.serverToClientState = .writing)
  let responseSubstrLen := min (c.response.length - c.responseIndex) maxClientWriteLen
  assert (0 < responseSubstrLen)
  let responseSubstr := (c.response.drop c.responseIndex).take responseSubstrLen
  modifyClient i fun c => { c with responseIndex := c.responseIndex + responseSubstrLen }
  match ← write env c.clientFd responseSubstr with
  | none => removeClient env c.clientFd
  | some written =>
    assert (written ≠ 0)
    if c.responseIndex + responseSubstrLen = c.response.length then removeClient env c.clientFd

/-- `Server::_handlePollout`. -/
def handlePollout (fd : ℤ) (fdType : FdType) : ServerM Unit := do
  let i ← getClient fd
  if fdType = .serverToCgi then writeToCgi env i
  else if fdType = .client then writeToClient env i
  else throw .assertion

/-! ## The events of a descriptor -/

/-- `Server::_printEvents`, whose lookups may throw. -/
def printEvents (fd : ℤ) (fdType : FdType) : ServerM Unit := do
  if fdType ≠ .server then
    let i ← lookupAt (← get).fdToClientIndex fd
    match (← get).clients[i]? with
    | some _ => pure ()
    | none => throw .outOfRange

/-- The entry of `_pfds` at an index. -/
def pfdAt (s : Server) (pfdIndex : ℕ) : Pollfd := s.pfds.getD pfdIndex env.stalePfd

/-- The part of `_processPfd` for `POLLIN` and `POLLOUT`. -/
def processInOut (pfdIndex : ℕ) (fd : ℤ) (fdType : FdType) (pollin : Bool) : ServerM Unit := do
  let skipClient ← (if pollin then handlePollin config env fd fdType else pure false : ServerM Bool)
  if skipClient = false ∧ (pfdAt env (← get) pfdIndex).revents.pollout = true then
    handlePollout env fd fdType
  else pure ()

/-- `Server::_processPfd` for a descriptor that is handled. -/
def processEvents (pfdIndex : ℕ) (fd : ℤ) : ServerM Unit := do
  let fdType ← lookupAt (← get).fdToFdType fd
  printEvents fd fdType
  let revents := (pfdAt env (← get) pfdIndex).revents
  assert (revents.pollnval = false)
  if revents.pollerr then handlePollerr env fd fdType
  else
    assert (revents.pollhup = true → fdType = .cgiToServer)
    -- The server has read everything from the CGI script
    if revents.pollhup = true ∧ revents.pollin = false then pollhupCgiToServer config env fd
    else processInOut config env pfdIndex fd fdType revents.pollin

/-- `Server::_processPfd`; it returns `seen_fds`. -/
def processPfd (pfdIndex : ℕ) (seenFds : Finset ℤ) : ServerM (Finset ℤ) := do
  let pfd := pfdAt env (← get) pfdIndex
  if pfd.revents = {} then pure seenFds
  -- The descriptor got removed
  else if pfd.fd ∉ (← get).fdToPfdIndex then pure seenFds
  else if pfd.fd ∈ seenFds then pure seenFds
  else
    log (.handle pfd.fd (pfdIndex < (← get).pfds.length))
    processEvents config env pfdIndex pfd.fd
    pure (insert pfd.fd seenFds)

end Webserv.Server
