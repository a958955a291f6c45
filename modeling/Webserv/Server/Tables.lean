import Webserv.Foundations.IndexedVector
import Webserv.Server.State

/-!
# The tables of descriptors and clients

The functions of `Server` that add and remove descriptors, change their events, and remove clients
from `_clients`. A `Client &` is the slot of the client.
-/

namespace Webserv.Server

open IndexedVector

/-! ## Vectors -/

/-- `_swapRemove(_pfds, index)`. -/
def swapRemovePfd (index : ℕ) : ServerM Unit := do
  match swapRemove (fun _ src => src) (← get).pfds index with
  | some pfds => modify fun s => { s with pfds := pfds }
  | none => throw .undefinedBehaviour

/-- `_swapRemove(_clients, index)`: the last client is assigned to the slot. -/
def swapRemoveClient (index : ℕ) : ServerM Unit := do
  let s ← get
  match s.clients[index]?, s.clients.getLast? with
  | some this, some src =>
    log (.assign this src)
    modify fun s => { s with clients := (s.clients.set index (this.assign src)).dropLast }
  | _, _ => throw .undefinedBehaviour

/-- Update an entry of `_pfds`. -/
def modifyPfd (pfdIndex : ℕ) (f : Pollfd → Pollfd) : ServerM Unit := do
  match (← get).pfds[pfdIndex]? with
  | some pfd => modify fun s => { s with pfds := s.pfds.set pfdIndex (f pfd) }
  | none => throw .undefinedBehaviour

/-! ## Adding and removing descriptors -/

/-- `Server::_addFd`. -/
def addFd (fd : ℤ) (fdType : FdType) (events : Events) : ServerM Unit := do
  assert (fd ≠ -1)
  log (.addFd fd fdType)
  modify fun s => { s with
    fdToFdType := s.fdToFdType.emplace fd fdType
    fdToPfdIndex := s.fdToPfdIndex.emplace fd s.pfds.length
    pfds := s.pfds ++ [{ fd := fd, events := events }] }

/-- `Server::_addClientFd`. -/
def addClientFd (fd : ℤ) (clientIndex : ℕ) (fdType : FdType) (events : Events) :
    ServerM Unit := do
  assert (fd ≠ -1)
  modify fun s => { s with fdToClientIndex := s.fdToClientIndex.emplace fd clientIndex }
  addFd fd fdType events

/-- What `_removeFd` and `_shutDownServers` do to take a descriptor out of `_pfds`. -/
def removePfd (fd : ℤ) : ServerM Unit := do
  let pfdIndex ← lookupAt (← get).fdToPfdIndex fd
  match (← get).pfds.getLast? with
  | none => throw .undefinedBehaviour
  | some last =>
    modify fun s => { s with fdToPfdIndex := s.fdToPfdIndex.insert last.fd pfdIndex }
    swapRemovePfd pfdIndex
    modify fun s => { s with fdToPfdIndex := s.fdToPfdIndex.erase fd }

/-- `Server::_removeFd`; its callers set the descriptor to `-1`. -/
def removeFd (fd : ℤ) : ServerM Unit := do
  assert (fd ≠ -1)
  removePfd fd
  modify fun s => { s with fdToFdType := s.fdToFdType.erase fd }
  close fd

/-- `Server::_removeClientFd`; its callers set the descriptor to `-1`. -/
def removeClientFd (fd : ℤ) : ServerM Unit := do
  assert (fd ≠ -1)
  modify fun s => { s with fdToClientIndex := s.fdToClientIndex.erase fd }
  removeFd fd

/-- What `_removeServerToCGIFd` and `_removeCGIToServerFd` do for the pipe of a kind. -/
def removePipeFd (fdType : FdType) (fd : ℤ) : ServerM Unit := do
  assert (fd ≠ -1)
  let i ← getClient fd
  let c ← clientAt i
  if c.fdOf fdType = -1 then pure ()
  else
    removeClientFd (c.fdOf fdType)
    modifyClient i fun c => c.release fdType

/-- `Server::_removeServerToCGIFd`. -/
def removeServerToCgiFd (fd : ℤ) : ServerM Unit := removePipeFd .serverToCgi fd

/-- `Server::_removeCGIToServerFd`. -/
def removeCgiToServerFd (fd : ℤ) : ServerM Unit := removePipeFd .cgiToServer fd

/-- One round of the loop of `_shutDownServers`. -/
def shutDownFd (fd : ℤ) : ServerM Unit := do
  let s ← get
  if s.fdToFdType.lookup fd = some .server ∧ fd ∈ s.fdToPfdIndex then
    removePfd fd
    close fd
  else pure ()

/-- The loop of `_shutDownServers`, over the descriptors in the order of the map. -/
def shutDownFds : List ℤ → ServerM Unit
  | [] => pure ()
  | fd :: fds => do
    shutDownFd fd
    shutDownFds fds

/-! ## Events -/

/-- `Server::_enableEvent` with `POLLOUT`. -/
def enablePollout (pfdIndex : ℕ) : ServerM Unit :=
  modifyPfd pfdIndex fun pfd => { pfd with events := { pfd.events with pollout := true } }

/-- `Server::_disableEvent` with `POLLIN`. -/
def disablePollin (pfdIndex : ℕ) : ServerM Unit :=
  modifyPfd pfdIndex fun pfd => { pfd with
    events := { pfd.events with pollin := false }
    revents := { pfd.revents with pollin := false } }

/-- `Server::_enableWritingToClient`. -/
def enableWritingToClient (i : ℕ) : ServerM Unit := do
  let c ← clientAt i
  enablePollout (← lookupAt (← get).fdToPfdIndex c.clientFd)
  modifyClient i fun c => { c with serverToClientState := .writing }

/-- `Server::_enableWritingToCGI`. -/
def enableWritingToCgi (i : ℕ) : ServerM Unit := do
  let c ← clientAt i
  assert (c.serverToCgiState ≠ .done)
  assert (c.serverToCgiFd ≠ -1)
  enablePollout (← lookupAt (← get).fdToPfdIndex c.serverToCgiFd)
  modifyClient i fun c => { c with serverToCgiState := .writing }

/-- `Server::_disableReadingFromClient`. -/
def disableReadingFromClient (i : ℕ) : ServerM Unit := do
  let c ← clientAt i
  disablePollin (← lookupAt (← get).fdToPfdIndex c.clientFd)
  modifyClient i fun c => { c with clientToServerState := .done }

/-! ## Removing clients -/

/-- `Server::_killCGI`. -/
def killCgi (env : Answers) (fd : ℤ) : ServerM Unit := do
  let i ← getClient fd
  let c ← clientAt i
  if c.cgiKilled = false ∧ c.cgiPid ≠ -1 then
    kill env
    modifyClient i fun c => { c with cgiKilled := true }
    removeCgiToServerFd fd

/-- The branch of `_removeClient` that takes the client out of `_clients`. -/
def eraseClient (fd : ℤ) (i : ℕ) : ServerM Unit := do
  removeCgiToServerFd fd
  let c ← clientAt i
  let clientIndex ← lookupAt (← get).fdToClientIndex c.clientFd
  match (← get).clients.getLast? with
  | none => throw .undefinedBehaviour
  | some last =>
    modify fun s => { s with
      fdToClientIndex := ((s.fdToClientIndex.insert last.clientFd clientIndex).insert
        last.serverToCgiFd clientIndex).insert last.cgiToServerFd clientIndex }
    removeClientFd c.clientFd
    modifyClient i fun c => { c with clientFd := -1 }
    swapRemoveClient clientIndex

/-- `Server::_removeClient`. -/
def removeClient (env : Answers) (fd : ℤ) : ServerM Unit := do
  assert (fd ≠ -1)
  let i ← getClient fd
  log (.removeClient (← clientAt i))
  modifyClient i fun c => { c with beingRemoved := true }
  disableReadingFromClient i
  -- `_reapChildCGIScripts` needs the client to exist until its CGI is reaped
  let c ← clientAt i
  if c.cgiKilled = false ∧ c.cgiPid ≠ -1 then killCgi env fd else eraseClient fd i

end Webserv.Server
