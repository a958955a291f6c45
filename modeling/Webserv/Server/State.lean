import Webserv.Client.Body
import Webserv.Config
import Webserv.FileSystem

/-!
# The state of the server

The members of `Server`, what the kernel knows about the process (its open descriptors, its
children, `errno`), and a log of the calls that the results are about, which nothing reads.

A system call asks the environment for its result (`Answers`). The kernel never hands out a
descriptor that is open or the pid of a child that has not been reaped: a proposal that would is a
failed call. After a removal, the loops of `run` read past the end of the vectors they walk through;
what they find there is up to the environment, too.
-/

namespace Webserv

/-- `Server::FdType`. -/
inductive FdType
  | server
  | client
  | serverToCgi
  | cgiToServer
  deriving DecidableEq, Repr

/-- The bits of `events` and `revents` that the server looks at. -/
structure Events where
  pollin : Bool := false
  pollout : Bool := false
  pollerr : Bool := false
  pollhup : Bool := false
  pollnval : Bool := false
  deriving DecidableEq, Repr

/-- `pollfd`. -/
structure Pollfd where
  fd : ℤ
  events : Events
  revents : Events := {}
  deriving DecidableEq, Repr

/-- The values of `errno` that the server tells apart. -/
inductive Errno
  | echild
  | eintr
  | other
  deriving DecidableEq, Repr

/-- The calls that are logged. -/
inductive Call
  /-- `_addFd` registered a descriptor. -/
  | addFd (fd : ℤ) (fdType : FdType)
  /-- `_acceptClient` added a client. -/
  | acceptClient (fd : ℤ)
  /-- Bytes from a connection were handed to a client, as it was before. -/
  | read (fd : ℤ) (client : Client) (received : Bytes)
  /-- The request of a client was dispatched. -/
  | dispatch (client : Client)
  /-- `_respondClientException` was called. -/
  | respondClientException (fd : ℤ)
  /-- `_removeClient` was called for a client, as it was before. -/
  | removeClient (client : Client)
  /-- `Client::operator=` was called, by `_swapRemove`. -/
  | assign (this src : Client)
  /-- `T::close` was called, and whether the descriptor was open. -/
  | close (fd : ℤ) (isOpen : Bool)
  /-- `write` accepted bytes. -/
  | write (fd : ℤ) (accepted : Bytes)
  /-- `_startCGI` has started a CGI for a client, as it was before. -/
  | startCgi (pid : ℤ) (client : Client)
  /-- Bytes from a CGI were added to the response of a client, as it was before. -/
  | readCgi (client : Client) (received : Bytes)
  /-- `_pollhupCGIToServer` has closed the pipes of a client, as it is then. -/
  | hangUp (client : Client)
  /-- `waitpid` returned a child, with what it left in `errno`. -/
  | waitpid (pid : ℤ) (errno : Option Errno)
  /-- `_cgiEnd` was called. -/
  | cgiEnd (client : Client)
  /-- `_processPfd` handles the events of a descriptor, and whether it found them inside `_pfds`. -/
  | handle (fd : ℤ) (inside : Bool)

/-- The members of `Server`, and the part of the world around it that it acts on. -/
structure Server where
  unreapedCgiCount : ℤ
  bindFdToServerIndices : Map ℤ (List ℕ)
  bindFdToPort : Map ℤ Bytes
  cgiPidToClientFd : Map ℤ ℤ
  fdToClientIndex : Map ℤ ℕ
  fdToPfdIndex : Map ℤ ℕ
  fdToFdType : Map ℤ FdType
  clients : List Client
  pfds : List Pollfd
  /-- The open descriptors of the process, with what they are. -/
  descriptors : Map ℤ FdType
  /-- The children that have not been reaped. -/
  children : Finset ℤ
  errno : Option Errno
  /-- The log, the latest call first. -/
  calls : List Call

/-- What the environment answers to the calls of one step. -/
structure Answers where
  /-- `SIGINT` arrives. -/
  sigint : Bool := false
  /-- What library calls have left in `errno`, if they have changed it. -/
  errno : Option Errno := none
  /-- The events `poll` finds, by descriptor; `none` is a failure. -/
  poll : Option (ℤ → Events) := some fun _ => {}
  /-- The order in which `_shutDownServers` meets the descriptors. -/
  order : List ℤ := []
  /-- What a read past the end of `_pfds` gives. -/
  stalePfd : Pollfd := { fd := -1, events := {} }
  /-- The descriptor and the time of the last read that a read past the end of `_clients` gives. -/
  staleClient : ℤ × ℕ := (-1, 0)
  accept : Option ℤ := none
  fcntl : Bool := true
  /-- What `read` gives; `none` is a failure. -/
  read : Option Bytes := none
  /-- The steady clock, in nanoseconds. -/
  now : ℕ := 0
  /-- The read and write ends of the two pipes of `_startCGI`. -/
  serverToCgiPipe : Option (ℤ × ℤ) := none
  cgiToServerPipe : Option (ℤ × ℤ) := none
  fork : Option ℤ := none
  kill : Bool := true
  /-- How many bytes `write` accepts; `none` is a failure. -/
  write : Option ℕ := none
  /-- A child that has exited, with its exit status if it exited by itself. -/
  waitpid : Option (ℤ × Option ℤ) := none
  fs : FileSystem := {}

namespace Client

/-- The descriptor of a kind that a client holds. -/
def fdOf (c : Client) : FdType → ℤ
  | .server => -1
  | .client => c.clientFd
  | .serverToCgi => c.serverToCgiFd
  | .cgiToServer => c.cgiToServerFd

/-- A client that has let go of a pipe. -/
def release (c : Client) : FdType → Client
  | .serverToCgi => { c with serverToCgiFd := -1, serverToCgiState := .done }
  | .cgiToServer => { c with cgiToServerFd := -1, cgiToServerState := .done }
  | _ => c

end Client

/-- A function of `Server`. -/
abbrev ServerM := EStateM Fault Server

namespace Server

/-- The members of `Server` before its constructor does anything. -/
def empty : Server where
  unreapedCgiCount := 0
  bindFdToServerIndices := ∅
  bindFdToPort := ∅
  cgiPidToClientFd := ∅
  fdToClientIndex := ∅
  fdToPfdIndex := ∅
  fdToFdType := ∅
  clients := []
  pfds := []
  descriptors := ∅
  children := ∅
  errno := none
  calls := []

/-- `assert`. -/
def assert (p : Prop) [Decidable p] : ServerM Unit := if p then pure () else throw .assertion

/-- Log a call. -/
def log (call : Call) : ServerM Unit := modify fun s => { s with calls := call :: s.calls }

/-- `.at()` of a map. -/
def lookupAt {κ ν : Type} [DecidableEq κ] (m : Map κ ν) (k : κ) : ServerM ν :=
  match m.lookup k with
  | some v => pure v
  | none => throw .outOfRange

/-! ## System calls -/

/-- `T::close`. -/
def close (fd : ℤ) : ServerM Unit := do
  log (.close fd (fd ∈ (← get).descriptors))
  if fd ∈ (← get).descriptors then
    modify fun s => { s with descriptors := s.descriptors.erase fd }
  else throw (.system .close)

/-- Whether the kernel may hand out a descriptor. -/
def CanOpen (s : Server) (fd : ℤ) : Prop := 0 ≤ fd ∧ fd ∉ s.descriptors

instance (s : Server) (fd : ℤ) : Decidable (s.CanOpen fd) := inferInstanceAs (Decidable (_ ∧ _))

/-- `T::socket`, with the calls that make the descriptor a listening one. -/
def socket (fd : ℤ) : ServerM Unit := do
  let s ← get
  if s.CanOpen fd then set { s with descriptors := s.descriptors.insert fd FdType.server }
  else throw (.system .socket)

/-- `T::accept`: it fails on what is not a listening socket. -/
def accept (env : Answers) (serverFd : ℤ) : ServerM ℤ := do
  let s ← get
  match env.accept with
  | some fd =>
    if s.CanOpen fd ∧ s.descriptors.lookup serverFd = some .server then
      set { s with descriptors := s.descriptors.insert fd .client }
      pure fd
    else throw (.system .accept)
  | none => throw (.system .accept)

/-- `T::fcntl`. -/
def fcntl (env : Answers) : ServerM Unit := if env.fcntl then pure () else throw (.system .fcntl)

/-- `MAX_READ_LEN`. -/
def maxReadLen : ℕ := 10000

/-- `T::read`. -/
def read (env : Answers) : ServerM Bytes :=
  match env.read with
  | some received => pure (received.take maxReadLen)
  | none => throw (.system .read)

/-- `T::pipe`: its read end and its write end. -/
def pipe (proposed : Option (ℤ × ℤ)) : ServerM (ℤ × ℤ) := do
  let s ← get
  match proposed with
  | some (readEnd, writeEnd) =>
    if s.CanOpen readEnd ∧ s.CanOpen writeEnd ∧ readEnd ≠ writeEnd then
      set { s with
        descriptors := (s.descriptors.insert readEnd FdType.cgiToServer).insert writeEnd
          FdType.serverToCgi }
      pure (readEnd, writeEnd)
    else throw (.system .pipe)
  | none => throw (.system .pipe)

/-- `T::fork`, as the parent sees it. -/
def fork (env : Answers) : ServerM ℤ := do
  let s ← get
  match env.fork with
  | some pid =>
    if 0 < pid ∧ pid ∉ s.children then
      set { s with children := insert pid s.children }
      pure pid
    else throw (.system .fork)
  | none => throw (.system .fork)

/-- `T::kill`. -/
def kill (env : Answers) : ServerM Unit := if env.kill then pure () else throw (.system .kill)

/-- `write`: the number of accepted bytes, or `none` for `-1`. -/
def write (env : Answers) (fd : ℤ) (msg : Bytes) : ServerM (Option ℕ) :=
  match env.write with
  | some n => do
    log (.write fd (msg.take n))
    pure (some (min n msg.length))
  | none => do
    modify fun s => { s with errno := some .other }
    pure none

/-- `waitpid` with `WNOHANG`: the pid it returns, and the exit status of a child that exited by
itself. -/
def waitpid (env : Answers) : ServerM (ℤ × Option ℤ) := do
  let s ← get
  if s.children = ∅ then
    set { s with errno := some .echild }
    pure (-1, none)
  else
    match env.waitpid with
    | some (pid, status) =>
      if pid ∈ s.children then
        set { s with
          children := s.children.erase pid
          calls := .waitpid pid s.errno :: s.calls }
        pure (pid, status)
      else pure (0, none)
    | none => pure (0, none)

/-! ## Clients -/

/-- The client in a slot of `_clients`. -/
def clientAt (i : ℕ) : ServerM Client := do
  match (← get).clients[i]? with
  | some c => pure c
  | none => throw .undefinedBehaviour

/-- Run a method of the client in a slot. What it has changed stays changed if it throws. -/
def onClient {α : Type} (i : ℕ) (method : ClientM α) : ServerM α := do
  let c ← clientAt i
  match method c with
  | .ok a c' => do
    modify fun s => { s with clients := s.clients.set i c' }
    pure a
  | .error e c' => do
    modify fun s => { s with clients := s.clients.set i c' }
    throw e

/-- Update the client in a slot. -/
def modifyClient (i : ℕ) (f : Client → Client) : ServerM Unit := onClient i (modify f)

/-- `Server::_getClient`: the slot of the client. -/
def getClient (fd : ℤ) : ServerM ℕ := do
  let clientIndex ← lookupAt (← get).fdToClientIndex fd
  let _ ← clientAt clientIndex
  pure clientIndex

end Server

end Webserv
