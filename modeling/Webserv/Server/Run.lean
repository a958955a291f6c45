import Mathlib.Data.Finset.Sort
import Webserv.Server.Handlers

/-!
# The loop of the server

The constructor of `Server` and `Server::run`, whose loop is cut into steps: a step is a pass over
the top of the loop with its call of `poll`, or one round of one of the loops inside. So the
environment can answer differently in every round, and a run is any sequence of steps. A run ends
when `run` returns, or when a step throws: nothing catches the exception.
-/

namespace Webserv

/-- Where `run` is. -/
inductive Phase
  | top
  /-- In the loop of `_reapChildCGIScripts`. -/
  | reaping
  /-- At the slot `i` of `_clients`, which had `n` clients when the loop was entered. -/
  | sweeping (i n : ℕ)
  /-- In the loop over `_pfds`, with `k` entries to go. -/
  | processing (k : ℕ) (seenFds : Finset ℤ)
  /-- `run` has returned, and the destructor has run. -/
  | stopped
  deriving DecidableEq

/-- The server and the variables of `run`. -/
structure World where
  server : Server
  phase : Phase := .top
  serversActive : Bool := true
  shuttingDownGracefully : Bool := false

/-- A part of `run`. -/
abbrev WorldM := EStateM Fault World

namespace Server

/-- The loop of the constructor over the addresses to listen on, with the descriptors that
`T::socket` returns. -/
def listen : List (Bytes × List ℕ) → List ℤ → ServerM Unit
  | [], _ => pure ()
  | _ :: _, [] => throw (.system .socket)
  | (port, serverIndices) :: bindInfos, bindFd :: bindFds => do
    socket bindFd
    modify fun s => { s with
      bindFdToServerIndices := s.bindFdToServerIndices.emplace bindFd serverIndices
      bindFdToPort := s.bindFdToPort.emplace bindFd port }
    addFd bindFd .server { pollin := true }
    listen bindInfos bindFds

variable (config : Config) (env : Answers)

/-- An order of the keys of a map: the proposed one, if it is one. -/
def iterationOrder (order : List ℤ) (keys : Finset ℤ) : List ℤ :=
  if (order : Multiset ℤ) = keys.val then order else keys.sort (· ≤ ·)

/-- `Server::_shutDownServers`. -/
def shutDownServers : ServerM Unit := do
  shutDownFds (iterationOrder env.order (← get).fdToFdType.keys)

/-- `duration_cast<milliseconds>(now - time_of_last_read).count()`, as a `size_t`. -/
def msSinceLastRead (now timeOfLastRead : ℕ) : ℕ :=
  (((now : ℤ) - timeOfLastRead).tdiv 1000000 % sizeModulus).toNat

/-- One round of the loop that removes the clients that have timed out. -/
def sweepClient (i : ℕ) : ServerM Unit := do
  let client :=
    match (← get).clients[i]? with
    | some c => (c.clientFd, c.timeOfLastRead)
    | none => env.staleClient
  if config.clientTimeoutMs < msSinceLastRead env.now client.2 then removeClient env client.1
  else pure ()

/-- An entry of `_pfds` after `poll`, given the events of its descriptor. -/
def polled (s : Server) (events : ℤ → Events) (pfd : Pollfd) : Pollfd :=
  let found := events pfd.fd
  { pfd with
    revents :=
      { pollin := found.pollin && pfd.events.pollin
        pollout := found.pollout && pfd.events.pollout
        pollerr := found.pollerr
        pollhup := found.pollhup
        pollnval := found.pollnval && decide (pfd.fd ∉ s.descriptors) } }

end Server

namespace World

variable (config : Config) (env : Answers)

/-- Run a function of the server. -/
def onServer {α : Type} (f : ServerM α) : WorldM α := fun w =>
  match f w.server with
  | .ok a s => .ok a { w with server := s }
  | .error e s => .error e { w with server := s }

/-- Go on elsewhere. -/
def goto (phase : Phase) : WorldM Unit := modify fun w => { w with phase := phase }

/-- What `run` does when `poll` timed out, up to the loops. -/
def timeout : WorldM Unit := do
  let s := (← get).server
  onServer (Server.assert (0 ≤ s.unreapedCgiCount))
  if 0 < s.unreapedCgiCount then goto .reaping else goto (.sweeping 0 s.clients.length)

/-- The call of `poll` and what `run` makes of its result. -/
def poll : WorldM Unit := do
  match env.poll with
  | none => if env.errno = some .eintr then pure () else throw (.system .poll)
  | some events =>
    let s := (← get).server
    let pfds := s.pfds.map (s.polled events)
    onServer (modify fun s => { s with pfds := pfds })
    if ∀ pfd ∈ pfds, pfd.revents = {} then
      -- Without clients there is no time limit
      if s.clients.length = 0 then pure () else timeout
    else goto (.processing pfds.length ∅)

/-- What `run` does to shut down gracefully. -/
def shutDown : WorldM Unit := do
  let w ← get
  if w.shuttingDownGracefully = true ∧ w.serversActive = true then
    set { w with serversActive := false }
    onServer (Server.shutDownServers env)
  else pure ()

/-- The top of the loop of `run`. -/
def top : WorldM Unit := do
  shutDown env
  if (← get).server.pfds.length = 0 then
    onServer (Server.shutDownServers env)
    goto .stopped
  else poll env

/-- What happens between two steps: a signal arrives, and library calls change `errno`. -/
def interrupt : WorldM Unit :=
  modify fun w => { w with
    server := { w.server with errno := env.errno.or w.server.errno }
    shuttingDownGracefully := w.shuttingDownGracefully || env.sigint }

/-- A step of `run`. -/
def step : WorldM Unit := do
  interrupt env
  match (← get).phase with
  | .top => top env
  | .reaping =>
    if ← onServer (Server.reapChild config env) then pure ()
    else goto (.sweeping 0 (← get).server.clients.length)
  | .sweeping i n =>
    if i < n then
      onServer (Server.sweepClient config env i)
      goto (.sweeping (i + 1) n)
    else goto .top
  | .processing 0 _ => goto .top
  | .processing (k + 1) seenFds =>
    let seenFds ← onServer (Server.processPfd config env k seenFds)
    goto (.processing k seenFds)
  | .stopped => pure ()

/-- Several steps, one after another. -/
def run : List Answers → WorldM Unit
  | [] => pure ()
  | env :: envs => do
    step config env
    run envs

/-- The server has just been constructed. -/
def Started (w : World) : Prop :=
  ∃ bindFds s, Server.listen config.bindInfos bindFds Server.empty = .ok () s ∧ w = { server := s }

/-- The states between the steps of a run. -/
inductive Reachable : World → Prop
  | start {w : World} (h : Started config w) : Reachable w
  | step {w w' : World} (env : Answers) (h : Reachable w) (hstep : step config env w = .ok () w') :
    Reachable w'

/-- The states of a run: those between its steps, and the one in which a step threw. -/
inductive Visited : World → Prop
  | reached {w : World} (h : Reachable config w) : Visited w
  | crashed {w w' : World} (env : Answers) (e : Fault) (h : Reachable config w)
    (hstep : step config env w = .error e w') : Visited w'

variable {config}

/-- What a run of several steps reaches. -/
theorem Reachable.run {w w' : World} (h : Reachable config w) {envs : List Answers}
    (hrun : run config envs w = .ok () w') : Reachable config w' := by
  induction envs generalizing w with
  | nil =>
    cases hrun
    exact h
  | cons env envs ih =>
    obtain ⟨_, w₁, hstep, hrun⟩ := Exec.bind_eq_ok hrun
    exact ih (h.step env hstep) hrun

/-! ## Concrete runs -/

/-- A configuration with one server, whose only location runs a CGI. -/
def cgiConfig : Config where
  clientMaxBodySize := 1000
  clientTimeoutMs := 1000
  servers := [{
    locations := [{
      uri := bytes "/"
      cgiExecvePath := bytes "/bin/sh"
      getAllowed := true
      postAllowed := true
      root := bytes "cgi" }] }]
  bindInfos := [(bytes "80", [0])]

/-- A client asks for a CGI, with a request that may have a body. -/
def cgiAnswers (clientFd : ℤ) (request : Bytes) (pid : ℤ) : List Answers :=
  [{ poll := some fun fd => { pollin := fd = 3 } }, { accept := some clientFd }, {},
    { poll := some fun fd => { pollin := fd = clientFd } },
    { read := some request, serverToCgiPipe := some (5, 6), cgiToServerPipe := some (7, 8)
      fork := some pid }, {}, {}]

/-- A request without a body. -/
def getRequest : Bytes := bytes "GET /a HTTP/1.1\x0d\nHost: a\x0d\n\x0d\n"

/-- A request with a body. -/
def postRequest : Bytes :=
  bytes "POST /a HTTP/1.1\x0d\nHost: a\x0d\nContent-Length: 1\x0d\n\x0d\nx"

/-- The world after the given steps of a server that listens on the given descriptors. It is only
computed where a concrete run is checked. -/
@[irreducible] def after (config : Config) (bindFds : List ℤ) (envs : List Answers) : World :=
  Exec.finalState (World.run config envs
    { server := Exec.finalState (Server.listen config.bindInfos bindFds Server.empty) })

/-- A run that throws nothing reaches its last state. -/
theorem reachable_after {bindFds : List ℤ} {envs : List Answers}
    (hlisten : Exec.thrown (Server.listen config.bindInfos bindFds Server.empty) = none)
    (hrun : Exec.thrown (World.run config envs
      { server := Exec.finalState (Server.listen config.bindInfos bindFds Server.empty) }) = none) :
    Reachable config (after config bindFds envs) := by
  unfold after
  exact (Reachable.start ⟨bindFds, _, Exec.eq_ok_of_thrown hlisten, rfl⟩).run
    (Exec.eq_ok_of_thrown hrun)

end World

end Webserv
