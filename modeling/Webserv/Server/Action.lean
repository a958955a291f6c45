import Mathlib.Logic.Relation
import Webserv.Server.Coherent

/-!
# The actions of the server

Whatever the server does to its state is a sequence of the actions listed here (`Action`), each with
what the code has checked before it. Every action keeps the server coherent (`Coherent.action`), so
the other invariants are shown for one action at a time.
-/

namespace Webserv

/-- What a sequence of actions is part of. -/
inductive Stage
  /-- The events of a descriptor, an exited child or a timeout. -/
  | handling
  /-- The call of `poll`, and looking at what it reported. -/
  | polling
  /-- `_shutDownServers`. -/
  | closing
  /-- The constructor. -/
  | opening

/-- Only events that were asked for. -/
def Events.Within (found asked : Events) : Prop :=
  (found.pollin = true → asked.pollin = true) ∧ (found.pollout = true → asked.pollout = true)

/-- The entry of a descriptor that is written to. -/
def Pollfd.withPollout (pfd : Pollfd) : Pollfd :=
  { pfd with events := { pfd.events with pollout := true } }

/-- The entry of a descriptor that is not read from any more. -/
def Pollfd.withoutPollin (pfd : Pollfd) : Pollfd :=
  { pfd with
    events := { pfd.events with pollin := false }
    revents := { pfd.revents with pollin := false } }

namespace Server

open IndexedVector History

/-! ## What the actions do -/

/-- What `_addFd` does. -/
def register (s : Server) (fd : ℤ) (fdType : FdType) (events : Events) : Server :=
  { s with
    fdToFdType := s.fdToFdType.emplace fd fdType
    fdToPfdIndex := s.fdToPfdIndex.emplace fd s.pfds.length
    pfds := s.pfds ++ [{ fd := fd, events := events }]
    calls := .addFd fd fdType :: s.calls }

/-- What `_addClientFd` does. -/
def connect (s : Server) (fd : ℤ) (i : ℕ) (fdType : FdType) (events : Events) : Server :=
  { s.register fd fdType events with fdToClientIndex := s.fdToClientIndex.emplace fd i }

/-- What taking a descriptor out of `_pfds` does. -/
def unregister (s : Server) (fd : ℤ) (k : ℕ) (last : Pollfd) : Server :=
  { s with
    pfds := (s.pfds.set k last).dropLast
    fdToPfdIndex := (s.fdToPfdIndex.insert last.fd k).erase fd }

/-- What closing an open descriptor does. -/
def closed (s : Server) (fd : ℤ) : Server :=
  { s with descriptors := s.descriptors.erase fd, calls := .close fd true :: s.calls }

/-- What `_removeFd` does to a descriptor at an index of `_pfds`. -/
def dropped (s : Server) (fd : ℤ) (k : ℕ) (last : Pollfd) : Server :=
  { (s.unregister fd k last).closed fd with fdToFdType := s.fdToFdType.erase fd }

/-- Point what a client holds to a slot. -/
def repoint (index : Map ℤ ℕ) (c : Client) (i : ℕ) : Map ℤ ℕ :=
  ((index.insert c.clientFd i).insert c.serverToCgiFd i).insert c.cgiToServerFd i

/-- A descriptor that is open and not polled. -/
def Spare (s : Server) (fd : ℤ) (fdType : FdType) : Prop :=
  s.descriptors.lookup fd = some fdType ∧ fd ∉ s.fdToPfdIndex

/-- The calls of a read: it may dispatch the request, and it may fail. -/
def readCalls (fd : ℤ) (c : Client) (received : Bytes) (dispatched : Option Client)
    (failed : Bool) : List Call :=
  (if failed then [.respondClientException fd] else []) ++
    (dispatched.toList.map Call.dispatch ++ [.read fd c received])

/-- The calls at the end of the output of a CGI, for the client as it is then. -/
def hangUpCalls (c : Client) : List Call :=
  if c.cgiPid = -1 then [.cgiEnd c, .hangUp c] else [.hangUp c]

/-- The calls when a child is reaped, for its client as it is then. -/
def reapCalls (c : Client) (pid : ℤ) (errno : Option Errno) : List Call :=
  (if c.beingRemoved = false ∧ c.cgiToServerState = .done then [.cgiEnd c] else []) ++
    [.waitpid pid errno]

/-- A change of one client, and the calls that come with it. -/
inductive Change (calls : List Call) (c : Client) : List Call → Client → Prop
  | note (c' : Client) (h : c'.untracked = c.untracked) : Change calls c [] c'
  /-- The client gets bytes from its connection. -/
  | read (c' : Client) (received : Bytes) (dispatched : Option Client) (failed : Bool)
    (hkept : c.Kept c')
    (hdispatched : ∀ d ∈ dispatched, d.clientFd = c.clientFd ∧ d.response = c.response ∧
      c'.clientToServerState = .done)
    (hparsing : failed = false → ∃ c₁, Client.appendReadString received c = .ok () c₁ ∧
      c'.parsing = c₁.parsing) :
    Change calls c (readCalls c.clientFd c received dispatched failed) c'
  /-- The client gets bytes from its CGI. -/
  | readCgi (received : Bytes) (hreading : c.cgiToServerState = .reading) :
    Change calls c [.readCgi c received] { c with response := c.response ++ received }
  | kill (hpid : c.cgiPid ≠ -1) (hremoved : NoLateRead calls → c.beingRemoved = true) :
    Change calls c [] { c with cgiKilled := true }
  /-- The removal of the client is requested; what was sent to it may not be noted yet. -/
  | remove (d : Client) (hfd : d.clientFd = c.clientFd) (hkilled : d.cgiKilled = c.cgiKilled)
    (hpid : d.cgiPid = c.cgiPid) :
    Change calls c [.removeClient d] { c with beingRemoved := true }
  /-- The rest of the request is given up. -/
  | giveUp (hgiven : GivenUp c.clientFd calls) :
    Change calls c [] { c with clientToServerState := .done }
  /-- Some of the body was written to the CGI. -/
  | writeBody (bodyIndex : ℕ) (hdone : c.clientToServerState = .done)
    (hleft : c.serverToCgiFd ≠ -1 → bodyIndex < c.body.length) :
    Change calls c [] { c with bodyIndex := bodyIndex }
  /-- Some of the response was written to the client. -/
  | writeResponse (responseIndex : ℕ) (hwriting : c.serverToClientState = .writing)
    (hleft : NoLateRead calls → NoEarlyRemoval calls → responseIndex < c.response.length) :
    Change calls c [] { c with responseIndex := responseIndex }

variable (config : Config) (stage : Stage)

/-- What the server does to its state. -/
inductive Action (s : Server) : Server → Prop
  /-- The kernel opens what is not polled, and `errno` changes. -/
  | kernel (descriptors : Map ℤ FdType) (errno : Option Errno)
    (hopen : ∀ fd ∈ s.fdToPfdIndex, descriptors.lookup fd = s.descriptors.lookup fd)
    (hnonneg : ∀ fd ∈ descriptors, 0 ≤ fd) : Action s { s with descriptors, errno }
  /-- What is not polled is closed. -/
  | close (fd : ℤ) (hfd : fd ∉ s.fdToPfdIndex) : Action s (s.closed fd)
  /-- `poll` reports events. -/
  | polled (revents : Pollfd → Events) (hstage : stage = .polling)
    (h : ∀ pfd, (revents pfd).Within pfd.events) :
    Action s { s with pfds := s.pfds.map fun pfd => { pfd with revents := revents pfd } }
  /-- A call is logged; that events are handled is logged when they are looked at. -/
  | log (call : Call) (h : call.Neutral) (hstage : call.isHandle = true → stage = .polling) :
    Action s { s with calls := call :: s.calls }
  | change (i : ℕ) (c c' : Client) (new : List Call) (hi : s.clients[i]? = some c)
    (h : Change s.calls c new c') :
    Action s { s with clients := s.clients.set i c', calls := new ++ s.calls }
  /-- A client is not read from any more. -/
  | stopReading (i : ℕ) (c : Client) (k : ℕ) (pfd : Pollfd) (hi : s.clients[i]? = some c)
    (hk : s.fdToPfdIndex.lookup c.clientFd = some k) (hpfd : s.pfds[k]? = some pfd)
    (hgiven : GivenUp c.clientFd s.calls) :
    Action s { s with
      pfds := s.pfds.set k pfd.withoutPollin
      clients := s.clients.set i { c with clientToServerState := .done } }
  /-- The response of a client is complete, and is sent. -/
  | answer (i : ℕ) (c c' : Client) (k : ℕ) (pfd : Pollfd) (hi : s.clients[i]? = some c)
    (hk : s.fdToPfdIndex.lookup c.clientFd = some k) (hpfd : s.pfds[k]? = some pfd)
    (hdone : c.clientToServerState = .done)
    (hsame : c'.unsent = Client.unsent { c with serverToClientState := .writing })
    (hindex : c'.responseIndex = c.responseIndex ∨ c'.responseIndex = 0)
    (hresponse : c'.response ≠ []) (hidle : NoLateRead s.calls → c.NoCgi)
    (hfirst : NoLateRead s.calls → NoEarlyRemoval s.calls → c.serverToClientState ≠ .writing) :
    Action s { s with
      pfds := s.pfds.set k pfd.withPollout
      clients := s.clients.set i c' }
  /-- A CGI is started for a client. -/
  | start (i : ℕ) (c : Client) (pid : ℤ) (toCgi : Option ℤ) (fromCgi : ℤ)
    (hi : s.clients[i]? = some c) (hpid : 0 < pid) (hnew : pid ∉ s.children)
    (hdone : c.clientToServerState = .done)
    (hnone : toCgi = none ↔ c.serverToCgiState = .done)
    (hto : ∀ fd ∈ toCgi, s.Spare fd .serverToCgi) (hfrom : s.Spare fromCgi .cgiToServer)
    (hne : fromCgi ∉ toCgi)
    (hfirst : NoLateRead s.calls → c.Fresh) :
    Action s { (toCgi.elim s fun fd => s.connect fd i .serverToCgi { pollout := true }).connect
        fromCgi i .cgiToServer { pollin := true } with
      clients := s.clients.set i (c.started pid toCgi fromCgi)
      cgiPidToClientFd := s.cgiPidToClientFd.emplace pid c.clientFd
      children := insert pid s.children
      unreapedCgiCount := s.unreapedCgiCount + 1
      calls := .startCgi pid c :: .addFd fromCgi .cgiToServer ::
        (toCgi.toList.map fun fd => Call.addFd fd .serverToCgi) ++ s.calls }
  /-- A pipe of a client is closed; this may be the end of the output of its CGI. -/
  | release (i : ℕ) (c : Client) (fdType : FdType) (k : ℕ) (last : Pollfd) (new : List Call)
    (hi : s.clients[i]? = some c) (hpipe : fdType.IsPipe) (hfd : c.fdOf fdType ≠ -1)
    (hk : s.fdToPfdIndex.lookup (c.fdOf fdType) = some k) (hlast : s.pfds.getLast? = some last)
    (hnew : (new = [] ∧
        (fdType = .cgiToServer → c.cgiKilled = true ∨ c.beingRemoved = true)) ∨
      (fdType = .cgiToServer ∧ new = hangUpCalls (c.release fdType))) :
    Action s { s.dropped (c.fdOf fdType) k last with
      clients := s.clients.set i (c.release fdType)
      fdToClientIndex := s.fdToClientIndex.erase (c.fdOf fdType)
      calls := new ++ .close (c.fdOf fdType) true :: s.calls }
  /-- The end of the output of a CGI whose client was removed too early. -/
  | orphan (i : ℕ) (c d : Client) (fd : ℤ) (hi : s.clients[i]? = some c)
    (hfd : s.Polls fd .cgiToServer) (hnone : c.cgiToServerFd = -1)
    (hindex : s.fdToClientIndex.lookup fd = some i) :
    Action s { s with calls := hangUpCalls d ++ s.calls }
  /-- A child is reaped that is not looked up. -/
  | wait (pid count : ℤ) (hpid : pid ∈ s.children)
    (hcount : (s.errno = some .echild ∧ count = s.unreapedCgiCount) ∨
      (pid ∉ s.cgiPidToClientFd ∧ count = s.unreapedCgiCount - 1)) :
    Action s { s with
      children := s.children.erase pid
      unreapedCgiCount := count
      calls := .waitpid pid s.errno :: s.calls }
  /-- A child is reaped that has an entry in `_cgi_pid_to_client_fd`. -/
  | reap (i : ℕ) (c : Client) (pid clientFd status : ℤ) (hi : s.clients[i]? = some c)
    (hchild : pid ∈ s.children) (herrno : s.errno ≠ some .echild)
    (hpid : s.cgiPidToClientFd.lookup pid = some clientFd)
    (hindex : s.fdToClientIndex.lookup clientFd = some i) (hdone : c.clientToServerState = .done)
    (hwritten : c.serverToCgiState = .done) (hread : c.cgiToServerState ≠ .notReading)
    (hidle : c.serverToClientState = .notWriting) :
    Action s { s with
      clients := s.clients.set i { c with cgiPid := -1, cgiExitStatus := status }
      cgiPidToClientFd := s.cgiPidToClientFd.erase c.cgiPid
      children := s.children.erase pid
      unreapedCgiCount := s.unreapedCgiCount - 1
      calls := reapCalls { c with cgiPid := -1, cgiExitStatus := status } pid s.errno ++ s.calls }
  /-- A connection is accepted. -/
  | accept (fd serverFd : ℤ) (serverPort : Bytes) (hopen : s.CanOpen fd)
    (hport : s.bindFdToPort.lookup serverFd = some serverPort) :
    Action s { s.connect fd s.clients.length .client { pollin := true } with
      descriptors := s.descriptors.insert fd FdType.client
      clients := s.clients ++ [Client.new fd serverFd serverPort config.clientMaxBodySize]
      calls := .acceptClient fd :: .addFd fd .client :: s.calls }
  /-- A client is taken out of `_clients`: the last one is assigned to its slot. -/
  | erase (i : ℕ) (c last this src : Client) (k : ℕ) (lastPfd : Pollfd)
    (hi : s.clients[i]? = some c) (hlast : s.clients.getLast? = some last)
    (hthis : this.chunkedReadState = c.chunkedReadState ∧ this.cgiPid = c.cgiPid)
    (hsrc : i + 1 ≠ s.clients.length → src = last)
    (hk : s.fdToPfdIndex.lookup c.clientFd = some k) (hlastPfd : s.pfds.getLast? = some lastPfd)
    (hpipe : c.cgiToServerFd = -1) (hremoved : c.beingRemoved = true)
    (hreaped : NoEarlyRemoval s.calls → c.cgiPid = -1) :
    Action s { s.dropped c.clientFd k lastPfd with
      clients := (s.clients.set i (c.assign last)).dropLast
      fdToClientIndex := (repoint s.fdToClientIndex last i).erase c.clientFd
      calls := .assign this src :: .close c.clientFd true :: s.calls }
  /-- A listening socket is opened. -/
  | listen (fd : ℤ) (bindFdToServerIndices : Map ℤ (List ℕ)) (bindFdToPort : Map ℤ Bytes)
    (hopen : s.CanOpen fd) (hstage : stage = .opening) :
    Action s { s.register fd .server { pollin := true } with
      bindFdToServerIndices, bindFdToPort
      descriptors := s.descriptors.insert fd FdType.server }
  /-- A listening socket is closed. -/
  | shutDown (fd : ℤ) (k : ℕ) (last : Pollfd) (hstage : stage = .closing)
    (hk : s.fdToPfdIndex.lookup fd = some k) (hlast : s.pfds.getLast? = some last)
    (hkind : s.descriptors.lookup fd = some .server) : Action s ((s.unregister fd k last).closed fd)

/-- A sequence of actions. -/
abbrev Actions : Server → Server → Prop := Relation.ReflTransGen (Action config stage)

variable {config stage} {s s' : Server}

/-! ## The tables -/

theorem mem_emplace {κ ν : Type} [DecidableEq κ] {m : Map κ ν} {k k' : κ} {v : ν} :
    k' ∈ m.emplace k v ↔ k' = k ∨ k' ∈ m := by
  unfold Map.emplace
  split_ifs with hk
  · exact ⟨.inr, fun h => h.elim (fun heq => heq ▸ hk) id⟩
  · exact Finmap.mem_insert

theorem polls_register {fd fd' : ℤ} {fdType fdType' : FdType} {events : Events} :
    (s.register fd fdType events).Polls fd' fdType' ↔
      (fd' = fd ∨ fd' ∈ s.fdToPfdIndex) ∧ s.descriptors.lookup fd' = some fdType' :=
  and_congr_left' mem_emplace

theorem Tables.register (h : s.Tables) {fd : ℤ} {fdType : FdType} (hnew : fd ∉ s.fdToPfdIndex)
    (hopen : s.descriptors.lookup fd = some fdType) (events : Events) :
    (s.register fd fdType events).Tables where
  indexed := by
    have hkey : fd ∉ s.pfds.map Pollfd.fd := fun hmem => hnew ((h.indexed.mem_iff fd).2 hmem)
    have hpush := h.indexed.push hkey
    rw [List.length_map] at hpush
    simpa only [Server.register, List.map_append, List.map_cons, List.map_nil,
      Map.emplace_of_notMem hnew] using hpush
  opened fd' hfd' := by
    rcases mem_emplace.1 hfd' with rfl | hmem
    · exact ⟨fdType, hopen, registeredAs_addFd fdType⟩
    · have hne : fd ≠ fd' := fun heq => hnew (heq ▸ hmem)
      obtain ⟨fdType', hlookup, hregistered⟩ := h.opened fd' hmem
      have hcons : registeredAs fd' (.addFd fd fdType :: s.calls) = registeredAs fd' s.calls :=
        registeredAs_cons (if_neg hne)
      exact ⟨fdType', hlookup, hcons.trans hregistered⟩
  nonneg := h.nonneg
  typed fd' fdType' hlookup hne := by
    rw [polls_register]
    by_cases hmem : fd ∈ s.fdToFdType
    · -- an entry that was there stays, and is one that `_shutDownServers` left behind
      have hlookup' : s.fdToFdType.lookup fd' = some fdType' :=
        Map.emplace_of_mem hmem fdType ▸ hlookup
      obtain ⟨hpolled, hkind⟩ := h.typed fd' fdType' hlookup' hne
      exact ⟨.inr hpolled, hkind⟩
    · have hlookup' : (s.fdToFdType.insert fd fdType).lookup fd' = some fdType' :=
        Map.emplace_of_notMem hmem fdType ▸ hlookup
      rw [Map.lookup_insert_eq] at hlookup'
      split_ifs at hlookup' with heq
      · subst heq
        exact ⟨.inl rfl, hopen.trans hlookup'⟩
      · obtain ⟨hpolled, hkind⟩ := h.typed fd' fdType' hlookup' hne
        exact ⟨.inr hpolled, hkind⟩

theorem Tables.mem_unregister (h : s.Tables) {fd fd' : ℤ} {k : ℕ} {last : Pollfd}
    (hlast : s.pfds.getLast? = some last) :
    fd' ∈ (s.unregister fd k last).fdToPfdIndex ↔ fd' ≠ fd ∧ fd' ∈ s.fdToPfdIndex := by
  have hmem : last.fd ∈ s.fdToPfdIndex :=
    (h.indexed.mem_iff last.fd).2 (List.mem_map_of_mem (List.mem_of_getLast? hlast))
  change fd' ∈ (s.fdToPfdIndex.insert last.fd k).erase fd ↔ _
  rw [Finmap.mem_erase, Finmap.mem_insert]
  exact and_congr_right fun _ => ⟨fun h' => h'.elim (fun heq => heq ▸ hmem) id, .inr⟩

/-- What is polled once a descriptor was taken out and closed. -/
theorem Tables.polls_closed (h : s.Tables) {fd fd' : ℤ} {k : ℕ} {last : Pollfd} {fdType : FdType}
    (hlast : s.pfds.getLast? = some last) :
    ((s.unregister fd k last).closed fd).Polls fd' fdType ↔ fd' ≠ fd ∧ s.Polls fd' fdType := by
  change fd' ∈ (s.unregister fd k last).fdToPfdIndex ∧
    (s.descriptors.erase fd).lookup fd' = some fdType ↔ _
  rw [h.mem_unregister hlast, Map.lookup_erase_eq]
  constructor
  · rintro ⟨⟨hne, hmem⟩, hlookup⟩
    rw [if_neg hne] at hlookup
    exact ⟨hne, hmem, hlookup⟩
  · rintro ⟨hne, hmem, hlookup⟩
    rw [if_neg hne]
    exact ⟨⟨hne, hmem⟩, hlookup⟩

/-- Taking a descriptor out and closing it, when `_fd_to_fd_type` does not know it as anything but a
listening socket any more. -/
theorem Tables.closed (h : s.Tables) {fd : ℤ} {k : ℕ} {last : Pollfd}
    (hk : s.fdToPfdIndex.lookup fd = some k) (hlast : s.pfds.getLast? = some last)
    (hs' : s'.pfds = (s.unregister fd k last).pfds)
    (hindex : s'.fdToPfdIndex = (s.unregister fd k last).fdToPfdIndex)
    (hopen : s'.descriptors = s.descriptors.erase fd)
    (hcalls : ∀ fd', registeredAs fd' s'.calls = registeredAs fd' s.calls)
    (htype : ∀ fd' fdType, s'.fdToFdType.lookup fd' = some fdType → fdType ≠ .server →
      fd' ≠ fd ∧ s.fdToFdType.lookup fd' = some fdType) : s'.Tables where
  indexed := by
    have hkey : (s.pfds.map Pollfd.fd)[k]? = some fd := (h.indexed fd k).1 hk
    have hend : (s.pfds.map Pollfd.fd).getLast? = some last.fd := by
      rw [List.getLast?_map, hlast]
      rfl
    have hremove := h.indexed.swapRemove hkey hend
    rw [hs', hindex]
    simpa only [unregister, List.map_dropLast, List.map_set] using hremove
  opened fd' hfd' := by
    rw [hindex, h.mem_unregister hlast] at hfd'
    rw [hopen, hcalls, Map.lookup_erase_eq, if_neg hfd'.1]
    exact h.opened fd' hfd'.2
  nonneg fd' hfd' := by
    rw [hopen, Finmap.mem_erase] at hfd'
    exact h.nonneg fd' hfd'.2
  typed fd' fdType hlookup hne := by
    obtain ⟨hfd', hlookup'⟩ := htype fd' fdType hlookup hne
    obtain ⟨hpolled, hkind⟩ := h.typed fd' fdType hlookup' hne
    refine ⟨hindex ▸ (h.mem_unregister hlast).2 ⟨hfd', hpolled⟩, ?_⟩
    rw [hopen, Map.lookup_erase_eq, if_neg hfd']
    exact hkind

/-! ## Coherence, action by action -/

theorem Coherent.attach (h : s.Coherent) {i : ℕ} {c : Client} {fd : ℤ} {fdType : FdType}
    (events : Events) (hi : s.clients[i]? = some c) (hpipe : fdType.IsPipe)
    (hspare : s.Spare fd fdType) :
    Coherent { s.connect fd i fdType events with
      clients := s.clients.set i (c.attach fd fdType) } := by
  obtain ⟨hopen, hnew⟩ := hspare
  have hne : fd ≠ -1 := by
    have := h.nonneg fd (Map.mem_of_lookup hopen)
    omega
  have htables := h.toTables.register hnew hopen events
  have hlookup : ∀ fd', (s.fdToClientIndex.emplace fd i).lookup fd' =
      if fd' = fd then some i else s.fdToClientIndex.lookup fd' := by
    intro fd'
    rw [Map.emplace_of_notMem (h.notMem_fdToClientIndex hnew hne), Map.lookup_insert_eq]
  -- what was polled before is not the new descriptor
  have hold : ∀ {fd' : ℤ} {fdType' : FdType} {j : ℕ},
      s.Polls fd' fdType' ∧ s.fdToClientIndex.lookup fd' = some j →
      (s.register fd fdType events).Polls fd' fdType' ∧
        (s.fdToClientIndex.emplace fd i).lookup fd' = some j := by
    rintro fd' fdType' j ⟨hpolls, hindex⟩
    have hfd' : fd' ≠ fd := fun heq => hnew (heq ▸ hpolls.1)
    exact ⟨polls_register.2 ⟨.inr hpolls.1, hpolls.2⟩,
      (hlookup fd').trans ((if_neg hfd').trans hindex)⟩
  have hclientFds : (s.clients.set i (c.attach fd fdType)).map Client.clientFd =
      s.clients.map Client.clientFd := by
    refine map_set_of_eq hi ?_
    rcases hpipe with rfl | rfl <;> rfl
  refine { indexed := htables.indexed, opened := htables.opened, nonneg := htables.nonneg
           typed := htables.typed, keyed := ?_, held := ?_, connected := ?_, owned := ?_ }
  · intro fd' hfd'
    rcases mem_emplace.1 hfd' with rfl | hmem
    · refine .inr ⟨fdType, ?_, mem_emplace.2 (.inl rfl), hopen⟩
      rcases hpipe with rfl | rfl <;> decide
    · exact (h.keyed fd' hmem).imp_right fun ⟨fdType', hserver, hpolls⟩ =>
        ⟨fdType', hserver, mem_emplace.2 (.inr hpolls.1), hpolls.2⟩
  · intro j d fdType' hj hfd
    rcases getElem?_set_cases hj with ⟨rfl, rfl⟩ | ⟨-, hj⟩
    · by_cases heq : fdType' = fdType
      · subst heq
        rw [Client.fdOf_attach hpipe, if_pos rfl]
        exact ⟨⟨mem_emplace.2 (.inl rfl), hopen⟩, (hlookup fd).trans (if_pos rfl)⟩
      · rw [Client.fdOf_attach hpipe, if_neg heq] at hfd ⊢
        exact hold (h.held j c fdType' hi hfd)
    · exact hold (h.held j d fdType' hj hfd)
  · rw [hclientFds]
    exact h.connected
  · rintro fd' ⟨hmem, hkind⟩
    rw [hclientFds]
    rcases mem_emplace.1 hmem with rfl | hmem
    · cases hopen.symm.trans hkind
      rcases hpipe with hpipe | hpipe <;> cases hpipe
    · exact h.owned fd' ⟨hmem, hkind⟩

theorem registeredAs_close (fd fd' : ℤ) (isOpen : Bool) (calls : List Call) :
    registeredAs fd' (.close fd isOpen :: calls) = registeredAs fd' calls :=
  registeredAs_cons rfl

theorem Coherent.release (h : s.Coherent) {i : ℕ} {c : Client} {fdType : FdType} {k : ℕ}
    {last : Pollfd} {calls : List Call} (hi : s.clients[i]? = some c) (hpipe : fdType.IsPipe)
    (hk : s.fdToPfdIndex.lookup (c.fdOf fdType) = some k)
    (hlast : s.pfds.getLast? = some last)
    (hcalls : ∀ fd, registeredAs fd calls = registeredAs fd s.calls) :
    Coherent { s.dropped (c.fdOf fdType) k last with
      clients := s.clients.set i (c.release fdType)
      fdToClientIndex := s.fdToClientIndex.erase (c.fdOf fdType)
      calls := calls } := by
  set fd := c.fdOf fdType with hfdType
  have htables : Tables { s.dropped fd k last with
      clients := s.clients.set i (c.release fdType)
      fdToClientIndex := s.fdToClientIndex.erase fd
      calls := calls } := by
    refine h.toTables.closed hk hlast rfl rfl rfl hcalls ?_
    intro fd' fdType' hlookup _
    change (s.fdToFdType.erase fd).lookup fd' = some fdType' at hlookup
    rw [Map.lookup_erase_eq] at hlookup
    split_ifs at hlookup with heq
    exact ⟨heq, hlookup⟩
  -- what another client holds, or the same one as something else, stays
  have hold : ∀ {fd' : ℤ} {fdType' : FdType} {j : ℕ}, fd' ≠ fd →
      s.Polls fd' fdType' ∧ s.fdToClientIndex.lookup fd' = some j →
      ((s.unregister fd k last).closed fd).Polls fd' fdType' ∧
        (s.fdToClientIndex.erase fd).lookup fd' = some j := by
    rintro fd' fdType' j hne ⟨hpolls, hindex⟩
    rw [Map.lookup_erase_eq, if_neg hne]
    exact ⟨(h.polls_closed hlast).2 ⟨hne, hpolls⟩, hindex⟩
  have hclientFds : (s.clients.set i (c.release fdType)).map Client.clientFd =
      s.clients.map Client.clientFd := by
    refine map_set_of_eq hi ?_
    rcases hpipe with rfl | rfl <;> rfl
  refine { htables with keyed := ?_, held := ?_, connected := ?_, owned := ?_ }
  · intro fd' hfd'
    obtain ⟨hne, hmem⟩ := Finmap.mem_erase.1 hfd'
    exact (h.keyed fd' hmem).imp_right fun ⟨fdType', hserver, hpolls⟩ =>
      ⟨fdType', hserver, (h.polls_closed hlast).2 ⟨hne, hpolls⟩⟩
  · intro j d fdType' hj hfd'
    rcases getElem?_set_cases hj with ⟨rfl, rfl⟩ | ⟨hji, hj⟩
    · by_cases heq : fdType' = fdType
      · rw [Client.fdOf_release hpipe, if_pos heq] at hfd'
        exact absurd rfl hfd'
      · rw [Client.fdOf_release hpipe, if_neg heq] at hfd' ⊢
        exact hold (fun hsame => heq (h.unique hi hi hsame hfd').2) (h.held j c fdType' hi hfd')
    · exact hold (fun hsame => hji (h.unique hj hi hsame hfd').1) (h.held j d fdType' hj hfd')
  · rw [hclientFds]
    exact h.connected
  · intro fd' hfd'
    rw [hclientFds]
    exact h.owned fd' ((h.polls_closed hlast).1 hfd').2

/-- Opening a descriptor does not change what is polled. -/
theorem Tables.open (h : s.Tables) {fd : ℤ} (hopen : s.CanOpen fd) (fdType : FdType) :
    Tables { s with descriptors := s.descriptors.insert fd fdType } := by
  refine h.congr rfl rfl rfl (fun fd' hfd' => ?_) (fun fd' hfd' => ?_) fun _ => rfl
  · have hne : fd' ≠ fd := fun heq => h.notMem_of_canOpen hopen (heq ▸ hfd')
    exact Finmap.lookup_insert_of_ne _ hne
  · rcases Finmap.mem_insert.1 hfd' with rfl | hmem
    · exact hopen.1
    · exact h.nonneg fd' hmem

theorem Coherent.listen (h : s.Coherent) {fd : ℤ} (events : Events)
    (bindFdToServerIndices : Map ℤ (List ℕ)) (bindFdToPort : Map ℤ Bytes) (hopen : s.CanOpen fd) :
    Coherent { s.register fd .server events with
      bindFdToServerIndices, bindFdToPort
      descriptors := s.descriptors.insert fd FdType.server } := by
  have hnew := h.notMem_of_canOpen hopen
  have htables := (h.toTables.open hopen .server).register hnew (Finmap.lookup_insert _) events
  have hne : ∀ {fd'}, fd' ∈ s.fdToPfdIndex → fd' ≠ fd := fun hmem heq => hnew (heq ▸ hmem)
  have hold : ∀ {fd' : ℤ} {fdType : FdType}, s.Polls fd' fdType →
      fd' ∈ s.fdToPfdIndex.emplace fd s.pfds.length ∧
        (s.descriptors.insert fd FdType.server).lookup fd' = some fdType := fun hpolls =>
    ⟨mem_emplace.2 (.inr hpolls.1),
      (Finmap.lookup_insert_of_ne _ (hne hpolls.1)).trans hpolls.2⟩
  refine { indexed := htables.indexed, opened := htables.opened, nonneg := htables.nonneg
           typed := htables.typed, keyed := ?_, held := ?_, connected := h.connected
           owned := ?_ }
  · intro fd' hfd'
    exact (h.keyed fd' hfd').imp_right fun ⟨fdType, hserver, hpolls⟩ =>
      ⟨fdType, hserver, hold hpolls⟩
  · intro j d fdType hj hfd
    obtain ⟨hpolls, hindex⟩ := h.held j d fdType hj hfd
    exact ⟨hold hpolls, hindex⟩
  · rintro fd' ⟨hmem, hkind⟩
    rcases mem_emplace.1 hmem with rfl | hmem
    · cases (Finmap.lookup_insert _).symm.trans hkind
    · exact h.owned fd' ⟨hmem, (Finmap.lookup_insert_of_ne _ (hne hmem)).symm.trans hkind⟩

theorem Coherent.accept (h : s.Coherent) {fd : ℤ} (serverFd : ℤ) (serverPort : Bytes)
    (maxBodySize : ℕ) (events : Events) (hopen : s.CanOpen fd) :
    Coherent { s.connect fd s.clients.length .client events with
      descriptors := s.descriptors.insert fd FdType.client
      clients := s.clients ++ [Client.new fd serverFd serverPort maxBodySize]
      calls := .acceptClient fd :: .addFd fd .client :: s.calls } := by
  have hnew := h.notMem_of_canOpen hopen
  have hfd : fd ≠ -1 := by
    have := hopen.1
    omega
  have htables := (h.toTables.open hopen .client).register hnew (Finmap.lookup_insert _) events
  have hne : ∀ {fd'}, fd' ∈ s.fdToPfdIndex → fd' ≠ fd := fun hmem heq => hnew (heq ▸ hmem)
  have hold : ∀ {fd' : ℤ} {fdType : FdType}, s.Polls fd' fdType →
      fd' ∈ s.fdToPfdIndex.emplace fd s.pfds.length ∧
        (s.descriptors.insert fd FdType.client).lookup fd' = some fdType := fun hpolls =>
    ⟨mem_emplace.2 (.inr hpolls.1),
      (Finmap.lookup_insert_of_ne _ (hne hpolls.1)).trans hpolls.2⟩
  have hlookup : ∀ fd', (s.fdToClientIndex.emplace fd s.clients.length).lookup fd' =
      if fd' = fd then some s.clients.length else s.fdToClientIndex.lookup fd' := by
    intro fd'
    rw [Map.emplace_of_notMem (h.notMem_fdToClientIndex hnew hfd), Map.lookup_insert_eq]
  have hclientFds : (s.clients ++ [Client.new fd serverFd serverPort maxBodySize]).map
      Client.clientFd = s.clients.map Client.clientFd ++ [fd] := by
    rw [List.map_append]
    rfl
  refine { indexed := htables.indexed, opened := ?_, nonneg := htables.nonneg
           typed := htables.typed, keyed := ?_, held := ?_, connected := ?_, owned := ?_ }
  · intro fd' hfd'
    obtain ⟨fdType, hkind, hregistered⟩ := htables.opened fd' hfd'
    exact ⟨fdType, hkind, (registeredAs_cons rfl).trans hregistered⟩
  · intro fd' hfd'
    rcases mem_emplace.1 hfd' with rfl | hmem
    · exact .inr ⟨.client, by decide, mem_emplace.2 (.inl rfl), Finmap.lookup_insert _⟩
    · exact (h.keyed fd' hmem).imp_right fun ⟨fdType, hserver, hpolls⟩ =>
        ⟨fdType, hserver, hold hpolls⟩
  · intro j d fdType hj hheld
    rcases Nat.lt_or_ge j s.clients.length with hlt | hge
    · rw [List.getElem?_append_left hlt] at hj
      obtain ⟨hpolls, hindex⟩ := h.held j d fdType hj hheld
      exact ⟨hold hpolls, (hlookup _).trans ((if_neg (hne hpolls.1)).trans hindex)⟩
    · rw [List.getElem?_append_right hge, List.getElem?_singleton] at hj
      split_ifs at hj with hzero
      obtain rfl : j = s.clients.length := by omega
      cases hj
      cases fdType with
      | client =>
        exact ⟨⟨mem_emplace.2 (.inl rfl), Finmap.lookup_insert _⟩, (hlookup fd).trans (if_pos rfl)⟩
      | server => exact absurd rfl hheld
      | serverToCgi => exact absurd rfl hheld
      | cgiToServer => exact absurd rfl hheld
  · rw [hclientFds, List.mem_append, List.mem_singleton]
    exact fun hmem => hmem.elim h.connected hfd.symm
  · rintro fd' ⟨hmem, hkind⟩
    rw [hclientFds, List.mem_append, List.mem_singleton]
    rcases mem_emplace.1 hmem with rfl | hmem
    · exact .inr rfl
    · exact .inl (h.owned fd' ⟨hmem, (Finmap.lookup_insert_of_ne _ (hne hmem)).symm.trans hkind⟩)

theorem Coherent.shutDown (h : s.Coherent) {fd : ℤ} {k : ℕ} {last : Pollfd}
    (hk : s.fdToPfdIndex.lookup fd = some k) (hlast : s.pfds.getLast? = some last)
    (hkind : s.descriptors.lookup fd = some .server) :
    ((s.unregister fd k last).closed fd).Coherent := by
  have hne : ∀ {fd' : ℤ} {fdType : FdType}, fdType ≠ .server → s.Polls fd' fdType → fd' ≠ fd := by
    rintro fd' fdType htype hpolls rfl
    exact htype (Option.some.inj (hpolls.2.symm.trans hkind))
  have hserver : ∀ {c : Client} {fdType : FdType}, c.fdOf fdType ≠ -1 → fdType ≠ .server := by
    rintro c fdType hfd rfl
    exact hfd rfl
  have htables : ((s.unregister fd k last).closed fd).Tables := by
    refine h.toTables.closed hk hlast rfl rfl rfl (fun fd' => registeredAs_close fd fd' true _) ?_
    intro fd' fdType hlookup htype
    exact ⟨hne htype (h.typed fd' fdType hlookup htype), hlookup⟩
  refine { htables with
    keyed := ?_, held := ?_, connected := h.connected, owned := ?_ }
  · intro fd' hfd'
    exact (h.keyed fd' hfd').imp_right fun ⟨fdType, hserver', hpolls⟩ =>
      ⟨fdType, hserver', (h.polls_closed hlast).2 ⟨hne hserver' hpolls, hpolls⟩⟩
  · intro j d fdType hj hfd
    obtain ⟨hpolls, hindex⟩ := h.held j d fdType hj hfd
    exact ⟨(h.polls_closed hlast).2 ⟨hne (hserver hfd) hpolls, hpolls⟩, hindex⟩
  · intro fd' hfd'
    exact h.owned fd' ((h.polls_closed hlast).1 hfd').2

theorem lookup_repoint_held {index : Map ℤ ℕ} {c : Client} {i : ℕ} {fdType : FdType}
    (hserver : fdType ≠ .server) : (repoint index c i).lookup (c.fdOf fdType) = some i := by
  simp only [repoint, Map.lookup_insert_eq]
  cases fdType with
  | server => exact absurd rfl hserver
  | client => simp [Client.fdOf]
  | serverToCgi => simp [Client.fdOf]
  | cgiToServer => simp [Client.fdOf]

theorem lookup_repoint_of_ne {index : Map ℤ ℕ} {c : Client} {i : ℕ} {fd : ℤ}
    (hne : ∀ fdType, fdType ≠ .server → fd ≠ c.fdOf fdType) :
    (repoint index c i).lookup fd = index.lookup fd := by
  have hclient : fd ≠ c.clientFd := hne .client (by decide)
  have hto : fd ≠ c.serverToCgiFd := hne .serverToCgi (by decide)
  have hfrom : fd ≠ c.cgiToServerFd := hne .cgiToServer (by decide)
  simp only [repoint, Map.lookup_insert_eq, if_neg hclient, if_neg hto, if_neg hfrom]

theorem fdOf_assign (c src : Client) (fdType : FdType) :
    (c.assign src).fdOf fdType = src.fdOf fdType := by
  cases fdType <;> rfl

theorem Coherent.erase (h : s.Coherent) {i : ℕ} {c last : Client} {k : ℕ} {lastPfd : Pollfd}
    (this src : Client) (hi : s.clients[i]? = some c) (hlast : s.clients.getLast? = some last)
    (hk : s.fdToPfdIndex.lookup c.clientFd = some k) (hlastPfd : s.pfds.getLast? = some lastPfd) :
    Coherent { s.dropped c.clientFd k lastPfd with
      clients := (s.clients.set i (c.assign last)).dropLast
      fdToClientIndex := (repoint s.fdToClientIndex last i).erase c.clientFd
      calls := .assign this src :: .close c.clientFd true :: s.calls } := by
  have hfd := h.clientFd_ne hi
  have hend : s.clients[s.clients.length - 1]? = some last := by
    rwa [← List.getLast?_eq_getElem?]
  have htables : Tables { s.dropped c.clientFd k lastPfd with
      clients := (s.clients.set i (c.assign last)).dropLast
      fdToClientIndex := (repoint s.fdToClientIndex last i).erase c.clientFd
      calls := .assign this src :: .close c.clientFd true :: s.calls } := by
    refine h.toTables.closed hk hlastPfd rfl rfl rfl (fun fd' => ?_) ?_
    · exact (registeredAs_cons rfl).trans (registeredAs_close c.clientFd fd' true _)
    · intro fd' fdType hlookup _
      change (s.fdToFdType.erase c.clientFd).lookup fd' = some fdType at hlookup
      rw [Map.lookup_erase_eq] at hlookup
      split_ifs at hlookup with heq
      exact ⟨heq, hlookup⟩
  -- the connection of the client is the only thing that goes
  have hpolls : ∀ {j : ℕ} {d : Client} {fdType : FdType}, s.clients[j]? = some d → j ≠ i →
      d.fdOf fdType ≠ -1 → d.fdOf fdType ≠ c.clientFd ∧
        ((s.unregister c.clientFd k lastPfd).closed c.clientFd).Polls (d.fdOf fdType) fdType := by
    intro j d fdType hj hji hne
    have hfdne : d.fdOf fdType ≠ c.fdOf .client := fun heq => hji (h.unique hj hi heq hne).1
    exact ⟨hfdne, (h.polls_closed hlastPfd).2 ⟨hfdne, (h.held j d fdType hj hne).1⟩⟩
  refine { htables with keyed := ?_, held := ?_, connected := ?_, owned := ?_ }
  · intro fd' hfd'
    obtain ⟨hne, hmem⟩ := Finmap.mem_erase.1 hfd'
    by_cases hheld : ∃ fdType, fdType ≠ FdType.server ∧ fd' = last.fdOf fdType
    · obtain ⟨fdType, hserver, rfl⟩ := hheld
      refine (em (last.fdOf fdType = -1)).imp_right fun hfd' => ⟨fdType, hserver, ?_⟩
      exact (h.polls_closed hlastPfd).2 ⟨hne, (h.held _ last fdType hend hfd').1⟩
    · have hmem' : fd' ∈ s.fdToClientIndex := by
        obtain ⟨j, hj⟩ := Finmap.mem_iff.1 hmem
        rw [lookup_repoint_of_ne fun fdType hserver heq => hheld ⟨fdType, hserver, heq⟩] at hj
        exact Map.mem_of_lookup hj
      exact (h.keyed fd' hmem').imp_right fun ⟨fdType, hserver, hpolls⟩ =>
        ⟨fdType, hserver, (h.polls_closed hlastPfd).2 ⟨hne, hpolls⟩⟩
  · intro j d fdType hj hne
    have hserver : fdType ≠ .server := by
      rintro rfl
      exact hne rfl
    rcases getElem?_dropLast_set_iff.1 hj with ⟨rfl, hlt, rfl⟩ | ⟨hji, hlt, hj⟩
    · rw [fdOf_assign] at hne ⊢
      obtain ⟨hfdne, hpolled⟩ := hpolls hend (by omega) hne
      refine ⟨hpolled, ?_⟩
      exact (Finmap.lookup_erase_ne hfdne).trans (lookup_repoint_held hserver)
    · obtain ⟨hfdne, hpolled⟩ := hpolls hj hji hne
      refine ⟨hpolled, (Finmap.lookup_erase_ne hfdne).trans ?_⟩
      rw [lookup_repoint_of_ne]
      · exact (h.held j d fdType hj hne).2
      · intro fdType' _ heq
        have := (h.unique hj hend heq hne).1
        omega
  · intro hmem
    obtain ⟨d, hd, hneg⟩ := List.mem_map.1 hmem
    obtain ⟨j, hj⟩ := List.mem_iff_getElem?.1 hd
    rcases getElem?_dropLast_set_iff.1 hj with ⟨rfl, hlt, rfl⟩ | ⟨hji, hlt, hj⟩
    · exact h.clientFd_ne hend hneg
    · exact h.clientFd_ne hj hneg
  · intro fd' hfd'
    obtain ⟨hne, hpolled⟩ := (h.polls_closed hlastPfd).1 hfd'
    obtain ⟨d, hd, rfl⟩ := List.mem_map.1 (h.owned fd' hpolled)
    obtain ⟨j, hj⟩ := List.mem_iff_getElem?.1 hd
    have hji : j ≠ i := by
      rintro rfl
      rw [hi] at hj
      exact hne (congrArg Client.clientFd (Option.some.inj hj)).symm
    have hjlt := (List.getElem?_eq_some_iff.1 hj).1
    have hilt := (List.getElem?_eq_some_iff.1 hi).1
    by_cases hjlast : j + 1 = s.clients.length
    · -- the last client moves to the slot
      obtain rfl : j = s.clients.length - 1 := by omega
      have hmoved : ((s.clients.set i (c.assign last)).dropLast)[i]? = some (c.assign last) :=
        getElem?_dropLast_set_iff.2 (.inl ⟨rfl, by omega, rfl⟩)
      rw [hend] at hj
      cases hj
      exact List.mem_map.2 ⟨_, List.mem_of_getElem? hmoved, rfl⟩
    · have hstays : ((s.clients.set i (c.assign last)).dropLast)[j]? = some d :=
        getElem?_dropLast_set_iff.2 (.inr ⟨hji, by omega, hj⟩)
      exact List.mem_map_of_mem (List.mem_of_getElem? hstays)

/-! ## The calls of an action -/

theorem registeredAs_neutral {call : Call} (h : call.Neutral) (fd : ℤ) (calls : List Call) :
    registeredAs fd (call :: calls) = registeredAs fd calls := by
  cases call <;> first | exact registeredAs_cons rfl | exact absurd h id

theorem registeredAs_readCalls (fd fd' : ℤ) (c : Client) (received : Bytes)
    (dispatched : Option Client) (failed : Bool) (calls : List Call) :
    registeredAs fd' (readCalls fd c received dispatched failed ++ calls) =
      registeredAs fd' calls := by
  cases dispatched <;> cases failed <;> rfl

theorem registeredAs_hangUpCalls (fd : ℤ) (c : Client) (calls : List Call) :
    registeredAs fd (hangUpCalls c ++ calls) = registeredAs fd calls := by
  unfold hangUpCalls
  split_ifs <;> rfl

theorem registeredAs_reapCalls (fd : ℤ) (c : Client) (pid : ℤ) (errno : Option Errno)
    (calls : List Call) : registeredAs fd (reapCalls c pid errno ++ calls) = registeredAs fd calls := by
  unfold reapCalls
  split_ifs <;> rfl

section Change

variable {calls new : List Call} {c c' : Client}

theorem Change.registeredAs (h : Change calls c new c') (fd : ℤ) :
    registeredAs fd (new ++ calls) = registeredAs fd calls := by
  cases h with
  | read _ received dispatched failed => exact registeredAs_readCalls _ _ _ _ _ _ _
  | note | readCgi | kill | remove | giveUp | writeBody | writeResponse => rfl

theorem Change.fdOf (h : Change calls c new c') (fdType : FdType) :
    c'.fdOf fdType = c.fdOf fdType := by
  cases h with
  | note _ h => exact Client.fdOf_of_core (Client.Kept.of_untracked h).core fdType
  | read _ _ _ _ hkept => exact Client.fdOf_of_core hkept.core fdType
  | readCgi | kill | remove | giveUp | writeBody | writeResponse => cases fdType <;> rfl

theorem Change.clientFd (h : Change calls c new c') : c'.clientFd = c.clientFd := h.fdOf .client

theorem Change.cgiPid (h : Change calls c new c') : c'.cgiPid = c.cgiPid := by
  cases h with
  | note _ h => exact (congrArg Client.cgiPid h :)
  | read _ _ _ _ hkept => exact (congrArg Client.cgiPid hkept.core :)
  | readCgi | kill | remove | giveUp | writeBody | writeResponse => rfl

theorem Change.serverToClientState (h : Change calls c new c') :
    c'.serverToClientState = c.serverToClientState := by
  cases h with
  | note _ h => exact (congrArg Client.serverToClientState h :)
  | read _ _ _ _ hkept => exact (congrArg Client.serverToClientState hkept.core :)
  | readCgi | kill | remove | giveUp | writeBody | writeResponse => rfl

theorem Change.noCgi_iff (h : Change calls c new c') : c'.NoCgi ↔ c.NoCgi := by
  have hto : c'.serverToCgiFd = c.serverToCgiFd := h.fdOf .serverToCgi
  have hfrom : c'.cgiToServerFd = c.cgiToServerFd := h.fdOf .cgiToServer
  constructor
  · exact fun hno => ⟨h.cgiPid ▸ hno.cgiPid, hto ▸ hno.serverToCgiFd, hfrom ▸ hno.cgiToServerFd⟩
  · exact fun hno => ⟨h.cgiPid.trans hno.cgiPid, hto.trans hno.serverToCgiFd,
      hfrom.trans hno.cgiToServerFd⟩

theorem Change.done (h : Change calls c new c') (hdone : c.clientToServerState = .done) :
    c'.clientToServerState = .done := by
  cases h with
  | note _ h => exact ((Client.Kept.of_untracked h).done hdone).1
  | read _ _ _ _ hkept => exact (hkept.done hdone).1
  | giveUp => rfl
  | readCgi | kill | remove | writeBody | writeResponse => exact hdone

theorem Change.sound (h : Change calls c new c') (hc : c.Sound) : c'.Sound := by
  cases h with
  | note _ h => exact hc.kept (.of_untracked h)
  | read _ _ _ _ hkept => exact hc.kept hkept
  | readCgi _ hreading =>
    refine ⟨fun hunread => ?_, hc.toCgi, hc.fromCgi, hc.running, hc.reaped, hc.idle⟩
    exact absurd (hc.done_of_fdOf (.inr rfl) (hc.fromCgi.2 hreading)) hunread
  | kill =>
    refine ⟨fun hunread => ?_, hc.toCgi, hc.fromCgi, hc.running, hc.reaped, hc.idle⟩
    exact (hc.unread hunread).congr rfl rfl rfl rfl rfl rfl rfl rfl
  | remove =>
    refine ⟨fun hunread => ?_, hc.toCgi, hc.fromCgi, hc.running, hc.reaped, hc.idle⟩
    exact (hc.unread hunread).congr rfl rfl rfl rfl rfl rfl rfl rfl
  | giveUp => exact hc.finish
  | writeBody _ hdone _ =>
    exact ⟨fun hunread => absurd hdone hunread, hc.toCgi, hc.fromCgi, hc.running, hc.reaped, hc.idle⟩
  | writeResponse _ hwriting _ =>
    refine ⟨fun hunread => ?_, hc.toCgi, hc.fromCgi, hc.running, hc.reaped, ?_⟩
    · cases (hc.unread hunread).serverToClientState.symm.trans hwriting
    · exact fun hidle => absurd hwriting hidle

end Change

/-! ## Every action keeps the server coherent -/

theorem Spare.connect {fd fd' : ℤ} {fdType : FdType} (h : s.Spare fd fdType) (hne : fd ≠ fd')
    (i : ℕ) (fdType' : FdType) (events : Events) :
    (s.connect fd' i fdType' events).Spare fd fdType :=
  ⟨h.1, fun hmem => (mem_emplace.1 hmem).elim hne h.2⟩

theorem Coherent.start (h : s.Coherent) {i : ℕ} {c : Client} {pid fromCgi count : ℤ}
    {toCgi : Option ℤ} {pids : Map ℤ ℤ} {children : Finset ℤ} (hi : s.clients[i]? = some c)
    (hto : ∀ fd ∈ toCgi, s.Spare fd .serverToCgi) (hfrom : s.Spare fromCgi .cgiToServer)
    (hne : fromCgi ∉ toCgi) :
    Coherent { (toCgi.elim s fun fd => s.connect fd i .serverToCgi { pollout := true }).connect
        fromCgi i .cgiToServer { pollin := true } with
      clients := s.clients.set i (c.started pid toCgi fromCgi)
      cgiPidToClientFd := pids
      children := children
      unreapedCgiCount := count
      calls := .startCgi pid c :: .addFd fromCgi .cgiToServer ::
        (toCgi.toList.map fun fd => Call.addFd fd .serverToCgi) ++ s.calls } := by
  cases toCgi with
  | none =>
    have h₁ := h.attach { pollin := true } hi (.inr rfl) hfrom
    refine h₁.congr rfl rfl rfl (fun _ _ => rfl) h₁.nonneg (fun _ => registeredAs_cons rfl) rfl ?_
    rw [List.map_set, List.map_set]
    rfl
  | some fd =>
    have h₁ := h.attach { pollout := true } hi (.inl rfl) (hto fd rfl)
    have hfd : fromCgi ≠ fd := fun heq => hne (heq ▸ rfl)
    have h₂ := h₁.attach { pollin := true } (getElem?_set_self_of hi _) (.inr rfl)
      (hfrom.connect hfd i .serverToCgi { pollout := true })
    refine h₂.congr rfl rfl rfl (fun _ _ => rfl) h₂.nonneg (fun _ => registeredAs_cons rfl) rfl ?_
    rw [List.map_set, List.map_set]
    change _ = ((s.clients.set i _).map Client.fdOf).set i _
    rw [List.map_set, List.set_set]
    rfl

/-- **Every action keeps the server coherent.** -/
theorem Coherent.action (h : s.Coherent) (haction : Action config stage s s') : s'.Coherent := by
  cases haction with
  | kernel descriptors _ hopen hnonneg =>
    exact h.congr rfl rfl rfl hopen hnonneg (fun _ => rfl) rfl rfl
  | close fd hfd =>
    refine h.congr rfl rfl rfl (fun fd' hfd' => ?_) (fun fd' hfd' => ?_)
      (fun _ => registeredAs_cons rfl) rfl rfl
    · exact Finmap.lookup_erase_ne fun heq => hfd (heq ▸ hfd')
    · exact h.nonneg fd' (Finmap.mem_erase.1 hfd').2
  | polled revents _ _ =>
    refine h.congr ?_ rfl rfl (fun _ _ => rfl) h.nonneg (fun _ => rfl) rfl rfl
    rw [List.map_map]
    rfl
  | log call hcall =>
    exact h.congr rfl rfl rfl (fun _ _ => rfl) h.nonneg
      (fun fd => registeredAs_neutral hcall fd s.calls) rfl rfl
  | change i c c' new hi hchange =>
    exact h.set_client hi rfl rfl rfl rfl hchange.registeredAs rfl rfl hchange.fdOf
  | stopReading i c k pfd hi _ hpfd _ =>
    refine h.set_client hi (map_set_of_eq hpfd rfl) rfl rfl rfl (fun _ => rfl) rfl rfl ?_
    intro fdType
    cases fdType <;> rfl
  | answer i c c' k pfd hi _ hpfd _ hsame _ _ _ _ =>
    refine h.set_client hi (map_set_of_eq hpfd rfl) rfl rfl rfl (fun _ => rfl) rfl rfl ?_
    intro fdType
    cases fdType with
    | server => rfl
    | client => exact (congrArg Client.clientFd hsame :)
    | serverToCgi => exact (congrArg Client.serverToCgiFd hsame :)
    | cgiToServer => exact (congrArg Client.cgiToServerFd hsame :)
  | start i c pid toCgi fromCgi hi _ _ _ _ hto hfrom hne _ => exact h.start hi hto hfrom hne
  | release i c fdType k last new hi hpipe hfd hk hlast hnew =>
    refine h.release hi hpipe hk hlast fun fd => ?_
    rcases hnew with ⟨rfl, -⟩ | ⟨-, rfl⟩
    · exact registeredAs_cons rfl
    · rw [registeredAs_hangUpCalls]
      exact registeredAs_cons rfl
  | orphan i c d fd _ _ _ _ =>
    exact h.congr rfl rfl rfl (fun _ _ => rfl) h.nonneg
      (fun fd => registeredAs_hangUpCalls fd d s.calls) rfl rfl
  | wait pid count _ _ =>
    exact h.congr rfl rfl rfl (fun _ _ => rfl) h.nonneg (fun _ => registeredAs_cons rfl) rfl rfl
  | reap i c pid clientFd status hi _ _ _ _ _ _ _ _ =>
    refine h.set_client hi rfl rfl rfl rfl (fun fd => registeredAs_reapCalls fd _ _ _ _) rfl rfl ?_
    intro fdType
    cases fdType <;> rfl
  | accept fd serverFd serverPort hopen =>
    exact h.accept serverFd serverPort config.clientMaxBodySize { pollin := true } hopen
  | erase i c last this src k lastPfd hi hlast _ _ hk hlastPfd _ _ _ =>
    exact h.erase this src hi hlast hk hlastPfd
  | listen fd bindFdToServerIndices bindFdToPort hopen =>
    exact h.listen { pollin := true } bindFdToServerIndices bindFdToPort hopen
  | shutDown fd k last _ hk hlast hkind => exact h.shutDown hk hlast hkind

/-- **Every sequence of actions keeps the server coherent.** -/
theorem Coherent.actions (h : s.Coherent) (hactions : Actions config stage s s') : s'.Coherent := by
  induction hactions with
  | refl => exact h
  | tail _ haction ih => exact ih.action haction

/-- The calls of the new action come on top. -/
theorem Action.suffix (h : Action config stage s s') : s.calls <:+ s'.calls := by
  cases h with
  | kernel | polled | stopReading | answer => exact List.suffix_rfl
  | close | log | wait | listen | shutDown => exact List.suffix_cons _ _
  | change | orphan | reap => exact List.suffix_append _ _
  | start i c pid toCgi fromCgi =>
    exact ((List.suffix_append _ _).trans (List.suffix_cons _ _)).trans (List.suffix_cons _ _)
  | release => exact (List.suffix_cons _ _).trans (List.suffix_append _ _)
  | accept | erase => exact (List.suffix_cons _ _).trans (List.suffix_cons _ _)

theorem Actions.suffix (h : Actions config stage s s') : s.calls <:+ s'.calls := by
  induction h with
  | refl => exact List.suffix_rfl
  | tail _ haction ih => exact ih.trans haction.suffix

/-! ## Listening sockets -/

/-- An entry of `_fd_to_fd_type` for a listening socket, after another one was added. -/
theorem Active.register (h : s.Active) {fd fd' : ℤ} {fdType : FdType}
    (hnew : fd ∉ s.fdToPfdIndex)
    (hlookup : (s.fdToFdType.emplace fd fdType).lookup fd' = some .server) :
    (fd' = fd ∧ fdType = .server) ∨ (fd' ≠ fd ∧ s.Polls fd' .server) := by
  have hold : ∀ {fd'}, s.fdToFdType.lookup fd' = some .server → fd' ≠ fd ∧ s.Polls fd' .server :=
    fun hlookup => ⟨fun heq => hnew (heq ▸ (h _ hlookup).1), h _ hlookup⟩
  by_cases hmem : fd ∈ s.fdToFdType
  · rw [Map.emplace_of_mem hmem] at hlookup
    exact .inr (hold hlookup)
  · rw [Map.emplace_of_notMem hmem, Map.lookup_insert_eq] at hlookup
    split_ifs at hlookup with heq
    · exact .inl ⟨heq, Option.some.inj hlookup⟩
    · exact .inr (hold hlookup)

/-- Registering a pipe. -/
theorem Active.connect (h : s.Active) {fd : ℤ} {fdType : FdType} (hspare : s.Spare fd fdType)
    (hpipe : fdType.IsPipe) (i : ℕ) (events : Events) : (s.connect fd i fdType events).Active := by
  intro fd' hlookup
  rcases h.register hspare.2 hlookup with ⟨-, rfl⟩ | ⟨-, hpolls⟩
  · exact absurd rfl hpipe.ne_server
  · exact ⟨mem_emplace.2 (.inr hpolls.1), hpolls.2⟩

theorem Active.dropped (h : s.Active) (htables : s.Tables) {fd fd' : ℤ} {k : ℕ} {last : Pollfd}
    (hlast : s.pfds.getLast? = some last)
    (hlookup : (s.fdToFdType.erase fd).lookup fd' = some .server) :
    ((s.unregister fd k last).closed fd).Polls fd' .server := by
  rw [Map.lookup_erase_eq] at hlookup
  split_ifs at hlookup with heq
  exact (htables.polls_closed hlast).2 ⟨heq, h fd' hlookup⟩

/-- As long as no listening socket is closed, `_fd_to_fd_type` is right about them. -/
theorem Active.action (hactive : s.Active) (h : s.Coherent) (haction : Action config stage s s')
    (hstage : stage ≠ .closing) : s'.Active := by
  cases haction with
  | kernel descriptors _ hopen _ => exact fun fd hlookup => (hactive fd hlookup).congr rfl hopen
  | close fd hfd =>
    intro fd' hlookup
    refine (hactive fd' hlookup).congr rfl fun fd'' hfd'' => ?_
    exact Finmap.lookup_erase_ne fun heq => hfd (heq ▸ hfd'')
  | polled | log | change | stopReading | answer | orphan | wait | reap => exact hactive
  | start i c pid toCgi fromCgi _ _ _ _ _ hto hfrom hne _ =>
    cases toCgi with
    | none => exact hactive.connect hfrom (.inr rfl) i { pollin := true }
    | some fd =>
      have hfd : fromCgi ≠ fd := fun heq => hne (heq ▸ rfl)
      exact (hactive.connect (hto fd rfl) (.inl rfl) i { pollout := true }).connect
        (hfrom.connect hfd i .serverToCgi { pollout := true }) (.inr rfl) i { pollin := true }
  | release i c fdType k last new _ _ _ _ hlast _ =>
    exact fun fd' hlookup => hactive.dropped h.toTables hlast hlookup
  | accept fd serverFd serverPort hopen =>
    intro fd' hlookup
    rcases hactive.register (h.notMem_of_canOpen hopen) hlookup with ⟨-, htype⟩ | ⟨hne, hpolls⟩
    · cases htype
    · exact ⟨mem_emplace.2 (.inr hpolls.1), (Finmap.lookup_insert_of_ne _ hne).trans hpolls.2⟩
  | erase i c last this src k lastPfd _ _ _ _ _ hlastPfd _ _ _ =>
    exact fun fd' hlookup => hactive.dropped h.toTables hlastPfd hlookup
  | listen fd bindFdToServerIndices bindFdToPort hopen =>
    intro fd' hlookup
    rcases hactive.register (h.notMem_of_canOpen hopen) hlookup with ⟨rfl, -⟩ | ⟨hne, hpolls⟩
    · exact ⟨mem_emplace.2 (.inl rfl), Finmap.lookup_insert _⟩
    · exact ⟨mem_emplace.2 (.inr hpolls.1), (Finmap.lookup_insert_of_ne _ hne).trans hpolls.2⟩
  | shutDown fd k last hclosing _ _ _ => exact absurd hclosing hstage

end Server

end Webserv
