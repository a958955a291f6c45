import Webserv.Server.Frames

/-!
# `_pfds` and its index

`_pfds` and `_fd_to_pfd_index` are inverse to each other, and what is in them is open (`Mirrored`).
Nothing that the server does breaks this, whether or not the rest of its state is in order: the handlers
only register descriptors that they have just opened, and only close those that are registered, or
those that they have just opened. So no descriptor is closed that is not open (`pfds_mirrored`).
-/

namespace Webserv

open Exec IndexedVector

namespace Server

variable {config : Config} {env : Answers} {s s' : Server} {fd : ℤ} {spare : List ℤ}

/-- The index of `_pfds` is its inverse, what is registered is open, and so are the given descriptors,
which are not registered; and only open descriptors have been closed. -/
structure Mirrored (spare : List ℤ) (s : Server) : Prop where
  indexed : IndexedBy (s.pfds.map Pollfd.fd) s.fdToPfdIndex
  opened : ∀ fd ∈ s.fdToPfdIndex, fd ∈ s.descriptors
  nodup : spare.Nodup
  spare : ∀ fd ∈ spare, fd ∈ s.descriptors ∧ fd ∉ s.fdToPfdIndex
  closed : ∀ fd isOpen, .close fd isOpen ∈ s.calls → isOpen = true

namespace Mirrored

theorem nil (h : s.Mirrored spare) : s.Mirrored [] :=
  { h with nodup := List.nodup_nil, spare := nofun }

theorem tail (h : s.Mirrored (fd :: spare)) : s.Mirrored spare :=
  { h with
    nodup := (List.nodup_cons.1 h.nodup).2
    spare := fun fd' hmem => h.spare fd' (List.mem_cons_of_mem fd hmem) }

theorem perm {spare' : List ℤ} (h : s.Mirrored spare) (hperm : spare'.Perm spare) :
    s.Mirrored spare' :=
  { h with
    nodup := hperm.nodup_iff.2 h.nodup
    spare := fun fd hfd => h.spare fd (hperm.mem_iff.1 hfd) }

/-- A call that is not one of `close` is logged. -/
theorem log (h : s.Mirrored spare) {call : Call} (hcall : ∀ fd isOpen, call ≠ .close fd isOpen) :
    Mirrored spare { s with calls := call :: s.calls } :=
  { h with
    closed := fun fd isOpen hmem => by
      rcases List.mem_cons.1 hmem with heq | hmem
      · exact absurd heq.symm (hcall fd isOpen)
      · exact h.closed fd isOpen hmem }

/-- A descriptor is opened. -/
theorem openFd (h : s.Mirrored spare) (hfd : fd ∉ s.descriptors) (fdType : FdType) :
    Mirrored (fd :: spare) { s with descriptors := s.descriptors.insert fd fdType } where
  indexed := h.indexed
  opened fd' hfd' := Finmap.mem_insert.2 (.inr (h.opened fd' hfd'))
  nodup := List.nodup_cons.2 ⟨fun hmem => hfd (h.spare fd hmem).1, h.nodup⟩
  spare fd' hmem := by
    rcases List.mem_cons.1 hmem with rfl | hmem
    · exact ⟨Finmap.mem_insert.2 (.inl rfl), fun hpolled => hfd (h.opened fd' hpolled)⟩
    · exact ⟨Finmap.mem_insert.2 (.inr (h.spare fd' hmem).1), (h.spare fd' hmem).2⟩
  closed := h.closed

/-- An open descriptor is closed, which is not registered or no longer so. -/
theorem close (h : s.Mirrored (fd :: spare)) : Mirrored spare (s.closed fd) where
  indexed := h.indexed
  opened fd' hfd' := by
    refine Finmap.mem_erase.2 ⟨?_, h.opened fd' hfd'⟩
    rintro rfl
    exact (h.spare fd' List.mem_cons_self).2 hfd'
  nodup := (List.nodup_cons.1 h.nodup).2
  spare fd' hmem := by
    obtain ⟨hopen, hpolled⟩ := h.spare fd' (List.mem_cons_of_mem fd hmem)
    refine ⟨Finmap.mem_erase.2 ⟨?_, hopen⟩, hpolled⟩
    rintro rfl
    exact (List.nodup_cons.1 h.nodup).1 hmem
  closed fd' isOpen hmem := by
    rcases List.mem_cons.1 hmem with heq | hmem
    · cases heq
      rfl
    · exact h.closed fd' isOpen hmem

/-- A descriptor is registered. -/
theorem register (h : s.Mirrored (fd :: spare)) (fdType : FdType) (events : Events) :
    Mirrored spare { s with
      fdToFdType := s.fdToFdType.emplace fd fdType
      fdToPfdIndex := s.fdToPfdIndex.emplace fd s.pfds.length
      pfds := s.pfds ++ [{ fd := fd, events := events }] } := by
  obtain ⟨hopen, hpolled⟩ := h.spare fd List.mem_cons_self
  have hnew : fd ∉ s.pfds.map Pollfd.fd := mt (h.indexed.mem_iff fd).2 hpolled
  have hindexed := h.indexed.push hnew
  rw [List.length_map] at hindexed
  rw [Map.emplace_of_notMem hpolled]
  refine ⟨by rwa [List.map_append], fun fd' hfd' => ?_, (List.nodup_cons.1 h.nodup).2, ?_, h.closed⟩
  · rcases Finmap.mem_insert.1 hfd' with rfl | hfd'
    · exact hopen
    · exact h.opened fd' hfd'
  · intro fd' hmem
    obtain ⟨hopen', hpolled'⟩ := h.spare fd' (List.mem_cons_of_mem fd hmem)
    refine ⟨hopen', fun hfd' => ?_⟩
    rcases Finmap.mem_insert.1 hfd' with rfl | hfd'
    · exact (List.nodup_cons.1 h.nodup).1 hmem
    · exact hpolled' hfd'

/-- A descriptor is taken out of `_pfds`, and is open still. -/
theorem unregister (h : s.Mirrored spare) {k : ℕ} {last : Pollfd}
    (hk : s.fdToPfdIndex.lookup fd = some k) (hlast : s.pfds.getLast? = some last) :
    Mirrored (fd :: spare) (s.unregister fd k last) := by
  have hfd : fd ∈ s.fdToPfdIndex := Finmap.mem_iff.2 ⟨k, hk⟩
  have hkey : (s.pfds.map Pollfd.fd).getLast? = some last.fd := by rw [List.getLast?_map, hlast]; rfl
  have hindexed := h.indexed.swapRemove ((h.indexed fd k).1 hk) hkey
  have hlastMem : last.fd ∈ s.fdToPfdIndex := (h.indexed.mem_iff _).2 (List.mem_of_getLast? hkey)
  -- no descriptor becomes registered
  have hmem : ∀ fd' ∈ (s.fdToPfdIndex.insert last.fd k).erase fd, fd' ∈ s.fdToPfdIndex := by
    intro fd' hfd'
    rcases Finmap.mem_insert.1 (Finmap.mem_erase.1 hfd').2 with rfl | hfd'
    · exact hlastMem
    · exact hfd'
  refine ⟨?_, fun fd' hfd' => h.opened fd' (hmem fd' hfd'), ?_, ?_, h.closed⟩
  · rw [← List.map_set, ← List.map_dropLast] at hindexed
    exact hindexed
  · exact List.nodup_cons.2 ⟨fun hspare => (h.spare fd hspare).2 hfd, h.nodup⟩
  · intro fd' hspare
    rcases List.mem_cons.1 hspare with rfl | hspare
    · exact ⟨h.opened fd' hfd, fun hfd' => (Finmap.mem_erase.1 hfd').1 rfl⟩
    · exact ⟨(h.spare fd' hspare).1, fun hfd' => (h.spare fd' hspare).2 (hmem fd' hfd')⟩

end Mirrored

/-! ## Opening, registering and closing -/

theorem leads_close {E : Server → Prop} {spare' : List ℤ} (hperm : (fd :: spare').Perm spare) :
    Leads (Mirrored spare) (close fd) (fun _ => Mirrored spare') E := by
  intro s hs
  have hs' := hs.perm hperm
  rw [close_of (hs'.spare fd List.mem_cons_self).1]
  exact hs'.close

theorem leads_removePfd (fd : ℤ) :
    Leads (Mirrored spare) (removePfd fd) (fun _ => Mirrored (fd :: spare)) (Mirrored spare) := by
  intro s hs
  by_cases hfd : fd ∈ s.fdToPfdIndex
  · obtain ⟨k, last, hk, hlast, hremove⟩ := removePfd_of_indexed hs.indexed hfd
    rw [hremove]
    exact hs.unregister hk hlast
  · have hnone : s.fdToPfdIndex.lookup fd = none := Finmap.lookup_eq_none.2 hfd
    have hthrow : removePfd fd s = .error .outOfRange s := by
      rw [removePfd, run_bind, run_get]
      dsimp only
      rw [lookupAt, hnone]
      rfl
    rw [hthrow]
    exact hs

theorem preserves_removeFd (fd : ℤ) : Preserves (Mirrored spare) (removeFd fd) := by
  have htype : Preserves (Mirrored (fd :: spare))
      (modify fun s => { s with fdToFdType := s.fdToFdType.erase fd } : ServerM Unit) :=
    .modify fun s hs => { hs with }
  refine Leads.preserves (.bind ((preserves_assert _).leads fun _ hs => hs) fun _ => ?_)
  exact .bind (leads_removePfd fd) fun _ => .bind (htype.leads fun _ hs => hs.tail) fun _ =>
    leads_close (.refl _)

theorem detached_mirrored : Detached (Mirrored spare) where
  clients _ hs := { hs with }
  call hs hcall := hs.log fun fd isOpen heq => by
    rw [heq] at hcall
    cases hcall
  pfd hs hpfd hfd := { hs with
    indexed := by
      dsimp only
      rw [map_set_of_eq hpfd hfd]
      exact hs.indexed }
  index _ hs := { hs with }
  removeFd := preserves_removeFd

/-- What a function keeps that throws nothing away. -/
theorem leads_of_preserves {α : Type} {x : ServerM α} (h : Preserves (Mirrored spare) x) :
    Leads (Mirrored spare) x (fun _ => Mirrored spare) (Mirrored []) :=
  h.leads fun _ hs => hs.nil

theorem leads_addClientFd (fd : ℤ) (clientIndex : ℕ) (fdType : FdType) (events : Events) :
    Leads (Mirrored (fd :: spare)) (addClientFd fd clientIndex fdType events) (fun _ => Mirrored spare)
      (Mirrored []) := by
  have hlog : Preserves (Mirrored (fd :: spare)) (log (.addFd fd fdType)) :=
    detached_mirrored.frame.log rfl
  refine .bind (leads_of_preserves (preserves_assert _)) fun _ => ?_
  refine .bind (leads_of_preserves (.modify fun s hs => detached_mirrored.index _ hs)) fun _ => ?_
  refine .bind (leads_of_preserves (preserves_assert _)) fun _ => ?_
  exact .bind (leads_of_preserves hlog) fun _ s hs => hs.register fdType events

theorem leads_pipe (proposed : Option (ℤ × ℤ)) :
    Leads (Mirrored spare) (pipe proposed) (fun p => Mirrored (p.1 :: p.2 :: spare)) (Mirrored []) := by
  intro s hs
  rcases proposed with _ | ⟨readEnd, writeEnd⟩
  · exact hs.nil
  · simp only [pipe, run_bind, run_get, run_ite]
    split_ifs with hopen
    · obtain ⟨⟨-, hread⟩, ⟨-, hwrite⟩, hne⟩ := hopen
      have hfresh : writeEnd ∉ s.descriptors.insert readEnd FdType.cgiToServer := by
        rw [Finmap.mem_insert]
        exact not_or.2 ⟨Ne.symm hne, hwrite⟩
      exact ((hs.openFd hread .cgiToServer).openFd hfresh .serverToCgi).perm (.swap _ _ _)
    · exact hs.nil

theorem mirrored_startCgi (i : ℕ) : Preserves (Mirrored []) (startCgi env i) := by
  apply Leads.preserves
  have hfork : ∀ spare, Preserves (Mirrored spare) (fork env) := by
    intro spare s hs
    cases hfork : env.fork with
    | none =>
      simp only [fork, run_bind, run_get, hfork]
      exact hs
    | some pid =>
      simp only [fork, run_bind, run_get, hfork, run_ite]
      split_ifs
      · exact { hs with }
      · exact hs
  have hto : ∀ j fd spare, Leads (Mirrored (fd :: spare)) (connectServerToCgi i j fd)
      (fun _ => Mirrored spare) (Mirrored []) := fun j fd spare =>
    .bind (leads_of_preserves (preserves_clientAt i)) fun _ => .ite (leads_close (.refl _)) <|
      .bind (leads_addClientFd _ _ _ _) fun _ =>
        .bind (leads_of_preserves (detached_mirrored.modifyClient i _)) fun _ =>
          leads_of_preserves (detached_mirrored.frame.enableWritingToCgi i)
  have hfrom : ∀ j fd, Leads (Mirrored [fd]) (connectCgiToServer i j fd) (fun _ => Mirrored [])
      (Mirrored []) := fun j fd =>
    .bind (leads_addClientFd _ _ _ _) fun _ =>
      leads_of_preserves (detached_mirrored.modifyClient i _)
  refine .bind (leads_pipe _) fun toCgi => .bind (leads_pipe _) fun fromCgi => ?_
  refine .bind (leads_of_preserves (hfork _)) fun pid => ?_
  -- the ends of the CGI are closed
  have hperm : [toCgi.1, toCgi.2, fromCgi.2, fromCgi.1].Perm
      [fromCgi.1, fromCgi.2, toCgi.1, toCgi.2] :=
    (List.Perm.swap _ _ _).trans (List.reverse_perm [fromCgi.1, fromCgi.2, toCgi.1, toCgi.2])
  refine .bind (leads_close hperm) fun _ => .bind (leads_close (.swap _ _ _)) fun _ => ?_
  refine .bind (leads_of_preserves (preserves_clientAt i)) fun c => ?_
  refine .bind (leads_of_preserves (detached_mirrored.modifyClient i _)) fun _ => ?_
  refine .bind (leads_of_preserves (.modify fun s hs => { hs with })) fun _ => ?_
  refine .bind (leads_of_preserves .get) fun _ => ?_
  refine .bind (leads_of_preserves (preserves_lookupAt _ _)) fun j => ?_
  -- and those of the server are registered
  refine .bind (hto j toCgi.2 _) fun _ => .bind (hfrom j fromCgi.1) fun _ => ?_
  exact .bind (leads_of_preserves (detached_mirrored.frame.log rfl)) fun _ =>
    leads_of_preserves (.modify fun s hs => { hs with })

theorem mirrored_acceptClient (serverFd : ℤ) :
    Preserves (Mirrored []) (acceptClient config env serverFd) := by
  apply Leads.preserves
  have haccept : Leads (Mirrored []) (accept env serverFd) (fun fd => Mirrored [fd]) (Mirrored []) := by
    intro s hs
    cases haccept : env.accept with
    | none =>
      simp only [accept, run_bind, run_get, haccept]
      exact hs
    | some fd =>
      simp only [accept, run_bind, run_get, haccept, run_ite]
      split_ifs with hopen
      · exact hs.openFd hopen.1.2 .client
      · exact hs
  have hfcntl : ∀ fd, Preserves (Mirrored [fd]) (fcntl env) := fun fd =>
    .ite (fun _ => .pure _) fun _ => .throw _
  refine .bind haccept fun fd => .bind (leads_of_preserves (hfcntl fd)) fun _ => ?_
  refine .bind (leads_of_preserves .get) fun _ => .bind (leads_addClientFd _ _ _ _) fun _ => ?_
  refine .bind (leads_of_preserves .get) fun _ => ?_
  refine .bind (leads_of_preserves (preserves_lookupAt _ _)) fun _ => ?_
  exact .bind (leads_of_preserves (detached_mirrored.frame.log rfl)) fun _ =>
    leads_of_preserves (.modify fun s hs => { hs with })

/-! ## The handlers -/

theorem mirrored_readFd (i : ℕ) (fd : ℤ) (fdType : FdType) :
    Preserves (Mirrored []) (readFd config env i fd fdType) := by
  have hread : Preserves (Mirrored []) (read env) := by
    unfold read
    cases env.read with
    | none => exact .throw _
    | some received => exact .pure _
  refine .bind hread fun received => .bind (detached_mirrored.modifyClient i _) fun _ => ?_
  refine .ite (fun _ => ?_) fun _ => ?_
  · refine .bind (preserves_assert _) fun _ => .bind (preserves_clientAt i) fun c => ?_
    exact .bind (detached_mirrored.removeClient _) fun _ => .pure _
  · exact .bind (detached_mirrored.frame.readBytes mirrored_startCgi i fd fdType received) fun _ =>
      .pure _

theorem mirrored_handlePollin (fd : ℤ) (fdType : FdType) :
    Preserves (Mirrored []) (handlePollin config env fd fdType) := by
  refine .ite (fun _ => .bind (mirrored_acceptClient fd) fun _ => .pure _) fun _ => ?_
  refine .bind (preserves_assert _) fun _ => .bind (preserves_getClient fd) fun i => ?_
  exact (mirrored_readFd i fd fdType).catchClientException fun status =>
    .bind (detached_mirrored.frame.respondClientException status i) fun _ => .pure _

theorem mirrored_write (fd : ℤ) (msg : Bytes) : Preserves (Mirrored []) (write env fd msg) := by
  unfold write
  cases env.write with
  | none => exact .bind (.modify fun s hs => { hs with }) fun _ => .pure _
  | some n => exact .bind (.modify fun s hs => hs.log nofun) fun _ => .pure _

theorem mirrored_writeToCgi (i : ℕ) : Preserves (Mirrored []) (writeToCgi env i) := by
  have hremove : ∀ fd, Preserves (Mirrored []) (removeServerToCgiFd fd) := fun fd =>
    detached_mirrored.frame.removePipeFd (.inl rfl) fd
  refine .bind (preserves_clientAt i) fun c => .bind (preserves_assert _) fun _ => ?_
  refine .bind (preserves_assert _) fun _ => .bind (detached_mirrored.modifyClient i _) fun _ => ?_
  refine .bind (mirrored_write _ _) fun written => ?_
  cases written with
  | none => exact hremove _
  | some written =>
    exact .bind (preserves_assert _) fun _ => .ite (fun _ => hremove _) fun _ => .pure _

theorem mirrored_writeToClient (i : ℕ) : Preserves (Mirrored []) (writeToClient env i) := by
  refine .bind (preserves_clientAt i) fun c => .bind (preserves_assert _) fun _ => ?_
  refine .bind (preserves_assert _) fun _ => .bind (detached_mirrored.modifyClient i _) fun _ => ?_
  refine .bind (mirrored_write _ _) fun written => ?_
  cases written with
  | none => exact detached_mirrored.removeClient _
  | some written =>
    exact .bind (preserves_assert _) fun _ => .ite (fun _ => detached_mirrored.removeClient _) fun _ =>
      .pure _

theorem mirrored_processInOut (pfdIndex : ℕ) (fd : ℤ) (fdType : FdType) (pollin : Bool) :
    Preserves (Mirrored []) (processInOut config env pfdIndex fd fdType pollin) := by
  have hpollout : Preserves (Mirrored []) (handlePollout env fd fdType) :=
    .bind (preserves_getClient fd) fun i => .ite (fun _ => mirrored_writeToCgi i) fun _ =>
      .ite (fun _ => mirrored_writeToClient i) fun _ => .throw _
  refine .bind (.ite (fun _ => mirrored_handlePollin fd fdType) fun _ => .pure _) fun skipClient => ?_
  exact .bind .get fun s => .ite (fun _ => hpollout) fun _ => .pure _

theorem mirrored_processPfd (pfdIndex : ℕ) (seenFds : Finset ℤ) :
    Preserves (Mirrored []) (processPfd config env pfdIndex seenFds) := by
  have hprint : ∀ fd fdType, Preserves (Mirrored []) (printEvents fd fdType) := by
    intro fd fdType
    refine .ite (fun _ => .bind .get fun _ => ?_) fun _ => .pure _
    refine .bind (preserves_lookupAt _ _) fun i => .bind .get fun s => ?_
    cases s.clients[i]? with
    | none => exact .throw _
    | some c => exact .pure _
  have hpollerr : ∀ fd fdType, Preserves (Mirrored []) (handlePollerr env fd fdType) :=
    fun fd fdType => .ite (fun _ => detached_mirrored.frame.removePipeFd (.inl rfl) fd) fun _ =>
      .ite (fun _ => detached_mirrored.removeClient fd) fun _ => .throw _
  have hevents : ∀ fd, Preserves (Mirrored []) (processEvents config env pfdIndex fd) := by
    intro fd
    refine .bind .get fun _ => .bind (preserves_lookupAt _ _) fun fdType => ?_
    refine .bind (hprint fd fdType) fun _ => .bind .get fun s => .bind (preserves_assert _) fun _ => ?_
    refine .ite (fun _ => hpollerr fd fdType) fun _ => .bind (preserves_assert _) fun _ => ?_
    exact .ite (fun _ => detached_mirrored.frame.pollhupCgiToServer fd) fun _ =>
      mirrored_processInOut pfdIndex fd fdType _
  refine .bind .get fun s => .ite (fun _ => .pure _) fun _ => .bind .get fun _ => ?_
  refine .ite (fun _ => .pure _) fun _ => .ite (fun _ => .pure _) fun _ => .bind .get fun _ => ?_
  exact .bind (detached_mirrored.frame.log rfl) fun _ => .bind (hevents _) fun _ => .pure _

theorem mirrored_reapClient (childPid : ℤ) (exitStatus : Option ℤ) :
    Preserves (Mirrored []) (reapClient config env childPid exitStatus) := by
  refine .bind .get fun _ => .bind (preserves_lookupAt _ _) fun clientFd => .bind .get fun _ => ?_
  refine .bind (preserves_lookupAt _ _) fun i => .bind .get fun s => ?_
  cases s.clients[i]? with
  | none => exact .throw _
  | some c =>
    refine .bind (.modify fun s hs => { hs with }) fun _ => ?_
    refine .bind (detached_mirrored.modifyClient i _) fun _ => .bind (preserves_assert _) fun _ => ?_
    refine .bind (preserves_assert _) fun _ => .bind (preserves_assert _) fun _ => ?_
    refine .bind (preserves_assert _) fun _ => .bind (detached_mirrored.modifyClient i _) fun _ => ?_
    exact .ite (fun _ => detached_mirrored.removeClient clientFd) fun _ =>
      .ite (fun _ => detached_mirrored.frame.cgiEnd i) fun _ => .pure _

theorem mirrored_reapChild : Preserves (Mirrored []) (reapChild config env) := by
  have hwait : Preserves (Mirrored []) (waitpid env) := by
    refine .bind_get fun s hs => .ite (fun _ => .bind (.set { hs with }) fun _ => .pure _) fun _ => ?_
    cases env.waitpid with
    | none => exact .pure _
    | some child =>
      have hlog : Mirrored [] { s with calls := .waitpid child.1 s.errno :: s.calls } := hs.log nofun
      exact .ite (fun _ => .bind (.set { hlog with }) fun _ => .pure _) fun _ => .pure _
  have hpid : ∀ childPid exitStatus,
      Preserves (Mirrored []) (reapPid config env childPid exitStatus) := by
    intro childPid exitStatus
    refine .bind (.modify fun s hs => { hs with }) fun _ => .bind .get fun _ => ?_
    exact .ite (fun _ => .pure _) fun _ => .bind (mirrored_reapClient childPid exitStatus) fun _ =>
      .pure _
  refine .bind hwait fun child => .bind .get fun _ => .ite (fun _ => .pure _) fun _ => ?_
  exact .ite (fun _ => .pure _) fun _ => hpid _ _

theorem mirrored_sweepClient (i : ℕ) : Preserves (Mirrored []) (sweepClient config env i) :=
  .bind .get fun _ => .ite (fun _ => detached_mirrored.removeClient _) fun _ => .pure _

theorem mirrored_shutDownFds (fds : List ℤ) : Preserves (Mirrored []) (shutDownFds fds) := by
  have hfd : ∀ fd, Preserves (Mirrored []) (shutDownFd fd) := by
    intro fd
    refine .bind .get fun s => .ite (fun _ => Leads.preserves ?_) fun _ => .pure _
    exact .bind (leads_removePfd fd) fun _ => leads_close (.refl _)
  induction fds with
  | nil => exact .pure _
  | cons fd fds ih => exact .bind (hfd fd) fun _ => ih

theorem mirrored_listen (bindInfos : List (Bytes × List ℕ)) (bindFds : List ℤ) :
    Preserves (Mirrored []) (listen bindInfos bindFds) := by
  have hsocket : ∀ fd, Leads (Mirrored []) (socket fd) (fun _ => Mirrored [fd]) (Mirrored []) := by
    intro fd s hs
    simp only [socket, run_bind, run_get, run_ite]
    split_ifs with hopen
    · exact hs.openFd hopen.2 .server
    · exact hs
  have hadd : ∀ fd, Leads (Mirrored [fd]) (addFd fd .server { pollin := true }) (fun _ => Mirrored [])
      (Mirrored []) := by
    intro fd
    refine .bind (leads_of_preserves (preserves_assert _)) fun _ => ?_
    refine .bind (leads_of_preserves (detached_mirrored.frame.log rfl)) fun _ => ?_
    exact fun s hs => hs.register .server { pollin := true }
  induction bindInfos generalizing bindFds with
  | nil => exact .pure _
  | cons bindInfo bindInfos ih =>
    cases bindFds with
    | nil => exact .throw _
    | cons bindFd bindFds =>
      apply Leads.preserves
      refine .bind (hsocket bindFd) fun _ => ?_
      refine .bind (leads_of_preserves (.modify fun s hs => { hs with })) fun _ => ?_
      exact .bind (hadd bindFd) fun _ => leads_of_preserves (ih bindFds)

theorem mirrored_empty : Mirrored [] empty where
  indexed := .nil
  opened _ h := absurd h Finmap.notMem_empty
  nodup := List.nodup_nil
  spare := nofun
  closed := nofun

end Server

/-! ## Runs -/

namespace World

variable {config : Config} {env : Answers} {w : World}

theorem preserves_onServer {α : Type} {I : Server → Prop} {x : ServerM α} (h : Preserves I x) :
    Preserves (fun w : World => I w.server) (onServer x) := by
  intro w hw
  have hx := h w.server hw
  unfold onServer
  cases hr : x w.server with
  | ok a s =>
    rw [hr] at hx
    exact hx
  | error e s =>
    rw [hr] at hx
    exact hx

theorem mirrored_goto (phase : Phase) :
    Preserves (fun w : World => w.server.Mirrored []) (goto phase) := .modify fun _ hw => hw

theorem mirrored_poll : Preserves (fun w : World => w.server.Mirrored []) (poll env) := by
  have htimeout : Preserves (fun w : World => w.server.Mirrored []) timeout := by
    refine .bind .get fun w => .bind (preserves_onServer (Server.preserves_assert _)) fun _ => ?_
    exact .ite (fun _ => mirrored_goto _) fun _ => mirrored_goto _
  intro w hw
  unfold poll
  cases env.poll with
  | none =>
    have hfail : Preserves (fun w : World => w.server.Mirrored [])
        (if env.errno = some .eintr then pure () else throw (.system .poll) : WorldM Unit) :=
      .ite (fun _ => .pure _) fun _ => .throw _
    exact hfail w hw
  | some events =>
    -- the events of the entries change, not their descriptors
    have hfds : (w.server.pfds.map (w.server.polled events)).map Pollfd.fd =
        w.server.pfds.map Pollfd.fd := by
      rw [List.map_map]
      rfl
    have hpolled : Server.Mirrored []
        { w.server with pfds := w.server.pfds.map (w.server.polled events) } :=
      { hw with
        indexed := by
          rw [hfds]
          exact hw.indexed }
    have hrest : Preserves (fun w : World => w.server.Mirrored [])
        (if ∀ pfd ∈ w.server.pfds.map (w.server.polled events), pfd.revents = {} then
          if w.server.clients.length = 0 then pure () else timeout
        else goto (.processing (w.server.pfds.map (w.server.polled events)).length ∅) : WorldM Unit) :=
      .ite (fun _ => .ite (fun _ => .pure _) fun _ => htimeout) fun _ => mirrored_goto _
    exact hrest _ hpolled

theorem mirrored_step (config : Config) (env : Answers) :
    Preserves (fun w : World => w.server.Mirrored []) (step config env) := by
  have hshutDown : Preserves (fun w : World => w.server.Mirrored [])
      (onServer (Server.shutDownServers env)) :=
    preserves_onServer (.bind .get fun _ => Server.mirrored_shutDownFds _)
  have htop : Preserves (fun w : World => w.server.Mirrored []) (top env) := by
    refine .bind (.bind_get fun w hw => .ite (fun _ => ?_) fun _ => .pure _) fun _ => ?_
    · exact .bind (.set hw) fun _ => hshutDown
    · exact .bind .get fun _ =>
        .ite (fun _ => .bind hshutDown fun _ => mirrored_goto _) fun _ => mirrored_poll
  refine .bind (.modify fun w hw => { hw with }) fun _ => .bind .get fun w => ?_
  cases w.phase with
  | top => exact htop
  | reaping =>
    exact .bind (preserves_onServer Server.mirrored_reapChild) fun _ =>
      .ite (fun _ => .pure _) fun _ => .bind .get fun _ => mirrored_goto _
  | sweeping i n =>
    refine .ite (fun _ => ?_) fun _ => mirrored_goto _
    exact .bind (preserves_onServer (Server.mirrored_sweepClient i)) fun _ => mirrored_goto _
  | processing k seenFds =>
    cases k with
    | zero => exact mirrored_goto _
    | succ k =>
      exact .bind (preserves_onServer (Server.mirrored_processPfd k seenFds)) fun _ => mirrored_goto _
  | stopped => exact .pure _

theorem Reachable.mirrored (h : Reachable config w) : w.server.Mirrored [] := by
  induction h with
  | start h =>
    obtain ⟨bindFds, s, hlisten, rfl⟩ := h
    have hs := Server.mirrored_listen config.bindInfos bindFds _ Server.mirrored_empty
    rwa [hlisten] at hs
  | step env _ hstep ih =>
    have hs := mirrored_step config env _ ih
    rwa [hstep] at hs

/-- **`_pfds` and `_fd_to_pfd_index` are inverse to each other**, in every state of every run, also in
that in which an exception leaves it, **and no descriptor is closed that is not open**. -/
theorem pfds_mirrored (h : Visited config w) :
    (w.server.pfds.map Pollfd.fd).Nodup ∧
    (∀ fd, fd ∈ w.server.fdToPfdIndex ↔ fd ∈ w.server.pfds.map Pollfd.fd) ∧
    (∀ fd k, w.server.fdToPfdIndex.lookup fd = some k →
      ∃ pfd, w.server.pfds[k]? = some pfd ∧ pfd.fd = fd) ∧
    ∀ fd isOpen, .close fd isOpen ∈ w.server.calls → isOpen = true := by
  have hw : w.server.Mirrored [] := by
    cases h with
    | reached h => exact h.mirrored
    | crashed env e h hstep =>
      have hs := mirrored_step config env _ h.mirrored
      rwa [hstep] at hs
  refine ⟨hw.indexed.nodup, hw.indexed.mem_iff, fun fd k hk => ?_, hw.closed⟩
  have hkey := (hw.indexed fd k).1 hk
  rw [List.getElem?_map] at hkey
  exact Option.map_eq_some_iff.1 hkey

/-- A client asks for a CGI, and the server shuts down. -/
def interruptedAnswers : List Answers :=
  cgiAnswers 4 getRequest 100 ++ [{ sigint := true, order := [3, 4, 7] }]

theorem pfds_mirrored_shutDown :
    (after cgiConfig [3] interruptedAnswers).server.pfds.map Pollfd.fd = [7, 4] ∧
      ∀ fd isOpen, .close fd isOpen ∈ (after cgiConfig [3] interruptedAnswers).server.calls →
        isOpen = true := by
  have hreach : Reachable cgiConfig (after cgiConfig [3] interruptedAnswers) :=
    reachable_after (by decide +kernel) (by decide +kernel)
  exact ⟨by decide +kernel, (pfds_mirrored (.reached hreach)).2.2.2⟩

end World

end Webserv
