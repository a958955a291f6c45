import Webserv.Server.Upkeep

/-!
# The open descriptors

Between two steps of a run, the open descriptors are those of the entries of `_pfds`
(`open_iff_polled`): whatever the server opens it registers or closes before the step is over, unless an
exception ends the run. So no descriptor is lost, and a server that has returned has closed everything.
-/

namespace Webserv

open Exec IndexedVector

namespace Server

variable {config : Config} {env : Answers} {s s' : Server} {fd : ℤ} {spare : List ℤ}

/-- The open descriptors are those that are registered, and the given ones. -/
structure Accounted (others : List ℤ) (s : Server) : Prop extends Mirrored others s where
  known : ∀ fd ∈ s.descriptors, fd ∈ s.fdToPfdIndex ∨ fd ∈ others

namespace Accounted

theorem perm {spare' : List ℤ} (h : s.Accounted spare) (hperm : spare'.Perm spare) :
    s.Accounted spare' :=
  { h.toMirrored.perm hperm with
    known := fun fd hfd => (h.known fd hfd).imp_right hperm.mem_iff.2 }

theorem openFd (h : s.Accounted spare) (hfd : fd ∉ s.descriptors) (fdType : FdType) :
    Accounted (fd :: spare) { s with descriptors := s.descriptors.insert fd fdType } :=
  { h.toMirrored.openFd hfd fdType with
    known := fun fd' hfd' => by
      rcases Finmap.mem_insert.1 hfd' with rfl | hfd'
      · exact .inr List.mem_cons_self
      · exact (h.known fd' hfd').imp_right (List.mem_cons_of_mem fd) }

theorem close (h : s.Accounted (fd :: spare)) : Accounted spare (s.closed fd) :=
  { h.toMirrored.close with
    known := fun fd' hfd' => by
      obtain ⟨hne, hopen⟩ := Finmap.mem_erase.1 hfd'
      exact (h.known fd' hopen).imp_right fun hmem => (List.mem_cons.1 hmem).resolve_left hne }

theorem register (h : s.Accounted (fd :: spare)) (fdType : FdType) (events : Events) :
    Accounted spare { s with
      fdToFdType := s.fdToFdType.emplace fd fdType
      fdToPfdIndex := s.fdToPfdIndex.emplace fd s.pfds.length
      pfds := s.pfds ++ [{ fd := fd, events := events }] } :=
  { h.toMirrored.register fdType events with
    known := fun fd' hfd' => by
      rcases h.known fd' hfd' with hpolled | hmem
      · exact .inl (mem_emplace.2 (.inr hpolled))
      · exact (List.mem_cons.1 hmem).imp (fun heq => mem_emplace.2 (.inl heq)) id }

theorem unregister (h : s.Accounted spare) {k : ℕ} {last : Pollfd}
    (hk : s.fdToPfdIndex.lookup fd = some k) (hlast : s.pfds.getLast? = some last) :
    Accounted (fd :: spare) (s.unregister fd k last) :=
  { h.toMirrored.unregister hk hlast with
    known := fun fd' hfd' => by
      by_cases hne : fd' = fd
      · exact .inr (hne ▸ List.mem_cons_self)
      · refine (h.known fd' hfd').imp (fun hpolled => ?_) (List.mem_cons_of_mem fd)
        exact Finmap.mem_erase.2 ⟨hne, Finmap.mem_insert.2 (.inr hpolled)⟩ }

/-- The open descriptors are the same, and so are the registered ones. -/
theorem congr (h : s.Accounted spare) (hs' : s'.Mirrored spare)
    (hopen : s'.descriptors = s.descriptors) (hindex : s'.fdToPfdIndex = s.fdToPfdIndex) :
    s'.Accounted spare :=
  { hs' with
    known := fun fd hfd => by
      rw [hindex]
      exact h.known fd (hopen ▸ hfd) }

end Accounted

/-! ## Registering and closing -/

theorem accounted_close {spare' : List ℤ} (hperm : (fd :: spare').Perm spare) {E : Server → Prop} :
    Leads (Accounted spare) (close fd) (fun _ => Accounted spare') E := by
  intro s hs
  have hs' := hs.perm hperm
  rw [close_of (hs'.spare fd List.mem_cons_self).1]
  exact hs'.close

theorem accounted_removePfd (fd : ℤ) : Leads (Accounted spare) (removePfd fd)
    (fun _ => Accounted (fd :: spare)) (Accounted spare) := by
  intro s hs
  by_cases hfd : fd ∈ s.fdToPfdIndex
  · obtain ⟨k, last, hk, hlast, hremove⟩ := removePfd_of_indexed hs.indexed hfd
    rw [hremove]
    exact hs.unregister hk hlast
  · have hnone : s.fdToPfdIndex.lookup fd = none := Finmap.lookup_eq_none.2 hfd
    have hthrow : removePfd fd s = .error .outOfRange s := by
      rw [removePfd, run_bind, run_get]
      dsimp only
      rw [lookupAt, hnone]
      rfl
    rw [hthrow]
    exact hs

theorem accounted_removeFd (fd : ℤ) : Preserves (Accounted spare) (removeFd fd) := by
  refine Leads.preserves (.bind ((preserves_assert _).leads fun _ hs => hs) fun _ => ?_)
  refine .bind (accounted_removePfd fd) fun _ => .bind (Q := fun _ => Accounted (fd :: spare)) ?_
    fun _ => accounted_close (.refl _)
  exact fun s hs => hs.congr { hs.toMirrored with } rfl rfl

theorem detached_accounted : Detached (Accounted spare) where
  clients _ hs := hs.congr (detached_mirrored.clients _ hs.toMirrored) rfl rfl
  call hs hcall := hs.congr (detached_mirrored.call hs.toMirrored hcall) rfl rfl
  pfd hs hpfd hfd := hs.congr (detached_mirrored.pfd hs.toMirrored hpfd hfd) rfl rfl
  index _ hs := hs.congr (detached_mirrored.index _ hs.toMirrored) rfl rfl
  removeFd := accounted_removeFd

/-! ## Opening -/

/-- What a function keeps may be lost when it throws. -/
theorem leads_of_accounted {α : Type} {x : ServerM α} (h : Preserves (Accounted spare) x) :
    Leads (Accounted spare) x (fun _ => Accounted spare) fun _ => True := h.leads fun _ _ => trivial

theorem accounted_addClientFd (fd : ℤ) (i : ℕ) (fdType : FdType) (events : Events) :
    Leads (Accounted (fd :: spare)) (addClientFd fd i fdType events) (fun _ => Accounted spare)
      fun _ => True := by
  have hframe : Frame (Accounted (fd :: spare)) := detached_accounted.frame
  refine .bind (leads_of_accounted (preserves_assert _)) fun _ => ?_
  refine .bind (leads_of_accounted (.modify fun _ hs => detached_accounted.index _ hs)) fun _ => ?_
  refine .bind (leads_of_accounted (preserves_assert _)) fun _ => ?_
  exact .bind (leads_of_accounted (hframe.log rfl)) fun _ s hs => hs.register fdType events

theorem accounted_pipe (proposed : Option (ℤ × ℤ)) : Leads (Accounted spare) (pipe proposed)
    (fun p => Accounted (p.1 :: p.2 :: spare)) fun _ => True := by
  intro s hs
  rcases proposed with _ | ⟨readEnd, writeEnd⟩
  · exact trivial
  · simp only [pipe, run_bind, run_get, run_ite]
    split_ifs with hopen
    · obtain ⟨⟨-, hread⟩, ⟨-, hwrite⟩, hne⟩ := hopen
      have hfresh : writeEnd ∉ s.descriptors.insert readEnd FdType.cgiToServer := by
        rw [Finmap.mem_insert]
        exact not_or.2 ⟨Ne.symm hne, hwrite⟩
      exact ((hs.openFd hread .cgiToServer).openFd hfresh .serverToCgi).perm (.swap _ _ _)
    · exact trivial

theorem accounted_fork : Preserves (Accounted spare) (fork env) := by
  unfold fork
  refine .bind_get fun s hs => ?_
  cases env.fork with
  | none => exact .throw _
  | some pid =>
    exact .ite (fun _ => .bind (.set (hs.congr { hs.toMirrored with } rfl rfl)) fun _ => .pure _)
      fun _ => .throw _

theorem accounted_startCgi (i : ℕ) :
    Leads (Accounted []) (startCgi env i) (fun _ => Accounted []) fun _ => True := by
  have hmodify : ∀ spare f, Leads (Accounted spare) (modifyClient i f) (fun _ => Accounted spare)
      fun _ => True := fun _ f => leads_of_accounted (detached_accounted.modifyClient i f)
  have hto : ∀ j fd spare, Leads (Accounted (fd :: spare)) (connectServerToCgi i j fd)
      (fun _ => Accounted spare) fun _ => True := fun j fd spare =>
    .bind (leads_of_accounted (preserves_clientAt i)) fun _ => .ite (accounted_close (.refl _)) <|
      .bind (accounted_addClientFd _ _ _ _) fun _ => .bind (hmodify _ _) fun _ =>
        leads_of_accounted (detached_accounted.frame.enableWritingToCgi i)
  have hfrom : ∀ j fd, Leads (Accounted [fd]) (connectCgiToServer i j fd) (fun _ => Accounted [])
      fun _ => True := fun j fd => .bind (accounted_addClientFd _ _ _ _) fun _ => hmodify _ _
  refine .bind (accounted_pipe _) fun toCgi => .bind (accounted_pipe _) fun fromCgi => ?_
  refine .bind (leads_of_accounted accounted_fork) fun pid => ?_
  -- the ends of the CGI are closed
  have hperm : [toCgi.1, toCgi.2, fromCgi.2, fromCgi.1].Perm
      [fromCgi.1, fromCgi.2, toCgi.1, toCgi.2] :=
    (List.Perm.swap _ _ _).trans (List.reverse_perm [fromCgi.1, fromCgi.2, toCgi.1, toCgi.2])
  refine .bind (accounted_close hperm) fun _ => .bind (accounted_close (.swap _ _ _)) fun _ => ?_
  refine .bind (leads_of_accounted (preserves_clientAt i)) fun c => .bind (hmodify _ _) fun _ => ?_
  refine .bind (leads_of_accounted (.modify fun s hs => ?_)) fun _ => ?_
  · exact hs.congr { hs.toMirrored with } rfl rfl
  refine .bind (leads_of_accounted .get) fun _ => ?_
  refine .bind (leads_of_accounted (preserves_lookupAt _ _)) fun j => ?_
  -- and those of the server are registered
  refine .bind (hto j toCgi.2 _) fun _ => .bind (hfrom j fromCgi.1) fun _ => ?_
  refine .bind (leads_of_accounted (detached_accounted.frame.log rfl)) fun _ => ?_
  exact leads_of_accounted (.modify fun s hs => hs.congr { hs.toMirrored with } rfl rfl)

theorem accounted_acceptClient (serverFd : ℤ) :
    Leads (Accounted []) (acceptClient config env serverFd) (fun _ => Accounted []) fun _ => True := by
  have haccept : Leads (Accounted []) (accept env serverFd) (fun fd => Accounted [fd])
      fun _ => True := by
    intro s hs
    cases haccept : env.accept with
    | none =>
      simp only [accept, run_bind, run_get, haccept]
      exact trivial
    | some fd =>
      simp only [accept, run_bind, run_get, haccept, run_ite]
      split_ifs with hopen
      · exact hs.openFd hopen.1.2 .client
      · exact trivial
  have hfcntl : ∀ fd, Preserves (Accounted [fd]) (fcntl env) := fun fd =>
    .ite (fun _ => .pure _) fun _ => .throw _
  refine .bind haccept fun fd => .bind (leads_of_accounted (hfcntl fd)) fun _ => ?_
  refine .bind (leads_of_accounted .get) fun _ => .bind (accounted_addClientFd _ _ _ _) fun _ => ?_
  refine .bind (leads_of_accounted .get) fun _ => ?_
  refine .bind (leads_of_accounted (preserves_lookupAt _ _)) fun _ => ?_
  refine .bind (leads_of_accounted (detached_accounted.frame.log rfl)) fun _ => ?_
  exact leads_of_accounted (.modify fun s hs => hs.congr { hs.toMirrored with } rfl rfl)

theorem noException_acceptClient (serverFd : ℤ) : NoException (acceptClient config env serverFd) := by
  have haccept : NoException (accept env serverFd) := by
    refine .bind .get fun s => ?_
    cases env.accept with
    | none => exact .throw (not_isClientException_system _)
    | some fd =>
      refine .ite (.bind (fun _ _ _ h => nomatch h) fun _ => .pure _) ?_
      exact .throw (not_isClientException_system _)
  refine .bind haccept fun fd => ?_
  refine .bind (.ite (.pure _) (.throw (not_isClientException_system _))) fun _ => ?_
  refine .bind .get fun _ => .bind (noException_addClientFd _ _ _ _) fun _ => .bind .get fun _ => ?_
  refine .bind (noException_lookupAt _ _) fun _ => .bind (noException_log _) fun _ => .modify _

theorem accounted_shutDownFds (fds : List ℤ) : Preserves (Accounted []) (shutDownFds fds) := by
  have hfd : ∀ fd, Preserves (Accounted []) (shutDownFd fd) := by
    intro fd
    refine .bind .get fun s => .ite (fun _ => Leads.preserves ?_) fun _ => .pure _
    exact .bind (accounted_removePfd fd) fun _ => accounted_close (.refl _)
  induction fds with
  | nil => exact .pure _
  | cons fd fds ih => exact .bind (hfd fd) fun _ => ih

theorem upkeep_accounted : Upkeep config (Accounted []) where
  toDetached := detached_accounted
  errno _ hs := hs.congr { hs.toMirrored with } rfl rfl
  cgis _ _ _ hs := hs.congr { hs.toMirrored with } rfl rfl
  write _ _ hs := hs.congr (hs.toMirrored.log nofun) rfl rfl
  startCgi env i := (accounted_startCgi i).maintains (noException_startCgi env i)
  acceptClient _ serverFd := (accounted_acceptClient serverFd).maintains (noException_acceptClient serverFd)
  polled events hs := by
    refine hs.congr { hs.toMirrored with indexed := ?_ } rfl rfl
    dsimp only
    rw [List.map_map]
    exact hs.indexed
  shutDownServers _ := .bind .get fun _ => accounted_shutDownFds _

/-- The constructor registers the sockets that it opens. -/
theorem accounted_listen (bindInfos : List (Bytes × List ℕ)) (bindFds : List ℤ) :
    Leads (Accounted []) (listen bindInfos bindFds) (fun _ => Accounted []) fun _ => True := by
  have hsocket : ∀ fd, Leads (Accounted []) (socket fd) (fun _ => Accounted [fd]) fun _ => True := by
    intro fd s hs
    simp only [socket, run_bind, run_get, run_ite]
    split_ifs with hopen
    · exact hs.openFd hopen.2 .server
    · exact trivial
  have hadd : ∀ fd, Leads (Accounted [fd]) (addFd fd .server { pollin := true })
      (fun _ => Accounted []) fun _ => True := by
    intro fd
    refine .bind (leads_of_accounted (preserves_assert _)) fun _ => ?_
    refine .bind (leads_of_accounted (detached_accounted.frame.log rfl)) fun _ => ?_
    exact fun s hs => hs.register .server { pollin := true }
  induction bindInfos generalizing bindFds with
  | nil => exact fun s hs => hs
  | cons bindInfo bindInfos ih =>
    cases bindFds with
    | nil => exact fun s hs => trivial
    | cons bindFd bindFds =>
      refine .bind (hsocket bindFd) fun _ => .bind (leads_of_accounted (.modify fun s hs => ?_)) fun _ => ?_
      · exact hs.congr { hs.toMirrored with } rfl rfl
      · exact .bind (hadd bindFd) fun _ => ih bindFds

theorem accounted_empty : empty.Accounted [] :=
  { mirrored_empty with known := fun _ h => absurd h Finmap.notMem_empty }

end Server

namespace World

open Server

variable {config : Config} {w : World}

theorem Reachable.accounted (h : Reachable config w) : w.server.Accounted [] := by
  induction h with
  | start h =>
    obtain ⟨bindFds, s, hlisten, rfl⟩ := h
    have hs := accounted_listen config.bindInfos bindFds _ accounted_empty
    rwa [hlisten] at hs
  | step env _ hstep ih => exact upkeep_step upkeep_accounted ih hstep

/-- **The open descriptors are those of the entries of `_pfds`**: none is lost, and none is polled that is
not open. -/
theorem open_iff_polled (h : Reachable config w) (fd : ℤ) :
    fd ∈ w.server.descriptors ↔ fd ∈ w.server.pfds.map Pollfd.fd := by
  have hs := h.accounted
  rw [← hs.indexed.mem_iff]
  refine ⟨fun hopen => ?_, hs.opened fd⟩
  rcases hs.known fd hopen with hpolled | hspare
  · exact hpolled
  · cases hspare

/-- Of the pipes to and from a CGI without a body, one end is left. -/
theorem open_iff_polled_cgi :
    (after cgiConfig [3] (cgiAnswers 4 getRequest 100)).server.pfds.map Pollfd.fd = [3, 4, 7] ∧
      ∀ fd, fd ∈ (after cgiConfig [3] (cgiAnswers 4 getRequest 100)).server.descriptors ↔
        fd ∈ (after cgiConfig [3] (cgiAnswers 4 getRequest 100)).server.pfds.map Pollfd.fd := by
  have hreach : Reachable cgiConfig (after cgiConfig [3] (cgiAnswers 4 getRequest 100)) :=
    reachable_after (by decide +kernel) (by decide +kernel)
  exact ⟨by decide +kernel, open_iff_polled hreach⟩

end World

end Webserv
