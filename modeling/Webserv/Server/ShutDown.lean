import Webserv.Server.Aside
import Webserv.Server.Descriptors
import Webserv.Server.Reaping

/-!
# The graceful shutdown

Once `run` has closed the listening sockets none is open again, so no connection is accepted any more and
those that there are only go away; when the last one is gone the server returns (`shut_down_drains`). A
server that has returned has closed every descriptor and has no client left; if no client was read from
after its request was complete and none was removed too early, every CGI has been waited for
(`stopped_clean`).
-/

namespace Webserv

open Exec History

namespace Server

variable {config : Config} {stage : Stage} {env : Answers} {s s' : Server} {fd : ℤ}

/-! ## Every listening socket is known -/

/-- `_fd_to_fd_type` has every listening socket that is polled. -/
def Listed (s : Server) : Prop := ∀ fd, s.Polls fd .server → s.fdToFdType.lookup fd = some .server

theorem Listed.congr (h : s.Listed) (hindex : s'.fdToPfdIndex = s.fdToPfdIndex)
    (htype : s'.fdToFdType = s.fdToFdType)
    (hopen : ∀ fd ∈ s.fdToPfdIndex, s'.descriptors.lookup fd = s.descriptors.lookup fd) : s'.Listed := by
  rintro fd ⟨hpolled, hkind⟩
  rw [hindex] at hpolled
  rw [htype]
  exact h fd ⟨hpolled, hopen fd hpolled ▸ hkind⟩

/-- Registering a descriptor that `_fd_to_fd_type` knows as a listening socket, or not at all. -/
theorem Listed.register (h : s.Listed) {fdType : FdType} (hkind : s.descriptors.lookup fd = some fdType)
    (hold : fd ∈ s.fdToFdType → s.fdToFdType.lookup fd = some .server) (events : Events) :
    (s.register fd fdType events).Listed := by
  intro fd' hpolls
  obtain ⟨hmem, hserver⟩ := polls_register.1 hpolls
  change (s.fdToFdType.emplace fd fdType).lookup fd' = some .server
  by_cases hknown : fd ∈ s.fdToFdType
  · rw [Map.emplace_of_mem hknown]
    rcases hmem with rfl | hpolled
    · exact hold hknown
    · exact h fd' ⟨hpolled, hserver⟩
  · rw [Map.emplace_of_notMem hknown, Map.lookup_insert_eq]
    split_ifs with heq
    · rw [heq, hkind] at hserver
      exact hserver
    · exact h fd' ⟨hmem.resolve_left heq, hserver⟩

theorem Listed.unregister (h : s.Listed) (htables : s.Tables) {k : ℕ} {last : Pollfd}
    (hlast : s.pfds.getLast? = some last)
    (hindex : s'.fdToPfdIndex = (s.unregister fd k last).fdToPfdIndex)
    (htype : s'.fdToFdType = s.fdToFdType ∨ s'.fdToFdType = s.fdToFdType.erase fd)
    (hopen : s'.descriptors = s.descriptors.erase fd) : s'.Listed := by
  rintro fd' ⟨hpolled, hkind⟩
  obtain ⟨hne, hpolled⟩ := (htables.mem_unregister hlast).1 (hindex ▸ hpolled)
  rw [hopen, Finmap.lookup_erase_ne hne] at hkind
  have hlisted := h fd' ⟨hpolled, hkind⟩
  rcases htype with heq | heq
  · rw [heq, hlisted]
  · rw [heq, Finmap.lookup_erase_ne hne, hlisted]

/-- What `_fd_to_fd_type` knows of a descriptor that is not polled. -/
theorem Tables.server_of_unpolled (h : s.Tables) (hfd : fd ∉ s.fdToPfdIndex) :
    fd ∈ s.fdToFdType → s.fdToFdType.lookup fd = some .server := by
  intro hmem
  obtain ⟨fdType, hlookup⟩ := Finmap.mem_iff.1 hmem
  by_cases hserver : fdType = .server
  · rw [hlookup, hserver]
  · exact absurd (h.typed fd fdType hlookup hserver).1 hfd

/-- **Every action keeps the listening sockets known.** -/
theorem Listed.action (h : s.Listed) (hs : s.Good) (haction : Action config stage s s') : s'.Listed := by
  cases haction with
  | kernel descriptors errno hopen => exact h.congr rfl rfl hopen
  | close fd hfd =>
    exact h.congr rfl rfl fun fd' hpolled =>
      Finmap.lookup_erase_ne fun heq : fd' = fd => hfd (heq ▸ hpolled)
  | polled | log | change | stopReading | answer | orphan | wait | reap =>
    exact h.congr rfl rfl fun _ _ => rfl
  | start i c pid toCgi fromCgi _ _ _ _ _ hto hfrom hne =>
    cases toCgi with
    | none =>
      have hregister := h.register hfrom.1 (hs.toTables.server_of_unpolled hfrom.2) { pollin := true }
      exact hregister.congr rfl rfl fun _ _ => rfl
    | some fd =>
      have hspare := hto fd rfl
      have hfd : fromCgi ≠ fd := fun heq => hne (heq ▸ rfl)
      have hregister := h.register hspare.1 (hs.toTables.server_of_unpolled hspare.2) { pollout := true }
      have htables := hs.toTables.register hspare.2 hspare.1 { pollout := true }
      have hold := htables.server_of_unpolled fun hmem => (mem_emplace.1 hmem).elim hfd hfrom.2
      have hregister' := hregister.register hfrom.1 hold { pollin := true }
      exact hregister'.congr rfl rfl fun _ _ => rfl
  | release i c fdType k last new hi hpipe _ _ hlast =>
    exact h.unregister hs.toTables hlast rfl (.inr rfl) rfl
  | accept fd serverFd serverPort hopen =>
    have hnew := hs.notMem_of_canOpen hopen
    have hopened : Listed { s with descriptors := s.descriptors.insert fd FdType.client } := by
      refine h.congr rfl rfl fun fd' hpolled => ?_
      exact Finmap.lookup_insert_of_ne _ fun heq : fd' = fd => hnew (heq ▸ hpolled)
    have hregister := hopened.register (Finmap.lookup_insert _)
      (hs.toTables.server_of_unpolled hnew) { pollin := true }
    exact hregister.congr rfl rfl fun _ _ => rfl
  | erase i c last this src k lastPfd _ _ _ _ _ hlastPfd =>
    exact h.unregister hs.toTables hlastPfd rfl (.inr rfl) rfl
  | listen fd _ _ hopen =>
    have hnew := hs.notMem_of_canOpen hopen
    have hopened : Listed { s with descriptors := s.descriptors.insert fd FdType.server } := by
      refine h.congr rfl rfl fun fd' hpolled => ?_
      exact Finmap.lookup_insert_of_ne _ fun heq : fd' = fd => hnew (heq ▸ hpolled)
    have hregister := hopened.register (Finmap.lookup_insert _)
      (hs.toTables.server_of_unpolled hnew) { pollin := true }
    exact hregister.congr rfl rfl fun _ _ => rfl
  | shutDown fd k last _ _ hlast => exact h.unregister hs.toTables hlast rfl (.inl rfl) rfl

theorem listed_empty : empty.Listed := fun _ h => absurd h.1 Finmap.notMem_empty

/-! ## Closing the listening sockets -/

/-- No listening socket is open, and the connections are among the given ones. -/
structure Closing (connections : Set ℤ) (descriptors : Map ℤ FdType) : Prop where
  server : ∀ fd, descriptors.lookup fd ≠ some .server
  client : ∀ fd, descriptors.lookup fd = some .client → fd ∈ connections

variable {connections : Set ℤ}

theorem Closing.erase {descriptors : Map ℤ FdType} (h : Closing connections descriptors) (fd : ℤ) :
    Closing connections (descriptors.erase fd) := by
  have hlookup : ∀ fd' fdType, (descriptors.erase fd).lookup fd' = some fdType →
      descriptors.lookup fd' = some fdType := by
    intro fd' fdType hkind
    rw [Map.lookup_erase_eq] at hkind
    split_ifs at hkind
    exact hkind
  exact ⟨fun fd' hkind => h.server fd' (hlookup fd' _ hkind), fun fd' hkind =>
    h.client fd' (hlookup fd' _ hkind)⟩

theorem Closing.insert {descriptors : Map ℤ FdType} (h : Closing connections descriptors) (fd : ℤ)
    {fdType : FdType} (hpipe : fdType.IsPipe) : Closing connections (descriptors.insert fd fdType) := by
  have hlookup : ∀ fd' fdType', ¬ fdType'.IsPipe →
      (descriptors.insert fd fdType).lookup fd' = some fdType' → descriptors.lookup fd' = some fdType' := by
    intro fd' fdType' hother hkind
    rw [Map.lookup_insert_eq] at hkind
    split_ifs at hkind
    · exact absurd (Option.some.inj hkind ▸ hpipe) hother
    · exact hkind
  exact ⟨fun fd' hkind => h.server fd' (hlookup fd' _ (fun hserver => hserver.ne_server rfl) hkind),
    fun fd' hkind => h.client fd' (hlookup fd' _ (fun hclient => hclient.ne_client rfl) hkind)⟩

theorem closing_close (fd : ℤ) : Preserves (fun s => Closing connections s.descriptors) (close fd) :=
  .bind .get fun _ => .bind (.modify fun _ hs => hs) fun _ => .bind .get fun _ =>
    .ite (fun _ => .modify fun _ hs => hs.erase fd) fun _ => .throw _

theorem closing_removePfd (fd : ℤ) :
    Preserves (fun s => Closing connections s.descriptors) (removePfd fd) := by
  have hswap : ∀ k, Preserves (fun s => Closing connections s.descriptors) (swapRemovePfd k) := by
    intro k
    refine .bind .get fun s => ?_
    split
    · exact .modify fun _ hs => hs
    · exact .throw _
  refine .bind .get fun _ => .bind (preserves_lookupAt _ _) fun k => .bind .get fun s => ?_
  split
  · exact .throw _
  · exact .bind (.modify fun _ hs => hs) fun _ => .bind (hswap k) fun _ => .modify fun _ hs => hs

theorem detached_closing : Detached fun s => Closing connections s.descriptors where
  clients _ hs := hs
  call hs _ := hs
  pfd hs _ _ := hs
  index _ hs := hs
  removeFd fd := .bind (preserves_assert _) fun _ => .bind (closing_removePfd fd) fun _ =>
    .bind (.modify fun _ hs => hs) fun _ => closing_close fd

theorem closing_startCgi (i : ℕ) :
    Preserves (fun s => Closing connections s.descriptors) (startCgi env i) := by
  have hpipe : ∀ proposed, Preserves (fun s => Closing connections s.descriptors) (pipe proposed) := by
    intro proposed
    unfold pipe
    refine .bind_get fun s hs => ?_
    cases proposed with
    | none => exact .throw _
    | some ends =>
      refine .ite (fun _ => .bind (.set ?_) fun _ => .pure _) fun _ => .throw _
      exact (hs.insert ends.1 (.inr rfl)).insert ends.2 (.inl rfl)
  have hfork : Preserves (fun s => Closing connections s.descriptors) (fork env) := by
    unfold fork
    refine .bind_get fun s hs => ?_
    cases env.fork with
    | none => exact .throw _
    | some pid => exact .ite (fun _ => .bind (.set hs) fun _ => .pure _) fun _ => .throw _
  have hadd : ∀ fd j fdType events, Preserves (fun s => Closing connections s.descriptors)
      (addClientFd fd j fdType events) := fun fd j fdType events =>
    .bind (preserves_assert _) fun _ => .bind (.modify fun _ hs => hs) fun _ =>
      .bind (preserves_assert _) fun _ => .bind (.modify fun _ hs => hs) fun _ => .modify fun _ hs => hs
  have hmodify : ∀ f, Preserves (fun s => Closing connections s.descriptors) (modifyClient i f) :=
    fun f => detached_closing.modifyClient i f
  have hto : ∀ j fd, Preserves (fun s => Closing connections s.descriptors)
      (connectServerToCgi i j fd) := fun j fd =>
    .bind (preserves_clientAt i) fun _ => .ite (fun _ => closing_close fd) fun _ =>
      .bind (hadd _ _ _ _) fun _ => .bind (hmodify _) fun _ =>
        detached_closing.frame.enableWritingToCgi i
  refine .bind (hpipe _) fun _ => .bind (hpipe _) fun _ => .bind hfork fun _ => ?_
  refine .bind (closing_close _) fun _ => .bind (closing_close _) fun _ => ?_
  refine .bind (preserves_clientAt i) fun _ => .bind (hmodify _) fun _ => ?_
  refine .bind (.modify fun _ hs => hs) fun _ => .bind .get fun _ => ?_
  refine .bind (preserves_lookupAt _ _) fun j => .bind (hto j _) fun _ => ?_
  refine .bind (.bind (hadd _ _ _ _) fun _ => hmodify _) fun _ => ?_
  exact .bind (.modify fun _ hs => hs) fun _ => .modify fun _ hs => hs

/-- Without an open listening socket no connection is accepted. -/
theorem Closing.acceptClient_throws (h : Closing connections s.descriptors) (serverFd : ℤ) :
    acceptClient config env serverFd s = .error (.system .accept) s := by
  have haccept : accept env serverFd s = .error (.system .accept) s := by
    cases haccept : env.accept with
    | none => simp only [accept, run_bind, run_get, haccept, run_throw]
    | some fd =>
      have hnone : ¬ (s.CanOpen fd ∧ s.descriptors.lookup serverFd = some .server) := fun hopen =>
        h.server serverFd hopen.2
      simp only [accept, run_bind, run_get, haccept, run_ite, if_neg hnone, run_throw]
  exact bind_of_error haccept

theorem closing_shutDownFds (fds : List ℤ) :
    Preserves (fun s => Closing connections s.descriptors) (shutDownFds fds) := by
  induction fds with
  | nil => exact .pure _
  | cons fd fds ih =>
    refine .bind (.bind .get fun s => .ite (fun _ => ?_) fun _ => .pure _) fun _ => ih
    exact .bind (closing_removePfd fd) fun _ => closing_close fd

theorem upkeep_closing : Upkeep config fun s => Closing connections s.descriptors where
  toDetached := detached_closing
  errno _ hs := hs
  cgis _ _ _ hs := hs
  write _ _ hs := hs
  startCgi _ i := (closing_startCgi i).maintains
  acceptClient env serverFd := fun s hs => by
    rw [hs.acceptClient_throws serverFd]
    exact fun _ => hs
  polled _ hs := hs
  shutDownServers _ := .bind .get fun _ => closing_shutDownFds _

/-! ## What `_shutDownServers` leaves open -/

/-- Without anything to poll there is nothing to shut down. -/
theorem shutDownFds_of_unpolled (hnone : ∀ fd, fd ∉ s.fdToPfdIndex) (fds : List ℤ) :
    shutDownFds fds s = .ok () s := by
  induction fds with
  | nil => rfl
  | cons fd fds ih =>
    have hfd : shutDownFd fd s = .ok () s := by
      rw [shutDownFd, run_bind, run_get]
      dsimp only
      rw [run_ite, if_neg fun h => hnone fd h.2, run_pure]
    rw [shutDownFds, bind_of_ok hfd, ih]

/-- What is polled after the loop of `_shutDownServers` was so before, and is not one of the listening
sockets that the loop met; and nothing was opened. -/
theorem shutDownFds_closes {fds : List ℤ} {u : Unit} (hs : s.Accounted [])
    (h : shutDownFds fds s = .ok u s') :
    (∀ fd ∈ s'.fdToPfdIndex, fd ∈ s.fdToPfdIndex ∧
      (fd ∈ fds → s.fdToFdType.lookup fd ≠ some .server)) ∧
    ∀ fd fdType, s'.descriptors.lookup fd = some fdType → s.descriptors.lookup fd = some fdType := by
  induction fds generalizing s with
  | nil =>
    cases h
    exact ⟨fun fd hfd => ⟨hfd, nofun⟩, fun _ _ hkind => hkind⟩
  | cons fd fds ih =>
    obtain ⟨_, s₁, hfd, h⟩ := bind_eq_ok h
    obtain ⟨_, _, ⟨⟩, hfd⟩ := bind_eq_ok hfd
    rw [run_ite] at hfd
    split_ifs at hfd with hserver
    · obtain ⟨_, s₂, hremove, hclose⟩ := bind_eq_ok hfd
      obtain ⟨k, last, hk, hlast, rfl⟩ := removePfd_ok hremove
      obtain ⟨-, rfl⟩ := close_ok hclose
      obtain ⟨hpolled, hopen⟩ := ih (hs.unregister hk hlast).close h
      have hlastMem : last.fd ∈ s.fdToPfdIndex :=
        (hs.indexed.mem_iff _).2 (List.mem_map_of_mem (List.mem_of_getLast? hlast))
      constructor
      · intro fd' hfd'
        obtain ⟨hmem, hother⟩ := hpolled fd' hfd'
        obtain ⟨hne, hmem⟩ := Finmap.mem_erase.1 hmem
        refine ⟨?_, fun hin => hother ((List.mem_cons.1 hin).resolve_left hne)⟩
        rcases Finmap.mem_insert.1 hmem with rfl | hmem
        · exact hlastMem
        · exact hmem
      · intro fd' fdType hkind
        have hkind' := hopen fd' fdType hkind
        change (s.descriptors.erase fd).lookup fd' = some fdType at hkind'
        rw [Map.lookup_erase_eq] at hkind'
        split_ifs at hkind'
        exact hkind'
    · cases hfd
      obtain ⟨hpolled, hopen⟩ := ih hs h
      refine ⟨fun fd' hfd' => ?_, hopen⟩
      obtain ⟨hmem, hother⟩ := hpolled fd' hfd'
      refine ⟨hmem, fun hin => ?_⟩
      rcases List.mem_cons.1 hin with rfl | hin
      · exact fun htype => hserver ⟨htype, hmem⟩
      · exact hother hin

theorem mem_iterationOrder {order : List ℤ} {keys : Finset ℤ} {key : ℤ} :
    key ∈ iterationOrder order keys ↔ key ∈ keys := by
  unfold iterationOrder
  split_ifs with heq
  · rw [← Multiset.mem_coe, heq, Finset.mem_val]
  · exact Finset.mem_sort _

/-- **`_shutDownServers` closes every listening socket.** -/
theorem shutDownServers_closes {u : Unit} (hs : s.Accounted []) (hlisted : s.Listed)
    (h : shutDownServers env s = .ok u s') : Closing Set.univ s'.descriptors := by
  obtain ⟨_, _, ⟨⟩, hfds⟩ := bind_eq_ok h
  refine ⟨fun fd hkind => ?_, fun fd _ => Set.mem_univ fd⟩
  have hs' : s'.Accounted [] :=
    (accounted_shutDownFds _).of_ok hs hfds
  obtain ⟨hpolled, hopen⟩ := shutDownFds_closes hs hfds
  have hfd : fd ∈ s'.fdToPfdIndex := by
    rcases hs'.known fd (Map.mem_of_lookup hkind) with hfd | hfd
    · exact hfd
    · cases hfd
  obtain ⟨hmem, hother⟩ := hpolled fd hfd
  have htype := hlisted fd ⟨hmem, hopen fd _ hkind⟩
  exact hother (mem_iterationOrder.2 (Finmap.mem_keys.2 (Map.mem_of_lookup htype))) htype

/-! ## CGIs that were not waited for -/

/-- Every child that was not waited for has an entry in `_cgi_pid_to_client_fd`. -/
def Awaited (s : Server) : Prop := ∀ pid ∈ s.children, pid ∈ s.cgiPidToClientFd

theorem Awaited.action (h : s.Awaited) (hs : s.Good) (hlate : NoLateRead s.calls)
    (hearly : NoEarlyRemoval s.calls) (haction : Action config stage s s') : s'.Awaited := by
  cases haction with
  | kernel | close | polled | log | change | stopReading | answer | release | orphan | accept | erase
  | listen | shutDown => exact h
  | start i c pid =>
    intro pid' hpid'
    rcases Finset.mem_insert.1 hpid' with rfl | hpid'
    · exact mem_emplace.2 (.inl rfl)
    · exact mem_emplace.2 (.inr (h pid' hpid'))
  | wait pid => exact fun pid' hpid' => h pid' (Finset.mem_of_mem_erase hpid')
  | reap i c pid clientFd status hi _ _ hlookup hindex =>
    obtain ⟨j, d, hindex', hj, -, hpid, -⟩ := hs.client_of_pid hlate hearly hlookup
    obtain rfl := Option.some.inj (hindex'.symm.trans hindex)
    obtain rfl := Option.some.inj (hj.symm.trans hi)
    intro pid' hpid'
    obtain ⟨hne, hmem⟩ := Finset.mem_erase.1 hpid'
    exact Finmap.mem_erase.2 ⟨hpid ▸ hne, h pid' hmem⟩

end Server

/-! ## Runs -/

namespace World

open Server

variable {config : Config} {env : Answers} {w w' : World}

theorem Reachable.listed (h : Reachable config w) : w.server.Listed :=
  h.invariant listed_empty fun hs hold haction => hold.action hs haction

/-- The top of the loop, cut after that part: `run` returns if nothing is polled, or calls `poll`. -/
theorem top_ok {u : Unit} (h : top env w = .ok u w') : ∃ w₁, shutDown env w = .ok () w₁ ∧
    ((w₁.server.pfds = [] ∧ ∃ s', shutDownServers env w₁.server = .ok () s' ∧
        w' = { w₁ with server := s', phase := .stopped }) ∨
      poll env w₁ = .ok u w') := by
  obtain ⟨_, w₁, hshut, h⟩ := bind_eq_ok h
  refine ⟨w₁, hshut, ?_⟩
  obtain ⟨_, _, ⟨⟩, h⟩ := bind_eq_ok h
  rw [run_ite] at h
  split_ifs at h with hempty
  · obtain ⟨_, w₂, hservers, h⟩ := bind_eq_ok h
    obtain ⟨s', hservers', rfl⟩ := onServer_ok hservers
    cases h
    exact .inl ⟨List.length_eq_zero_iff.1 hempty, s', hservers', rfl⟩
  · exact .inr h

/-- **Once the server shuts down, no listening socket is open.** -/
theorem Reachable.closing (h : Reachable config w) (hshut : w.serversActive = false) :
    Closing Set.univ w.server.descriptors := by
  induction h with
  | start h =>
    obtain ⟨bindFds, s, -, rfl⟩ := h
    cases hshut
  | step env h hstep ih =>
    rename_i w w'
    cases hactive : w.serversActive with
    | false => exact upkeep_step upkeep_closing (ih hactive) hstep
    | true =>
      rcases step_ok hstep with ⟨-, htop⟩ | ⟨-, again, s', -, rfl⟩ | ⟨i, n, -, -, s', -, rfl⟩ |
        ⟨-, rfl⟩ | ⟨-, rfl⟩ | ⟨k, seenFds, -, seenFds', s', -, rfl⟩ | ⟨-, rfl⟩
      · obtain ⟨w₁, hshutDown, hrest⟩ := top_ok htop
        have hkept : w'.serversActive = w₁.serversActive := by
          rcases hrest with ⟨-, s', -, rfl⟩ | hpoll
          · rfl
          · have hacts : Actions config .polling w₁.server w'.server ∧ _ := poll_acts hpoll
            exact hacts.2
        rcases shutDown_ok hshutDown with ⟨-, -, s', hservers, rfl⟩ | rfl
        · have hkeep : Upkeep config (Accounted []) := upkeep_accounted
          have hs := hkeep.errno (w.interrupted env).server.errno h.accounted
          have hlisted := h.listed.congr rfl rfl fun _ _ => rfl
          have hclosing : Closing Set.univ s'.descriptors := shutDownServers_closes hs hlisted hservers
          rcases hrest with ⟨-, s'', hservers', rfl⟩ | hpoll
          · obtain ⟨_, _, ⟨⟩, hfds⟩ := bind_eq_ok hservers'
            exact (closing_shutDownFds _).of_ok hclosing hfds
          · obtain rfl | ⟨events, phase, -, rfl, -⟩ := poll_ok hpoll
            · exact hclosing
            · exact hclosing
        · rw [hkept] at hshut
          cases hactive.symm.trans hshut
      all_goals cases hactive.symm.trans hshut

/-- A server that has returned polls nothing. -/
theorem Reachable.unpolled (h : Reachable config w) (hstop : w.phase = .stopped) :
    w.server.pfds = [] := by
  induction h with
  | start h =>
    obtain ⟨bindFds, s, -, rfl⟩ := h
    cases hstop
  | step env h hstep ih =>
    rename_i w w'
    rcases step_ok hstep with ⟨hphase, htop⟩ | ⟨-, again, s', -, rfl⟩ | ⟨i, n, -, -, s', -, rfl⟩ |
      ⟨-, rfl⟩ | ⟨-, rfl⟩ | ⟨k, seenFds, -, seenFds', s', -, rfl⟩ | ⟨hphase, rfl⟩
    · obtain ⟨w₁, hshutDown, ⟨hempty, s', hservers, rfl⟩ | hpoll⟩ := top_ok htop
      · obtain ⟨_, _, ⟨⟩, hfds⟩ := bind_eq_ok hservers
        have hnone : ∀ fd, fd ∉ w₁.server.fdToPfdIndex := by
          have hw₁ : w₁.server.Accounted [] := by
            have hkeep : Upkeep config (Accounted []) := upkeep_accounted
            have hs := hkeep.errno (w.interrupted env).server.errno h.accounted
            rcases shutDown_ok hshutDown with ⟨-, -, s₁, hservers₁, rfl⟩ | rfl
            · exact (hkeep.shutDownServers env).of_ok hs hservers₁
            · exact hs
          intro fd hfd
          have hmem := (hw₁.indexed.mem_iff fd).1 hfd
          rw [hempty] at hmem
          cases hmem
        obtain rfl := shutDownFds_nothing hnone hfds
        exact hempty
      · have hphase₁ : w₁.phase = .top := by
          rcases shutDown_ok hshutDown with ⟨-, -, s₁, -, rfl⟩ | rfl
          · exact hphase
          · exact hphase
        obtain rfl | ⟨events, phase, -, rfl, hnext⟩ := poll_ok hpoll
        · cases hphase₁.symm.trans hstop
        · change phase = .stopped at hstop
          rw [hstop, hphase₁] at hnext
          rcases hnext with hnext | hnext | hnext | hnext <;> cases hnext
    · cases again <;> cases hstop
    · cases hstop
    · cases hstop
    · cases hstop
    · cases hstop
    · exact ih hphase

theorem Reachable.awaited (h : Reachable config w) (hlate : NoLateRead w.server.calls)
    (hearly : NoEarlyRemoval w.server.calls) : w.server.Awaited := by
  refine h.invariant (I := fun s => NoLateRead s.calls → NoEarlyRemoval s.calls → s.Awaited)
    (fun _ _ pid hpid => absurd hpid (Finset.notMem_empty pid)) ?_ hlate hearly
  intro stage s s' hs hold haction hlate' hearly'
  have hlate := hlate'.of_suffix haction.suffix
  have hearly := hearly'.of_suffix haction.suffix
  exact (hold hlate hearly).action hs hlate hearly haction

/-- **A server that has returned has closed every descriptor and has no client left**; if no client was
read from after its request was complete and none was removed before its CGI was reaped, there is no
CGI left that was not waited for. -/
theorem stopped_clean (h : Reachable config w) (hstop : w.phase = .stopped) :
    w.server.descriptors = ∅ ∧ w.server.clients = [] ∧
      (NoLateRead w.server.calls → NoEarlyRemoval w.server.calls → w.server.children = ∅) := by
  have hs := h.good.server
  have hnone : ∀ fd, fd ∉ w.server.fdToPfdIndex := by
    intro fd hfd
    have hmem := (hs.indexed.mem_iff fd).1 hfd
    rw [h.unpolled hstop] at hmem
    cases hmem
  have hclients : w.server.clients = [] := by
    refine List.eq_nil_iff_forall_not_mem.2 fun c hc => ?_
    obtain ⟨i, hi⟩ := List.mem_iff_getElem?.1 hc
    exact hnone _ (hs.held i c .client hi (hs.clientFd_ne hi)).1.1
  refine ⟨?_, hclients, fun hlate hearly => ?_⟩
  · refine Finmap.ext_lookup fun fd => ?_
    rw [Finmap.lookup_empty, Finmap.lookup_eq_none]
    intro hfd
    rcases h.accounted.known fd hfd with hpolled | hspare
    · exact hnone fd hpolled
    · cases hspare
  · refine Finset.eq_empty_of_forall_notMem fun pid hpid => ?_
    obtain ⟨fd, hlookup⟩ := Finmap.mem_iff.1 (h.awaited hlate hearly pid hpid)
    obtain ⟨c, hc, -⟩ := (hs.orderly hlate hearly).reapable pid fd hlookup
    rw [hclients] at hc
    cases hc

/-- `run` returns when nothing is polled. -/
theorem step_stops (hphase : w.phase = .top) (hempty : w.server.pfds = [])
    (hnone : ∀ fd, fd ∉ w.server.fdToPfdIndex) :
    ∃ w', step config env w = .ok () w' ∧ w'.phase = .stopped := by
  have hservers : shutDownServers env (w.interrupted env).server = .ok () (w.interrupted env).server :=
    shutDownFds_of_unpolled (s := (w.interrupted env).server) hnone _
  obtain ⟨w₁, hshutDown, hserver⟩ : ∃ w₁, shutDown env (w.interrupted env) = .ok () w₁ ∧
      w₁.server = (w.interrupted env).server := by
    rw [shutDown, run_bind, run_get]
    dsimp only
    rw [run_ite]
    split_ifs
    · refine ⟨{ w.interrupted env with serversActive := false }, ?_, rfl⟩
      rw [run_bind, run_set]
      dsimp only
      rw [onServer, hservers]
    · exact ⟨_, rfl, rfl⟩
  have htop : top env (w.interrupted env) = .ok () { w₁ with phase := .stopped } := by
    have hlength : w₁.server.pfds.length = 0 := by
      rw [hserver]
      exact List.length_eq_zero_iff.2 hempty
    rw [top, bind_of_ok hshutDown, run_bind, run_get]
    dsimp only
    rw [run_ite, if_pos hlength, run_bind, onServer, hserver, hservers]
    dsimp only
    rw [← hserver]
    rfl
  obtain ⟨server, phase, serversActive, shuttingDownGracefully⟩ := w
  obtain rfl : phase = .top := hphase
  exact ⟨{ w₁ with phase := .stopped }, htop, rfl⟩

/-- A signal arrives while a CGI without a body runs. -/
def signalAnswers : List Answers :=
  cgiAnswers 4 getRequest 100 ++
    [{ sigint := true, order := [3, 4, 7], poll := some fun fd => { pollin := fd = 7 } }]

/-- The CGI answers and exits, the response is sent, the client is removed, and `run` is back at the
top. -/
def drainAnswers : List Answers :=
  [{}, { read := some (bytes "Content-Type: a\x0d\n\x0d\nb") }, {},
    { poll := some fun fd => { pollhup := fd = 7 } }, {}, {}, {}, {},
    { waitpid := some (100, some 0) }, {}, {}, {},
    { poll := some fun fd => { pollout := fd = 4 } }, { write := some 1000 }, {}]

/-- The whole run. -/
def drainedAnswers : List Answers := signalAnswers ++ drainAnswers ++ [({} : Answers)]

theorem stopped_clean_drained :
    (after cgiConfig [3] drainedAnswers).server.descriptors = ∅ ∧
      (after cgiConfig [3] drainedAnswers).server.clients = [] ∧
      (after cgiConfig [3] drainedAnswers).server.children = ∅ := by
  have hreach : Reachable cgiConfig (after cgiConfig [3] drainedAnswers) :=
    reachable_after (by decide +kernel) (by decide +kernel)
  obtain ⟨hdescriptors, hclients, hchildren⟩ := stopped_clean hreach (by decide +kernel)
  exact ⟨hdescriptors, hclients, hchildren (by decide +kernel) (by decide +kernel)⟩

/-- **Once the server shuts down, no connection is accepted any more**: no listening socket is open in any
later state, and every connection that there is was there before. When the last client is gone, and none
was read from after its request was complete or removed before its CGI was reaped, the server returns. -/
theorem shut_down_drains (h : Reachable config w) (hshut : w.serversActive = false)
    {envs : List Answers} (hrun : run config envs w = .ok () w') :
    (∀ fd, w'.server.descriptors.lookup fd ≠ some .server) ∧
    (∀ c' ∈ w'.server.clients, ∃ c ∈ w.server.clients, c.clientFd = c'.clientFd) ∧
    (w'.phase = .top → w'.server.clients = [] → NoLateRead w'.server.calls →
      NoEarlyRemoval w'.server.calls → ∀ env, ∃ w'', step config env w' = .ok () w'' ∧
        w''.phase = .stopped) := by
  have hs := h.good.server
  have hs' := (h.run hrun).good.server
  -- the connections are among those that there are now
  have hnow : Closing {fd | w.server.descriptors.lookup fd = some .client} w.server.descriptors :=
    ⟨(h.closing hshut).server, fun _ hkind => hkind⟩
  have hclosing := upkeep_run upkeep_closing hnow hrun
  refine ⟨hclosing.server, fun c' hc' => ?_, fun hphase hempty hlate hearly env => ?_⟩
  · obtain ⟨i, hi⟩ := List.mem_iff_getElem?.1 hc'
    have hkind := hclosing.client _ (hs'.held i c' .client hi (hs'.clientFd_ne hi)).1.2
    have hpolled : c'.clientFd ∈ w.server.fdToPfdIndex := by
      rcases h.accounted.known _ (Map.mem_of_lookup hkind) with hpolled | hspare
      · exact hpolled
      · cases hspare
    obtain ⟨c, hc, hfd⟩ := List.mem_map.1 (hs.owned _ ⟨hpolled, hkind⟩)
    exact ⟨c, hc, hfd⟩
  · have hnone : ∀ fd, fd ∉ w'.server.fdToPfdIndex := by
      intro fd hfd
      obtain ⟨fdType, hkind, -⟩ := hs'.opened fd hfd
      have hserver : fdType ≠ .server := fun heq => hclosing.server fd (heq ▸ hkind)
      obtain ⟨c, hc, -⟩ := (hs'.orderly hlate hearly).attached fd fdType hserver ⟨hfd, hkind⟩
      rw [hempty] at hc
      cases hc
    refine step_stops hphase (List.eq_nil_iff_forall_not_mem.2 fun pfd hpfd => ?_) hnone
    exact hnone _ ((hs'.indexed.mem_iff _).2 (List.mem_map_of_mem hpfd))

/-- The last client is gone when the response of its CGI has been sent. -/
theorem shut_down_drains_cgi :
    ∃ w', run cgiConfig drainAnswers (after cgiConfig [3] signalAnswers) = .ok () w' ∧
      w'.server.clients = [] ∧ ∀ env, ∃ w'', step cgiConfig env w' = .ok () w'' ∧
        w''.phase = .stopped := by
  have hreach : Reachable cgiConfig (after cgiConfig [3] signalAnswers) :=
    reachable_after (by decide +kernel) (by decide +kernel)
  have hrun := eq_ok_of_thrown
    (r := run cgiConfig drainAnswers (after cgiConfig [3] signalAnswers)) (by decide +kernel)
  have hdrains := shut_down_drains hreach (by decide +kernel) hrun
  have hclients : (finalState (run cgiConfig drainAnswers
      (after cgiConfig [3] signalAnswers))).server.clients.length = 0 := by decide +kernel
  have hempty := List.length_eq_zero_iff.1 hclients
  exact ⟨_, hrun, hempty, hdrains.2.2 (by decide +kernel) hempty (by decide +kernel) (by decide +kernel)⟩

end World

end Webserv
