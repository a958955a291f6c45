import Webserv.Server.RunTrace

/-!
# States, descriptors and event masks

The four states of a client agree with the descriptors it holds (`Sound`) and with the events that
these are polled for (`Masked`). So the assertions about these states cannot fail for an event on a
descriptor that a client holds, also when the event is handled after others of the same descriptor.
-/

namespace Webserv

open Server History

namespace Server

/-- The events that a descriptor is polled for agree with the states of a client that holds it. -/
structure Matches (pfd : Pollfd) (c : Client) : Prop where
  written : pfd.fd = c.clientFd →
    (pfd.events.pollout = true ↔ c.serverToClientState = .writing)
  read : pfd.fd = c.clientFd → pfd.events.pollin = false → c.clientToServerState = .done
  toCgi : pfd.fd = c.serverToCgiFd → pfd.events.pollout = true
  fromCgi : pfd.fd = c.cgiToServerFd → pfd.events.pollin = true

/-- What the descriptors are polled for. -/
structure Masked (s : Server) : Prop where
  /-- `poll` has only reported what it was asked for. -/
  within : ∀ pfd ∈ s.pfds, pfd.revents.Within pfd.events
  matched : ∀ pfd ∈ s.pfds, ∀ c ∈ s.clients, Matches pfd c

/-- A client that is polled for what another one is polled for. -/
structure Inherits (c c' : Client) : Prop where
  clientFd : c'.clientFd = c.clientFd
  serverToClientState : c'.serverToClientState = c.serverToClientState
  done : c.clientToServerState = .done → c'.clientToServerState = .done
  toCgi : c'.serverToCgiFd = c.serverToCgiFd ∨ c'.serverToCgiFd = -1
  fromCgi : c'.cgiToServerFd = c.cgiToServerFd ∨ c'.cgiToServerFd = -1

variable {config : Config} {stage : Stage} {s s' : Server} {c c' : Client} {pfd : Pollfd}

theorem Inherits.refl (c : Client) : Inherits c c := ⟨rfl, rfl, id, .inl rfl, .inl rfl⟩

theorem Inherits.change {calls new : List Call} (h : Change calls c new c') : Inherits c c' :=
  ⟨h.clientFd, h.serverToClientState, h.done, .inl (h.fdOf .serverToCgi), .inl (h.fdOf .cgiToServer)⟩

theorem Inherits.release (c : Client) {fdType : FdType} (hpipe : fdType.IsPipe) :
    Inherits c (c.release fdType) := by
  rcases hpipe with rfl | rfl
  · exact ⟨rfl, rfl, id, .inr rfl, .inl rfl⟩
  · exact ⟨rfl, rfl, id, .inl rfl, .inr rfl⟩

theorem Matches.inherit (h : Matches pfd c) (hne : pfd.fd ≠ -1) (hc : Inherits c c') :
    Matches pfd c' where
  written hfd := by
    rw [hc.serverToClientState]
    exact h.written (hfd.trans hc.clientFd)
  read hfd hin := hc.done (h.read (hfd.trans hc.clientFd) hin)
  toCgi hfd := by
    rcases hc.toCgi with heq | heq
    · exact h.toCgi (hfd.trans heq)
    · exact absurd (hfd.trans heq) hne
  fromCgi hfd := by
    rcases hc.fromCgi with heq | heq
    · exact h.fromCgi (hfd.trans heq)
    · exact absurd (hfd.trans heq) hne

/-- A descriptor that a client does not hold is polled for whatever it is. -/
theorem Matches.of_ne (h : ∀ fdType, fdType ≠ .server → pfd.fd ≠ c.fdOf fdType) : Matches pfd c where
  written hfd := absurd hfd (h .client nofun)
  read hfd := absurd hfd (h .client nofun)
  toCgi hfd := absurd hfd (h .serverToCgi nofun)
  fromCgi hfd := absurd hfd (h .cgiToServer nofun)

theorem masked_empty : empty.Masked where
  within _ hpfd := nomatch hpfd
  matched _ hpfd := nomatch hpfd

theorem Good.fd_ne (hs : s.Good) (hpfd : pfd ∈ s.pfds) : pfd.fd ≠ -1 :=
  hs.ne_neg_one ((hs.indexed.mem_iff pfd.fd).2 (List.mem_map_of_mem hpfd))

/-- Descriptors are taken out, and clients inherit what they are polled for. -/
theorem Masked.mono (h : s.Masked) (hs : s.Good) (hpfds : ∀ pfd ∈ s'.pfds, pfd ∈ s.pfds)
    (hclients : ∀ c' ∈ s'.clients, ∃ c ∈ s.clients, Inherits c c') : s'.Masked where
  within pfd hpfd := h.within pfd (hpfds pfd hpfd)
  matched pfd hpfd c' hc' := by
    obtain ⟨c, hc, hinherits⟩ := hclients c' hc'
    exact (h.matched pfd (hpfds pfd hpfd) c hc).inherit (hs.fd_ne (hpfds pfd hpfd)) hinherits

theorem inherits_self (hclients : s'.clients = s.clients) :
    ∀ c' ∈ s'.clients, ∃ c ∈ s.clients, Inherits c c' := fun c' hc' =>
  ⟨c', hclients ▸ hc', .refl c'⟩

theorem inherits_set {i : ℕ} (hi : s.clients[i]? = some c)
    (hclients : s'.clients = s.clients.set i c') (hinherits : Inherits c c') :
    ∀ d' ∈ s'.clients, ∃ d ∈ s.clients, Inherits d d' := by
  intro d' hd'
  rw [hclients] at hd'
  rcases List.mem_or_eq_of_mem_set hd' with hd' | rfl
  · exact ⟨d', hd', .refl d'⟩
  · exact ⟨c, List.mem_of_getElem? hi, hinherits⟩

theorem mem_of_mem_unregister {k : ℕ} {last : Pollfd} (hlast : s.pfds.getLast? = some last)
    (hpfd : pfd ∈ (s.pfds.set k last).dropLast) : pfd ∈ s.pfds := by
  rcases mem_of_mem_removed hpfd with hpfd | rfl
  · exact hpfd
  · exact List.mem_of_getLast? hlast

/-- The entry of the connection of a client. -/
theorem Good.fd_of_index (hs : s.Good) {fd : ℤ} {k : ℕ} (hk : s.fdToPfdIndex.lookup fd = some k)
    (hpfd : s.pfds[k]? = some pfd) : pfd.fd = fd := by
  have hkey := (hs.indexed fd k).1 hk
  rw [List.getElem?_map, hpfd] at hkey
  exact Option.some.inj hkey

/-- Changing what the connection of one client is polled for. -/
theorem Masked.set (h : s.Masked) (hs : s.Good) {i k : ℕ} {pfd' : Pollfd}
    (hi : s.clients[i]? = some c) (hk : s.fdToPfdIndex.lookup c.clientFd = some k)
    (hpfd : s.pfds[k]? = some pfd) (hpfds : s'.pfds = s.pfds.set k pfd')
    (hclients : s'.clients = s.clients.set i c') (hfd' : pfd'.fd = pfd.fd)
    (hwithin : pfd'.revents.Within pfd'.events) (hfds : ∀ fdType, c'.fdOf fdType = c.fdOf fdType)
    (hwritten : pfd'.events.pollout = true ↔ c'.serverToClientState = .writing)
    (hread : pfd'.events.pollin = false → c'.clientToServerState = .done) : s'.Masked := by
  have hfd : pfd.fd = c.clientFd := hs.fd_of_index hk hpfd
  constructor
  · intro p hp
    rw [hpfds] at hp
    rcases List.mem_or_eq_of_mem_set hp with hp | rfl
    · exact h.within p hp
    · exact hwithin
  · intro p hp d hd
    rw [hpfds] at hp
    rw [hclients] at hd
    obtain ⟨k', hk'⟩ := List.mem_iff_getElem?.1 hp
    obtain ⟨j, hj⟩ := List.mem_iff_getElem?.1 hd
    have hdfds : ∃ d₀, s.clients[j]? = some d₀ ∧ (∀ fdType, d.fdOf fdType = d₀.fdOf fdType) := by
      rcases getElem?_set_cases hj with ⟨rfl, rfl⟩ | ⟨-, hj⟩
      · exact ⟨c, hi, hfds⟩
      · exact ⟨d, hj, fun _ => rfl⟩
    obtain ⟨d₀, hj₀, hdfds⟩ := hdfds
    rcases getElem?_set_cases hk' with ⟨rfl, rfl⟩ | ⟨hkne, hk'⟩
    · -- the entry of the connection: only the client itself holds it
      rcases getElem?_set_cases hj with ⟨rfl, rfl⟩ | ⟨hjne, hj⟩
      · refine ⟨fun _ => hwritten, fun _ => hread, fun hto => ?_, fun hfrom => ?_⟩
        · have heq : c.fdOf .client = c.fdOf .serverToCgi :=
            (hfd.symm.trans (hfd'.symm.trans hto)).trans (hfds .serverToCgi)
          cases (hs.toOwners.unique hi hi heq (hs.clientFd_ne hi)).2
        · have heq : c.fdOf .client = c.fdOf .cgiToServer :=
            (hfd.symm.trans (hfd'.symm.trans hfrom)).trans (hfds .cgiToServer)
          cases (hs.toOwners.unique hi hi heq (hs.clientFd_ne hi)).2
      · refine .of_ne fun fdType _ hheld => ?_
        have heq : c.fdOf .client = d.fdOf fdType := (hfd.symm.trans hfd'.symm).trans hheld
        exact hjne (hs.toOwners.unique hi hj heq (hs.clientFd_ne hi)).1.symm
    · -- another entry: the client does not hold it as its connection
      have hp₀ : p ∈ s.pfds := List.mem_of_getElem? hk'
      rcases getElem?_set_cases hj with ⟨rfl, rfl⟩ | ⟨-, hj⟩
      · have hother : p.fd ≠ c.clientFd := by
          intro heq
          have hindex := (hs.indexed p.fd k').2 (by rw [List.getElem?_map, hk']; rfl)
          rw [heq, hk] at hindex
          exact hkne (Option.some.inj hindex).symm
        have hold := h.matched p hp₀ c (List.mem_of_getElem? hi)
        have hclientFd : d.clientFd = c.clientFd := hfds .client
        exact ⟨fun hp => absurd (hp.trans hclientFd) hother, fun hp => absurd (hp.trans hclientFd) hother,
          fun hp => hold.toCgi (hp.trans (hfds .serverToCgi)),
          fun hp => hold.fromCgi (hp.trans (hfds .cgiToServer))⟩
      · exact h.matched p hp₀ d (List.mem_of_getElem? hj)

/-- What is not polled is held by no client. -/
theorem Good.fdOf_ne (hs : s.Good) {fd : ℤ} (hnew : fd ∉ s.fdToPfdIndex) (hne : fd ≠ -1)
    (hc : c ∈ s.clients) (fdType : FdType) : fd ≠ c.fdOf fdType := by
  obtain ⟨i, hi⟩ := List.mem_iff_getElem?.1 hc
  intro heq
  have hpolls := (hs.held i c fdType hi (heq ▸ hne)).1
  rw [← heq] at hpolls
  exact hnew hpolls.1

theorem Good.fd_ne_of_notMem (hs : s.Good) {fd : ℤ} (hnew : fd ∉ s.fdToPfdIndex)
    (hpfd : pfd ∈ s.pfds) : pfd.fd ≠ fd := fun heq =>
  hnew (heq ▸ (hs.indexed.mem_iff pfd.fd).2 (List.mem_map_of_mem hpfd))

/-- Registering descriptors for which nothing has been reported. -/
theorem Masked.push (h : s.Masked) {added : List Pollfd} (hpfds : s'.pfds = s.pfds ++ added)
    (hadded : ∀ pfd ∈ added, pfd.revents = {})
    (hold : ∀ pfd ∈ s.pfds, ∀ c' ∈ s'.clients, Matches pfd c')
    (hnew : ∀ pfd ∈ added, ∀ c' ∈ s'.clients, Matches pfd c') : s'.Masked where
  within pfd hpfd := by
    rw [hpfds] at hpfd
    rcases List.mem_append.1 hpfd with hpfd | hpfd
    · exact h.within pfd hpfd
    · rw [hadded pfd hpfd]
      exact ⟨nofun, nofun⟩
  matched pfd hpfd c' hc' := by
    rw [hpfds] at hpfd
    exact (List.mem_append.1 hpfd).elim (hold pfd · c' hc') (hnew pfd · c' hc')

/-- A connection is accepted. -/
theorem Masked.accept (h : s.Masked) (hs : s.Good) {fd serverFd : ℤ} {serverPort : Bytes} {n : ℕ}
    (hopen : s.CanOpen fd) (hpfds : s'.pfds = s.pfds ++ [{ fd := fd, events := { pollin := true } }])
    (hclients : s'.clients = s.clients ++ [Client.new fd serverFd serverPort n]) : s'.Masked := by
  have hfree := hs.notMem_of_canOpen hopen
  have hne : fd ≠ -1 := by
    have := hopen.1
    omega
  refine h.push hpfds (by simp) (fun pfd hpfd c' hc' => ?_) fun pfd hpfd c' hc' => ?_
  · rw [hclients] at hc'
    rcases List.mem_append.1 hc' with hc' | hc'
    · exact h.matched pfd hpfd c' hc'
    · rw [List.mem_singleton.1 hc']
      refine .of_ne fun fdType hserver => ?_
      cases fdType with
      | server => exact absurd rfl hserver
      | client => exact hs.fd_ne_of_notMem hfree hpfd
      | serverToCgi | cgiToServer => exact hs.fd_ne hpfd
  · obtain rfl := List.mem_singleton.1 hpfd
    rw [hclients] at hc'
    rcases List.mem_append.1 hc' with hc' | hc'
    · exact .of_ne fun fdType _ => hs.fdOf_ne hfree hne hc' fdType
    · rw [List.mem_singleton.1 hc']
      exact ⟨fun _ => ⟨nofun, nofun⟩, nofun, fun heq => absurd heq hne, fun _ => rfl⟩

/-- The pipe of a client that has got a new one or has kept its old one. -/
theorem serverToCgiFd_started {pid fromCgi : ℤ} {toCgi : Option ℤ} :
    (c.started pid toCgi fromCgi).serverToCgiFd = toCgi.getD c.serverToCgiFd := by
  cases toCgi <;> rfl

theorem cgiToServerFd_started {pid fromCgi : ℤ} {toCgi : Option ℤ} :
    (c.started pid toCgi fromCgi).cgiToServerFd = fromCgi := by
  cases toCgi <;> rfl

/-- A CGI is started. -/
theorem Masked.start (h : s.Masked) (hs : s.Good) {i : ℕ} {pid fromCgi : ℤ} {toCgi : Option ℤ}
    (hi : s.clients[i]? = some c) (hto : ∀ fd ∈ toCgi, s.Spare fd .serverToCgi)
    (hfrom : s.Spare fromCgi .cgiToServer) (hne : fromCgi ∉ toCgi)
    (hpfds : s'.pfds = s.pfds ++ ((toCgi.toList.map fun fd =>
      ({ fd := fd, events := { pollout := true } } : Pollfd)) ++
        [{ fd := fromCgi, events := { pollin := true } }]))
    (hclients : s'.clients = s.clients.set i (c.started pid toCgi fromCgi)) : s'.Masked := by
  have hmem := List.mem_of_getElem? hi
  have hnonneg : ∀ {fd fdType}, s.Spare fd fdType → fd ≠ -1 := by
    intro fd fdType hspare
    have := hs.nonneg fd (Map.mem_of_lookup hspare.1)
    omega
  have hcases : ∀ c' ∈ s'.clients, c' ∈ s.clients ∨ c' = c.started pid toCgi fromCgi := by
    intro c' hc'
    rw [hclients] at hc'
    exact List.mem_or_eq_of_mem_set hc'
  have hquiet : ∀ pfd ∈ (toCgi.toList.map fun fd =>
      ({ fd := fd, events := { pollout := true } } : Pollfd)) ++
        [{ fd := fromCgi, events := { pollin := true } }], pfd.revents = ({} : Events) := by
    cases toCgi <;> simp
  refine h.push hpfds hquiet (fun pfd hpfd c' hc' => ?_) fun pfd hpfd c' hc' => ?_
  · rcases hcases c' hc' with hc' | rfl
    · exact h.matched pfd hpfd c' hc'
    · have hold := h.matched pfd hpfd c hmem
      refine ⟨?_, ?_, fun heq => ?_, fun heq => ?_⟩
      · rw [Client.clientFd_started, Client.serverToClientState_started]
        exact hold.written
      · rw [Client.clientFd_started, Client.clientToServerState_started]
        exact hold.read
      · rw [serverToCgiFd_started] at heq
        cases toCgi with
        | none => exact hold.toCgi heq
        | some fd => exact absurd heq (hs.fd_ne_of_notMem (hto fd rfl).2 hpfd)
      · rw [cgiToServerFd_started] at heq
        exact absurd heq (hs.fd_ne_of_notMem hfrom.2 hpfd)
  · have hspare : ∃ fdType, s.Spare pfd.fd fdType := by
      rcases List.mem_append.1 hpfd with hpfd | hpfd
      · obtain ⟨fd, hfd, rfl⟩ := List.mem_map.1 hpfd
        exact ⟨_, hto fd (Option.mem_toList.1 hfd)⟩
      · rw [List.mem_singleton.1 hpfd]
        exact ⟨_, hfrom⟩
    obtain ⟨fdType₀, hspare⟩ := hspare
    have hother : ∀ d ∈ s.clients, ∀ fdType, pfd.fd ≠ d.fdOf fdType := fun d hd =>
      hs.fdOf_ne hspare.2 (hnonneg hspare) hd
    rcases hcases c' hc' with hc' | rfl
    · exact .of_ne fun fdType _ => hother c' hc' fdType
    · refine ⟨fun heq => ?_, fun heq => ?_, fun heq => ?_, fun heq => ?_⟩
      · rw [Client.clientFd_started] at heq
        exact absurd heq (hother c hmem .client)
      · rw [Client.clientFd_started] at heq
        exact absurd heq (hother c hmem .client)
      · rw [serverToCgiFd_started] at heq
        cases toCgi with
        | none => exact absurd heq (hother c hmem .serverToCgi)
        | some fd =>
          rcases List.mem_append.1 hpfd with hpfd | hpfd
          · rw [List.mem_singleton.1 hpfd]
          · rw [List.mem_singleton.1 hpfd] at heq
            have heq' : fromCgi = fd := heq
            exact absurd (congrArg some heq'.symm) hne
      · rw [cgiToServerFd_started] at heq
        rcases List.mem_append.1 hpfd with hpfd | hpfd
        · obtain ⟨fd, hfd, rfl⟩ := List.mem_map.1 hpfd
          exact absurd (heq ▸ Option.mem_toList.1 hfd) hne
        · rw [List.mem_singleton.1 hpfd]

/-- **Every action keeps the masks right.** -/
theorem Masked.action (h : s.Masked) (hs : s.Good) (haction : Action config stage s s') :
    s'.Masked := by
  cases haction with
  | kernel | close | log | orphan | wait =>
    exact h.mono hs (fun _ hpfd => hpfd) (inherits_self rfl)
  | polled revents _ hwithin =>
    constructor
    · intro pfd hpfd
      obtain ⟨pfd₀, -, rfl⟩ := List.mem_map.1 hpfd
      exact hwithin pfd₀
    · intro pfd hpfd c hc
      obtain ⟨pfd₀, hpfd₀, rfl⟩ := List.mem_map.1 hpfd
      have hold := h.matched pfd₀ hpfd₀ c hc
      exact ⟨hold.written, hold.read, hold.toCgi, hold.fromCgi⟩
  | change i c c' new hi hchange =>
    exact h.mono hs (fun _ hpfd => hpfd) (inherits_set hi rfl (.change hchange))
  | stopReading i c k pfd hi hk hpfd _ =>
    have hmem := List.mem_of_getElem? hpfd
    refine h.set hs hi hk hpfd rfl rfl rfl ⟨nofun, (h.within pfd hmem).2⟩ (fun fdType => ?_) ?_
      fun _ => rfl
    · cases fdType <;> rfl
    · exact (h.matched pfd hmem c (List.mem_of_getElem? hi)).written (hs.fd_of_index hk hpfd)
  | answer i c c' k pfd hi hk hpfd hdone hsame _ _ _ _ =>
    have hmem := List.mem_of_getElem? hpfd
    have hstate : c'.serverToClientState = .writing := (congrArg Client.serverToClientState hsame :)
    refine h.set hs hi hk hpfd rfl rfl rfl ⟨(h.within pfd hmem).1, fun _ => rfl⟩ (fun fdType => ?_)
      ⟨fun _ => hstate, fun _ => rfl⟩ fun _ => (congrArg Client.clientToServerState hsame).trans hdone
    cases fdType with
    | server => rfl
    | client => exact (congrArg Client.clientFd hsame :)
    | serverToCgi => exact (congrArg Client.serverToCgiFd hsame :)
    | cgiToServer => exact (congrArg Client.cgiToServerFd hsame :)
  | start i c pid toCgi fromCgi hi _ _ _ _ hto hfrom hne _ =>
    refine h.start hs hi hto hfrom hne ?_ rfl
    cases toCgi with
    | none => rfl
    | some fd => exact List.append_assoc _ _ _
  | release i c fdType k last new hi hpipe _ _ hlast _ =>
    exact h.mono hs (fun _ hpfd => mem_of_mem_unregister hlast hpfd)
      (inherits_set hi rfl (.release c hpipe))
  | reap i c pid clientFd status hi =>
    exact h.mono hs (fun _ hpfd => hpfd)
      (inherits_set hi rfl ⟨rfl, rfl, id, .inl rfl, .inl rfl⟩)
  | accept fd serverFd serverPort hopen => exact h.accept hs hopen rfl rfl
  | erase i c last this src k lastPfd hi hlast _ _ _ hlastPfd _ _ _ =>
    refine h.mono hs (fun _ hpfd => mem_of_mem_unregister hlastPfd hpfd) fun d hd => ?_
    rcases mem_of_mem_removed hd with hd | rfl
    · exact ⟨d, hd, .refl d⟩
    · exact ⟨last, List.mem_of_getLast? hlast, ⟨rfl, rfl, id, .inl rfl, .inl rfl⟩⟩
  | listen fd _ _ hopen =>
    have hne : fd ≠ -1 := by
      have := hopen.1
      omega
    have hpush : (s.register fd .server { pollin := true }).Masked := by
      refine h.push rfl (by simp) h.matched fun pfd hpfd c hc => ?_
      rw [List.mem_singleton.1 hpfd]
      exact .of_ne fun fdType _ => hs.fdOf_ne (hs.notMem_of_canOpen hopen) hne hc fdType
    exact ⟨hpush.within, hpush.matched⟩
  | shutDown fd k last _ _ hlast _ =>
    exact h.mono hs (fun _ hpfd => mem_of_mem_unregister hlast hpfd) (inherits_self rfl)

end Server

namespace World

variable {config : Config} {w : World}

theorem Reachable.masked (h : Reachable config w) : w.server.Masked :=
  h.invariant masked_empty fun hs hold haction => hold.action hs haction

end World

namespace Server

/-! ## The coupling -/

/-- The states of a client agree with its descriptors and with the events that these are polled
for. -/
structure Coupled (s : Server) (c : Client) : Prop where
  toCgi : (c.serverToCgiFd ≠ -1 ↔ c.serverToCgiState = .writing) ∧
    (c.serverToCgiFd ≠ -1 → ∃ pfd ∈ s.pfds, pfd.fd = c.serverToCgiFd ∧ pfd.events.pollout = true)
  fromCgi : (c.cgiToServerFd ≠ -1 ↔ c.cgiToServerState = .reading) ∧
    (c.cgiToServerFd ≠ -1 → ∃ pfd ∈ s.pfds, pfd.fd = c.cgiToServerFd ∧ pfd.events.pollin = true)
  connection : ∃ pfd ∈ s.pfds, pfd.fd = c.clientFd ∧
    (pfd.events.pollout = true ↔ c.serverToClientState = .writing) ∧
    (pfd.events.pollin = false → c.clientToServerState = .done)
  cgiPid : c.cgiPid ≠ -1 → c.clientToServerState = .done

/-- What the assertions about the states of a client need, for the events that are left to handle of
the descriptors it holds. -/
structure Ready (s : Server) (c : Client) : Prop where
  /-- `_writeToClient`. -/
  writeToClient : ∀ pfd ∈ s.pfds, pfd.fd = c.clientFd → pfd.revents.pollout = true →
    c.serverToClientState = .writing
  /-- `_writeToCGI` and `_enableWritingToCGI`. -/
  writeToCgi : ∀ pfd ∈ s.pfds, pfd.fd = c.serverToCgiFd → c.serverToCgiState = .writing ∧
    c.serverToCgiFd ≠ -1
  /-- The part of `_readFd` for bytes from a CGI. -/
  readCgi : ∀ pfd ∈ s.pfds, pfd.fd = c.cgiToServerFd → c.cgiToServerState = .reading

variable {s : Server} {c : Client}

/-- A polled descriptor has an entry. -/
theorem Good.exists_entry (hs : s.Good) {fd : ℤ} (hfd : fd ∈ s.fdToPfdIndex) :
    ∃ pfd ∈ s.pfds, pfd.fd = fd := List.mem_map.1 ((hs.indexed.mem_iff fd).1 hfd)

theorem Good.isCoupled (hs : s.Good) (h : s.Masked) (hc : c ∈ s.clients) : Coupled s c := by
  obtain ⟨i, hi⟩ := List.mem_iff_getElem?.1 hc
  have hsound := hs.sound c hc
  refine ⟨⟨hsound.toCgi, fun hfd => ?_⟩, ⟨hsound.fromCgi, fun hfd => ?_⟩, ?_,
    fun hpid => hsound.done_of_cgiPid hpid⟩
  · obtain ⟨pfd, hpfd, heq⟩ := hs.exists_entry (hs.held i c .serverToCgi hi hfd).1.1
    exact ⟨pfd, hpfd, heq, (h.matched pfd hpfd c hc).toCgi heq⟩
  · obtain ⟨pfd, hpfd, heq⟩ := hs.exists_entry (hs.held i c .cgiToServer hi hfd).1.1
    exact ⟨pfd, hpfd, heq, (h.matched pfd hpfd c hc).fromCgi heq⟩
  · obtain ⟨pfd, hpfd, heq⟩ := hs.exists_entry (hs.held i c .client hi (hs.clientFd_ne hi)).1.1
    exact ⟨pfd, hpfd, heq, (h.matched pfd hpfd c hc).written heq, (h.matched pfd hpfd c hc).read heq⟩

theorem Good.ready (hs : s.Good) (h : s.Masked) (hc : c ∈ s.clients) : Ready s c := by
  have hsound := hs.sound c hc
  refine ⟨fun pfd hpfd heq hout => ?_, fun pfd hpfd heq => ?_, fun pfd hpfd heq => ?_⟩
  · exact ((h.matched pfd hpfd c hc).written heq).1 ((h.within pfd hpfd).2 hout)
  · have hfd : c.serverToCgiFd ≠ -1 := heq ▸ hs.fd_ne hpfd
    exact ⟨hsound.toCgi.1 hfd, hfd⟩
  · exact hsound.fromCgi.1 (heq ▸ hs.fd_ne hpfd)

end Server

namespace World

variable {config : Config} {w : World}

/-- **States, descriptors and event masks are coupled**: for every live client, in every state of a
run; and so are the events that `_processPfd` has still to handle when it looks at them, before and
after it has handled `POLLIN`, with the assertions about the states. -/
theorem coupled (h : Reachable config w) :
    (∀ c ∈ w.server.clients, Coupled w.server c ∧ Ready w.server c) ∧
      ∀ (env : Answers) (fd : ℤ) (fdType : FdType) (skip : Bool) (s' : Server),
        w.server.fdToFdType.lookup fd = some fdType →
        handlePollin config env fd fdType w.server = .ok skip s' →
        ∀ c ∈ s'.clients, Coupled s' c ∧ Ready s' c := by
  have hs := h.good.server
  have hmasked := h.masked
  refine ⟨fun c hc => ⟨hs.isCoupled hmasked hc, hs.ready hmasked hc⟩, ?_⟩
  intro env fd fdType skip s' htype hin c hc
  have hactions : Actions config .handling w.server s' := handlePollin_actions hs htype hin
  have hs' := hs.actions hactions
  have hmasked' : s'.Masked :=
    actions_invariant (fun hs hold haction => hold.action hs haction) hs hmasked hactions
  exact ⟨hs'.isCoupled hmasked' hc, hs'.ready hmasked' hc⟩

theorem coupled_post :
    (after cgiConfig [3] (cgiAnswers 4 postRequest 100)).server.clients.length = 1 ∧
      ∀ c ∈ (after cgiConfig [3] (cgiAnswers 4 postRequest 100)).server.clients,
        Coupled (after cgiConfig [3] (cgiAnswers 4 postRequest 100)).server c ∧
          Ready (after cgiConfig [3] (cgiAnswers 4 postRequest 100)).server c := by
  have hreach : Reachable cgiConfig (after cgiConfig [3] (cgiAnswers 4 postRequest 100)) :=
    reachable_after (by decide +kernel) (by decide +kernel)
  exact ⟨by decide +kernel, (coupled hreach).1⟩

end World

end Webserv
