import Webserv.Server.Action

/-!
# Orderly servers

As long as no client is read from after its request is complete (`NoLateRead`), and none is removed
between the kill and the reaping of its CGI (`NoEarlyRemoval`), the server is orderly: an entry of
`_cgi_pid_to_client_fd` leads to a client with that CGI, what is polled is held by a client, and a
client that is written to has no CGI. `Good` is what holds of the server between any two actions.
-/

namespace Webserv.Server

open IndexedVector History

/-- What holds of the server when it does not read or remove too much. -/
structure Orderly (s : Server) : Prop where
  /-- An entry of `_cgi_pid_to_client_fd` leads to the client with that CGI. -/
  reapable : ∀ pid fd, s.cgiPidToClientFd.lookup pid = some fd →
    ∃ c ∈ s.clients, c.clientFd = fd ∧ c.cgiPid = pid ∧ pid ≠ -1
  /-- What is polled is held by a client. -/
  attached : ∀ fd fdType, fdType ≠ .server → s.Polls fd fdType → ∃ c ∈ s.clients, c.fdOf fdType = fd
  /-- A client that is written to has no CGI. -/
  finished : ∀ c ∈ s.clients, c.serverToClientState = .writing → c.NoCgi

/-- What holds of the server between any two actions. -/
structure Good (s : Server) : Prop extends Coherent s where
  sound : ∀ c ∈ s.clients, c.Sound
  positive : ∀ pid ∈ s.children, 0 < pid
  orderly : NoLateRead s.calls → NoEarlyRemoval s.calls → s.Orderly

variable {config : Config} {stage : Stage} {s s' : Server}

theorem Good.sound_at (h : s.Good) {i : ℕ} {c : Client} (hi : s.clients[i]? = some c) : c.Sound :=
  h.sound c (List.mem_of_getElem? hi)

/-- Clients in different slots have different connections. -/
theorem Good.clientFd_ne_of_ne (hs : s.Good) {i j : ℕ} {c d : Client} (hi : s.clients[i]? = some c)
    (hj : s.clients[j]? = some d) (hne : j ≠ i) : d.clientFd ≠ c.clientFd := fun heq =>
  hne (hs.toOwners.unique hj hi (show d.fdOf .client = c.fdOf .client from heq) (hs.clientFd_ne hj)).1

theorem good_empty : empty.Good where
  toCoherent := coherent_empty
  sound _ hc := nomatch hc
  positive _ hpid := absurd hpid (Finset.notMem_empty _)
  orderly _ _ :=
    { reapable := fun pid _ h =>
        nomatch (Finmap.lookup_empty (β := fun _ : ℤ => ℤ) pid).symm.trans h
      attached := fun _ _ _ hfd => absurd hfd.1 Finmap.notMem_empty
      finished := fun _ hc => nomatch hc }

/-! ## The clients of a slot -/

/-- An element stays when another one is replaced. -/
theorem mem_set_or {α : Type} {l : List α} {i : ℕ} {a x : α} (a' : α) (hi : l[i]? = some a)
    (hx : x ∈ l) : x = a ∨ x ∈ l.set i a' := by
  obtain ⟨j, hj⟩ := List.mem_iff_getElem?.1 hx
  by_cases hij : i = j
  · subst hij
    exact .inl (Option.some.inj (hj.symm.trans hi))
  · refine .inr (List.mem_iff_getElem?.2 ⟨j, ?_⟩)
    rwa [List.getElem?_set_ne hij]

theorem mem_set_self {α : Type} {l : List α} {i : ℕ} {a : α} (a' : α) (hi : l[i]? = some a) :
    a' ∈ l.set i a' := List.mem_of_getElem? (getElem?_set_self_of hi a')

/-- What is left after a removal was there before, or is what was moved. -/
theorem mem_of_mem_removed {α : Type} {l : List α} {i : ℕ} {a x : α}
    (hx : x ∈ (l.set i a).dropLast) : x ∈ l ∨ x = a :=
  List.mem_or_eq_of_mem_set (List.mem_of_mem_dropLast hx)

/-- What is not removed stays, or is moved. -/
theorem mem_removed_of_ne {α : Type} {l : List α} {i : ℕ} {a last x : α} (f : α → α)
    (hi : l[i]? = some a) (hlast : l.getLast? = some last) (hx : x ∈ l) (hne : x ≠ a) :
    x ∈ (l.set i (f last)).dropLast ∨ f x ∈ (l.set i (f last)).dropLast := by
  obtain ⟨j, hj⟩ := List.mem_iff_getElem?.1 hx
  have hji : j ≠ i := by
    rintro rfl
    exact hne (Option.some.inj (hj.symm.trans hi))
  have hjlt := (List.getElem?_eq_some_iff.1 hj).1
  have hilt := (List.getElem?_eq_some_iff.1 hi).1
  by_cases hend : j + 1 = l.length
  · rw [List.getLast?_eq_getElem?, show l.length - 1 = j by omega, hj] at hlast
    cases hlast
    exact .inr (List.mem_of_getElem? (getElem?_dropLast_set_iff.2 (.inl ⟨rfl, by omega, rfl⟩)))
  · exact .inl (List.mem_of_getElem? (getElem?_dropLast_set_iff.2 (.inr ⟨hji, by omega, hj⟩)))

/-! ## Orderly servers, action by action -/

/-- Changing one client, and nothing else that matters here. -/
theorem Orderly.set_client (h : s.Orderly) {i : ℕ} {c c' : Client} (hi : s.clients[i]? = some c)
    (hpids : s'.cgiPidToClientFd = s.cgiPidToClientFd)
    (hpolls : ∀ fd fdType, s'.Polls fd fdType → s.Polls fd fdType)
    (hclients : s'.clients = s.clients.set i c') (hfds : ∀ fdType, c'.fdOf fdType = c.fdOf fdType)
    (hpid : c'.cgiPid = c.cgiPid) (hfinished : c'.serverToClientState = .writing → c'.NoCgi) :
    s'.Orderly where
  reapable pid fd hlookup := by
    rw [hpids] at hlookup
    obtain ⟨d, hd, hfd, hdpid, hne⟩ := h.reapable pid fd hlookup
    rw [hclients]
    rcases mem_set_or c' hi hd with rfl | hd
    · exact ⟨c', mem_set_self c' hi, (hfds .client).trans hfd, hpid.trans hdpid, hne⟩
    · exact ⟨d, hd, hfd, hdpid, hne⟩
  attached fd fdType hserver hfd := by
    obtain ⟨d, hd, hheld⟩ := h.attached fd fdType hserver (hpolls fd fdType hfd)
    rw [hclients]
    rcases mem_set_or c' hi hd with rfl | hd
    · exact ⟨c', mem_set_self c' hi, (hfds fdType).trans hheld⟩
    · exact ⟨d, hd, hheld⟩
  finished d hd := by
    rw [hclients] at hd
    rcases List.mem_or_eq_of_mem_set hd with hd | rfl
    · exact h.finished d hd
    · exact hfinished

/-- A change of what does not matter here. -/
theorem Orderly.congr (h : s.Orderly) (hpids : s'.cgiPidToClientFd = s.cgiPidToClientFd)
    (hpolls : ∀ fd fdType, fdType ≠ .server → s'.Polls fd fdType → s.Polls fd fdType)
    (hclients : s'.clients = s.clients) : s'.Orderly where
  reapable pid fd hlookup := by
    rw [hclients]
    exact h.reapable pid fd (hpids ▸ hlookup)
  attached fd fdType hserver hfd := by
    rw [hclients]
    exact h.attached fd fdType hserver (hpolls fd fdType hserver hfd)
  finished d hd := h.finished d (hclients ▸ hd)

theorem Orderly.release (h : s.Orderly) (htables : s.Tables) {i : ℕ} {c : Client} {fdType : FdType}
    {k : ℕ} {last : Pollfd} {calls : List Call} (hi : s.clients[i]? = some c)
    (hpipe : fdType.IsPipe) (hlast : s.pfds.getLast? = some last) :
    Orderly { s.dropped (c.fdOf fdType) k last with
      clients := s.clients.set i (c.release fdType)
      fdToClientIndex := s.fdToClientIndex.erase (c.fdOf fdType)
      calls := calls } where
  reapable pid fd hlookup := by
    obtain ⟨d, hd, hfd, hdpid, hne⟩ := h.reapable pid fd hlookup
    rcases mem_set_or (c.release fdType) hi hd with rfl | hd
    · exact ⟨_, mem_set_self _ hi, (Client.clientFd_release hpipe).trans hfd,
        (Client.cgiPid_release hpipe).trans hdpid, hne⟩
    · exact ⟨d, hd, hfd, hdpid, hne⟩
  attached fd fdType' hserver hfd := by
    obtain ⟨hne, hpolls⟩ := (htables.polls_closed hlast).1 hfd
    obtain ⟨d, hd, hheld⟩ := h.attached fd fdType' hserver hpolls
    rcases mem_set_or (c.release fdType) hi hd with rfl | hd
    · refine ⟨_, mem_set_self _ hi, ?_⟩
      have hkind : fdType' ≠ fdType := by
        rintro rfl
        exact hne hheld.symm
      rw [Client.fdOf_release hpipe, if_neg hkind]
      exact hheld
    · exact ⟨d, hd, hheld⟩
  finished d hd hwriting := by
    rcases List.mem_or_eq_of_mem_set hd with hd | rfl
    · exact h.finished d hd hwriting
    · have hno := h.finished c (List.mem_of_getElem? hi) (by rcases hpipe with rfl | rfl <;> exact hwriting)
      rcases hpipe with rfl | rfl
      · exact ⟨hno.cgiPid, rfl, hno.cgiToServerFd⟩
      · exact ⟨hno.cgiPid, hno.serverToCgiFd, rfl⟩

/-- Which descriptors are polled once a pipe is registered. -/
theorem polls_connect {fd fd' : ℤ} {fdType fdType' : FdType} (i : ℕ) (events : Events)
    (hspare : s.Spare fd fdType) (h : (s.connect fd i fdType events).Polls fd' fdType') :
    (fd' = fd ∧ fdType' = fdType) ∨ s.Polls fd' fdType' := by
  obtain ⟨hmem, hkind⟩ := h
  rcases mem_emplace.1 hmem with rfl | hmem
  · exact .inl ⟨rfl, Option.some.inj (hkind.symm.trans hspare.1)⟩
  · exact .inr ⟨hmem, hkind⟩

theorem Orderly.start (h : s.Orderly) (htables : s.Tables) {i : ℕ} {c : Client}
    {pid fromCgi count : ℤ} {toCgi : Option ℤ} {children : Finset ℤ} {calls : List Call}
    (hi : s.clients[i]? = some c) (hpid : pid ≠ -1) (hto : ∀ fd ∈ toCgi, s.Spare fd .serverToCgi)
    (hfrom : s.Spare fromCgi .cgiToServer) (hne : fromCgi ∉ toCgi) (hfresh : c.Fresh) :
    Orderly { (toCgi.elim s fun fd => s.connect fd i .serverToCgi { pollout := true }).connect
        fromCgi i .cgiToServer { pollin := true } with
      clients := s.clients.set i (c.started pid toCgi fromCgi)
      cgiPidToClientFd := s.cgiPidToClientFd.emplace pid c.clientFd
      children := children
      unreapedCgiCount := count
      calls := calls } where
  reapable pid' fd hlookup := by
    have hold : s.cgiPidToClientFd.lookup pid' = some fd → ∃ d ∈ s.clients.set i
        (c.started pid toCgi fromCgi), d.clientFd = fd ∧ d.cgiPid = pid' ∧ pid' ≠ -1 := by
      intro hlookup
      obtain ⟨d, hd, hfd, hdpid, hne'⟩ := h.reapable pid' fd hlookup
      rcases mem_set_or (c.started pid toCgi fromCgi) hi hd with rfl | hd
      · exact absurd (hdpid.symm.trans hfresh.noCgi.cgiPid) hne'
      · exact ⟨d, hd, hfd, hdpid, hne'⟩
    change (s.cgiPidToClientFd.emplace pid c.clientFd).lookup pid' = some fd at hlookup
    by_cases hmem : pid ∈ s.cgiPidToClientFd
    · rw [Map.emplace_of_mem hmem] at hlookup
      exact hold hlookup
    · rw [Map.emplace_of_notMem hmem, Map.lookup_insert_eq] at hlookup
      split_ifs at hlookup with heq
      · cases hlookup
        subst heq
        exact ⟨_, mem_set_self _ hi, Client.clientFd_started, rfl, hpid⟩
      · exact hold hlookup
  attached fd fdType hserver hfd := by
    have hold : s.Polls fd fdType → ∃ d ∈ s.clients.set i (c.started pid toCgi fromCgi),
        d.fdOf fdType = fd := by
      intro hpolls
      obtain ⟨d, hd, hheld⟩ := h.attached fd fdType hserver hpolls
      rcases mem_set_or (c.started pid toCgi fromCgi) hi hd with rfl | hd
      · -- a client without a CGI holds its connection only
        have hfd' := htables.ne_neg_one hpolls.1
        refine ⟨_, mem_set_self _ hi, ?_⟩
        cases fdType with
        | server => exact absurd rfl hserver
        | client => exact Client.clientFd_started.trans hheld
        | serverToCgi => exact absurd (hheld.symm.trans hfresh.noCgi.serverToCgiFd) hfd'
        | cgiToServer => exact absurd (hheld.symm.trans hfresh.noCgi.cgiToServerFd) hfd'
      · exact ⟨d, hd, hheld⟩
    cases toCgi with
    | none =>
      rcases polls_connect i { pollin := true } hfrom hfd with
        ⟨rfl, rfl⟩ | hpolls
      · exact ⟨_, mem_set_self _ hi, rfl⟩
      · exact hold hpolls
    | some toCgi =>
      have hspare := hfrom.connect (fun heq => hne (heq ▸ rfl)) i .serverToCgi { pollout := true }
      rcases polls_connect i { pollin := true } hspare hfd with
        ⟨rfl, rfl⟩ | hpolls
      · exact ⟨_, mem_set_self _ hi, rfl⟩
      · rcases polls_connect i { pollout := true } (hto toCgi rfl) hpolls with ⟨rfl, rfl⟩ | hpolls
        · exact ⟨_, mem_set_self _ hi, rfl⟩
        · exact hold hpolls
  finished d hd hwriting := by
    rcases List.mem_or_eq_of_mem_set hd with hd | rfl
    · exact h.finished d hd hwriting
    · rw [Client.serverToClientState_started, hfresh.serverToClientState] at hwriting
      cases hwriting

theorem Orderly.accept (h : s.Orderly) {fd : ℤ} {c : Client} {calls : List Call} (hfd : c.clientFd = fd) (hidle : c.serverToClientState ≠ .writing) :
    Orderly { s.connect fd s.clients.length .client { pollin := true } with
      descriptors := s.descriptors.insert fd FdType.client
      clients := s.clients ++ [c]
      calls := calls } where
  reapable pid fd' hlookup := by
    obtain ⟨d, hd, hrest⟩ := h.reapable pid fd' hlookup
    exact ⟨d, List.mem_append_left _ hd, hrest⟩
  attached fd' fdType hserver hpolled := by
    obtain ⟨hmem, hkind⟩ := hpolled
    change (s.descriptors.insert fd FdType.client).lookup fd' = some fdType at hkind
    rw [Map.lookup_insert_eq] at hkind
    split_ifs at hkind with heq
    · cases hkind
      exact ⟨c, List.mem_append_right _ (List.mem_singleton_self c), hfd.trans heq.symm⟩
    · have hpolls : s.Polls fd' fdType := ⟨(mem_emplace.1 hmem).resolve_left heq, hkind⟩
      obtain ⟨d, hd, hheld⟩ := h.attached fd' fdType hserver hpolls
      exact ⟨d, List.mem_append_left _ hd, hheld⟩
  finished d hd hwriting := by
    rcases List.mem_append.1 hd with hd | hd
    · exact h.finished d hd hwriting
    · rw [List.mem_singleton.1 hd] at hwriting
      exact absurd hwriting hidle

theorem Orderly.erase (h : s.Orderly) (htables : s.Tables) {i : ℕ} {c last : Client} {k : ℕ}
    {lastPfd : Pollfd} {index : Map ℤ ℕ} {calls : List Call} (hi : s.clients[i]? = some c)
    (hlast : s.clients.getLast? = some last) (hlastPfd : s.pfds.getLast? = some lastPfd)
    (hno : c.NoCgi) :
    Orderly { s.dropped c.clientFd k lastPfd with
      clients := (s.clients.set i (c.assign last)).dropLast
      fdToClientIndex := index
      calls := calls } where
  reapable pid fd hlookup := by
    obtain ⟨d, hd, hfd, hdpid, hne⟩ := h.reapable pid fd hlookup
    have hdc : d ≠ c := by
      rintro rfl
      exact hne (hdpid.symm.trans hno.cgiPid)
    rcases mem_removed_of_ne c.assign hi hlast hd hdc with hd | hd
    · exact ⟨d, hd, hfd, hdpid, hne⟩
    · exact ⟨c.assign d, hd, hfd, hdpid, hne⟩
  attached fd fdType hserver hfd := by
    obtain ⟨hne, hpolls⟩ := (htables.polls_closed hlastPfd).1 hfd
    obtain ⟨d, hd, hheld⟩ := h.attached fd fdType hserver hpolls
    have hdc : d ≠ c := by
      rintro rfl
      have hfd' := htables.ne_neg_one hpolls.1
      cases fdType with
      | server => exact hserver rfl
      | client => exact hne hheld.symm
      | serverToCgi => exact hfd' (hheld.symm.trans hno.serverToCgiFd)
      | cgiToServer => exact hfd' (hheld.symm.trans hno.cgiToServerFd)
    rcases mem_removed_of_ne c.assign hi hlast hd hdc with hd | hd
    · exact ⟨d, hd, hheld⟩
    · exact ⟨c.assign d, hd, (fdOf_assign c d fdType).trans hheld⟩
  finished d hd hwriting := by
    rcases mem_of_mem_removed hd with hd | rfl
    · exact h.finished d hd hwriting
    · have hno' := h.finished last (List.mem_of_getLast? hlast) hwriting
      exact ⟨hno'.cgiPid, hno'.serverToCgiFd, hno'.cgiToServerFd⟩

theorem Orderly.reap (h : s.Orderly) {i : ℕ} {c c' : Client} {children : Finset ℤ} {count : ℤ}
    {calls : List Call} (hi : s.clients[i]? = some c)
    (hfds : ∀ fdType, c'.fdOf fdType = c.fdOf fdType) (hidle : c'.serverToClientState = .notWriting) :
    Orderly { s with
      clients := s.clients.set i c'
      cgiPidToClientFd := s.cgiPidToClientFd.erase c.cgiPid
      children := children
      unreapedCgiCount := count
      calls := calls } where
  reapable pid fd hlookup := by
    change (s.cgiPidToClientFd.erase c.cgiPid).lookup pid = some fd at hlookup
    rw [Map.lookup_erase_eq] at hlookup
    split_ifs at hlookup with heq
    obtain ⟨d, hd, hfd, hdpid, hne⟩ := h.reapable pid fd hlookup
    rcases mem_set_or c' hi hd with rfl | hd
    · exact absurd hdpid.symm heq
    · exact ⟨d, hd, hfd, hdpid, hne⟩
  attached fd fdType hserver hfd := by
    obtain ⟨d, hd, hheld⟩ := h.attached fd fdType hserver hfd
    rcases mem_set_or c' hi hd with rfl | hd
    · exact ⟨c', mem_set_self c' hi, (hfds fdType).trans hheld⟩
    · exact ⟨d, hd, hheld⟩
  finished d hd hwriting := by
    rcases List.mem_or_eq_of_mem_set hd with hd | rfl
    · exact h.finished d hd hwriting
    · rw [hidle] at hwriting
      cases hwriting

theorem Orderly.action (h : s.Orderly) (hs : s.Good) (haction : Action config stage s s')
    (hlate : NoLateRead s.calls) (hearly : NoEarlyRemoval s.calls) : s'.Orderly := by
  cases haction with
  | kernel descriptors _ hopen _ =>
    refine h.congr rfl (fun fd fdType _ hfd => ?_) rfl
    exact ⟨hfd.1, (hopen fd hfd.1).symm.trans hfd.2⟩
  | close fd hfd =>
    refine h.congr rfl (fun fd' fdType _ hfd' => ⟨hfd'.1, ?_⟩) rfl
    have hne : fd' ≠ fd := fun heq => hfd (heq ▸ hfd'.1)
    exact (Finmap.lookup_erase_ne hne).symm.trans hfd'.2
  | polled | log | orphan | wait => exact h.congr rfl (fun _ _ _ hfd => hfd) rfl
  | change i c c' new hi hchange =>
    refine h.set_client hi rfl (fun _ _ hfd => hfd) rfl hchange.fdOf hchange.cgiPid fun hwriting => ?_
    rw [hchange.serverToClientState] at hwriting
    exact hchange.noCgi_iff.2 (h.finished c (List.mem_of_getElem? hi) hwriting)
  | stopReading i c k pfd hi _ _ _ =>
    refine h.set_client hi rfl (fun _ _ hfd => hfd) rfl ?_ rfl fun hwriting => ?_
    · intro fdType
      cases fdType <;> rfl
    · have hno := h.finished c (List.mem_of_getElem? hi) hwriting
      exact ⟨hno.cgiPid, hno.serverToCgiFd, hno.cgiToServerFd⟩
  | answer i c c' k pfd hi _ _ _ hsame _ _ hidle _ =>
    have hfds : ∀ fdType, c'.fdOf fdType = c.fdOf fdType := by
      intro fdType
      cases fdType with
      | server => rfl
      | client => exact (congrArg Client.clientFd hsame :)
      | serverToCgi => exact (congrArg Client.serverToCgiFd hsame :)
      | cgiToServer => exact (congrArg Client.cgiToServerFd hsame :)
    refine h.set_client hi rfl (fun _ _ hfd => hfd) rfl hfds (congrArg Client.cgiPid hsame :) ?_
    have hno := hidle hlate
    exact fun _ => ⟨(congrArg Client.cgiPid hsame).trans hno.cgiPid,
      (hfds .serverToCgi).trans hno.serverToCgiFd, (hfds .cgiToServer).trans hno.cgiToServerFd⟩
  | start i c pid toCgi fromCgi hi hpid _ _ _ hto hfrom hne hfirst =>
    exact h.start hs.toTables hi (by omega) hto hfrom hne (hfirst hlate)
  | release i c fdType k last new hi hpipe _ _ hlast _ => exact h.release hs.toTables hi hpipe hlast
  | reap i c pid clientFd status hi _ _ _ _ _ _ _ hidle =>
    refine h.reap hi (fun fdType => ?_) hidle
    cases fdType <;> rfl
  | accept fd serverFd serverPort hopen => exact h.accept rfl nofun
  | erase i c last this src k lastPfd hi hlast _ _ _ hlastPfd hpipe _ hreaped =>
    have hpid := hreaped hearly
    exact h.erase hs.toTables hi hlast hlastPfd ⟨hpid, (hs.sound_at hi).reaped hpid, hpipe⟩
  | listen fd _ _ hopen =>
    refine h.congr rfl (fun fd' fdType hserver hfd => ?_) rfl
    obtain ⟨hmem, hkind⟩ := hfd
    change (s.descriptors.insert fd FdType.server).lookup fd' = some fdType at hkind
    rw [Map.lookup_insert_eq] at hkind
    split_ifs at hkind with heq
    · exact absurd (Option.some.inj hkind).symm hserver
    · exact ⟨(mem_emplace.1 hmem).resolve_left heq, hkind⟩
  | shutDown fd k last _ _ hlast _ =>
    exact h.congr rfl (fun _ _ _ hfd => ((hs.toTables.polls_closed hlast).1 hfd).2) rfl

/-! ## Good servers -/

/-- The clients after an action, as far as each of them is concerned. -/
theorem Good.sound_action (hs : s.Good) (haction : Action config stage s s') :
    ∀ c ∈ s'.clients, c.Sound := by
  have hset : ∀ {i : ℕ} {c' : Client}, c'.Sound → ∀ d ∈ s.clients.set i c', d.Sound := by
    intro i c' hc' d hd
    rcases List.mem_or_eq_of_mem_set hd with hd | rfl
    · exact hs.sound d hd
    · exact hc'
  cases haction with
  | kernel | close | polled | log | orphan | wait | listen | shutDown => exact hs.sound
  | change i c c' new hi hchange => exact hset (hchange.sound (hs.sound_at hi))
  | stopReading i c k pfd hi _ _ _ => exact hset (hs.sound_at hi).finish
  | answer i c c' k pfd hi _ _ hdone hsame hindex _ _ _ =>
    have hc := hs.sound_at hi
    have hstate : c'.serverToClientState = .writing := (congrArg Client.serverToClientState hsame :)
    have hto : c'.serverToCgiFd = c.serverToCgiFd := (congrArg Client.serverToCgiFd hsame :)
    have hto' : c'.serverToCgiState = c.serverToCgiState :=
      (congrArg Client.serverToCgiState hsame :)
    have hfrom : c'.cgiToServerFd = c.cgiToServerFd := (congrArg Client.cgiToServerFd hsame :)
    have hfrom' : c'.cgiToServerState = c.cgiToServerState :=
      (congrArg Client.cgiToServerState hsame :)
    have hpid : c'.cgiPid = c.cgiPid := (congrArg Client.cgiPid hsame :)
    refine hset ⟨fun hunread => ?_, ?_, ?_, ?_, ?_, fun hidle => absurd hstate hidle⟩
    · exact absurd ((congrArg Client.clientToServerState hsame).trans hdone) hunread
    · rw [hto, hto']
      exact hc.toCgi
    · rw [hfrom, hfrom']
      exact hc.fromCgi
    · rw [hpid, hto', hfrom']
      exact hc.running
    · rw [hpid, hto]
      exact hc.reaped
  | start i c pid toCgi fromCgi hi hpid _ hdone hnone hto hfrom _ _ =>
    have hne : ∀ {fd : ℤ} {fdType : FdType}, s.Spare fd fdType → fd ≠ -1 := by
      intro fd fdType hspare
      have := hs.nonneg fd (Map.mem_of_lookup hspare.1)
      omega
    exact hset ((hs.sound_at hi).started hdone (by omega) hnone.1 (fun fd hfd => hne (hto fd hfd))
      (hne hfrom))
  | release i c fdType k last new hi hpipe hfd _ _ _ => exact hset ((hs.sound_at hi).release hpipe hfd)
  | reap i c pid clientFd status hi _ _ _ _ hdone hwritten _ _ =>
    exact hset ((hs.sound_at hi).reap hdone hwritten status)
  | accept fd serverFd serverPort _ =>
    intro d hd
    rcases List.mem_append.1 hd with hd | hd
    · exact hs.sound d hd
    · rw [List.mem_singleton.1 hd]
      exact Client.sound_new _ _ _ _
  | erase i c last this src k lastPfd hi hlast _ _ _ _ _ _ _ =>
    intro d hd
    rcases mem_of_mem_removed hd with hd | rfl
    · exact hs.sound d hd
    · exact (hs.sound last (List.mem_of_getLast? hlast)).assign c

theorem Good.positive_action (hs : s.Good) (haction : Action config stage s s') :
    ∀ pid ∈ s'.children, 0 < pid := by
  cases haction with
  | start i c pid toCgi fromCgi hi hpid =>
    intro pid' hpid'
    rcases Finset.mem_insert.1 hpid' with rfl | hpid'
    · exact hpid
    · exact hs.positive pid' hpid'
  | wait pid | reap i c pid => exact fun pid' hpid' => hs.positive pid' (Finset.mem_of_mem_erase hpid')
  | kernel | close | polled | log | change | stopReading | answer | release | orphan | accept | erase
  | listen | shutDown => exact hs.positive

/-- **Every action keeps the server good.** -/
theorem Good.action (hs : s.Good) (haction : Action config stage s s') : s'.Good where
  toCoherent := hs.toCoherent.action haction
  sound := hs.sound_action haction
  positive := hs.positive_action haction
  orderly hlate hearly :=
    have hlate' := hlate.of_suffix haction.suffix
    have hearly' := hearly.of_suffix haction.suffix
    (hs.orderly hlate' hearly').action hs haction hlate' hearly'

theorem Good.actions (hs : s.Good) (hactions : Actions config stage s s') : s'.Good := by
  induction hactions with
  | refl => exact hs
  | tail _ haction ih => exact ih.action haction

end Webserv.Server
