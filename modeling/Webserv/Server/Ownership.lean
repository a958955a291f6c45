import Webserv.Server.RunTrace

/-!
# Who owns what

As long as no client is read from after its request is complete and none is removed between the kill
and the reaping of its CGI, every entry of `_cgi_pid_to_client_fd` leads to the client with that CGI
(`Reaps`), and every descriptor of a client that is polled leads to the client that holds it (`Owns`).
`_removeClient` does not check that the CGI it has killed was reaped: when it is called a second time,
it erases the client, and neither holds.
-/

namespace Webserv

open Server History

namespace Server

/-- Every entry of `_cgi_pid_to_client_fd` leads to a live client with that CGI. -/
def Reaps (s : Server) : Prop := ∀ pid fd, s.cgiPidToClientFd.lookup pid = some fd →
  ∃ i c, s.fdToClientIndex.lookup fd = some i ∧ s.clients[i]? = some c ∧ c.clientFd = fd ∧
    c.cgiPid = pid

/-- No client was erased whose CGI was not reaped yet. -/
def ErasesReaped (s : Server) : Prop := ∀ this src, .assign this src ∈ s.calls → this.cgiPid = -1

/-- Every polled descriptor of a client leads to the client that holds it. -/
def Owns (s : Server) : Prop := ∀ pfd ∈ s.pfds, ∀ fdType, registeredAs pfd.fd s.calls = some fdType →
  fdType ≠ .server → ∃ i c, s.fdToClientIndex.lookup pfd.fd = some i ∧ i < s.clients.length ∧
    s.clients[i]? = some c ∧ c.fdOf fdType = pfd.fd

variable {config : Config} {stage : Stage} {s s' : Server}

theorem Good.reaps (hs : s.Good) (hlate : NoLateRead s.calls) (hearly : NoEarlyRemoval s.calls) :
    s.Reaps := by
  intro pid fd hlookup
  obtain ⟨c, hc, rfl, hpid, -⟩ := (hs.orderly hlate hearly).reapable pid fd hlookup
  obtain ⟨i, hi⟩ := List.mem_iff_getElem?.1 hc
  exact ⟨i, c, hs.index_clientFd hi, hi, rfl, hpid⟩

theorem assign_notMem_hangUpCalls (this src c : Client) : .assign this src ∉ hangUpCalls c := by
  unfold hangUpCalls
  split <;> simp

theorem assign_notMem_reapCalls (this src c : Client) (pid : ℤ) (errno : Option Errno) :
    .assign this src ∉ reapCalls c pid errno := by
  unfold reapCalls
  split <;> simp

theorem assign_notMem_change {calls new : List Call} {c c' : Client} (h : Change calls c new c')
    (this src : Client) : .assign this src ∉ new := by
  cases h with
  | read _ _ _ failed => cases failed <;> simp [readCalls]
  | note | readCgi | kill | remove | giveUp | writeBody | writeResponse => simp

/-- An action that erases a client finds its CGI reaped. -/
theorem erasesReaped_action (h : NoEarlyRemoval s.calls → s.ErasesReaped)
    (haction : Action config stage s s') : NoEarlyRemoval s'.calls → s'.ErasesReaped := by
  intro hearly this src hmem
  have hold := h (hearly.of_suffix haction.suffix) this src
  cases haction with
  | kernel | polled | stopReading | answer => exact hold hmem
  | log call hneutral =>
    rcases List.mem_cons.1 hmem with rfl | hmem
    · exact absurd hneutral id
    · exact hold hmem
  | close | accept | listen | shutDown | wait =>
    simp [closed, register] at hmem
    exact hold hmem
  | change i c c' new _ hchange =>
    exact hold ((List.mem_append.1 hmem).resolve_left (assign_notMem_change hchange this src))
  | start =>
    simp at hmem
    exact hold hmem
  | release i c fdType k last new _ _ _ _ _ hnew =>
    rcases hnew with ⟨rfl, -⟩ | ⟨-, rfl⟩
    · simp at hmem
      exact hold hmem
    · simp [assign_notMem_hangUpCalls] at hmem
      exact hold hmem
  | orphan i c d fd _ _ _ _ =>
    exact hold ((List.mem_append.1 hmem).resolve_left (assign_notMem_hangUpCalls this src d))
  | reap i c pid clientFd status _ _ _ _ _ _ _ _ _ =>
    exact hold ((List.mem_append.1 hmem).resolve_left (assign_notMem_reapCalls this src _ pid _))
  | erase i c last this' src' k lastPfd _ _ hthis _ _ _ _ _ hreaped =>
    simp at hmem
    rcases hmem with ⟨rfl, -⟩ | hmem
    · have hsuffix : s.calls <:+ .assign this src' :: .close c.clientFd true :: s.calls :=
        (List.suffix_cons _ _).trans (List.suffix_cons _ _)
      exact hthis.2.trans (hreaped (hearly.of_suffix hsuffix))
    · exact hold hmem

end Server

namespace World

variable {config : Config} {w : World}

theorem Reachable.erasesReaped (h : Reachable config w) (hearly : NoEarlyRemoval w.server.calls) :
    w.server.ErasesReaped :=
  h.invariant (I := fun s => NoEarlyRemoval s.calls → s.ErasesReaped) (fun _ _ _ hmem => nomatch hmem)
    (fun _ hold haction => erasesReaped_action hold haction) hearly

/-- **A reapable CGI has its client**: if no bytes were read from a connection after its request was
complete, and no removal was requested for a client between the kill and the reaping of its CGI, then
every entry of `_cgi_pid_to_client_fd` leads to a live client with that CGI, and no client was erased
before its CGI was reaped. -/
theorem cgiPidToClientFd_reaps (h : Reachable config w) (hlate : NoLateRead w.server.calls)
    (hearly : NoEarlyRemoval w.server.calls) : w.server.Reaps ∧ w.server.ErasesReaped :=
  ⟨h.good.server.reaps hlate hearly, h.erasesReaped hearly⟩

/-- A client asks for a CGI, to which its body cannot be written yet. -/
def requestAnswers : List Answers := cgiAnswers 4 postRequest 100

/-- `poll` times out, no CGI has exited, and the time of the only client is up. -/
def timeoutAnswers : List Answers := [{}, {}, { now := 2000000000 }, {}]

theorem cgiPidToClientFd_reaps_request :
    (after cgiConfig [3] requestAnswers).server.cgiPidToClientFd.lookup 100 = some 4 ∧
      (after cgiConfig [3] requestAnswers).server.Reaps := by
  have hreach : Reachable cgiConfig (after cgiConfig [3] requestAnswers) :=
    reachable_after (by decide +kernel) (by decide +kernel)
  exact ⟨by decide +kernel, (cgiPidToClientFd_reaps hreach (by decide +kernel) (by decide +kernel)).1⟩

/-- A client whose time is up twice is erased while its CGI still runs. -/
theorem not_reaps_timeouts : ¬ ∀ (config : Config) (w : World), Reachable config w →
    w.server.Reaps := by
  intro h
  have hreach : Reachable cgiConfig
      (after cgiConfig [3] (requestAnswers ++ timeoutAnswers ++ timeoutAnswers)) :=
    reachable_after (by decide +kernel) (by decide +kernel)
  have hlookup : (after cgiConfig [3] (requestAnswers ++ timeoutAnswers ++
      timeoutAnswers)).server.cgiPidToClientFd.lookup 100 = some 4 := by decide +kernel
  have hgone : (after cgiConfig [3] (requestAnswers ++ timeoutAnswers ++
      timeoutAnswers)).server.fdToClientIndex.lookup 4 = none := by decide +kernel
  obtain ⟨i, c, hindex, -⟩ := h _ _ hreach 100 4 hlookup
  cases hgone.symm.trans hindex

/-- **What a client has registered it holds**: if no bytes were read from a connection after its
request was complete, and no removal was requested for a client between the kill and the reaping of
its CGI, then every polled descriptor of a client leads to the client that holds it. -/
theorem pfds_owned (h : Reachable config w) (hlate : NoLateRead w.server.calls)
    (hearly : NoEarlyRemoval w.server.calls) : w.server.Owns := by
  have hs := h.good.server
  intro pfd hpfd fdType hregistered hserver
  have hpolled : pfd.fd ∈ w.server.fdToPfdIndex :=
    (hs.indexed.mem_iff pfd.fd).2 (List.mem_map_of_mem hpfd)
  obtain ⟨fdType', hkind, hregistered'⟩ := hs.opened pfd.fd hpolled
  obtain rfl := Option.some.inj (hregistered'.symm.trans hregistered)
  obtain ⟨c, hc, hheld⟩ := (hs.orderly hlate hearly).attached pfd.fd fdType' hserver ⟨hpolled, hkind⟩
  obtain ⟨i, hi⟩ := List.mem_iff_getElem?.1 hc
  have hindex := (hs.held i c fdType' hi (hheld ▸ hs.ne_neg_one hpolled)).2
  exact ⟨i, c, hheld ▸ hindex, (List.getElem?_eq_some_iff.1 hi).1, hi, hheld⟩

theorem pfds_owned_request :
    (after cgiConfig [3] requestAnswers).server.pfds.map Pollfd.fd = [3, 4, 6, 7] ∧
      (after cgiConfig [3] requestAnswers).server.Owns := by
  have hreach : Reachable cgiConfig (after cgiConfig [3] requestAnswers) :=
    reachable_after (by decide +kernel) (by decide +kernel)
  exact ⟨by decide +kernel, pfds_owned hreach (by decide +kernel) (by decide +kernel)⟩

/-- The pipe to the CGI of a client whose time is up twice stays registered without a holder. -/
theorem not_owns_timeouts : ¬ ∀ (config : Config) (w : World), Reachable config w →
    w.server.Owns := by
  intro h
  have hreach : Reachable cgiConfig
      (after cgiConfig [3] (requestAnswers ++ timeoutAnswers ++ timeoutAnswers)) :=
    reachable_after (by decide +kernel) (by decide +kernel)
  have hmem : { fd := 6, events := { pollout := true } } ∈ (after cgiConfig [3] (requestAnswers ++
      timeoutAnswers ++ timeoutAnswers)).server.pfds := by decide +kernel
  have hregistered : registeredAs 6 (after cgiConfig [3] (requestAnswers ++ timeoutAnswers ++
      timeoutAnswers)).server.calls = some .serverToCgi := by decide +kernel
  have hnone : (after cgiConfig [3] (requestAnswers ++ timeoutAnswers ++
      timeoutAnswers)).server.clients.length = 0 := by decide +kernel
  obtain ⟨i, c, -, hlt, -⟩ := h _ _ hreach _ hmem .serverToCgi hregistered nofun
  omega

end World

end Webserv
