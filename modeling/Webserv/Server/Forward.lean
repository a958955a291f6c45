import Webserv.Server.RunTrace

/-!
# Removing a client succeeds

The functions that take descriptors and clients out of the tables look up what the invariants of the
server promise, so they do not throw: a pipe of a client can be removed (`exists_removePipeFd`), and a
client can be removed unless its CGI cannot be killed (`exists_removeClient`).
-/

namespace Webserv

/-- The client has a CGI to kill: `_removeClient` keeps the client until it is reaped. -/
def Client.HasCgi (c : Client) : Prop := c.cgiKilled = false ∧ c.cgiPid ≠ -1

instance (c : Client) : Decidable c.HasCgi := inferInstanceAs (Decidable (_ ∧ _))

namespace Server

open Exec History IndexedVector

variable {config : Config} {stage : Stage} {env : Answers} {s s' : Server} {i k : ℕ} {c : Client}
  {fd : ℤ}

/-! ## Lookups -/

theorem assert_of {p : Prop} [Decidable p] (h : p) : assert p s = .ok () s := by
  rw [assert, run_ite, if_pos h, run_pure]

theorem lookupAt_of {κ ν : Type} [DecidableEq κ] {m : Map κ ν} {key : κ} {v : ν}
    (h : m.lookup key = some v) : lookupAt m key s = .ok v s := by
  rw [lookupAt, h]
  rfl

theorem clientAt_of (hi : s.clients[i]? = some c) : clientAt i s = .ok c s := by
  rw [clientAt, run_bind, run_get]
  dsimp only
  rw [hi]
  rfl

theorem modifyClient_of (hi : s.clients[i]? = some c) (f : Client → Client) :
    modifyClient i f s = .ok () { s with clients := s.clients.set i (f c) } := by
  rw [modifyClient, onClient, bind_of_ok (clientAt_of hi)]
  rfl

theorem getClient_of (hindex : s.fdToClientIndex.lookup fd = some i)
    (hi : s.clients[i]? = some c) : getClient fd s = .ok i s := by
  rw [getClient, run_bind, run_get]
  dsimp only
  rw [bind_of_ok (lookupAt_of hindex), bind_of_ok (clientAt_of hi), run_pure]

theorem log_of (call : Call) : log call s = .ok () { s with calls := call :: s.calls } := rfl

theorem modifyPfd_of {pfd : Pollfd} (hk : s.pfds[k]? = some pfd) (f : Pollfd → Pollfd) :
    modifyPfd k f s = .ok () { s with pfds := s.pfds.set k (f pfd) } := by
  rw [modifyPfd, run_bind, run_get]
  dsimp only
  rw [hk]
  rfl

theorem disableReadingFromClient_of {pfd : Pollfd} (hi : s.clients[i]? = some c)
    (hk : s.fdToPfdIndex.lookup c.clientFd = some k) (hpfd : s.pfds[k]? = some pfd) :
    disableReadingFromClient i s = .ok () { s with
      pfds := s.pfds.set k pfd.withoutPollin
      clients := s.clients.set i { c with clientToServerState := .done } } := by
  rw [disableReadingFromClient, bind_of_ok (clientAt_of hi), run_bind, run_get]
  dsimp only
  rw [bind_of_ok (lookupAt_of hk), disablePollin, bind_of_ok (modifyPfd_of hpfd _)]
  exact modifyClient_of (s := { s with pfds := s.pfds.set k pfd.withoutPollin }) hi _

/-! ## Descriptors -/

/-- What is polled has an entry in `_pfds`. -/
theorem entry_of_indexed (h : IndexedBy (s.pfds.map Pollfd.fd) s.fdToPfdIndex)
    (hfd : fd ∈ s.fdToPfdIndex) :
    ∃ k pfd, s.fdToPfdIndex.lookup fd = some k ∧ s.pfds[k]? = some pfd ∧ pfd.fd = fd := by
  obtain ⟨k, hk⟩ := Finmap.mem_iff.1 hfd
  have hkey := (h fd k).1 hk
  rw [List.getElem?_map] at hkey
  obtain ⟨pfd, hpfd, heq⟩ := Option.map_eq_some_iff.1 hkey
  exact ⟨k, pfd, hk, hpfd, heq⟩

theorem Tables.exists_pfd (h : s.Tables) (hfd : fd ∈ s.fdToPfdIndex) :
    ∃ k pfd, s.fdToPfdIndex.lookup fd = some k ∧ s.pfds[k]? = some pfd := by
  obtain ⟨k, pfd, hk, hpfd, -⟩ := entry_of_indexed h.indexed hfd
  exact ⟨k, pfd, hk, hpfd⟩

/-- What is polled can be taken out of `_pfds`. -/
theorem removePfd_of_indexed (h : IndexedBy (s.pfds.map Pollfd.fd) s.fdToPfdIndex)
    (hfd : fd ∈ s.fdToPfdIndex) :
    ∃ k last, s.fdToPfdIndex.lookup fd = some k ∧ s.pfds.getLast? = some last ∧
      removePfd fd s = .ok () (s.unregister fd k last) := by
  obtain ⟨k, pfd, hk, hpfd, -⟩ := entry_of_indexed h hfd
  obtain ⟨last, hlast⟩ : ∃ last, s.pfds.getLast? = some last := by
    have hne : s.pfds ≠ [] := List.ne_nil_of_mem (List.mem_of_getElem? hpfd)
    exact ⟨_, List.getLast?_eq_some_getLast hne⟩
  refine ⟨k, last, hk, hlast, ?_⟩
  rw [removePfd, run_bind, run_get]
  dsimp only
  rw [bind_of_ok (lookupAt_of hk), run_bind, run_get]
  dsimp only
  rw [hlast]
  dsimp only
  rw [run_bind, run_modify]
  dsimp only
  rw [swapRemovePfd, run_bind, run_bind, run_get]
  dsimp only
  rw [swapRemove_eq hpfd hlast]
  rfl

theorem close_of (h : fd ∈ s.descriptors) : close fd s = .ok () (s.closed fd) := by
  simp only [close, log, run_bind, run_get, run_modify, run_ite, h, decide_true, if_true]
  rfl

/-- A descriptor that is polled and open can be removed. -/
theorem removeFd_of_indexed (h : IndexedBy (s.pfds.map Pollfd.fd) s.fdToPfdIndex)
    (hfd : fd ∈ s.fdToPfdIndex) (hne : fd ≠ -1) (hopen : fd ∈ s.descriptors) :
    ∃ k last, s.fdToPfdIndex.lookup fd = some k ∧ s.pfds.getLast? = some last ∧
      removeFd fd s = .ok () (s.dropped fd k last) := by
  obtain ⟨k, last, hk, hlast, hremove⟩ := removePfd_of_indexed h hfd
  refine ⟨k, last, hk, hlast, ?_⟩
  rw [removeFd, bind_of_ok (assert_of hne), bind_of_ok hremove, run_bind, run_modify]
  exact close_of hopen

theorem Tables.exists_removeClientFd (h : s.Tables) (hfd : fd ∈ s.fdToPfdIndex) :
    ∃ s', removeClientFd fd s = .ok () s' := by
  have hne := h.ne_neg_one hfd
  obtain ⟨k, last, -, -, hremove⟩ := removeFd_of_indexed
    (s := { s with fdToClientIndex := s.fdToClientIndex.erase fd }) h.indexed hfd hne
    (h.mem_descriptors hfd)
  refine ⟨{ s.dropped fd k last with fdToClientIndex := s.fdToClientIndex.erase fd }, ?_⟩
  rw [removeClientFd, bind_of_ok (assert_of hne), run_bind, run_modify]
  exact hremove

/-- A pipe of a client can be removed. -/
theorem Coherent.exists_removePipeFd (h : s.Coherent) (fdType : FdType) (hfd : fd ≠ -1)
    (hindex : s.fdToClientIndex.lookup fd = some i) (hi : s.clients[i]? = some c) :
    ∃ s', removePipeFd fdType fd s = .ok () s' := by
  by_cases hheld : c.fdOf fdType = -1
  · refine ⟨s, ?_⟩
    rw [removePipeFd, bind_of_ok (assert_of hfd), bind_of_ok (getClient_of hindex hi),
      bind_of_ok (clientAt_of hi), run_ite, if_pos hheld, run_pure]
  · obtain ⟨s₁, hremove⟩ := h.exists_removeClientFd (h.held i c fdType hi hheld).1.1
    obtain ⟨k, last, -, -, hs₁⟩ := removeClientFd_ok hremove
    have hi₁ : s₁.clients[i]? = some c := by
      rw [hs₁]
      exact hi
    refine ⟨{ s₁ with clients := s₁.clients.set i (c.release fdType) }, ?_⟩
    rw [removePipeFd, bind_of_ok (assert_of hfd), bind_of_ok (getClient_of hindex hi),
      bind_of_ok (clientAt_of hi), run_ite, if_neg hheld, bind_of_ok hremove]
    exact modifyClient_of hi₁ _

/-! ## Clients -/

theorem Coherent.exists_killCgi (h : s.Coherent) (hfd : fd ≠ -1)
    (hindex : s.fdToClientIndex.lookup fd = some i) (hi : s.clients[i]? = some c)
    (hkill : c.HasCgi → env.kill = true) : ∃ s', killCgi env fd s = .ok () s' := by
  by_cases hcgi : c.HasCgi
  · obtain ⟨s', hremove⟩ := Coherent.exists_removePipeFd
      (s := { s with clients := s.clients.set i { c with cgiKilled := true } })
      (h.congr rfl rfl rfl (fun _ _ => rfl) h.nonneg (fun _ => rfl) rfl (map_set_of_eq hi rfl))
      .cgiToServer hfd hindex (getElem?_set_self_of hi _)
    refine ⟨s', ?_⟩
    have hcgi' : c.cgiKilled = false ∧ c.cgiPid ≠ -1 := hcgi
    rw [killCgi, bind_of_ok (getClient_of hindex hi), bind_of_ok (clientAt_of hi), run_ite,
      if_pos hcgi', kill, if_pos (hkill hcgi), run_bind, run_pure]
    dsimp only
    rw [bind_of_ok (modifyClient_of hi _)]
    exact hremove
  · refine ⟨s, ?_⟩
    have hcgi' : ¬ (c.cgiKilled = false ∧ c.cgiPid ≠ -1) := hcgi
    rw [killCgi, bind_of_ok (getClient_of hindex hi), bind_of_ok (clientAt_of hi), run_ite,
      if_neg hcgi', run_pure]


/-- A client that is marked can be taken out of its slot. -/
theorem Good.exists_eraseClient (config : Config) (hs : s.Good) (hi : s.clients[i]? = some c)
    (hremoved : c.beingRemoved = true) : ∃ s', eraseClient c.clientFd i s = .ok () s' := by
  have hindex := hs.index_clientFd hi
  obtain ⟨s₁, hremove⟩ := hs.exists_removePipeFd .cgiToServer (hs.clientFd_ne hi) hindex hi
  obtain ⟨hquiet, c₁, hi₁, -⟩ : Quiet config .handling s s₁ ∧ _ :=
    removePipeFd_quiet (.inr rfl) hremove hindex hi fun _ => .inr hremoved
  have hs₁ := hquiet.good hs
  obtain ⟨last, hlast⟩ : ∃ last, s₁.clients.getLast? = some last :=
    ⟨_, List.getLast?_eq_some_getLast (List.ne_nil_of_mem (List.mem_of_getElem? hi₁))⟩
  have hpolled := (hs₁.held i c₁ .client hi₁ (hs₁.clientFd_ne hi₁)).1.1
  obtain ⟨s₂, hfd⟩ := Tables.exists_removeClientFd
    (s := { s₁ with fdToClientIndex := repoint s₁.fdToClientIndex last i })
    (hs₁.toTables.congr rfl rfl rfl (fun _ _ => rfl) hs₁.nonneg fun _ => rfl) hpolled
  obtain ⟨k, lastPfd, -, -, hs₂⟩ := removeClientFd_ok hfd
  have hi₂ : s₂.clients[i]? = some c₁ := by
    rw [hs₂]
    exact hi₁
  have hi₃ := getElem?_set_self_of hi₂ { c₁ with clientFd := -1 }
  obtain ⟨src, hsrc⟩ : ∃ src, (s₂.clients.set i { c₁ with clientFd := -1 }).getLast? = some src :=
    ⟨_, List.getLast?_eq_some_getLast (List.ne_nil_of_mem (List.mem_of_getElem? hi₃))⟩
  refine ⟨{ s₂ with
    clients := ((s₂.clients.set i { c₁ with clientFd := -1 }).set i
      (Client.assign { c₁ with clientFd := -1 } src)).dropLast
    calls := .assign { c₁ with clientFd := -1 } src :: s₂.calls }, ?_⟩
  rw [eraseClient, removeCgiToServerFd, bind_of_ok hremove, bind_of_ok (clientAt_of hi₁), run_bind,
    run_get]
  dsimp only
  rw [bind_of_ok (lookupAt_of (hs₁.index_clientFd hi₁)), run_bind, run_get]
  dsimp only
  rw [hlast]
  dsimp only
  rw [run_bind, run_modify]
  dsimp only
  refine (bind_of_ok hfd).trans ?_
  rw [bind_of_ok (modifyClient_of hi₂ _), swapRemoveClient, run_bind, run_get]
  dsimp only
  rw [hi₃, hsrc]
  rfl

/-- What `_removeClient` does first: the client is marked, and is not read from any more. -/
def marked (s : Server) (i : ℕ) (c : Client) (k : ℕ) (pfd : Pollfd) : Server :=
  { s with
    pfds := s.pfds.set k pfd.withoutPollin
    clients := s.clients.set i { c with beingRemoved := true, clientToServerState := .done }
    calls := .removeClient c :: s.calls }

theorem removeClient_of {pfd : Pollfd} (hfd : c.clientFd ≠ -1)
    (hindex : s.fdToClientIndex.lookup c.clientFd = some i) (hi : s.clients[i]? = some c)
    (hk : s.fdToPfdIndex.lookup c.clientFd = some k) (hpfd : s.pfds[k]? = some pfd) :
    removeClient env c.clientFd s =
      (if c.cgiKilled = false ∧ c.cgiPid ≠ -1 then killCgi env c.clientFd
        else eraseClient c.clientFd i) (s.marked i c k pfd) := by
  rw [removeClient, bind_of_ok (assert_of hfd), bind_of_ok (getClient_of hindex hi),
    bind_of_ok (clientAt_of hi), bind_of_ok (log_of _)]
  refine (bind_of_ok (modifyClient_of
    (s := { s with calls := .removeClient c :: s.calls }) hi _)).trans ?_
  have hdisable : disableReadingFromClient i { s with
      clients := s.clients.set i { c with beingRemoved := true }
      calls := .removeClient c :: s.calls } = .ok () (s.marked i c k pfd) := by
    have h := disableReadingFromClient_of
      (s := { s with
        clients := s.clients.set i { c with beingRemoved := true }
        calls := .removeClient c :: s.calls })
      (getElem?_set_self_of hi { c with beingRemoved := true }) hk hpfd
    rw [List.set_set] at h
    exact h
  refine (bind_of_ok hdisable).trans ?_
  have hclient : clientAt i (s.marked i c k pfd) =
      .ok { c with beingRemoved := true, clientToServerState := .done } (s.marked i c k pfd) :=
    clientAt_of (getElem?_set_self_of hi _)
  rw [bind_of_ok hclient]

/-- **A client can be removed, unless its CGI cannot be killed.** -/
theorem Good.exists_removeClient (config : Config) (hs : s.Good) (hi : s.clients[i]? = some c)
    (hkill : c.HasCgi → env.kill = true) : ∃ s', removeClient env c.clientFd s = .ok () s' := by
  have hfd := hs.clientFd_ne hi
  have hindex := hs.index_clientFd hi
  obtain ⟨k, pfd, hk, hpfd⟩ := hs.exists_pfd (hs.held i c .client hi hfd).1.1
  have hmark : Actions config .handling s (s.marked i c k pfd) :=
    mark_actions c hi hk hpfd rfl rfl rfl
  have hs₁ := hs.actions hmark
  have hi₁ : (s.marked i c k pfd).clients[i]? =
      some { c with beingRemoved := true, clientToServerState := .done } :=
    getElem?_set_self_of hi _
  rw [removeClient_of hfd hindex hi hk hpfd, run_ite]
  split_ifs with hcgi
  · exact hs₁.exists_killCgi hfd hindex hi₁ fun _ => hkill hcgi
  · exact Good.exists_eraseClient
      (c := { c with beingRemoved := true, clientToServerState := .done }) config hs₁ hi₁ rfl

end Server

end Webserv
