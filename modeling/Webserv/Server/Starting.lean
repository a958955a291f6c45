import Webserv.Server.Exceptions
import Webserv.Server.Forward

/-!
# When a CGI can be started

`_startCGI` opens two pipes and forks, which may fail and then throws. Everything after that looks up
what the tables of the server promise: if the pipes are opened and the fork succeeds, the CGI runs and
its output is read (`exists_startCgi_iff`).
-/

namespace Webserv.Server

open Exec

variable {env : Answers} {s s' : Server} {i : ℕ} {c : Client} {fd : ℤ}

/-- The client in a slot has a CGI that runs, and whose output is read. -/
def RunsCgi (i : ℕ) (s : Server) : Prop :=
  ∃ c : Client, s.clients[i]? = some c ∧ c.cgiPid ∈ s.children ∧ c.cgiToServerState = .reading

/-- The pipes of a CGI can be opened, and the child can be forked. -/
structure CanStart (env : Answers) (s : Server) : Prop where
  pipes : ∃ toCgi fromCgi, env.serverToCgiPipe = some toCgi ∧ env.cgiToServerPipe = some fromCgi ∧
    [toCgi.1, toCgi.2, fromCgi.1, fromCgi.2].Nodup ∧
    ∀ fd ∈ [toCgi.1, toCgi.2, fromCgi.1, fromCgi.2], s.CanOpen fd
  fork : ∃ pid, env.fork = some pid ∧ 0 < pid ∧ pid ∉ s.children

/-- What can be started depends on the open descriptors and on the children. -/
theorem CanStart.congr (h : CanStart env s) (hdescriptors : s'.descriptors = s.descriptors)
    (hchildren : s'.children = s.children) : CanStart env s' := by
  obtain ⟨⟨toCgi, fromCgi, hto, hfrom, hnodup, hopen⟩, pid, hfork, hpos, hnew⟩ := h
  refine ⟨⟨toCgi, fromCgi, hto, hfrom, hnodup, fun fd hfd => ?_⟩, pid, hfork, hpos, hchildren ▸ hnew⟩
  exact ⟨(hopen fd hfd).1, hdescriptors ▸ (hopen fd hfd).2⟩

/-! ## System calls -/

/-- A pipe that the kernel can open. -/
theorem exists_pipe {proposed : Option (ℤ × ℤ)} {ends : ℤ × ℤ} (hproposed : proposed = some ends)
    (hread : s.CanOpen ends.1) (hwrite : s.CanOpen ends.2) (hne : ends.1 ≠ ends.2) :
    ∃ descriptors : Map ℤ FdType,
      (∀ fd, fd ∈ descriptors ↔ fd = ends.2 ∨ fd = ends.1 ∨ fd ∈ s.descriptors) ∧
      pipe proposed s = .ok ends { s with descriptors := descriptors } := by
  subst hproposed
  refine ⟨(s.descriptors.insert ends.1 FdType.cgiToServer).insert ends.2 FdType.serverToCgi,
    fun fd => by simp only [Finmap.mem_insert], ?_⟩
  rw [pipe, run_bind, run_get]
  dsimp only
  rw [run_ite, if_pos ⟨hread, hwrite, hne⟩]
  rfl

/-- A pipe is one that the kernel could open. -/
theorem pipe_proposed {proposed : Option (ℤ × ℤ)} {ends : ℤ × ℤ} (h : pipe proposed s = .ok ends s') :
    proposed = some ends := by
  obtain ⟨_, _, ⟨⟩, h⟩ := bind_eq_ok h
  cases proposed with
  | none => cases h
  | some p =>
    dsimp only at h
    rw [run_ite] at h
    split_ifs at h
    · cases h
      rfl
    · cases h

theorem fork_of {pid : ℤ} (hfork : env.fork = some pid) (hpos : 0 < pid) (hnew : pid ∉ s.children) :
    fork env s = .ok pid { s with children := insert pid s.children } := by
  rw [fork, run_bind, run_get]
  dsimp only
  rw [hfork]
  dsimp only
  rw [run_ite, if_pos ⟨hpos, hnew⟩]
  rfl

theorem fork_proposed {pid : ℤ} (h : fork env s = .ok pid s') : env.fork = some pid := by
  obtain ⟨_, _, ⟨⟩, h⟩ := bind_eq_ok h
  cases hfork : env.fork with
  | none =>
    rw [hfork] at h
    cases h
  | some pid' =>
    rw [hfork] at h
    dsimp only at h
    rw [run_ite] at h
    split_ifs at h
    · cases h
      rfl
    · cases h

theorem ne_neg_one_of_canOpen (h : s.CanOpen fd) : fd ≠ -1 := by
  have hnonneg := h.1
  omega

/-- The ends of an open pipe are not handed out again. -/
theorem canOpen_of_insert {ends : ℤ × ℤ} {kind kind' : FdType} (h : ({ s with
      descriptors := (s.descriptors.insert ends.1 kind).insert ends.2 kind' } : Server).CanOpen fd) :
    fd ≠ ends.1 ∧ fd ≠ ends.2 ∧ s.CanOpen fd := by
  obtain ⟨hnonneg, hnew⟩ := h
  simp only [Finmap.mem_insert, not_or] at hnew
  exact ⟨hnew.2.1, hnew.1, hnonneg, hnew.2.2⟩

/-! ## The ends of the server -/

theorem addClientFd_of (hne : fd ≠ -1) (fdType : FdType) (events : Events) :
    addClientFd fd i fdType events s = .ok () (s.connect fd i fdType events) := by
  rw [addClientFd, bind_of_ok (assert_of hne), run_bind, run_modify]
  dsimp only
  rw [addFd, bind_of_ok (assert_of hne), bind_of_ok (log_of _), run_modify]
  rfl

theorem exists_connectServerToCgi (hi : s.clients[i]? = some c) (hne : fd ≠ -1)
    (hopen : fd ∈ s.descriptors) (hnew : fd ∉ s.fdToPfdIndex) :
    ∃ s', connectServerToCgi i i fd s = .ok () s' := by
  rw [connectServerToCgi, bind_of_ok (clientAt_of hi), run_ite]
  split_ifs with hdone
  · exact ⟨_, close_of hopen⟩
  · have hi₁ : (s.connect fd i .serverToCgi { pollout := c.body ≠ [] }).clients[i]? = some c := hi
    have hi₂ := getElem?_set_self_of hi { c with serverToCgiFd := fd, serverToCgiState := .writing }
    -- the entry that is pushed is the one that is enabled
    have hk : (s.fdToPfdIndex.emplace fd s.pfds.length).lookup fd = some s.pfds.length := by
      rw [Map.emplace_of_notMem hnew, Finmap.lookup_insert]
    have hpfd : (s.pfds ++ [({ fd := fd, events := { pollout := c.body ≠ [] } } : Pollfd)])[
        s.pfds.length]? = some { fd := fd, events := { pollout := c.body ≠ [] } } := by
      rw [List.getElem?_append_right le_rfl, Nat.sub_self]
      rfl
    obtain ⟨s₂, hs₂, hclients, hindex, hpfds⟩ : ∃ s₂ : Server, modifyClient i (fun c => { c with
        serverToCgiFd := fd, serverToCgiState := .writing })
          (s.connect fd i .serverToCgi { pollout := c.body ≠ [] }) = .ok () s₂ ∧
        s₂.clients[i]? = some { c with serverToCgiFd := fd, serverToCgiState := .writing } ∧
        s₂.fdToPfdIndex.lookup fd = some s.pfds.length ∧
        s₂.pfds[s.pfds.length]? = some { fd := fd, events := { pollout := c.body ≠ [] } } :=
      ⟨_, modifyClient_of hi₁ _, hi₂, hk, hpfd⟩
    rw [bind_of_ok (addClientFd_of hne _ _), bind_of_ok hs₂, enableWritingToCgi,
      bind_of_ok (clientAt_of hclients), bind_of_ok (assert_of nofun), bind_of_ok (assert_of hne),
      run_bind, run_get]
    dsimp only
    obtain ⟨s₃, hs₃, hclients₃⟩ : ∃ s₃ : Server, enablePollout s.pfds.length s₂ = .ok () s₃ ∧
        s₃.clients[i]? = some { c with serverToCgiFd := fd, serverToCgiState := .writing } :=
      ⟨_, modifyPfd_of hpfds _, hclients⟩
    rw [bind_of_ok (lookupAt_of hindex), bind_of_ok hs₃]
    exact ⟨_, modifyClient_of hclients₃ _⟩

theorem connectCgiToServer_of (hi : s.clients[i]? = some c) (hne : fd ≠ -1) :
    connectCgiToServer i i fd s = .ok () { s.connect fd i .cgiToServer { pollin := true } with
      clients := s.clients.set i (c.attach fd .cgiToServer) } := by
  have hi₁ : (s.connect fd i .cgiToServer { pollin := true }).clients[i]? = some c := hi
  rw [connectCgiToServer, bind_of_ok (addClientFd_of hne _ _)]
  exact modifyClient_of hi₁ _

/-! ## The start -/

/-- **A CGI is started if its pipes are opened and the fork succeeds.** -/
theorem startCgi_returns (hs : s.Good) (hi : s.clients[i]? = some c) (h : CanStart env s) :
    ∃ s', startCgi env i s = .ok () s' ∧ RunsCgi i s' := by
  obtain ⟨⟨toCgi, fromCgi, hto, hfrom, hnodup, hopen⟩, pid, hfork, hpos, hnew⟩ := h
  simp only [List.nodup_cons, List.mem_cons, List.not_mem_nil, or_false, not_or, not_false_eq_true,
    List.nodup_nil, and_true] at hnodup
  obtain ⟨⟨hne₁, hne₂, hne₃⟩, ⟨hne₄, hne₅⟩, hne₆⟩ := hnodup
  simp only [List.mem_cons, List.not_mem_nil, or_false, forall_eq_or_imp, forall_eq] at hopen
  obtain ⟨hopen₁, hopen₂, hopen₃, hopen₄⟩ := hopen
  -- the pipes and the child
  obtain ⟨d₁, hd₁, hpipe₁⟩ := exists_pipe hto hopen₁ hopen₂ hne₁
  obtain ⟨d₂, hd₂, hpipe₂⟩ := exists_pipe (s := { s with descriptors := d₁ }) hfrom
    ⟨hopen₃.1, by simp [hd₁, hopen₃.2, Ne.symm hne₂, Ne.symm hne₄]⟩
    ⟨hopen₄.1, by simp [hd₁, hopen₄.2, Ne.symm hne₃, Ne.symm hne₅]⟩ hne₆
  have hfork' := fork_of (s := { s with descriptors := d₂ }) hfork hpos hnew
  -- the ends of the CGI are closed
  have hclose₁ : close toCgi.1 { s with descriptors := d₂, children := insert pid s.children } = _ :=
    close_of (by simp [hd₂, hd₁])
  have hclose₂ : close fromCgi.2 (({ s with descriptors := d₂, children := insert pid s.children } :
      Server).closed toCgi.1) = _ :=
    close_of (Finmap.mem_erase.2 ⟨Ne.symm hne₃, by simp [hd₂]⟩)
  rw [startCgi, bind_of_ok hpipe₁, bind_of_ok hpipe₂, bind_of_ok hfork', bind_of_ok hclose₁,
    bind_of_ok hclose₂]
  have htoOpen : toCgi.2 ∈ ((({ s with descriptors := d₂, children := insert pid s.children } :
      Server).closed toCgi.1).closed fromCgi.2).descriptors :=
    Finmap.mem_erase.2 ⟨hne₅, Finmap.mem_erase.2 ⟨Ne.symm hne₁, by simp [hd₂, hd₁]⟩⟩
  obtain ⟨t, ht, hclients, hindex, hpfdIndex, hchildren, hdescriptors⟩ : ∃ t : Server,
      (({ s with descriptors := d₂, children := insert pid s.children } : Server).closed
        toCgi.1).closed fromCgi.2 = t ∧ t.clients[i]? = some c ∧
      t.fdToClientIndex.lookup c.clientFd = some i ∧ toCgi.2 ∉ t.fdToPfdIndex ∧ pid ∈ t.children ∧
      toCgi.2 ∈ t.descriptors :=
    ⟨_, rfl, hi, hs.index_clientFd hi, hs.notMem_of_canOpen hopen₂, Finset.mem_insert_self _ _, htoOpen⟩
  rw [ht, bind_of_ok (clientAt_of hclients), bind_of_ok (modifyClient_of hclients _), run_bind,
    run_modify]
  dsimp only
  rw [run_bind, run_get]
  dsimp only
  rw [bind_of_ok (lookupAt_of hindex)]
  -- the ends of the server are attached to the client
  have hset := getElem?_set_self_of hclients { c with cgiPid := pid }
  obtain ⟨t₁, hconnect⟩ := exists_connectServerToCgi (s := { t with
      clients := t.clients.set i { c with cgiPid := pid }
      cgiPidToClientFd := t.cgiPidToClientFd.emplace pid c.clientFd }) hset
    (ne_neg_one_of_canOpen hopen₂) hdescriptors hpfdIndex
  obtain ⟨c₁, hclients₁, hpid₁, hchildren₁⟩ : ∃ c₁, t₁.clients[i]? = some c₁ ∧ c₁.cgiPid = pid ∧
      pid ∈ t₁.children := by
    rcases connectServerToCgi_ok hconnect hset hpfdIndex with ⟨-, rfl⟩ | ⟨-, rfl⟩
    · exact ⟨_, hset, rfl, hchildren⟩
    · exact ⟨_, getElem?_set_self_of hset _, rfl, hchildren⟩
  rw [bind_of_ok hconnect, bind_of_ok (connectCgiToServer_of hclients₁ (ne_neg_one_of_canOpen hopen₃)),
    bind_of_ok (log_of _), run_modify]
  refine ⟨_, rfl, c₁.attach fromCgi.1 .cgiToServer, getElem?_set_self_of hclients₁ _, ?_, rfl⟩
  rw [show (c₁.attach fromCgi.1 .cgiToServer).cgiPid = pid from hpid₁]
  exact hchildren₁

/-- **A CGI is started exactly if its pipes are opened and the fork succeeds.** -/
theorem startCgi_returns_iff (hs : s.Good) (hi : s.clients[i]? = some c) :
    (∃ s', startCgi env i s = .ok () s') ↔ CanStart env s := by
  refine ⟨fun ⟨s', h⟩ => ?_, fun h => ?_⟩
  · obtain ⟨toCgi, s₁, hto, h⟩ := bind_eq_ok h
    obtain ⟨fromCgi, s₂, hfrom, h⟩ := bind_eq_ok h
    obtain ⟨pid, s₃, hfork, -⟩ := bind_eq_ok h
    have htoEnds := pipe_proposed hto
    have hfromEnds := pipe_proposed hfrom
    obtain ⟨hopen₁, hopen₂, hne, rfl⟩ := pipe_ok hto
    obtain ⟨hopen₃, hopen₄, hne', rfl⟩ := pipe_ok hfrom
    have hpid := fork_proposed hfork
    obtain ⟨hpos, hnew, rfl⟩ := fork_ok hfork
    obtain ⟨hne₁, hne₂, hopen₃'⟩ := canOpen_of_insert hopen₃
    obtain ⟨hne₃, hne₄, hopen₄'⟩ := canOpen_of_insert hopen₄
    refine ⟨⟨toCgi, fromCgi, htoEnds, hfromEnds, ?_, ?_⟩, pid, hpid, hpos, hnew⟩
    · simp [hne, hne', hne₁.symm, hne₂.symm, hne₃.symm, hne₄.symm]
    · simp [hopen₁, hopen₂, hopen₃', hopen₄']
  · obtain ⟨s', h, -⟩ := startCgi_returns hs hi h
    exact ⟨s', h⟩

end Webserv.Server
