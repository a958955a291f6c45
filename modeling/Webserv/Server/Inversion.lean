import Webserv.Server.Orderly

/-!
# What a function of the server has done when it returns

The inversion lemmas of the functions that add and remove descriptors, change clients and call the
kernel: when such a function returns, its checks have passed, and the new state is the one given
here.
-/

namespace Webserv.Server

open Exec History IndexedVector

variable {config : Config} {env : Answers} {s s' : Server}

/-! ## Clients and tables -/

theorem assert_ok {p : Prop} [Decidable p] {u : Unit} (h : assert p s = .ok u s') :
    s = s' ∧ p := by
  unfold assert at h
  rw [run_ite] at h
  split_ifs at h with hp
  · cases h
    exact ⟨rfl, hp⟩
  · cases h

theorem log_ok {call : Call} {u : Unit} (h : log call s = .ok u s') :
    s' = { s with calls := call :: s.calls } := by
  cases h
  rfl

theorem lookupAt_ok {κ ν : Type} [DecidableEq κ] {m : Map κ ν} {k : κ} {v : ν}
    (h : lookupAt m k s = .ok v s') : s = s' ∧ m.lookup k = some v := by
  cases hlookup : m.lookup k with
  | none =>
    rw [lookupAt, hlookup] at h
    cases h
  | some v' =>
    rw [lookupAt, hlookup] at h
    cases h
    exact ⟨rfl, rfl⟩

theorem clientAt_eq (s : Server) (i : ℕ) : clientAt i s = match s.clients[i]? with
    | some c => .ok c s
    | none => .error .undefinedBehaviour s := by
  rw [clientAt, run_bind, run_get]
  dsimp only
  cases s.clients[i]? <;> rfl

theorem clientAt_ok {i : ℕ} {c : Client} (h : clientAt i s = .ok c s') :
    s = s' ∧ s.clients[i]? = some c := by
  rw [clientAt_eq] at h
  split at h
  · rename_i c' hi
    cases h
    exact ⟨rfl, hi⟩
  · cases h

theorem onClient_eq {α : Type} {i : ℕ} {method : ClientM α} {c : Client}
    (hi : s.clients[i]? = some c) : onClient i method s = match method c with
      | .ok a c' => .ok a { s with clients := s.clients.set i c' }
      | .error e c' => .error e { s with clients := s.clients.set i c' } := by
  unfold onClient
  rw [run_bind, clientAt_eq, hi]
  dsimp only
  cases method c <;> rfl

theorem onClient_ok {α : Type} {i : ℕ} {method : ClientM α} {a : α}
    (h : onClient i method s = .ok a s') : ∃ c c', s.clients[i]? = some c ∧
      method c = .ok a c' ∧ s' = { s with clients := s.clients.set i c' } := by
  obtain ⟨c, s₁, hclient, -⟩ := bind_eq_ok h
  obtain ⟨-, hi⟩ := clientAt_ok hclient
  rw [onClient_eq hi] at h
  split at h
  · rename_i a' c' hmethod
    cases h
    exact ⟨c, c', hi, hmethod, rfl⟩
  · cases h

theorem onClient_error {α : Type} {i : ℕ} {method : ClientM α} {c : Client} {e : Fault}
    (h : onClient i method s = .error e s') (hi : s.clients[i]? = some c) :
    ∃ c', method c = .error e c' ∧ s' = { s with clients := s.clients.set i c' } := by
  rw [onClient_eq hi] at h
  split at h
  · cases h
  · rename_i e' c' hmethod
    cases h
    exact ⟨c', hmethod, rfl⟩

theorem modifyClient_ok {i : ℕ} {f : Client → Client} {u : Unit}
    (h : modifyClient i f s = .ok u s') : ∃ c, s.clients[i]? = some c ∧
      s' = { s with clients := s.clients.set i (f c) } := by
  obtain ⟨c, c', hi, hmodify, hs'⟩ := onClient_ok h
  cases hmodify
  exact ⟨c, hi, hs'⟩

theorem getClient_ok {fd : ℤ} {i : ℕ} (h : getClient fd s = .ok i s') :
    s = s' ∧ s.fdToClientIndex.lookup fd = some i ∧ ∃ c, s.clients[i]? = some c := by
  obtain ⟨_, _, ⟨⟩, h⟩ := bind_eq_ok h
  obtain ⟨j, s₁, hlookup, h⟩ := bind_eq_ok h
  obtain ⟨rfl, hindex⟩ := lookupAt_ok hlookup
  obtain ⟨c, s₂, hclient, h⟩ := bind_eq_ok h
  obtain ⟨rfl, hi⟩ := clientAt_ok hclient
  cases h
  exact ⟨rfl, hindex, c, hi⟩

theorem modifyPfd_ok {k : ℕ} {f : Pollfd → Pollfd} {u : Unit} (h : modifyPfd k f s = .ok u s') :
    ∃ pfd, s.pfds[k]? = some pfd ∧ s' = { s with pfds := s.pfds.set k (f pfd) } := by
  obtain ⟨_, _, ⟨⟩, h⟩ := bind_eq_ok h
  cases hk : s.pfds[k]? with
  | none =>
    rw [hk] at h
    cases h
  | some pfd =>
    rw [hk] at h
    cases h
    exact ⟨pfd, rfl, rfl⟩

theorem close_ok {fd : ℤ} {u : Unit} (h : close fd s = .ok u s') :
    fd ∈ s.descriptors ∧ s' = s.closed fd := by
  change (if fd ∈ s.descriptors then
      modify fun s => { s with descriptors := s.descriptors.erase fd }
    else throw (.system .close) : ServerM Unit)
      { s with calls := .close fd (fd ∈ s.descriptors) :: s.calls } = .ok u s' at h
  rw [run_ite] at h
  split_ifs at h with hopen
  · cases h
    refine ⟨hopen, ?_⟩
    simp [closed, hopen]
  · cases h

theorem swapRemovePfd_ok {k : ℕ} {u : Unit} {last : Pollfd} (h : swapRemovePfd k s = .ok u s')
    (hlast : s.pfds.getLast? = some last) :
    s' = { s with pfds := (s.pfds.set k last).dropLast } := by
  obtain ⟨_, _, ⟨⟩, h⟩ := bind_eq_ok h
  cases hk : s.pfds[k]? with
  | none =>
    rw [swapRemove, hk] at h
    cases h
  | some pfd =>
    rw [swapRemove_eq hk hlast] at h
    cases h
    rfl

theorem removePfd_ok {fd : ℤ} {u : Unit} (h : removePfd fd s = .ok u s') :
    ∃ k last, s.fdToPfdIndex.lookup fd = some k ∧ s.pfds.getLast? = some last ∧
      s' = s.unregister fd k last := by
  obtain ⟨_, _, ⟨⟩, h⟩ := bind_eq_ok h
  obtain ⟨k, s₁, hlookup, h⟩ := bind_eq_ok h
  obtain ⟨rfl, hk⟩ := lookupAt_ok hlookup
  obtain ⟨_, _, ⟨⟩, h⟩ := bind_eq_ok h
  cases hlast : s.pfds.getLast? with
  | none =>
    rw [hlast] at h
    cases h
  | some last =>
    rw [hlast] at h
    obtain ⟨_, _, ⟨⟩, h⟩ := bind_eq_ok h
    obtain ⟨_, s₂, hswap, h⟩ := bind_eq_ok h
    obtain rfl := swapRemovePfd_ok hswap hlast
    cases h
    exact ⟨k, last, hk, rfl, rfl⟩

theorem removeClientFd_ok {fd : ℤ} {u : Unit} (h : removeClientFd fd s = .ok u s') :
    ∃ k last, s.fdToPfdIndex.lookup fd = some k ∧ s.pfds.getLast? = some last ∧
      s' = { s.dropped fd k last with fdToClientIndex := s.fdToClientIndex.erase fd } := by
  obtain ⟨_, s₁, hassert, h⟩ := bind_eq_ok h
  obtain ⟨rfl, hfd⟩ := assert_ok hassert
  obtain ⟨_, s₂, hmodify, h⟩ := bind_eq_ok h
  cases hmodify
  obtain ⟨_, s₃, hassert, h⟩ := bind_eq_ok h
  obtain ⟨rfl, -⟩ := assert_ok hassert
  obtain ⟨_, s₄, hremove, h⟩ := bind_eq_ok h
  obtain ⟨k, last, hk, hlast, rfl⟩ := removePfd_ok hremove
  obtain ⟨_, s₅, hmodify, h⟩ := bind_eq_ok h
  cases hmodify
  obtain ⟨-, rfl⟩ := close_ok h
  exact ⟨k, last, hk, hlast, rfl⟩

theorem enableWritingToClient_ok {i : ℕ} {u : Unit} (h : enableWritingToClient i s = .ok u s') :
    ∃ c k pfd, s.clients[i]? = some c ∧ s.fdToPfdIndex.lookup c.clientFd = some k ∧
      s.pfds[k]? = some pfd ∧ s' = { s with
        pfds := s.pfds.set k pfd.withPollout
        clients := s.clients.set i { c with serverToClientState := .writing } } := by
  obtain ⟨c, _, hclient, h⟩ := bind_eq_ok h
  obtain ⟨rfl, hi⟩ := clientAt_ok hclient
  obtain ⟨_, _, ⟨⟩, h⟩ := bind_eq_ok h
  obtain ⟨k, _, hlookup, h⟩ := bind_eq_ok h
  obtain ⟨rfl, hk⟩ := lookupAt_ok hlookup
  obtain ⟨_, s₁, hevents, h⟩ := bind_eq_ok h
  obtain ⟨pfd, hpfd, rfl⟩ := modifyPfd_ok hevents
  obtain ⟨c', hi', rfl⟩ := modifyClient_ok h
  obtain rfl : c' = c := Option.some.inj (hi'.symm.trans hi)
  exact ⟨c', k, pfd, hi, hk, hpfd, rfl⟩

theorem disableReadingFromClient_ok {i : ℕ} {u : Unit}
    (h : disableReadingFromClient i s = .ok u s') :
    ∃ c k pfd, s.clients[i]? = some c ∧ s.fdToPfdIndex.lookup c.clientFd = some k ∧
      s.pfds[k]? = some pfd ∧ s' = { s with
        pfds := s.pfds.set k pfd.withoutPollin
        clients := s.clients.set i { c with clientToServerState := .done } } := by
  obtain ⟨c, _, hclient, h⟩ := bind_eq_ok h
  obtain ⟨rfl, hi⟩ := clientAt_ok hclient
  obtain ⟨_, _, ⟨⟩, h⟩ := bind_eq_ok h
  obtain ⟨k, _, hlookup, h⟩ := bind_eq_ok h
  obtain ⟨rfl, hk⟩ := lookupAt_ok hlookup
  obtain ⟨_, s₁, hevents, h⟩ := bind_eq_ok h
  obtain ⟨pfd, hpfd, rfl⟩ := modifyPfd_ok hevents
  obtain ⟨c', hi', rfl⟩ := modifyClient_ok h
  obtain rfl : c' = c := Option.some.inj (hi'.symm.trans hi)
  exact ⟨c', k, pfd, hi, hk, hpfd, rfl⟩

/-- What the removal of a pipe leaves: nothing changes, or the client of the slot lets go of the
pipe. -/
theorem removePipeFd_ok {fdType : FdType} {fd : ℤ} {u : Unit}
    (h : removePipeFd fdType fd s = .ok u s') :
    ∃ i c, s.fdToClientIndex.lookup fd = some i ∧ s.clients[i]? = some c ∧
      ((c.fdOf fdType = -1 ∧ s' = s) ∨ (c.fdOf fdType ≠ -1 ∧ ∃ k last,
        s.fdToPfdIndex.lookup (c.fdOf fdType) = some k ∧ s.pfds.getLast? = some last ∧
        s' = { s.dropped (c.fdOf fdType) k last with
          clients := s.clients.set i (c.release fdType)
          fdToClientIndex := s.fdToClientIndex.erase (c.fdOf fdType) })) := by
  obtain ⟨_, _, hassert, h⟩ := bind_eq_ok h
  obtain ⟨rfl, -⟩ := assert_ok hassert
  obtain ⟨i, _, hget, h⟩ := bind_eq_ok h
  obtain ⟨rfl, hindex, -⟩ := getClient_ok hget
  obtain ⟨c, _, hclient, h⟩ := bind_eq_ok h
  obtain ⟨rfl, hi⟩ := clientAt_ok hclient
  refine ⟨i, c, hindex, hi, ?_⟩
  rw [run_ite] at h
  split_ifs at h with hfd
  · cases h
    exact .inl ⟨hfd, rfl⟩
  · obtain ⟨_, _, hremove, h⟩ := bind_eq_ok h
    obtain ⟨k, last, hk, hlast, rfl⟩ := removeClientFd_ok hremove
    obtain ⟨c', hi', rfl⟩ := modifyClient_ok h
    obtain rfl : c' = c := Option.some.inj (hi'.symm.trans hi)
    exact .inr ⟨hfd, k, last, hk, hlast, rfl⟩

theorem kill_ok {u : Unit} (h : kill env s = .ok u s') : s = s' := by
  unfold kill at h
  rw [run_ite] at h
  split_ifs at h
  · cases h
    rfl
  · cases h

/-- What is left to do when the CGI of a client is killed, if it has to be. -/
theorem killCgi_ok {fd : ℤ} {u : Unit} (h : killCgi env fd s = .ok u s') :
    ∃ i c, s.fdToClientIndex.lookup fd = some i ∧ s.clients[i]? = some c ∧
      ((¬ (c.cgiKilled = false ∧ c.cgiPid ≠ -1) ∧ s = s') ∨
        (c.cgiPid ≠ -1 ∧ removeCgiToServerFd fd
          { s with clients := s.clients.set i { c with cgiKilled := true } } = .ok u s')) := by
  obtain ⟨i, _, hget, h⟩ := bind_eq_ok h
  obtain ⟨rfl, hindex, -⟩ := getClient_ok hget
  obtain ⟨c, _, hclient, h⟩ := bind_eq_ok h
  obtain ⟨rfl, hi⟩ := clientAt_ok hclient
  refine ⟨i, c, hindex, hi, ?_⟩
  rw [run_ite] at h
  split_ifs at h with hkill
  · obtain ⟨_, s₁, hsignal, h⟩ := bind_eq_ok h
    obtain rfl := kill_ok hsignal
    obtain ⟨_, s₂, hmodify, h⟩ := bind_eq_ok h
    obtain ⟨c', hi', rfl⟩ := modifyClient_ok hmodify
    obtain rfl : c' = c := Option.some.inj (hi'.symm.trans hi)
    exact .inr ⟨hkill.2, h⟩
  · cases h
    exact .inl ⟨hkill, rfl⟩

theorem swapRemoveClient_ok {i : ℕ} {u : Unit} (h : swapRemoveClient i s = .ok u s') :
    ∃ this src, s.clients[i]? = some this ∧ s.clients.getLast? = some src ∧
      s' = { s with
        clients := (s.clients.set i (this.assign src)).dropLast
        calls := .assign this src :: s.calls } := by
  obtain ⟨_, _, ⟨⟩, h⟩ := bind_eq_ok h
  cases hi : s.clients[i]? with
  | none =>
    rw [hi] at h
    cases h
  | some this =>
    cases hlast : s.clients.getLast? with
    | none =>
      rw [hi, hlast] at h
      cases h
    | some src =>
      rw [hi, hlast] at h
      obtain ⟨_, _, ⟨⟩, h⟩ := bind_eq_ok h
      cases h
      exact ⟨this, src, rfl, rfl, rfl⟩

/-- What is left to do once the client is marked and not read from any more: its CGI is killed, or it
is taken out of its slot. -/
theorem removeClient_ok {fd : ℤ} {u : Unit} (h : removeClient env fd s = .ok u s') :
    ∃ i c k pfd s₁, s.fdToClientIndex.lookup fd = some i ∧ s.clients[i]? = some c ∧
      s.fdToPfdIndex.lookup c.clientFd = some k ∧ s.pfds[k]? = some pfd ∧
      s₁ = { s with
        pfds := s.pfds.set k pfd.withoutPollin
        clients := s.clients.set i { c with beingRemoved := true, clientToServerState := .done }
        calls := .removeClient c :: s.calls } ∧
      ((c.cgiKilled = false ∧ c.cgiPid ≠ -1 ∧ killCgi env fd s₁ = .ok u s') ∨
        (¬ (c.cgiKilled = false ∧ c.cgiPid ≠ -1) ∧ eraseClient fd i s₁ = .ok u s')) := by
  obtain ⟨_, _, hassert, h⟩ := bind_eq_ok h
  obtain ⟨rfl, -⟩ := assert_ok hassert
  obtain ⟨i, _, hget, h⟩ := bind_eq_ok h
  obtain ⟨rfl, hindex, -⟩ := getClient_ok hget
  obtain ⟨c, _, hclient, h⟩ := bind_eq_ok h
  obtain ⟨rfl, hi⟩ := clientAt_ok hclient
  obtain ⟨_, s₁, hlog, h⟩ := bind_eq_ok h
  obtain rfl := log_ok hlog
  obtain ⟨_, s₂, hmodify, h⟩ := bind_eq_ok h
  obtain ⟨c₁, hi₁, rfl⟩ := modifyClient_ok hmodify
  obtain rfl : c₁ = c := Option.some.inj (hi₁.symm.trans hi)
  obtain ⟨_, s₃, hdisable, h⟩ := bind_eq_ok h
  obtain ⟨c₂, k, pfd, hi₂, hk, hpfd, rfl⟩ := disableReadingFromClient_ok hdisable
  obtain rfl := Option.some.inj (hi₂.symm.trans (getElem?_set_self_of hi₁ _))
  obtain ⟨c₃, _, hclient, h⟩ := bind_eq_ok h
  obtain ⟨rfl, hi₃⟩ := clientAt_ok hclient
  obtain rfl := Option.some.inj (hi₃.symm.trans (getElem?_set_self_of hi₂ _))
  refine ⟨i, c₁, k, pfd, _, hindex, hi, hk, hpfd, rfl, ?_⟩
  rw [List.set_set] at h
  rw [run_ite] at h
  split_ifs at h with hkill
  · exact .inl ⟨hkill.1, hkill.2, h⟩
  · exact .inr ⟨hkill, h⟩

/-! ## Looking up the server -/

theorem findServerIndex_ok {serverName : Bytes} {indices : List ℕ} {found : Option ℕ}
    (h : findServerIndex config serverName indices s = .ok found s') : s = s' := by
  induction indices with
  | nil =>
    cases h
    rfl
  | cons index indices ih =>
    unfold findServerIndex at h
    cases hserver : config.servers[index]? with
    | none =>
      rw [hserver] at h
      cases h
    | some server =>
      rw [hserver] at h
      dsimp only at h
      rw [run_ite] at h
      split_ifs at h
      · cases h
        rfl
      · exact ih h

theorem getServer_ok {i : ℕ} {server : ServerDirective}
    (h : getServer config i s = .ok server s') : s = s' := by
  obtain ⟨c, _, hclient, h⟩ := bind_eq_ok h
  obtain ⟨rfl, -⟩ := clientAt_ok hclient
  obtain ⟨_, _, ⟨⟩, h⟩ := bind_eq_ok h
  obtain ⟨indices, _, hlookup, h⟩ := bind_eq_ok h
  obtain ⟨rfl, -⟩ := lookupAt_ok hlookup
  obtain ⟨found, _, hfind, h⟩ := bind_eq_ok h
  obtain rfl := findServerIndex_ok hfind
  cases hindex : found.or indices.head? with
  | none =>
    rw [hindex] at h
    cases h
  | some index =>
    rw [hindex] at h
    dsimp only at h
    cases hserver : config.servers[index]? with
    | none =>
      rw [hserver] at h
      cases h
    | some server' =>
      rw [hserver] at h
      cases h
      rfl

/-! ## The kernel -/

theorem addFd_ok {fd : ℤ} {fdType : FdType} {events : Events} {u : Unit}
    (h : addFd fd fdType events s = .ok u s') : s' = s.register fd fdType events := by
  obtain ⟨_, _, hassert, h⟩ := bind_eq_ok h
  obtain ⟨rfl, -⟩ := assert_ok hassert
  obtain ⟨_, _, ⟨⟩, h⟩ := bind_eq_ok h
  cases h
  rfl

theorem addClientFd_ok {fd : ℤ} {i : ℕ} {fdType : FdType} {events : Events} {u : Unit}
    (h : addClientFd fd i fdType events s = .ok u s') :
    s' = s.connect fd i fdType events := by
  obtain ⟨_, _, hassert, h⟩ := bind_eq_ok h
  obtain ⟨rfl, -⟩ := assert_ok hassert
  obtain ⟨_, _, ⟨⟩, h⟩ := bind_eq_ok h
  exact addFd_ok h

theorem accept_ok {serverFd fd : ℤ} (h : accept env serverFd s = .ok fd s') :
    s.CanOpen fd ∧ s.descriptors.lookup serverFd = some .server ∧
      s' = { s with descriptors := s.descriptors.insert fd FdType.client } := by
  obtain ⟨_, _, ⟨⟩, h⟩ := bind_eq_ok h
  cases hfd : env.accept with
  | none =>
    rw [hfd] at h
    cases h
  | some fd' =>
    rw [hfd] at h
    dsimp only at h
    rw [run_ite] at h
    split_ifs at h with hopen
    · cases h
      exact ⟨hopen.1, hopen.2, rfl⟩
    · cases h

theorem fcntl_ok {u : Unit} (h : fcntl env s = .ok u s') : s = s' := by
  unfold fcntl at h
  rw [run_ite] at h
  split_ifs at h
  · cases h
    rfl
  · cases h

theorem pipe_ok {proposed : Option (ℤ × ℤ)} {ends : ℤ × ℤ} (h : pipe proposed s = .ok ends s') :
    s.CanOpen ends.1 ∧ s.CanOpen ends.2 ∧ ends.1 ≠ ends.2 ∧
      s' = { s with
        descriptors := (s.descriptors.insert ends.1 FdType.cgiToServer).insert ends.2
          FdType.serverToCgi } := by
  obtain ⟨_, _, ⟨⟩, h⟩ := bind_eq_ok h
  cases hproposed : proposed with
  | none =>
    rw [hproposed] at h
    cases h
  | some p =>
    rw [hproposed] at h
    dsimp only at h
    rw [run_ite] at h
    split_ifs at h with hopen
    · cases h
      exact ⟨hopen.1, hopen.2.1, hopen.2.2, rfl⟩
    · cases h

theorem fork_ok {pid : ℤ} (h : fork env s = .ok pid s') :
    0 < pid ∧ pid ∉ s.children ∧ s' = { s with children := insert pid s.children } := by
  obtain ⟨_, _, ⟨⟩, h⟩ := bind_eq_ok h
  cases hpid : env.fork with
  | none =>
    rw [hpid] at h
    cases h
  | some pid' =>
    rw [hpid] at h
    dsimp only at h
    rw [run_ite] at h
    split_ifs at h with hfree
    · cases h
      exact ⟨hfree.1, hfree.2, rfl⟩
    · cases h

end Webserv.Server
