import Webserv.Server.History
import Webserv.Server.Lifecycle

/-!
# The coherence of the server

`Coherent` is what holds of the server between any two of the actions it takes, whatever the clients
and the CGIs do: `_pfds` and `_fd_to_pfd_index` are inverse to each other, what is polled is open,
and a client finds its own slot through every descriptor it holds. It does not say that every
registered pipe is held by a client: that fails when a client is removed too early.
-/

namespace Webserv

/-! ## The tables -/

namespace Server

open IndexedVector History

/-- The descriptor is polled, and is of the given kind. -/
def Polls (s : Server) (fd : ℤ) (fdType : FdType) : Prop :=
  fd ∈ s.fdToPfdIndex ∧ s.descriptors.lookup fd = some fdType

/-- The tables of descriptors. -/
structure Tables (s : Server) : Prop where
  indexed : IndexedBy (s.pfds.map Pollfd.fd) s.fdToPfdIndex
  /-- What is polled is open, and is what it was registered as. -/
  opened : ∀ fd ∈ s.fdToPfdIndex, ∃ fdType, s.descriptors.lookup fd = some fdType ∧
    registeredAs fd s.calls = some fdType
  nonneg : ∀ fd ∈ s.descriptors, 0 ≤ fd
  /-- `_fd_to_fd_type` is right, but for what it takes for a listening socket: `_shutDownServers`
  leaves their entries behind. -/
  typed : ∀ fd fdType, s.fdToFdType.lookup fd = some fdType → fdType ≠ .server → s.Polls fd fdType

/-- What the clients hold. -/
structure Owners (s : Server) : Prop where
  keyed : ∀ fd ∈ s.fdToClientIndex, fd = -1 ∨ ∃ fdType, fdType ≠ .server ∧ s.Polls fd fdType
  /-- Through a descriptor that a client holds its slot is found. -/
  held : ∀ i c fdType, s.clients[i]? = some c → c.fdOf fdType ≠ -1 →
    s.Polls (c.fdOf fdType) fdType ∧ s.fdToClientIndex.lookup (c.fdOf fdType) = some i
  connected : -1 ∉ s.clients.map Client.clientFd
  /-- Every connection has a client. -/
  owned : ∀ fd, s.Polls fd .client → fd ∈ s.clients.map Client.clientFd

/-- The tables and what the clients hold. -/
structure Coherent (s : Server) : Prop extends Tables s, Owners s

/-- Every descriptor that `_fd_to_fd_type` takes for a listening socket is one. -/
def Active (s : Server) : Prop := ∀ fd, s.fdToFdType.lookup fd = some .server → s.Polls fd .server

variable {s : Server}

/-- What is polled is open. -/
theorem Tables.mem_descriptors (h : s.Tables) {fd : ℤ} (hfd : fd ∈ s.fdToPfdIndex) :
    fd ∈ s.descriptors := by
  obtain ⟨fdType, hlookup, -⟩ := h.opened fd hfd
  exact Map.mem_of_lookup hlookup

theorem Tables.ne_neg_one (h : s.Tables) {fd : ℤ} (hfd : fd ∈ s.fdToPfdIndex) : fd ≠ -1 := by
  have := h.nonneg fd (h.mem_descriptors hfd)
  omega

/-- A descriptor that is free is not polled. -/
theorem Tables.notMem_of_canOpen (h : s.Tables) {fd : ℤ} (hfree : s.CanOpen fd) :
    fd ∉ s.fdToPfdIndex := fun hfd => hfree.2 (h.mem_descriptors hfd)

/-- A descriptor that is not polled leads to no client. -/
theorem Coherent.notMem_fdToClientIndex (h : s.Coherent) {fd : ℤ} (hfd : fd ∉ s.fdToPfdIndex)
    (hne : fd ≠ -1) : fd ∉ s.fdToClientIndex := by
  intro hmem
  rcases h.keyed fd hmem with heq | ⟨_, -, hpolls⟩
  · exact hne heq
  · exact hfd hpolls.1

/-- A descriptor has one holder. -/
theorem Owners.unique (h : s.Owners) {i j : ℕ} {c d : Client} {fdType fdType' : FdType}
    (hi : s.clients[i]? = some c) (hj : s.clients[j]? = some d)
    (heq : c.fdOf fdType = d.fdOf fdType') (hne : c.fdOf fdType ≠ -1) :
    i = j ∧ fdType = fdType' := by
  obtain ⟨⟨-, hkind⟩, hindex⟩ := h.held i c fdType hi hne
  obtain ⟨⟨-, hkind'⟩, hindex'⟩ := h.held j d fdType' hj (heq ▸ hne)
  rw [heq] at hkind hindex
  exact ⟨Option.some.inj (hindex.symm.trans hindex'), Option.some.inj (hkind.symm.trans hkind')⟩

theorem Owners.clientFd_ne (h : s.Owners) {i : ℕ} {c : Client} (hi : s.clients[i]? = some c) :
    c.clientFd ≠ -1 :=
  fun heq => h.connected (heq ▸ List.mem_map_of_mem (List.mem_of_getElem? hi))

theorem Owners.index_clientFd (h : s.Owners) {i : ℕ} {c : Client} (hi : s.clients[i]? = some c) :
    s.fdToClientIndex.lookup c.clientFd = some i := (h.held i c .client hi (h.clientFd_ne hi)).2

/-- The client of a connection. -/
theorem Coherent.client_of_polls (h : s.Coherent) {fd : ℤ} {i : ℕ} {c : Client}
    (hfd : s.Polls fd .client) (hindex : s.fdToClientIndex.lookup fd = some i)
    (hi : s.clients[i]? = some c) : c.clientFd = fd := by
  obtain ⟨d, hd, rfl⟩ := List.mem_map.1 (h.owned fd hfd)
  obtain ⟨j, hj⟩ := List.mem_iff_getElem?.1 hd
  have hij := Option.some.inj (hindex.symm.trans (h.index_clientFd hj))
  subst hij
  rw [hi] at hj
  rw [Option.some.inj hj]

theorem coherent_empty : empty.Coherent where
  indexed := .nil
  opened _ hfd := absurd hfd Finmap.notMem_empty
  nonneg _ hfd := absurd hfd Finmap.notMem_empty
  typed fd _ h := nomatch (Finmap.lookup_empty (β := fun _ : ℤ => FdType) fd).symm.trans h
  keyed _ hfd := absurd hfd Finmap.notMem_empty
  held _ _ _ hi := nomatch hi
  connected hc := nomatch hc
  owned _ hfd := absurd hfd.1 Finmap.notMem_empty

/-! ## Changes that keep the tables -/

theorem Tables.congr {s' : Server} (h : s.Tables)
    (hpfds : s'.pfds.map Pollfd.fd = s.pfds.map Pollfd.fd)
    (hindex : s'.fdToPfdIndex = s.fdToPfdIndex) (htype : s'.fdToFdType = s.fdToFdType)
    (hopen : ∀ fd ∈ s.fdToPfdIndex, s'.descriptors.lookup fd = s.descriptors.lookup fd)
    (hnonneg : ∀ fd ∈ s'.descriptors, 0 ≤ fd)
    (hcalls : ∀ fd, registeredAs fd s'.calls = registeredAs fd s.calls) : s'.Tables where
  indexed := by
    rw [hpfds, hindex]
    exact h.indexed
  opened fd hfd := by
    rw [hindex] at hfd
    rw [hopen fd hfd, hcalls]
    exact h.opened fd hfd
  nonneg := hnonneg
  typed fd fdType hlookup hne := by
    rw [htype] at hlookup
    obtain ⟨hfd, hkind⟩ := h.typed fd fdType hlookup hne
    exact ⟨hindex ▸ hfd, (hopen fd hfd).trans hkind⟩

theorem Polls.congr {s' : Server} {fd : ℤ} {fdType : FdType} (h : s.Polls fd fdType)
    (hindex : s'.fdToPfdIndex = s.fdToPfdIndex)
    (hopen : ∀ fd ∈ s.fdToPfdIndex, s'.descriptors.lookup fd = s.descriptors.lookup fd) :
    s'.Polls fd fdType :=
  ⟨hindex ▸ h.1, (hopen fd h.1).trans h.2⟩

/-- A change that keeps the tables, and the descriptors of every client. -/
theorem Coherent.congr {s' : Server} (h : s.Coherent)
    (hpfds : s'.pfds.map Pollfd.fd = s.pfds.map Pollfd.fd)
    (hindex : s'.fdToPfdIndex = s.fdToPfdIndex) (htype : s'.fdToFdType = s.fdToFdType)
    (hopen : ∀ fd ∈ s.fdToPfdIndex, s'.descriptors.lookup fd = s.descriptors.lookup fd)
    (hnonneg : ∀ fd ∈ s'.descriptors, 0 ≤ fd)
    (hcalls : ∀ fd, registeredAs fd s'.calls = registeredAs fd s.calls)
    (hclient : s'.fdToClientIndex = s.fdToClientIndex)
    (hfds : s'.clients.map Client.fdOf = s.clients.map Client.fdOf) : s'.Coherent := by
  have hslot : ∀ {i : ℕ} {c' : Client}, s'.clients[i]? = some c' →
      ∃ c, s.clients[i]? = some c ∧ c'.fdOf = c.fdOf := by
    intro i c' hi
    have hmap := congrArg (·[i]?) hfds
    simp only [List.getElem?_map, hi, Option.map_some] at hmap
    obtain ⟨c, hc, heq⟩ := Option.map_eq_some_iff.1 hmap.symm
    exact ⟨c, hc, heq.symm⟩
  have hclientFds : s'.clients.map Client.clientFd = s.clients.map Client.clientFd := by
    have hmap := congrArg (List.map fun f : FdType → ℤ => f .client) hfds
    rw [List.map_map, List.map_map] at hmap
    exact hmap
  refine { h.toTables.congr hpfds hindex htype hopen hnonneg hcalls with
    keyed := ?_, held := ?_, connected := ?_, owned := ?_ }
  · intro fd hfd
    rw [hclient] at hfd
    exact (h.keyed fd hfd).imp_right fun ⟨fdType, hne, hpolls⟩ =>
      ⟨fdType, hne, hpolls.congr hindex hopen⟩
  · intro i c' fdType hi hne
    obtain ⟨c, hc, heq⟩ := hslot hi
    rw [heq] at hne ⊢
    obtain ⟨hpolls, hlookup⟩ := h.held i c fdType hc hne
    exact ⟨hpolls.congr hindex hopen, hclient ▸ hlookup⟩
  · rw [hclientFds]
    exact h.connected
  · intro fd hfd
    have hopen' : ∀ fd ∈ s'.fdToPfdIndex, s.descriptors.lookup fd = s'.descriptors.lookup fd := by
      intro fd hfd
      rw [hindex] at hfd
      exact (hopen fd hfd).symm
    rw [hclientFds]
    exact h.owned fd (hfd.congr hindex.symm hopen')

/-- Replacing an element by one with the same `f`. -/
theorem map_set_of_eq {α β : Type} {f : α → β} {l : List α} {i : ℕ} {a a' : α}
    (hi : l[i]? = some a) (h : f a' = f a) : (l.set i a').map f = l.map f := by
  rw [List.map_set, h]
  refine List.ext_getElem? fun j => ?_
  by_cases hij : i = j
  · subst hij
    rw [List.getElem?_set_self', List.getElem?_map, hi]
    rfl
  · rw [List.getElem?_set_ne hij]

theorem getElem?_set_self_of {α : Type} {l : List α} {i : ℕ} {a : α} (hi : l[i]? = some a)
    (a' : α) : (l.set i a')[i]? = some a' := by
  rw [List.getElem?_set_self', hi]
  rfl

/-- An element of a list of which one element was replaced. -/
theorem getElem?_set_cases {α : Type} {l : List α} {i j : ℕ} {a x : α}
    (h : (l.set i a)[j]? = some x) : (j = i ∧ x = a) ∨ (j ≠ i ∧ l[j]? = some x) := by
  by_cases hij : j = i
  · subst hij
    rw [List.getElem?_set_self'] at h
    obtain ⟨_, -, heq⟩ := Option.map_eq_some_iff.1 h
    exact .inl ⟨rfl, heq.symm⟩
  · rw [List.getElem?_set_ne (Ne.symm hij)] at h
    exact .inr ⟨hij, h⟩

/-- Changing one client, and nothing that the tables depend on. -/
theorem Coherent.set_client {s' : Server} (h : s.Coherent) {i : ℕ} {c c' : Client}
    (hi : s.clients[i]? = some c) (hpfds : s'.pfds.map Pollfd.fd = s.pfds.map Pollfd.fd)
    (hindex : s'.fdToPfdIndex = s.fdToPfdIndex) (htype : s'.fdToFdType = s.fdToFdType)
    (hopen : s'.descriptors = s.descriptors)
    (hcalls : ∀ fd, registeredAs fd s'.calls = registeredAs fd s.calls)
    (hclient : s'.fdToClientIndex = s.fdToClientIndex)
    (hclients : s'.clients = s.clients.set i c')
    (hfds : ∀ fdType, c'.fdOf fdType = c.fdOf fdType) : s'.Coherent := by
  refine h.congr hpfds hindex htype (fun _ _ => congrArg _ hopen) ?_ hcalls hclient ?_
  · intro fd hfd
    rw [hopen] at hfd
    exact h.nonneg fd hfd
  · rw [hclients]
    exact map_set_of_eq hi (funext hfds)

end Server

end Webserv
