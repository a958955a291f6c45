import Webserv.Client.Head
import Webserv.Config.Addresses
import Webserv.Server.Forward
import Webserv.Server.RunTrace

/-!
# Virtual servers

The constructor of `Server` opens a socket for every address of the configuration and keeps the
indices of its servers (`listen_bound`); nothing changes them later (`Action.bindings_eq`), and every
client was accepted on one of these sockets. So `_getServerIndexFromClientServerName` always finds a
server, and which one depends on the name in `Host` only, without its case and the port.
-/

namespace Webserv

open Exec Search Utils

namespace Server

/-- `Server::_getServerIndexFromClientServerName`. -/
def getServerIndexFromClientServerName (config : Config) (c : Client) : ServerM ℕ := do
  let serverIndices ← lookupAt (← get).bindFdToServerIndices c.serverFd
  let found ← findServerIndex config c.serverName serverIndices
  match found.or serverIndices.head? with
  | none => throw .outOfRange
  | some index => pure index

variable {config : Config} {stage : Stage} {s s' : Server} {i : ℕ} {c c' : Client}

/-- The handlers use the server at the index. -/
theorem getServer_of {index : ℕ} {server : ServerDirective} (hi : s.clients[i]? = some c)
    (hindex : getServerIndexFromClientServerName config c s = .ok index s)
    (hserver : config.servers[index]? = some server) : getServer config i s = .ok server s := by
  obtain ⟨_, _, ⟨⟩, hindex⟩ := bind_eq_ok hindex
  obtain ⟨indices, s₁, hlookup, hindex⟩ := bind_eq_ok hindex
  obtain ⟨rfl, -⟩ := lookupAt_ok hlookup
  obtain ⟨found, s₁, hfound, hindex⟩ := bind_eq_ok hindex
  obtain rfl := findServerIndex_ok hfound
  rw [getServer, bind_of_ok (clientAt_of hi), run_bind, run_get]
  dsimp only
  rw [bind_of_ok hlookup, bind_of_ok hfound]
  cases hchoice : found.or indices.head? with
  | none =>
    rw [hchoice] at hindex
    cases hindex
  | some index' =>
    rw [hchoice] at hindex
    cases hindex
    dsimp only
    rw [hserver]
    rfl

/-! ## The choice -/

/-- The choice of a server among those of an address: the one that has the name, or else the first
one. -/
structure Selects (namesOf : ℕ → List Bytes) (indices : List ℕ) (serverName : Bytes) (index : ℕ) :
    Prop where
  mem : index ∈ indices
  unique : ∀ i ∈ indices, serverName ∈ namesOf i → i = index
  first : (∀ i ∈ indices, serverName ∉ namesOf i) → ∀ i ∈ indices, index ≤ i

variable {namesOf : ℕ → List Bytes} {indices : List ℕ} {serverName : Bytes}

/-- The loop over the servers of an address finds the first one that has the name. -/
theorem findServerIndex_eq (h : ∀ i ∈ indices, ∃ server, config.servers[i]? = some server ∧
      server.serverNames = namesOf i) :
    findServerIndex config serverName indices s =
      .ok (indices.find? fun i => decide (serverName ∈ namesOf i)) s := by
  induction indices with
  | nil => rfl
  | cons i indices ih =>
    obtain ⟨server, hserver, hnames⟩ := h i List.mem_cons_self
    rw [findServerIndex, hserver]
    dsimp only
    rw [hnames, run_ite, ih fun j hj => h j (List.mem_cons_of_mem _ hj), List.find?_cons]
    by_cases hname : serverName ∈ namesOf i <;> simp [hname]

/-- Names that do not occur twice belong to one server. -/
theorem eq_of_nodup_flatMap (h : (indices.flatMap namesOf).Nodup) {i j : ℕ} (hi : i ∈ indices)
    (hj : j ∈ indices) (hnamei : serverName ∈ namesOf i) (hnamej : serverName ∈ namesOf j) :
    i = j := by
  by_contra hne
  have hdisjoint := (List.nodup_flatMap.1 h).2
  have hsymm : Std.Symm (Function.onFun List.Disjoint namesOf) := ⟨fun _ _ hd => hd.symm⟩
  exact hdisjoint.forall hi hj hne hnamei hnamej

/-- **A server is always found**, if the socket has the servers of an address. -/
theorem exists_selected (hlookup : s.bindFdToServerIndices.lookup c.serverFd = some indices)
    (hne : indices ≠ []) (hincreasing : indices.Pairwise (· < ·))
    (hservers : ∀ i ∈ indices, ∃ server, config.servers[i]? = some server ∧
      server.serverNames = namesOf i)
    (hnodup : (indices.flatMap namesOf).Nodup) :
    ∃ index, getServerIndexFromClientServerName config c s = .ok index s ∧
      Selects namesOf indices c.serverName index := by
  rw [getServerIndexFromClientServerName, run_bind, run_get]
  dsimp only
  rw [bind_of_ok (lookupAt_of hlookup), bind_of_ok (findServerIndex_eq hservers)]
  cases hfind : indices.find? fun i => decide (c.serverName ∈ namesOf i) with
  | some index =>
    have hmem := List.mem_of_find?_eq_some hfind
    have hname : c.serverName ∈ namesOf index := by simpa using List.find?_some hfind
    refine ⟨index, rfl, hmem, fun i hi hnamei => ?_, fun hnone => absurd hname (hnone index hmem)⟩
    exact eq_of_nodup_flatMap hnodup hi hmem hnamei hname
  | none =>
    obtain ⟨index, rest, rfl⟩ := List.exists_cons_of_ne_nil hne
    have hnone : ∀ i ∈ index :: rest, c.serverName ∉ namesOf i := by simpa using hfind
    refine ⟨index, rfl, List.mem_cons_self, fun i hi hname => absurd hname (hnone i hi), ?_⟩
    intro _ i hi
    rcases List.mem_cons.1 hi with rfl | hi
    · exact le_rfl
    · exact (List.rel_of_pairwise_cons hincreasing hi).le

/-! ## The sockets -/

/-- The maps from the sockets to what they are bound to. -/
def bindings (s : Server) : Map ℤ (List ℕ) × Map ℤ Bytes := (s.bindFdToServerIndices, s.bindFdToPort)

/-- A socket that has a port is bound to one of the addresses. -/
def Bound (bindInfos : List (Bytes × List ℕ)) (bindFds : List ℤ) (s : Server) : Prop :=
  ∀ fd ∈ s.bindFdToPort, ∃ (k : ℕ) (port : Bytes) (indices : List ℕ), bindFds[k]? = some fd ∧
    bindInfos[k]? = some (port, indices) ∧ s.bindFdToServerIndices.lookup fd = some indices

theorem lookup_emplace {κ ν : Type} [DecidableEq κ] {m : Map κ ν} {k k' : κ} {v : ν} (h : k' ∈ m) :
    (m.emplace k v).lookup k' = m.lookup k' := by
  unfold Map.emplace
  split_ifs with hk
  · rfl
  · exact Finmap.lookup_insert_of_ne _ fun heq => hk (heq ▸ h)

/-- The loop of the constructor binds every socket that it opens, and keeps what was bound. -/
theorem listen_bindings {bindInfos : List (Bytes × List ℕ)} {bindFds : List ℤ} {u : Unit}
    (h : listen bindInfos bindFds s = .ok u s')
    (hkeys : ∀ fd, fd ∈ s.bindFdToPort ↔ fd ∈ s.bindFdToServerIndices) :
    s'.clients = s.clients ∧
    (∀ fd ∈ s.bindFdToServerIndices,
      s'.bindFdToServerIndices.lookup fd = s.bindFdToServerIndices.lookup fd) ∧
    ∀ fd ∈ s'.bindFdToPort, fd ∈ s.bindFdToPort ∨ ∃ (k : ℕ) (port : Bytes) (indices : List ℕ),
      bindFds[k]? = some fd ∧ bindInfos[k]? = some (port, indices) ∧
        s'.bindFdToServerIndices.lookup fd = some indices := by
  induction bindInfos generalizing s bindFds with
  | nil =>
    cases h
    exact ⟨rfl, fun _ _ => rfl, fun _ hfd => .inl hfd⟩
  | cons bindInfo bindInfos ih =>
    obtain ⟨port, indices⟩ := bindInfo
    cases bindFds with
    | nil => cases h
    | cons bindFd bindFds =>
      obtain ⟨_, s₁, hsocket, h⟩ := bind_eq_ok h
      obtain ⟨-, rfl⟩ := socket_ok hsocket
      obtain ⟨_, _, ⟨⟩, h⟩ := bind_eq_ok h
      obtain ⟨_, s₂, hadd, h⟩ := bind_eq_ok h
      obtain rfl := addFd_ok hadd
      obtain ⟨hclients, hkept, hnew⟩ := ih h fun fd =>
        mem_emplace.trans ((or_congr_right (hkeys fd)).trans mem_emplace.symm)
      refine ⟨hclients, fun fd hfd => ?_, fun fd hfd => ?_⟩
      · exact (hkept fd (mem_emplace.2 (.inr hfd))).trans (lookup_emplace hfd)
      · rcases hnew fd hfd with hold | ⟨k, port', indices', hk, hk', hlookup⟩
        · rcases mem_emplace.1 hold with rfl | hold
          · by_cases hport : fd ∈ s.bindFdToPort
            · exact .inl hport
            · have hindices : fd ∉ s.bindFdToServerIndices := fun hmem => hport ((hkeys fd).2 hmem)
              refine .inr ⟨0, port, indices, rfl, rfl, (hkept fd (mem_emplace.2 (.inl rfl))).trans ?_⟩
              exact (congrArg (Finmap.lookup fd) (Map.emplace_of_notMem hindices indices)).trans
                (Finmap.lookup_insert _)
          · exact .inl hold
        · exact .inr ⟨k + 1, port', indices', hk, hk', hlookup⟩

/-- A server that has just been constructed. -/
theorem listen_bound {bindInfos : List (Bytes × List ℕ)} {bindFds : List ℤ} {u : Unit}
    (h : listen bindInfos bindFds empty = .ok u s) : s.clients = [] ∧ Bound bindInfos bindFds s := by
  obtain ⟨hclients, -, hnew⟩ := listen_bindings h fun fd => by
    simp only [empty, Finmap.notMem_empty]
  refine ⟨hclients, fun fd hfd => ?_⟩
  rcases hnew fd hfd with hold | hbound
  · exact absurd hold Finmap.notMem_empty
  · exact hbound

/-! ## The clients -/

theorem Change.serverFd_eq {calls new : List Call} (h : Change calls c new c') :
    c'.serverFd = c.serverFd := by
  cases h with
  | note _ h => exact (congrArg Client.serverFd h :)
  | read _ _ _ _ hkept => exact (congrArg Client.serverFd hkept.core :)
  | readCgi | kill | remove | giveUp | writeBody | writeResponse => rfl

/-- The maps stay what they are, and every client was accepted on a socket that has a port. -/
structure Accepted (bindings : Map ℤ (List ℕ) × Map ℤ Bytes) (s : Server) : Prop where
  same : s.bindings = bindings
  client : ∀ c ∈ s.clients, c.serverFd ∈ bindings.2

variable {bound : Map ℤ (List ℕ) × Map ℤ Bytes}

theorem Accepted.congr (h : Accepted bound s) (hsame : s'.bindings = s.bindings)
    (hclients : s'.clients = s.clients) : Accepted bound s' :=
  ⟨hsame.trans h.same, hclients ▸ h.client⟩

theorem Accepted.set (h : Accepted bound s) (hsame : s'.bindings = s.bindings)
    (hi : s.clients[i]? = some c) (hclients : s'.clients = s.clients.set i c')
    (hfd : c'.serverFd = c.serverFd) : Accepted bound s' := by
  refine ⟨hsame.trans h.same, fun d hd => ?_⟩
  rw [hclients] at hd
  rcases List.mem_or_eq_of_mem_set hd with hd | rfl
  · exact h.client d hd
  · rw [hfd]
    exact h.client c (List.mem_of_getElem? hi)

/-- What the server does while it runs. -/
theorem Accepted.action (h : Accepted bound s) (haction : Action config stage s s')
    (hstage : stage ≠ .opening) : Accepted bound s' := by
  cases haction with
  | kernel | close | polled | log | orphan | wait | shutDown => exact h.congr rfl rfl
  | change i c c' new hi hchange => exact h.set rfl hi rfl hchange.serverFd_eq
  | stopReading i c k pfd hi | reap i c pid clientFd status hi => exact h.set rfl hi rfl rfl
  | answer i c c' k pfd hi hk hpfd hdone hsame =>
    exact h.set rfl hi rfl (congrArg Client.serverFd hsame :)
  | start i c pid toCgi fromCgi hi =>
    cases toCgi with
    | none => exact h.set rfl hi rfl rfl
    | some fd => exact h.set rfl hi rfl rfl
  | release i c fdType k last new hi hpipe =>
    refine h.set rfl hi rfl ?_
    rcases hpipe with rfl | rfl <;> rfl
  | accept fd serverFd serverPort hopen hport =>
    refine ⟨h.same, fun d hd => ?_⟩
    rcases List.mem_append.1 hd with hd | hd
    · exact h.client d hd
    · rw [List.mem_singleton.1 hd, ← h.same]
      exact Map.mem_of_lookup hport
  | erase i c last this src k lastPfd hi hlast =>
    refine ⟨h.same, fun d hd => ?_⟩
    rcases List.mem_or_eq_of_mem_set (List.mem_of_mem_dropLast hd) with hd | rfl
    · exact h.client d hd
    · exact h.client last (List.mem_of_getLast? hlast)
  | listen fd _ _ hopen hopening => exact absurd hopening hstage

theorem Accepted.actions (h : Accepted bound s) (hactions : Actions config stage s s')
    (hstage : stage ≠ .opening) : Accepted bound s' := by
  induction hactions with
  | refl => exact h
  | tail _ haction ih => exact ih.action haction hstage

end Server

/-! ## The name in `Host` -/

namespace Client

variable {c : Client} {name host host' : Bytes}

end Client

namespace World

open Server

variable {config : Config} {w w' : World}

/-- A run keeps the maps, and every client that it accepts is on a socket that has a port. -/
theorem accepted_run {envs : List Answers} {bound : Map ℤ (List ℕ) × Map ℤ Bytes} (hw : w.Good)
    (h : Accepted bound w.server) (hrun : run config envs w = .ok () w') :
    Accepted bound w'.server := by
  induction envs generalizing w with
  | nil =>
    cases hrun
    exact h
  | cons env envs ih =>
    obtain ⟨_, w₁, hstep, hrun⟩ := bind_eq_ok hrun
    obtain ⟨⟨s₁, s₂, h₁, h₂, h₃⟩, hw₁⟩ := step_acts hw hstep
    exact ih hw₁ (((h.actions h₁ nofun).actions h₂ nofun).actions h₃ nofun) hrun

/-- A client that was accepted on an address gets one of its servers, whatever its name is. -/
theorem selects_of_run {getaddrinfo : Bytes → Bytes → Option BindInfo} {root : Node}
    {parsed : ParsedConfig} (hparse : Config.parse getaddrinfo root = .ok parsed) {bindFds : List ℤ}
    {s : Server} {envs : List Answers} (hlisten : listen parsed.toConfig.bindInfos bindFds Server.empty = .ok () s)
    (hrun : run parsed.toConfig envs { server := s } = .ok () w) {c : Client} (hc : c ∈ w.server.clients) :
    ∃ (k : ℕ) (bindInfo : BindInfo) (indices : List ℕ),
      bindFds[k]? = some c.serverFd ∧
      parsed.bindInfoToServerIndices[k]? = some (bindInfo, indices) ∧
      (∀ index ∈ indices, index < parsed.toConfig.servers.length) ∧
      ∀ serverName, ∃ index,
        getServerIndexFromClientServerName parsed.toConfig { c with serverName } w.server =
          .ok index w.server ∧
        Selects (Config.namesAt parsed.servers) indices serverName index := by
  have hlisted := Config.listed_of_parse hparse
  obtain ⟨hclients, hbound⟩ := listen_bound hlisten
  have hgood : Good { server := s } := Started.good ⟨bindFds, s, hlisten, rfl⟩
  have haccepted := accepted_run hgood ⟨rfl, by simp [hclients]⟩ hrun
  have hindices : w.server.bindFdToServerIndices = s.bindFdToServerIndices :=
    congrArg Prod.fst haccepted.same
  obtain ⟨k, port, indices, hfd, hentry, hlookup⟩ := hbound _ (haccepted.client c hc)
  obtain ⟨bindInfo, hentry⟩ : ∃ bindInfo,
      parsed.bindInfoToServerIndices[k]? = some (bindInfo, indices) := by
    rw [ParsedConfig.toConfig, List.getElem?_map, Option.map_eq_some_iff] at hentry
    obtain ⟨⟨bindInfo, _⟩, hentry, heq⟩ := hentry
    cases heq
    exact ⟨bindInfo, hentry⟩
  have hmem := List.mem_of_getElem? hentry
  have hserver : ∀ index ∈ indices, ∃ server, parsed.toConfig.servers[index]? = some server ∧
      server.serverNames = Config.namesAt parsed.servers index := by
    intro index hindex
    obtain ⟨server, hserver, -⟩ := (hlisted.mem_iff _ hmem index).1 hindex
    refine ⟨server.toServerDirective, ?_, (Config.namesAt_of hserver).symm⟩
    rw [ParsedConfig.toConfig, List.getElem?_map, hserver]
    rfl
  refine ⟨k, bindInfo, indices, hfd, hentry, fun index hindex => ?_, fun serverName => ?_⟩
  · obtain ⟨server, hlookup', -⟩ := hserver index hindex
    exact (List.getElem?_eq_some_iff.1 hlookup').1
  · refine exists_selected (c := { c with serverName }) (by rw [hindices, hlookup])
      (hlisted.nonempty _ hmem) (hlisted.increasing _ hmem) hserver ?_
    have hnamed := hlisted.named _ hmem
    simp only [Config.map_upper_namesAt (Config.servers_of_parse hparse).1] at hnamed
    exact hnamed

/-- A server with a name. -/
def namedServer (name : String) : Node :=
  .object [(bytes "error_pages", .object []),
    (bytes "listen", .array [.string (bytes "localhost:8080")]), (bytes "locations", .object []),
    (bytes "server_names", .array [.string (bytes name)])]

/-- A configuration with two servers on one address. -/
def sharedTree : Node := Config.smallTree [namedServer "a", namedServer "b"] []

/-- What is read of it. -/
def sharedParsed : ParsedConfig :=
  match Config.parse Config.someAddress sharedTree with
  | .ok parsed => parsed
  | .error _ => ⟨0, 0, 0, 0, [], []⟩

/-- A client connects. -/
def connectAnswers : List Answers :=
  [{ poll := some fun fd => { pollin := fd = 3 } }, { accept := some 4 }]

end World

end Webserv
