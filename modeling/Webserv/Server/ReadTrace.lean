import Webserv.Server.Exceptions
import Webserv.Server.Trace

/-!
# Reading and answering requests, as sequences of actions

Accepting a connection, starting a CGI, answering a request and reading from a descriptor. A
`ClientException` that is raised while a request is read or answered leaves nothing but the client
changed, so that the read and the answer to the exception are again a sequence of actions.
-/

namespace Webserv.Server

open Exec History IndexedVector

variable {config : Config} {stage : Stage} {env : Answers} {s s' : Server}

/-! ## Accepting connections -/

theorem acceptClient_actions {serverFd : ℤ} {u : Unit}
    (h : acceptClient config env serverFd s = .ok u s') : Actions config stage s s' := by
  obtain ⟨fd, _, haccept, h⟩ := bind_eq_ok h
  obtain ⟨hopen, -, rfl⟩ := accept_ok haccept
  obtain ⟨_, s₁, hfcntl, h⟩ := bind_eq_ok h
  obtain rfl := fcntl_ok hfcntl
  obtain ⟨_, _, ⟨⟩, h⟩ := bind_eq_ok h
  obtain ⟨_, s₂, hadd, h⟩ := bind_eq_ok h
  obtain rfl := addClientFd_ok hadd
  obtain ⟨_, _, ⟨⟩, h⟩ := bind_eq_ok h
  obtain ⟨serverPort, _, hport, h⟩ := bind_eq_ok h
  obtain ⟨rfl, hlookup⟩ := lookupAt_ok hport
  obtain ⟨_, _, ⟨⟩, h⟩ := bind_eq_ok h
  cases h
  exact .single (.accept fd serverFd serverPort hopen hlookup)

/-! ## Starting a CGI -/

theorem Spare.closed {fd fd' : ℤ} {fdType : FdType} (h : s.Spare fd fdType) (hne : fd ≠ fd') :
    (s.closed fd').Spare fd fdType :=
  ⟨(Finmap.lookup_erase_ne hne).trans h.1, h.2⟩

theorem Quiet.close {fd : ℤ} (hfd : fd ∉ s.fdToPfdIndex) : Quiet config stage s (s.closed fd) :=
  ⟨.single (.close fd hfd), rfl, fun _ hgiven => hgiven.cons rfl⟩

theorem pipe_quiet {proposed : Option (ℤ × ℤ)} {ends : ℤ × ℤ} (hs : s.Good)
    (h : pipe proposed s = .ok ends s') : Quiet config stage s s' ∧
      s'.Spare ends.1 .cgiToServer ∧ s'.Spare ends.2 .serverToCgi ∧ ends.1 ≠ ends.2 := by
  obtain ⟨hread, hwrite, hne, rfl⟩ := pipe_ok h
  have hread' := hs.notMem_of_canOpen hread
  have hwrite' := hs.notMem_of_canOpen hwrite
  refine ⟨.kernel (fun fd hfd => ?_) (fun fd hfd => ?_), ⟨?_, hread'⟩, ⟨?_, hwrite'⟩, hne⟩
  · have hne₁ : fd ≠ ends.1 := fun heq => hread' (heq ▸ hfd)
    have hne₂ : fd ≠ ends.2 := fun heq => hwrite' (heq ▸ hfd)
    rw [Finmap.lookup_insert_of_ne _ hne₂, Finmap.lookup_insert_of_ne _ hne₁]
  · rcases Finmap.mem_insert.1 hfd with rfl | hfd
    · exact hwrite.1
    · rcases Finmap.mem_insert.1 hfd with rfl | hfd
      · exact hread.1
      · exact hs.nonneg fd hfd
  · exact (Finmap.lookup_insert_of_ne _ hne).trans (Finmap.lookup_insert _)
  · exact Finmap.lookup_insert _

/-- What was opened before a pipe stays. -/
theorem Spare.pipe {proposed : Option (ℤ × ℤ)} {ends : ℤ × ℤ} {fd : ℤ} {fdType : FdType}
    (hspare : s.Spare fd fdType) (h : pipe proposed s = .ok ends s') :
    s'.Spare fd fdType ∧ fd ≠ ends.1 ∧ fd ≠ ends.2 := by
  obtain ⟨hread, hwrite, -, rfl⟩ := pipe_ok h
  have hmem := Map.mem_of_lookup hspare.1
  have hne₁ : fd ≠ ends.1 := fun heq => hread.2 (heq ▸ hmem)
  have hne₂ : fd ≠ ends.2 := fun heq => hwrite.2 (heq ▸ hmem)
  refine ⟨⟨?_, hspare.2⟩, hne₁, hne₂⟩
  exact (Finmap.lookup_insert_of_ne _ hne₂).trans
    ((Finmap.lookup_insert_of_ne _ hne₁).trans hspare.1)

theorem enableWritingToCgi_ok {i : ℕ} {u : Unit} (h : enableWritingToCgi i s = .ok u s') :
    ∃ c k pfd, s.clients[i]? = some c ∧ s.fdToPfdIndex.lookup c.serverToCgiFd = some k ∧
      s.pfds[k]? = some pfd ∧ s' = { s with
        pfds := s.pfds.set k pfd.withPollout
        clients := s.clients.set i { c with serverToCgiState := .writing } } := by
  obtain ⟨c, _, hclient, h⟩ := bind_eq_ok h
  obtain ⟨rfl, hi⟩ := clientAt_ok hclient
  obtain ⟨_, _, hassert, h⟩ := bind_eq_ok h
  obtain ⟨rfl, -⟩ := assert_ok hassert
  obtain ⟨_, _, hassert, h⟩ := bind_eq_ok h
  obtain ⟨rfl, -⟩ := assert_ok hassert
  obtain ⟨_, _, ⟨⟩, h⟩ := bind_eq_ok h
  obtain ⟨k, _, hlookup, h⟩ := bind_eq_ok h
  obtain ⟨rfl, hk⟩ := lookupAt_ok hlookup
  obtain ⟨_, s₁, hevents, h⟩ := bind_eq_ok h
  obtain ⟨pfd, hpfd, rfl⟩ := modifyPfd_ok hevents
  obtain ⟨c', hi', rfl⟩ := modifyClient_ok h
  obtain rfl : c' = c := Option.some.inj (hi'.symm.trans hi)
  exact ⟨c', k, pfd, hi, hk, hpfd, rfl⟩

/-- The pipe to the CGI is closed if there is no body, and else it is written to. -/
theorem connectServerToCgi_ok {i : ℕ} {c : Client} {fd : ℤ} {u : Unit}
    (h : connectServerToCgi i i fd s = .ok u s') (hi : s.clients[i]? = some c)
    (hnew : fd ∉ s.fdToPfdIndex) :
    (c.serverToCgiState = .done ∧ s' = s.closed fd) ∨
      (c.serverToCgiState ≠ .done ∧ s' = { s.connect fd i .serverToCgi { pollout := true } with
        clients := s.clients.set i (c.attach fd .serverToCgi) }) := by
  obtain ⟨_, _, hclient, h⟩ := bind_eq_ok h
  obtain ⟨rfl, hi'⟩ := clientAt_ok hclient
  obtain rfl := Option.some.inj (hi.symm.trans hi')
  rw [run_ite] at h
  split_ifs at h with hwritten
  · obtain ⟨-, rfl⟩ := close_ok h
    exact .inl ⟨hwritten, rfl⟩
  · obtain ⟨_, s₁, hadd, h⟩ := bind_eq_ok h
    obtain rfl := addClientFd_ok hadd
    obtain ⟨_, s₂, hmodify, h⟩ := bind_eq_ok h
    obtain ⟨c₁, hi₁, rfl⟩ := modifyClient_ok hmodify
    obtain rfl : c₁ = c := Option.some.inj (hi₁.symm.trans hi)
    obtain ⟨c₂, k, pfd, hi₂, hk, hpfd, rfl⟩ := enableWritingToCgi_ok h
    obtain rfl := Option.some.inj (hi₂.symm.trans (getElem?_set_self_of hi _))
    -- the entry was pushed just now
    have hk' : (s.fdToPfdIndex.emplace fd s.pfds.length).lookup fd = some k := hk
    rw [Map.emplace_of_notMem hnew, Finmap.lookup_insert] at hk'
    cases hk'
    have hpfd' : (s.pfds ++ [({ fd := fd, events := { pollout := c₁.body ≠ [] } } : Pollfd)])[
        s.pfds.length]? = some pfd := hpfd
    rw [List.getElem?_append_right le_rfl, Nat.sub_self] at hpfd'
    cases hpfd'
    have hpfds : (s.pfds ++ [({ fd := fd, events := { pollout := c₁.body ≠ [] } } : Pollfd)]).set
        s.pfds.length { fd := fd, events := { pollout := true } } =
        s.pfds ++ [{ fd := fd, events := { pollout := true } }] := by
      rw [List.set_append_right _ _ le_rfl, Nat.sub_self]
      rfl
    refine .inr ⟨hwritten, ?_⟩
    simp only [List.set_set]
    rw [show Pollfd.withPollout _ = { fd := fd, events := { pollout := true } } from rfl]
    simp only [connect, register, hpfds]
    rfl

theorem connectCgiToServer_ok {i : ℕ} {c : Client} {fd : ℤ} {u : Unit}
    (h : connectCgiToServer i i fd s = .ok u s') (hi : s.clients[i]? = some c) :
    s' = { s.connect fd i .cgiToServer { pollin := true } with
      clients := s.clients.set i (c.attach fd .cgiToServer) } := by
  obtain ⟨_, s₁, hadd, h⟩ := bind_eq_ok h
  obtain rfl := addClientFd_ok hadd
  obtain ⟨c₁, hi₁, rfl⟩ := modifyClient_ok h
  obtain rfl : c₁ = c := Option.some.inj (hi₁.symm.trans hi)
  rfl

/-- Starting a CGI for a client whose request is complete; the client had none before unless bytes
were read from its connection after its request. -/
theorem startCgi_quiet {i : ℕ} {c : Client} {u : Unit} (hs : s.Good)
    (h : startCgi env i s = .ok u s') (hi : s.clients[i]? = some c)
    (hdone : c.clientToServerState = .done) (hfirst : NoLateRead s.calls → c.Fresh) :
    Quiet config stage s s' := by
  obtain ⟨toCgi, s₁, hto, h⟩ := bind_eq_ok h
  obtain ⟨h₁, htoRead, htoWrite, htoNe⟩ : Quiet config stage s s₁ ∧ _ := pipe_quiet hs hto
  obtain ⟨-, -, -, rfl⟩ := pipe_ok hto
  obtain ⟨fromCgi, s₂, hfrom, h⟩ := bind_eq_ok h
  obtain ⟨h₂, hfromRead, hfromWrite, hfromNe⟩ : Quiet config stage _ s₂ ∧ _ :=
    pipe_quiet (h₁.good hs) hfrom
  obtain ⟨htoRead₂, hne₁, hne₂⟩ := htoRead.pipe hfrom
  obtain ⟨htoWrite₂, hne₃, hne₄⟩ := htoWrite.pipe hfrom
  obtain ⟨-, -, -, rfl⟩ := pipe_ok hfrom
  obtain ⟨pid, s₃, hfork, h⟩ := bind_eq_ok h
  obtain ⟨hpid, hnew, rfl⟩ := fork_ok hfork
  -- the ends of the CGI are closed
  obtain ⟨_, s₄, hclose, h⟩ := bind_eq_ok h
  obtain ⟨-, rfl⟩ := close_ok hclose
  obtain ⟨_, s₅, hclose', h⟩ := bind_eq_ok h
  obtain ⟨-, rfl⟩ := close_ok hclose'
  have h₃ := ((h₁.trans h₂).trans (.close htoRead₂.2)).trans (.close hfromWrite.2)
  have htoSpare := (htoWrite₂.closed htoNe.symm).closed hne₄
  have hfromSpare := (hfromRead.closed hne₁.symm).closed hfromNe
  obtain ⟨c₀, _, hclient, h⟩ := bind_eq_ok h
  obtain ⟨rfl, hi₀⟩ := clientAt_ok hclient
  obtain rfl : c₀ = c := Option.some.inj (hi₀.symm.trans hi)
  obtain ⟨_, s₆, hmodify, h⟩ := bind_eq_ok h
  obtain ⟨c₁, hi₁, rfl⟩ := modifyClient_ok hmodify
  obtain rfl : c₁ = c₀ := Option.some.inj (hi₁.symm.trans hi)
  have hi₂ := getElem?_set_self_of hi { c₁ with cgiPid := pid }
  obtain ⟨_, _, ⟨⟩, h⟩ := bind_eq_ok h
  obtain ⟨_, _, ⟨⟩, h⟩ := bind_eq_ok h
  obtain ⟨j, _, hlookup, h⟩ := bind_eq_ok h
  obtain ⟨rfl, hj⟩ := lookupAt_ok hlookup
  obtain rfl := Option.some.inj (hj.symm.trans (hs.index_clientFd hi : _ = some i))
  -- the ends of the server are attached to the client
  obtain ⟨_, s₇, hconnect, h⟩ := bind_eq_ok h
  obtain ⟨_, s₈, hconnect', h⟩ := bind_eq_ok h
  obtain ⟨_, _, ⟨⟩, h⟩ := bind_eq_ok h
  cases h
  have hfresh : ∀ {calls : List Call}, s.calls <:+ calls → NoLateRead calls → c₁.Fresh :=
    fun hsuffix hno => hfirst (hno.of_suffix hsuffix)
  rcases connectServerToCgi_ok hconnect hi₂ htoSpare.2 with ⟨hwritten, rfl⟩ | ⟨hwritten, rfl⟩
  · obtain rfl := connectCgiToServer_ok hconnect' hi₂
    have h₄ := h₃.trans (.close htoSpare.2)
    have hstart := h₄.actions.tail (.start j c₁ pid none fromCgi.1 hi hpid hnew hdone
      ⟨fun _ => hwritten, fun _ => rfl⟩ (fun fd hfd => absurd hfd (Option.not_mem_none fd))
      (hfromSpare.closed hne₃.symm) (Option.some_ne_none _).symm
      (hfresh h₄.actions.suffix))
    simp only [closed, List.set_set]
    exact ⟨hstart, map_set_of_eq hi rfl, fun fd hgiven =>
      ((h₄.givenUp fd hgiven).cons rfl).cons rfl⟩
  · obtain rfl := connectCgiToServer_ok hconnect' (getElem?_set_self_of hi₂ _)
    have hstart := h₃.actions.tail (.start j c₁ pid (some toCgi.2) fromCgi.1 hi hpid hnew hdone
      ⟨fun hnone => absurd hnone (Option.some_ne_none _), fun hdone' => absurd hdone' hwritten⟩
      (by
        rintro fd ⟨⟩
        exact htoSpare)
      hfromSpare (fun hmem => hne₃ (Option.some.inj hmem)) (hfresh h₃.actions.suffix))
    simp only [List.set_set]
    exact ⟨hstart, map_set_of_eq hi rfl, fun fd hgiven =>
      (((h₃.givenUp fd hgiven).cons rfl).cons rfl).cons rfl⟩

/-! ## Answering a request -/

/-- Nothing but the client in a slot has changed. -/
def OnlyClient (i : ℕ) (s s' : Server) : Prop :=
  ∃ c c', s.clients[i]? = some c ∧ c.Kept c' ∧ s' = { s with clients := s.clients.set i c' }

theorem OnlyClient.refl {i : ℕ} {c : Client} (hi : s.clients[i]? = some c) : OnlyClient i s s :=
  ⟨c, c, hi, .refl c, by rw [set_self_of hi]⟩

/-- A way to answer the request of the client in a slot: it returns after a sequence of actions, or
it raises an exception and has changed nothing but the client. -/
structure Answering (config : Config) (stage : Stage) (i : ℕ) (s : Server) (x : ServerM Unit) :
    Prop where
  ok : ∀ {u s'}, x s = .ok u s' → Quiet config stage s s'
  raise : ∀ {status s'}, x s = .error (.clientException status) s' → OnlyClient i s s'

variable {i : ℕ} {c : Client}

theorem Answering.fail (hi : s.clients[i]? = some c) (e : Fault) :
    Answering config stage i s (throw e) := by
  refine ⟨nofun, fun h => ?_⟩
  cases h
  exact .refl hi

theorem Answering.ite {p : Prop} [Decidable p] {x y : ServerM Unit}
    (hx : Answering config stage i s x) (hy : Answering config stage i s y) :
    Answering config stage i s (if p then x else y) := by
  split
  · exact hx
  · exact hy

/-- A program that only looks at the state. -/
def Reads {α : Type} (x : ServerM α) : Prop := Keeps id x

theorem Answering.bind {α : Type} {x : ServerM α} {k : α → ServerM Unit} (hx : Reads x)
    (hi : s.clients[i]? = some c) (hk : ∀ a, Answering config stage i s (k a)) :
    Answering config stage i s (x >>= k) := by
  have hsame := hx s
  constructor
  · intro u s' h
    obtain ⟨a, s₁, h₁, h⟩ := bind_eq_ok h
    rw [h₁] at hsame
    obtain rfl : s = s₁ := hsame.symm
    exact (hk a).ok h
  · intro status s' h
    obtain h | ⟨a, s₁, h₁, h⟩ := bind_eq_error h
    · rw [h] at hsame
      obtain rfl : s = s' := hsame.symm
      exact .refl hi
    · rw [h₁] at hsame
      obtain rfl : s = s₁ := hsame.symm
      exact (hk a).raise h

theorem reads_liftExcept {α : Type} (a : Except Fault α) : Reads (liftExcept a) := by
  cases a with
  | ok a => exact .pure a
  | error e => exact .throw e

theorem reads_clientAt (i : ℕ) : Reads (clientAt i) := by
  refine .bind .get fun s => ?_
  split
  · exact .pure _
  · exact .throw _

theorem reads_lookupAt {κ ν : Type} [DecidableEq κ] (m : Map κ ν) (k : κ) :
    Reads (lookupAt m k) := by
  unfold lookupAt
  split
  · exact .pure _
  · exact .throw _

theorem reads_findServerIndex (serverName : Bytes) (indices : List ℕ) :
    Reads (findServerIndex config serverName indices) := by
  induction indices with
  | nil => exact .pure _
  | cons index indices ih =>
    unfold findServerIndex
    split
    · exact .throw _
    · exact .ite (.pure _) ih

theorem reads_getServer (i : ℕ) : Reads (getServer config i) := by
  refine .bind (reads_clientAt i) fun c => .bind .get fun _ => .bind (reads_lookupAt _ _) fun _ => ?_
  refine .bind (reads_findServerIndex _ _) fun _ => ?_
  split
  · exact .throw _
  · split
    · exact .throw _
    · exact .pure _

/-- A client with another target or redirection. -/
theorem Answering.modify_throw {f : Client → Client} (e : Fault) (hi : s.clients[i]? = some c)
    (hkept : c.Kept (f c)) :
    Answering config stage i s (modifyClient i f >>= fun _ => throw e) := by
  constructor
  · intro u s' h
    obtain ⟨_, _, -, h⟩ := bind_eq_ok h
    cases h
  · intro status s' h
    obtain h | ⟨_, s₁, hmodify, h⟩ := bind_eq_error h
    · exact absurd ⟨status, rfl⟩ (noException_modifyClient i f s _ _ h)
    · cases h
      obtain ⟨c', hi', rfl⟩ := modifyClient_ok hmodify
      obtain rfl : c' = c := Option.some.inj (hi'.symm.trans hi)
      exact ⟨c', f c', hi, hkept, rfl⟩

/-- A response by a method of the client. -/
theorem Answering.respond {method : ClientM Unit} (hkeeps : Keeps Client.unanswered method)
    (hfills : Client.Fills method) (hi : s.clients[i]? = some c)
    (hdone : c.clientToServerState = .done) (hfirst : NoLateRead s.calls → c.Fresh) :
    Answering config stage i s (onClient i method >>= fun _ => enableWritingToClient i) := by
  constructor
  · intro u s' h
    obtain ⟨_, s₁, hrespond, h⟩ := bind_eq_ok h
    obtain ⟨c₀, c', hi₀, hmethod, rfl⟩ := onClient_ok hrespond
    obtain rfl : c₀ = c := Option.some.inj (hi₀.symm.trans hi)
    have hsame := hkeeps c₀
    rw [hmethod] at hsame
    have hsame' : c'.unanswered = c₀.unanswered := hsame
    refine enableWritingToClient_quiet h hi hdone
      (congrArg (fun d : Client => { d with responseIndex := 0 }) hsame')
      (.inl (congrArg Client.responseIndex hsame' :)) (hfills _ _ _ hmethod)
      (fun hno => (hfirst hno).noCgi) fun hno _ hwriting => ?_
    cases (hfirst hno).serverToClientState.symm.trans hwriting
  · intro status s' h
    obtain h | ⟨_, s₁, -, h⟩ := bind_eq_error h
    · obtain ⟨c', hmethod, rfl⟩ := onClient_error h hi
      have hunanswered := hkeeps c
      rw [hmethod] at hunanswered
      exact ⟨c, c', hi, .of_unanswered hunanswered hdone, rfl⟩
    · exact absurd ⟨status, rfl⟩ (noException_enableWritingToClient i s₁ _ _ h)

theorem Answering.startCgi (hs : s.Good) (hi : s.clients[i]? = some c)
    (hdone : c.clientToServerState = .done) (hfirst : NoLateRead s.calls → c.Fresh) :
    Answering config stage i s (startCgi env i) where
  ok h := startCgi_quiet hs h hi hdone hfirst
  raise h := absurd ⟨_, rfl⟩ (noException_startCgi env i s _ _ h)

theorem answering_dispatchIndex (location : ResolvedLocation) (hi : s.clients[i]? = some c)
    (hdone : c.clientToServerState = .done) (hfirst : NoLateRead s.calls → c.Fresh) :
    Answering config stage i s (dispatchIndex env i location) := by
  refine .bind (reads_liftExcept _) hi fun isRegularFile => .ite ?_ ?_
  · refine .ite (.ite (.fail hi _) (.modify_throw _ hi ?_)) (.fail hi _)
    exact ⟨rfl, fun _ => ⟨hdone, rfl, rfl⟩, .inl rfl, .inl rfl⟩
  · exact .respond (Client.keeps_respondWithFile _ _) (Client.fills_respondWithFile _ _) hi hdone
      hfirst

theorem answering_dispatchDirectory (method : RequestMethod) (location : ResolvedLocation)
    (hi : s.clients[i]? = some c) (hdone : c.clientToServerState = .done)
    (hfirst : NoLateRead s.calls → c.Fresh) :
    Answering config stage i s (dispatchDirectory env i method location) := by
  refine .ite (.ite (answering_dispatchIndex location hi hdone hfirst) (.ite ?_ (.fail hi _)))
    (.fail hi _)
  exact .respond (Client.keeps_respondWithDirectoryListing _ _)
    (Client.fills_respondWithDirectoryListing _ _) hi hdone hfirst

theorem answering_dispatchFile (method : RequestMethod) (location : ResolvedLocation)
    (hs : s.Good) (hi : s.clients[i]? = some c) (hdone : c.clientToServerState = .done)
    (hfirst : NoLateRead s.calls → c.Fresh) :
    Answering config stage i s (dispatchFile env i method location) := by
  refine .bind (reads_liftExcept _) hi fun isDirectory => .ite ?_ (.ite ?_ (.ite ?_ (.ite ?_ ?_)))
  · exact .ite (.fail hi _) (.fail hi _)
  · exact .startCgi hs hi hdone hfirst
  · exact .respond (Client.keeps_respondWithFile _ _) (Client.fills_respondWithFile _ _) hi hdone
      hfirst
  · exact .respond (Client.keeps_respondWithCreateFile _ _) (Client.fills_respondWithCreateFile _ _)
      hi hdone hfirst
  · exact .respond (Client.keeps_respondWithDeleteFile _ _) (Client.fills_respondWithDeleteFile _ _)
      hi hdone hfirst

/-- **Answering a request** is a sequence of actions, or raises an exception and changes nothing but
the client. -/
theorem answering_answerRequest (d : Client) (hs : s.Good) (hi : s.clients[i]? = some c)
    (hdone : c.clientToServerState = .done) (hfirst : NoLateRead s.calls → c.Fresh) :
    Answering config stage i s (answerRequest config env i d) := by
  refine .bind (reads_getServer i) hi fun server => .bind (reads_liftExcept _) hi fun location => ?_
  refine .ite (.fail hi _) (.ite (.modify_throw _ hi (.of_untracked rfl)) (.ite (.fail hi _) ?_))
  refine .bind (reads_liftExcept _) hi fun last => .ite ?_ ?_
  · exact answering_dispatchDirectory _ location hi hdone hfirst
  · exact answering_dispatchFile _ location hs hi hdone hfirst

/-! ## Reading from a connection -/

/-- What is dispatched is the client as the read has left it. -/
theorem dispatched_of_read {received : Bytes} {d : Client}
    (hd : d = finalState (Client.appendReadString received c)) :
    d.clientFd = c.clientFd ∧ d.response = c.response := by
  have h := (Client.sameParsing_appendReadString received c).unparsed_eq
  rw [← hd] at h
  exact ⟨(congrArg Client.clientFd h :), (congrArg Client.response h :)⟩

theorem mem_readCalls (fd : ℤ) (c : Client) (received : Bytes) (dispatched : Option Client)
    (failed : Bool) (calls : List Call) :
    .read fd c received ∈ readCalls fd c received dispatched failed ++ calls := by
  simp [readCalls]

/-- A client that is read from before its request is complete was only read from. -/
theorem fresh_of_read (hs : s.Good) (hi : s.clients[i]? = some c) {fd : ℤ} {received : Bytes}
    {calls : List Call} {d : Client} (hd : d = finalState (Client.appendReadString received c))
    (hread : .read fd c received ∈ calls) (hno : NoLateRead calls) : d.Fresh := by
  have hfresh := (hs.sound_at hi).unread (hno fd c received hread)
  exact hfresh.of_core (hd ▸ (Client.kept_appendReadString received c).core)
    (dispatched_of_read hd).2

theorem readClient_actions {received : Bytes} {u : Unit} (hs : s.Good)
    (hi : s.clients[i]? = some c)
    (h : readClient config env i c.clientFd received s = .ok u s') :
    Actions config stage s s' := by
  obtain ⟨c₀, _, hclient, h⟩ := bind_eq_ok h
  obtain ⟨rfl, hi₀⟩ := clientAt_ok hclient
  obtain rfl : c₀ = c := Option.some.inj (hi₀.symm.trans hi)
  obtain ⟨_, s₁, hlog, h⟩ := bind_eq_ok h
  obtain rfl := log_ok hlog
  obtain ⟨_, s₂, hmethod, h⟩ := bind_eq_ok h
  obtain ⟨c₁, c', hi₁, happend, rfl⟩ := onClient_ok hmethod
  obtain rfl : c₁ = c₀ := Option.some.inj (hi₁.symm.trans hi)
  have hc' : c' = finalState (Client.appendReadString received c₁) := by
    rw [happend]
    rfl
  have hkept : c₁.Kept c' := hc' ▸ Client.kept_appendReadString received c₁
  obtain ⟨c₂, _, hclient, h⟩ := bind_eq_ok h
  obtain ⟨rfl, hi₂⟩ := clientAt_ok hclient
  obtain rfl := Option.some.inj (hi₂.symm.trans (getElem?_set_self_of hi _))
  rw [run_ite] at h
  split_ifs at h with hdone
  · obtain ⟨c₃, _, hclient, h⟩ := bind_eq_ok h
    obtain ⟨rfl, hi₃⟩ := clientAt_ok hclient
    obtain rfl := Option.some.inj (hi₃.symm.trans hi₂)
    obtain ⟨_, s₃, hlog, h⟩ := bind_eq_ok h
    obtain rfl := log_ok hlog
    have hdispatched := dispatched_of_read hc'
    have hread : Action config stage s _ := .change i c₁ c₃ _ hi
      (.read c₃ received (some c₃) false hkept
        (by
          rintro d ⟨⟩
          exact ⟨hdispatched.1, hdispatched.2, hdone⟩)
        fun _ => ⟨c₃, happend, rfl⟩)
    have hanswer : Quiet config stage _ s' :=
      (answering_answerRequest c₃ (hs.action hread) hi₂ hdone fun hno =>
        fresh_of_read hs hi hc' (mem_readCalls c₁.clientFd c₁ received (some c₃) false s.calls) hno).ok h
    exact .head hread hanswer.actions
  · cases h
    exact .single (.change i c₁ c₂ _ hi
      (.read c₂ received none false hkept (fun d hd => absurd hd (Option.not_mem_none d)) fun _ => ⟨c₂, happend, rfl⟩))

/-- An exception that is raised by a read: the client has changed, and its request may have been
dispatched. -/
theorem readClient_raises {received : Bytes} {status : Status} (hs : s.Good)
    (hi : s.clients[i]? = some c)
    (h : readClient config env i c.clientFd received s = .error (.clientException status) s') :
    ∃ c' dispatched, c.Kept c' ∧ (∀ d ∈ dispatched, d.clientFd = c.clientFd ∧
      d.response = c.response ∧ c'.clientToServerState = .done) ∧
      s' = { s with
        clients := s.clients.set i c'
        calls := readCalls c.clientFd c received dispatched false ++ s.calls } := by
  obtain h | ⟨c₀, _, hclient, h⟩ := bind_eq_error h
  · exact absurd ⟨status, rfl⟩ (noException_clientAt i s _ _ h)
  obtain ⟨rfl, hi₀⟩ := clientAt_ok hclient
  obtain rfl : c₀ = c := Option.some.inj (hi₀.symm.trans hi)
  obtain h | ⟨_, s₁, hlog, h⟩ := bind_eq_error h
  · cases h
  obtain rfl := log_ok hlog
  have hkept := Client.kept_appendReadString received c₀
  obtain h | ⟨_, s₂, hmethod, h⟩ := bind_eq_error h
  · obtain ⟨c', happend, rfl⟩ := onClient_error h hi
    rw [happend] at hkept
    exact ⟨c', none, hkept, fun d hd => absurd hd (Option.not_mem_none d), rfl⟩
  obtain ⟨c₁, c', hi₁, happend, rfl⟩ := onClient_ok hmethod
  obtain rfl : c₁ = c₀ := Option.some.inj (hi₁.symm.trans hi)
  have hc' : c' = finalState (Client.appendReadString received c₁) := by
    rw [happend]
    rfl
  rw [← hc'] at hkept
  obtain h | ⟨c₂, _, hclient, h⟩ := bind_eq_error h
  · exact absurd ⟨status, rfl⟩ (noException_clientAt i _ _ _ h)
  obtain ⟨rfl, hi₂⟩ := clientAt_ok hclient
  obtain rfl := Option.some.inj (hi₂.symm.trans (getElem?_set_self_of hi _))
  rw [run_ite] at h
  split_ifs at h with hdone
  · obtain h | ⟨c₃, _, hclient, h⟩ := bind_eq_error h
    · exact absurd ⟨status, rfl⟩ (noException_clientAt i _ _ _ h)
    obtain ⟨rfl, hi₃⟩ := clientAt_ok hclient
    obtain rfl := Option.some.inj (hi₃.symm.trans hi₂)
    obtain h | ⟨_, s₃, hlog, h⟩ := bind_eq_error h
    · cases h
    obtain rfl := log_ok hlog
    have hdispatched := dispatched_of_read hc'
    have hread : Action config .handling s _ := .change i c₁ c₃ _ hi
      (.read c₃ received (some c₃) false hkept
        (by
          rintro d ⟨⟩
          exact ⟨hdispatched.1, hdispatched.2, hdone⟩)
        fun _ => ⟨c₃, happend, rfl⟩)
    have hanswer : Answering config .handling i _ (answerRequest config env i c₃) :=
      answering_answerRequest c₃ (hs.action hread) hi₂ hdone fun hno =>
        fresh_of_read hs hi hc' (mem_readCalls c₁.clientFd c₁ received (some c₃) false s.calls) hno
    obtain ⟨c₄, c₅, hi₄, hkept₅, rfl⟩ := hanswer.raise h
    obtain rfl := Option.some.inj (hi₄.symm.trans hi₂)
    refine ⟨c₅, some c₄, hkept.trans hkept₅, ?_, ?_⟩
    · rintro d ⟨⟩
      exact ⟨hdispatched.1, hdispatched.2, (hkept₅.done hdone).1⟩
    · simp only [List.set_set]
  · cases h

/-! ## Reading from a descriptor -/

theorem read_ok {received : Bytes} (h : read env s = .ok received s') : s = s' := by
  unfold read at h
  cases hread : env.read with
  | none =>
    rw [hread] at h
    cases h
  | some bytes =>
    rw [hread] at h
    cases h
    rfl

theorem readCgi_actions {received : Bytes} {u : Unit} (h : readCgi i received s = .ok u s') :
    Actions config stage s s' := by
  obtain ⟨c, _, hclient, h⟩ := bind_eq_ok h
  obtain ⟨rfl, hi⟩ := clientAt_ok hclient
  obtain ⟨_, _, hassert, h⟩ := bind_eq_ok h
  obtain ⟨rfl, hreading⟩ := assert_ok hassert
  obtain ⟨_, s₁, hlog, h⟩ := bind_eq_ok h
  obtain rfl := log_ok hlog
  obtain ⟨c', hi', rfl⟩ := modifyClient_ok h
  obtain rfl : c' = c := Option.some.inj (hi'.symm.trans hi)
  exact .single (.change i c' _ _ hi (.readCgi received hreading))

theorem noException_readCgi (i : ℕ) (received : Bytes) : NoException (readCgi i received) := by
  refine .bind (noException_clientAt i) fun c => .bind (noException_assert _) fun _ => ?_
  exact .bind (noException_log _) fun _ => noException_modifyClient _ _

/-- Reading from a descriptor that leads to a client. -/
theorem readFd_actions {fd : ℤ} {fdType : FdType} {skip : Bool} (hs : s.Good)
    (hpolls : s.Polls fd fdType) (hindex : s.fdToClientIndex.lookup fd = some i)
    (hi : s.clients[i]? = some c) (h : readFd config env i fd fdType s = .ok skip s') :
    Actions config stage s s' := by
  obtain ⟨received, _, hread, h⟩ := bind_eq_ok h
  obtain rfl := read_ok hread
  obtain ⟨_, s₁, hmodify, h⟩ := bind_eq_ok h
  obtain ⟨c₁, hi₁, rfl⟩ := modifyClient_ok hmodify
  obtain rfl : c₁ = c := Option.some.inj (hi₁.symm.trans hi)
  have h₁ : Quiet config stage s
      { s with clients := s.clients.set i { c₁ with timeOfLastRead := env.now } } := .note hi rfl
  have hs₁ := h₁.good hs
  have hi₂ := getElem?_set_self_of hi { c₁ with timeOfLastRead := env.now }
  refine h₁.actions.trans ?_
  rw [run_ite] at h
  split_ifs at h with hnone
  · obtain ⟨_, _, hassert, h⟩ := bind_eq_ok h
    obtain ⟨rfl, -⟩ := assert_ok hassert
    obtain ⟨c₂, _, hclient, h⟩ := bind_eq_ok h
    obtain ⟨rfl, -⟩ := clientAt_ok hclient
    obtain ⟨_, s₂, hremove, h⟩ := bind_eq_ok h
    cases h
    exact removeClient_actions hs₁ hremove
  · obtain ⟨_, s₂, hbytes, h⟩ := bind_eq_ok h
    cases h
    obtain ⟨c₂, _, hclient, h₂⟩ := bind_eq_ok hbytes
    obtain ⟨rfl, -⟩ := clientAt_ok hclient
    obtain ⟨_, _, hassert, h₃⟩ := bind_eq_ok h₂
    obtain ⟨rfl, -⟩ := assert_ok hassert
    rw [run_ite, run_ite] at h₃
    split_ifs at h₃ with hconnection hcgi
    · subst hconnection
      obtain rfl := hs.client_of_polls hpolls hindex hi
      exact readClient_actions hs₁ hi₂ h₃
    · exact readCgi_actions h₃
    · cases h₃

/-- An exception while reading from a descriptor: it was a connection, and nothing but its client has
changed. -/
theorem readFd_error {fd : ℤ} {fdType : FdType} {status : Status} (hs : s.Good)
    (hpolls : s.Polls fd fdType) (hindex : s.fdToClientIndex.lookup fd = some i)
    (hi : s.clients[i]? = some c)
    (h : readFd config env i fd fdType s = .error (.clientException status) s') :
    ∃ received c' dispatched, c.clientFd = fd ∧ Client.Kept { c with timeOfLastRead := env.now } c' ∧
      (∀ d ∈ dispatched, d.clientFd = c.clientFd ∧ d.response = c.response ∧
        c'.clientToServerState = .done) ∧
      s' = { s with
        clients := s.clients.set i c'
        calls := readCalls c.clientFd { c with timeOfLastRead := env.now } received dispatched false ++
          s.calls } := by
  obtain h | ⟨received, _, hread, h⟩ := bind_eq_error h
  · exact absurd ⟨status, rfl⟩ (noException_read env s _ _ h)
  obtain rfl := read_ok hread
  obtain h | ⟨_, s₂, hmodify, h⟩ := bind_eq_error h
  · exact absurd ⟨status, rfl⟩ (noException_modifyClient _ _ s _ _ h)
  obtain ⟨c₁, hi₁, rfl⟩ := modifyClient_ok hmodify
  obtain rfl : c₁ = c := Option.some.inj (hi₁.symm.trans hi)
  have h₁ : Quiet config .handling s
      { s with clients := s.clients.set i { c₁ with timeOfLastRead := env.now } } := .note hi rfl
  have hi₂ := getElem?_set_self_of hi { c₁ with timeOfLastRead := env.now }
  rw [run_ite] at h
  split_ifs at h with hnone
  · have hthrows : NoException (do
        assert (fdType = .client)
        removeClient env (← clientAt i).clientFd
        pure true : ServerM Bool) :=
      .bind (noException_assert _) fun _ => .bind (noException_clientAt i) fun _ =>
        .bind (noException_removeClient env _) fun _ => .pure _
    exact absurd ⟨status, rfl⟩ (hthrows _ _ _ h)
  obtain h | ⟨_, s₂, -, h⟩ := bind_eq_error h
  swap
  · cases h
  obtain h | ⟨c₂, _, hclient, h⟩ := bind_eq_error h
  · exact absurd ⟨status, rfl⟩ (noException_clientAt i _ _ _ h)
  obtain ⟨rfl, -⟩ := clientAt_ok hclient
  obtain h | ⟨_, _, hassert, hbody⟩ := bind_eq_error h
  · exact absurd ⟨status, rfl⟩ (noException_assert _ _ _ _ h)
  obtain ⟨rfl, -⟩ := assert_ok hassert
  rw [run_ite, run_ite] at hbody
  split_ifs at hbody with hconnection hcgi
  · subst hconnection
    obtain rfl := hs.client_of_polls hpolls hindex hi
    obtain ⟨c', dispatched, hkept, hdispatched, rfl⟩ := readClient_raises (h₁.good hs) hi₂ hbody
    refine ⟨received, c', dispatched, rfl, hkept, hdispatched, ?_⟩
    simp only [List.set_set]
  · exact absurd ⟨status, rfl⟩ (noException_readCgi i received _ _ _ hbody)
  · cases hbody

/-- An exception while reading from a descriptor is answered with what was read already noted. -/
theorem readFd_raises {fd : ℤ} {fdType : FdType} {status : Status} {s₁ : Server} {u : Unit}
    (hs : s.Good) (hpolls : s.Polls fd fdType) (hindex : s.fdToClientIndex.lookup fd = some i)
    (hi : s.clients[i]? = some c)
    (h : readFd config env i fd fdType s = .error (.clientException status) s₁)
    (hanswer : respondClientException config env status i s₁ = .ok u s') :
    Actions config stage s s' := by
  obtain ⟨received, c', dispatched, -, hkept, hdispatched, rfl⟩ := readFd_error hs hpolls hindex hi h
  have h₁ : Quiet config stage s
      { s with clients := s.clients.set i { c with timeOfLastRead := env.now } } := .note hi rfl
  have hs₁ := h₁.good hs
  have hi₂ := getElem?_set_self_of hi { c with timeOfLastRead := env.now }
  obtain ⟨c₃, _, hclient, hanswer⟩ := bind_eq_ok hanswer
  obtain ⟨rfl, hi₃⟩ := clientAt_ok hclient
  obtain rfl := Option.some.inj (hi₃.symm.trans (getElem?_set_self_of hi _))
  obtain ⟨_, s₃, hlog, hanswer⟩ := bind_eq_ok hanswer
  obtain rfl := log_ok hlog
  have hfd : c₃.clientFd = c.clientFd := (congrArg Client.clientFd hkept.core :)
  rw [hfd] at hanswer
  have hread : Action config stage
      { s with clients := s.clients.set i { c with timeOfLastRead := env.now } } _ :=
    .change i _ c₃ _ hi₂ (.read c₃ received dispatched true hkept hdispatched nofun)
  simp only [List.set_set] at hread
  have h₂ := h₁.actions.tail hread
  have hgiven : GivenUp c₃.clientFd (readCalls c.clientFd
      { c with timeOfLastRead := env.now } received dispatched true ++ s.calls) := by
    rw [hfd]
    exact .head rfl (by simp [Call.givesUp])
  have hfresh : NoLateRead (readCalls c.clientFd { c with timeOfLastRead := env.now } received
      dispatched true ++ s.calls) → Client.Fresh { c with timeOfLastRead := env.now } :=
    fun hno => (hs₁.sound_at hi₂).unread
      (hno _ _ received (mem_readCalls _ _ received dispatched true s.calls))
  refine h₂.trans (answerException_quiet (hs₁.action hread) hanswer (getElem?_set_self_of hi _)
    hgiven (fun hno => (hfresh hno).noCgi.of_core hkept.core) fun hno _ hwriting => ?_).actions
  have hstate : c₃.serverToClientState = c.serverToClientState :=
    (congrArg Client.serverToClientState hkept.core :)
  cases (hfresh hno).serverToClientState.symm.trans (hstate.symm.trans hwriting)

theorem catchClientException_ok {α : Type} {body : ServerM α} {handler : Status → ServerM α} {a : α}
    (h : catchClientException body handler s = .ok a s') :
    body s = .ok a s' ∨ ∃ status s₁, body s = .error (.clientException status) s₁ ∧
      handler status s₁ = .ok a s' := by
  unfold catchClientException at h
  split at h
  · rename_i status s₁ hbody
    exact .inr ⟨status, s₁, hbody, h⟩
  · cases h
  · rename_i hbody
    cases h
    exact .inl hbody

/-- **Reading**: what `_handlePollin` does is a sequence of actions. -/
theorem handlePollin_actions {fd : ℤ} {fdType : FdType} {skip : Bool} (hs : s.Good)
    (htype : s.fdToFdType.lookup fd = some fdType)
    (h : handlePollin config env fd fdType s = .ok skip s') : Actions config stage s s' := by
  unfold handlePollin at h
  rw [run_ite] at h
  split_ifs at h with hserver
  · obtain ⟨_, s₁, haccept, h⟩ := bind_eq_ok h
    cases h
    exact acceptClient_actions haccept
  · obtain ⟨_, _, hassert, h⟩ := bind_eq_ok h
    obtain ⟨rfl, -⟩ := assert_ok hassert
    obtain ⟨i, _, hget, h⟩ := bind_eq_ok h
    obtain ⟨rfl, hindex, c, hi⟩ := getClient_ok hget
    have hpolls := hs.typed fd fdType htype hserver
    obtain hread | ⟨status, s₁, hread, h⟩ := catchClientException_ok h
    · exact readFd_actions hs hpolls hindex hi hread
    · obtain ⟨_, s₂, hanswer, h⟩ := bind_eq_ok h
      cases h
      exact readFd_raises hs hpolls hindex hi hread hanswer

end Webserv.Server
