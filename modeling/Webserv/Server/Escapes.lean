import Webserv.Client.ResponseFraming
import Webserv.Server.Questions
import Webserv.Server.Starting
import Webserv.Server.Statuses
import Webserv.Server.VirtualServers

/-!
# What escapes from the dispatch of a request

`_handlePollin` catches a `ClientException` and answers it. But the dispatch of a request asks the file
system with functions that throw a `filesystem_error`, it looks at the last character of a path that may
be empty, and it opens pipes and forks: what these throw escapes. If all of it succeeds, the request gets
a response or a CGI, and otherwise such an exception leaves `_handlePollin` (`dispatch_contained_iff`).
-/

namespace Webserv

open Exec

namespace Client

variable {fs : FileSystem} {path : Bytes} {c c' : Client}

/-- The method returns, or raises an exception. -/
def Copes (method : ClientM Unit) (c : Client) : Prop :=
  (∃ c', method c = .ok () c') ∨ ∃ status c', method c = .error (.clientException status) c'

/-- The status of an exception that can be answered whatever its client is. -/
def Plain (status : Status) : Prop :=
  (getReasonPhrase status).isSome = true ∧ status ≠ .movedTemporarily

instance (status : Status) : Decidable (Plain status) := inferInstanceAs (Decidable (_ ∧ _))

/-- Every exception of the method can be answered. -/
def RaisesPlain (method : ClientM Unit) : Prop :=
  Throws (fun e => ∀ status, e = .clientException status → Plain status) method

theorem raisesPlain_prependResponseHeader : RaisesPlain prependResponseHeader := by
  have hassert : ∀ (p : Prop) [Decidable p], RaisesPlain (assert p) := fun p _ =>
    .ite (.pure _) (.throw nofun)
  have hheader : ∀ key value, RaisesPlain (addResponseHeader key value) := fun _ _ => .modify _
  have hphrase : Throws (fun e => ∀ status, e = .clientException status → Plain status) reasonPhrase := by
    refine .bind .get fun c => .ite ?_ (.pure _)
    cases getReasonPhrase c.status with
    | none => exact .throw nofun
    | some phrase => exact .pure _
  have hlocation : RaisesPlain addLocation :=
    .bind .get fun _ => .ite (hheader _ _) (.ite (.bind (hassert _) fun _ => hheader _ _) (.pure _))
  refine .bind .get fun _ => .bind hphrase fun _ => .bind (.modify _) fun _ => .bind .get fun _ => ?_
  refine .bind (hheader _ _) fun _ => .bind (hheader _ _) fun _ => .bind hlocation fun _ => .modify _

theorem raisesPlain_respondWithFile : RaisesPlain (respondWithFile fs path) := by
  have hask : Throws (fun e => ∀ status, e = .clientException status → Plain status)
      (orThrow .filesystem (fs.isRegularFile path)) := by
    cases fs.isRegularFile path with
    | none => exact .throw nofun
    | some answer => exact .pure _
  refine .bind .get fun _ => .bind (.ite (.pure _) (.throw nofun)) fun _ => .bind hask fun _ => ?_
  exact .ite (.bind (.modify _) fun _ => raisesPlain_prependResponseHeader)
    (.throw (by rintro _ ⟨⟩; decide))

theorem raisesPlain_respondWithDirectoryListing : RaisesPlain (respondWithDirectoryListing fs path) := by
  have hnames : ∀ directories, Throws (fun e => ∀ status, e = .clientException status → Plain status)
      (getSortedEntryNames fs path directories) := by
    intro directories
    unfold getSortedEntryNames
    split
    · exact .throw (by rintro _ ⟨⟩; decide)
    · exact .pure _
  refine .bind .get fun _ => .bind (.ite (.pure _) (.throw nofun)) fun _ => .bind (.modify _) fun _ => ?_
  refine .bind (hnames _) fun _ => .bind (.modify _) fun _ => .bind (hnames _) fun _ => ?_
  exact .bind (.modify _) fun _ => .bind (.modify _) fun _ => raisesPlain_prependResponseHeader

theorem raisesPlain_respondWithCreateFile : RaisesPlain (respondWithCreateFile fs path) := by
  refine .bind .get fun _ => .bind (.ite (.pure _) (.throw nofun)) fun _ => ?_
  exact .ite (.throw (by rintro _ ⟨⟩; decide))
    (.ite (.throw (by rintro _ ⟨⟩; decide)) raisesPlain_prependResponseHeader)

theorem raisesPlain_respondWithDeleteFile : RaisesPlain (respondWithDeleteFile fs path) := by
  have hask : Throws (fun e => ∀ status, e = .clientException status → Plain status)
      (orThrow .filesystem (fs.remove path)) := by
    cases fs.remove path with
    | none => exact .throw nofun
    | some answer => exact .pure _
  refine .bind .get fun _ => .bind (.ite (.pure _) (.throw nofun)) fun _ => .bind hask fun _ => ?_
  exact .ite raisesPlain_prependResponseHeader (.throw (by rintro _ ⟨⟩; decide))

/-- A client whose status has a reason phrase can be given a header. -/
theorem exists_prependResponseHeader (hphrase : (getReasonPhrase c.status).isSome = true)
    (hredirect : c.status = .movedTemporarily → c.redirect ≠ []) :
    ∃ c', prependResponseHeader c = .ok () c' := by
  obtain ⟨text, htext⟩ : ∃ text, c.phrase = some text := by
    unfold phrase
    split_ifs
    · exact Option.isSome_iff_exists.1 hphrase
    · exact ⟨_, rfl⟩
  exact ⟨_, prependResponseHeader_eq htext hredirect⟩

theorem exists_prependResponseHeader_of_ok (hstatus : c.status = .ok) :
    ∃ c', prependResponseHeader c = .ok () c' :=
  exists_prependResponseHeader (by rw [hstatus]; rfl) fun h => nomatch hstatus.symm.trans h

theorem exists_respondWithError (fs : FileSystem) (errorPages : Map ℕ Bytes)
    (hphrase : (getReasonPhrase c.status).isSome = true)
    (hredirect : c.status = .movedTemporarily → c.redirect ≠ []) :
    ∃ c', respondWithError fs errorPages c = .ok () c' := by
  obtain ⟨text, htext⟩ := Option.isSome_iff_exists.1 hphrase
  obtain ⟨page, hpage⟩ : ∃ page, getErrorPage fs errorPages c = .ok page c := by
    rw [getErrorPage, run_bind, run_get]
    dsimp only
    cases (errorPages.lookup c.status.code).bind fs.readFile with
    | some page => exact ⟨page, rfl⟩
    | none =>
      rw [htext]
      exact ⟨_, rfl⟩
  rw [respondWithError, bind_of_ok hpage, run_bind, run_modify]
  exact exists_prependResponseHeader hphrase hredirect

section Respond

variable (hresponse : c.response = []) (hstatus : c.status = .ok)

include hresponse hstatus

theorem copes_respondWithFile_iff : Copes (respondWithFile fs path) c ↔ fs.isRegularFile path ≠ none := by
  have hassert : assert (c.response = []) c = .ok () c := by rw [assert, if_pos hresponse, run_pure]
  unfold Copes
  simp only [respondWithFile, run_bind, run_get, hassert]
  cases fs.isRegularFile path with
  | none => simp [orThrow]
  | some isRegularFile =>
    refine iff_of_true ?_ (Option.some_ne_none _)
    cases isRegularFile with
    | false => exact .inr ⟨_, c, rfl⟩
    | true => exact .inl (exists_prependResponseHeader_of_ok hstatus)

theorem copes_respondWithDirectoryListing : Copes (respondWithDirectoryListing fs path) c := by
  have hassert : assert (c.response = []) c = .ok () c := by rw [assert, if_pos hresponse, run_pure]
  unfold Copes
  simp only [respondWithDirectoryListing, run_bind, run_get, hassert, run_modify]
  cases hentries : fs.entries path with
  | none =>
    simp only [getSortedEntryNames, hentries]
    exact .inr ⟨_, _, rfl⟩
  | some entries =>
    simp only [getSortedEntryNames, hentries, run_pure]
    exact .inl (exists_prependResponseHeader_of_ok hstatus)

theorem copes_respondWithCreateFile : Copes (respondWithCreateFile fs path) c := by
  have hassert : assert (c.response = []) c = .ok () c := by rw [assert, if_pos hresponse, run_pure]
  unfold Copes
  simp only [respondWithCreateFile, run_bind, run_get, hassert, run_ite]
  split_ifs
  · exact .inr ⟨_, _, rfl⟩
  · exact .inr ⟨_, _, rfl⟩
  · exact .inl (exists_prependResponseHeader_of_ok hstatus)

theorem copes_respondWithDeleteFile_iff :
    Copes (respondWithDeleteFile fs path) c ↔ fs.remove path ≠ none := by
  have hassert : assert (c.response = []) c = .ok () c := by rw [assert, if_pos hresponse, run_pure]
  unfold Copes
  simp only [respondWithDeleteFile, run_bind, run_get, hassert]
  cases fs.remove path with
  | none => simp [orThrow]
  | some removed =>
    refine iff_of_true ?_ (Option.some_ne_none _)
    cases removed with
    | false => exact .inr ⟨_, c, rfl⟩
    | true => exact .inl (exists_prependResponseHeader_of_ok hstatus)

end Respond

end Client

namespace Server

variable {config : Config} {env : Answers} {s s' : Server} {i k : ℕ} {c c' : Client} {status : Status}
  {server : ServerDirective}

/-- The response of the client in a slot is prepared, and writing to it is enabled. -/
def Responding (i : ℕ) (s : Server) : Prop :=
  ∃ (c : Client) (k : ℕ) (pfd : Pollfd), s.clients[i]? = some c ∧ c.response ≠ [] ∧
    c.serverToClientState = .writing ∧ s.fdToPfdIndex.lookup c.clientFd = some k ∧
    s.pfds[k]? = some pfd ∧ pfd.fd = c.clientFd ∧ pfd.events.pollout = true

/-! ## Exceptions -/

theorem enableWritingToClient_of {pfd : Pollfd} (hi : s.clients[i]? = some c)
    (hk : s.fdToPfdIndex.lookup c.clientFd = some k) (hpfd : s.pfds[k]? = some pfd) :
    enableWritingToClient i s = .ok () { s with
      pfds := s.pfds.set k pfd.withPollout
      clients := s.clients.set i { c with serverToClientState := .writing } } := by
  rw [enableWritingToClient, bind_of_ok (clientAt_of hi), run_bind, run_get]
  dsimp only
  rw [bind_of_ok (lookupAt_of hk), enablePollout, bind_of_ok (modifyPfd_of hpfd _)]
  exact modifyClient_of (s := { s with pfds := s.pfds.set k pfd.withPollout }) hi _

/-- Writing to a client with a response is enabled. -/
theorem exists_enableWritingToClient {pfd : Pollfd} (hi : s.clients[i]? = some c)
    (hresponse : c.response ≠ []) (hk : s.fdToPfdIndex.lookup c.clientFd = some k)
    (hpfd : s.pfds[k]? = some pfd) (hfd : pfd.fd = c.clientFd) :
    ∃ s', enableWritingToClient i s = .ok () s' ∧ Responding i s' := by
  refine ⟨_, enableWritingToClient_of hi hk hpfd, _, k, _, getElem?_set_self_of hi _, hresponse, rfl, hk,
    getElem?_set_self_of hpfd _, hfd, rfl⟩

theorem findServerIndex_state {serverName : Bytes} {indices : List ℕ} {found : Option ℕ}
    (h : findServerIndex config serverName indices s = .ok found s) (s' : Server) :
    findServerIndex config serverName indices s' = .ok found s' := by
  induction indices with
  | nil =>
    cases h
    rfl
  | cons index indices ih =>
    rw [findServerIndex] at h ⊢
    cases hserver : config.servers[index]? with
    | none =>
      rw [hserver] at h
      cases h
    | some server =>
      rw [hserver] at h
      dsimp only at h ⊢
      rw [run_ite] at h ⊢
      split_ifs at h ⊢
      · cases h
        rfl
      · exact ih h

/-- The server of a client depends on the connection it was accepted on, and on its name. -/
theorem getServer_congr (h : getServer config i s = .ok server s) (hi : s.clients[i]? = some c) {s' : Server}
    (hbind : s'.bindFdToServerIndices = s.bindFdToServerIndices) (hi' : s'.clients[i]? = some c')
    (hfd : c'.serverFd = c.serverFd) (hname : c'.serverName = c.serverName) :
    getServer config i s' = .ok server s' := by
  rw [getServer, bind_of_ok (clientAt_of hi), run_bind, run_get] at h
  dsimp only at h
  obtain ⟨indices, s₁, hlookup, h⟩ := bind_eq_ok h
  obtain ⟨rfl, hindices⟩ := lookupAt_ok hlookup
  obtain ⟨found, s₁, hfound, h⟩ := bind_eq_ok h
  obtain rfl := findServerIndex_ok hfound
  have hfound' := findServerIndex_state hfound s'
  rw [← hname] at hfound'
  rw [getServer, bind_of_ok (clientAt_of hi'), run_bind, run_get]
  dsimp only
  rw [bind_of_ok (lookupAt_of (by rw [hbind, hfd, hindices])), bind_of_ok hfound']
  cases hchoice : found.or indices.head? with
  | none =>
    rw [hchoice] at h
    cases h
  | some index =>
    rw [hchoice] at h
    dsimp only at h ⊢
    cases hserver : config.servers[index]? with
    | none =>
      rw [hserver] at h
      cases h
    | some server' =>
      rw [hserver] at h
      cases h
      rfl

/-- What an exception of the client in a slot needs to be answered: the client has no CGI, it finds its
slot and its entry in `_pfds`, and it has a server. -/
structure Answerable (config : Config) (i : ℕ) (server : ServerDirective) (s : Server) (c : Client) :
    Prop where
  slot : s.clients[i]? = some c
  index : s.fdToClientIndex.lookup c.clientFd = some i
  entry : ∃ k pfd, s.fdToPfdIndex.lookup c.clientFd = some k ∧ s.pfds[k]? = some pfd ∧
    pfd.fd = c.clientFd
  noCgi : c.cgiPid = -1
  server : getServer config i s = .ok server s

/-- Another client in the slot, with the same connection. -/
theorem Answerable.set (h : Answerable config i server s c) (c' : Client) (pfds : List Pollfd)
    (calls : List Call) (hsame : c'.clientFd = c.clientFd ∧ c'.serverFd = c.serverFd ∧
      c'.serverName = c.serverName ∧ c'.cgiPid = c.cgiPid)
    (hpfds : pfds.map Pollfd.fd = s.pfds.map Pollfd.fd) :
    Answerable config i server
      { s with pfds := pfds, clients := s.clients.set i c', calls := calls } c' := by
  obtain ⟨hfd, hserver, hname, hpid⟩ := hsame
  have hi := getElem?_set_self_of h.slot c'
  refine ⟨hi, hfd ▸ h.index, ?_, hpid.trans h.noCgi, ?_⟩
  · obtain ⟨k, pfd, hk, hpfd, hpfdFd⟩ := h.entry
    have hkey := congrArg (fun fds => fds[k]?) hpfds
    simp only [List.getElem?_map, hpfd, Option.map_some, Option.map_eq_some_iff] at hkey
    obtain ⟨pfd', hpfd', heq⟩ := hkey
    exact ⟨k, pfd', hfd ▸ hk, hpfd', heq.trans (hpfdFd.trans hfd.symm)⟩
  · have hbind : Server.bindFdToServerIndices
        { s with pfds := pfds, clients := s.clients.set i c', calls := calls } =
        s.bindFdToServerIndices := rfl
    exact getServer_congr h.server h.slot hbind hi hserver hname

theorem killCgi_of_noCgi {fd : ℤ} (hindex : s.fdToClientIndex.lookup fd = some i)
    (hi : s.clients[i]? = some c) (hpid : c.cgiPid = -1) : killCgi env fd s = .ok () s := by
  have hnone : ¬ (c.cgiKilled = false ∧ c.cgiPid ≠ -1) := fun hboth => hboth.2 hpid
  rw [killCgi, bind_of_ok (getClient_of hindex hi), bind_of_ok (clientAt_of hi), run_ite, if_neg hnone,
    run_pure]

/-- **An exception is answered with an error page.** -/
theorem Answerable.respond (h : Answerable config i server s c) (env : Answers)
    (hphrase : (Client.getReasonPhrase status).isSome = true)
    (hredirect : status = .movedTemporarily → c.redirect ≠ []) :
    ∃ s', respondClientException config env status i s = .ok () s' ∧ Responding i s' := by
  -- the client is marked, and has no CGI to kill
  have h₁ := h.set { c with status := status } s.pfds (.respondClientException c.clientFd :: s.calls)
    ⟨rfl, rfl, rfl, rfl⟩ rfl
  obtain ⟨k, pfd, hk, hpfd, hfd⟩ := h₁.entry
  -- it is not read from any more
  have h₂ := h₁.set { c with status := status, clientToServerState := .done }
    (s.pfds.set k pfd.withoutPollin) (.respondClientException c.clientFd :: s.calls) ⟨rfl, rfl, rfl, rfl⟩
    (map_set_of_eq hpfd rfl)
  obtain ⟨k₂, pfd₂, hk₂, hpfd₂, hfd₂⟩ := h₂.entry
  obtain ⟨c₃, hrespond⟩ := Client.exists_respondWithError env.fs server.errorPages
    (c := { c with status := status, clientToServerState := .done }) hphrase hredirect
  have hkeeps := Client.keeps_respondWithError env.fs server.errorPages
    { c with status := status, clientToServerState := .done }
  rw [hrespond] at hkeeps
  have hfd₃ : c₃.clientFd = c.clientFd := (congrArg Client.clientFd hkeeps :)
  have hresponse := Client.fills_respondWithError _ _ _ _ _ hrespond
  rw [respondClientException, bind_of_ok (clientAt_of h.slot), bind_of_ok (log_of _), answerException,
    bind_of_ok (modifyClient_of (s := { s with calls := .respondClientException c.clientFd :: s.calls })
      h.slot _), bind_of_ok (clientAt_of h₁.slot),
    bind_of_ok (killCgi_of_noCgi h₁.index h₁.slot h.noCgi),
    bind_of_ok (disableReadingFromClient_of h₁.slot hk hpfd), bind_of_ok h₂.server, run_bind,
    onClient_eq h₂.slot, hrespond]
  dsimp only
  exact exists_enableWritingToClient (getElem?_set_self_of h₂.slot c₃) hresponse (hfd₃ ▸ hk₂) hpfd₂
    (hfd₂.trans hfd₃.symm)

/-! ## The ways to answer a request -/

/-- The dispatch of the request of the client in a slot gives it a response or a CGI, or raises an
exception that is answered. -/
def Ends (config : Config) (env : Answers) (i : ℕ) (s : Server) (x : ServerM Unit) : Prop :=
  (∃ s', x s = .ok () s' ∧ (Responding i s' ∨ RunsCgi i s')) ∨
    ∃ status s₁ s', x s = .error (.clientException status) s₁ ∧
      respondClientException config env status i s₁ = .ok () s' ∧ (Responding i s' ∨ RunsCgi i s')

/-- What is thrown is no `ClientException`. -/
def Escapes (s : Server) (x : ServerM Unit) : Prop :=
  ∃ e s', x s = .error e s' ∧ ¬ Client.IsClientException e

variable {x y : ServerM Unit}

theorem Escapes.not_ends (h : Escapes s x) : ¬ Ends config env i s x := by
  obtain ⟨e, s', hx, hcatch⟩ := h
  rintro (⟨s'', hok, -⟩ | ⟨status, s₁, s'', herror, -⟩)
  · cases hx.symm.trans hok
  · cases hx.symm.trans herror
    exact hcatch ⟨status, rfl⟩

theorem ends_ite {p : Prop} [Decidable p] :
    Ends config env i s (if p then x else y) ↔
      (p → Ends config env i s x) ∧ (¬ p → Ends config env i s y) := by
  split_ifs with hp
  · simp [hp]
  · simp [hp]

/-- What throws nothing that is caught has to return. -/
theorem ends_lift_bind {α : Type} {a : Except Fault α} {next : α → ServerM Unit} (ha : Uncaught a) :
    Ends config env i s (liftExcept a >>= next) ↔ ∃ v, a = .ok v ∧ Ends config env i s (next v) := by
  cases a with
  | ok v =>
    have hlift : liftExcept (.ok v) s = .ok v s := rfl
    simp only [Ends, bind_of_ok hlift, Except.ok.injEq, exists_eq_left']
  | error e =>
    have hlift : liftExcept (.error e) s = (.error e s : EStateM.Result Fault Server α) := rfl
    have hcatch := ha e rfl
    simp only [Ends, bind_of_error hlift]
    refine iff_of_false ?_ (by rintro ⟨v, hv, -⟩; cases hv)
    rintro (⟨s', h, -⟩ | ⟨status, s₁, s', h, -⟩)
    · cases h
    · cases h
      exact hcatch ⟨status, rfl⟩

theorem ends_askFs_bind {α : Type} {answer : Option α} {next : α → ServerM Unit} :
    Ends config env i s (askFs answer >>= next) ↔
      ∃ v, answer = some v ∧ Ends config env i s (next v) := by
  rw [askFs, ends_lift_bind (uncaught_orFilesystemError answer)]
  cases answer with
  | none =>
    refine iff_of_false ?_ (by rintro ⟨v, hv, -⟩; cases hv)
    rintro ⟨v, hv, -⟩
    cases hv
  | some v => simp only [orFilesystemError, Except.ok.injEq, Option.some.injEq]

/-- A CGI is started, or the start throws what is not caught. -/
theorem ends_startCgi_iff (hs : s.Good) (hi : s.clients[i]? = some c) :
    Ends config env i s (startCgi env i) ↔ CanStart env s := by
  constructor
  · rintro (⟨s', h, -⟩ | ⟨status, s₁, -, h, -⟩)
    · exact (startCgi_returns_iff hs hi).1 ⟨s', h⟩
    · exact absurd ⟨status, rfl⟩ (noException_startCgi env i s _ _ h)
  · intro h
    obtain ⟨s', hstart, hruns⟩ := startCgi_returns hs hi h
    exact .inl ⟨s', hstart, .inr hruns⟩

/-- An exception is raised. -/
theorem Answerable.ends_throw (h : Answerable config i server s c) (hplain : Client.Plain status) :
    Ends config env i s (throw (.clientException status)) := by
  obtain ⟨s', hrespond, hresponding⟩ := h.respond env hplain.1 fun heq => absurd heq hplain.2
  exact .inr ⟨status, s, s', rfl, hrespond, .inl hresponding⟩

/-- An exception is raised by a client that was changed. -/
theorem Answerable.ends_modify_throw (h : Answerable config i server s c) {f : Client → Client}
    (hsame : (f c).clientFd = c.clientFd ∧ (f c).serverFd = c.serverFd ∧
      (f c).serverName = c.serverName ∧ (f c).cgiPid = c.cgiPid)
    (hphrase : (Client.getReasonPhrase status).isSome = true)
    (hredirect : status = .movedTemporarily → (f c).redirect ≠ []) :
    Ends config env i s (modifyClient i f >>= fun _ => throw (.clientException status)) := by
  have h' := h.set (f c) s.pfds s.calls hsame rfl
  obtain ⟨s', hrespond, hresponding⟩ := h'.respond env hphrase hredirect
  refine .inr ⟨status, _, s', ?_, hrespond, .inl hresponding⟩
  rw [bind_of_ok (modifyClient_of h.slot f), run_throw]

/-- A method that prepares a response. -/
theorem Answerable.ends_respond_iff (h : Answerable config i server s c) {method : ClientM Unit}
    (hkeeps : Keeps Client.unanswered method) (hfills : Client.Fills method)
    (hraises : Client.RaisesPlain method) :
    Ends config env i s (onClient i method >>= fun _ => enableWritingToClient i) ↔
      Client.Copes method c := by
  obtain ⟨k, pfd, hk, hpfd, hfd⟩ := h.entry
  have hsame := hkeeps c
  unfold Ends Client.Copes
  rw [run_bind, onClient_eq h.slot]
  cases hmethod : method c with
  | ok u c' =>
    rw [hmethod] at hsame
    have hfd' : c'.clientFd = c.clientFd := (congrArg Client.clientFd hsame :)
    refine iff_of_true (.inl ?_) (.inl ⟨c', rfl⟩)
    obtain ⟨s', henable, hresponding⟩ := exists_enableWritingToClient
      (s := { s with clients := s.clients.set i c' }) (getElem?_set_self_of h.slot c')
      (hfills _ _ _ hmethod) (hfd' ▸ hk) hpfd (hfd.trans hfd'.symm)
    exact ⟨s', henable, .inl hresponding⟩
  | error e c' =>
    rw [hmethod] at hsame
    by_cases hcatch : Client.IsClientException e
    · obtain ⟨status, rfl⟩ := hcatch
      have hplain := hraises c _ c' hmethod status rfl
      refine iff_of_true (.inr ?_) (.inr ⟨status, c', rfl⟩)
      have h' := h.set c' s.pfds s.calls ⟨(congrArg Client.clientFd hsame :),
        (congrArg Client.serverFd hsame :), (congrArg Client.serverName hsame :),
        (congrArg Client.cgiPid hsame :)⟩ rfl
      obtain ⟨s', hrespond, hresponding⟩ := h'.respond env hplain.1 fun heq => absurd heq hplain.2
      exact ⟨status, _, s', rfl, hrespond, .inl hresponding⟩
    · refine iff_of_false ?_ ?_
      · rintro (⟨s', heq, -⟩ | ⟨status, s₁, s', heq, -⟩)
        · cases heq
        · cases heq
          exact hcatch ⟨status, rfl⟩
      · rintro (⟨c'', heq⟩ | ⟨status, c'', heq⟩)
        · cases heq
        · cases heq
          exact hcatch ⟨status, rfl⟩

/-! ## What does not end escapes -/

/-- There is no third way. -/
def Decided (config : Config) (env : Answers) (i : ℕ) (s : Server) (x : ServerM Unit) : Prop :=
  Ends config env i s x ∨ Escapes s x

theorem Decided.escapes_iff (h : Decided config env i s x) : Escapes s x ↔ ¬ Ends config env i s x :=
  ⟨Escapes.not_ends, h.resolve_left⟩

theorem Decided.ite {p : Prop} [Decidable p] (hx : Decided config env i s x)
    (hy : Decided config env i s y) : Decided config env i s (if p then x else y) := by
  split_ifs
  · exact hx
  · exact hy

theorem decided_lift_bind {α : Type} {a : Except Fault α} {next : α → ServerM Unit} (ha : Uncaught a)
    (hnext : ∀ v, a = .ok v → Decided config env i s (next v)) :
    Decided config env i s (liftExcept a >>= next) := by
  cases a with
  | ok v =>
    have hlift : liftExcept (.ok v) s = .ok v s := rfl
    simp only [Decided, Ends, Escapes, bind_of_ok hlift]
    exact hnext v rfl
  | error e =>
    have hlift : liftExcept (.error e) s = (.error e s : EStateM.Result Fault Server α) := rfl
    exact .inr ⟨e, s, bind_of_error hlift, ha e rfl⟩

theorem decided_askFs_bind {α : Type} {answer : Option α} {next : α → ServerM Unit}
    (hnext : ∀ v, Decided config env i s (next v)) : Decided config env i s (askFs answer >>= next) :=
  decided_lift_bind (uncaught_orFilesystemError answer) fun v _ => hnext v

theorem decided_startCgi (hs : s.Good) (hi : s.clients[i]? = some c) :
    Decided config env i s (startCgi env i) := by
  cases hstart : startCgi env i s with
  | ok u s' => exact .inl ((ends_startCgi_iff hs hi).2 ((startCgi_returns_iff hs hi).1 ⟨s', hstart⟩))
  | error e s' => exact .inr ⟨e, s', hstart, noException_startCgi env i s _ _ hstart⟩

theorem Answerable.decided_respond (h : Answerable config i server s c) {method : ClientM Unit}
    (hkeeps : Keeps Client.unanswered method) (hfills : Client.Fills method)
    (hraises : Client.RaisesPlain method) :
    Decided config env i s (onClient i method >>= fun _ => enableWritingToClient i) := by
  have hends : Ends config env i s _ ↔ _ := h.ends_respond_iff hkeeps hfills hraises
  cases hmethod : method c with
  | ok u c' => exact .inl (hends.2 (.inl ⟨c', hmethod⟩))
  | error e c' =>
    by_cases hcatch : Client.IsClientException e
    · obtain ⟨status, rfl⟩ := hcatch
      exact .inl (hends.2 (.inr ⟨status, c', hmethod⟩))
    · refine .inr ⟨e, { s with clients := s.clients.set i c' }, ?_, hcatch⟩
      rw [run_bind, onClient_eq h.slot, hmethod]

/-! ## The dispatch -/

/-- The path is acted upon: the target was resolved, there is no redirect, and the method is allowed. -/
def Acted (location : ResolvedLocation) (method : RequestMethod) : Prop :=
  location.resolved = true ∧ location.hasRedirect = false ∧ isAllowedMethod location method = true

/-- What the dispatch asks for the index file of a directory is answered. -/
def IndexAnswered (env : Answers) (method : RequestMethod) (location : ResolvedLocation) : Prop :=
  method = .get → location.hasIndex = true → env.fs.isRegularFile location.indexPath ≠ none

/-- What the dispatch asks for a path that does not end in `/` is answered, and a CGI can be started if
there is one. -/
structure FileAnswered (env : Answers) (s : Server) (method : RequestMethod)
    (location : ResolvedLocation) : Prop where
  directory : env.fs.isDirectory location.path ≠ none
  script : env.fs.isDirectory location.path = some false → location.isCgiDirectory = true → CanStart env s
  file : env.fs.isDirectory location.path = some false → location.isCgiDirectory = false →
    method = .get → env.fs.isRegularFile location.path ≠ none
  deleted : env.fs.isDirectory location.path = some false → location.isCgiDirectory = false →
    method ≠ .get → method ≠ .post → env.fs.remove location.path ≠ none

/-- What the dispatch does with the path of a location can be answered. -/
structure Served (env : Answers) (s : Server) (method : RequestMethod) (location : ResolvedLocation) :
    Prop where
  path_ne : location.path ≠ []
  index : location.path.getLast? = some (ch '/') → IndexAnswered env method location
  file : location.path.getLast? ≠ some (ch '/') → FileAnswered env s method location

theorem Served.congr {method : RequestMethod} {location : ResolvedLocation}
    (h : Served env s method location) (hdescriptors : s'.descriptors = s.descriptors)
    (hchildren : s'.children = s.children) : Served env s' method location where
  path_ne := h.path_ne
  index := h.index
  file hslash :=
    have hfile := h.file hslash
    { directory := hfile.directory
      script := fun hno hcgi => (hfile.script hno hcgi).congr hdescriptors hchildren
      file := hfile.file
      deleted := hfile.deleted }

section Dispatch

variable {method : RequestMethod} {location : ResolvedLocation} (h : Answerable config i server s c)
  (hresponse : c.response = []) (hstatus : c.status = .ok)

include h hresponse hstatus

theorem ends_dispatchIndex_iff :
    Ends config env i s (dispatchIndex env i location) ↔
      env.fs.isRegularFile location.indexPath ≠ none := by
  rw [dispatchIndex, ends_askFs_bind]
  constructor
  · rintro ⟨v, hv, -⟩
    rw [hv]
    exact Option.some_ne_none v
  · intro hne
    obtain ⟨isRegularFile, hasked⟩ := Option.ne_none_iff_exists'.1 hne
    refine ⟨isRegularFile, hasked, ends_ite.2 ⟨fun _ => ends_ite.2 ⟨fun _ => ends_ite.2 ⟨fun _ => ?_,
      fun _ => ?_⟩, fun _ => ?_⟩, fun _ => ?_⟩⟩
    · exact h.ends_throw (by decide)
    · exact h.ends_modify_throw ⟨rfl, rfl, rfl, rfl⟩ rfl nofun
    · exact h.ends_throw (by decide)
    · refine (h.ends_respond_iff (Client.keeps_respondWithFile _ _) (Client.fills_respondWithFile _ _)
        Client.raisesPlain_respondWithFile).2 ?_
      exact (Client.copes_respondWithFile_iff hresponse hstatus).2 hne

theorem ends_dispatchDirectory_iff :
    Ends config env i s (dispatchDirectory env i method location) ↔ IndexAnswered env method location := by
  rw [dispatchDirectory, ends_ite, ends_ite, ends_dispatchIndex_iff h hresponse hstatus, ends_ite]
  have hforbidden : Ends config env i s (throw (.clientException .forbidden)) := h.ends_throw (by decide)
  have hlisting : Ends config env i s (onClient i (Client.respondWithDirectoryListing env.fs
      location.path) >>= fun _ => enableWritingToClient i) :=
    (h.ends_respond_iff (Client.keeps_respondWithDirectoryListing _ _)
      (Client.fills_respondWithDirectoryListing _ _) Client.raisesPlain_respondWithDirectoryListing).2
      (Client.copes_respondWithDirectoryListing hresponse hstatus)
  constructor
  · rintro ⟨hget, -⟩ hmethod hindex
    exact (hget hmethod).1 hindex
  · intro hasked
    exact ⟨fun hmethod => ⟨hasked hmethod, fun _ => ⟨fun _ => hlisting, fun _ => hforbidden⟩⟩,
      fun _ => hforbidden⟩

theorem ends_dispatchFile_iff (hs : s.Good) :
    Ends config env i s (dispatchFile env i method location) ↔ FileAnswered env s method location := by
  have hfile : Ends config env i s (onClient i (Client.respondWithFile env.fs location.path) >>=
      fun _ => enableWritingToClient i) ↔ env.fs.isRegularFile location.path ≠ none :=
    (h.ends_respond_iff (Client.keeps_respondWithFile _ _) (Client.fills_respondWithFile _ _)
      Client.raisesPlain_respondWithFile).trans (Client.copes_respondWithFile_iff hresponse hstatus)
  have hcreate : Ends config env i s (onClient i (Client.respondWithCreateFile env.fs location.path) >>=
      fun _ => enableWritingToClient i) :=
    (h.ends_respond_iff (Client.keeps_respondWithCreateFile _ _) (Client.fills_respondWithCreateFile _ _)
      Client.raisesPlain_respondWithCreateFile).2 (Client.copes_respondWithCreateFile hresponse hstatus)
  have hdelete : Ends config env i s (onClient i (Client.respondWithDeleteFile env.fs location.path) >>=
      fun _ => enableWritingToClient i) ↔ env.fs.remove location.path ≠ none :=
    (h.ends_respond_iff (Client.keeps_respondWithDeleteFile _ _) (Client.fills_respondWithDeleteFile _ _)
      Client.raisesPlain_respondWithDeleteFile).trans
      (Client.copes_respondWithDeleteFile_iff hresponse hstatus)
  rw [dispatchFile, ends_askFs_bind]
  constructor
  · rintro ⟨isDirectory, hdirectory, hends⟩
    rw [ends_ite, ends_ite, ends_ite, ends_startCgi_iff hs h.slot, ends_ite, hfile, ends_ite,
      hdelete] at hends
    refine ⟨by rw [hdirectory]; exact Option.some_ne_none _, ?_, ?_, ?_⟩
    all_goals
      intro hno
      rw [hdirectory] at hno
      cases hno
    · exact (hends.2 Bool.false_ne_true).1
    · intro hcgi
      exact ((hends.2 Bool.false_ne_true).2 (by simp [hcgi])).1
    · intro hcgi hget hpost
      exact (((hends.2 Bool.false_ne_true).2 (by simp [hcgi])).2 hget).2 hpost
  · rintro ⟨hdirectory, hscript, hregular, hremove⟩
    obtain ⟨isDirectory, hasked⟩ := Option.ne_none_iff_exists'.1 hdirectory
    refine ⟨isDirectory, hasked, ?_⟩
    rw [ends_ite, ends_ite, ends_ite, ends_startCgi_iff hs h.slot, ends_ite, hfile, ends_ite, hdelete]
    refine ⟨fun _ => ⟨fun _ => h.ends_throw (by decide), fun _ => h.ends_throw (by decide)⟩,
      fun hno => ?_⟩
    rw [Bool.not_eq_true] at hno
    subst hno
    refine ⟨hscript hasked, fun hcgi => ?_⟩
    rw [Bool.not_eq_true] at hcgi
    exact ⟨hregular hasked hcgi, fun hget => ⟨fun _ => hcreate, hremove hasked hcgi hget⟩⟩

/-- The dispatch of a request whose method is allowed looks at the last character of the path. -/
theorem ends_serve_iff (hs : s.Good) :
    Ends config env i s (liftExcept (back location.path) >>= fun last =>
      if last = ch '/' then dispatchDirectory env i method location
      else dispatchFile env i method location) ↔ Served env s method location := by
  rw [ends_lift_bind (uncaught_back _)]
  simp only [ends_ite, ends_dispatchDirectory_iff h hresponse hstatus,
    ends_dispatchFile_iff h hresponse hstatus hs]
  constructor
  · rintro ⟨last, hlast, hindex, hfile⟩
    have hlast' : location.path.getLast? = some last := by
      rw [back] at hlast
      cases hpath : location.path.getLast? with
      | none =>
        rw [hpath] at hlast
        cases hlast
      | some last' =>
        rw [hpath] at hlast
        cases hlast
        rfl
    refine ⟨fun hnil => ?_, fun hslash => hindex ?_, fun hslash => hfile fun heq => hslash ?_⟩
    · rw [hnil] at hlast'
      cases hlast'
    · exact Option.some.inj (hlast'.symm.trans hslash)
    · rw [hlast', heq]
  · rintro ⟨hne, hindex, hfile⟩
    have hlast := List.getLast?_eq_some_getLast hne
    refine ⟨location.path.getLast hne, by rw [back, hlast], fun heq => hindex ?_, fun hslash =>
      hfile fun heq => hslash ?_⟩
    · rw [hlast, heq]
    · exact Option.some.inj (hlast.symm.trans heq)

end Dispatch

/-- What serves a request ends or escapes. -/
theorem decided_serve {method : RequestMethod} {location : ResolvedLocation}
    (h : Answerable config i server s c) (hs : s.Good) :
    Decided config env i s (liftExcept (back location.path) >>= fun last =>
      if last = ch '/' then dispatchDirectory env i method location
      else dispatchFile env i method location) := by
  have hthrow : ∀ {status : Status}, Client.Plain status →
      Decided config env i s (throw (.clientException status)) := fun hplain => .inl (h.ends_throw hplain)
  have hfile : ∀ path, Decided config env i s (onClient i (Client.respondWithFile env.fs path) >>=
      fun _ => enableWritingToClient i) := fun path =>
    h.decided_respond (Client.keeps_respondWithFile _ _) (Client.fills_respondWithFile _ _)
      Client.raisesPlain_respondWithFile
  have hdirectory : Decided config env i s (dispatchDirectory env i method location) := by
    refine .ite (.ite ?_ (.ite ?_ (hthrow (by decide)))) (hthrow (by decide))
    · refine decided_askFs_bind fun _ => .ite (.ite (.ite (hthrow (by decide)) (.inl ?_))
        (hthrow (by decide))) (hfile _)
      exact h.ends_modify_throw ⟨rfl, rfl, rfl, rfl⟩ rfl fun hmoved => absurd hmoved (by decide)
    · exact h.decided_respond (Client.keeps_respondWithDirectoryListing _ _)
        (Client.fills_respondWithDirectoryListing _ _) Client.raisesPlain_respondWithDirectoryListing
  refine decided_lift_bind (uncaught_back _) fun _ _ => .ite hdirectory (decided_askFs_bind fun _ => ?_)
  refine .ite (.ite (hthrow (by decide)) (hthrow (by decide))) (.ite (decided_startCgi hs h.slot)
    (.ite (hfile _) (.ite ?_ ?_)))
  · exact h.decided_respond (Client.keeps_respondWithCreateFile _ _)
      (Client.fills_respondWithCreateFile _ _) Client.raisesPlain_respondWithCreateFile
  · exact h.decided_respond (Client.keeps_respondWithDeleteFile _ _)
      (Client.fills_respondWithDeleteFile _ _) Client.raisesPlain_respondWithDeleteFile

/-- The path of a redirect is not empty. -/
theorem redirect_ne {fs : FileSystem} {requestTarget : Bytes} {locations : List LocationDirective}
    {location : ResolvedLocation} (h : resolveToLocation fs requestTarget locations = .ok location)
    (hredirect : location.hasRedirect = true) : location.path ≠ [] := by
  rcases resolveFrom_eq_ok h with ⟨rfl, -⟩ | ⟨directive, -, -, hlocation⟩
  · cases hredirect
  · rw [resolveLocation] at hlocation
    obtain ⟨canonical, -, hlocation⟩ := except_bind_eq_ok hlocation
    dsimp only at hlocation
    by_cases hne : directive.redirect = []
    · rw [if_neg (by simpa using hne)] at hlocation
      split_ifs at hlocation
      · obtain ⟨path, pathInfo, queryString, rfl⟩ := resolveCgi_ok hlocation
        exact absurd hredirect (by simpa using hne)
      all_goals
        cases hlocation
        exact absurd hredirect (by simpa [resolveIndex] using hne)
    · rw [if_pos (by simpa using hne)] at hlocation
      cases hlocation
      exact hne

/-- What is asked to resolve the target of a request and to serve it is answered, and no path is empty
whose last character is looked at. -/
@[mk_iff]
structure Answered (env : Answers) (s : Server) (c : Client) (locations : List LocationDirective) :
    Prop where
  resolved : Resolvable env.fs c.requestTarget locations
  served : ∀ location, resolveToLocation env.fs c.requestTarget locations = .ok location →
    Acted location c.requestMethod → Served env s c.requestMethod location

theorem Answered.congr {locations : List LocationDirective} (h : Answered env s c locations)
    (hdescriptors : s'.descriptors = s.descriptors) (hchildren : s'.children = s.children) :
    Answered env s' c locations where
  resolved := h.resolved
  served location hlocation hacted := (h.served location hlocation hacted).congr hdescriptors hchildren

/-- **A request is answered exactly if what is asked to resolve and to serve it is answered.** -/
theorem ends_answerRequest_iff (h : Answerable config i server s c) (hs : s.Good)
    (hresponse : c.response = []) (hstatus : c.status = .ok) :
    Ends config env i s (answerRequest config env i c) ↔ Answered env s c server.locations := by
  have hserver : ∀ next : ServerDirective → ServerM Unit,
      Ends config env i s (getServer config i >>= next) ↔ Ends config env i s (next server) := by
    intro next
    simp only [Ends, bind_of_ok h.server]
  rw [answered_iff, answerRequest, hserver, ends_lift_bind (uncaught_resolveToLocation _ _ _),
    ← resolveToLocation_isOk_iff]
  refine (exists_congr fun location => and_congr_right fun hlocation => ?_).trans
    ⟨fun ⟨location, hlocation, hserved⟩ => ⟨⟨location, hlocation⟩, fun location' hlocation' => ?_⟩,
      fun ⟨⟨location, hlocation⟩, hserved⟩ => ⟨location, hlocation, hserved location hlocation⟩⟩
  · rw [ends_ite, ends_ite, ends_ite, ends_serve_iff h hresponse hstatus hs]
    constructor
    · rintro ⟨-, hfound⟩ ⟨hresolved, hredirect, hallowed⟩
      exact ((hfound (by simp [hresolved])).2 (by simp [hredirect])).2 (by simp [hallowed])
    · refine fun hserved => ⟨fun _ => h.ends_throw (by decide), fun hresolved => ⟨fun hredirect => ?_,
        fun hredirect => ⟨fun _ => h.ends_throw (by decide), fun hallowed => ?_⟩⟩⟩
      · exact h.ends_modify_throw ⟨rfl, rfl, rfl, rfl⟩ rfl fun _ => redirect_ne hlocation hredirect
      · exact hserved ⟨by simpa using hresolved, by simpa using hredirect, by simpa using hallowed⟩
  · obtain rfl := Except.ok.inj (hlocation.symm.trans hlocation')
    exact hserved

theorem decided_answerRequest (h : Answerable config i server s c) (hs : s.Good) :
    Decided config env i s (answerRequest config env i c) := by
  have hthrow : ∀ {status : Status}, Client.Plain status →
      Decided config env i s (throw (.clientException status)) := fun hplain => .inl (h.ends_throw hplain)
  have hserver : ∀ next : ServerDirective → ServerM Unit,
      Decided config env i s (getServer config i >>= next) ↔ Decided config env i s (next server) := by
    intro next
    simp only [Decided, Ends, Escapes, bind_of_ok h.server]
  rw [answerRequest, hserver]
  refine decided_lift_bind (uncaught_resolveToLocation _ _ _) fun location hlocation => ?_
  by_cases hredirect : location.hasRedirect = true
  · rw [if_pos hredirect]
    refine .ite (hthrow (by decide)) (.inl ?_)
    exact h.ends_modify_throw ⟨rfl, rfl, rfl, rfl⟩ rfl fun _ => redirect_ne hlocation hredirect
  · rw [if_neg hredirect]
    exact .ite (hthrow (by decide)) (.ite (hthrow (by decide)) (decided_serve h hs))

/-! ## The read that completes a request -/

/-- The state in which the request of a client is dispatched. -/
def dispatching (s : Server) (i : ℕ) (c c' : Client) (received : Bytes) : Server :=
  { s with
    clients := s.clients.set i c'
    calls := .dispatch c' :: .read c.clientFd c received :: s.calls }

/-- The read of a request is an action. -/
theorem Good.dispatching (config : Config) (hs : s.Good) (hi : s.clients[i]? = some c) {received : Bytes}
    {now : ℕ} (happend : Client.appendReadString received { c with timeOfLastRead := now } = .ok () c')
    (hdone : c'.clientToServerState = .done) :
    (s.dispatching i { c with timeOfLastRead := now } c' received).Good := by
  have hnote : Quiet config .handling s
      { s with clients := s.clients.set i { c with timeOfLastRead := now } } := .note hi rfl
  have hi₁ : ({ s with clients := s.clients.set i { c with timeOfLastRead := now } } : Server).clients[i]? =
      some { c with timeOfLastRead := now } := getElem?_set_self_of hi _
  have hc' : c' = finalState (Client.appendReadString received { c with timeOfLastRead := now }) := by
    rw [happend]
    rfl
  have hdispatched := dispatched_of_read hc'
  have hread : Action config .handling _ _ := .change i _ c' _ hi₁
    (.read c' received (some c') false (hc' ▸ Client.kept_appendReadString received _)
      (by
        rintro d ⟨⟩
        exact ⟨hdispatched.1, hdispatched.2, hdone⟩)
      fun _ => ⟨c', happend, rfl⟩)
  have hgood := (hnote.good hs).action hread
  simp only [List.set_set] at hgood
  exact hgood

/-- The read that completes a request dispatches it. -/
theorem readClient_eq {fd : ℤ} {received : Bytes} (hi : s.clients[i]? = some c)
    (hfd : fd = c.clientFd) (happend : Client.appendReadString received c = .ok () c')
    (hdone : c'.clientToServerState = .done) :
    readClient config env i fd received s =
      answerRequest config env i c' (s.dispatching i c c' received) := by
  subst hfd
  have hi' := getElem?_set_self_of hi c'
  have hmethod : onClient i (Client.appendReadString received)
      { s with calls := .read c.clientFd c received :: s.calls } = .ok () { s with
        clients := s.clients.set i c'
        calls := .read c.clientFd c received :: s.calls } := by
    have hlogged : ({ s with calls := .read c.clientFd c received :: s.calls } : Server).clients[i]? =
        some c := hi
    rw [onClient_eq hlogged, happend]
  have hclient : clientAt i { s with
      clients := s.clients.set i c'
      calls := .read c.clientFd c received :: s.calls } = .ok c' _ := clientAt_of hi'
  rw [readClient, bind_of_ok (clientAt_of hi), bind_of_ok (log_of _), bind_of_ok hmethod,
    bind_of_ok hclient, run_ite, if_pos hdone, dispatch, bind_of_ok hclient, bind_of_ok (log_of _)]
  rfl

theorem readFd_eq {received : Bytes} (hi : s.clients[i]? = some c) (hread : env.read = some received)
    (hne : received ≠ []) (hwritten : c.serverToClientState ≠ .done)
    (happend : Client.appendReadString (received.take maxReadLen) { c with timeOfLastRead := env.now } =
      .ok () c') (hdone : c'.clientToServerState = .done) :
    readFd config env i c.clientFd .client s = (answerRequest config env i c' >>= fun _ => pure false)
      (s.dispatching i { c with timeOfLastRead := env.now } c' (received.take maxReadLen)) := by
  have hread' : read env s = .ok (received.take maxReadLen) s := by
    rw [read, hread]
    rfl
  have hne' : received.take maxReadLen ≠ [] := by
    cases received with
    | nil => exact absurd rfl hne
    | cons b received => exact List.cons_ne_nil _ _
  have hi₁ := getElem?_set_self_of hi { c with timeOfLastRead := env.now }
  have hclient := clientAt_of (s := { s with
    clients := s.clients.set i { c with timeOfLastRead := env.now } }) hi₁
  have hreadClient : readClient config env i c.clientFd (received.take maxReadLen) _ = _ :=
    readClient_eq (s := { s with clients := s.clients.set i { c with timeOfLastRead := env.now } }) hi₁
      rfl happend hdone
  have hbytes : readBytes config env i c.clientFd .client (received.take maxReadLen) { s with
      clients := s.clients.set i { c with timeOfLastRead := env.now } } =
        answerRequest config env i c'
          (s.dispatching i { c with timeOfLastRead := env.now } c' (received.take maxReadLen)) := by
    rw [readBytes, bind_of_ok hclient, bind_of_ok (assert_of hwritten), run_ite, if_pos rfl]
    refine hreadClient.trans ?_
    simp only [dispatching, List.set_set]
  rw [readFd, bind_of_ok hread', bind_of_ok (modifyClient_of hi _), run_ite, if_neg hne', run_bind,
    run_bind, hbytes]

/-- A dispatch with its exceptions caught, as `_handlePollin` does it. -/
def caught (config : Config) (env : Answers) (i : ℕ) (x : ServerM Unit) : ServerM Bool :=
  catchClientException (x >>= fun _ => pure false) fun status => do
    respondClientException config env status i
    pure true

/-- What `_handlePollin` does with the bytes that complete a request is the dispatch, with the exceptions
caught. -/
theorem handlePollin_eq {received : Bytes} (hi : s.clients[i]? = some c)
    (hindex : s.fdToClientIndex.lookup c.clientFd = some i) (hread : env.read = some received)
    (hne : received ≠ []) (hwritten : c.serverToClientState ≠ .done)
    (happend : Client.appendReadString (received.take maxReadLen) { c with timeOfLastRead := env.now } =
      .ok () c') (hdone : c'.clientToServerState = .done) :
    handlePollin config env c.clientFd .client s = caught config env i (answerRequest config env i c')
      (s.dispatching i { c with timeOfLastRead := env.now } c' (received.take maxReadLen)) := by
  have hfd : readFd config env i c.clientFd .client s = _ :=
    readFd_eq hi hread hne hwritten happend hdone
  rw [caught, handlePollin, if_neg (by decide), bind_of_ok (assert_of (.inl rfl)),
    bind_of_ok (getClient_of hindex hi), catchClientException, hfd, catchClientException]

/-- A dispatch with its exceptions caught answers what the dispatch ends. -/
theorem caught_ends_iff {t : Server} :
    (∃ skip s', caught config env i x t = .ok skip s' ∧ (Responding i s' ∨ RunsCgi i s')) ↔
      Ends config env i t x := by
  rw [caught, catchClientException, run_bind, Ends]
  cases hanswer : x t with
  | ok u s' =>
    constructor
    · rintro ⟨skip, s'', ⟨⟩, hended⟩
      exact .inl ⟨s', rfl, hended⟩
    · rintro (⟨s'', ⟨⟩, hended⟩ | ⟨status, s₁, s'', h, -⟩)
      · exact ⟨false, s', rfl, hended⟩
      · cases h
  | error e s₁ =>
    dsimp only
    by_cases hcatch : Client.IsClientException e
    · obtain ⟨status, rfl⟩ := hcatch
      dsimp only
      constructor
      · rintro ⟨skip, s', h, hended⟩
        obtain ⟨_, s'', hrespond, h⟩ := bind_eq_ok h
        cases h
        exact .inr ⟨status, s₁, s', rfl, hrespond, hended⟩
      · rintro (⟨s'', h, -⟩ | ⟨status, s₁, s', ⟨⟩, hrespond, hended⟩)
        · cases h
        · exact ⟨true, s', by rw [bind_of_ok hrespond, run_pure], hended⟩
    · refine iff_of_false ?_ ?_
      · rintro ⟨skip, s', h, -⟩
        cases e <;> first | cases h | exact hcatch ⟨_, rfl⟩
      · rintro (⟨s'', h, -⟩ | ⟨status, s₁, s'', h, -⟩)
        · cases h
        · cases h
          exact hcatch ⟨status, rfl⟩

/-- What does not end leaves, although exceptions are caught. -/
theorem caught_escapes_iff {t : Server} (h : Decided config env i t x) :
    (∃ e s', caught config env i x t = .error e s' ∧ ¬ Client.IsClientException e) ↔
      ¬ Ends config env i t x := by
  rw [← h.escapes_iff]
  constructor
  · rintro ⟨e, s', hcaught, hcatch⟩
    refine h.resolve_left fun hends => ?_
    obtain ⟨skip, s'', hok, -⟩ := caught_ends_iff.2 hends
    cases hcaught.symm.trans hok
  · rintro ⟨e, s', herror, hcatch⟩
    refine ⟨e, s', ?_, hcatch⟩
    rw [caught, catchClientException, bind_of_error herror]
    cases e <;> first | rfl | exact absurd ⟨_, rfl⟩ hcatch

theorem getServerIndex_state {index : ℕ}
    (h : getServerIndexFromClientServerName config c s = .ok index s)
    (hbind : s'.bindFdToServerIndices = s.bindFdToServerIndices) :
    getServerIndexFromClientServerName config c s' = .ok index s' := by
  rw [getServerIndexFromClientServerName, run_bind, run_get] at h ⊢
  dsimp only at h ⊢
  obtain ⟨indices, s₁, hlookup, h⟩ := bind_eq_ok h
  obtain ⟨rfl, hindices⟩ := lookupAt_ok hlookup
  obtain ⟨found, s₁, hfound, h⟩ := bind_eq_ok h
  obtain rfl := findServerIndex_ok hfound
  rw [bind_of_ok (lookupAt_of (by rw [hbind, hindices])), bind_of_ok (findServerIndex_state hfound s')]
  cases hchoice : found.or indices.head? with
  | none =>
    rw [hchoice] at h
    cases h
  | some index' =>
    rw [hchoice] at h
    cases h
    rfl

end Server

namespace World

open Server

variable {w : World}

/-- Every state of a run is reached by steps. -/
theorem Reachable.exists_run {config : Config} (h : Reachable config w) : ∃ bindFds s envs,
    listen config.bindInfos bindFds Server.empty = .ok () s ∧
      World.run config envs { server := s } = .ok () w := by
  induction h with
  | start h =>
    obtain ⟨bindFds, s, hlisten, rfl⟩ := h
    exact ⟨bindFds, s, [], hlisten, rfl⟩
  | @step w w' env _ hstep ih =>
    obtain ⟨bindFds, s, envs, hlisten, hrun⟩ := ih
    refine ⟨bindFds, s, envs ++ [env], hlisten, ?_⟩
    generalize ({ server := s } : World) = start at hrun
    induction envs generalizing start with
    | nil =>
      cases hrun
      rw [List.nil_append, World.run, bind_of_ok hstep]
      rfl
    | cons env' envs ih =>
      obtain ⟨_, w₁, hstep', hrun⟩ := bind_eq_ok hrun
      rw [List.cons_append, World.run, bind_of_ok hstep']
      exact ih _ hrun

/-- **What the dispatch of a request needs not to escape**: the read that completes the request of a
client ends with a response or a CGI exactly if all that the dispatch asks for is answered and no path is
empty, and otherwise what leaves `_handlePollin` is no `ClientException`. -/
theorem dispatch_contained_iff {getaddrinfo : Bytes → Bytes → Option BindInfo} {root : Node}
    {parsed : ParsedConfig} (hparse : Config.parse getaddrinfo root = .ok parsed)
    (h : Reachable parsed.toConfig w) {i : ℕ} {c c' : Client} {env : Answers} {received : Bytes}
    (hi : w.server.clients[i]? = some c) (hunread : c.clientToServerState ≠ .done)
    (hread : env.read = some received) (hne : received ≠ [])
    (happend : Client.appendReadString (received.take maxReadLen) { c with timeOfLastRead := env.now } =
      .ok () c') (hdone : c'.clientToServerState = .done) :
    ∃ index server,
      getServerIndexFromClientServerName parsed.toConfig c' w.server = .ok index w.server ∧
      parsed.toConfig.servers[index]? = some server ∧
      ((∃ skip s', handlePollin parsed.toConfig env c.clientFd .client w.server = .ok skip s' ∧
          (Responding i s' ∨ RunsCgi i s')) ↔ Answered env w.server c' server.locations) ∧
      ((∃ e s', handlePollin parsed.toConfig env c.clientFd .client w.server = .error e s' ∧
          ¬ Client.IsClientException e) ↔ ¬ Answered env w.server c' server.locations) := by
  have hs := h.good.server
  have hsame := Client.sameParsing_appendReadString (received.take maxReadLen)
    { c with timeOfLastRead := env.now }
  rw [happend] at hsame
  have hparsed := hsame.unparsed_eq
  -- the virtual server of the client
  obtain ⟨bindFds, s, envs, hlisten, hrun⟩ := h.exists_run
  obtain ⟨-, -, indices, -, -, hbounds, hselect⟩ :=
    selects_of_run hparse hlisten hrun (List.mem_of_getElem? hi)
  obtain ⟨index, hindex, hselects⟩ := hselect c'.serverName
  have hserver := List.getElem?_eq_getElem (hbounds index hselects.mem)
  have hindex' : getServerIndexFromClientServerName parsed.toConfig c' w.server = .ok index w.server := by
    have hfd : c'.serverFd = c.serverFd := (congrArg Client.serverFd hparsed :)
    rw [getServerIndexFromClientServerName, hfd]
    exact hindex
  refine ⟨index, _, hindex', hserver, ?_⟩
  -- the client when its request is dispatched
  have hfresh := (hs.sound_at hi).unread hunread
  have hstatus : c'.status = .ok := (congrArg Client.status hparsed).trans (h.unmarked i c hi hunread)
  have hresponse : c'.response = [] := (congrArg Client.response hparsed).trans hfresh.response
  have hfd : c'.clientFd = c.clientFd := (congrArg Client.clientFd hparsed :)
  have hwritten : c.serverToClientState ≠ .done := by
    rw [hfresh.serverToClientState]
    exact ServerToClientState.noConfusion
  rw [handlePollin_eq hi (hs.index_clientFd hi) hread hne hwritten happend hdone]
  generalize hstart : w.server.dispatching i { c with timeOfLastRead := env.now } c'
    (received.take maxReadLen) = t
  have hclients : t.clients[i]? = some c' := hstart ▸ getElem?_set_self_of hi c'
  have hs' : t.Good := hstart ▸ hs.dispatching parsed.toConfig hi happend hdone
  have hserver' : getServer parsed.toConfig i t = .ok _ t :=
    getServer_of hclients (getServerIndex_state hindex' (hstart ▸ rfl)) hserver
  have hanswerable : Answerable parsed.toConfig i _ t c' :=
    { slot := hclients
      index := hs'.index_clientFd hclients
      entry := entry_of_indexed hs'.indexed (hs'.held i c' .client hclients (hs'.clientFd_ne hclients)).1.1
      noCgi := (congrArg Client.cgiPid hparsed).trans hfresh.noCgi.cgiPid
      server := hserver' }
  have hiff : Ends parsed.toConfig env i t _ ↔ _ := ends_answerRequest_iff hanswerable hs' hresponse hstatus
  have hdescriptors : t.descriptors = w.server.descriptors := by
    rw [← hstart]
    rfl
  have hchildren : t.children = w.server.children := by
    rw [← hstart]
    rfl
  have hsame' : ∀ locations, Answered env t c' locations ↔ Answered env w.server c' locations :=
    fun _ => ⟨fun h => h.congr hdescriptors.symm hchildren.symm, fun h => h.congr hdescriptors hchildren⟩
  rw [caught_escapes_iff (decided_answerRequest hanswerable hs'), caught_ends_iff, hiff, hsame']
  exact ⟨Iff.rfl, Iff.rfl⟩

/-- A client reads a request. -/
def getAnswers : Answers := { read := some getRequest }

theorem dispatch_contained_shared : ∃ c skip s',
    (after sharedParsed.toConfig [3] connectAnswers).server.clients[0]? = some c ∧
      handlePollin sharedParsed.toConfig getAnswers c.clientFd .client
        (after sharedParsed.toConfig [3] connectAnswers).server = .ok skip s' ∧
      (Responding 0 s' ∨ RunsCgi 0 s') := by
  have hparse : Config.parse Config.someAddress sharedTree = .ok sharedParsed := by
    obtain ⟨parsed, hparse⟩ := Config.exists_parse sharedTree (by decide +kernel)
    rw [sharedParsed, hparse]
  have hlocations : ∀ server ∈ sharedParsed.toConfig.servers, server.locations = [] := by
    decide +kernel
  have hreachable : Reachable sharedParsed.toConfig (after sharedParsed.toConfig [3] connectAnswers) :=
    reachable_after (by decide +kernel) (by decide +kernel)
  have hcomplete : ((after sharedParsed.toConfig [3] connectAnswers).server.clients[0]?.any fun c =>
      decide (c.clientToServerState ≠ .done) &&
        ((thrown (Client.appendReadString (getRequest.take maxReadLen)
            { c with timeOfLastRead := 0 })).isNone &&
          decide ((finalState (Client.appendReadString (getRequest.take maxReadLen)
            { c with timeOfLastRead := 0 })).clientToServerState = .done))) = true := by
    unfold after
    decide +kernel
  obtain ⟨c, hi, hcomplete⟩ := (Option.any_eq_true _ _).1 hcomplete
  rw [Bool.and_eq_true, Bool.and_eq_true, decide_eq_true_iff, decide_eq_true_iff] at hcomplete
  obtain ⟨hunread, hnone, hdone⟩ := hcomplete
  have hread : getAnswers.read = some getRequest := rfl
  obtain ⟨index, server, -, hserver, hends, -⟩ := dispatch_contained_iff hparse hreachable hi hunread
    hread (by decide) (eq_ok_of_thrown (Option.isNone_iff_eq_none.1 hnone)) hdone
  have hempty := hlocations server (List.mem_of_getElem? hserver)
  rw [hempty] at hends
  obtain ⟨skip, s', hpollin, hended⟩ := hends.2 ⟨resolveToLocation_isOk_iff.1 ⟨{}, rfl⟩,
    fun location hlocation hacted => by
      cases hlocation
      cases hacted.1⟩
  exact ⟨c, skip, s', hi, hpollin, hended⟩

end World
end Webserv
