import Webserv.Client.Answering
import Webserv.Client.ResponseFraming
import Webserv.Server.Frames

/-!
# What the steps of a run do besides answering

Most of what the server does has nothing to do with what its clients are sent: it changes its tables, it
closes descriptors, it starts and kills CGIs, and it stops reading from connections. What is kept by all
of this (`Aside`) is kept by the steps of a run, if it is kept by the functions that accept, answer, write
to and remove clients (`Rounds`).
-/

namespace Webserv

open Exec

namespace Client

/-- What a client is sent, where to, and how much of it is gone. -/
def outgoing (c : Client) : (Headers × List Bytes) × Status × ℤ × ServerToClientState × Bytes × ℕ :=
  (c.texts, c.status, c.clientFd, c.serverToClientState, c.response, c.responseIndex)

/-- Every way to a response changes nothing else of the client. -/
theorem keeps_respond {fs : FileSystem} (way : Way) : Keeps unsent (way.respond fs) := by
  have hunsent : ∀ {method : ClientM Unit}, Keeps unanswered method → Keeps unsent method :=
    fun h => h.of_comp (fun c : Client => { c with responseIndex := 0 }) fun _ => rfl
  cases way with
  | file path => exact hunsent (keeps_respondWithFile fs path)
  | directoryListing path => exact hunsent (keeps_respondWithDirectoryListing fs path)
  | createFile path => exact hunsent (keeps_respondWithCreateFile fs path)
  | deleteFile path => exact hunsent (keeps_respondWithDeleteFile fs path)
  | error errorPages => exact keeps_respondWithError fs errorPages
  | cgi =>
    exact hunsent (.bind keeps_extractCGIDocumentResponseHeaders fun _ =>
      keeps_prependResponseHeader fun _ _ => rfl)

end Client

/-- The call tells nothing of the clients there are, nor of what they are sent. -/
def Call.isAside : Call → Bool
  | acceptClient _ => false
  | removeClient _ => false
  | write _ _ => false
  | _ => true

namespace Server

variable {config : Config} {env : Answers} {I : Server → Prop} {s s' : Server} {α : Type}

/-! ## What clients are not concerned with -/

/-- What is kept by everything that has nothing to do with what clients are sent. -/
structure Aside (I : Server → Prop) : Prop where
  others : ∀ {s s' : Server}, s'.clients = s.clients → s'.bindFdToPort = s.bindFdToPort →
    s'.calls = s.calls → I s → I s'
  client : ∀ {s : Server} {j : ℕ} {c c' : Client}, I s → s.clients[j]? = some c →
    c'.outgoing = c.outgoing → (c'.clientToServerState = c.clientToServerState ∨
      c'.clientToServerState = .done) → I { s with clients := s.clients.set j c' }
  call : ∀ {s : Server} {call : Call}, I s → call.isAside = true → I { s with calls := call :: s.calls }

/-- From `P` the program returns in `Q`, if it returns. -/
abbrev Returns (P : Server → Prop) (x : ServerM α) (Q : Server → Prop) : Prop :=
  Leads P x (fun _ => Q) fun _ => True

theorem returns_of_preserves {x : ServerM α} (h : Preserves I x) : Returns I x I :=
  h.leads fun _ _ => trivial

theorem Returns.mono {P P' Q Q' : Server → Prop} {x : ServerM α} (h : Returns P x Q)
    (hP : ∀ s, P' s → P s) (hQ : ∀ s, Q s → Q' s) : Returns P' x Q' :=
  Leads.mono h hP (fun _ => hQ) fun _ _ => trivial

/-- What is known of the client in a slot may be used after it was read. -/
theorem leads_clientAt {P E : Server → Prop} (hE : ∀ s, P s → E s) (i : ℕ) :
    Leads P (clientAt i) (fun c s => P s ∧ s.clients[i]? = some c) E := by
  intro s hs
  rw [clientAt_eq]
  cases hi : s.clients[i]? with
  | none => exact hE s hs
  | some c => exact ⟨hs, hi⟩

theorem leads_assert {P E : Server → Prop} (hE : ∀ s, P s → E s) (p : Prop) [Decidable p] :
    Leads P (assert p) (fun _ s => P s ∧ p) E := by
  intro s hs
  rw [assert, run_ite]
  split_ifs with hp
  · exact ⟨hs, hp⟩
  · exact hE s hs

/-- A method leads where it leads from the client in the slot. -/
theorem leads_onClient {P E : Server → Prop} {Q : α → Server → Prop} {i : ℕ} {method : ClientM α}
    (hE : ∀ s, P s → E s)
    (hok : ∀ {s c a c'}, P s → s.clients[i]? = some c → method c = .ok a c' →
      Q a { s with clients := s.clients.set i c' })
    (herror : ∀ {s c e c'}, P s → s.clients[i]? = some c → method c = .error e c' →
      E { s with clients := s.clients.set i c' }) : Leads P (onClient i method) Q E := by
  intro s hs
  cases hi : s.clients[i]? with
  | none =>
    have hthrow : clientAt i s = .error .undefinedBehaviour s := by rw [clientAt_eq, hi]
    rw [onClient, bind_of_error hthrow]
    exact hE s hs
  | some c =>
    rw [onClient_eq hi]
    cases hm : method c with
    | ok a c' => exact hok hs hi hm
    | error e c' => exact herror hs hi hm

/-- The same for a method that cannot throw. -/
theorem leads_modifyClient {P E Q : Server → Prop} {i : ℕ} {f : Client → Client} (hE : ∀ s, P s → E s)
    (hf : ∀ {s c}, P s → s.clients[i]? = some c → Q { s with clients := s.clients.set i (f c) }) :
    Leads P (modifyClient i f) (fun _ => Q) E := by
  refine leads_onClient hE (fun {s c a c'} hs hi hmethod => ?_) fun {s c e c'} _ _ hmethod => ?_
  · cases hmethod
    exact hf hs hi
  · cases hmethod

namespace Aside

variable (h : Aside I)

include h

theorem modify {f : Server → Server} (hclients : ∀ s, (f s).clients = s.clients)
    (hports : ∀ s, (f s).bindFdToPort = s.bindFdToPort) (hcalls : ∀ s, (f s).calls = s.calls) :
    Preserves I (modify f : ServerM PUnit) :=
  .modify fun s hs => h.others (hclients s) (hports s) (hcalls s) hs

theorem log {call : Call} (hcall : call.isAside = true) : Preserves I (Server.log call) :=
  .modify fun _ hs => h.call hs hcall

theorem modifyClient (j : ℕ) {f : Client → Client} (hf : ∀ c, (f c).outgoing = c.outgoing)
    (hstate : ∀ c, (f c).clientToServerState = c.clientToServerState ∨
      (f c).clientToServerState = .done) : Preserves I (Server.modifyClient j f) :=
  (leads_modifyClient (fun _ hs => hs) fun hs hj => h.client hs hj (hf _) (hstate _)).preserves

theorem modifyPfd (k : ℕ) (f : Pollfd → Pollfd) : Preserves I (Server.modifyPfd k f) := by
  refine .bind .get fun s => ?_
  split
  · exact h.modify (fun _ => rfl) (fun _ => rfl) fun _ => rfl
  · exact .throw _

/-! ### Descriptors -/

theorem close (fd : ℤ) : Preserves I (Server.close fd) :=
  .bind .get fun _ => .bind (h.log rfl) fun _ => .bind .get fun _ =>
    .ite (fun _ => h.modify (fun _ => rfl) (fun _ => rfl) fun _ => rfl) fun _ => .throw _

theorem addFd (fd : ℤ) (fdType : FdType) (events : Events) : Preserves I (Server.addFd fd fdType events) :=
  .bind (preserves_assert _) fun _ => .bind (h.log rfl) fun _ =>
    h.modify (fun _ => rfl) (fun _ => rfl) fun _ => rfl

theorem addClientFd (fd : ℤ) (j : ℕ) (fdType : FdType) (events : Events) :
    Preserves I (Server.addClientFd fd j fdType events) :=
  .bind (preserves_assert _) fun _ =>
    .bind (h.modify (fun _ => rfl) (fun _ => rfl) fun _ => rfl) fun _ => h.addFd fd fdType events

theorem removePfd (fd : ℤ) : Preserves I (Server.removePfd fd) := by
  have hswap : ∀ k, Preserves I (swapRemovePfd k) := fun k => by
    refine .bind .get fun s => ?_
    split
    · exact h.modify (fun _ => rfl) (fun _ => rfl) fun _ => rfl
    · exact .throw _
  refine .bind .get fun _ => .bind (preserves_lookupAt _ _) fun k => .bind .get fun s => ?_
  split
  · exact .throw _
  · exact .bind (h.modify (fun _ => rfl) (fun _ => rfl) fun _ => rfl) fun _ => .bind (hswap k) fun _ =>
      h.modify (fun _ => rfl) (fun _ => rfl) fun _ => rfl

theorem removeClientFd (fd : ℤ) : Preserves I (Server.removeClientFd fd) :=
  .bind (preserves_assert _) fun _ =>
    .bind (h.modify (fun _ => rfl) (fun _ => rfl) fun _ => rfl) fun _ =>
      .bind (preserves_assert _) fun _ => .bind (h.removePfd fd) fun _ =>
        .bind (h.modify (fun _ => rfl) (fun _ => rfl) fun _ => rfl) fun _ => h.close fd

theorem removePipeFd {fdType : FdType} (hpipe : fdType.IsPipe) (fd : ℤ) :
    Preserves I (Server.removePipeFd fdType fd) := by
  refine .bind (preserves_assert _) fun _ => .bind (preserves_getClient fd) fun j => ?_
  refine .bind (preserves_clientAt j) fun c => .ite (fun _ => .pure _) fun _ => ?_
  refine .bind (h.removeClientFd _) fun _ => ?_
  rcases hpipe with rfl | rfl
  · exact h.modifyClient j (fun _ => rfl) fun _ => .inl rfl
  · exact h.modifyClient j (fun _ => rfl) fun _ => .inl rfl

theorem shutDownServers : Preserves I (Server.shutDownServers env) := by
  have hfds : ∀ fds, Preserves I (shutDownFds fds) := by
    intro fds
    induction fds with
    | nil => exact .pure _
    | cons fd fds ih =>
      exact .bind (.bind .get fun _ => .ite (fun _ => .bind (h.removePfd fd) fun _ => h.close fd)
        fun _ => .pure _) fun _ => ih
  exact .bind .get fun _ => hfds _

/-! ### CGIs -/

theorem killCgi (fd : ℤ) : Preserves I (Server.killCgi env fd) := by
  have hkill : Preserves I (kill env) := .ite (fun _ => .pure _) fun _ => .throw _
  refine .bind (preserves_getClient fd) fun j => .bind (preserves_clientAt j) fun c => ?_
  refine .ite (fun _ => .bind hkill fun _ => ?_) fun _ => .pure _
  exact .bind (h.modifyClient j (fun _ => rfl) fun _ => .inl rfl) fun _ => h.removePipeFd (.inr rfl) fd

theorem enableWritingToCgi (j : ℕ) : Preserves I (Server.enableWritingToCgi j) :=
  .bind (preserves_clientAt j) fun _ => .bind (preserves_assert _) fun _ =>
    .bind (preserves_assert _) fun _ => .bind .get fun _ => .bind (preserves_lookupAt _ _) fun _ =>
      .bind (h.modifyPfd _ _) fun _ => h.modifyClient j (fun _ => rfl) fun _ => .inl rfl

theorem disableReadingFromClient (j : ℕ) : Preserves I (Server.disableReadingFromClient j) :=
  .bind (preserves_clientAt j) fun _ => .bind .get fun _ => .bind (preserves_lookupAt _ _) fun _ =>
    .bind (h.modifyPfd _ _) fun _ => h.modifyClient j (fun _ => rfl) fun _ => .inr rfl

theorem startCgi (i : ℕ) : Preserves I (Server.startCgi env i) := by
  have hpipe : ∀ proposed, Preserves I (pipe proposed) := by
    intro proposed
    refine .bind_get fun s hs => ?_
    split
    · refine .ite (fun _ => .bind (.set ?_) fun _ => .pure _) fun _ => .throw _
      exact h.others (s := s) rfl rfl rfl hs
    · exact .throw _
  have hfork : Preserves I (fork env) := by
    refine .bind_get fun s hs => ?_
    split
    · refine .ite (fun _ => .bind (.set ?_) fun _ => .pure _) fun _ => .throw _
      exact h.others (s := s) rfl rfl rfl hs
    · exact .throw _
  have hto : ∀ j fd, Preserves I (connectServerToCgi i j fd) := fun j fd =>
    .bind (preserves_clientAt i) fun _ => .ite (fun _ => h.close fd) fun _ =>
      .bind (h.addClientFd _ _ _ _) fun _ => .bind (h.modifyClient i (fun _ => rfl) fun _ => .inl rfl)
        fun _ => h.enableWritingToCgi i
  have hfrom : ∀ j fd, Preserves I (connectCgiToServer i j fd) := fun j fd =>
    .bind (h.addClientFd _ _ _ _) fun _ => h.modifyClient i (fun _ => rfl) fun _ => .inl rfl
  refine .bind (hpipe _) fun _ => .bind (hpipe _) fun _ => .bind hfork fun _ => ?_
  refine .bind (h.close _) fun _ => .bind (h.close _) fun _ => .bind (preserves_clientAt i) fun _ => ?_
  refine .bind (h.modifyClient i (fun _ => rfl) fun _ => .inl rfl) fun _ => ?_
  refine .bind (h.modify (fun _ => rfl) (fun _ => rfl) fun _ => rfl) fun _ => .bind .get fun _ => ?_
  refine .bind (preserves_lookupAt _ _) fun j => .bind (hto j _) fun _ => .bind (hfrom j _) fun _ => ?_
  exact .bind (h.log rfl) fun _ => h.modify (fun _ => rfl) (fun _ => rfl) fun _ => rfl

end Aside

/-! ## Answering, accepting and reaping -/

/-- **Where the dispatch of a request leads**, if the ways to a response and the start of a CGI lead there,
and the changes before an exception do no harm. -/
theorem leads_answerRequest {P Q E : Server → Prop} {i : ℕ} {d : Client} (hE : ∀ s, P s → E s)
    (hrespond : ∀ way : Client.Way, Leads P
      (onClient i (way.respond env.fs) >>= fun _ => enableWritingToClient i) (fun _ => Q) E)
    (hcgi : Leads P (startCgi env i) (fun _ => Q) E)
    (hredirect : ∀ redirect, Leads P (modifyClient i fun c => { c with redirect := redirect })
      (fun _ => E) E)
    (hindex : ∀ target, Leads P (modifyClient i fun c => { c with requestTarget := target })
      (fun _ => E) E) :
    Leads P (answerRequest config env i d) (fun _ => Q) E := by
  have hthrow : ∀ {P' : Server → Prop} (fault : Fault), (∀ s, P' s → E s) →
      Leads P' (throw fault : ServerM Unit) (fun _ => Q) E := fun _ hE s hs => hE s hs
  have hlift : ∀ {γ : Type} (a : Except Fault γ), Leads P (liftExcept a) (fun _ => P) E := by
    intro γ a s hs
    cases a with
    | ok b => exact hs
    | error e => exact hE s hs
  have hserver : Leads P (getServer config i) (fun _ => P) E :=
    (preserves_of_reads (reads_getServer i)).leads hE
  refine .bind hserver fun server => .bind (hlift _) fun location => ?_
  have hdirectory : Leads P (dispatchDirectory env i d.requestMethod location) (fun _ => Q) E := by
    refine .ite (.ite ?_ (.ite (hrespond (.directoryListing _)) (hthrow _ hE))) (hthrow _ hE)
    refine .bind (hlift _) fun _ => .ite (.ite ?_ (hthrow _ hE)) (hrespond (.file _))
    refine .ite (hthrow _ hE) (.bind (hindex _) fun _ => ?_)
    exact hthrow _ fun _ hs => hs
  have hfile : Leads P (dispatchFile env i d.requestMethod location) (fun _ => Q) E := by
    refine .bind (hlift _) fun _ =>
      .ite (.ite (hthrow _ hE) (hthrow _ hE)) (.ite hcgi (.ite (hrespond (.file _)) ?_))
    exact .ite (hrespond (.createFile _)) (hrespond (.deleteFile _))
  refine .ite (hthrow _ hE) (.ite ?_ (.ite (hthrow _ hE) ?_))
  · exact .bind (hredirect _) fun _ => hthrow _ fun _ hs => hs
  · exact .bind (hlift _) fun _ => .ite hdirectory hfile

theorem acceptClient_ok {serverFd : ℤ} {u : Unit} (h : acceptClient config env serverFd s = .ok u s') :
    ∃ fd port, s.CanOpen fd ∧ s.bindFdToPort.lookup serverFd = some port ∧
      s' = { s.connect fd s.clients.length .client { pollin := true } with
        descriptors := s.descriptors.insert fd FdType.client
        clients := s.clients ++ [Client.new fd serverFd port config.clientMaxBodySize]
        calls := .acceptClient fd :: .addFd fd .client :: s.calls } := by
  obtain ⟨fd, _, haccept, h⟩ := bind_eq_ok h
  obtain ⟨hopen, -, rfl⟩ := accept_ok haccept
  obtain ⟨_, s₁, hfcntl, h⟩ := bind_eq_ok h
  obtain rfl := fcntl_ok hfcntl
  obtain ⟨_, _, ⟨⟩, h⟩ := bind_eq_ok h
  obtain ⟨_, s₂, hadd, h⟩ := bind_eq_ok h
  obtain rfl := addClientFd_ok hadd
  obtain ⟨_, _, ⟨⟩, h⟩ := bind_eq_ok h
  obtain ⟨port, _, hport, h⟩ := bind_eq_ok h
  obtain ⟨rfl, hlookup⟩ := lookupAt_ok hport
  obtain ⟨_, _, ⟨⟩, h⟩ := bind_eq_ok h
  cases h
  exact ⟨fd, port, hopen, hlookup, rfl⟩

/-- The constructor accepts nobody. -/
theorem clients_listen {bindInfos : List (Bytes × List ℕ)} {bindFds : List ℤ} {u : Unit}
    (h : listen bindInfos bindFds s = .ok u s') : s'.clients = s.clients := by
  induction bindInfos generalizing s bindFds with
  | nil =>
    cases h
    rfl
  | cons bindInfo bindInfos ih =>
    obtain ⟨port, indices⟩ := bindInfo
    cases bindFds with
    | nil => cases h
    | cons bindFd bindFds =>
      obtain ⟨_, s₁, hsocket, h⟩ := bind_eq_ok h
      obtain ⟨-, rfl⟩ := socket_ok hsocket
      obtain ⟨_, _, ⟨⟩, h⟩ := bind_eq_ok h
      obtain ⟨_, s₂, hadd, h⟩ := bind_eq_ok h
      obtain rfl := addFd_ok hadd
      have hclients := ih h
      exact hclients

/-- The request of the client in a slot is complete. -/
def DoneAt (i : ℕ) (s : Server) : Prop :=
  ∀ c, s.clients[i]? = some c → c.clientToServerState = .done

theorem doneAt_set {i : ℕ} {c c' : Client} (hi : s.clients[i]? = some c)
    (hdone : c'.clientToServerState = .done) : DoneAt i { s with clients := s.clients.set i c' } := by
  intro d hd
  obtain rfl := Option.some.inj (hd.symm.trans (getElem?_set_self_of hi c'))
  exact hdone

theorem Aside.doneAt (h : Aside I) (i : ℕ) : Aside fun s => I s ∧ s.DoneAt i where
  others hclients hports hcalls hs :=
    ⟨h.others hclients hports hcalls hs.1, fun c hi => hs.2 c (hclients ▸ hi)⟩
  client hs hj houtgoing hstate := by
    refine ⟨h.client hs.1 hj houtgoing hstate, fun d hi => ?_⟩
    rcases getElem?_set_cases hi with ⟨rfl, rfl⟩ | ⟨-, hi⟩
    · rcases hstate with hsame | hdone
      · exact hsame.trans (hs.2 _ hj)
      · exact hdone
    · exact hs.2 d hi
  call hs hcall := ⟨h.call hs.1 hcall, hs.2⟩

/-! ## The steps -/

/-- What is also kept by the functions that accept, answer, write to and remove clients, when they
return. A CGI only ends for a client whose request is complete. -/
structure Rounds (config : Config) (I : Server → Prop) : Prop extends Aside I where
  handlePollin : ∀ {env s s' fd fdType skip}, s.Good → I s → s.fdToFdType.lookup fd = some fdType →
    handlePollin config env fd fdType s = .ok skip s' → I s'
  writeToClient : ∀ {env s s' i u}, s.Good → I s → writeToClient env i s = .ok u s' → I s'
  writeToCgi : ∀ {env s s' i u}, s.Good → I s → writeToCgi env i s = .ok u s' → I s'
  cgiEnd : ∀ env i, Returns (fun s => I s ∧ s.DoneAt i) (cgiEnd config env i) I
  removeClient : ∀ env fd, Preserves I (removeClient env fd)

namespace Rounds

variable (h : Rounds config I)

include h

theorem pollhupCgiToServer (fd : ℤ) : Returns I (Server.pollhupCgiToServer config env fd) I := by
  refine .bind (returns_of_preserves (preserves_getClient fd)) fun i => ?_
  have haside := h.toAside.doneAt i
  have hdone : Returns I (modifyClient i fun c => { c with clientToServerState := .done })
      (fun s => I s ∧ s.DoneAt i) := by
    exact leads_modifyClient (fun _ _ => trivial) fun hs hi =>
      ⟨h.client hs hi rfl (.inr rfl), doneAt_set hi rfl⟩
  refine .bind hdone fun _ => .bind (returns_of_preserves (haside.removePipeFd (.inl rfl) fd)) fun _ => ?_
  refine .bind (returns_of_preserves (haside.removePipeFd (.inr rfl) fd)) fun _ => ?_
  refine .bind (returns_of_preserves (preserves_clientAt i)) fun c => ?_
  refine .bind (returns_of_preserves (haside.log rfl)) fun _ => .ite (h.cgiEnd env i) ?_
  exact (returns_of_preserves (.pure _)).mono (fun _ hs => hs) fun _ hs => hs.1

theorem reapClient (childPid : ℤ) (exitStatus : Option ℤ) :
    Returns I (Server.reapClient config env childPid exitStatus) I := by
  refine .bind (returns_of_preserves .get) fun _ => ?_
  refine .bind (returns_of_preserves (preserves_lookupAt _ _)) fun clientFd => ?_
  refine .bind (returns_of_preserves .get) fun _ => ?_
  refine .bind (returns_of_preserves (preserves_lookupAt _ _)) fun i s hs => ?_
  rw [run_bind, run_get]
  dsimp only
  cases hi : s.clients[i]? with
  | none => trivial
  | some c =>
    have haside := h.toAside.doneAt i
    have herase : Returns (fun s => I s ∧ s.clients[i]? = some c)
        (modify fun s => { s with cgiPidToClientFd := s.cgiPidToClientFd.erase c.cgiPid })
        (fun s => I s ∧ s.clients[i]? = some c) :=
      returns_of_preserves (.modify fun s hs => ⟨h.others (s := s) rfl rfl rfl hs.1, hs.2⟩)
    have hreaped : Returns (fun s => I s ∧ s.clients[i]? = some c)
        (modifyClient i fun c => { c with cgiPid := -1 })
        (fun s => I s ∧ (c.clientToServerState = .done → s.DoneAt i)) := by
      refine leads_modifyClient (fun _ _ => trivial) fun {s d} hs hd => ?_
      obtain rfl := Option.some.inj (hd.symm.trans hs.2)
      exact ⟨h.client hs.1 hd rfl (.inl rfl), fun hdone => doneAt_set hd hdone⟩
    have hdone : Returns (fun s => I s ∧ (c.clientToServerState = .done → s.DoneAt i))
        (assert (c.clientToServerState = .done)) (fun s => I s ∧ s.DoneAt i) :=
      (leads_assert (fun _ _ => trivial) _).mono (fun _ hs => hs)
        (fun _ _ hs => ⟨hs.1.1, hs.1.2 hs.2⟩) fun _ hs => hs
    have hstart : I s ∧ s.clients[i]? = some c := ⟨hs, hi⟩
    -- the first assertion is about the request of this client
    refine Leads.bind herase (fun _ => .bind hreaped fun _ => .bind hdone fun _ => ?_) s hstart
    refine .bind (returns_of_preserves (preserves_assert _)) fun _ => ?_
    refine .bind (returns_of_preserves (preserves_assert _)) fun _ => ?_
    refine .bind (returns_of_preserves (preserves_assert _)) fun _ => ?_
    refine .bind (returns_of_preserves (haside.modifyClient i (fun _ => rfl) fun _ => .inl rfl)) fun _ => ?_
    refine .ite ?_ (.ite (h.cgiEnd env i) ?_)
    · exact (returns_of_preserves (h.removeClient env clientFd)).mono (fun _ hs => hs.1) fun _ hs => hs
    · exact (returns_of_preserves (.pure _)).mono (fun _ hs => hs) fun _ hs => hs.1

theorem processInOut {k : ℕ} {fd : ℤ} {fdType : FdType} {pollin : Bool} {u : Unit} (hs : s.Good)
    (hI : I s) (htype : s.fdToFdType.lookup fd = some fdType)
    (hevents : processInOut config env k fd fdType pollin s = .ok u s') : I s' := by
  obtain ⟨skip, s₁, hin, hevents⟩ := bind_eq_ok hevents
  have h₁ : s₁.Good ∧ I s₁ := by
    rw [run_ite] at hin
    split_ifs at hin
    · have hactions : Actions config .handling s s₁ := handlePollin_actions hs htype hin
      exact ⟨hs.actions hactions, h.handlePollin hs hI htype hin⟩
    · cases hin
      exact ⟨hs, hI⟩
  obtain ⟨_, _, ⟨⟩, hevents⟩ := bind_eq_ok hevents
  rw [run_ite] at hevents
  split_ifs at hevents
  · obtain ⟨i, _, hget, hevents⟩ := bind_eq_ok hevents
    obtain ⟨rfl, -⟩ := getClient_ok hget
    rw [run_ite, run_ite] at hevents
    split_ifs at hevents
    · exact h.writeToCgi h₁.1 h₁.2 hevents
    · exact h.writeToClient h₁.1 h₁.2 hevents
    · cases hevents
  · cases hevents
    exact h₁.2

theorem processEvents {k : ℕ} {fd : ℤ} {u : Unit} (hs : s.Good) (hI : I s)
    (hevents : processEvents config env k fd s = .ok u s') : I s' := by
  obtain ⟨_, _, ⟨⟩, hevents⟩ := bind_eq_ok hevents
  obtain ⟨fdType, _, hlookup, hevents⟩ := bind_eq_ok hevents
  obtain ⟨rfl, htype⟩ := lookupAt_ok hlookup
  obtain ⟨_, _, hprint, hevents⟩ := bind_eq_ok hevents
  obtain rfl := printEvents_ok hprint
  obtain ⟨_, _, ⟨⟩, hevents⟩ := bind_eq_ok hevents
  obtain ⟨_, _, hassert, hevents⟩ := bind_eq_ok hevents
  obtain ⟨rfl, -⟩ := assert_ok hassert
  rw [run_ite] at hevents
  split at hevents
  · have hpollerr : Preserves I (handlePollerr env fd fdType) :=
      .ite (fun _ => h.toAside.removePipeFd (.inl rfl) fd) fun _ =>
        .ite (fun _ => h.removeClient env fd) fun _ => .throw _
    exact hpollerr.of_ok hI hevents
  · obtain ⟨_, _, hassert, hevents⟩ := bind_eq_ok hevents
    obtain ⟨rfl, -⟩ := assert_ok hassert
    rw [run_ite] at hevents
    split_ifs at hevents
    · exact (h.pollhupCgiToServer fd).of_ok hI hevents
    · exact h.processInOut hs hI htype hevents

theorem processPfd {k : ℕ} {seenFds seenFds' : Finset ℤ} (hs : s.Good) (hI : I s)
    (hpfd : processPfd config env k seenFds s = .ok seenFds' s') : I s' := by
  rcases processPfd_ok hpfd with ⟨rfl, -⟩ | ⟨-, -, -, -, hevents⟩
  · exact hI
  · have hlog : ∀ fd inside, Action config .polling s
        { s with calls := .handle fd inside :: s.calls } := fun _ _ => .log _ trivial fun _ => rfl
    exact h.processEvents (hs.action (hlog _ _)) (h.call hI rfl) hevents

theorem reapChild {again : Bool} (hI : I s) (hreap : reapChild config env s = .ok again s') : I s' := by
  have hwait : Preserves I (waitpid env) := by
    refine .bind_get fun s hs => .ite (fun _ => .bind (.set ?_) fun _ => .pure _) fun _ => ?_
    · exact h.others (s := s) rfl rfl rfl hs
    · split
      · refine .ite (fun _ => .bind (.set ?_) fun _ => .pure _) fun _ => .pure _
        exact h.others (s := { s with calls := .waitpid _ s.errno :: s.calls }) rfl rfl rfl (h.call hs rfl)
      · exact .pure _
  have hpid : ∀ childPid exitStatus, Returns I (reapPid config env childPid exitStatus) I := by
    intro childPid exitStatus
    refine .bind (returns_of_preserves (h.toAside.modify (fun _ => rfl) (fun _ => rfl) fun _ => rfl))
      fun _ => .bind (returns_of_preserves .get) fun _ => .ite (returns_of_preserves (.pure _)) ?_
    exact .bind (h.reapClient childPid exitStatus) fun _ => returns_of_preserves (.pure _)
  have hround : Returns I (Server.reapChild config env) I := by
    refine .bind (returns_of_preserves hwait) fun child => .bind (returns_of_preserves .get) fun _ => ?_
    exact .ite (returns_of_preserves (.pure _)) (.ite (returns_of_preserves (.pure _)) (hpid _ _))
  exact hround.of_ok hI hreap

theorem sweepClient (i : ℕ) : Preserves I (Server.sweepClient config env i) :=
  .bind .get fun _ => .ite (fun _ => h.removeClient env _) fun _ => .pure _

end Rounds

end Server

namespace World

open Server

variable {config : Config} {env : Answers} {I : Server → Prop} {w w' : World}

/-- The part of the top of the loop that closes the listening sockets. -/
theorem shutDown_ok {u : Unit} (h : shutDown env w = .ok u w') :
    (w.shuttingDownGracefully = true ∧ w.serversActive = true ∧ ∃ s',
      shutDownServers env w.server = .ok () s' ∧ w' = { w with server := s', serversActive := false }) ∨
    w' = w := by
  obtain ⟨_, _, ⟨⟩, h⟩ := bind_eq_ok h
  rw [run_ite] at h
  split_ifs at h with hshut
  · obtain ⟨_, _, ⟨⟩, h⟩ := bind_eq_ok h
    obtain ⟨s', hservers, rfl⟩ := onServer_ok h
    exact .inl ⟨hshut.1, hshut.2, s', hservers, rfl⟩
  · cases h
    exact .inr rfl

theorem top_rounds {u : Unit} (h : Rounds config I) (hI : I w.server) (htop : top env w = .ok u w') :
    I w'.server := by
  have hservers : ∀ {w₁ w₂ : World} {u : Unit}, I w₁.server →
      onServer (shutDownServers env) w₁ = .ok u w₂ → I w₂.server := by
    intro w₁ w₂ u hI₁ hshut
    obtain ⟨s', hshut', rfl⟩ := onServer_ok hshut
    exact h.toAside.shutDownServers.of_ok hI₁ hshut'
  obtain ⟨_, w₁, hshut, htop⟩ := bind_eq_ok htop
  have h₁ : I w₁.server := by
    rcases shutDown_ok hshut with ⟨-, -, s', hservers', rfl⟩ | rfl
    · exact h.toAside.shutDownServers.of_ok hI hservers'
    · exact hI
  obtain ⟨_, _, ⟨⟩, htop⟩ := bind_eq_ok htop
  rw [run_ite] at htop
  split_ifs at htop
  · obtain ⟨_, w₂, hshut₂, htop⟩ := bind_eq_ok htop
    cases htop
    have hserver := hservers h₁ hshut₂
    exact hserver
  · obtain rfl | ⟨events, phase, -, rfl, -⟩ := poll_ok htop
    · exact h₁
    · exact h.others (s := w₁.server) rfl rfl rfl h₁

/-- **The rule for what clients are sent**: what holds when the server has just been constructed, and is
kept in every round, holds in every state of a run. -/
theorem Reachable.rounds (h : Rounds config I) (hstart : ∀ w, Started config w → I w.server)
    (hreach : Reachable config w) : I w.server := by
  induction hreach with
  | start hstarted => exact hstart _ hstarted
  | @step w w' env hreached hstep hI =>
    have hs := (hreached.good.interrupted env).server
    have hI' : I (w.interrupted env).server := h.others (s := w.server) rfl rfl rfl hI
    rcases step_ok hstep with ⟨-, htop⟩ | ⟨-, again, s', hreap, rfl⟩ | ⟨i, n, -, -, s', hsweep, rfl⟩ |
      ⟨-, rfl⟩ | ⟨-, rfl⟩ | ⟨k, seenFds, -, seenFds', s', hpfd, rfl⟩ | ⟨-, rfl⟩
    · exact top_rounds h hI' htop
    · exact h.reapChild hI' hreap
    · exact (h.sweepClient i).of_ok hI' hsweep
    · exact hI'
    · exact hI'
    · exact h.processPfd hs hI' hpfd
    · exact hI'

end World

end Webserv
