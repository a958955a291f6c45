import Webserv.Client.Answering
import Webserv.Server.State

/-!
# The life of a client

What holds of every client on its own, however it got where it is (`Sound`): its four states agree
with the descriptors it holds and with its CGI. Then, which changes keep this: reading and answering
a request (`Kept`), starting a CGI (`started`), and letting go of a pipe (`release`).
-/

namespace Webserv

/-- One of the two kinds of pipes. -/
def FdType.IsPipe (fdType : FdType) : Prop := fdType = .serverToCgi ∨ fdType = .cgiToServer

theorem FdType.IsPipe.ne_client {fdType : FdType} (h : fdType.IsPipe) : fdType ≠ .client := by
  rcases h with rfl | rfl <;> decide

theorem FdType.IsPipe.ne_server {fdType : FdType} (h : fdType.IsPipe) : fdType ≠ .server := by
  rcases h with rfl | rfl <;> decide

namespace Client

/-- A client that has no CGI. -/
structure NoCgi (c : Client) : Prop where
  cgiPid : c.cgiPid = -1
  serverToCgiFd : c.serverToCgiFd = -1
  cgiToServerFd : c.cgiToServerFd = -1

/-- A client that was only read from. -/
structure Fresh (c : Client) : Prop where
  noCgi : c.NoCgi
  cgiExitStatus : c.cgiExitStatus = -1
  cgiToServerState : c.cgiToServerState = .notReading
  serverToClientState : c.serverToClientState = .notWriting
  response : c.response = []
  bodyIndex : c.bodyIndex = 0

/-- What holds of a client on its own. -/
structure Sound (c : Client) : Prop where
  /-- A client whose request is not complete has no CGI and no response. -/
  unread : c.clientToServerState ≠ .done → c.Fresh
  toCgi : c.serverToCgiFd ≠ -1 ↔ c.serverToCgiState = .writing
  fromCgi : c.cgiToServerFd ≠ -1 ↔ c.cgiToServerState = .reading
  /-- A client with a CGI has had both pipes. -/
  running : c.cgiPid ≠ -1 → c.serverToCgiState ≠ .notWriting ∧ c.cgiToServerState ≠ .notReading
  /-- A client whose CGI was reaped has no pipe to it. -/
  reaped : c.cgiPid = -1 → c.serverToCgiFd = -1
  /-- A client that is not written to was not written to. -/
  idle : c.serverToClientState ≠ .writing → c.serverToClientState = .notWriting ∧ c.responseIndex = 0

theorem sound_new (clientFd serverFd : ℤ) (serverPort : Bytes) (clientMaxBodySize : ℕ) :
    (new clientFd serverFd serverPort clientMaxBodySize).Sound where
  unread _ := ⟨⟨rfl, rfl, rfl⟩, rfl, rfl, rfl, rfl, rfl⟩
  toCgi := ⟨fun h => absurd rfl h, nofun⟩
  fromCgi := ⟨fun h => absurd rfl h, nofun⟩
  running h := absurd rfl h
  reaped _ := rfl
  idle _ := ⟨rfl, rfl⟩

/-! ## Reading and answering -/

/-- A client without what reading its request, preparing its response and keeping track of it
change. -/
def core (c : Client) : Client :=
  { c.unparsed with
    status := .ok
    response := []
    redirect := []
    timeOfLastRead := 0
    customReasonPhrase := []
    responseContentType := [] }

/-- A client without what the server keeps track of. -/
def untracked (c : Client) : Client :=
  { c with
    status := .ok
    redirect := []
    timeOfLastRead := 0
    customReasonPhrase := []
    responseContentType := [] }

/-- A change by reading a request and by preparing its response. -/
structure Kept (c c' : Client) : Prop where
  core : c'.core = c.core
  done : c.clientToServerState = .done → c'.clientToServerState = .done ∧
    c'.serverToCgiState = c.serverToCgiState ∧ c'.body = c.body
  toCgi : c'.serverToCgiState = c.serverToCgiState ∨ c'.serverToCgiState = .done
  response : c'.response = c.response ∨ c'.clientToServerState = .done

variable {c c' c'' : Client}

theorem Kept.refl (c : Client) : Kept c c := ⟨rfl, fun h => ⟨h, rfl, rfl⟩, .inl rfl, .inl rfl⟩

theorem Kept.trans (h : Kept c c') (h' : Kept c' c'') : Kept c c'' where
  core := h'.core.trans h.core
  done hdone :=
    have h₁ := h.done hdone
    have h₂ := h'.done h₁.1
    ⟨h₂.1, h₂.2.1.trans h₁.2.1, h₂.2.2.trans h₁.2.2⟩
  toCgi := by
    rcases h'.toCgi with hsame | hdone
    · rw [hsame]
      exact h.toCgi
    · exact .inr hdone
  response := by
    rcases h'.response with hsame | hdone
    · rw [hsame]
      exact h.response.imp_right fun hdone => (h'.done hdone).1
    · exact .inr hdone

theorem Kept.of_untracked (h : c'.untracked = c.untracked) : Kept c c' where
  core := (congrArg Client.core h :)
  done hdone := ⟨(congrArg Client.clientToServerState h).trans hdone,
    (congrArg Client.serverToCgiState h :), (congrArg Client.body h :)⟩
  toCgi := .inl (congrArg Client.serverToCgiState h :)
  response := .inl (congrArg Client.response h :)

/-- Preparing a response for a client whose request is complete. -/
theorem Kept.of_unanswered (h : c'.unanswered = c.unanswered)
    (hdone : c.clientToServerState = .done) : Kept c c' where
  core := (congrArg Client.core h :)
  done _ := ⟨(congrArg Client.clientToServerState h).trans hdone,
    (congrArg Client.serverToCgiState h :), (congrArg Client.body h :)⟩
  toCgi := .inl (congrArg Client.serverToCgiState h :)
  response := .inr ((congrArg Client.clientToServerState h).trans hdone)

/-- What a read changes of a client. -/
theorem kept_appendReadString (received : Bytes) (c : Client) :
    c.Kept (Exec.finalState (appendReadString received c)) := by
  have h := sameParsing_appendReadString received c
  refine ⟨(congrArg Client.core h.unparsed_eq :), fun hdone => ?_, h.toCgi,
    .inl (congrArg Client.response h.unparsed_eq :)⟩
  rw [appendReadString_done hdone]
  exact ⟨hdone, rfl, rfl⟩

theorem fdOf_of_core (h : c'.core = c.core) (fdType : FdType) : c'.fdOf fdType = c.fdOf fdType := by
  cases fdType with
  | server => rfl
  | client => exact (congrArg Client.clientFd h :)
  | serverToCgi => exact (congrArg Client.serverToCgiFd h :)
  | cgiToServer => exact (congrArg Client.cgiToServerFd h :)

theorem NoCgi.of_core (h : c.NoCgi) (hcore : c'.core = c.core) : c'.NoCgi :=
  ⟨(congrArg Client.cgiPid hcore).trans h.cgiPid,
    (congrArg Client.serverToCgiFd hcore).trans h.serverToCgiFd,
    (congrArg Client.cgiToServerFd hcore).trans h.cgiToServerFd⟩

theorem Fresh.congr (h : c.Fresh) (hpid : c'.cgiPid = c.cgiPid)
    (hto : c'.serverToCgiFd = c.serverToCgiFd) (hfrom : c'.cgiToServerFd = c.cgiToServerFd)
    (hstatus : c'.cgiExitStatus = c.cgiExitStatus)
    (hread : c'.cgiToServerState = c.cgiToServerState)
    (hwritten : c'.serverToClientState = c.serverToClientState)
    (hresponse : c'.response = c.response) (hindex : c'.bodyIndex = c.bodyIndex) : c'.Fresh where
  noCgi := ⟨hpid.trans h.noCgi.cgiPid, hto.trans h.noCgi.serverToCgiFd,
    hfrom.trans h.noCgi.cgiToServerFd⟩
  cgiExitStatus := hstatus.trans h.cgiExitStatus
  cgiToServerState := hread.trans h.cgiToServerState
  serverToClientState := hwritten.trans h.serverToClientState
  response := hresponse.trans h.response
  bodyIndex := hindex.trans h.bodyIndex

theorem Fresh.of_core (h : c.Fresh) (hcore : c'.core = c.core) (hresponse : c'.response = c.response) :
    c'.Fresh :=
  h.congr (congrArg Client.cgiPid hcore :) (congrArg Client.serverToCgiFd hcore :)
    (congrArg Client.cgiToServerFd hcore :) (congrArg Client.cgiExitStatus hcore :)
    (congrArg Client.cgiToServerState hcore :) (congrArg Client.serverToClientState hcore :)
    hresponse (congrArg Client.bodyIndex hcore :)

/-- A client with a CGI or a pipe has read its request. -/
theorem Sound.done_of_not_noCgi (h : c.Sound) (hcgi : ¬ c.NoCgi) : c.clientToServerState = .done := by
  by_contra hdone
  exact hcgi (h.unread hdone).noCgi

theorem Sound.done_of_cgiPid (h : c.Sound) (hpid : c.cgiPid ≠ -1) : c.clientToServerState = .done :=
  h.done_of_not_noCgi fun hno => hpid hno.cgiPid

/-- A client that holds a pipe has read its request. -/
theorem Sound.done_of_fdOf (h : c.Sound) {fdType : FdType} (hpipe : fdType.IsPipe)
    (hfd : c.fdOf fdType ≠ -1) : c.clientToServerState = .done := by
  refine h.done_of_not_noCgi fun hno => ?_
  rcases hpipe with rfl | rfl
  · exact hfd hno.serverToCgiFd
  · exact hfd hno.cgiToServerFd

theorem Sound.kept (h : c.Sound) (hkept : Kept c c') : c'.Sound := by
  have hcore := hkept.core
  have hunread : c'.clientToServerState ≠ .done → c.clientToServerState ≠ .done :=
    fun hdone' hdone => hdone' (hkept.done hdone).1
  refine ⟨fun hdone' => ?_, ?_, ?_, fun hpid => ?_, fun hpid => ?_, fun hwriting => ?_⟩
  · have hresponse : c'.response = c.response := hkept.response.resolve_right hdone'
    exact (h.unread (hunread hdone')).of_core hcore hresponse
  · have hfd : c'.serverToCgiFd = c.serverToCgiFd := (congrArg Client.serverToCgiFd hcore :)
    rw [hfd, h.toCgi]
    by_cases hdone : c.clientToServerState = .done
    · rw [(hkept.done hdone).2.1]
    · -- a client that is still read from has no pipe to a CGI
      have hnone := fun hw => h.toCgi.2 hw (h.unread hdone).noCgi.serverToCgiFd
      refine ⟨fun hw => absurd hw hnone, fun hw => ?_⟩
      rcases hkept.toCgi with hsame | hsame
      · exact hsame ▸ hw
      · rw [hsame] at hw
        cases hw
  · have hfd : c'.cgiToServerFd = c.cgiToServerFd := (congrArg Client.cgiToServerFd hcore :)
    have hstate : c'.cgiToServerState = c.cgiToServerState :=
      (congrArg Client.cgiToServerState hcore :)
    rw [hfd, hstate]
    exact h.fromCgi
  · have hpid' : c.cgiPid ≠ -1 := fun heq => hpid ((congrArg Client.cgiPid hcore).trans heq)
    have hstate : c'.cgiToServerState = c.cgiToServerState :=
      (congrArg Client.cgiToServerState hcore :)
    rw [(hkept.done (h.done_of_cgiPid hpid')).2.1, hstate]
    exact h.running hpid'
  · exact (congrArg Client.serverToCgiFd hcore).trans
      (h.reaped ((congrArg Client.cgiPid hcore).symm.trans hpid))
  · have hstate : c'.serverToClientState = c.serverToClientState :=
      (congrArg Client.serverToClientState hcore :)
    have hidle := h.idle fun hw => hwriting (hstate.trans hw)
    exact ⟨hstate.trans hidle.1, (congrArg Client.responseIndex hcore).trans hidle.2⟩

/-! ## Pipes -/

/-- A client that has got a pipe. -/
def attach (c : Client) (fd : ℤ) : FdType → Client
  | .serverToCgi => { c with serverToCgiFd := fd, serverToCgiState := .writing }
  | .cgiToServer => { c with cgiToServerFd := fd, cgiToServerState := .reading }
  | _ => c

/-- A client whose CGI has been started; it may have got no pipe to it. -/
def started (c : Client) (pid : ℤ) (toCgi : Option ℤ) (fromCgi : ℤ) : Client :=
  { (toCgi.elim c fun fd => c.attach fd .serverToCgi).attach fromCgi .cgiToServer with cgiPid := pid }

variable {fdType : FdType} {fd : ℤ}

theorem fdOf_release (h : fdType.IsPipe) (fdType' : FdType) :
    (c.release fdType).fdOf fdType' = if fdType' = fdType then -1 else c.fdOf fdType' := by
  rcases h with rfl | rfl <;> cases fdType' <;> rfl

theorem fdOf_attach (h : fdType.IsPipe) (fdType' : FdType) :
    (c.attach fd fdType).fdOf fdType' = if fdType' = fdType then fd else c.fdOf fdType' := by
  rcases h with rfl | rfl <;> cases fdType' <;> rfl

theorem parsing_release (h : fdType.IsPipe) : (c.release fdType).parsing = c.parsing := by
  rcases h with rfl | rfl <;> rfl

theorem cgiPid_release (h : fdType.IsPipe) : (c.release fdType).cgiPid = c.cgiPid := by
  rcases h with rfl | rfl <;> rfl

theorem clientFd_release (h : fdType.IsPipe) : (c.release fdType).clientFd = c.clientFd := by
  rcases h with rfl | rfl <;> rfl

theorem Sound.release (h : c.Sound) (hpipe : fdType.IsPipe) (hfd : c.fdOf fdType ≠ -1) :
    (c.release fdType).Sound := by
  have hdone := h.done_of_fdOf hpipe hfd
  rcases hpipe with rfl | rfl
  · exact ⟨fun hunread => absurd hdone hunread, ⟨fun hto => absurd rfl hto, nofun⟩, h.fromCgi,
      fun hpid => ⟨nofun, (h.running hpid).2⟩, fun _ => rfl, h.idle⟩
  · exact ⟨fun hunread => absurd hdone hunread, h.toCgi, ⟨fun hfrom => absurd rfl hfrom, nofun⟩,
      fun hpid => ⟨(h.running hpid).1, nofun⟩, h.reaped, h.idle⟩

section Started

variable {pid fromCgi : ℤ} {toCgi : Option ℤ}

theorem clientToServerState_started :
    (c.started pid toCgi fromCgi).clientToServerState = c.clientToServerState := by
  cases toCgi <;> rfl

theorem clientFd_started : (c.started pid toCgi fromCgi).clientFd = c.clientFd := by
  cases toCgi <;> rfl

theorem parsing_started : (c.started pid toCgi fromCgi).parsing = c.parsing := by
  cases toCgi <;> rfl

theorem serverToClientState_started :
    (c.started pid toCgi fromCgi).serverToClientState = c.serverToClientState := by
  cases toCgi <;> rfl

/-- Starting a CGI: the client gets a pipe to it unless it has nothing to write. -/
theorem Sound.started (h : c.Sound) (hdone : c.clientToServerState = .done) (hpid : pid ≠ -1)
    (hto : toCgi = none → c.serverToCgiState = .done) (hneTo : ∀ fd ∈ toCgi, fd ≠ -1)
    (hneFrom : fromCgi ≠ -1) : (c.started pid toCgi fromCgi).Sound := by
  cases toCgi with
  | none =>
    refine ⟨fun hunread => absurd hdone hunread, h.toCgi, ⟨fun _ => rfl, fun _ => hneFrom⟩, ?_,
      fun heq => absurd heq hpid, h.idle⟩
    refine fun _ => ⟨?_, nofun⟩
    change c.serverToCgiState ≠ .notWriting
    rw [hto rfl]
    decide
  | some fd =>
    exact ⟨fun hunread => absurd hdone hunread, ⟨fun _ => rfl, fun _ => hneTo fd rfl⟩,
      ⟨fun _ => rfl, fun _ => hneFrom⟩, fun _ => ⟨nofun, nofun⟩, fun heq => absurd heq hpid, h.idle⟩

end Started

/-- Reaping the CGI of a client that has written all its input. -/
theorem Sound.reap (h : c.Sound) (hdone : c.clientToServerState = .done)
    (hwritten : c.serverToCgiState = .done) (status : ℤ) :
    Sound { c with cgiPid := -1, cgiExitStatus := status } where
  unread hunread := absurd hdone hunread
  toCgi := h.toCgi
  fromCgi := h.fromCgi
  running hpid := absurd rfl hpid
  reaped _ := by
    by_contra hfd
    rw [h.toCgi.1 hfd] at hwritten
    cases hwritten
  idle := h.idle

/-- Giving up the rest of a request. -/
theorem Sound.finish (h : c.Sound) : Sound { c with clientToServerState := .done } :=
  ⟨fun hunread => absurd rfl hunread, h.toCgi, h.fromCgi, h.running, h.reaped, h.idle⟩

/-- A client that is moved to another slot. -/
theorem Sound.assign (h : c.Sound) (this : Client) : (this.assign c).Sound :=
  ⟨fun hunread => (h.unread hunread).congr rfl rfl rfl rfl rfl rfl rfl rfl,
    h.toCgi, h.fromCgi, h.running, h.reaped, h.idle⟩

end Client

end Webserv
