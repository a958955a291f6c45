import Webserv.Server.Inversion

/-!
# The functions of the server as sequences of actions

Each function of the server, when it returns, has taken a sequence of actions (`Actions`). Most
functions also leave every client in its slot and every given up request given up (`Quiet`). The
order of the actions is not always that of the code: what a function writes to a client that it then
takes out of its slot is not written at all.
-/

namespace Webserv.Server

open Exec History IndexedVector

variable {config : Config} {stage : Stage} {env : Answers} {s s' : Server}

/-! ## Quiet functions -/

/-- A sequence of actions that leaves every client in its slot, and every given up request given
up. -/
structure Quiet (config : Config) (stage : Stage) (s s' : Server) : Prop where
  actions : Actions config stage s s'
  clientFds : s'.clients.map Client.clientFd = s.clients.map Client.clientFd
  givenUp : ∀ fd, GivenUp fd s.calls → GivenUp fd s'.calls

theorem Quiet.refl (s : Server) : Quiet config stage s s := ⟨.refl, rfl, fun _ => id⟩

theorem Quiet.trans {s₁ s₂ s₃ : Server} (h : Quiet config stage s₁ s₂)
    (h' : Quiet config stage s₂ s₃) : Quiet config stage s₁ s₃ :=
  ⟨h.actions.trans h'.actions, h'.clientFds.trans h.clientFds,
    fun fd hgiven => h'.givenUp fd (h.givenUp fd hgiven)⟩

theorem Quiet.good (h : Quiet config stage s s') (hs : s.Good) : s'.Good := hs.actions h.actions

theorem Quiet.noLateRead (h : Quiet config stage s s') (hno : NoLateRead s'.calls) :
    NoLateRead s.calls := hno.of_suffix h.actions.suffix

theorem Quiet.noEarlyRemoval (h : Quiet config stage s s') (hno : NoEarlyRemoval s'.calls) :
    NoEarlyRemoval s.calls := hno.of_suffix h.actions.suffix

theorem accepts_of_neutral {call : Call} (h : call.Neutral) (fd : ℤ) : call.accepts fd = false := by
  cases call <;> first | rfl | exact absurd h id

theorem Quiet.log {call : Call} (h : call.Neutral) (hcall : call.isHandle = false) :
    Quiet config stage s { s with calls := call :: s.calls } :=
  ⟨.single (.log call h fun hhandle => absurd hhandle (Bool.eq_false_iff.1 hcall)), rfl,
    fun fd hgiven => hgiven.cons (accepts_of_neutral h fd)⟩

theorem Change.accepts {calls new : List Call} {c c' : Client} (h : Change calls c new c') (fd : ℤ) :
    ∀ call ∈ new, call.accepts fd = false := by
  cases h with
  | note | kill | giveUp | writeBody | writeResponse => exact fun call hmem => nomatch hmem
  | readCgi | remove =>
    intro call hmem
    rw [List.mem_singleton.1 hmem]
    rfl
  | read _ received dispatched failed =>
    intro call hmem
    cases dispatched <;> cases failed <;> simp [readCalls] at hmem <;> aesop

theorem Quiet.change {i : ℕ} {c c' : Client} {new : List Call} (hi : s.clients[i]? = some c)
    (h : Change s.calls c new c') :
    Quiet config stage s { s with clients := s.clients.set i c', calls := new ++ s.calls } :=
  ⟨.single (.change i c c' new hi h), map_set_of_eq hi h.clientFd,
    fun fd hgiven => hgiven.append (h.accepts fd)⟩

/-- A change that only matters to the client itself. -/
theorem Quiet.note {i : ℕ} {c c' : Client} (hi : s.clients[i]? = some c)
    (h : c'.untracked = c.untracked) :
    Quiet config stage s { s with clients := s.clients.set i c' } := .change hi (.note c' h)

theorem Quiet.kernel {descriptors : Map ℤ FdType} {errno : Option Errno}
    (hopen : ∀ fd ∈ s.fdToPfdIndex, descriptors.lookup fd = s.descriptors.lookup fd)
    (hnonneg : ∀ fd ∈ descriptors, 0 ≤ fd) :
    Quiet config stage s { s with descriptors, errno } :=
  ⟨.single (.kernel descriptors errno hopen hnonneg), rfl, fun _ => id⟩

/-- Reading from a client is disabled once its request was given up. -/
theorem disableReadingFromClient_quiet {i : ℕ} {u : Unit} {c : Client}
    (h : disableReadingFromClient i s = .ok u s') (hi : s.clients[i]? = some c)
    (hgiven : GivenUp c.clientFd s.calls) : Quiet config stage s s' ∧
      s'.clients[i]? = some { c with clientToServerState := .done } := by
  obtain ⟨c', k, pfd, hi', hk, hpfd, rfl⟩ := disableReadingFromClient_ok h
  obtain rfl : c' = c := Option.some.inj (hi'.symm.trans hi)
  refine ⟨⟨.single (.stopReading i c' k pfd hi hk hpfd hgiven), map_set_of_eq hi rfl, fun _ => id⟩, ?_⟩
  exact getElem?_set_self_of hi _

/-! ## Closing pipes -/

/-- A client that was made to let go of a pipe. -/
def Released (fdType : FdType) (c c' : Client) : Prop :=
  (c.fdOf fdType = -1 ∧ c' = c) ∨ c' = c.release fdType

/-- The pipe of a client is closed; this is not the end of the output of its CGI. -/
theorem removePipeFd_quiet {fdType : FdType} (hpipe : fdType.IsPipe) {fd : ℤ} {i : ℕ} {c : Client}
    {u : Unit} (h : removePipeFd fdType fd s = .ok u s')
    (hindex : s.fdToClientIndex.lookup fd = some i) (hi : s.clients[i]? = some c)
    (hsilent : fdType = .cgiToServer → c.cgiKilled = true ∨ c.beingRemoved = true) :
    Quiet config stage s s' ∧ ∃ c', s'.clients[i]? = some c' ∧ Released fdType c c' := by
  obtain ⟨i', c', hindex', hi', hcases⟩ := removePipeFd_ok h
  obtain rfl := Option.some.inj (hindex'.symm.trans hindex)
  obtain rfl : c' = c := Option.some.inj (hi'.symm.trans hi)
  rcases hcases with ⟨hnone, rfl⟩ | ⟨hfd, k, last, hk, hlast, rfl⟩
  · exact ⟨.refl _, c', hi, .inl ⟨hnone, rfl⟩⟩
  · refine ⟨⟨.single (.release i' c' fdType k last [] hi hpipe hfd hk hlast (.inl ⟨rfl, hsilent⟩)),
      map_set_of_eq hi (Client.clientFd_release hpipe), fun fd' hgiven => hgiven.cons rfl⟩, ?_⟩
    exact ⟨_, getElem?_set_self_of hi _, .inr rfl⟩

/-- A client whose CGI may have been killed. -/
structure Follows (c c' : Client) : Prop where
  clientFd : c'.clientFd = c.clientFd
  serverToClientState : c'.serverToClientState = c.serverToClientState
  noCgi : c.NoCgi → c'.NoCgi

theorem Follows.refl (c : Client) : Follows c c := ⟨rfl, rfl, id⟩

theorem Follows.killed {c c' : Client} (h : Released .cgiToServer { c with cgiKilled := true } c') :
    Follows c c' := by
  rcases h with ⟨-, rfl⟩ | rfl
  · exact ⟨rfl, rfl, fun hno => ⟨hno.cgiPid, hno.serverToCgiFd, hno.cgiToServerFd⟩⟩
  · exact ⟨rfl, rfl, fun hno => ⟨hno.cgiPid, hno.serverToCgiFd, rfl⟩⟩

/-- The CGI of a client is killed: the client is being removed, or was read from too long. -/
theorem killCgi_quiet {fd : ℤ} {i : ℕ} {c : Client} {u : Unit} (h : killCgi env fd s = .ok u s')
    (hindex : s.fdToClientIndex.lookup fd = some i) (hi : s.clients[i]? = some c)
    (hremoved : c.cgiPid ≠ -1 → NoLateRead s.calls → c.beingRemoved = true) :
    Quiet config stage s s' ∧ ∃ c', s'.clients[i]? = some c' ∧ Follows c c' := by
  obtain ⟨i', c', hindex', hi', hcases⟩ := killCgi_ok h
  obtain rfl := Option.some.inj (hindex'.symm.trans hindex)
  obtain rfl : c' = c := Option.some.inj (hi'.symm.trans hi)
  rcases hcases with ⟨-, rfl⟩ | ⟨hpid, hremove⟩
  · exact ⟨.refl _, c', hi, .refl c'⟩
  · have h₁ : Quiet config stage s _ := .change hi (.kill hpid (hremoved hpid))
    obtain ⟨h₂, c₂, hi₂, hreleased⟩ : Quiet config stage _ s' ∧ _ :=
      removePipeFd_quiet (.inr rfl) hremove hindex (getElem?_set_self_of hi _) fun _ => .inl rfl
    exact ⟨h₁.trans h₂, c₂, hi₂, .killed hreleased⟩

/-! ## Exceptions and CGI responses -/

/-- A response is sent once it is complete. -/
theorem enableWritingToClient_quiet {i : ℕ} {c c₁ : Client} {u : Unit}
    (h : enableWritingToClient i { s with clients := s.clients.set i c₁ } = .ok u s')
    (hi : s.clients[i]? = some c) (hdone : c.clientToServerState = .done)
    (hsame : c₁.unsent = c.unsent)
    (hindex : c₁.responseIndex = c.responseIndex ∨ c₁.responseIndex = 0)
    (hresponse : c₁.response ≠ []) (hidle : NoLateRead s.calls → c.NoCgi)
    (hfirst : NoLateRead s.calls → NoEarlyRemoval s.calls → c.serverToClientState ≠ .writing) :
    Quiet config stage s s' := by
  obtain ⟨c₂, k, pfd, hi₂, hk, hpfd, rfl⟩ := enableWritingToClient_ok h
  obtain rfl := Option.some.inj (hi₂.symm.trans (getElem?_set_self_of hi _))
  have hfd : c₂.clientFd = c.clientFd := (congrArg Client.clientFd hsame :)
  rw [hfd] at hk
  have hsame' : Client.unsent { c₂ with serverToClientState := .writing } =
      Client.unsent { c with serverToClientState := .writing } :=
    congrArg (fun d : Client => { d with serverToClientState := .writing }) hsame
  have haction : Action config stage s _ := .answer i c { c₂ with serverToClientState := .writing } k
    pfd hi hk hpfd hdone hsame' hindex hresponse hidle hfirst
  rw [← List.set_set (a := c₂)] at haction
  refine ⟨.single haction, ?_, fun _ => id⟩
  change ((s.clients.set i c₂).set i _).map Client.clientFd = _
  rw [List.set_set]
  exact map_set_of_eq hi hfd

/-- Answering an exception, once it is logged. -/
theorem answerException_quiet {status : Status} {i : ℕ} {u : Unit} {c : Client} (hs : s.Good)
    (h : answerException config env status i s = .ok u s') (hi : s.clients[i]? = some c)
    (hgiven : GivenUp c.clientFd s.calls) (hidle : NoLateRead s.calls → c.NoCgi)
    (hfirst : NoLateRead s.calls → NoEarlyRemoval s.calls → c.serverToClientState ≠ .writing) :
    Quiet config stage s s' := by
  obtain ⟨_, s₁, hstatus, h⟩ := bind_eq_ok h
  obtain ⟨c₀, hi₀, rfl⟩ := modifyClient_ok hstatus
  obtain rfl : c₀ = c := Option.some.inj (hi₀.symm.trans hi)
  have h₁ : Quiet config stage s { s with clients := s.clients.set i { c₀ with status := status } } :=
    .note hi rfl
  obtain ⟨c₁, _, hclient, h⟩ := bind_eq_ok h
  obtain ⟨rfl, hi₁⟩ := clientAt_ok hclient
  obtain rfl := Option.some.inj (hi₁.symm.trans (getElem?_set_self_of hi _))
  obtain ⟨_, s₂, hkill, h⟩ := bind_eq_ok h
  have hindex := (h₁.good hs).index_clientFd hi₁
  obtain ⟨h₂, c₂, hi₂, hfollows⟩ : Quiet config stage _ s₂ ∧ _ :=
    killCgi_quiet hkill hindex hi₁ fun hpid hno => absurd (hidle hno).cgiPid hpid
  have h₂ := h₁.trans h₂
  obtain ⟨_, s₃, hdisable, h⟩ := bind_eq_ok h
  obtain ⟨h₃, hi₃⟩ : Quiet config stage s₂ s₃ ∧ _ :=
    disableReadingFromClient_quiet hdisable hi₂ (hfollows.clientFd ▸ h₂.givenUp _ hgiven)
  have h₃ := h₂.trans h₃
  obtain ⟨server, _, hserver, h⟩ := bind_eq_ok h
  obtain rfl := getServer_ok hserver
  obtain ⟨_, s₄, hrespond, h⟩ := bind_eq_ok h
  obtain ⟨c₃, c₄, hi₃', hmethod, rfl⟩ := onClient_ok hrespond
  obtain rfl := Option.some.inj (hi₃'.symm.trans hi₃)
  have hsame := Client.keeps_respondWithError env.fs server.errorPages
    { c₂ with clientToServerState := .done }
  rw [hmethod] at hsame
  refine h₃.trans (enableWritingToClient_quiet h hi₃ rfl hsame
    (.inr (Client.responseIndex_respondWithError hmethod))
    (Client.fills_respondWithError _ _ _ _ _ hmethod) (fun hno => ?_) fun hno hno' => ?_)
  · have hno₂ := hfollows.noCgi ⟨(hidle (h₃.noLateRead hno)).cgiPid,
      (hidle (h₃.noLateRead hno)).serverToCgiFd, (hidle (h₃.noLateRead hno)).cgiToServerFd⟩
    exact ⟨hno₂.cgiPid, hno₂.serverToCgiFd, hno₂.cgiToServerFd⟩
  · exact fun hwriting => hfirst (h₃.noLateRead hno) (h₃.noEarlyRemoval hno')
      (hfollows.serverToClientState.symm.trans hwriting)

theorem respondClientException_quiet {status : Status} {i : ℕ} {u : Unit} {c : Client}
    (hs : s.Good) (h : respondClientException config env status i s = .ok u s')
    (hi : s.clients[i]? = some c) (hidle : NoLateRead s.calls → c.NoCgi)
    (hfirst : NoLateRead s.calls → NoEarlyRemoval s.calls → c.serverToClientState ≠ .writing) :
    Quiet config stage s s' := by
  obtain ⟨c', _, hclient, h⟩ := bind_eq_ok h
  obtain ⟨rfl, hi'⟩ := clientAt_ok hclient
  obtain rfl : c' = c := Option.some.inj (hi'.symm.trans hi)
  obtain ⟨_, s₁, hlog, h⟩ := bind_eq_ok h
  obtain rfl := log_ok hlog
  have h₁ : Quiet config stage s
      { s with calls := .respondClientException c'.clientFd :: s.calls } := .log trivial rfl
  exact h₁.trans (answerException_quiet (h₁.good hs) h hi (.head rfl (by simp [Call.givesUp]))
    (fun hno => hidle (h₁.noLateRead hno))
    fun hno hno' => hfirst (h₁.noLateRead hno) (h₁.noEarlyRemoval hno'))

/-- Answering with what a CGI has written, once it is logged. -/
theorem answerCgi_quiet {i : ℕ} {u : Unit} {c : Client} (hs : s.Good)
    (h : answerCgi config env i c s = .ok u s') (hi : s.clients[i]? = some c) (hno : c.NoCgi)
    (hfirst : NoLateRead s.calls → NoEarlyRemoval s.calls → c.serverToClientState ≠ .writing) :
    Quiet config stage s s' := by
  unfold answerCgi at h
  rw [run_ite] at h
  split_ifs at h with hexit
  · exact respondClientException_quiet hs h hi (fun _ => hno) hfirst
  · have hdone : c.clientToServerState = .done := by
      by_contra hunread
      have := ((hs.sound_at hi).unread hunread).cgiExitStatus
      omega
    obtain ⟨_, s₁, hmethod, h⟩ := bind_eq_ok h
    obtain ⟨c₀, c₁, hi₀, hextract, rfl⟩ := onClient_ok hmethod
    obtain rfl : c₀ = c := Option.some.inj (hi₀.symm.trans hi)
    obtain ⟨_, s₂, hsecond, h⟩ := bind_eq_ok h
    obtain ⟨c₁', c₂, hi₁, hprepend, rfl⟩ := onClient_ok hsecond
    obtain rfl := Option.some.inj (hi₁.symm.trans (getElem?_set_self_of hi _))
    have hsame₁ := Client.keeps_extractCGIDocumentResponseHeaders c₀
    rw [hextract] at hsame₁
    have hsame₂ := Client.keeps_prependResponseHeader (f := Client.unanswered) (fun _ _ => rfl) c₁'
    rw [hprepend] at hsame₂
    have hsame : c₂.unanswered = c₀.unanswered := hsame₂.trans hsame₁
    simp only [List.set_set] at h
    exact enableWritingToClient_quiet h hi hdone
      (congrArg (fun d : Client => { d with responseIndex := 0 }) hsame)
      (.inl (congrArg Client.responseIndex hsame :))
      (Client.fills_prependResponseHeader _ _ _ hprepend) (fun _ => hno) hfirst

theorem hangUpCalls_of_eq {c : Client} (h : c.cgiPid = -1) :
    hangUpCalls c = [.cgiEnd c, .hangUp c] := if_pos h

theorem hangUpCalls_of_ne {c : Client} (h : c.cgiPid ≠ -1) : hangUpCalls c = [.hangUp c] := if_neg h

theorem set_self_of {α : Type} {l : List α} {i : ℕ} {a : α} (hi : l[i]? = some a) :
    l.set i a = l := by
  refine List.ext_getElem? fun j => ?_
  by_cases hij : i = j
  · subst hij
    rw [getElem?_set_self_of hi, hi]
  · rw [List.getElem?_set_ne hij]

/-- An orderly server finds the client that holds the pipe. -/
theorem Good.holder (hs : s.Good) {fd : ℤ} {fdType : FdType} {i : ℕ} {c : Client}
    (hfd : s.Polls fd fdType) (hserver : fdType ≠ .server)
    (hindex : s.fdToClientIndex.lookup fd = some i) (hi : s.clients[i]? = some c)
    (hlate : NoLateRead s.calls) (hearly : NoEarlyRemoval s.calls) : c.fdOf fdType = fd := by
  obtain ⟨d, hd, hheld⟩ := (hs.orderly hlate hearly).attached fd fdType hserver hfd
  obtain ⟨j, hj⟩ := List.mem_iff_getElem?.1 hd
  have hne : d.fdOf fdType ≠ -1 := hheld ▸ hs.ne_neg_one hfd.1
  have hindex' := (hs.held j d fdType hj hne).2
  rw [hheld] at hindex'
  obtain rfl := Option.some.inj (hindex'.symm.trans hindex)
  rw [← Option.some.inj (hj.symm.trans hi)]
  exact hheld

/-- What is left to do at the end of the output of a CGI, when the pipes are closed. -/
theorem afterHangUp_quiet {i : ℕ} {u : Unit} {c : Client} (hs : Good { s with
      calls := hangUpCalls c ++ s.calls })
    (h : (do
      let c ← clientAt i
      log (.hangUp c)
      if c.cgiPid = -1 then cgiEnd config env i else pure () : ServerM Unit) s = .ok u s')
    (hi : s.clients[i]? = some c) (hto : c.cgiPid = -1 → c.serverToCgiFd = -1)
    (hfrom : c.cgiToServerFd = -1)
    (hfirst : NoLateRead s.calls → NoEarlyRemoval s.calls → c.serverToClientState ≠ .writing) :
    Quiet config stage { s with calls := hangUpCalls c ++ s.calls } s' := by
  obtain ⟨c', _, hclient, h⟩ := bind_eq_ok h
  obtain ⟨rfl, hi'⟩ := clientAt_ok hclient
  obtain rfl : c' = c := Option.some.inj (hi'.symm.trans hi)
  obtain ⟨_, _, ⟨⟩, h⟩ := bind_eq_ok h
  rw [run_ite] at h
  split_ifs at h with hpid
  · rw [hangUpCalls_of_eq hpid] at hs ⊢
    obtain ⟨c₁, _, hclient, h⟩ := bind_eq_ok h
    obtain ⟨rfl, hi₁⟩ := clientAt_ok hclient
    obtain rfl : c₁ = c' := Option.some.inj (hi₁.symm.trans hi)
    obtain ⟨_, _, ⟨⟩, h⟩ := bind_eq_ok h
    have hsuffix : s.calls <:+ .cgiEnd c₁ :: .hangUp c₁ :: s.calls :=
      (List.suffix_cons _ _).trans (List.suffix_cons _ _)
    exact answerCgi_quiet hs h hi ⟨hpid, hto hpid, hfrom⟩ fun hno hno' =>
      hfirst (hno.of_suffix hsuffix) (hno'.of_suffix hsuffix)
  · rw [hangUpCalls_of_ne hpid]
    cases h
    exact .refl _

theorem accepts_hangUpCalls (c : Client) (fd : ℤ) : ∀ call ∈ hangUpCalls c, call.accepts fd = false := by
  unfold hangUpCalls
  split_ifs
  · intro call hmem
    rcases List.mem_cons.1 hmem with rfl | hmem
    · rfl
    · rw [List.mem_singleton.1 hmem]
      rfl
  · intro call hmem
    rw [List.mem_singleton.1 hmem]
    rfl

theorem quiet_hangUpCalls {c d : Client} {i : ℕ} {fd : ℤ} (hi : s.clients[i]? = some c)
    (hfd : s.Polls fd .cgiToServer) (hnone : c.cgiToServerFd = -1)
    (hindex : s.fdToClientIndex.lookup fd = some i) :
    Quiet config stage s { s with calls := hangUpCalls d ++ s.calls } :=
  ⟨.single (.orphan i c d fd hi hfd hnone hindex), rfl,
    fun fd' hgiven => hgiven.append (accepts_hangUpCalls d fd')⟩

/-- The end of the output of a CGI. A descriptor whose client was removed too early may lead to a
client that is still reading its request: its request is given up. -/
theorem pollhupCgiToServer_quiet {fd : ℤ} {u : Unit} (hs : s.Good)
    (hfd : s.Polls fd .cgiToServer) (h : pollhupCgiToServer config env fd s = .ok u s') :
    Quiet config stage s s' := by
  obtain ⟨i, _, hget, h⟩ := bind_eq_ok h
  obtain ⟨rfl, hindex, -⟩ := getClient_ok hget
  obtain ⟨_, s₁, hmodify, h⟩ := bind_eq_ok h
  obtain ⟨c, hi, rfl⟩ := modifyClient_ok hmodify
  obtain ⟨_, s₂, hto, h⟩ := bind_eq_ok h
  obtain ⟨_, s₃, hfrom, hend⟩ := bind_eq_ok h
  have hsound := hs.sound_at hi
  -- in an orderly server the client holds the pipe, and is not written to
  have hfirst : NoLateRead s.calls → NoEarlyRemoval s.calls → c.serverToClientState ≠ .writing := by
    intro hlate hearly hwriting
    have hheld : c.cgiToServerFd = fd := hs.holder hfd nofun hindex hi hlate hearly
    have hno := (hs.orderly hlate hearly).finished c (List.mem_of_getElem? hi) hwriting
    exact hs.ne_neg_one hfd.1 (hheld.symm.trans hno.cgiToServerFd)
  by_cases hdone : c.clientToServerState = .done
  · have hsame : { c with clientToServerState := .done } = c := by rw [← hdone]
    rw [hsame, set_self_of hi] at hto
    obtain ⟨h₁, c₁, hi₁, hreleased⟩ : Quiet config stage s s₂ ∧ _ :=
      removePipeFd_quiet (.inl rfl) hto hindex hi nofun
    have hto₁ : c₁.serverToCgiFd = -1 := by
      rcases hreleased with ⟨hnone, rfl⟩ | rfl
      · exact hnone
      · rfl
    have hwriting₁ : c₁.serverToClientState = c.serverToClientState := by
      rcases hreleased with ⟨-, rfl⟩ | rfl <;> rfl
    have hfirst₁ : NoLateRead s₂.calls → NoEarlyRemoval s₂.calls →
        c₁.serverToClientState ≠ .writing := fun hno hno' hwriting =>
      hfirst (h₁.noLateRead hno) (h₁.noEarlyRemoval hno') (hwriting₁.symm.trans hwriting)
    obtain ⟨i', c₂, hindex₂, hi₂, hcases⟩ := removePipeFd_ok hfrom
    -- the pipe to the CGI is another one, so that the descriptor still leads to the client
    have hindex₁ : s₂.fdToClientIndex.lookup fd = some i := by
      obtain ⟨i₀, c₀, hindex₀, hi₀, ⟨-, rfl⟩ | ⟨hheld, k, last, hk, hlast, rfl⟩⟩ := removePipeFd_ok hto
      · exact hindex
      · refine (Finmap.lookup_erase_ne fun heq => ?_).trans hindex
        have hkind := (hs.held i₀ c₀ .serverToCgi hi₀ hheld).1.2
        rw [← heq] at hkind
        cases hkind.symm.trans hfd.2
    obtain rfl := Option.some.inj (hindex₂.symm.trans hindex₁)
    obtain rfl : c₂ = c₁ := Option.some.inj (hi₂.symm.trans hi₁)
    rcases hcases with ⟨hnone, rfl⟩ | ⟨hheld, k, last, hk, hlast, rfl⟩
    · have hfd₂ : s₃.Polls fd .cgiToServer := by
        obtain ⟨i₀, c₀, hindex₀, hi₀, ⟨-, rfl⟩ | ⟨hheld, k, last, hk, hlast, rfl⟩⟩ := removePipeFd_ok hto
        · exact hfd
        · refine (hs.toTables.polls_closed hlast).2 ⟨fun heq => ?_, hfd⟩
          have hkind := (hs.held i₀ c₀ .serverToCgi hi₀ hheld).1.2
          rw [← heq] at hkind
          cases hkind.symm.trans hfd.2
      have h₂ := h₁.trans (quiet_hangUpCalls (d := c₂) hi₁ hfd₂ hnone hindex₁)
      exact h₂.trans (afterHangUp_quiet (h₂.good hs) hend hi₁ (fun _ => hto₁) hnone hfirst₁)
    · have hrelease : Action config stage s₂ _ := .release i' c₂ .cgiToServer k last
        (hangUpCalls (c₂.release .cgiToServer)) hi₁ (.inr rfl) hheld hk hlast (.inr ⟨rfl, rfl⟩)
      have h₂ := h₁.trans ⟨.single hrelease, map_set_of_eq hi₁ rfl,
        fun fd' hgiven => (hgiven.cons rfl).append (accepts_hangUpCalls _ fd')⟩
      refine h₂.trans (afterHangUp_quiet (h₂.good hs) hend (getElem?_set_self_of hi₁ _)
        (fun _ => hto₁) rfl fun hno hno' => ?_)
      exact hfirst₁ (hno.of_suffix (List.suffix_cons _ _)) (hno'.of_suffix (List.suffix_cons _ _))
  · -- the client has no CGI, so that an exception is raised for it
    have hfresh := hsound.unread hdone
    obtain ⟨i₀, c₀, hindex₀, hi₀, ⟨-, rfl⟩ | ⟨hheld, -⟩⟩ := removePipeFd_ok hto
    swap
    · obtain rfl := Option.some.inj (hindex₀.symm.trans hindex)
      obtain rfl := Option.some.inj (hi₀.symm.trans (getElem?_set_self_of hi _))
      exact absurd hfresh.noCgi.serverToCgiFd hheld
    obtain ⟨i₁, c₁, hindex₁, hi₁, ⟨-, rfl⟩ | ⟨hheld, -⟩⟩ := removePipeFd_ok hfrom
    swap
    · obtain rfl := Option.some.inj (hindex₁.symm.trans hindex)
      obtain rfl := Option.some.inj (hi₁.symm.trans (getElem?_set_self_of hi _))
      exact absurd hfresh.noCgi.cgiToServerFd hheld
    have hi₂ := getElem?_set_self_of hi { c with clientToServerState := .done }
    obtain ⟨c₂, _, hclient, h⟩ := bind_eq_ok hend
    obtain ⟨rfl, hi₃⟩ := clientAt_ok hclient
    obtain rfl := Option.some.inj (hi₂.symm.trans hi₃)
    obtain ⟨_, _, ⟨⟩, h⟩ := bind_eq_ok h
    have hpid : c.cgiPid = -1 := hfresh.noCgi.cgiPid
    rw [run_ite, if_pos hpid] at h
    obtain ⟨c₃, _, hclient, h⟩ := bind_eq_ok h
    obtain ⟨rfl, hi₄⟩ := clientAt_ok hclient
    obtain rfl := Option.some.inj (hi₂.symm.trans hi₄)
    obtain ⟨_, _, ⟨⟩, h⟩ := bind_eq_ok h
    have hexit : c.cgiExitStatus ≠ 0 := by
      rw [hfresh.cgiExitStatus]
      decide
    unfold answerCgi at h
    rw [run_ite, if_pos hexit] at h
    obtain ⟨c₄, _, hclient, h⟩ := bind_eq_ok h
    obtain ⟨rfl, hi₅⟩ := clientAt_ok hclient
    obtain rfl := Option.some.inj (hi₂.symm.trans hi₅)
    obtain ⟨_, s₁, hlog, h⟩ := bind_eq_ok h
    obtain rfl := log_ok hlog
    have h₁ : Quiet config stage s _ := quiet_hangUpCalls
      (d := { c with clientToServerState := .done }) hi hfd hfresh.noCgi.cgiToServerFd hindex
    rw [hangUpCalls_of_eq (c := { c with clientToServerState := .done }) hpid] at h₁
    have hneutral : Call.Neutral (.respondClientException c.clientFd) := trivial
    have h₂ := h₁.trans (.log hneutral rfl)
    have hgiven : GivenUp c.clientFd (.respondClientException c.clientFd ::
        .cgiEnd { c with clientToServerState := .done } ::
        .hangUp { c with clientToServerState := .done } :: s.calls) :=
      .head rfl (by simp [Call.givesUp])
    have h₃ := h₂.trans (.change hi (.giveUp hgiven))
    refine h₃.trans (answerException_quiet (h₃.good hs) h hi₂ hgiven (fun _ => ?_) fun _ _ => ?_)
    · exact ⟨hpid, hfresh.noCgi.serverToCgiFd, hfresh.noCgi.cgiToServerFd⟩
    · intro hwriting
      cases hfresh.serverToClientState.symm.trans hwriting

/-! ## Removing clients -/

/-- What is written to the last slot is dropped with it. -/
theorem dropLast_set_last {α : Type} {l : List α} {i : ℕ} (hi : i + 1 = l.length) (a b : α) :
    (l.set i a).dropLast = (l.set i b).dropLast := by
  refine List.ext_getElem? fun j => ?_
  rw [getElem?_dropLast_set, getElem?_dropLast_set]
  split_ifs with hj hij
  · omega
  · rfl
  · rfl

/-- The last element of a list of which one element was replaced. -/
theorem getLast?_set_cases {α : Type} {l : List α} {i : ℕ} {a x : α} (hlt : i < l.length)
    (h : (l.set i a).getLast? = some x) :
    (i + 1 = l.length ∧ x = a) ∨ (i + 1 ≠ l.length ∧ l.getLast? = some x) := by
  rw [List.getLast?_eq_getElem?, List.length_set] at h
  rcases getElem?_set_cases h with ⟨hend, rfl⟩ | ⟨hend, h⟩
  · exact .inl ⟨by omega, rfl⟩
  · rw [List.getLast?_eq_getElem?]
    exact .inr ⟨by omega, h⟩

theorem getLast?_set_isSome {α : Type} {l : List α} {x : α} (h : l.getLast? = some x) (i : ℕ) (a : α) :
    ∃ y, (l.set i a).getLast? = some y := by
  have hne : l.set i a ≠ [] := by
    intro hnil
    rw [List.set_eq_nil_iff] at hnil
    rw [hnil] at h
    cases h
  exact ⟨_, List.getLast?_eq_some_getLast hne⟩

/-- What is left when a client was taken out of its slot. -/
theorem eraseClient_ok {fd : ℤ} {i : ℕ} {u : Unit} (h : eraseClient fd i s = .ok u s') :
    ∃ s₁ c j last this src k lastPfd, removeCgiToServerFd fd s = .ok () s₁ ∧
      s₁.clients[i]? = some c ∧ s₁.fdToClientIndex.lookup c.clientFd = some j ∧
      s₁.clients.getLast? = some last ∧ s₁.fdToPfdIndex.lookup c.clientFd = some k ∧
      s₁.pfds.getLast? = some lastPfd ∧
      (s₁.clients.set i { c with clientFd := -1 })[j]? = some this ∧
      (s₁.clients.set i { c with clientFd := -1 }).getLast? = some src ∧
      s' = { s₁.dropped c.clientFd k lastPfd with
        clients := ((s₁.clients.set i { c with clientFd := -1 }).set j (this.assign src)).dropLast
        fdToClientIndex := (repoint s₁.fdToClientIndex last j).erase c.clientFd
        calls := .assign this src :: .close c.clientFd true :: s₁.calls } := by
  obtain ⟨_, s₁, hremove, h⟩ := bind_eq_ok h
  obtain ⟨c, _, hclient, h⟩ := bind_eq_ok h
  obtain ⟨rfl, hi⟩ := clientAt_ok hclient
  obtain ⟨_, _, ⟨⟩, h⟩ := bind_eq_ok h
  obtain ⟨j, _, hlookup, h⟩ := bind_eq_ok h
  obtain ⟨rfl, hj⟩ := lookupAt_ok hlookup
  obtain ⟨_, _, ⟨⟩, h⟩ := bind_eq_ok h
  cases hlast : s₁.clients.getLast? with
  | none =>
    rw [hlast] at h
    cases h
  | some last =>
    rw [hlast] at h
    obtain ⟨_, _, ⟨⟩, h⟩ := bind_eq_ok h
    obtain ⟨_, s₂, hfd, h⟩ := bind_eq_ok h
    obtain ⟨k, lastPfd, hk, hlastPfd, rfl⟩ := removeClientFd_ok hfd
    obtain ⟨_, s₃, hmodify, h⟩ := bind_eq_ok h
    obtain ⟨c', hi', rfl⟩ := modifyClient_ok hmodify
    obtain rfl : c' = c := Option.some.inj (hi'.symm.trans hi)
    obtain ⟨this, src, hthis, hsrc, rfl⟩ := swapRemoveClient_ok h
    exact ⟨s₁, c', j, last, this, src, k, lastPfd, hremove, hi, hj, hlast, hk, hlastPfd, hthis, hsrc,
      rfl⟩

theorem repoint_congr {index : Map ℤ ℕ} {c d : Client} {i : ℕ}
    (hfds : ∀ fdType, d.fdOf fdType = c.fdOf fdType) : repoint index d i = repoint index c i := by
  have hclient : d.clientFd = c.clientFd := hfds .client
  have hto : d.serverToCgiFd = c.serverToCgiFd := hfds .serverToCgi
  have hfrom : d.cgiToServerFd = c.cgiToServerFd := hfds .cgiToServer
  simp only [repoint, hclient, hto, hfrom]

/-- Taking a client out of its slot is the same for a client that differs only in what is dropped
with it. -/
theorem erase_action {i k : ℕ} {c d last this src : Client} {lastPfd : Pollfd}
    (hi : s.clients[i]? = some d) (hfds : ∀ fdType, d.fdOf fdType = c.fdOf fdType)
    (hchunk : d.chunkedReadState = c.chunkedReadState) (hpid : d.cgiPid = c.cgiPid)
    (hlast : s.clients.getLast? = some last)
    (hk : s.fdToPfdIndex.lookup d.clientFd = some k) (hlastPfd : s.pfds.getLast? = some lastPfd)
    (hthis : (s.clients.set i { d with clientFd := -1 })[i]? = some this)
    (hsrc : (s.clients.set i { d with clientFd := -1 }).getLast? = some src)
    (hpipe : c.cgiToServerFd = -1) (hremoved : c.beingRemoved = true)
    (hreaped : NoEarlyRemoval s.calls → c.cgiPid = -1) :
    Action config stage { s with clients := s.clients.set i c } { s.dropped d.clientFd k lastPfd with
      clients := ((s.clients.set i { d with clientFd := -1 }).set i (this.assign src)).dropLast
      fdToClientIndex := (repoint s.fdToClientIndex last i).erase d.clientFd
      calls := .assign this src :: .close d.clientFd true :: s.calls } := by
  have hlt := (List.getElem?_eq_some_iff.1 hi).1
  have hfd : d.clientFd = c.clientFd := hfds .client
  obtain rfl := Option.some.inj (hthis.symm.trans (getElem?_set_self_of hi _))
  obtain ⟨last', hlast'⟩ := getLast?_set_isSome hlast i c
  have hlasts : repoint s.fdToClientIndex last i = repoint s.fdToClientIndex last' i := by
    rcases getLast?_set_cases hlt hlast' with ⟨hend, rfl⟩ | ⟨-, hsame⟩
    · rw [List.getLast?_eq_getElem?, show s.clients.length - 1 = i by omega, hi] at hlast
      cases hlast
      exact repoint_congr hfds
    · rw [Option.some.inj (hlast.symm.trans hsame)]
  have hsrc' : i + 1 ≠ s.clients.length → src = last' := by
    intro hend
    rcases getLast?_set_cases hlt hlast' with ⟨hend', -⟩ | ⟨-, hsame'⟩
    · exact absurd hend' hend
    rcases getLast?_set_cases hlt hsrc with ⟨hend', -⟩ | ⟨-, hsame⟩
    · exact absurd hend' hend
    · exact Option.some.inj (hsame.symm.trans hsame')
  have hclients : ((s.clients.set i { d with clientFd := -1 }).set i
      (Client.assign { d with clientFd := -1 } src)).dropLast =
      ((s.clients.set i c).set i (c.assign last')).dropLast := by
    rw [List.set_set, List.set_set]
    by_cases hend : i + 1 = s.clients.length
    · exact dropLast_set_last hend _ _
    · rw [hsrc' hend, Client.assign, Client.assign, ← hchunk]
  rw [hclients, hlasts, hfd]
  refine .erase i c last' _ src k lastPfd (getElem?_set_self_of hi c) hlast' ⟨hchunk, hpid⟩ ?_
    (hfd ▸ hk)
    hlastPfd hpipe hremoved hreaped
  rw [List.length_set]
  exact hsrc'

/-- A client is marked, and is not read from any more. -/
theorem mark_actions {i k : ℕ} {c : Client} {pfd : Pollfd} (d : Client)
    (hi : s.clients[i]? = some c) (hk : s.fdToPfdIndex.lookup c.clientFd = some k)
    (hpfd : s.pfds[k]? = some pfd) (hfd : d.clientFd = c.clientFd)
    (hkilled : d.cgiKilled = c.cgiKilled) (hpid : d.cgiPid = c.cgiPid) :
    Actions config stage s { s with
      pfds := s.pfds.set k pfd.withoutPollin
      clients := s.clients.set i { c with beingRemoved := true, clientToServerState := .done }
      calls := .removeClient d :: s.calls } := by
  have h₁ : Quiet config stage s { s with
      clients := s.clients.set i { c with beingRemoved := true }
      calls := .removeClient d :: s.calls } := .change hi (.remove d hfd hkilled hpid)
  have hgiven : GivenUp c.clientFd (.removeClient d :: s.calls) :=
    .head rfl (by simp [Call.givesUp, hfd])
  have hstop : Action config stage { s with
      clients := s.clients.set i { c with beingRemoved := true }
      calls := .removeClient d :: s.calls } _ :=
    .stopReading i { c with beingRemoved := true } k pfd (getElem?_set_self_of hi _) hk hpfd hgiven
  have h₂ := h₁.actions.tail hstop
  simpa only [List.set_set] using h₂

/-- Removing a client at once; what was written to the client just before is dropped with it. -/
theorem removeClient_erases {fd : ℤ} {i : ℕ} {c d : Client} {u : Unit} (hs : s.Good)
    (hi : s.clients[i]? = some c) (hindex : s.fdToClientIndex.lookup fd = some i)
    (hfds : ∀ fdType, d.fdOf fdType = c.fdOf fdType) (hkilled : d.cgiKilled = c.cgiKilled)
    (hpid : d.cgiPid = c.cgiPid) (hchunk : d.chunkedReadState = c.chunkedReadState)
    (hkeep : ¬ (c.cgiKilled = false ∧ c.cgiPid ≠ -1))
    (h : removeClient env fd { s with clients := s.clients.set i d } = .ok u s') :
    Actions config stage s s' := by
  obtain ⟨i', d', k, pfd, s₁, hindex', hi', hk, hpfd, hs₁, hcases⟩ := removeClient_ok h
  obtain rfl := Option.some.inj (hindex'.symm.trans hindex)
  obtain rfl := Option.some.inj (hi'.symm.trans (getElem?_set_self_of hi d))
  rcases hcases with ⟨hkilled', hpid', -⟩ | ⟨-, herase⟩
  · exact absurd ⟨hkilled ▸ hkilled', hpid ▸ hpid'⟩ hkeep
  have hfd : d'.clientFd = c.clientFd := hfds .client
  have h₂ : Actions config stage s _ := mark_actions d' hi (hfd ▸ hk) hpfd hfd hkilled hpid
  obtain ⟨s₂, d₂, j, last, this, src, k', lastPfd, hremove, hi₂, hj, hlast, hk', hlastPfd, hthis, hsrc,
    rfl⟩ := eraseClient_ok herase
  subst hs₁
  -- then its pipe from its CGI is closed
  obtain ⟨c₂, hc₂, hi₂', hpipe, hfds₂, hchunk₂, hpids, hpid₂, hremoved⟩ :
      ∃ c₂, Actions config stage s { s₂ with clients := s₂.clients.set i' c₂ } ∧
        (s₂.clients.set i' c₂)[i']? = some c₂ ∧ c₂.cgiToServerFd = -1 ∧
        (∀ fdType, d₂.fdOf fdType = c₂.fdOf fdType) ∧ d₂.chunkedReadState = c₂.chunkedReadState ∧
        d₂.cgiPid = c₂.cgiPid ∧ c₂.cgiPid = c.cgiPid ∧ c₂.beingRemoved = true := by
    obtain ⟨i₀, d₀, hindex₀, hi₀, hcases⟩ := removePipeFd_ok hremove
    obtain rfl := Option.some.inj (hindex₀.symm.trans hindex)
    obtain rfl := Option.some.inj (hi₀.symm.trans (getElem?_set_self_of hi' _))
    rcases hcases with ⟨hnone, rfl⟩ | ⟨hheld, kp, lastp, hkp, hlastp, rfl⟩
    · obtain rfl := Option.some.inj (hi₂.symm.trans (getElem?_set_self_of hi' _))
      refine ⟨{ c with beingRemoved := true, clientToServerState := .done }, ?_,
        getElem?_set_self_of hi₂ _, (hfds .cgiToServer).symm.trans hnone, ?_, hchunk, hpid, rfl,
        rfl⟩
      · simp only [List.set_set]
        exact h₂
      · intro fdType
        cases fdType with
        | server => rfl
        | client => exact hfds .client
        | serverToCgi => exact hfds .serverToCgi
        | cgiToServer => exact hfds .cgiToServer
    · obtain rfl := Option.some.inj (hi₂.symm.trans (getElem?_set_self_of hi₀ _))
      have hfrom : d'.cgiToServerFd = c.cgiToServerFd := hfds .cgiToServer
      have h₃ := h₂.tail (.release i₀ { c with beingRemoved := true, clientToServerState := .done }
        .cgiToServer kp lastp [] (getElem?_set_self_of hi _) (.inr rfl) (hfrom ▸ hheld) (hfrom ▸ hkp)
        hlastp (.inl ⟨rfl, fun _ => .inr rfl⟩))
      refine ⟨Client.release { c with beingRemoved := true, clientToServerState := .done }
        .cgiToServer, ?_, getElem?_set_self_of hi₂ _, rfl, ?_, hchunk, hpid, rfl, rfl⟩
      · simp only [List.set_set] at h₃ ⊢
        have hfrom' : Client.fdOf { d' with beingRemoved := true, clientToServerState := .done }
          .cgiToServer = Client.fdOf { c with beingRemoved := true, clientToServerState := .done }
          .cgiToServer := hfrom
        rw [hfrom']
        exact h₃
      · intro fdType
        cases fdType with
        | server => rfl
        | client => exact hfds .client
        | serverToCgi => exact hfds .serverToCgi
        | cgiToServer => rfl
  have hindex₂ := (hs.actions hc₂).index_clientFd hi₂'
  have hfd₂ : d₂.clientFd = c₂.clientFd := hfds₂ .client
  obtain rfl : j = i' := Option.some.inj (hj.symm.trans (hfd₂ ▸ hindex₂))
  refine hc₂.tail (erase_action hi₂ hfds₂ hchunk₂ hpids hlast hk' hlastPfd hthis hsrc hpipe
    hremoved ?_)
  -- the client was not killed, or its CGI is reaped
  intro hno
  rw [hpid₂]
  by_contra hrunning
  have hkilled' : d'.cgiKilled = true := by
    rw [hkilled]
    by_contra hkilled'
    exact hkeep ⟨Bool.eq_false_iff.2 hkilled', hrunning⟩
  have hmem : Call.removeClient d' ∈ s₂.calls := by
    have hsuffix : Call.removeClient d' :: s.calls <:+ s₂.calls := by
      obtain ⟨i₀, d₀, hindex₀, hi₀, ⟨-, rfl⟩ | ⟨-, kp, lastp, -, -, rfl⟩⟩ := removePipeFd_ok hremove
      · exact List.suffix_rfl
      · exact List.suffix_cons _ _
    exact hsuffix.subset List.mem_cons_self
  exact hrunning (hpid ▸ hno d' hmem hkilled')

/-- Removing a client: it is taken out of its slot, or its CGI is killed first. -/
theorem removeClient_actions {fd : ℤ} {u : Unit} (hs : s.Good)
    (h : removeClient env fd s = .ok u s') : Actions config stage s s' := by
  obtain ⟨i, c, k, pfd, s₁, hindex, hi, hk, hpfd, rfl, hcases⟩ := removeClient_ok h
  rcases hcases with ⟨hkilled, hpid, hkill⟩ | ⟨hkeep, -⟩
  · have h₁ : Actions config stage s _ := mark_actions c hi hk hpfd rfl rfl rfl
    exact h₁.trans (killCgi_quiet hkill hindex (getElem?_set_self_of hi _) fun _ _ => rfl).1.actions
  · have h' : removeClient env fd { s with clients := s.clients.set i c } = .ok u s' := by
      rw [set_self_of hi]
      exact h
    exact removeClient_erases hs hi hindex (fun _ => rfl) rfl rfl rfl hkeep h'

theorem handlePollerr_actions {fd : ℤ} {fdType : FdType} {u : Unit} (hs : s.Good)
    (h : handlePollerr env fd fdType s = .ok u s') : Actions config stage s s' := by
  unfold handlePollerr at h
  rw [run_ite, run_ite] at h
  split_ifs at h
  · obtain ⟨i, c, hindex, hi, -⟩ := removePipeFd_ok h
    exact (removePipeFd_quiet (.inl rfl) h hindex hi nofun).1.actions
  · exact removeClient_actions hs h
  · cases h

theorem sweepClient_actions {i : ℕ} {u : Unit} (hs : s.Good)
    (h : sweepClient config env i s = .ok u s') : Actions config stage s s' := by
  obtain ⟨_, _, ⟨⟩, h⟩ := bind_eq_ok h
  rw [run_ite] at h
  split_ifs at h
  · exact removeClient_actions hs h
  · cases h
    exact .refl

/-! ## Reaping children -/

theorem waitpid_ok {child : ℤ × Option ℤ} (h : waitpid env s = .ok child s') :
    (∃ errno, s' = { s with errno := errno } ∧
        (child.1 = 0 ∨ errno = some .echild)) ∨
      (child.1 ∈ s.children ∧ s' = { s with
        children := s.children.erase child.1
        calls := .waitpid child.1 s.errno :: s.calls }) := by
  obtain ⟨_, _, ⟨⟩, h⟩ := bind_eq_ok h
  rw [run_ite] at h
  split_ifs at h
  · cases h
    exact .inl ⟨_, rfl, .inr rfl⟩
  · cases hchild : env.waitpid with
    | none =>
      rw [hchild] at h
      cases h
      exact .inl ⟨s.errno, rfl, .inl rfl⟩
    | some p =>
      rw [hchild] at h
      dsimp only at h
      rw [run_ite] at h
      split_ifs at h with hmem
      · cases h
        exact .inr ⟨hmem, rfl⟩
      · cases h
        exact .inl ⟨s.errno, rfl, .inl rfl⟩

/-- Reaping a child with an entry in `_cgi_pid_to_client_fd`, once it is counted. -/
theorem reapClient_actions {childPid : ℤ} {exitStatus : Option ℤ} {u : Unit} (hs : s.Good)
    (hchild : childPid ∈ s.children) (herrno : s.errno ≠ some .echild)
    (h : reapClient config env childPid exitStatus { s with
      children := s.children.erase childPid
      unreapedCgiCount := s.unreapedCgiCount - 1
      calls := .waitpid childPid s.errno :: s.calls } = .ok u s') :
    Actions config stage s s' := by
  obtain ⟨_, _, ⟨⟩, h⟩ := bind_eq_ok h
  obtain ⟨clientFd, _, hlookup, h⟩ := bind_eq_ok h
  obtain ⟨rfl, hpid⟩ := lookupAt_ok hlookup
  obtain ⟨_, _, ⟨⟩, h⟩ := bind_eq_ok h
  obtain ⟨i, _, hlookup, h⟩ := bind_eq_ok h
  obtain ⟨rfl, hindex⟩ := lookupAt_ok hlookup
  obtain ⟨_, _, ⟨⟩, h⟩ := bind_eq_ok h
  cases hi : s.clients[i]? with
  | none =>
    simp only [hi] at h
    cases h
  | some c =>
    simp only [hi] at h
    obtain ⟨_, _, ⟨⟩, h⟩ := bind_eq_ok h
    obtain ⟨_, s₁, hmodify, h⟩ := bind_eq_ok h
    obtain ⟨c₁, hi₁, rfl⟩ := modifyClient_ok hmodify
    obtain rfl : c₁ = c := Option.some.inj (hi₁.symm.trans hi)
    obtain ⟨_, _, hassert, h⟩ := bind_eq_ok h
    obtain ⟨rfl, hdone⟩ := assert_ok hassert
    obtain ⟨_, _, hassert, h⟩ := bind_eq_ok h
    obtain ⟨rfl, hwritten⟩ := assert_ok hassert
    obtain ⟨_, _, hassert, h⟩ := bind_eq_ok h
    obtain ⟨rfl, hread⟩ := assert_ok hassert
    obtain ⟨_, _, hassert, h⟩ := bind_eq_ok h
    obtain ⟨rfl, hidle⟩ := assert_ok hassert
    obtain ⟨_, s₂, hmodify, h⟩ := bind_eq_ok h
    obtain ⟨c₂, hi₂, rfl⟩ := modifyClient_ok hmodify
    obtain rfl := Option.some.inj (hi₂.symm.trans (getElem?_set_self_of hi _))
    have haction : Action config stage s _ := .reap i c₁ childPid clientFd
      (exitStatus.getD c₁.cgiExitStatus) hi hchild herrno hpid hindex hdone hwritten hread hidle
    have hs₂ := hs.action haction
    simp only [List.set_set] at h
    rw [run_ite, run_ite] at h
    split_ifs at h with hremoved hend
    · unfold reapCalls at haction hs₂
      rw [if_neg (by simp [hremoved])] at haction hs₂
      exact .head haction (removeClient_actions hs₂ h)
    · unfold reapCalls at haction hs₂
      rw [if_pos ⟨Bool.eq_false_iff.2 hremoved, hend⟩] at haction hs₂
      refine .head haction ?_
      have hi₃ := getElem?_set_self_of hi
        { c₁ with cgiPid := -1, cgiExitStatus := exitStatus.getD c₁.cgiExitStatus }
      obtain ⟨c₃, _, hclient, h⟩ := bind_eq_ok h
      obtain ⟨rfl, hi₄⟩ := clientAt_ok hclient
      obtain rfl := Option.some.inj (hi₄.symm.trans hi₃)
      obtain ⟨_, _, ⟨⟩, h⟩ := bind_eq_ok h
      have hsound := hs₂.sound_at hi₃
      have hfrom : c₁.cgiToServerFd = -1 := by
        by_contra hfd
        rw [hsound.fromCgi.1 hfd] at hend
        cases hend
      have hno : Client.NoCgi
          { c₁ with cgiPid := -1, cgiExitStatus := exitStatus.getD c₁.cgiExitStatus } :=
        ⟨rfl, hsound.reaped rfl, hfrom⟩
      refine (answerCgi_quiet hs₂ h hi₃ hno fun _ _ hwriting => ?_).actions
      cases hidle.symm.trans hwriting
    · unfold reapCalls at haction
      rw [if_neg (fun hcond => hend hcond.2)] at haction
      cases h
      exact .single haction

theorem reapChild_actions {again : Bool} (hs : s.Good)
    (h : reapChild config env s = .ok again s') : Actions config stage s s' := by
  obtain ⟨child, s₁, hwait, h⟩ := bind_eq_ok h
  obtain ⟨_, _, ⟨⟩, h⟩ := bind_eq_ok h
  rw [run_ite, run_ite] at h
  rcases waitpid_ok hwait with ⟨errno, rfl, hnone⟩ | ⟨hmem, rfl⟩
  · -- no child is returned
    have hkernel : Actions config stage s { s with errno := errno } :=
      .single (.kernel s.descriptors errno (fun _ _ => rfl) hs.nonneg)
    split_ifs at h with herrno hzero
    · cases h
      exact hkernel
    · cases h
      exact hkernel
    · exact absurd hnone fun h' => h'.elim hzero herrno
  · split_ifs at h with herrno hzero
    · cases h
      exact .single (.wait child.1 s.unreapedCgiCount hmem (.inl ⟨herrno, rfl⟩))
    · have := hs.positive child.1 hmem
      omega
    · obtain ⟨_, _, ⟨⟩, h⟩ := bind_eq_ok h
      obtain ⟨_, _, ⟨⟩, h⟩ := bind_eq_ok h
      rw [run_ite] at h
      split_ifs at h with hentry
      · obtain ⟨_, s₃, hreap, h⟩ := bind_eq_ok h
        cases h
        exact reapClient_actions hs hmem herrno hreap
      · cases h
        exact .single (.wait child.1 (s.unreapedCgiCount - 1) hmem (.inr ⟨hentry, rfl⟩))

end Webserv.Server
