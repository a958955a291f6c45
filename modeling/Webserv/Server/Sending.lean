import Webserv.Server.Coupling
import Webserv.Server.Growth

/-!
# What is left to send

As long as no client is read from after its request is complete and none is removed between the kill
and the reaping of its CGI, a client that is written to has something left of its response
(`Sending`). Of its body it has something left unless its CGI was started with an empty one:
`_startCGI` looks at `_server_to_cgi_state`, which was set when the header was read, and asks for
`POLLOUT` also when all chunks of the body were empty.
-/

namespace Webserv

open Exec Server History

namespace History

/-- No CGI was started that gets a body of which there is nothing. -/
def NoEmptyStart (calls : List Call) : Prop := ∀ pid c, .startCgi pid c ∈ calls →
  c.serverToCgiState = .done ∨ c.body ≠ []

/-- The call starts a CGI that gets a body of which there is nothing. -/
def IsEmptyStart : Call → Bool
  | .startCgi _ c => c.serverToCgiState ≠ .done ∧ c.body = []
  | _ => false

theorem noEmptyStart_iff {calls : List Call} :
    NoEmptyStart calls ↔ ∀ call ∈ calls, IsEmptyStart call = false := by
  refine ⟨fun h call hmem => ?_, fun h pid c hmem => ?_⟩
  · cases call with
    | startCgi pid c =>
      exact decide_eq_false fun hc => (h pid c hmem).elim hc.1 fun hbody => hbody hc.2
    | _ => rfl
  · have hc := of_decide_eq_false (h _ hmem)
    rwa [not_and_or, not_not] at hc

instance {calls : List Call} : Decidable (NoEmptyStart calls) :=
  decidable_of_iff _ noEmptyStart_iff.symm

theorem NoEmptyStart.of_suffix {calls calls' : List Call} (h : NoEmptyStart calls')
    (hs : calls <:+ calls') : NoEmptyStart calls := fun pid c hmem => h pid c (hs.subset hmem)

end History

namespace Server

/-- A client has something left to send to those it writes to. -/
structure Sending (c : Client) : Prop where
  body : c.serverToCgiFd ≠ -1 → c.bodyIndex < c.body.length
  response : c.serverToClientState = .writing → c.responseIndex < c.response.length

/-- No step of the run so far has gone wrong in the ways that leave a client without anything to
send. -/
structure Careful (calls : List Call) : Prop where
  late : NoLateRead calls
  early : NoEarlyRemoval calls
  empty : NoEmptyStart calls

variable {config : Config} {stage : Stage} {s s' : Server} {c c' : Client}

theorem Careful.of_suffix {calls calls' : List Call} (h : Careful calls') (hs : calls <:+ calls') :
    Careful calls := ⟨h.late.of_suffix hs, h.early.of_suffix hs, h.empty.of_suffix hs⟩

/-- A client that was only read from writes to nobody. -/
theorem Sending.of_fresh (h : c.Fresh) : Sending c where
  body hfd := absurd h.noCgi.serverToCgiFd hfd
  response hwriting := nomatch hwriting.symm.trans h.serverToClientState

theorem Sending.congr (h : Sending c) (hfd : c'.serverToCgiFd = c.serverToCgiFd ∨ c'.serverToCgiFd = -1)
    (hbody : c'.body = c.body) (hbodyIndex : c'.bodyIndex = c.bodyIndex)
    (hstate : c'.serverToClientState = c.serverToClientState)
    (hresponse : c.response <+: c'.response) (hindex : c'.responseIndex = c.responseIndex) :
    Sending c' where
  body hne := by
    rcases hfd with heq | heq
    · rw [hbody, hbodyIndex]
      exact h.body (heq ▸ hne)
    · exact absurd heq hne
  response hwriting := by
    rw [hindex]
    exact (h.response (hstate ▸ hwriting)).trans_le hresponse.length_le

theorem Sending.change {new : List Call} (h : Sending c) (hsound : c.Sound)
    (hchange : Change s.calls c new c') (hcareful : Careful (new ++ s.calls)) : Sending c' := by
  have hbefore : Careful s.calls := hcareful.of_suffix (List.suffix_append _ _)
  cases hchange with
  | note _ hsame =>
    have hresponse : c'.response = c.response := (congrArg Client.response hsame :)
    exact h.congr (.inl (congrArg Client.serverToCgiFd hsame :)) (congrArg Client.body hsame :)
      (congrArg Client.bodyIndex hsame :) (congrArg Client.serverToClientState hsame :)
      (hresponse ▸ List.prefix_rfl) (congrArg Client.responseIndex hsame :)
  | read _ received dispatched failed hkept _ _ =>
    -- the request was not complete, so the client has no CGI and is not written to
    have hmem : Call.read c.clientFd c received ∈
        readCalls c.clientFd c received dispatched failed ++ s.calls := by simp [readCalls]
    have hfresh := hsound.unread (hcareful.late _ _ _ hmem)
    have hfd : c'.serverToCgiFd = c.serverToCgiFd := (congrArg Client.serverToCgiFd hkept.core :)
    have hstate : c'.serverToClientState = c.serverToClientState :=
      (congrArg Client.serverToClientState hkept.core :)
    refine ⟨fun hne => absurd (hfd.trans hfresh.noCgi.serverToCgiFd) hne, fun hwriting => ?_⟩
    cases hwriting.symm.trans (hstate.trans hfresh.serverToClientState)
  | readCgi received _ => exact h.congr (.inl rfl) rfl rfl rfl (List.prefix_append _ _) rfl
  | kill | remove | giveUp => exact h.congr (.inl rfl) rfl rfl rfl List.prefix_rfl rfl
  | writeBody _ _ hleft => exact ⟨hleft, h.response⟩
  | writeResponse _ _ hleft => exact ⟨h.body, fun _ => hleft hbefore.late hbefore.early⟩

/-- Starting a CGI with a body. -/
theorem Sending.started {pid fromCgi : ℤ} {toCgi : Option ℤ} (hfresh : c.Fresh)
    (hbody : toCgi ≠ none → c.body ≠ []) : Sending (c.started pid toCgi fromCgi) where
  body hne := by
    cases toCgi with
    | none => exact absurd hfresh.noCgi.serverToCgiFd hne
    | some fd =>
      change c.bodyIndex < c.body.length
      rw [hfresh.bodyIndex]
      exact List.length_pos_iff.2 (hbody nofun)
  response hwriting := by
    rw [Client.serverToClientState_started, hfresh.serverToClientState] at hwriting
    cases hwriting

theorem sending_set {i : ℕ} (h : ∀ c ∈ s.clients, Sending c) (hc' : Sending c') :
    ∀ d ∈ s.clients.set i c', Sending d := by
  intro d hd
  rcases List.mem_or_eq_of_mem_set hd with hd | rfl
  · exact h d hd
  · exact hc'

/-- **Every action leaves the clients something to send.** -/
theorem sending_action (h : Careful s.calls → ∀ c ∈ s.clients, Sending c) (hs : s.Good)
    (haction : Action config stage s s') (hcareful : Careful s'.calls) :
    ∀ c ∈ s'.clients, Sending c := by
  have hbefore : Careful s.calls := hcareful.of_suffix haction.suffix
  have hold := h hbefore
  cases haction with
  | kernel | close | polled | log | orphan | wait | listen | shutDown => exact hold
  | change i c c' new hi hchange =>
    exact sending_set hold ((hold c (List.mem_of_getElem? hi)).change (hs.sound_at hi) hchange hcareful)
  | stopReading i c k pfd hi _ _ _ =>
    exact sending_set hold ((hold c (List.mem_of_getElem? hi)).congr (.inl rfl) rfl rfl rfl
      List.prefix_rfl rfl)
  | answer i c c' k pfd hi _ _ _ hsame hindex hresponse hidle hfirst =>
    refine sending_set hold ⟨fun hne => ?_, fun _ => ?_⟩
    · have hfd : c'.serverToCgiFd = c.serverToCgiFd := (congrArg Client.serverToCgiFd hsame :)
      exact absurd (hfd.trans (hidle hbefore.late).serverToCgiFd) hne
    · -- nothing was sent before
      have hstart := ((hs.sound_at hi).idle (hfirst hbefore.late hbefore.early)).2
      have hzero : c'.responseIndex = 0 := hindex.elim (fun heq => heq.trans hstart) id
      rw [hzero]
      exact List.length_pos_iff.2 hresponse
  | start i c pid toCgi fromCgi hi _ _ _ hnone _ _ _ hfirst =>
    refine sending_set hold (.started (hfirst hbefore.late) fun hto => ?_)
    have hmem := hcareful.empty pid c (by simp)
    exact hmem.resolve_left fun hdone => hto (hnone.2 hdone)
  | release i c fdType k last new hi hpipe _ _ _ _ =>
    have hc := hold c (List.mem_of_getElem? hi)
    rcases hpipe with rfl | rfl
    · exact sending_set hold (hc.congr (.inr rfl) rfl rfl rfl List.prefix_rfl rfl)
    · exact sending_set hold (hc.congr (.inl rfl) rfl rfl rfl List.prefix_rfl rfl)
  | reap i c pid clientFd status hi _ _ _ _ _ _ _ _ =>
    exact sending_set hold ((hold c (List.mem_of_getElem? hi)).congr (.inl rfl) rfl rfl rfl
      List.prefix_rfl rfl)
  | accept fd serverFd serverPort _ =>
    intro c hc
    rcases List.mem_append.1 hc with hc | hc
    · exact hold c hc
    · rw [List.mem_singleton.1 hc]
      exact .of_fresh ((Client.sound_new _ _ _ _).unread nofun)
  | erase i c last this src k lastPfd _ hlast _ _ _ _ _ _ _ =>
    intro d hd
    rcases mem_of_mem_removed hd with hd | rfl
    · exact hold d hd
    · exact (hold last (List.mem_of_getLast? hlast)).congr (.inl rfl) rfl rfl rfl List.prefix_rfl rfl

/-! ## The events of a descriptor -/

/-- There is something left of what `_handlePollout` sends for a descriptor. -/
def HasOutput (s : Server) (fd : ℤ) : FdType → Prop
  | .serverToCgi => ∃ i c, s.fdToClientIndex.lookup fd = some i ∧ s.clients[i]? = some c ∧
    c.bodyIndex < c.body.length
  | .client => ∃ i c, s.fdToClientIndex.lookup fd = some i ∧ s.clients[i]? = some c ∧
    c.responseIndex < c.response.length
  | _ => True

/-- In a state `s`, `_processPfd` handles `POLLIN` and `POLLOUT` of the entry at an index of `_pfds`,
and it gets to `_handlePollout` in the state `s'`. -/
structure CallsPollout (config : Config) (env : Answers) (s : Server) (k : ℕ) (fd : ℤ)
    (fdType : FdType) (s' : Server) : Prop where
  inside : k < s.pfds.length
  entry : (pfdAt env s k).fd = fd
  typed : s.fdToFdType.lookup fd = some fdType
  handled : if (pfdAt env s k).revents.pollin then handlePollin config env fd fdType s = .ok false s'
    else s' = s
  pollout : (pfdAt env s' k).revents.pollout = true

variable {env : Answers} {k : ℕ} {fd : ℤ} {fdType : FdType}

/-- What `_processPfd` does for an entry for which it gets to `_handlePollout`. -/
theorem CallsPollout.processInOut_eq (h : CallsPollout config env s k fd fdType s') :
    processInOut config env k fd fdType (pfdAt env s k).revents.pollin s =
      handlePollout env fd fdType s' := by
  have hhandled := h.handled
  have hin : (if (pfdAt env s k).revents.pollin = true then handlePollin config env fd fdType
      else pure false : ServerM Bool) s = .ok false s' := by
    rw [run_ite]
    split_ifs at hhandled ⊢
    · exact hhandled
    · rw [hhandled]
      rfl
  have hout : (if false = false ∧ (pfdAt env s' k).revents.pollout = true then
      handlePollout env fd fdType else pure () : ServerM Unit) s' = handlePollout env fd fdType s' := by
    rw [if_pos ⟨rfl, h.pollout⟩]
  exact (bind_of_ok hin).trans hout

theorem CallsPollout.actions (h : CallsPollout config env s k fd fdType s') (hs : s.Good) :
    Actions config stage s s' := by
  have hhandled := h.handled
  split_ifs at hhandled
  · exact handlePollin_actions hs h.typed hhandled
  · rw [hhandled]

theorem CallsPollout.grown (h : CallsPollout config env s k fd fdType s') : Grown s s' := by
  have hhandled := h.handled
  split_ifs at hhandled
  · exact handlePollin_grown hhandled
  · rw [hhandled]
    exact .of_eq rfl rfl

/-- The entry that is handled is still there. -/
theorem CallsPollout.exists_entry (h : CallsPollout config env s k fd fdType s') :
    ∃ pfd ∈ s'.pfds, pfd.fd = fd ∧ pfd.revents.pollout = true := by
  have hlen : k < s'.pfds.length := h.inside.trans_le h.grown.length_le
  have hentry := (h.grown.pfdAt_eq h.inside).1.trans h.entry
  have hout := h.pollout
  rw [pfdAt, List.getD_eq_getElem?_getD, List.getElem?_eq_getElem hlen] at hentry hout
  exact ⟨_, List.getElem_mem hlen, hentry, hout⟩

/-- A descriptor that `_handlePollout` is called for leads to a client with something to send. -/
theorem CallsPollout.hasOutput (h : CallsPollout config env s k fd fdType s') (hs' : s'.Good)
    (hmasked : s'.Masked) (hcareful : Careful s'.calls)
    (hsending : ∀ c ∈ s'.clients, Sending c) : HasOutput s' fd fdType := by
  obtain ⟨pfd, hpfd, hfd, hout⟩ := h.exists_entry
  have htype := h.grown.types fd fdType h.typed
  cases fdType with
  | server | cgiToServer => trivial
  | serverToCgi =>
    have hpolls := hs'.typed fd .serverToCgi htype nofun
    obtain ⟨c, hc, hheld⟩ :=
      (hs'.orderly hcareful.late hcareful.early).attached fd .serverToCgi nofun hpolls
    obtain ⟨i, hi⟩ := List.mem_iff_getElem?.1 hc
    have hne : c.serverToCgiFd ≠ -1 := fun heq => hs'.fd_ne hpfd (hfd.trans (hheld.symm.trans heq))
    have hindex := (hs'.held i c .serverToCgi hi hne).2
    exact ⟨i, c, hheld ▸ hindex, hi, (hsending c hc).body hne⟩
  | client =>
    obtain ⟨c, hc, rfl⟩ := List.mem_map.1 (hs'.owned fd (hs'.typed fd .client htype nofun))
    obtain ⟨i, hi⟩ := List.mem_iff_getElem?.1 hc
    have hwriting := ((hmasked.matched pfd hpfd c hc).written hfd).1 ((hmasked.within pfd hpfd).2 hout)
    exact ⟨i, c, hs'.index_clientFd hi, hi, (hsending c hc).response hwriting⟩

end Server

namespace World

variable {config : Config} {env : Answers} {w : World} {s' : Server} {k : ℕ} {fd : ℤ}
  {fdType : FdType}

/-- The server while `_processPfd` handles the events of the entry at an index. -/
def handling (w : World) (env : Answers) (k : ℕ) : Server :=
  { (w.interrupted env).server with
    calls := .handle (pfdAt env w.server k).fd (k < w.server.pfds.length) :: w.server.calls }

theorem Good.handling (hw : w.Good) (env : Answers) (k : ℕ) :
    Actions config .polling w.server (w.handling env k) :=
  .head (.kernel _ _ (fun _ _ => rfl) hw.server.nonneg) (.single (.log _ trivial fun _ => rfl))

/-- **There is something left to send whenever `POLLOUT` is handled**, in a run in which no bytes are
read from a connection after its request was complete, no removal is requested for a client between
the kill and the reaping of its CGI, and no CGI is started that gets a body of which there is
nothing. -/
theorem pollout_hasOutput (h : Reachable config w)
    (hcalls : CallsPollout config env (w.handling env k) k fd fdType s')
    (hlate : NoLateRead s'.calls) (hearly : NoEarlyRemoval s'.calls)
    (hempty : NoEmptyStart s'.calls) :
    processInOut config env k fd fdType (pfdAt env (w.handling env k) k).revents.pollin
        (w.handling env k) = handlePollout env fd fdType s' ∧ HasOutput s' fd fdType := by
  have hcareful : Careful s'.calls := ⟨hlate, hearly, hempty⟩
  have hpolling : Actions config .polling w.server (w.handling env k) := h.good.handling env k
  have hs := h.good.server.actions hpolling
  have hactions : Actions config .polling w.server s' := hpolling.trans (hcalls.actions hs)
  have hs' := h.good.server.actions hactions
  have hmasked : s'.Masked := actions_invariant (fun hs hold haction => hold.action hs haction)
    h.good.server h.masked hactions
  have hsending : Careful s'.calls → ∀ c ∈ s'.clients, Sending c := by
    have hreached : Careful w.server.calls → ∀ c ∈ w.server.clients, Sending c :=
      h.invariant (I := fun s => Careful s.calls → ∀ c ∈ s.clients, Sending c)
        (fun _ c hc => nomatch hc) fun hs hold haction => sending_action hold hs haction
    exact actions_invariant (I := fun s => Careful s.calls → ∀ c ∈ s.clients, Sending c)
      (fun hs hold haction => sending_action hold hs haction) h.good.server hreached hactions
  exact ⟨hcalls.processInOut_eq, hcalls.hasOutput hs' hmasked hcareful (hsending hcareful)⟩

/-- A client asks for a CGI, whose input can then be written to. -/
def writableAnswers (request : Bytes) : List Answers :=
  cgiAnswers 4 request 100 ++ ([{ poll := some fun fd => { pollout := fd = 6 } }, {}] : List Answers)

/-- The entry of the input of the CGI is handled. -/
theorem callsPollout_writable {request : Bytes}
    (hpfds : (after cgiConfig [3] (writableAnswers request)).server.pfds[2]? =
      some { fd := 6, events := { pollout := true }, revents := { pollout := true } })
    (htype : (after cgiConfig [3] (writableAnswers request)).server.fdToFdType.lookup 6 =
      some .serverToCgi) :
    CallsPollout cgiConfig {} ((after cgiConfig [3] (writableAnswers request)).handling {} 2) 2 6
      .serverToCgi ((after cgiConfig [3] (writableAnswers request)).handling {} 2) := by
  have hentry : pfdAt {} ((after cgiConfig [3] (writableAnswers request)).handling {} 2) 2 =
      { fd := 6, events := { pollout := true }, revents := { pollout := true } } := by
    rw [pfdAt, List.getD_eq_getElem?_getD]
    exact congrArg (Option.getD · _) hpfds
  refine ⟨(List.getElem?_eq_some_iff.1 hpfds).1, ?_, htype, ?_, ?_⟩
  · rw [hentry]
  · rw [hentry]
    rfl
  · rw [hentry]

theorem pollout_hasOutput_post :
    HasOutput ((after cgiConfig [3] (writableAnswers postRequest)).handling {} 2) 6 .serverToCgi := by
  have hreach : Reachable cgiConfig (after cgiConfig [3] (writableAnswers postRequest)) :=
    reachable_after (by decide +kernel) (by decide +kernel)
  exact (pollout_hasOutput hreach (callsPollout_writable (by decide +kernel) (by decide +kernel))
    (by decide +kernel) (by decide +kernel) (by decide +kernel)).2

/-- A request with a body that has no chunks but the last. -/
def emptyChunksRequest : Bytes :=
  bytes "POST /a HTTP/1.1\x0d\nHost: a\x0d\nTransfer-Encoding: chunked\x0d\n\x0d\n0\x0d\n\x0d\n"

/-- A CGI is started for an empty body, and nothing is left to write when it can be written to. -/
theorem not_hasOutput_emptyChunks : ¬ ∀ (config : Config) (env : Answers) (w : World) (k : ℕ) (fd : ℤ)
    (fdType : FdType) (s' : Server), Reachable config w →
    CallsPollout config env (w.handling env k) k fd fdType s' → NoLateRead s'.calls →
    HasOutput s' fd fdType := by
  intro h
  have hreach : Reachable cgiConfig (after cgiConfig [3] (writableAnswers emptyChunksRequest)) :=
    reachable_after (by decide +kernel) (by decide +kernel)
  have hnone : ∀ c ∈ (after cgiConfig [3] (writableAnswers emptyChunksRequest)).server.clients,
      c.body = [] := by decide +kernel
  obtain ⟨i, c, -, hi, hlt⟩ := h _ _ _ _ _ _ _ hreach
    (callsPollout_writable (by decide +kernel) (by decide +kernel)) (by decide +kernel)
  rw [hnone c (List.mem_of_getElem? hi)] at hlt
  exact absurd hlt (Nat.not_lt_zero _)

end World

end Webserv
