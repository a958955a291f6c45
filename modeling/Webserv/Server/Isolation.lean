import Webserv.Server.RunTrace

/-!
# Clients do not interfere with each other's parsing

The parse state of a client whose request was not given up is the one that a fresh client gets from
the reads of its connection alone (`Isolated`). This holds as long as a client that is moved to the
slot of a removed one was in the same `_chunked_read_state`: `Client::operator=` does not copy that
field.
-/

namespace Webserv

open Server History Exec IndexedVector

namespace Server

variable (config : Config) (serverFd : ℤ) (serverPort : Bytes)

/-- A fresh client that is fed what was read from the connection of a client has its parse state. -/
def Fed (calls : List Call) (c : Client) : Prop :=
  ∃ c', Client.feed (reads c.clientFd calls)
    (Client.new c.clientFd serverFd serverPort config.clientMaxBodySize) = .ok () c' ∧
      c'.parsing = c.parsing

/-- Every client whose request was not given up has the parse state of its own reads. -/
def Isolated (s : Server) : Prop :=
  ∀ c ∈ s.clients, ¬ GivenUp c.clientFd s.calls → Fed config serverFd serverPort s.calls c

/-- The calls neither accept a connection nor read from it. -/
def Silent (fd : ℤ) (calls : List Call) : Prop :=
  ∀ call ∈ calls, call.accepts fd = false ∧ call.readFrom fd = none

variable {config} {serverFd : ℤ} {serverPort : Bytes} {stage : Stage} {s s' : Server}
  {new calls : List Call} {c d : Client} {fd : ℤ}

theorem silent_nil (fd : ℤ) : Silent fd [] := fun _ hmem => absurd hmem List.not_mem_nil

theorem silent_cons {call : Call} (haccepts : call.accepts fd = false)
    (hread : call.readFrom fd = none) (h : Silent fd calls) : Silent fd (call :: calls) := by
  intro call' hmem
  rcases List.mem_cons.1 hmem with rfl | hmem
  · exact ⟨haccepts, hread⟩
  · exact h call' hmem

theorem Silent.append (h : Silent fd new) (h' : Silent fd calls) : Silent fd (new ++ calls) :=
  fun call hmem => (List.mem_append.1 hmem).elim (h call) (h' call)

theorem reads_append (h : Silent fd new) : reads fd (new ++ calls) = reads fd calls := by
  induction new with
  | nil => rfl
  | cons call new ih =>
    have hcall := h call List.mem_cons_self
    exact (reads_cons hcall.1 hcall.2).trans (ih fun call' hmem => h call' (List.mem_cons_of_mem _ hmem))

theorem not_givenUp_of_append (h : Silent fd new) (hgiven : ¬ GivenUp fd (new ++ calls)) :
    ¬ GivenUp fd calls := fun h' => hgiven (h'.append fun call hmem => (h call hmem).1)

theorem silent_hangUpCalls (fd : ℤ) (c : Client) : Silent fd (hangUpCalls c) := by
  unfold hangUpCalls
  split
  · exact silent_cons rfl rfl (silent_cons rfl rfl (silent_nil fd))
  · exact silent_cons rfl rfl (silent_nil fd)

theorem silent_reapCalls (fd : ℤ) (c : Client) (pid : ℤ) (errno : Option Errno) :
    Silent fd (reapCalls c pid errno) := by
  unfold reapCalls
  refine .append ?_ (silent_cons rfl rfl (silent_nil fd))
  split
  · exact silent_cons rfl rfl (silent_nil fd)
  · exact silent_nil fd

/-- A change reads from the connection of the client only. -/
theorem Change.silent {c' : Client} (h : Change calls c new c') (hne : fd ≠ c.clientFd) :
    Silent fd new := by
  cases h with
  | note | kill | giveUp | writeBody | writeResponse => exact silent_nil fd
  | readCgi | remove => exact silent_cons rfl rfl (silent_nil fd)
  | read _ received dispatched failed =>
    have hread : Silent fd [Call.read c.clientFd c received] :=
      silent_cons rfl (if_neg hne.symm) (silent_nil fd)
    refine .append ?_ (.append ?_ hread)
    · split
      · exact silent_cons rfl rfl (silent_nil fd)
      · exact silent_nil fd
    · cases dispatched with
      | none => exact silent_nil fd
      | some d => exact silent_cons rfl rfl (silent_nil fd)

theorem Fed.of_silent (h : Fed config serverFd serverPort calls c) (hfd : d.clientFd = c.clientFd)
    (hparsing : d.parsing = c.parsing) (hsilent : Silent c.clientFd new) :
    Fed config serverFd serverPort (new ++ calls) d := by
  obtain ⟨c', hfeed, hc'⟩ := h
  refine ⟨c', ?_, hc'.trans hparsing.symm⟩
  rw [hfd, reads_append hsilent]
  exact hfeed

/-- A change of one client that leaves its parse state alone. -/
theorem Isolated.set_client (h : Isolated config serverFd serverPort s) {i : ℕ} {c c' : Client}
    (hi : s.clients[i]? = some c) (hclients : s'.clients = s.clients.set i c')
    (hcalls : s'.calls = new ++ s.calls) (hfd : c'.clientFd = c.clientFd)
    (hsilent : ∀ d ∈ s.clients, Silent d.clientFd new) (hparsing : c'.parsing = c.parsing) :
    Isolated config serverFd serverPort s' := by
  intro d hd hgiven
  rw [hclients] at hd
  rw [hcalls] at hgiven ⊢
  have hmem := List.mem_of_getElem? hi
  rcases List.mem_or_eq_of_mem_set hd with hd | rfl
  · exact (h d hd (not_givenUp_of_append (hsilent d hd) hgiven)).of_silent rfl rfl (hsilent d hd)
  · rw [hfd] at hgiven
    exact (h c hmem (not_givenUp_of_append (hsilent c hmem) hgiven)).of_silent hfd hparsing
      (hsilent c hmem)

/-- A change of none of the clients. -/
theorem Isolated.congr (h : Isolated config serverFd serverPort s) (hclients : s'.clients = s.clients)
    (hcalls : s'.calls = new ++ s.calls) (hsilent : ∀ d ∈ s.clients, Silent d.clientFd new) :
    Isolated config serverFd serverPort s' := by
  intro d hd hgiven
  rw [hclients] at hd
  rw [hcalls] at hgiven ⊢
  exact (h d hd (not_givenUp_of_append (hsilent d hd) hgiven)).of_silent rfl rfl (hsilent d hd)

/-- The read that a client gets is one of its own. -/
theorem Fed.read (h : Fed config serverFd serverPort calls c) {received : Bytes} {c₁ c' : Client}
    {dispatched : Option Client} (hfd : c'.clientFd = c.clientFd)
    (happend : Client.appendReadString received c = .ok () c₁) (hparsing : c'.parsing = c₁.parsing) :
    Fed config serverFd serverPort (readCalls c.clientFd c received dispatched false ++ calls) c' := by
  obtain ⟨c₀, hfeed, hc₀⟩ := h
  have hreads : reads c.clientFd (readCalls c.clientFd c received dispatched false ++ calls) =
      reads c.clientFd calls ++ [received] := by
    have hread : reads c.clientFd (.read c.clientFd c received :: calls) =
        reads c.clientFd calls ++ [received] := reads_read (if_pos rfl) rfl
    cases dispatched with
    | none => exact hread
    | some d => exact (reads_cons rfl rfl).trans hread
  have hsame : SameResult (Client.SameParsing c₀) (Client.appendReadString received c)
      (Client.appendReadString received c₀) :=
    Client.respects_appendReadString received c c₀ ⟨hc₀.symm, rfl, .inl rfl⟩
  rw [happend] at hsame
  rw [Fed, hfd, hreads, Client.feed_append, hfeed]
  dsimp only
  rw [Client.feed_cons]
  generalize Client.appendReadString received c₀ = r at hsame ⊢
  cases hsame with
  | ok a hsame => exact ⟨_, rfl, hsame.parsing_eq.symm.trans hparsing.symm⟩

/-- A change of a client is isolated. -/
theorem Isolated.change (h : Isolated config serverFd serverPort s) (hs : s.Good) {i : ℕ}
    {c c' : Client} (hi : s.clients[i]? = some c) (hchange : Change s.calls c new c') :
    Isolated config serverFd serverPort
      { s with clients := s.clients.set i c', calls := new ++ s.calls } := by
  intro d hd hgiven
  obtain ⟨j, hj⟩ := List.mem_iff_getElem?.1 hd
  rcases getElem?_set_cases hj with ⟨rfl, rfl⟩ | ⟨hne, hj⟩
  · have hc := h c (List.mem_of_getElem? hi)
    have hold : ¬ GivenUp c.clientFd s.calls := fun hgiven' => hgiven <| by
      rw [hchange.clientFd]
      exact hgiven'.append (hchange.accepts c.clientFd)
    rw [hchange.clientFd] at hgiven
    have hnone : Silent c.clientFd [] := silent_nil _
    cases hchange with
    | note _ huntracked =>
      exact (hc hold).of_silent (congrArg Client.clientFd huntracked :)
        (congrArg Client.parsing huntracked :) hnone
    | read _ received dispatched failed hkept _ hparsing =>
      cases failed with
      | true => exact absurd (.head rfl (by simp [Call.givesUp])) hgiven
      | false =>
        obtain ⟨c₁, happend, hc₁⟩ := hparsing rfl
        exact (hc hold).read (congrArg Client.clientFd hkept.core :) happend hc₁
    | readCgi received =>
      have hread : Silent c.clientFd [.readCgi c received] := silent_cons rfl rfl hnone
      exact (hc hold).of_silent rfl rfl hread
    | kill | writeBody | writeResponse => exact (hc hold).of_silent rfl rfl hnone
    | remove d hfd _ _ => exact absurd (.head rfl (by simp [Call.givesUp, hfd])) hgiven
    | giveUp hgiven' => exact absurd hgiven' hgiven
  · have hsilent := hchange.silent (hs.clientFd_ne_of_ne hi hj hne)
    exact (h d (List.mem_of_getElem? hj) (not_givenUp_of_append hsilent hgiven)).of_silent rfl rfl
      hsilent

/-- A client is moved to the slot of a removed one in the same `_chunked_read_state`. -/
theorem Isolated.erase (h : Isolated config serverFd serverPort s) {i : ℕ} {c last this src : Client}
    (hi : s.clients[i]? = some c) (hlast : s.clients.getLast? = some last)
    (hthis : this.chunkedReadState = c.chunkedReadState)
    (hsrc : i + 1 ≠ s.clients.length → src = last)
    (hclients : s'.clients = (s.clients.set i (c.assign last)).dropLast)
    (hcalls : s'.calls = .assign this src :: .close c.clientFd true :: s.calls)
    (hchunks : SameChunkAssigns s'.calls) : Isolated config serverFd serverPort s' := by
  intro d hd hgiven
  rw [hcalls] at hchunks hgiven ⊢
  have hsilent : ∀ fd, Silent fd [.assign this src, .close c.clientFd true] := fun fd =>
    silent_cons rfl rfl (silent_cons rfl rfl (silent_nil fd))
  have hkeep : d ∈ s.clients → Fed config serverFd serverPort
      (.assign this src :: .close c.clientFd true :: s.calls) d := fun hd =>
    (h d hd (not_givenUp_of_append (hsilent _) hgiven)).of_silent rfl rfl (hsilent _)
  rw [hclients] at hd
  obtain ⟨j, hj⟩ := List.mem_iff_getElem?.1 hd
  rcases getElem?_dropLast_set_iff.1 hj with ⟨rfl, hlt, rfl⟩ | ⟨-, -, hj⟩
  · obtain rfl := hsrc (by omega)
    have hsame : this.chunkedReadState = src.chunkedReadState :=
      hchunks.1.resolve_left fun hgiven' => hgiven (hgiven'.cons rfl)
    have heq : c.assign src = src := by
      rw [Client.assign, ← hthis, hsame]
    rw [heq] at hgiven ⊢
    exact (h src (List.mem_of_getLast? hlast) (not_givenUp_of_append (hsilent _) hgiven)).of_silent
      rfl rfl (hsilent _)
  · exact hkeep (List.mem_of_getElem? hj)

/-- **Every action keeps the clients isolated**, if it does not mix their `_chunked_read_state`s. -/
theorem Isolated.action (h : Isolated config serverFd serverPort s) (hs : s.Good)
    (haction : Action config stage s s') (hchunks : SameChunkAssigns s'.calls) :
    Isolated config serverFd serverPort s' := by
  have hnil : ∀ d ∈ s.clients, Silent d.clientFd [] := fun d _ => silent_nil _
  cases haction with
  | kernel | polled => exact h.congr rfl rfl hnil
  | log call hneutral =>
    have hcall : ∀ d ∈ s.clients, Silent d.clientFd [call] := by
      intro d _
      cases call <;> first | exact silent_cons rfl rfl (silent_nil _) | exact absurd hneutral id
    exact h.congr rfl rfl hcall
  | close fd | shutDown fd =>
    have hclose : ∀ d ∈ s.clients, Silent d.clientFd [.close fd true] :=
      fun d _ => silent_cons rfl rfl (silent_nil _)
    exact h.congr rfl rfl hclose
  | change i c c' new hi hchange => exact h.change hs hi hchange
  | stopReading i c k pfd hi _ _ hgiven =>
    have hgiveUp : Change s.calls c [] { c with clientToServerState := .done } := .giveUp hgiven
    exact h.change hs hi hgiveUp
  | answer i c c' k pfd hi _ _ _ hsame _ _ _ _ =>
    exact h.set_client hi rfl rfl (congrArg Client.clientFd hsame :) hnil
      (congrArg Client.parsing hsame :)
  | start i c pid toCgi fromCgi hi _ _ _ _ _ _ _ _ =>
    have hstart : ∀ d ∈ s.clients, Silent d.clientFd (.startCgi pid c :: .addFd fromCgi .cgiToServer ::
        toCgi.toList.map fun fd => Call.addFd fd .serverToCgi) := by
      intro d _
      cases toCgi with
      | none => exact silent_cons rfl rfl (silent_cons rfl rfl (silent_nil _))
      | some fd =>
        exact silent_cons rfl rfl (silent_cons rfl rfl (silent_cons rfl rfl (silent_nil _)))
    exact h.set_client hi rfl rfl Client.clientFd_started hstart Client.parsing_started
  | release i c fdType k last new hi hpipe _ _ _ hnew =>
    have hrelease : ∀ d ∈ s.clients, Silent d.clientFd (new ++ [.close (c.fdOf fdType) true]) := by
      intro d _
      refine .append ?_ (silent_cons rfl rfl (silent_nil _))
      rcases hnew with ⟨rfl, -⟩ | ⟨-, rfl⟩
      · exact silent_nil _
      · exact silent_hangUpCalls _ _
    exact h.set_client hi rfl (List.append_cons _ _ _) (Client.clientFd_release hpipe) hrelease
      (Client.parsing_release hpipe)
  | orphan i c d fd => exact h.congr rfl rfl fun _ _ => silent_hangUpCalls _ d
  | wait pid =>
    have hwait : ∀ d ∈ s.clients, Silent d.clientFd [.waitpid pid s.errno] :=
      fun d _ => silent_cons rfl rfl (silent_nil _)
    exact h.congr rfl rfl hwait
  | reap i c pid clientFd status hi =>
    exact h.set_client hi rfl rfl rfl (fun _ _ => silent_reapCalls _ _ pid _) rfl
  | accept fd serverFd' serverPort' hopen =>
    intro d hd hgiven
    rcases List.mem_append.1 hd with hd | hd
    · obtain ⟨j, hj⟩ := List.mem_iff_getElem?.1 hd
      have hpolls := (hs.held j d .client hj (hs.clientFd_ne hj)).1
      have hne : fd ≠ d.clientFd := fun heq =>
        hs.notMem_of_canOpen hopen (heq ▸ hpolls.1)
      have hsilent : Silent d.clientFd [.acceptClient fd, .addFd fd .client] :=
        silent_cons (decide_eq_false hne) rfl (silent_cons rfl rfl (silent_nil _))
      exact (h d hd (not_givenUp_of_append hsilent hgiven)).of_silent rfl rfl hsilent
    · rw [List.mem_singleton.1 hd]
      have haccepts : (Call.acceptClient fd).accepts fd = true := decide_eq_true rfl
      refine ⟨Client.new fd serverFd serverPort config.clientMaxBodySize, ?_, rfl⟩
      change Client.feed (reads fd (.acceptClient fd :: _)) _ = _
      rw [reads_accepted haccepts]
      rfl
  | erase i c last this src k lastPfd hi hlast hthis hsrc _ _ _ _ _ =>
    exact h.erase hi hlast hthis.1 hsrc rfl rfl hchunks
  | listen fd =>
    have hlisten : ∀ d ∈ s.clients, Silent d.clientFd [.addFd fd .server] :=
      fun d _ => silent_cons rfl rfl (silent_nil _)
    exact h.congr rfl rfl hlisten

end Server

namespace World

variable {config : Config} {w : World}

/-- The parse states of the clients are those of their own reads, in every state of a run. -/
theorem Reachable.isolated (h : Reachable config w) (hchunks : SameChunkAssigns w.server.calls)
    (serverFd : ℤ) (serverPort : Bytes) : Isolated config serverFd serverPort w.server := by
  refine h.invariant (I := fun s => SameChunkAssigns s.calls → Isolated config serverFd serverPort s)
    ?_ ?_ hchunks
  · intro _ c hc
    cases hc
  · intro stage s s' hs hold haction hchunks'
    exact (hold (hchunks'.of_suffix haction.suffix)).action hs haction hchunks'

/-- **Clients do not interfere with each other's parsing**, as long as every client that is moved to
the slot of a removed one was in the same `_chunked_read_state` or had its request given up: the parse
state of every live client whose request was not given up is the one that a fresh client gets from the
reads of its connection, in order. -/
theorem parsing_eq_feed (h : Reachable config w) (hchunks : SameChunkAssigns w.server.calls)
    (serverFd : ℤ) (serverPort : Bytes) : ∀ c ∈ w.server.clients, ¬ GivenUp c.clientFd w.server.calls →
      ∃ c', Client.feed (reads c.clientFd w.server.calls)
        (Client.new c.clientFd serverFd serverPort config.clientMaxBodySize) = .ok () c' ∧
          c'.parsing = c.parsing :=
  h.isolated hchunks serverFd serverPort

/-- Two clients connect, the second one sends something, and the first one disconnects. -/
def disconnectAnswers (received : Bytes) : List Answers :=
  [{ poll := some fun fd => { pollin := fd = 3 } }, { accept := some 4 }, {},
    { poll := some fun fd => { pollin := fd = 3 } }, {}, { accept := some 5 }, {},
    { poll := some fun fd => { pollin := fd = 5 } }, { read := some received }, {}, {}, {},
    { poll := some fun fd => { pollin := fd = 4 } }, {}, { read := some [] }, {}, {}]

theorem parsing_eq_feed_disconnect :
    (after cgiConfig [3] (disconnectAnswers (bytes "GET"))).server.clients.map Client.clientFd = [5] ∧
      ∀ c ∈ (after cgiConfig [3] (disconnectAnswers (bytes "GET"))).server.clients,
        ¬ GivenUp c.clientFd (after cgiConfig [3] (disconnectAnswers (bytes "GET"))).server.calls →
        ∃ c', Client.feed (reads c.clientFd
            (after cgiConfig [3] (disconnectAnswers (bytes "GET"))).server.calls)
          (Client.new c.clientFd 3 (bytes "80") cgiConfig.clientMaxBodySize) = .ok () c' ∧
            c'.parsing = c.parsing := by
  have hreach : Reachable cgiConfig (after cgiConfig [3] (disconnectAnswers (bytes "GET"))) :=
    reachable_after (by decide +kernel) (by decide +kernel)
  exact ⟨by decide +kernel, parsing_eq_feed hreach (by decide +kernel) 3 (bytes "80")⟩

/-- The beginning of a request whose first chunk is not complete. -/
def halfChunk : Bytes :=
  bytes "POST /a HTTP/1.1\x0d\nHost: a\x0d\nTransfer-Encoding: chunked\x0d\n\x0d\n5\x0d\nab"

/-- A client that is moved in the middle of a chunk expects the length of a chunk. -/
theorem not_parsing_eq_feed_halfChunk : ¬ ∀ (config : Config) (w : World), Reachable config w →
    ∀ (serverFd : ℤ) (serverPort : Bytes), ∀ c ∈ w.server.clients,
      ¬ GivenUp c.clientFd w.server.calls →
      ∃ c', Client.feed (reads c.clientFd w.server.calls)
        (Client.new c.clientFd serverFd serverPort config.clientMaxBodySize) = .ok () c' ∧
          c'.parsing = c.parsing := by
  intro h
  have hreach : Reachable cgiConfig (after cgiConfig [3] (disconnectAnswers halfChunk)) :=
    reachable_after (by decide +kernel) (by decide +kernel)
  have hclients : (after cgiConfig [3] (disconnectAnswers halfChunk)).server.clients.map
      (fun c => (c.clientFd, c.chunkedReadState)) = [(5, .readingContentLen)] := by decide +kernel
  have hgiven : ¬ GivenUp 5 (after cgiConfig [3] (disconnectAnswers halfChunk)).server.calls := by
    decide +kernel
  have hfeed : (Exec.finalState (Client.feed
      (reads 5 (after cgiConfig [3] (disconnectAnswers halfChunk)).server.calls)
      (Client.new 5 3 (bytes "80") cgiConfig.clientMaxBodySize))).chunkedReadState = .readingBody := by
    decide +kernel
  obtain ⟨c, hc, heq⟩ := List.map_eq_singleton_iff.1 hclients
  obtain ⟨hfd, hchunk⟩ := Prod.mk.inj heq
  obtain ⟨c', hok, hparsing⟩ := h _ _ hreach 3 (bytes "80") c (by simp [hc]) (hfd ▸ hgiven)
  rw [hfd] at hok
  rw [hok] at hfeed
  have hchunk' : c'.chunkedReadState = c.chunkedReadState :=
    (congrArg Client.chunkedReadState hparsing :)
  rw [hchunk] at hchunk'
  cases hfeed.symm.trans hchunk'

end World

end Webserv
