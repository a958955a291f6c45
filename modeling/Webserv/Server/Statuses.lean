import Webserv.Server.Aside

/-!
# The status of a client

A client has the status that it was constructed with until its request is complete: only the answer to
an exception and the end of a CGI set another one, and nothing is read from the client after either
(`Reachable.unmarked`).
-/

namespace Webserv

open Exec

/-- A client has the status `OK` until its request is complete. -/
def Client.Unmarked (c : Client) : Prop := c.clientToServerState ≠ .done → c.status = .ok

theorem Client.Unmarked.change {c c' : Client} (h : c.Unmarked) (hstatus : c'.status = c.status)
    (hstate : c'.clientToServerState = c.clientToServerState ∨ c'.clientToServerState = .done) :
    c'.Unmarked := by
  intro hnot
  rw [hstatus]
  rw [hstate.resolve_right hnot] at hnot
  exact h hnot

namespace Server

/-- Every client has the status `OK` until its request is complete. -/
def Unmarked (s : Server) : Prop := ∀ (j : ℕ) (c : Client), s.clients[j]? = some c → c.Unmarked

/-- The same, but for the client in a slot. -/
def UnmarkedBut (i : ℕ) (s : Server) : Prop :=
  ∀ (j : ℕ) (c : Client), s.clients[j]? = some c → j ≠ i → c.Unmarked

/-- The same, and the request of the client in the slot is complete. -/
def UnmarkedDone (i : ℕ) (s : Server) : Prop := s.UnmarkedBut i ∧ s.DoneAt i

variable {config : Config} {env : Answers} {I : Server → Prop} {s s' : Server} {i : ℕ} {c c' : Client}
  {α : Type}

theorem Unmarked.but (h : s.Unmarked) : s.UnmarkedBut i := fun j c hj _ => h j c hj

theorem UnmarkedDone.unmarked (h : s.UnmarkedDone i) : s.Unmarked := by
  intro j c hj
  by_cases hne : j = i
  · exact fun hnot => absurd (h.2 c (hne ▸ hj)) hnot
  · exact h.1 j c hj hne

/-! ## What the handlers are made of -/

/-- What is kept when the request of a client becomes complete, and when something else than the status
of a client changes. -/
structure Lenient (I : Server → Prop) : Prop where
  others : ∀ {s s' : Server}, s'.clients = s.clients → I s → I s'
  client : ∀ {s : Server} {j : ℕ} {c c' : Client}, I s → s.clients[j]? = some c →
    c'.status = c.status → (c'.clientToServerState = c.clientToServerState ∨
      c'.clientToServerState = .done) → I { s with clients := s.clients.set j c' }

theorem lenient_unmarked : Lenient Unmarked where
  others hsame h j c hj := h j c (hsame ▸ hj)
  client h hi hstatus hstate j d hj := by
    rcases getElem?_set_cases hj with ⟨rfl, rfl⟩ | ⟨-, hj⟩
    · exact (h _ _ hi).change hstatus hstate
    · exact h j d hj

theorem lenient_unmarkedBut (i : ℕ) : Lenient (UnmarkedBut i) where
  others hsame h j c hj := h j c (hsame ▸ hj)
  client h hi hstatus hstate j d hj hne := by
    rcases getElem?_set_cases hj with ⟨rfl, rfl⟩ | ⟨-, hj⟩
    · exact (h _ _ hi hne).change hstatus hstate
    · exact h j d hj hne

theorem lenient_unmarkedDone (i : ℕ) : Lenient (UnmarkedDone i) where
  others hsame h := ⟨(lenient_unmarkedBut i).others hsame h.1, fun c hi => h.2 c (hsame ▸ hi)⟩
  client h hj hstatus hstate := by
    refine ⟨(lenient_unmarkedBut i).client h.1 hj hstatus hstate, fun d hi => ?_⟩
    rcases getElem?_set_cases hi with ⟨rfl, rfl⟩ | ⟨-, hi⟩
    · rcases hstate with hsame | hdone
      · exact hsame.trans (h.2 _ hj)
      · exact hdone
    · exact h.2 d hi

namespace Lenient

variable (h : Lenient I)

include h

theorem aside : Aside I where
  others hclients _ _ hs := h.others hclients hs
  client hs hj houtgoing hstate :=
    h.client hs hj (Prod.ext_iff.1 (Prod.ext_iff.1 houtgoing).2).1 hstate
  call {s _} hs _ := h.others (s := s) rfl hs

theorem modifyClient (j : ℕ) {f : Client → Client} (hstatus : ∀ c, (f c).status = c.status)
    (hstate : ∀ c, (f c).clientToServerState = c.clientToServerState) :
    Preserves I (Server.modifyClient j f) :=
  (leads_modifyClient (fun _ hs => hs) fun hs hj => h.client hs hj (hstatus _) (.inl (hstate _))).preserves

theorem enableWritingToClient (j : ℕ) : Preserves I (Server.enableWritingToClient j) :=
  .bind (preserves_clientAt j) fun _ => .bind .get fun _ => .bind (preserves_lookupAt _ _) fun _ =>
    .bind (h.aside.modifyPfd _ _) fun _ => h.modifyClient j (fun _ => rfl) fun _ => rfl

theorem write (fd : ℤ) (msg : Bytes) : Preserves I (Server.write env fd msg) := by
  unfold Server.write
  split
  · exact .bind (.modify fun s hs => h.others (s := s) rfl hs) fun _ => .pure _
  · exact .bind (.modify fun s hs => h.others (s := s) rfl hs) fun _ => .pure _

theorem writeToCgi (i : ℕ) : Preserves I (Server.writeToCgi env i) := by
  refine .bind (preserves_clientAt i) fun _ => .bind (preserves_assert _) fun _ => ?_
  refine .bind (preserves_assert _) fun _ => .bind (h.modifyClient i (fun _ => rfl) fun _ => rfl) fun _ => ?_
  refine .bind (h.write _ _) fun written => ?_
  cases written with
  | none => exact h.aside.removePipeFd (.inl rfl) _
  | some n =>
    exact .bind (preserves_assert _) fun _ =>
      .ite (fun _ => h.aside.removePipeFd (.inl rfl) _) fun _ => .pure _

end Lenient

/-! ## Exceptions and responses -/

theorem UnmarkedBut.set (h : s.UnmarkedBut i) (c : Client) :
    UnmarkedBut i { s with clients := s.clients.set i c } := by
  intro j d hj hne
  rcases getElem?_set_cases hj with ⟨heq, -⟩ | ⟨-, hj⟩
  · exact absurd heq hne
  · exact h j d hj hne

theorem unmarkedBut_modifyClient (i : ℕ) (f : Client → Client) :
    Preserves (UnmarkedBut i) (modifyClient i f) :=
  (leads_modifyClient (fun _ hs => hs) fun hs _ => hs.set _).preserves

theorem UnmarkedDone.set (h : s.UnmarkedDone i) (hi : s.clients[i]? = some c)
    (hstate : c'.clientToServerState = c.clientToServerState) :
    UnmarkedDone i { s with clients := s.clients.set i c' } :=
  ⟨h.1.set c', doneAt_set hi (hstate.trans (h.2 c hi))⟩

/-- A method that keeps the request complete. -/
theorem unmarkedDone_onClient (i : ℕ) {method : ClientM α}
    (hmethod : Keeps Client.clientToServerState method) :
    Preserves (UnmarkedDone i) (onClient i method) := by
  refine (leads_onClient (fun _ hs => hs) (fun {s c a c'} hs hi hm => hs.set hi ?_)
    fun {s c e c'} hs hi hm => hs.set hi ?_).preserves
  · have hc := hmethod c
    rwa [hm] at hc
  · have hc := hmethod c
    rwa [hm] at hc

/-- The request of a client that is not read from any more counts as complete. -/
theorem returns_modifyClient_done (i : ℕ) :
    Returns (UnmarkedBut i) (modifyClient i fun c => { c with clientToServerState := .done })
      (UnmarkedDone i) :=
  leads_modifyClient (fun _ _ => trivial) fun hs hi => ⟨hs.set _, doneAt_set hi rfl⟩

theorem returns_disableReadingFromClient (i : ℕ) :
    Returns (UnmarkedBut i) (disableReadingFromClient i) (UnmarkedDone i) := by
  refine .bind (returns_of_preserves (preserves_clientAt i)) fun c => ?_
  refine .bind (returns_of_preserves .get) fun _ => ?_
  refine .bind (returns_of_preserves (preserves_lookupAt _ _)) fun k => ?_
  refine .bind (returns_of_preserves ((lenient_unmarkedBut i).aside.modifyPfd _ _)) fun _ => ?_
  exact returns_modifyClient_done i

/-- The answer to an exception is the last thing for which the request of its client counts. -/
theorem returns_respondClientException (status : Status) (i : ℕ) :
    Returns (UnmarkedBut i) (respondClientException config env status i) (UnmarkedDone i) := by
  have haside := (lenient_unmarkedBut i).aside
  have herror : ∀ pages, Preserves (UnmarkedDone i) (onClient i (Client.respondWithError env.fs pages)) :=
    fun pages => unmarkedDone_onClient i
      ((Client.keeps_respondWithError _ pages).of_comp Client.clientToServerState fun _ => rfl)
  refine .bind (returns_of_preserves (preserves_clientAt i)) fun _ => ?_
  refine .bind (returns_of_preserves (haside.log rfl)) fun _ => ?_
  refine .bind (returns_of_preserves (unmarkedBut_modifyClient i _)) fun _ => ?_
  refine .bind (returns_of_preserves (preserves_clientAt i)) fun _ => ?_
  refine .bind (returns_of_preserves (haside.killCgi _)) fun _ => ?_
  refine .bind (returns_disableReadingFromClient i) fun _ => ?_
  refine .bind (returns_of_preserves (preserves_of_reads (reads_getServer i))) fun _ => ?_
  refine .bind (returns_of_preserves (herror _)) fun _ => ?_
  exact returns_of_preserves ((lenient_unmarkedDone i).enableWritingToClient i)

theorem returns_cgiEnd (i : ℕ) :
    Returns (UnmarkedDone i) (cgiEnd config env i) (UnmarkedDone i) := by
  have hextract : Keeps Client.clientToServerState Client.extractCGIDocumentResponseHeaders :=
    Client.keeps_extractCGIDocumentResponseHeaders.of_comp Client.clientToServerState fun _ => rfl
  refine .bind (returns_of_preserves (preserves_clientAt i)) fun c => ?_
  refine .bind (returns_of_preserves ((lenient_unmarkedDone i).aside.log rfl)) fun _ => .ite ?_ ?_
  · exact (returns_respondClientException _ i).mono (fun _ hs => hs.1) fun _ hs => hs
  · refine .bind (returns_of_preserves (unmarkedDone_onClient i hextract)) fun _ => ?_
    refine .bind (returns_of_preserves (unmarkedDone_onClient i
      (Client.keeps_prependResponseHeader fun _ _ => rfl))) fun _ => ?_
    exact returns_of_preserves ((lenient_unmarkedDone i).enableWritingToClient i)

/-! ## Removing clients -/

theorem unmarked_swapRemoveClient (k : ℕ) : Preserves Unmarked (swapRemoveClient k) := by
  refine .bind_get fun s hs => ?_
  cases hk : s.clients[k]? with
  | none => exact .throw _
  | some this =>
    cases hlast : s.clients.getLast? with
    | none => exact .throw _
    | some src =>
      refine .bind (lenient_unmarked.aside.log rfl) fun _ => .modify fun s₁ hs₁ => ?_
      intro j d hj
      rcases IndexedVector.getElem?_dropLast_set_iff.1 hj with ⟨-, -, rfl⟩ | ⟨-, -, hj⟩
      · obtain ⟨l, hl⟩ := List.mem_iff_getElem?.1 (List.mem_of_getLast? hlast)
        exact hs l src hl
      · exact hs₁ j d hj

theorem unmarked_removeClient (fd : ℤ) : Preserves Unmarked (removeClient env fd) := by
  have h := lenient_unmarked.aside
  have hnote : ∀ call, Preserves Unmarked (log call) := fun call => .modify fun _ hs => hs
  have herase : ∀ i, Preserves Unmarked (eraseClient fd i) := by
    intro i
    refine .bind (h.removePipeFd (.inr rfl) fd) fun _ => .bind (preserves_clientAt i) fun c => ?_
    refine .bind .get fun s => .bind (preserves_lookupAt _ _) fun k => .bind .get fun s => ?_
    cases s.clients.getLast? with
    | none => exact .throw _
    | some last =>
      refine .bind (h.modify (fun _ => rfl) (fun _ => rfl) fun _ => rfl) fun _ => ?_
      refine .bind (h.removeClientFd _) fun _ => ?_
      exact .bind (lenient_unmarked.modifyClient i (fun _ => rfl) fun _ => rfl) fun _ =>
        unmarked_swapRemoveClient k
  refine .bind (preserves_assert _) fun _ => .bind (preserves_getClient fd) fun i => ?_
  refine .bind (preserves_clientAt i) fun _ => .bind (hnote _) fun _ => ?_
  refine .bind (h.modifyClient i (fun _ => rfl) fun _ => .inl rfl) fun _ => ?_
  refine .bind (h.disableReadingFromClient i) fun _ => .bind (preserves_clientAt i) fun _ => ?_
  exact .ite (fun _ => h.killCgi fd) fun _ => herase i

/-! ## Reading -/

theorem unmarked_answerRequest (i : ℕ) (d : Client) :
    Preserves (UnmarkedDone i) (answerRequest config env i d) := by
  have h := lenient_unmarkedDone i
  have hmodify : ∀ {f : Client → Client}, (∀ c, (f c).status = c.status) →
      (∀ c, (f c).clientToServerState = c.clientToServerState) →
      Leads (UnmarkedDone i) (modifyClient i f) (fun _ => UnmarkedDone i) (UnmarkedDone i) :=
    fun hstatus hstate => (h.modifyClient i hstatus hstate).leads fun _ hs => hs
  refine (leads_answerRequest (fun _ hs => hs) (fun way => ?_) ?_ (fun _ => ?_) fun _ => ?_).preserves
  · have hkeeps : Keeps Client.clientToServerState (way.respond env.fs) :=
      (Client.keeps_respond way).of_comp Client.clientToServerState fun _ => rfl
    exact (Preserves.bind (unmarkedDone_onClient i hkeeps) fun _ => h.enableWritingToClient i).leads
      fun _ hs => hs
  · exact (h.aside.startCgi i).leads fun _ hs => hs
  · exact hmodify (fun _ => rfl) fun _ => rfl
  · exact hmodify (fun _ => rfl) fun _ => rfl

/-- Reading a request keeps the status of its client. -/
theorem unmarked_readClient (i : ℕ) (fd : ℤ) (received : Bytes) :
    Preserves Unmarked (readClient config env i fd received) := by
  have hset : ∀ {s : Server} {c c' : Client}, s.Unmarked → s.clients[i]? = some c →
      c' = finalState (Client.appendReadString received c) →
      Unmarked { s with clients := s.clients.set i c' } := by
    rintro s c c' hs hi rfl j d hj
    rcases getElem?_set_cases hj with ⟨rfl, rfl⟩ | ⟨-, hj⟩
    · intro hnot
      have hstatus : (finalState (Client.appendReadString received c)).status = c.status :=
        (congrArg Client.status (Client.sameParsing_appendReadString received c).unparsed_eq :)
      have hkept := Client.kept_appendReadString received c
      exact hstatus.trans (hs j c hi fun hdone => hnot (hkept.done hdone).1)
    · exact hs j d hj
  have hread : Preserves Unmarked (onClient i (Client.appendReadString received)) :=
    (leads_onClient (fun _ hs => hs) (fun hs hi hm => hset hs hi (by rw [hm]; rfl))
      fun hs hi hm => hset hs hi (by rw [hm]; rfl)).preserves
  have hdispatch : Preserves (UnmarkedDone i) (dispatch config env i) :=
    .bind (preserves_clientAt i) fun d => .bind ((lenient_unmarkedDone i).aside.log rfl) fun _ =>
      unmarked_answerRequest i d
  refine .bind (preserves_clientAt i) fun _ => .bind (lenient_unmarked.aside.log rfl) fun _ => ?_
  refine .bind hread fun _ => (Leads.bind (leads_clientAt (fun _ hs => hs) i) fun c => ?_).preserves
  rintro s ⟨hs, hi⟩
  rw [run_ite]
  split_ifs with hdone
  · -- from here on the request of the client is complete
    have hstart : s.UnmarkedDone i := by
      refine ⟨hs.but, fun d hd => ?_⟩
      obtain rfl := Option.some.inj (hd.symm.trans hi)
      exact hdone
    have hres := hdispatch s hstart
    cases hr : dispatch config env i s with
    | ok u s' =>
      rw [hr] at hres
      exact hres.unmarked
    | error e s' =>
      rw [hr] at hres
      exact hres.unmarked
  · exact hs

theorem unmarked_readFd (i : ℕ) (fd : ℤ) (fdType : FdType) :
    Preserves Unmarked (readFd config env i fd fdType) := by
  have h := lenient_unmarked
  have hread : Preserves Unmarked (read env) := by
    unfold read
    cases env.read with
    | none => exact .throw _
    | some received => exact .pure _
  have hcgi : ∀ received, Preserves Unmarked (readCgi i received) := fun received =>
    .bind (preserves_clientAt i) fun _ => .bind (preserves_assert _) fun _ =>
      .bind (h.aside.log rfl) fun _ => h.modifyClient i (fun _ => rfl) fun _ => rfl
  refine .bind hread fun received => .bind (h.modifyClient i (fun _ => rfl) fun _ => rfl) fun _ => ?_
  refine .ite (fun _ => ?_) fun _ => .bind ?_ fun _ => .pure _
  · refine .bind (preserves_assert _) fun _ => .bind (preserves_clientAt i) fun c => ?_
    exact .bind (unmarked_removeClient _) fun _ => .pure _
  · refine .bind (preserves_clientAt i) fun _ => .bind (preserves_assert _) fun _ => ?_
    exact .ite (fun _ => unmarked_readClient i fd received) fun _ =>
      .ite (fun _ => hcgi received) fun _ => .throw _

theorem unmarked_acceptClient {serverFd : ℤ} {u : Unit} (hs : s.Unmarked)
    (h : acceptClient config env serverFd s = .ok u s') : s'.Unmarked := by
  obtain ⟨fd, port, -, -, rfl⟩ := acceptClient_ok h
  intro j c hj
  dsimp only at hj
  rcases Nat.lt_or_ge j s.clients.length with hlt | hge
  · rw [List.getElem?_append_left hlt] at hj
    exact hs j c hj
  · rw [List.getElem?_append_right hge] at hj
    obtain rfl := List.mem_singleton.1 (List.mem_of_getElem? hj)
    exact fun _ => rfl

theorem unmarked_handlePollin {fd : ℤ} {fdType : FdType} {skip : Bool} (hs : s.Unmarked)
    (h : handlePollin config env fd fdType s = .ok skip s') : s'.Unmarked := by
  unfold handlePollin at h
  rw [run_ite] at h
  split_ifs at h
  · obtain ⟨_, s₁, haccept, h⟩ := bind_eq_ok h
    cases h
    exact unmarked_acceptClient hs haccept
  · obtain ⟨_, _, hassert, h⟩ := bind_eq_ok h
    obtain ⟨rfl, -⟩ := assert_ok hassert
    obtain ⟨i, _, hget, h⟩ := bind_eq_ok h
    obtain ⟨rfl, -⟩ := getClient_ok hget
    have hread : Preserves Unmarked (readFd config env i fd fdType) := unmarked_readFd i fd fdType
    obtain hok | ⟨status, s₁, herror, h⟩ := catchClientException_ok h
    · exact hread.of_ok hs hok
    · have hs₁ := hread s hs
      rw [herror] at hs₁
      obtain ⟨_, s₂, hanswer, h⟩ := bind_eq_ok h
      cases h
      exact ((returns_respondClientException status i).of_ok (Unmarked.but hs₁) hanswer).unmarked

/-! ## Writing -/

theorem unmarked_writeToClient (i : ℕ) : Preserves Unmarked (writeToClient env i) := by
  have h := lenient_unmarked
  refine .bind (preserves_clientAt i) fun c => .bind (preserves_assert _) fun _ => ?_
  refine .bind (preserves_assert _) fun _ => .bind (h.modifyClient i (fun _ => rfl) fun _ => rfl) fun _ => ?_
  refine .bind (h.write _ _) fun written => ?_
  cases written with
  | none => exact unmarked_removeClient _
  | some written =>
    exact .bind (preserves_assert _) fun _ => .ite (fun _ => unmarked_removeClient _) fun _ => .pure _

/-- What holds of the statuses is kept in every round. -/
theorem rounds_unmarked : Rounds config Unmarked where
  toAside := lenient_unmarked.aside
  handlePollin _ hs _ h := unmarked_handlePollin hs h
  writeToClient _ hs h := (unmarked_writeToClient _).of_ok hs h
  writeToCgi _ hs h := (lenient_unmarked.writeToCgi _).of_ok hs h
  cgiEnd _ i := (returns_cgiEnd i).mono (fun _ hs => ⟨hs.1.but, hs.2⟩) fun _ hs => hs.unmarked
  removeClient _ fd := unmarked_removeClient fd

end Server

namespace World

open Server

variable {config : Config} {w : World}

/-- **Until its request is complete, the status of a client is the one of its construction.** -/
theorem Reachable.unmarked (h : Reachable config w) : w.server.Unmarked := by
  refine h.rounds rounds_unmarked fun w hstarted j c hj => ?_
  obtain ⟨bindFds, s, hlisten, rfl⟩ := hstarted
  rw [clients_listen hlisten] at hj
  cases hj

end World

end Webserv
