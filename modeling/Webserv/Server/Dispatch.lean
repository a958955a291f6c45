import Webserv.Server.RunTrace

/-!
# A request is dispatched once

The request of a connection is dispatched by the read that completes it. Reading from the client is
left enabled after that, and every further read dispatches the request again: it may start a second
CGI, or run into the assertion that there is no response yet. As long as nothing is read from a client
whose request is complete (`NoLateRead`), every request is dispatched at most once
(`dispatched_once`).
-/

namespace Webserv

open Server History IndexedVector

namespace Call

/-- The call starts a CGI for a connection. -/
def startsFor (fd : ℤ) : Call → Bool
  | startCgi _ c => c.clientFd = fd
  | _ => false

/-- The call neither accepts a connection, nor dispatches a request, nor starts a CGI. -/
def IsStill : Call → Bool
  | acceptClient _ => false
  | dispatch _ => false
  | startCgi _ _ => false
  | _ => true

theorem accepts_of_isStill {call : Call} (h : call.IsStill) (fd : ℤ) : call.accepts fd = false := by
  cases call <;> first | rfl | cases h

theorem dispatches_of_isStill {call : Call} (h : call.IsStill) (fd : ℤ) :
    call.dispatches fd = false := by
  cases call <;> first | rfl | cases h

theorem startsFor_of_isStill {call : Call} (h : call.IsStill) (fd : ℤ) :
    call.startsFor fd = false := by
  cases call <;> first | rfl | cases h

end Call

namespace History

/-- How many CGIs were started for a connection. -/
def cgiStarts (fd : ℤ) (calls : List Call) : ℕ := (session fd calls).countP (Call.startsFor fd)

/-- How often a connection had a call of a kind. -/
def count (kind : ℤ → Call → Bool) (fd : ℤ) (calls : List Call) : ℕ :=
  (session fd calls).countP (kind fd)

variable {kind : ℤ → Call → Bool} {fd : ℤ} {new calls : List Call}

/-- Calls that accept no connection are counted. -/
theorem count_append (h : ∀ call ∈ new, call.accepts fd = false) :
    count kind fd (new ++ calls) = new.countP (kind fd) + count kind fd calls := by
  induction new with
  | nil => exact (Nat.zero_add _).symm
  | cons call new ih =>
    have hrest := ih fun call' hmem => h call' (List.mem_cons_of_mem _ hmem)
    rw [count, List.cons_append, session_cons (h call List.mem_cons_self), List.countP_cons,
      List.countP_cons]
    rw [count] at hrest
    omega

theorem count_accepted {call : Call} (h : call.accepts fd = true) :
    count kind fd (call :: calls) = 0 := by
  rw [count, session_accepted h]
  rfl

end History

namespace Client

/-- A client later on. -/
structure Later (c d : Client) : Prop where
  clientFd : d.clientFd = c.clientFd
  done : c.clientToServerState = .done → d.clientToServerState = .done
  reading : c.cgiToServerState ≠ .notReading → d.cgiToServerState ≠ .notReading

theorem Later.refl (c : Client) : c.Later c := ⟨rfl, id, id⟩

theorem Later.release (c : Client) {fdType : FdType} (h : fdType.IsPipe) :
    c.Later (c.release fdType) := by
  rcases h with rfl | rfl
  · exact ⟨rfl, id, id⟩
  · exact ⟨rfl, id, nofun⟩

theorem Later.started (c : Client) (pid : ℤ) (toCgi : Option ℤ) (fromCgi : ℤ) :
    c.Later (c.started pid toCgi fromCgi) := by
  cases toCgi with
  | none => exact ⟨rfl, id, nofun⟩
  | some fd => exact ⟨rfl, id, nofun⟩

end Client

namespace Server

/-! ## What an action does to the requests -/

variable {config : Config} {stage : Stage} {s s' : Server} {c c' : Client} {calls new : List Call}

theorem Change.later (h : Change calls c new c') : c.Later c' := by
  refine ⟨h.clientFd, h.done, fun hreading => ?_⟩
  cases h with
  | note _ hsame => exact fun heq => hreading ((congrArg Client.cgiToServerState hsame).symm.trans heq)
  | read _ _ _ _ hkept =>
    exact fun heq => hreading ((congrArg Client.cgiToServerState hkept.core).symm.trans heq)
  | readCgi | kill | remove | giveUp | writeBody | writeResponse => exact hreading

/-- What an action does to the requests of the clients. -/
inductive Effect (s s' : Server) : Prop
  | still (new : List Call) (hcalls : s'.calls = new ++ s.calls)
    (hnew : ∀ call ∈ new, call.IsStill = true)
    (hclients : ∀ d ∈ s'.clients, ∃ c ∈ s.clients, c.Later d)
  /-- A client is read from, and its request may be dispatched. -/
  | read (i : ℕ) (c c' : Client) (received : Bytes) (dispatched : Option Client) (failed : Bool)
    (hi : s.clients[i]? = some c)
    (hcalls : s'.calls = readCalls c.clientFd c received dispatched failed ++ s.calls)
    (hclients : s'.clients = s.clients.set i c') (hlater : c.Later c')
    (hdispatched : ∀ d ∈ dispatched, d.clientFd = c.clientFd ∧ d.response = c.response ∧
      c'.clientToServerState = .done)
  /-- A CGI is started for a client. -/
  | start (i : ℕ) (c c' : Client) (pid : ℤ) (new : List Call) (hi : s.clients[i]? = some c)
    (hcalls : s'.calls = .startCgi pid c :: new ++ s.calls)
    (hnew : ∀ call ∈ new, call.IsStill = true) (hclients : s'.clients = s.clients.set i c')
    (hlater : c.Later c') (hreading : c'.cgiToServerState ≠ .notReading)
    (hfirst : NoLateRead s.calls → c.Fresh)
  /-- A client is accepted. -/
  | accept (c : Client) (hcalls : s'.calls =
      .acceptClient c.clientFd :: .addFd c.clientFd .client :: s.calls)
    (hclients : s'.clients = s.clients ++ [c]) (hnew : ∀ d ∈ s.clients, d.clientFd ≠ c.clientFd)

theorem isStill_hangUpCalls (c : Client) : ∀ call ∈ hangUpCalls c, call.IsStill = true := by
  unfold hangUpCalls
  split <;> simp [Call.IsStill]

theorem isStill_reapCalls (c : Client) (pid : ℤ) (errno : Option Errno) :
    ∀ call ∈ reapCalls c pid errno, call.IsStill = true := by
  unfold reapCalls
  split <;> simp [Call.IsStill]

/-- The clients after one of them has changed. -/
theorem later_of_set {i : ℕ} (hi : s.clients[i]? = some c) (hlater : c.Later c')
    (hclients : s'.clients = s.clients.set i c') : ∀ d ∈ s'.clients, ∃ c ∈ s.clients, c.Later d := by
  intro d hd
  rw [hclients] at hd
  rcases List.mem_or_eq_of_mem_set hd with hd | rfl
  · exact ⟨d, hd, .refl d⟩
  · exact ⟨c, List.mem_of_getElem? hi, hlater⟩

theorem later_of_eq (hclients : s'.clients = s.clients) :
    ∀ d ∈ s'.clients, ∃ c ∈ s.clients, c.Later d :=
  fun d hd => ⟨d, hclients ▸ hd, .refl d⟩

theorem Change.effect {i : ℕ} (hi : s.clients[i]? = some c) (h : Change s.calls c new c') :
    Effect s { s with clients := s.clients.set i c', calls := new ++ s.calls } := by
  have hlater := h.later
  cases h with
  | note | kill | giveUp | writeBody | writeResponse =>
    exact .still [] rfl (by simp) (later_of_set hi hlater rfl)
  | readCgi | remove =>
    exact .still [_] rfl (by simp [Call.IsStill]) (later_of_set hi hlater rfl)
  | read _ received dispatched failed hkept hdispatched =>
    exact .read i c c' received dispatched failed hi rfl rfl hlater hdispatched

/-- **Every action has one of the effects.** -/
theorem Action.effect (hs : s.Good) (haction : Action config stage s s') : Effect s s' := by
  cases haction with
  | kernel | polled => exact .still [] rfl (by simp) (later_of_eq rfl)
  | log call hneutral =>
    have hcall : call.IsStill = true := by
      cases call <;> first | rfl | exact absurd hneutral id
    exact .still [call] rfl (by simpa using hcall) (later_of_eq rfl)
  | close fd | shutDown fd => exact .still [.close fd true] rfl (by simp [Call.IsStill]) (later_of_eq rfl)
  | listen fd => exact .still [.addFd fd .server] rfl (by simp [Call.IsStill]) (later_of_eq rfl)
  | change i c c' new hi hchange => exact hchange.effect hi
  | stopReading i c k pfd hi _ _ hgiven =>
    have hgiveUp : Change s.calls c [] { c with clientToServerState := .done } := .giveUp hgiven
    exact .still [] rfl (by simp) (later_of_set hi hgiveUp.later rfl)
  | answer i c c' k pfd hi _ _ _ hsame =>
    have hlater : c.Later c' := by
      refine ⟨(congrArg Client.clientFd hsame :), fun hdone => ?_, fun hreading heq => hreading ?_⟩
      · exact (congrArg Client.clientToServerState hsame).trans hdone
      · exact (congrArg Client.cgiToServerState hsame).symm.trans heq
    exact .still [] rfl (by simp) (later_of_set hi hlater rfl)
  | start i c pid toCgi fromCgi hi _ _ _ _ _ _ _ hfirst =>
    have hnew : ∀ call ∈ Call.addFd fromCgi .cgiToServer ::
        toCgi.toList.map (fun fd => Call.addFd fd .serverToCgi), call.IsStill = true := by
      cases toCgi <;> simp [Call.IsStill]
    have hreading : (c.started pid toCgi fromCgi).cgiToServerState ≠ .notReading := by
      cases toCgi <;> nofun
    exact .start i c _ pid _ hi rfl hnew rfl (.started c pid toCgi fromCgi) hreading hfirst
  | release i c fdType k last new hi hpipe _ _ _ hnew =>
    have hstill : ∀ call ∈ new ++ [.close (c.fdOf fdType) true], call.IsStill = true := by
      intro call hmem
      rcases List.mem_append.1 hmem with hmem | hmem
      · rcases hnew with ⟨rfl, -⟩ | ⟨-, rfl⟩
        · cases hmem
        · exact isStill_hangUpCalls _ call hmem
      · rw [List.mem_singleton.1 hmem]
        rfl
    exact .still _ (List.append_cons _ _ _) hstill (later_of_set hi (.release c hpipe) rfl)
  | orphan i c d fd => exact .still _ rfl (isStill_hangUpCalls d) (later_of_eq rfl)
  | wait pid => exact .still [.waitpid pid s.errno] rfl (by simp [Call.IsStill]) (later_of_eq rfl)
  | reap i c pid clientFd status hi =>
    have hlater : c.Later { c with cgiPid := -1, cgiExitStatus := status } := ⟨rfl, id, id⟩
    exact .still _ rfl (isStill_reapCalls _ pid _) (later_of_set hi hlater rfl)
  | accept fd serverFd serverPort hopen =>
    refine .accept (Client.new fd serverFd serverPort config.clientMaxBodySize) rfl rfl fun d hd => ?_
    obtain ⟨j, hj⟩ := List.mem_iff_getElem?.1 hd
    have hpolls := (hs.held j d .client hj (hs.clientFd_ne hj)).1
    exact fun heq => hs.notMem_of_canOpen hopen ((show d.clientFd = fd from heq) ▸ hpolls.1)
  | erase i c last this src k lastPfd hi hlast =>
    refine .still [.assign this src, .close c.clientFd true] rfl (by simp [Call.IsStill]) fun d hd => ?_
    rcases mem_of_mem_removed hd with hd | rfl
    · exact ⟨d, hd, .refl d⟩
    · exact ⟨last, List.mem_of_getLast? hlast, rfl, id, id⟩

/-! ## What happens once -/

section Once

variable (kind : ℤ → Call → Bool) (Waits : Client → Prop)

/-- Calls of a kind happen to a connection at most once, and only after its client has waited for
them. -/
structure Once (s : Server) : Prop where
  once : ∀ fd, count kind fd s.calls ≤ 1
  waiting : ∀ c ∈ s.clients, Waits c → count kind c.clientFd s.calls = 0

variable {kind Waits}

theorem once_empty : Once kind Waits empty where
  once fd := by
    have hnone : count kind fd empty.calls = 0 := rfl
    omega
  waiting _ hc := nomatch hc

theorem Once.still (h : Once kind Waits s) (hcalls : s'.calls = new ++ s.calls)
    (haccepts : ∀ fd, ∀ call ∈ new, call.accepts fd = false)
    (hkind : ∀ fd, ∀ call ∈ new, kind fd call = false)
    (hclients : ∀ d ∈ s'.clients, ∃ c ∈ s.clients, d.clientFd = c.clientFd ∧ (Waits d → Waits c)) :
    Once kind Waits s' := by
  have hsame : ∀ fd, count kind fd s'.calls = count kind fd s.calls := by
    intro fd
    have hnone : new.countP (kind fd) = 0 := by
      refine List.countP_eq_zero.2 fun call hmem => ?_
      rw [hkind fd call hmem]
      exact Bool.false_ne_true
    rw [hcalls, count_append (haccepts fd), hnone, Nat.zero_add]
  refine ⟨fun fd => (hsame fd).trans_le (h.once fd), fun d hd hwaits => ?_⟩
  obtain ⟨c, hc, hfd, hold⟩ := hclients d hd
  rw [hsame, hfd]
  exact h.waiting c hc (hold hwaits)

/-- It happens to a client that waits for it. -/
theorem Once.happen (h : Once kind Waits s) (hs : s.Good) {i : ℕ} (hi : s.clients[i]? = some c)
    (hwaits : Waits c) (hcalls : s'.calls = new ++ s.calls)
    (haccepts : ∀ fd, ∀ call ∈ new, call.accepts fd = false)
    (hone : new.countP (kind c.clientFd) ≤ 1)
    (hother : ∀ fd ≠ c.clientFd, new.countP (kind fd) = 0)
    (hclients : s'.clients = s.clients.set i c') (hfd : c'.clientFd = c.clientFd)
    (hdone : ¬ Waits c') : Once kind Waits s' := by
  have hsum : ∀ fd, count kind fd s'.calls = new.countP (kind fd) + count kind fd s.calls := by
    intro fd
    rw [hcalls, count_append (haccepts fd)]
  have hnone := h.waiting c (List.mem_of_getElem? hi) hwaits
  refine ⟨fun fd => ?_, fun d hd hwaits' => ?_⟩
  · by_cases heq : fd = c.clientFd
    · rw [hsum, heq, hnone]
      exact hone
    · rw [hsum, hother fd heq, Nat.zero_add]
      exact h.once fd
  · rw [hclients] at hd
    obtain ⟨j, hj⟩ := List.mem_iff_getElem?.1 hd
    rcases getElem?_set_cases hj with ⟨rfl, rfl⟩ | ⟨hne, hj⟩
    · exact absurd hwaits' hdone
    · rw [hsum, hother _ (hs.clientFd_ne_of_ne hi hj hne), Nat.zero_add]
      exact h.waiting d (List.mem_of_getElem? hj) hwaits'

/-- A new connection has no calls yet. -/
theorem Once.accept (h : Once kind Waits s)
    (hcalls : s'.calls = .acceptClient c.clientFd :: .addFd c.clientFd .client :: s.calls)
    (hclients : s'.clients = s.clients ++ [c]) (hnew : ∀ d ∈ s.clients, d.clientFd ≠ c.clientFd)
    (hkind : ∀ fd fd', kind fd (.acceptClient fd') = false ∧ kind fd (.addFd fd' .client) = false) :
    Once kind Waits s' := by
  have haccepted : count kind c.clientFd s'.calls = 0 := by
    rw [hcalls]
    exact count_accepted (decide_eq_true rfl)
  have hsame : ∀ fd ≠ c.clientFd, count kind fd s'.calls = count kind fd s.calls := by
    intro fd hne
    have haccepts : ∀ call ∈ [Call.acceptClient c.clientFd, .addFd c.clientFd .client],
        call.accepts fd = false := by
      simpa [Call.accepts] using hne.symm
    have hcount : count kind fd ([.acceptClient c.clientFd, .addFd c.clientFd .client] ++ s.calls) = _ :=
      count_append haccepts
    rw [hcalls]
    refine hcount.trans ?_
    simp [(hkind fd c.clientFd).1, (hkind fd c.clientFd).2]
  refine ⟨fun fd => ?_, fun d hd hwaits => ?_⟩
  · by_cases heq : fd = c.clientFd
    · rw [heq, haccepted]
      exact Nat.zero_le 1
    · rw [hsame fd heq]
      exact h.once fd
  · rw [hclients] at hd
    rcases List.mem_append.1 hd with hd | hd
    · rw [hsame _ (hnew d hd)]
      exact h.waiting d hd hwaits
    · rw [List.mem_singleton.1 hd]
      exact haccepted

end Once

/-! ## Requests -/

/-- Every request is dispatched at most once, when there is no response yet, and every client gets at
most one CGI. -/
structure DispatchedOnce (s : Server) : Prop where
  dispatched : Once Call.dispatches (fun c => c.clientToServerState ≠ .done) s
  started : Once Call.startsFor (fun c => c.cgiToServerState = .notReading) s
  unanswered : ∀ c, Call.dispatch c ∈ s.calls → c.response = []

theorem accepts_readCalls (c : Client) (received : Bytes) (dispatched : Option Client)
    (failed : Bool) (fd : ℤ) :
    ∀ call ∈ readCalls c.clientFd c received dispatched failed, call.accepts fd = false := by
  cases failed <;> cases dispatched <;> simp [readCalls, Call.accepts]

theorem startsFor_readCalls (c : Client) (received : Bytes) (dispatched : Option Client)
    (failed : Bool) (fd : ℤ) :
    ∀ call ∈ readCalls c.clientFd c received dispatched failed, call.startsFor fd = false := by
  cases failed <;> cases dispatched <;> simp [readCalls, Call.startsFor]

theorem countP_dispatches_readCalls (c : Client) (received : Bytes) (dispatched : Option Client)
    (failed : Bool) (fd : ℤ) : (readCalls c.clientFd c received dispatched failed).countP
      (Call.dispatches fd) = dispatched.toList.countP fun d => d.clientFd = fd := by
  cases failed <;> cases dispatched <;> simp [readCalls, Call.dispatches, List.countP_cons]

/-- The client of a read waits for its request to be dispatched. -/
theorem DispatchedOnce.read (h : s.DispatchedOnce) (hs : s.Good) {i : ℕ} {received : Bytes}
    {dispatched : Option Client} {failed : Bool} (hi : s.clients[i]? = some c)
    (hcalls : s'.calls = readCalls c.clientFd c received dispatched failed ++ s.calls)
    (hclients : s'.clients = s.clients.set i c') (hlater : c.Later c')
    (hdispatched : ∀ d ∈ dispatched, d.clientFd = c.clientFd ∧ d.response = c.response ∧
      c'.clientToServerState = .done) (hunread : c.clientToServerState ≠ .done) :
    s'.DispatchedOnce where
  dispatched := by
    have haccepts := accepts_readCalls c received dispatched failed
    have hcount := countP_dispatches_readCalls c received dispatched failed
    cases dispatched with
    | none =>
      refine h.dispatched.still hcalls haccepts (fun fd call hmem => ?_) fun d hd => ?_
      · have hnone := List.countP_eq_zero.1 (hcount fd) call hmem
        exact Bool.eq_false_iff.2 hnone
      · obtain ⟨c₀, hc₀, hd⟩ := later_of_set hi hlater hclients d hd
        exact ⟨c₀, hc₀, hd.clientFd, mt hd.done⟩
    | some d =>
      obtain ⟨hfd, -, hdone⟩ := hdispatched d rfl
      refine h.dispatched.happen hs hi hunread hcalls haccepts ?_ (fun fd hne => ?_) hclients
        hlater.clientFd fun hnot => hnot hdone
      · rw [hcount]
        exact List.countP_le_length
      · rw [hcount]
        simpa [hfd] using hne.symm
  started := by
    refine h.started.still hcalls (accepts_readCalls c received dispatched failed)
      (startsFor_readCalls c received dispatched failed) fun d hd => ?_
    obtain ⟨c₀, hc₀, hd⟩ := later_of_set hi hlater hclients d hd
    exact ⟨c₀, hc₀, hd.clientFd, not_imp_not.1 hd.reading⟩
  unanswered d hd := by
    rw [hcalls] at hd
    rcases List.mem_append.1 hd with hd | hd
    · have hmem : d ∈ dispatched := by
        cases failed <;> cases dispatched <;> simp_all [readCalls]
      exact (hdispatched d hmem).2.1.trans ((hs.sound_at hi).unread hunread).response
    · exact h.unanswered d hd

/-- A CGI is started for a client that has had none. -/
theorem DispatchedOnce.start (h : s.DispatchedOnce) (hs : s.Good) {i : ℕ} {pid : ℤ}
    (hi : s.clients[i]? = some c) (hcalls : s'.calls = .startCgi pid c :: new ++ s.calls)
    (hnew : ∀ call ∈ new, call.IsStill = true) (hclients : s'.clients = s.clients.set i c')
    (hlater : c.Later c') (hreading : c'.cgiToServerState ≠ .notReading) (hfirst : c.Fresh) :
    s'.DispatchedOnce where
  dispatched := by
    refine h.dispatched.still hcalls ?_ ?_ fun d hd => ?_
    · exact fun fd => List.forall_mem_cons.2 ⟨rfl, fun call hmem => Call.accepts_of_isStill (hnew call hmem) fd⟩
    · exact fun fd => List.forall_mem_cons.2 ⟨rfl, fun call hmem => Call.dispatches_of_isStill (hnew call hmem) fd⟩
    · obtain ⟨c₀, hc₀, hd⟩ := later_of_set hi hlater hclients d hd
      exact ⟨c₀, hc₀, hd.clientFd, mt hd.done⟩
  started := by
    have hnone : ∀ fd, new.countP (Call.startsFor fd) = 0 := by
      refine fun fd => List.countP_eq_zero.2 fun call hmem => ?_
      rw [Call.startsFor_of_isStill (hnew call hmem)]
      exact Bool.false_ne_true
    refine h.started.happen hs hi hfirst.cgiToServerState hcalls ?_ ?_ (fun fd hne => ?_) hclients
      hlater.clientFd hreading
    · exact fun fd => List.forall_mem_cons.2 ⟨rfl, fun call hmem => Call.accepts_of_isStill (hnew call hmem) fd⟩
    · rw [List.countP_cons, hnone, Nat.zero_add]
      split_ifs <;> omega
    · rw [List.countP_cons, hnone, Nat.zero_add, if_neg]
      simpa [Call.startsFor] using hne.symm
  unanswered d hd := by
    rw [hcalls] at hd
    rcases List.mem_append.1 hd with hd | hd
    · rcases List.mem_cons.1 hd with hd | hd
      · cases hd
      · exact absurd (hnew _ hd) Bool.false_ne_true
    · exact h.unanswered d hd

/-- **Every action keeps it**, if it does not read from a client whose request is complete. -/
theorem DispatchedOnce.action (h : s.DispatchedOnce) (hs : s.Good)
    (haction : Action config stage s s') (hlate : NoLateRead s'.calls) : s'.DispatchedOnce := by
  cases haction.effect hs with
  | still new hcalls hnew hclients =>
    have haccepts : ∀ fd, ∀ call ∈ new, call.accepts fd = false :=
      fun fd call hmem => Call.accepts_of_isStill (hnew call hmem) fd
    refine ⟨h.dispatched.still hcalls haccepts (fun fd call hmem => Call.dispatches_of_isStill (hnew call hmem) fd) ?_,
      h.started.still hcalls haccepts (fun fd call hmem => Call.startsFor_of_isStill (hnew call hmem) fd) ?_, ?_⟩
    · intro d hd
      obtain ⟨c, hc, hlater⟩ := hclients d hd
      exact ⟨c, hc, hlater.clientFd, mt hlater.done⟩
    · intro d hd
      obtain ⟨c, hc, hlater⟩ := hclients d hd
      exact ⟨c, hc, hlater.clientFd, not_imp_not.1 hlater.reading⟩
    · intro d hd
      rw [hcalls] at hd
      rcases List.mem_append.1 hd with hd | hd
      · exact absurd (hnew _ hd) Bool.false_ne_true
      · exact h.unanswered d hd
  | read i c c' received dispatched failed hi hcalls hclients hlater hdispatched =>
    have hunread : c.clientToServerState ≠ .done := by
      refine hlate c.clientFd c received ?_
      rw [hcalls]
      exact List.mem_append_left _ (by simp [readCalls])
    exact h.read hs hi hcalls hclients hlater hdispatched hunread
  | start i c c' pid new hi hcalls hnew hclients hlater hreading hfirst =>
    have hlate' : NoLateRead s.calls := hlate.of_suffix (hcalls ▸ List.suffix_append _ _)
    exact h.start hs hi hcalls hnew hclients hlater hreading (hfirst hlate')
  | accept c hcalls hclients hnew =>
    refine ⟨h.dispatched.accept hcalls hclients hnew fun _ _ => ⟨rfl, rfl⟩,
      h.started.accept hcalls hclients hnew fun _ _ => ⟨rfl, rfl⟩, fun d hd => ?_⟩
    rw [hcalls] at hd
    simp only [List.mem_cons, reduceCtorEq, false_or] at hd
    exact h.unanswered d hd

end Server

namespace World

variable {config : Config} {w : World}

/-- **The request of a connection is dispatched at most once**, as long as nothing is read from a
client whose request is complete: no second CGI is started for it, and at its dispatch there is no
response yet. -/
theorem dispatched_once (h : Reachable config w) (hlate : NoLateRead w.server.calls) :
    (∀ fd, dispatches fd w.server.calls ≤ 1 ∧ cgiStarts fd w.server.calls ≤ 1) ∧
      ∀ c, Call.dispatch c ∈ w.server.calls → c.response = [] := by
  have hempty : DispatchedOnce empty := ⟨once_empty, once_empty, fun _ hc => absurd hc List.not_mem_nil⟩
  have honce : w.server.DispatchedOnce := by
    refine h.invariant (I := fun s => NoLateRead s.calls → s.DispatchedOnce) (fun _ => hempty) ?_ hlate
    intro stage s s' hs hold haction hlate'
    exact (hold (hlate'.of_suffix haction.suffix)).action hs haction hlate'
  exact ⟨fun fd => ⟨honce.dispatched.once fd, honce.started.once fd⟩, honce.unanswered⟩

theorem dispatched_once_get :
    dispatches 4 (after cgiConfig [3] (cgiAnswers 4 getRequest 100)).server.calls = 1 ∧
    (∀ fd, dispatches fd (after cgiConfig [3] (cgiAnswers 4 getRequest 100)).server.calls ≤ 1 ∧
      cgiStarts fd (after cgiConfig [3] (cgiAnswers 4 getRequest 100)).server.calls ≤ 1) ∧
    ∀ c, Call.dispatch c ∈ (after cgiConfig [3] (cgiAnswers 4 getRequest 100)).server.calls →
      c.response = [] := by
  have hreach : Reachable cgiConfig (after cgiConfig [3] (cgiAnswers 4 getRequest 100)) :=
    reachable_after (by decide +kernel) (by decide +kernel)
  have hlate : NoLateRead (after cgiConfig [3] (cgiAnswers 4 getRequest 100)).server.calls := by
    decide +kernel
  exact ⟨by decide +kernel, dispatched_once hreach hlate⟩

/-- A client asks for a CGI, and sends one more byte. -/
def lateByteAnswers : List Answers :=
  cgiAnswers 4 getRequest 100 ++ ([{ poll := some fun fd => { pollin := fd = 4 } }, {},
    { read := some (bytes "x"), serverToCgiPipe := some (5, 6), cgiToServerPipe := some (8, 9)
      fork := some 101 }] : List Answers)

/-- One more byte dispatches the request again, and starts a second CGI. -/
theorem not_dispatched_once_lateByte : ¬ ∀ (config : Config) (w : World), Reachable config w →
    ∀ fd, dispatches fd w.server.calls ≤ 1 ∧ cgiStarts fd w.server.calls ≤ 1 := by
  intro h
  have hreach : Reachable cgiConfig (after cgiConfig [3] lateByteAnswers) :=
    reachable_after (by decide +kernel) (by decide +kernel)
  have hdispatched : dispatches 4 (after cgiConfig [3] lateByteAnswers).server.calls = 2 := by
    decide +kernel
  have hle := (h _ _ hreach 4).1
  rw [hdispatched] at hle
  omega

end World

end Webserv
