import Webserv.Server.Exceptions
import Webserv.Server.Mirror

/-!
# What the steps of a run keep

A function that opens descriptors may throw between opening and registering them; what it throws then is
caught by nobody, so that the run is over. `Upkeep` lists what an invariant has to be kept by for every
step that returns to keep it (`Upkeep.step`): the parts that the handlers are made of, and the functions
that open and close descriptors, which need not keep it when they end the run.
-/

namespace Webserv

open Exec

namespace Server

variable {config : Config} {env : Answers} {I : Server → Prop}

/-- The program keeps the invariant, unless it throws what `_handlePollin` does not catch. -/
abbrev Upholds (I : Server → Prop) {α : Type} (x : ServerM α) : Prop :=
  Maintains Client.IsClientException I x

theorem Upholds.catchClientException {α : Type} {body : ServerM α} {handler : Status → ServerM α}
    (hbody : Upholds I body) (hhandler : ∀ status, Upholds I (handler status)) :
    Upholds I (catchClientException body handler) := by
  intro s hs
  have h := hbody s hs
  unfold Server.catchClientException
  cases hr : body s with
  | ok a s' =>
    rw [hr] at h
    exact h
  | error e s' =>
    rw [hr] at h
    cases e with
    | clientException status => exact hhandler status s' (h ⟨status, rfl⟩)
    | _ => exact h

/-- What is kept by whatever the server does between two calls of `poll`. -/
structure Upkeep (config : Config) (I : Server → Prop) : Prop extends Detached I where
  errno : ∀ {s : Server} (errno : Option Errno), I s → I { s with errno }
  cgis : ∀ {s : Server} (children : Finset ℤ) (cgiPidToClientFd : Map ℤ ℤ) (unreapedCgiCount : ℤ),
    I s → I { s with children, cgiPidToClientFd, unreapedCgiCount }
  write : ∀ {s : Server} (fd : ℤ) (accepted : Bytes), I s →
    I { s with calls := .write fd accepted :: s.calls }
  startCgi : ∀ env i, Upholds I (startCgi env i)
  acceptClient : ∀ env serverFd, Upholds I (acceptClient config env serverFd)
  polled : ∀ {s : Server} (events : ℤ → Events), I s →
    I { s with pfds := s.pfds.map (s.polled events) }
  shutDownServers : ∀ env, Preserves I (shutDownServers env)

namespace Upkeep

variable (h : Upkeep config I)

include h

/-! ## Reading -/

theorem answerRequest (i : ℕ) (c : Client) : Upholds I (Server.answerRequest config env i c) := by
  have hframe := h.toDetached.frame
  have hlift : ∀ {γ : Type} (a : Except Fault γ), Upholds I (liftExcept a) := fun a =>
    (preserves_of_reads (reads_liftExcept a)).maintains
  have hthrow : ∀ {γ : Type} (fault : Fault), Upholds I (throw fault : ServerM γ) := fun fault =>
    (Preserves.throw fault).maintains
  have hmodify : ∀ f, Upholds I (Server.modifyClient i f) := fun f =>
    (h.toDetached.modifyClient i f).maintains
  have hrespond : ∀ method : ClientM Unit,
      Upholds I (Server.onClient i method >>= fun _ => enableWritingToClient i) :=
    fun method => (Preserves.bind (h.toDetached.onClient i method) fun _ =>
      hframe.enableWritingToClient i).maintains
  have hindex : ∀ location, Upholds I (dispatchIndex env i location) := by
    intro location
    refine .bind (hlift _) fun _ => .ite (.ite ?_ (hthrow _)) (hrespond _)
    exact .ite (hthrow _) (.bind (hmodify _) fun _ => hthrow _)
  have hdirectory : ∀ method location, Upholds I (dispatchDirectory env i method location) := by
    intro method location
    exact .ite (.ite (hindex location) (.ite (hrespond _) (hthrow _))) (hthrow _)
  have hfile : ∀ method location, Upholds I (dispatchFile env i method location) := by
    intro method location
    refine .bind (hlift _) fun _ => .ite (.ite (hthrow _) (hthrow _)) ?_
    exact .ite (h.startCgi env i) (.ite (hrespond _) (.ite (hrespond _) (hrespond _)))
  refine .bind (preserves_of_reads (reads_getServer i)).maintains fun _ => ?_
  refine .bind (hlift _) fun location => .ite (hthrow _) (.ite ?_ (.ite (hthrow _) ?_))
  · exact .bind (hmodify _) fun _ => hthrow _
  · exact .bind (hlift _) fun _ => .ite (hdirectory _ location) (hfile _ location)

theorem readBytes (i : ℕ) (fd : ℤ) (fdType : FdType) (received : Bytes) :
    Upholds I (Server.readBytes config env i fd fdType received) := by
  have hframe := h.toDetached.frame
  have hclientAt : Upholds I (clientAt i) := (preserves_clientAt i).maintains
  have hdispatch : Upholds I (dispatch config env i) :=
    .bind hclientAt fun c => .bind (hframe.log rfl).maintains fun _ => h.answerRequest i c
  have hclient : Upholds I (readClient config env i fd received) :=
    .bind hclientAt fun _ => .bind (hframe.log rfl).maintains fun _ =>
      .bind (h.toDetached.onClient i _).maintains fun _ => .bind hclientAt fun _ =>
        .ite hdispatch (Preserves.pure _).maintains
  have hcgi : Preserves I (readCgi i received) :=
    .bind (preserves_clientAt i) fun _ => .bind (preserves_assert _) fun _ =>
      .bind (hframe.log rfl) fun _ => h.toDetached.modifyClient i _
  refine .bind hclientAt fun _ => .bind (preserves_assert _).maintains fun _ => ?_
  exact .ite hclient (.ite hcgi.maintains (Preserves.throw _).maintains)

theorem readFd (i : ℕ) (fd : ℤ) (fdType : FdType) :
    Upholds I (Server.readFd config env i fd fdType) := by
  have hread : Preserves I (read env) := by
    unfold read
    cases env.read with
    | none => exact .throw _
    | some received => exact .pure _
  have hremove : Preserves I (do
      assert (fdType = .client)
      Server.removeClient env (← clientAt i).clientFd
      pure true) :=
    .bind (preserves_assert _) fun _ => .bind (preserves_clientAt i) fun _ =>
      .bind (h.toDetached.removeClient _) fun _ => .pure _
  refine .bind hread.maintains fun received => ?_
  refine .bind (h.toDetached.modifyClient i _).maintains fun _ => .ite hremove.maintains ?_
  exact .bind (h.readBytes i fd fdType received) fun _ => (Preserves.pure _).maintains

theorem handlePollin (fd : ℤ) (fdType : FdType) :
    Upholds I (Server.handlePollin config env fd fdType) := by
  refine .ite (.bind (h.acceptClient env fd) fun _ => (Preserves.pure _).maintains) ?_
  refine .bind (preserves_assert _).maintains fun _ => .bind (preserves_getClient fd).maintains fun i => ?_
  refine (h.readFd i fd fdType).catchClientException fun status => Preserves.maintains ?_
  exact .bind (h.toDetached.frame.respondClientException status i) fun _ => .pure _

/-! ## Writing -/

theorem writes (fd : ℤ) (msg : Bytes) : Preserves I (Server.write env fd msg) := by
  unfold Server.write
  cases env.write with
  | none => exact .bind (.modify fun _ hs => h.errno _ hs) fun _ => .pure _
  | some n => exact .bind (.modify fun _ hs => h.write fd _ hs) fun _ => .pure _

theorem writeToCgi (i : ℕ) : Preserves I (Server.writeToCgi env i) := by
  have hremove : ∀ fd, Preserves I (removeServerToCgiFd fd) := fun fd =>
    h.toDetached.frame.removePipeFd (.inl rfl) fd
  refine .bind (preserves_clientAt i) fun c => .bind (preserves_assert _) fun _ => ?_
  refine .bind (preserves_assert _) fun _ => .bind (h.toDetached.modifyClient i _) fun _ => ?_
  refine .bind (h.writes _ _) fun written => ?_
  cases written with
  | none => exact hremove _
  | some written =>
    exact .bind (preserves_assert _) fun _ => .ite (fun _ => hremove _) fun _ => .pure _

theorem writeToClient (i : ℕ) : Preserves I (Server.writeToClient env i) := by
  refine .bind (preserves_clientAt i) fun c => .bind (preserves_assert _) fun _ => ?_
  refine .bind (preserves_assert _) fun _ => .bind (h.toDetached.modifyClient i _) fun _ => ?_
  refine .bind (h.writes _ _) fun written => ?_
  cases written with
  | none => exact h.toDetached.removeClient _
  | some written =>
    exact .bind (preserves_assert _) fun _ => .ite (fun _ => h.toDetached.removeClient _) fun _ => .pure _

/-! ## The events of a descriptor, and exited children -/

theorem processEvents (pfdIndex : ℕ) (fd : ℤ) :
    Upholds I (Server.processEvents config env pfdIndex fd) := by
  have hprint : ∀ fdType, Preserves I (printEvents fd fdType) := by
    intro fdType
    refine .ite (fun _ => .bind .get fun _ => ?_) fun _ => .pure _
    refine .bind (preserves_lookupAt _ _) fun i => .bind .get fun s => ?_
    cases s.clients[i]? with
    | none => exact .throw _
    | some c => exact .pure _
  have hpollerr : ∀ fdType, Preserves I (handlePollerr env fd fdType) := fun fdType =>
    .ite (fun _ => h.toDetached.frame.removePipeFd (.inl rfl) fd) fun _ =>
      .ite (fun _ => h.toDetached.removeClient fd) fun _ => .throw _
  have hpollout : ∀ fdType, Preserves I (handlePollout env fd fdType) := fun fdType =>
    .bind (preserves_getClient fd) fun i => .ite (fun _ => h.writeToCgi i) fun _ =>
      .ite (fun _ => h.writeToClient i) fun _ => .throw _
  have hinOut : ∀ fdType pollin, Upholds I (processInOut config env pfdIndex fd fdType pollin) := by
    intro fdType pollin
    refine .bind (.ite (h.handlePollin fd fdType) (Preserves.pure _).maintains) fun skipClient => ?_
    exact .bind Preserves.get.maintains fun _ =>
      .ite (hpollout fdType).maintains (Preserves.pure _).maintains
  refine .bind Preserves.get.maintains fun _ => .bind (preserves_lookupAt _ _).maintains fun fdType => ?_
  refine .bind (hprint fdType).maintains fun _ => .bind Preserves.get.maintains fun s => ?_
  refine .bind (preserves_assert _).maintains fun _ => .ite (hpollerr fdType).maintains ?_
  refine .bind (preserves_assert _).maintains fun _ => .ite ?_ (hinOut fdType _)
  exact (h.toDetached.frame.pollhupCgiToServer fd).maintains

theorem processPfd (pfdIndex : ℕ) (seenFds : Finset ℤ) :
    Upholds I (Server.processPfd config env pfdIndex seenFds) := by
  have hpure : Upholds I (pure seenFds) := (Preserves.pure _).maintains
  refine .bind Preserves.get.maintains fun s => .ite hpure (.bind Preserves.get.maintains fun _ => ?_)
  refine .ite hpure (.ite hpure (.bind Preserves.get.maintains fun _ => ?_))
  exact .bind (h.toDetached.frame.log rfl).maintains fun _ =>
    .bind (h.processEvents pfdIndex _) fun _ => (Preserves.pure _).maintains

theorem reapClient (childPid : ℤ) (exitStatus : Option ℤ) :
    Preserves I (Server.reapClient config env childPid exitStatus) := by
  refine .bind .get fun _ => .bind (preserves_lookupAt _ _) fun clientFd => .bind .get fun _ => ?_
  refine .bind (preserves_lookupAt _ _) fun i => .bind .get fun s => ?_
  cases s.clients[i]? with
  | none => exact .throw _
  | some c =>
    refine .bind (.modify fun s hs => h.cgis s.children _ s.unreapedCgiCount hs) fun _ => ?_
    refine .bind (h.toDetached.modifyClient i _) fun _ => .bind (preserves_assert _) fun _ => ?_
    refine .bind (preserves_assert _) fun _ => .bind (preserves_assert _) fun _ => ?_
    refine .bind (preserves_assert _) fun _ => .bind (h.toDetached.modifyClient i _) fun _ => ?_
    exact .ite (fun _ => h.toDetached.removeClient clientFd) fun _ =>
      .ite (fun _ => h.toDetached.frame.cgiEnd i) fun _ => .pure _

theorem reapChild : Preserves I (Server.reapChild config env) := by
  have hwait : Preserves I (waitpid env) := by
    refine .bind_get fun s hs => .ite (fun _ => .bind (.set (h.errno _ hs)) fun _ => .pure _) fun _ => ?_
    cases env.waitpid with
    | none => exact .pure _
    | some child =>
      have hlog : I { s with calls := .waitpid child.1 s.errno :: s.calls } := h.call hs rfl
      have hreaped : I { s with
          children := s.children.erase child.1, calls := .waitpid child.1 s.errno :: s.calls } :=
        h.cgis (s.children.erase child.1) s.cgiPidToClientFd s.unreapedCgiCount hlog
      exact .ite (fun _ => .bind (.set hreaped) fun _ => .pure _) fun _ => .pure _
  have hpid : ∀ childPid exitStatus, Preserves I (reapPid config env childPid exitStatus) := by
    intro childPid exitStatus
    refine .bind (.modify fun s hs => h.cgis s.children s.cgiPidToClientFd _ hs) fun _ => ?_
    exact .bind .get fun _ => .ite (fun _ => .pure _) fun _ =>
      .bind (h.reapClient childPid exitStatus) fun _ => .pure _
  refine .bind hwait fun child => .bind .get fun _ => .ite (fun _ => .pure _) fun _ => ?_
  exact .ite (fun _ => .pure _) fun _ => hpid _ _

theorem sweepClient (i : ℕ) : Preserves I (Server.sweepClient config env i) :=
  .bind .get fun _ => .ite (fun _ => h.toDetached.removeClient _) fun _ => .pure _

end Upkeep

end Server

/-! ## Steps -/

namespace World

open Server

variable {config : Config} {env : Answers} {I : Server → Prop} {w w' : World}

/-- What the top of the loop keeps. -/
theorem upkeep_top (h : Upkeep config I) : Preserves (fun w : World => I w.server) (top env) := by
  have hgoto : ∀ phase, Preserves (fun w : World => I w.server) (goto phase) := fun _ =>
    .modify fun _ hw => hw
  have htimeout : Preserves (fun w : World => I w.server) timeout := by
    refine .bind .get fun w => .bind (preserves_onServer (Server.preserves_assert _)) fun _ => ?_
    exact .ite (fun _ => hgoto _) fun _ => hgoto _
  have hpoll : Preserves (fun w : World => I w.server) (poll env) := by
    intro w hw
    unfold poll
    cases env.poll with
    | none =>
      have hfail : Preserves (fun w : World => I w.server)
          (if env.errno = some .eintr then pure () else throw (.system .poll) : WorldM Unit) :=
        .ite (fun _ => .pure _) fun _ => .throw _
      exact hfail w hw
    | some events =>
      have hrest : Preserves (fun w : World => I w.server)
          (if ∀ pfd ∈ w.server.pfds.map (w.server.polled events), pfd.revents = {} then
            if w.server.clients.length = 0 then pure () else timeout
          else goto (.processing (w.server.pfds.map (w.server.polled events)).length ∅) : WorldM Unit) :=
        .ite (fun _ => .ite (fun _ => .pure _) fun _ => htimeout) fun _ => hgoto _
      exact hrest _ (h.polled events hw)
  have hshutDown := preserves_onServer (h.shutDownServers env)
  refine .bind (.bind_get fun w hw => .ite (fun _ => ?_) fun _ => .pure _) fun _ => ?_
  · exact .bind (.set hw) fun _ => hshutDown
  · exact .bind .get fun _ =>
      .ite (fun _ => .bind hshutDown fun _ => hgoto _) fun _ => hpoll

/-- **A step that returns keeps what its parts keep.** -/
theorem upkeep_step (h : Upkeep config I) (hw : I w.server) {u : Unit}
    (hstep : step config env w = .ok u w') : I w'.server := by
  have hw' : I (w.interrupted env).server := h.errno _ hw
  rcases step_ok hstep with ⟨-, htop⟩ | ⟨-, again, s', hreap, rfl⟩ | ⟨i, n, -, -, s', hsweep, rfl⟩ |
    ⟨-, rfl⟩ | ⟨-, rfl⟩ | ⟨k, seenFds, -, seenFds', s', hpfd, rfl⟩ | ⟨-, rfl⟩
  · exact (upkeep_top h).of_ok (I := fun w => I w.server) hw' htop
  · exact h.reapChild.of_ok hw' hreap
  · exact (h.sweepClient i).of_ok hw' hsweep
  · exact hw'
  · exact hw'
  · exact (h.processPfd k seenFds).of_ok hw' hpfd
  · exact hw'

/-- Several steps that return keep what their parts keep. -/
theorem upkeep_run (h : Upkeep config I) (hw : I w.server) {envs : List Answers}
    (hrun : run config envs w = .ok () w') : I w'.server := by
  induction envs generalizing w with
  | nil =>
    cases hrun
    exact hw
  | cons env envs ih =>
    obtain ⟨_, w₁, hstep, hrun⟩ := bind_eq_ok hrun
    exact ih (upkeep_step h hw hstep) hrun

end World

end Webserv
