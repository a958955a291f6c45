import Webserv.Server.Forward

/-!
# What the handlers keep

Most of what the handlers of events do is to change one client, to log a call, to change the events of
a descriptor and to close one. What is kept by these (`Frame`) is kept by the handlers, whether they
return or throw. The results that follow one part of the server through a run, as the times of the last
reads, the open descriptors or the written bytes, are only about the functions that touch that part.
-/

namespace Webserv

open Exec

/-- The connection of a client, and when it was last read from. -/
def Client.stamp (c : Client) : ℤ × ℕ := (c.clientFd, c.timeOfLastRead)

/-- The call closes a descriptor or writes to it. -/
def Call.isOutput : Call → Bool
  | close _ _ => true
  | write _ _ => true
  | _ => false

theorem Exec.Preserves.catchClientException {I : Server → Prop} {α : Type} {body : ServerM α}
    {handler : Status → ServerM α} (hbody : Preserves I body)
    (hhandler : ∀ status, Preserves I (handler status)) :
    Preserves I (Server.catchClientException body handler) := by
  intro s hs
  have h := hbody s hs
  unfold Server.catchClientException
  cases hr : body s with
  | ok a s' =>
    rw [hr] at h
    exact h
  | error e s' =>
    rw [hr] at h
    cases e with
    | clientException status => exact hhandler status s' h
    | _ => exact h

namespace Server

/-- What is kept by the parts that the handlers are made of. -/
structure Frame (I : Server → Prop) : Prop where
  client : ∀ {s : Server} {i : ℕ} {c c' : Client}, I s → s.clients[i]? = some c →
    c'.stamp = c.stamp → I { s with clients := s.clients.set i c' }
  call : ∀ {s : Server} {call : Call}, I s → call.isOutput = false →
    I { s with calls := call :: s.calls }
  pfd : ∀ {s : Server} {k : ℕ} {pfd pfd' : Pollfd}, I s → s.pfds[k]? = some pfd → pfd'.fd = pfd.fd →
    I { s with pfds := s.pfds.set k pfd' }
  index : ∀ {s : Server} (fdToClientIndex : Map ℤ ℕ), I s → I { s with fdToClientIndex }
  removeFd : ∀ fd, Preserves I (removeFd fd)

variable {config : Config} {env : Answers} {I : Server → Prop} {α : Type}

theorem preserves_of_reads {x : ServerM α} (h : Reads x) : Preserves I x :=
  h.preserves fun s s' (heq : s' = s) hs => heq ▸ hs

theorem preserves_assert (p : Prop) [Decidable p] : Preserves I (assert p) :=
  .ite (fun _ => .pure _) fun _ => .throw _

theorem preserves_lookupAt {κ ν : Type} [DecidableEq κ] (m : Map κ ν) (k : κ) :
    Preserves I (lookupAt m k) := preserves_of_reads (reads_lookupAt m k)

theorem preserves_clientAt (i : ℕ) : Preserves I (clientAt i) := preserves_of_reads (reads_clientAt i)

theorem preserves_getClient (fd : ℤ) : Preserves I (getClient fd) :=
  .bind .get fun _ => .bind (preserves_lookupAt _ _) fun _ => .bind (preserves_clientAt _) fun _ =>
    .pure _

namespace Frame

variable (h : Frame I)

include h

theorem log {call : Call} (hcall : call.isOutput = false) : Preserves I (Server.log call) :=
  .modify fun _ hs => h.call hs hcall

theorem onClient (i : ℕ) {method : ClientM α} (hmethod : Keeps Client.stamp method) :
    Preserves I (Server.onClient i method) := by
  intro s hs
  cases hi : s.clients[i]? with
  | none =>
    have hthrow : clientAt i s = .error .undefinedBehaviour s := by
      rw [clientAt, run_bind, run_get]
      dsimp only
      rw [hi]
      rfl
    rw [Server.onClient, bind_of_error hthrow]
    exact hs
  | some c =>
    rw [Server.onClient, bind_of_ok (clientAt_of hi)]
    have hc := hmethod c
    cases hm : method c with
    | ok a c' =>
      rw [hm] at hc
      exact h.client hs hi hc
    | error e c' =>
      rw [hm] at hc
      exact h.client hs hi hc

theorem modifyClient (i : ℕ) {f : Client → Client} (hf : ∀ c, (f c).stamp = c.stamp) :
    Preserves I (Server.modifyClient i f) := h.onClient i (.modify hf)

theorem modifyPfd (k : ℕ) {f : Pollfd → Pollfd} (hf : ∀ pfd, (f pfd).fd = pfd.fd) :
    Preserves I (Server.modifyPfd k f) := by
  intro s hs
  cases hpfd : s.pfds[k]? with
  | none =>
    have hthrow : Server.modifyPfd k f s = .error .undefinedBehaviour s := by
      rw [Server.modifyPfd, run_bind, run_get]
      dsimp only
      rw [hpfd]
      rfl
    rw [hthrow]
    exact hs
  | some pfd =>
    rw [modifyPfd_of hpfd]
    exact h.pfd hs hpfd (hf pfd)

theorem removeClientFd (fd : ℤ) : Preserves I (Server.removeClientFd fd) :=
  .bind (preserves_assert _) fun _ => .bind (.modify fun _ hs => h.index _ hs) fun _ => h.removeFd fd

theorem removePipeFd {fdType : FdType} (hpipe : fdType.IsPipe) (fd : ℤ) :
    Preserves I (Server.removePipeFd fdType fd) := by
  have hrelease : ∀ c : Client, (c.release fdType).stamp = c.stamp := by
    intro c
    rcases hpipe with rfl | rfl <;> rfl
  refine .bind (preserves_assert _) fun _ => .bind (preserves_getClient fd) fun i => ?_
  refine .bind (preserves_clientAt i) fun c => .ite (fun _ => .pure _) fun _ => ?_
  exact .bind (h.removeClientFd _) fun _ => h.modifyClient i hrelease

theorem killCgi (fd : ℤ) : Preserves I (Server.killCgi env fd) := by
  have hkill : Preserves I (kill env) := .ite (fun _ => .pure _) fun _ => .throw _
  refine .bind (preserves_getClient fd) fun i => .bind (preserves_clientAt i) fun c => ?_
  refine .ite (fun _ => .bind hkill fun _ => ?_) fun _ => .pure _
  exact .bind (h.modifyClient i fun _ => rfl) fun _ => h.removePipeFd (.inr rfl) fd

theorem enableWritingToClient (i : ℕ) : Preserves I (Server.enableWritingToClient i) :=
  .bind (preserves_clientAt i) fun _ => .bind .get fun _ => .bind (preserves_lookupAt _ _) fun _ =>
    .bind (h.modifyPfd _ fun _ => rfl) fun _ => h.modifyClient i fun _ => rfl

theorem enableWritingToCgi (i : ℕ) : Preserves I (Server.enableWritingToCgi i) :=
  .bind (preserves_clientAt i) fun _ => .bind (preserves_assert _) fun _ =>
    .bind (preserves_assert _) fun _ => .bind .get fun _ => .bind (preserves_lookupAt _ _) fun _ =>
      .bind (h.modifyPfd _ fun _ => rfl) fun _ => h.modifyClient i fun _ => rfl

theorem disableReadingFromClient (i : ℕ) : Preserves I (Server.disableReadingFromClient i) :=
  .bind (preserves_clientAt i) fun _ => .bind .get fun _ => .bind (preserves_lookupAt _ _) fun _ =>
    .bind (h.modifyPfd _ fun _ => rfl) fun _ => h.modifyClient i fun _ => rfl

theorem answerException (status : Status) (i : ℕ) :
    Preserves I (Server.answerException config env status i) := by
  refine .bind (h.modifyClient i fun _ => rfl) fun _ => .bind (preserves_clientAt i) fun _ => ?_
  refine .bind (h.killCgi _) fun _ => .bind (h.disableReadingFromClient i) fun _ => ?_
  refine .bind (preserves_of_reads (reads_getServer i)) fun _ => ?_
  have herror : ∀ pages, Keeps Client.stamp (Client.respondWithError env.fs pages) := fun pages =>
    (Client.keeps_respondWithError _ pages).of_comp Client.stamp fun _ => rfl
  exact .bind (h.onClient i (herror _)) fun _ => h.enableWritingToClient i

theorem respondClientException (status : Status) (i : ℕ) :
    Preserves I (Server.respondClientException config env status i) :=
  .bind (preserves_clientAt i) fun _ => .bind (h.log rfl) fun _ => h.answerException status i

theorem cgiEnd (i : ℕ) : Preserves I (Server.cgiEnd config env i) := by
  have hextract : Keeps Client.stamp Client.extractCGIDocumentResponseHeaders :=
    Client.keeps_extractCGIDocumentResponseHeaders.of_comp Client.stamp fun _ => rfl
  refine .bind (preserves_clientAt i) fun _ => .bind (h.log rfl) fun _ => ?_
  refine .ite (fun _ => h.respondClientException _ i) fun _ => .bind (h.onClient i hextract) fun _ => ?_
  exact .bind (h.onClient i (Client.keeps_prependResponseHeader fun _ _ => rfl)) fun _ =>
    h.enableWritingToClient i

theorem pollhupCgiToServer (fd : ℤ) : Preserves I (Server.pollhupCgiToServer config env fd) := by
  refine .bind (preserves_getClient fd) fun i => .bind (h.modifyClient i fun _ => rfl) fun _ => ?_
  refine .bind (h.removePipeFd (.inl rfl) fd) fun _ => .bind (h.removePipeFd (.inr rfl) fd) fun _ => ?_
  exact .bind (preserves_clientAt i) fun _ => .bind (h.log rfl) fun _ =>
    .ite (fun _ => h.cgiEnd i) fun _ => .pure _

/-! ## Reading -/

theorem respond (i : ℕ) {method : ClientM Unit} (hmethod : Keeps Client.unanswered method) :
    Preserves I (Server.onClient i method >>= fun _ => Server.enableWritingToClient i) :=
  .bind (h.onClient i (hmethod.of_comp Client.stamp fun _ => rfl)) fun _ => h.enableWritingToClient i

variable (hstart : ∀ i, Preserves I (startCgi env i))

include hstart

theorem answerRequest (i : ℕ) (c : Client) : Preserves I (Server.answerRequest config env i c) := by
  have hlift : ∀ {γ : Type} (a : Except Fault γ), Preserves I (liftExcept a) := fun a =>
    preserves_of_reads (reads_liftExcept a)
  have hthrow : ∀ {γ : Type} (fault : Fault), Preserves I (throw fault : ServerM γ) := fun _ => .throw _
  have hindex : ∀ location, Preserves I (dispatchIndex env i location) := by
    intro location
    refine .bind (hlift _) fun _ => .ite (fun _ => .ite (fun _ => ?_) fun _ => hthrow _) fun _ => ?_
    · exact .ite (fun _ => hthrow _) fun _ => .bind (h.modifyClient i fun _ => rfl) fun _ => hthrow _
    · exact h.respond i (Client.keeps_respondWithFile _ _)
  have hdirectory : ∀ method location, Preserves I (dispatchDirectory env i method location) := by
    intro method location
    refine .ite (fun _ => .ite (fun _ => hindex location) fun _ => ?_) fun _ => hthrow _
    exact .ite (fun _ => h.respond i (Client.keeps_respondWithDirectoryListing _ _)) fun _ => hthrow _
  have hfile : ∀ method location, Preserves I (dispatchFile env i method location) := by
    intro method location
    refine .bind (hlift _) fun _ => .ite (fun _ => .ite (fun _ => hthrow _) fun _ => hthrow _) fun _ => ?_
    refine .ite (fun _ => hstart i) fun _ => ?_
    refine .ite (fun _ => h.respond i (Client.keeps_respondWithFile _ _)) fun _ => ?_
    exact .ite (fun _ => h.respond i (Client.keeps_respondWithCreateFile _ _)) fun _ =>
      h.respond i (Client.keeps_respondWithDeleteFile _ _)
  refine .bind (preserves_of_reads (reads_getServer i)) fun _ => .bind (hlift _) fun location => ?_
  refine .ite (fun _ => hthrow _) fun _ => .ite (fun _ => ?_) fun _ => .ite (fun _ => hthrow _) fun _ => ?_
  · exact .bind (h.modifyClient i fun _ => rfl) fun _ => hthrow _
  · exact .bind (hlift _) fun _ => .ite (fun _ => hdirectory _ location) fun _ => hfile _ location

theorem readBytes (i : ℕ) (fd : ℤ) (fdType : FdType) (received : Bytes) :
    Preserves I (Server.readBytes config env i fd fdType received) := by
  have hread : Keeps Client.stamp (Client.appendReadString received) := fun c =>
    (congrArg Client.stamp (Client.sameParsing_appendReadString received c).unparsed_eq :)
  have hdispatch : Preserves I (dispatch config env i) :=
    .bind (preserves_clientAt i) fun c => .bind (h.log rfl) fun _ => h.answerRequest hstart i c
  have hclient : Preserves I (readClient config env i fd received) :=
    .bind (preserves_clientAt i) fun _ => .bind (h.log rfl) fun _ => .bind (h.onClient i hread) fun _ =>
      .bind (preserves_clientAt i) fun _ => .ite (fun _ => hdispatch) fun _ => .pure _
  have hcgi : Preserves I (readCgi i received) :=
    .bind (preserves_clientAt i) fun _ => .bind (preserves_assert _) fun _ => .bind (h.log rfl) fun _ =>
      h.modifyClient i fun _ => rfl
  refine .bind (preserves_clientAt i) fun _ => .bind (preserves_assert _) fun _ => ?_
  exact .ite (fun _ => hclient) fun _ => .ite (fun _ => hcgi) fun _ => .throw _

end Frame

/-! ## Removing clients -/

/-- What is kept by the parts that the handlers are made of, whatever becomes of the clients. -/
structure Detached (I : Server → Prop) : Prop where
  clients : ∀ {s : Server} (clients : List Client), I s → I { s with clients }
  call : ∀ {s : Server} {call : Call}, I s → call.isOutput = false →
    I { s with calls := call :: s.calls }
  pfd : ∀ {s : Server} {k : ℕ} {pfd pfd' : Pollfd}, I s → s.pfds[k]? = some pfd → pfd'.fd = pfd.fd →
    I { s with pfds := s.pfds.set k pfd' }
  index : ∀ {s : Server} (fdToClientIndex : Map ℤ ℕ), I s → I { s with fdToClientIndex }
  removeFd : ∀ fd, Preserves I (removeFd fd)

namespace Detached

variable (h : Detached I)

include h

theorem frame : Frame I where
  client hs _ _ := h.clients _ hs
  call := h.call
  pfd := h.pfd
  index := h.index
  removeFd := h.removeFd

theorem onClient (i : ℕ) (method : ClientM α) : Preserves I (Server.onClient i method) := by
  refine .bind (preserves_clientAt i) fun c => ?_
  cases method c with
  | ok a c' => exact .bind (.modify fun _ hs => h.clients _ hs) fun _ => .pure a
  | error e c' => exact .bind (.modify fun _ hs => h.clients _ hs) fun _ => .throw e

theorem modifyClient (i : ℕ) (f : Client → Client) : Preserves I (Server.modifyClient i f) :=
  h.onClient i _

theorem swapRemoveClient (k : ℕ) : Preserves I (Server.swapRemoveClient k) := by
  refine .bind .get fun s => ?_
  cases s.clients[k]? with
  | none => exact .throw _
  | some this =>
    cases s.clients.getLast? with
    | none => exact .throw _
    | some src => exact .bind (h.frame.log rfl) fun _ => .modify fun _ hs => h.clients _ hs

theorem eraseClient (fd : ℤ) (i : ℕ) : Preserves I (Server.eraseClient fd i) := by
  refine .bind (h.frame.removePipeFd (.inr rfl) fd) fun _ => .bind (preserves_clientAt i) fun c => ?_
  refine .bind .get fun s => .bind (preserves_lookupAt _ _) fun k => .bind .get fun s => ?_
  cases s.clients.getLast? with
  | none => exact .throw _
  | some last =>
    refine .bind (.modify fun _ hs => h.index _ hs) fun _ => ?_
    exact .bind (h.frame.removeClientFd _) fun _ => .bind (h.modifyClient i _) fun _ =>
      h.swapRemoveClient k

theorem removeClient (fd : ℤ) : Preserves I (Server.removeClient env fd) := by
  refine .bind (preserves_assert _) fun _ => .bind (preserves_getClient fd) fun i => ?_
  refine .bind (preserves_clientAt i) fun _ => .bind (h.frame.log rfl) fun _ => ?_
  refine .bind (h.modifyClient i _) fun _ => .bind (h.frame.disableReadingFromClient i) fun _ => ?_
  exact .bind (preserves_clientAt i) fun _ =>
    .ite (fun _ => h.frame.killCgi fd) fun _ => h.eraseClient fd i

end Detached

end Server

end Webserv
