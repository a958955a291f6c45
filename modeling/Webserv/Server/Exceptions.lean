import Webserv.Client.Head
import Webserv.Server.Handlers

/-!
# Functions that raise no `ClientException`

`_handlePollin` catches what reading from a descriptor throws. The functions here may end the server,
but what they throw is not caught.
-/

namespace Webserv.Server

open Exec Client

/-- The program does not raise a `ClientException`. -/
abbrev NoException {α : Type} (x : ServerM α) : Prop := Throws (fun e => ¬ IsClientException e) x

variable (env : Answers)

theorem not_isClientException_assertion : ¬ IsClientException .assertion := nofun

theorem not_isClientException_outOfRange : ¬ IsClientException .outOfRange := nofun

theorem not_isClientException_system (call : SystemCall) : ¬ IsClientException (.system call) := nofun

theorem not_isClientException_undefinedBehaviour : ¬ IsClientException .undefinedBehaviour := nofun

theorem noException_assert (p : Prop) [Decidable p] : NoException (assert p) :=
  .ite (.pure _) (.throw not_isClientException_assertion)

theorem noException_log (call : Call) : NoException (log call) := .modify _

theorem noException_lookupAt {κ ν : Type} [DecidableEq κ] (m : Map κ ν) (k : κ) :
    NoException (lookupAt m k) := by
  unfold lookupAt
  split
  · exact .pure _
  · exact .throw not_isClientException_outOfRange

theorem noException_clientAt (i : ℕ) : NoException (clientAt i) := by
  refine .bind .get fun s => ?_
  split
  · exact .pure _
  · exact .throw not_isClientException_undefinedBehaviour

theorem noException_modifyClient (i : ℕ) (f : Client → Client) :
    NoException (modifyClient i f) := by
  refine .bind (noException_clientAt i) fun c => ?_
  exact .bind (.modify _) fun _ => .pure _

theorem noException_getClient (fd : ℤ) : NoException (getClient fd) :=
  .bind .get fun _ => .bind (noException_lookupAt _ _) fun i =>
    .bind (noException_clientAt i) fun _ => .pure _

theorem noException_modifyPfd (k : ℕ) (f : Pollfd → Pollfd) : NoException (modifyPfd k f) := by
  refine .bind .get fun s => ?_
  split
  · exact .modify _
  · exact .throw not_isClientException_undefinedBehaviour

theorem noException_close (fd : ℤ) : NoException (close fd) := by
  refine .bind .get fun _ => .bind (noException_log _) fun _ => .bind .get fun _ => ?_
  exact .ite (.modify _) (.throw (not_isClientException_system _))

theorem noException_removePfd (fd : ℤ) : NoException (removePfd fd) := by
  have hswap : ∀ k, NoException (swapRemovePfd k) := by
    intro k
    refine .bind .get fun s => ?_
    split
    · exact .modify _
    · exact .throw not_isClientException_undefinedBehaviour
  refine .bind .get fun _ => .bind (noException_lookupAt _ _) fun k => .bind .get fun _ => ?_
  split
  · exact .throw not_isClientException_undefinedBehaviour
  · exact .bind (.modify _) fun _ => .bind (hswap k) fun _ => .modify _

theorem noException_removeClientFd (fd : ℤ) : NoException (removeClientFd fd) := by
  refine .bind (noException_assert _) fun _ => .bind (.modify _) fun _ => ?_
  refine .bind (noException_assert _) fun _ => .bind (noException_removePfd fd) fun _ => ?_
  exact .bind (.modify _) fun _ => noException_close fd

theorem noException_removePipeFd (fdType : FdType) (fd : ℤ) :
    NoException (removePipeFd fdType fd) := by
  refine .bind (noException_assert _) fun _ => .bind (noException_getClient fd) fun i => ?_
  refine .bind (noException_clientAt i) fun c => .ite (.pure _) ?_
  exact .bind (noException_removeClientFd _) fun _ => noException_modifyClient _ _

theorem noException_killCgi (fd : ℤ) : NoException (killCgi env fd) := by
  refine .bind (noException_getClient fd) fun i => .bind (noException_clientAt i) fun c => ?_
  refine .ite (.bind (.ite (.pure _) (.throw (not_isClientException_system _))) fun _ => ?_) (.pure _)
  exact .bind (noException_modifyClient _ _) fun _ => noException_removePipeFd _ _

theorem noException_enableWritingToClient (i : ℕ) : NoException (enableWritingToClient i) := by
  refine .bind (noException_clientAt i) fun c => .bind .get fun _ => ?_
  refine .bind (noException_lookupAt _ _) fun k => .bind (noException_modifyPfd k _) fun _ => ?_
  exact noException_modifyClient _ _

theorem noException_disableReadingFromClient (i : ℕ) :
    NoException (disableReadingFromClient i) := by
  refine .bind (noException_clientAt i) fun c => .bind .get fun _ => ?_
  refine .bind (noException_lookupAt _ _) fun k => .bind (noException_modifyPfd k _) fun _ => ?_
  exact noException_modifyClient _ _

theorem noException_swapRemoveClient (i : ℕ) : NoException (swapRemoveClient i) := by
  refine .bind .get fun s => ?_
  split
  · exact .bind (noException_log _) fun _ => .modify _
  · exact .throw not_isClientException_undefinedBehaviour

theorem noException_eraseClient (fd : ℤ) (i : ℕ) : NoException (eraseClient fd i) := by
  refine .bind (noException_removePipeFd _ fd) fun _ => .bind (noException_clientAt i) fun c => ?_
  refine .bind .get fun _ => .bind (noException_lookupAt _ _) fun k => .bind .get fun _ => ?_
  split
  · exact .throw not_isClientException_undefinedBehaviour
  · refine .bind (.modify _) fun _ => .bind (noException_removeClientFd _) fun _ => ?_
    exact .bind (noException_modifyClient _ _) fun _ => noException_swapRemoveClient _

theorem noException_removeClient (fd : ℤ) : NoException (removeClient env fd) := by
  refine .bind (noException_assert _) fun _ => .bind (noException_getClient fd) fun i => ?_
  refine .bind (noException_clientAt i) fun _ => .bind (noException_log _) fun _ => ?_
  refine .bind (noException_modifyClient _ _) fun _ => ?_
  refine .bind (noException_disableReadingFromClient i) fun _ => ?_
  refine .bind (noException_clientAt i) fun c => ?_
  exact .ite (noException_killCgi env fd) (noException_eraseClient fd i)

theorem noException_addClientFd (fd : ℤ) (i : ℕ) (fdType : FdType) (events : Events) :
    NoException (addClientFd fd i fdType events) := by
  refine .bind (noException_assert _) fun _ => .bind (.modify _) fun _ => ?_
  exact .bind (noException_assert _) fun _ => .bind (noException_log _) fun _ => .modify _

theorem noException_pipe (proposed : Option (ℤ × ℤ)) : NoException (pipe proposed) := by
  refine .bind .get fun s => ?_
  split
  · refine .ite ?_ (.throw (not_isClientException_system _))
    exact .bind (fun _ _ _ h => nomatch h) fun _ => .pure _
  · exact .throw (not_isClientException_system _)

theorem noException_fork : NoException (fork env) := by
  refine .bind .get fun s => ?_
  split
  · refine .ite ?_ (.throw (not_isClientException_system _))
    exact .bind (fun _ _ _ h => nomatch h) fun _ => .pure _
  · exact .throw (not_isClientException_system _)

theorem noException_startCgi (i : ℕ) : NoException (startCgi env i) := by
  have henable : NoException (enableWritingToCgi i) := by
    refine .bind (noException_clientAt i) fun c => .bind (noException_assert _) fun _ => ?_
    refine .bind (noException_assert _) fun _ => .bind .get fun _ => ?_
    refine .bind (noException_lookupAt _ _) fun k => .bind (noException_modifyPfd k _) fun _ => ?_
    exact noException_modifyClient _ _
  have hto : ∀ j fd, NoException (connectServerToCgi i j fd) := by
    intro j fd
    refine .bind (noException_clientAt i) fun c => .ite (noException_close fd) ?_
    refine .bind (noException_addClientFd _ _ _ _) fun _ => ?_
    exact .bind (noException_modifyClient _ _) fun _ => henable
  have hfrom : ∀ j fd, NoException (connectCgiToServer i j fd) := fun j fd =>
    .bind (noException_addClientFd _ _ _ _) fun _ => noException_modifyClient _ _
  refine .bind (noException_pipe _) fun _ => .bind (noException_pipe _) fun _ => ?_
  refine .bind (noException_fork env) fun _ => .bind (noException_close _) fun _ => ?_
  refine .bind (noException_close _) fun _ => .bind (noException_clientAt i) fun _ => ?_
  refine .bind (noException_modifyClient _ _) fun _ => .bind (.modify _) fun _ => ?_
  refine .bind .get fun _ => .bind (noException_lookupAt _ _) fun j => .bind (hto j _) fun _ => ?_
  exact .bind (hfrom j _) fun _ => .bind (noException_log _) fun _ => .modify _

theorem noException_read : NoException (read env) := by
  unfold read
  split
  · exact .pure _
  · exact .throw (not_isClientException_system _)

end Webserv.Server
