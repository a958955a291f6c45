import Webserv.Server.RunTrace

/-!
# Functions that take nothing out of `_pfds`

What `_handlePollin` does before `_processPfd` looks at the next event of the same descriptor only adds
entries to `_pfds`: the entry they are about stays where it is (`handlePollin_grown`).
-/

namespace Webserv.Server

open Exec History

/-- The descriptors of `_pfds` and what `poll` has reported for them. -/
def reported (s : Server) : List (ℤ × Events) := s.pfds.map fun pfd => (pfd.fd, pfd.revents)

/-- Entries may have been added to `_pfds`, and their types to `_fd_to_fd_type`. -/
structure Grown (s s' : Server) : Prop where
  reported : s.reported <+: s'.reported
  types : ∀ fd fdType, s.fdToFdType.lookup fd = some fdType → s'.fdToFdType.lookup fd = some fdType

/-- What the program has done when it returns only adds descriptors. -/
def Growing {α : Type} (x : ServerM α) : Prop := ∀ s a s', x s = .ok a s' → Grown s s'

variable {config : Config} {env : Answers} {s s' : Server} {α β : Type}

theorem Grown.of_eq (hreported : s'.reported = s.reported) (htypes : s'.fdToFdType = s.fdToFdType) :
    Grown s s' where
  reported := by rw [hreported]
  types fd fdType h := by rwa [htypes]

theorem Grown.trans {s'' : Server} (h : Grown s s') (h' : Grown s' s'') : Grown s s'' :=
  ⟨h.reported.trans h'.reported, fun fd fdType htype => h'.types fd fdType (h.types fd fdType htype)⟩

theorem Grown.length_le (h : Grown s s') : s.pfds.length ≤ s'.pfds.length := by
  have hle := h.reported.length_le
  rwa [Server.reported, Server.reported, List.length_map, List.length_map] at hle

/-- The entries that were there are still at their places. -/
theorem Grown.pfdAt_eq {k : ℕ} (h : Grown s s') (hk : k < s.pfds.length) :
    (pfdAt env s' k).fd = (pfdAt env s k).fd ∧ (pfdAt env s' k).revents = (pfdAt env s k).revents := by
  have hk' : k < s'.pfds.length := hk.trans_le h.length_le
  have hlt : k < s.reported.length := by rwa [Server.reported, List.length_map]
  have hkey := List.prefix_iff_getElem?.1 h.reported k hlt
  rw [← List.getElem?_eq_getElem hlt, Server.reported, Server.reported, List.getElem?_map,
    List.getElem?_map, List.getElem?_eq_getElem hk, List.getElem?_eq_getElem hk'] at hkey
  have hpair := Option.some.inj hkey
  rw [pfdAt, pfdAt, List.getD_eq_getElem?_getD, List.getD_eq_getElem?_getD,
    List.getElem?_eq_getElem hk, List.getElem?_eq_getElem hk']
  exact ⟨congrArg Prod.fst hpair, congrArg Prod.snd hpair⟩

theorem Growing.of_keeps {x : ServerM α} (h : Keeps (fun s => (s.reported, s.fdToFdType)) x) :
    Growing x := by
  intro s a s' hx
  have hsame := h s
  rw [hx] at hsame
  exact .of_eq (congrArg Prod.fst hsame :) (congrArg Prod.snd hsame :)

theorem Growing.pure (a : α) : Growing (pure a) := .of_keeps (.pure a)

theorem Growing.throw (e : Fault) : Growing (throw e : ServerM α) := .of_keeps (.throw e)

theorem Growing.get : Growing get := .of_keeps .get

theorem Growing.bind {x : ServerM α} {k : α → ServerM β} (hx : Growing x) (hk : ∀ a, Growing (k a)) :
    Growing (x >>= k) := by
  intro s b s' h
  obtain ⟨a, s₁, h₁, h₂⟩ := bind_eq_ok h
  exact (hx s a s₁ h₁).trans (hk a s₁ b s' h₂)

theorem Growing.ite {p : Prop} [Decidable p] {x y : ServerM α} (hx : Growing x) (hy : Growing y) :
    Growing (if p then x else y) := by
  split
  · exact hx
  · exact hy

theorem Growing.of_reads {x : ServerM α} (h : Reads x) : Growing x :=
  .of_keeps (h.of_comp (fun s => (s.reported, s.fdToFdType)) fun _ => rfl)

/-! ## The functions -/

theorem growing_assert (p : Prop) [Decidable p] : Growing (assert p) := .ite (.pure _) (.throw _)

theorem growing_log (call : Call) : Growing (log call) := .of_keeps (.modify fun _ => rfl)

theorem growing_clientAt (i : ℕ) : Growing (clientAt i) := .of_reads (reads_clientAt i)

theorem growing_lookupAt {κ ν : Type} [DecidableEq κ] (m : Map κ ν) (k : κ) :
    Growing (lookupAt m k) := .of_reads (reads_lookupAt m k)

theorem growing_onClient (i : ℕ) (method : ClientM α) : Growing (onClient i method) := by
  intro s a s' h
  obtain ⟨c, c', -, -, rfl⟩ := onClient_ok h
  exact .of_eq rfl rfl

theorem growing_modifyClient (i : ℕ) (f : Client → Client) : Growing (modifyClient i f) :=
  growing_onClient i _

theorem growing_close (fd : ℤ) : Growing (close fd) := by
  intro s u s' h
  obtain ⟨-, rfl⟩ := close_ok h
  exact .of_eq rfl rfl

theorem growing_enablePollout (k : ℕ) : Growing (enablePollout k) := by
  intro s u s' h
  obtain ⟨pfd, hpfd, rfl⟩ := modifyPfd_ok h
  have hsame : (s.pfds.set k pfd.withPollout).map (fun pfd => (pfd.fd, pfd.revents)) = s.reported :=
    map_set_of_eq hpfd rfl
  exact .of_eq hsame rfl

theorem growing_addClientFd (fd : ℤ) (i : ℕ) (fdType : FdType) (events : Events) :
    Growing (addClientFd fd i fdType events) := by
  intro s u s' h
  obtain rfl := addClientFd_ok h
  constructor
  · change s.reported <+: (s.pfds ++ [_]).map _
    rw [List.map_append]
    exact List.prefix_append _ _
  · intro fd' fdType' htype
    change (s.fdToFdType.emplace fd fdType).lookup fd' = some fdType'
    by_cases hmem : fd ∈ s.fdToFdType
    · rwa [Map.emplace_of_mem hmem]
    · have hne : fd' ≠ fd := fun heq => hmem (heq ▸ Map.mem_of_lookup htype)
      rw [Map.emplace_of_notMem hmem, Finmap.lookup_insert_of_ne _ hne]
      exact htype

theorem growing_enableWritingToClient (i : ℕ) : Growing (enableWritingToClient i) :=
  .bind (growing_clientAt i) fun _ => .bind .get fun _ => .bind (growing_lookupAt _ _) fun _ =>
    .bind (growing_enablePollout _) fun _ => growing_modifyClient i _

theorem growing_pipe (proposed : Option (ℤ × ℤ)) : Growing (pipe proposed) := by
  intro s ends s' h
  obtain ⟨-, -, -, rfl⟩ := pipe_ok h
  exact .of_eq rfl rfl

theorem growing_fork : Growing (fork env) := by
  intro s pid s' h
  obtain ⟨-, -, rfl⟩ := fork_ok h
  exact .of_eq rfl rfl

theorem growing_connectServerToCgi (i j : ℕ) (fd : ℤ) : Growing (connectServerToCgi i j fd) := by
  have henable : Growing (enableWritingToCgi i) :=
    .bind (growing_clientAt i) fun _ => .bind (growing_assert _) fun _ => .bind (growing_assert _)
      fun _ => .bind .get fun _ => .bind (growing_lookupAt _ _) fun _ =>
        .bind (growing_enablePollout _) fun _ => growing_modifyClient i _
  exact .bind (growing_clientAt i) fun _ => .ite (growing_close fd) <|
    .bind (growing_addClientFd _ _ _ _) fun _ => .bind (growing_modifyClient i _) fun _ => henable

theorem growing_startCgi (i : ℕ) : Growing (startCgi env i) := by
  have hfrom : ∀ j fd, Growing (connectCgiToServer i j fd) := fun j fd =>
    .bind (growing_addClientFd _ _ _ _) fun _ => growing_modifyClient i _
  refine .bind (growing_pipe _) fun _ => .bind (growing_pipe _) fun _ => .bind growing_fork fun _ => ?_
  refine .bind (growing_close _) fun _ => .bind (growing_close _) fun _ => ?_
  refine .bind (growing_clientAt i) fun _ => .bind (growing_modifyClient i _) fun _ => ?_
  refine .bind (.of_keeps (.modify fun _ => rfl)) fun _ => .bind .get fun _ => ?_
  refine .bind (growing_lookupAt _ _) fun j => .bind (growing_connectServerToCgi i j _) fun _ => .bind (hfrom j _) fun _ => ?_
  exact .bind (growing_log _) fun _ => .of_keeps (.modify fun _ => rfl)

theorem growing_respond (i : ℕ) (method : ClientM Unit) :
    Growing (onClient i method >>= fun _ => enableWritingToClient i) :=
  .bind (growing_onClient i method) fun _ => growing_enableWritingToClient i

theorem growing_answerRequest (i : ℕ) (c : Client) : Growing (answerRequest config env i c) := by
  have hlift : ∀ {γ : Type} (a : Except Fault γ), Growing (liftExcept a) := fun a =>
    .of_reads (reads_liftExcept a)
  have hindex : ∀ location, Growing (dispatchIndex env i location) := fun location => by
    refine .bind (hlift _) fun _ => .ite (.ite (.ite (.throw _) ?_) (.throw _)) (growing_respond i _)
    exact .bind (growing_modifyClient i _) fun _ => .throw _
  have hdirectory : ∀ method location, Growing (dispatchDirectory env i method location) :=
    fun method location => .ite (.ite (hindex location) (.ite (growing_respond i _) (.throw _)))
      (.throw _)
  have hfile : ∀ method location, Growing (dispatchFile env i method location) :=
    fun method location => .bind (hlift _) fun _ => .ite (.ite (.throw _) (.throw _)) <|
      .ite (growing_startCgi i) <| .ite (growing_respond i _) <|
        .ite (growing_respond i _) (growing_respond i _)
  refine .bind (.of_reads (reads_getServer i)) fun _ => .bind (hlift _) fun location => ?_
  refine .ite (.throw _) (.ite ?_ (.ite (.throw _) ?_))
  · exact .bind (growing_modifyClient i _) fun _ => .throw _
  · exact .bind (hlift _) fun _ => .ite (hdirectory _ location) (hfile _ location)

theorem growing_readBytes (i : ℕ) (fd : ℤ) (fdType : FdType) (received : Bytes) :
    Growing (readBytes config env i fd fdType received) := by
  have hdispatch : Growing (dispatch config env i) :=
    .bind (growing_clientAt i) fun c => .bind (growing_log _) fun _ => growing_answerRequest i c
  have hclient : Growing (readClient config env i fd received) :=
    .bind (growing_clientAt i) fun _ => .bind (growing_log _) fun _ => .bind (growing_onClient i _)
      fun _ => .bind (growing_clientAt i) fun _ => .ite hdispatch (.pure _)
  have hcgi : Growing (readCgi i received) :=
    .bind (growing_clientAt i) fun _ => .bind (growing_assert _) fun _ => .bind (growing_log _)
      fun _ => growing_modifyClient i _
  refine .bind (growing_clientAt i) fun _ => .bind (growing_assert _) fun _ => ?_
  exact .ite hclient (.ite hcgi (.throw _))

theorem growing_acceptClient (serverFd : ℤ) : Growing (acceptClient config env serverFd) := by
  intro s u s' h
  obtain ⟨fd, _, haccept, h⟩ := bind_eq_ok h
  obtain ⟨-, -, rfl⟩ := accept_ok haccept
  obtain ⟨_, s₁, hfcntl, h⟩ := bind_eq_ok h
  obtain rfl := fcntl_ok hfcntl
  obtain ⟨_, _, ⟨⟩, h⟩ := bind_eq_ok h
  obtain ⟨_, s₂, hadd, h⟩ := bind_eq_ok h
  have hgrown := growing_addClientFd _ _ _ _ _ _ _ hadd
  have hrest : Growing (do
      let serverPort ← lookupAt (← get).bindFdToPort serverFd
      log (.acceptClient fd)
      modify fun s => { s with
        clients := s.clients ++ [Client.new fd serverFd serverPort config.clientMaxBodySize] } :
      ServerM Unit) :=
    .bind .get fun _ => .bind (growing_lookupAt _ _) fun _ => .bind (growing_log _) fun _ =>
      .of_keeps (.modify fun _ => rfl)
  have hopened : ∀ descriptors, Grown s { s with descriptors := descriptors } :=
    fun _ => .of_eq rfl rfl
  exact (hopened _).trans (hgrown.trans (hrest _ _ _ h))

/-- When `_readFd` asks for the other events of the descriptor, it has removed nothing. -/
theorem readFd_grown {i : ℕ} {fd : ℤ} {fdType : FdType}
    (h : readFd config env i fd fdType s = .ok false s') : Grown s s' := by
  obtain ⟨received, _, hread, h⟩ := bind_eq_ok h
  obtain rfl := read_ok hread
  obtain ⟨_, s₁, hmodify, h⟩ := bind_eq_ok h
  have h₁ := growing_modifyClient _ _ _ _ _ hmodify
  rw [run_ite] at h
  split_ifs at h
  · obtain ⟨_, _, -, h⟩ := bind_eq_ok h
    obtain ⟨_, _, -, h⟩ := bind_eq_ok h
    obtain ⟨_, _, -, h⟩ := bind_eq_ok h
    cases h
  · obtain ⟨_, s₂, hbytes, h⟩ := bind_eq_ok h
    cases h
    exact h₁.trans (growing_readBytes _ _ _ _ _ _ _ hbytes)

/-- When `_handlePollin` asks for the other events of the descriptor, it has removed nothing. -/
theorem handlePollin_grown {fd : ℤ} {fdType : FdType}
    (h : handlePollin config env fd fdType s = .ok false s') : Grown s s' := by
  unfold handlePollin at h
  rw [run_ite] at h
  split_ifs at h
  · obtain ⟨_, s₁, haccept, h⟩ := bind_eq_ok h
    cases h
    exact growing_acceptClient _ _ _ _ haccept
  · obtain ⟨_, _, hassert, h⟩ := bind_eq_ok h
    obtain ⟨rfl, -⟩ := assert_ok hassert
    obtain ⟨i, _, hget, h⟩ := bind_eq_ok h
    obtain ⟨rfl, -⟩ := getClient_ok hget
    obtain hread | ⟨status, s₁, -, h⟩ := catchClientException_ok h
    · exact readFd_grown hread
    · obtain ⟨_, _, -, h⟩ := bind_eq_ok h
      cases h

end Webserv.Server
