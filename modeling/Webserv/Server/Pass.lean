import Webserv.Server.RunTrace

/-!
# A pass over `_pfds`

After `poll`, the loop of `run` walks down `_pfds` while handling an entry adds entries at the end and
moves the last one to the place of a removed one. What carries the proof is an invariant (`InPass`):
the entries from the index of the loop on have no events or were handled in this pass, an entry with
events was there when the pass started, and an entry that was there then is still there unless its
descriptor was closed. The descriptors that were handled are those whose handler ran in a round of the
loop (`handlesIn_run`), so the handler of a descriptor with events runs in one round
(`pass_handles_once`).
-/

namespace Webserv

open Exec Server

namespace Call

/-- The call registers no descriptor. -/
def isPlain : Call → Bool
  | addFd _ _ => false
  | _ => true

end Call

namespace Server

/-- What holds in a pass that has started with the given entries and has come down to an index, with
the calls since then. -/
structure InPass (pfds : List Pollfd) (k : ℕ) (seenFds : Finset ℤ) (new : List Call) (s : Server) :
    Prop where
  /-- What is behind has no events or was handled. -/
  visited : ∀ j pfd, k ≤ j → s.pfds[j]? = some pfd → pfd.revents = {} ∨ pfd.fd ∈ seenFds
  /-- Nothing gets lost. -/
  kept : ∀ pfd ∈ pfds, .close pfd.fd true ∈ new ∨ ∃ pfd' ∈ s.pfds, pfd'.fd = pfd.fd
  /-- What is new has no events. -/
  ready : ∀ pfd ∈ s.pfds, pfd.revents ≠ {} →
    (∃ pfd₀ ∈ pfds, pfd₀.fd = pfd.fd ∧ pfd₀.revents ≠ {}) ∧ ∀ fdType, .addFd pfd.fd fdType ∉ new

variable {config : Config} {env : Answers} {s s' : Server} {pfds : List Pollfd} {k : ℕ}
  {seenFds : Finset ℤ} {new new' : List Call}

/-- What an action has to keep. -/
theorem InPass.next (h : InPass pfds k seenFds new s)
    (hvisited : ∀ j pfd', k ≤ j → s'.pfds[j]? = some pfd' → pfd'.revents = {} ∨
      ∃ j' pfd, k ≤ j' ∧ s.pfds[j']? = some pfd ∧ pfd'.fd = pfd.fd ∧
        (pfd.revents = {} → pfd'.revents = {}))
    (hkept : ∀ pfd ∈ s.pfds, .close pfd.fd true ∈ new' ∨ ∃ pfd' ∈ s'.pfds, pfd'.fd = pfd.fd)
    (hready : ∀ pfd' ∈ s'.pfds, pfd'.revents ≠ {} → ∃ pfd ∈ s.pfds, pfd'.fd = pfd.fd ∧
      pfd.revents ≠ {} ∧ ∀ fdType, .addFd pfd.fd fdType ∉ new') :
    InPass pfds k seenFds (new' ++ new) s' where
  visited j pfd' hj hpfd' := by
    rcases hvisited j pfd' hj hpfd' with hnone | ⟨j', pfd, hj', hpfd, hfd, hrevents⟩
    · exact .inl hnone
    · rw [hfd]
      exact (h.visited j' pfd hj' hpfd).imp_left hrevents
  kept pfd hpfd := by
    rcases h.kept pfd hpfd with hclose | ⟨pfd₁, hpfd₁, hfd₁⟩
    · exact .inl (List.mem_append_right _ hclose)
    · rw [← hfd₁]
      exact (hkept pfd₁ hpfd₁).imp_left (List.mem_append_left _)
  ready pfd' hpfd' hrevents := by
    obtain ⟨pfd, hpfd, hfd, hne, hadd⟩ := hready pfd' hpfd' hrevents
    obtain ⟨hfirst, hold⟩ := h.ready pfd hpfd hne
    rw [hfd]
    exact ⟨hfirst, fun fdType hmem => (List.mem_append.1 hmem).elim (hadd fdType) (hold fdType)⟩

theorem not_addFd_of_isPlain (hnew : ∀ call ∈ new, call.isPlain = true) (fd : ℤ) (fdType : FdType) :
    .addFd fd fdType ∉ new := fun hmem => nomatch hnew _ hmem

/-- Nothing happens to the entries. -/
theorem InPass.same (h : InPass pfds k seenFds new s) (hnew : ∀ call ∈ new', call.isPlain = true)
    (hpfds : s'.pfds = s.pfds) : InPass pfds k seenFds (new' ++ new) s' := by
  refine h.next ?_ ?_ ?_
  · intro j pfd hj hpfd
    exact .inr ⟨j, pfd, hj, hpfds ▸ hpfd, rfl, id⟩
  · exact fun pfd hpfd => .inr ⟨pfd, hpfds ▸ hpfd, rfl⟩
  · exact fun pfd hpfd hne => ⟨pfd, hpfds ▸ hpfd, rfl, hne, not_addFd_of_isPlain hnew pfd.fd⟩

/-- The events of an entry change. -/
theorem InPass.set (h : InPass pfds k seenFds new s) {j : ℕ} {pfd pfd' : Pollfd}
    (hj : s.pfds[j]? = some pfd) (hpfds : s'.pfds = s.pfds.set j pfd') (hfd : pfd'.fd = pfd.fd)
    (hrevents : pfd.revents = {} → pfd'.revents = {}) : InPass pfds k seenFds ([] ++ new) s' := by
  have hmem : pfd ∈ s.pfds := List.mem_of_getElem? hj
  refine h.next ?_ ?_ ?_
  · intro l p hl hp
    rw [hpfds] at hp
    rcases getElem?_set_cases hp with ⟨rfl, rfl⟩ | ⟨-, hp⟩
    · exact .inr ⟨_, pfd, hl, hj, hfd, hrevents⟩
    · exact .inr ⟨l, p, hl, hp, rfl, id⟩
  · intro p hp
    rw [hpfds]
    rcases mem_set_or pfd' hj hp with rfl | hp
    · exact .inr ⟨pfd', mem_set_self pfd' hj, hfd⟩
    · exact .inr ⟨p, hp, rfl⟩
  · intro p hp hne
    rw [hpfds] at hp
    rcases List.mem_or_eq_of_mem_set hp with hp | rfl
    · exact ⟨p, hp, rfl, hne, fun _ hcall => nomatch hcall⟩
    · exact ⟨pfd, hmem, hfd, fun hnone => hne (hrevents hnone), fun _ hcall => nomatch hcall⟩

/-- Entries are added at the end. -/
theorem InPass.push (h : InPass pfds k seenFds new s) {added : List Pollfd}
    (hpfds : s'.pfds = s.pfds ++ added) (hadded : ∀ pfd ∈ added, pfd.revents = {})
    (hfree : ∀ pfd ∈ s.pfds, ∀ fdType, .addFd pfd.fd fdType ∉ new') :
    InPass pfds k seenFds (new' ++ new) s' := by
  refine h.next ?_ ?_ ?_
  · intro j pfd' hj hpfd'
    rw [hpfds, List.getElem?_append] at hpfd'
    split_ifs at hpfd'
    · exact .inr ⟨j, pfd', hj, hpfd', rfl, id⟩
    · exact .inl (hadded pfd' (List.mem_of_getElem? hpfd'))
  · exact fun pfd hpfd => .inr ⟨pfd, hpfds ▸ List.mem_append_left _ hpfd, rfl⟩
  · intro pfd' hpfd' hne
    rw [hpfds] at hpfd'
    rcases List.mem_append.1 hpfd' with hpfd' | hpfd'
    · exact ⟨pfd', hpfd', rfl, hne, hfree pfd' hpfd'⟩
    · exact absurd (hadded pfd' hpfd') hne

/-- The last entry is moved to the place of one that is removed. -/
theorem InPass.remove (h : InPass pfds k seenFds new s) (hs : s.Good) {fd : ℤ} {j : ℕ}
    {last : Pollfd} (hnew : ∀ call ∈ new', call.isPlain = true) (hclose : .close fd true ∈ new')
    (hj : s.fdToPfdIndex.lookup fd = some j) (hlast : s.pfds.getLast? = some last)
    (hpfds : s'.pfds = (s.pfds.set j last).dropLast) : InPass pfds k seenFds (new' ++ new) s' := by
  have hend : s.pfds[s.pfds.length - 1]? = some last := by rwa [← List.getLast?_eq_getElem?]
  refine h.next ?_ ?_ ?_
  · intro l p hl hp
    rw [hpfds, IndexedVector.getElem?_dropLast_set_iff] at hp
    rcases hp with ⟨rfl, hlt, rfl⟩ | ⟨-, -, hp⟩
    · exact .inr ⟨s.pfds.length - 1, p, by omega, hend, rfl, id⟩
    · exact .inr ⟨l, p, hl, hp, rfl, id⟩
  · intro p hp
    by_cases heq : p.fd = fd
    · exact .inl (heq ▸ hclose)
    · obtain ⟨pfd, hpfd, rfl⟩ : ∃ pfd, s.pfds[j]? = some pfd ∧ pfd.fd = fd := by
        have hkey := (hs.indexed fd j).1 hj
        rw [List.getElem?_map, Option.map_eq_some_iff] at hkey
        exact hkey
      rw [hpfds]
      have hne : p ≠ pfd := fun hp => heq (hp ▸ rfl)
      exact .inr ⟨p, (mem_removed_of_ne id hpfd hlast hp hne).elim id id, rfl⟩
  · intro p hp hne
    rw [hpfds] at hp
    have hmem : p ∈ s.pfds := by
      rcases mem_of_mem_removed hp with hp | rfl
      · exact hp
      · exact List.mem_of_getLast? hlast
    exact ⟨p, hmem, rfl, hne, not_addFd_of_isPlain hnew p.fd⟩

theorem isPlain_hangUpCalls (c : Client) : ∀ call ∈ hangUpCalls c, call.isPlain = true := by
  unfold hangUpCalls
  split_ifs <;> simp [Call.isPlain]

theorem isPlain_reapCalls (c : Client) (pid : ℤ) (errno : Option Errno) :
    ∀ call ∈ reapCalls c pid errno, call.isPlain = true := by
  unfold reapCalls
  split_ifs <;> simp [Call.isPlain]

theorem Change.isPlain {calls : List Call} {c c' : Client} (h : Change calls c new c') :
    ∀ call ∈ new, call.isPlain = true := by
  cases h with
  | read _ _ dispatched failed => cases failed <;> cases dispatched <;> simp [readCalls, Call.isPlain]
  | note | readCgi | kill | remove | giveUp | writeBody | writeResponse => simp [Call.isPlain]

/-- **Every action keeps the pass going.** -/
theorem InPass.action (h : InPass pfds k seenFds new s) (hs : s.Good)
    (haction : Action config .handling s s') :
    ∃ new', s'.calls = new' ++ s.calls ∧ InPass pfds k seenFds (new' ++ new) s' := by
  have hfree : ∀ {fd}, fd ∉ s.fdToPfdIndex → ∀ pfd ∈ s.pfds, pfd.fd ≠ fd := by
    intro fd hfd pfd hpfd heq
    exact hfd ((hs.indexed.mem_iff fd).2 (heq ▸ List.mem_map_of_mem hpfd))
  cases haction with
  | kernel => exact ⟨[], rfl, h.same (fun _ hmem => absurd hmem List.not_mem_nil) rfl⟩
  | close fd _ => exact ⟨[.close fd true], rfl, h.same (by simp [Call.isPlain]) rfl⟩
  | log call hneutral =>
    have hplain : call.isPlain = true := by
      cases call with
      | addFd => cases hneutral
      | _ => rfl
    exact ⟨[call], rfl, h.same (by simpa using hplain) rfl⟩
  | change i c c' new' hi hchange => exact ⟨new', rfl, h.same hchange.isPlain rfl⟩
  | stopReading i c j pfd _ _ hpfd _ =>
    refine ⟨[], rfl, h.set hpfd rfl rfl fun hnone => ?_⟩
    rw [Pollfd.withoutPollin, hnone]
  | answer i c c' j pfd _ _ hpfd _ _ _ _ _ _ => exact ⟨[], rfl, h.set hpfd rfl rfl id⟩
  | start i c pid toCgi fromCgi _ _ _ _ _ hto hfrom _ _ =>
    cases toCgi with
    | none =>
      refine ⟨[.startCgi pid c, .addFd fromCgi .cgiToServer], rfl,
        h.push rfl (by simp) fun pfd hpfd fdType => ?_⟩
      simpa using fun heq => absurd heq (hfree hfrom.2 pfd hpfd)
    | some fd =>
      refine ⟨[.startCgi pid c, .addFd fromCgi .cgiToServer, .addFd fd .serverToCgi], rfl,
        h.push (List.append_assoc _ _ _) (by simp) fun pfd hpfd fdType => ?_⟩
      have hfrom' := hfree hfrom.2 pfd hpfd
      have hto' := hfree (hto fd rfl).2 pfd hpfd
      simp [hfrom', hto']
  | release i c fdType j last new' _ _ _ hj hlast hnew' =>
    refine ⟨new' ++ [.close (c.fdOf fdType) true], (List.append_assoc _ [_] _).symm,
      h.remove hs ?_ (by simp) hj hlast rfl⟩
    rcases hnew' with ⟨rfl, -⟩ | ⟨-, rfl⟩
    · simp [Call.isPlain]
    · intro call hmem
      rcases List.mem_append.1 hmem with hmem | hmem
      · exact isPlain_hangUpCalls _ call hmem
      · rw [List.mem_singleton.1 hmem]
        rfl
  | orphan i c d fd _ _ _ _ => exact ⟨hangUpCalls d, rfl, h.same (isPlain_hangUpCalls d) rfl⟩
  | wait pid count _ _ => exact ⟨[.waitpid pid s.errno], rfl, h.same (by simp [Call.isPlain]) rfl⟩
  | reap i c pid clientFd status _ _ _ _ _ _ _ _ _ =>
    exact ⟨_, rfl, h.same (isPlain_reapCalls _ pid s.errno) rfl⟩
  | accept fd serverFd serverPort hopen =>
    refine ⟨[.acceptClient fd, .addFd fd .client], rfl,
      h.push rfl (by simp) fun pfd hpfd fdType => ?_⟩
    simpa using fun heq => absurd heq (hfree (hs.notMem_of_canOpen hopen) pfd hpfd)
  | erase i c last this src j lastPfd _ _ _ _ hj hlastPfd _ _ _ =>
    exact ⟨[.assign this src, .close c.clientFd true], rfl,
      h.remove hs (by simp [Call.isPlain]) (by simp) hj hlastPfd rfl⟩
  | listen fd _ _ hopen =>
    refine ⟨[.addFd fd .server], rfl,
      h.push rfl (by simp) fun pfd hpfd fdType => ?_⟩
    simpa using fun heq => absurd heq (hfree (hs.notMem_of_canOpen hopen) pfd hpfd)
  | polled _ hstage | shutDown _ _ _ hstage => cases hstage

theorem InPass.actions (h : InPass pfds k seenFds new s) (hs : s.Good)
    (hactions : Actions config .handling s s') :
    ∃ new', s'.calls = new' ++ s.calls ∧ InPass pfds k seenFds (new' ++ new) s' := by
  induction hactions with
  | refl => exact ⟨[], rfl, h⟩
  | tail hactions haction ih =>
    obtain ⟨new₁, hcalls₁, h₁⟩ := ih
    obtain ⟨new₂, hcalls₂, h₂⟩ := h₁.action (hs.actions hactions) haction
    refine ⟨new₂ ++ new₁, ?_, ?_⟩
    · rw [hcalls₂, hcalls₁, List.append_assoc]
    · rwa [List.append_assoc]

/-- The entry at an index is looked at. -/
theorem InPass.processPfd {seenFds' : Finset ℤ} (h : InPass pfds (k + 1) seenFds new s) (hs : s.Good)
    (hpfd : processPfd config env k seenFds s = .ok seenFds' s') :
    ∃ new', s'.calls = new' ++ s.calls ∧ InPass pfds k seenFds' (new' ++ new) s' := by
  -- what is found at the index: an entry, or no event
  have hentry : ∀ pfd, s.pfds[k]? = some pfd → pfdAt env s k = pfd := by
    intro pfd hpfd
    rw [pfdAt, List.getD_eq_getElem?_getD, hpfd, Option.getD_some]
  have hvisited : ∀ j pfd, k ≤ j → s.pfds[j]? = some pfd →
      (pfd.revents = {} ∨ pfd.fd ∈ seenFds) ∨ pfdAt env s k = pfd := by
    intro j pfd hj hpfd
    rcases eq_or_lt_of_le hj with rfl | hlt
    · exact .inr (hentry pfd hpfd)
    · exact .inl (h.visited j pfd hlt hpfd)
  rcases processPfd_ok hpfd with ⟨rfl, rfl, hskip⟩ | ⟨-, -, -, rfl, hevents⟩
  · refine ⟨[], rfl, ⟨fun j pfd hj hpfd => ?_, h.kept, h.ready⟩⟩
    rcases hvisited j pfd hj hpfd with hdone | hat
    · exact hdone
    · rw [hat] at hskip
      have hmem : pfd.fd ∈ s.fdToPfdIndex :=
        (hs.indexed.mem_iff _).2 (List.mem_map_of_mem (List.mem_of_getElem? hpfd))
      rcases hskip with hnone | hgone | hseen
      · exact .inl hnone
      · exact absurd hmem hgone
      · exact .inr hseen
  · have hlog : Action config .polling s { s with
        calls := .handle (pfdAt env s k).fd (k < s.pfds.length) :: s.calls } :=
      .log _ trivial fun _ => rfl
    have hhandle : InPass pfds k (insert (pfdAt env s k).fd seenFds)
        (.handle (pfdAt env s k).fd (k < s.pfds.length) :: new) { s with
          calls := .handle (pfdAt env s k).fd (k < s.pfds.length) :: s.calls } := by
      refine ⟨fun j pfd hj hpfd => ?_, fun pfd hpfd => ?_, fun pfd hpfd hne => ?_⟩
      · rcases hvisited j pfd hj hpfd with hdone | rfl
        · exact hdone.imp_right Finset.mem_insert_of_mem
        · exact .inr (Finset.mem_insert_self _ _)
      · exact (h.kept pfd hpfd).imp_left (List.mem_cons_of_mem _)
      · obtain ⟨hfirst', hadd'⟩ := h.ready pfd hpfd hne
        exact ⟨hfirst', fun fdType hmem => (List.mem_cons.1 hmem).elim nofun (hadd' fdType)⟩
    obtain ⟨new', hcalls, hpass⟩ :=
      hhandle.actions (hs.action hlog) (processEvents_actions (hs.action hlog) hevents)
    refine ⟨new' ++ [.handle (pfdAt env s k).fd (k < s.pfds.length)], ?_, ?_⟩
    · rw [hcalls, List.append_assoc]
      rfl
    · rwa [List.append_assoc]

/-- What is found at an index with events is an entry, and not one that was registered in the pass. -/
theorem InPass.ready_pfdAt (h : InPass pfds (k + 1) seenFds new s) (hstale : env.stalePfd.revents = {})
    (hsome : (pfdAt env s k).revents ≠ {}) :
    (∃ pfd ∈ pfds, pfd.fd = (pfdAt env s k).fd ∧ pfd.revents ≠ {}) ∧
      ∀ fdType, .addFd (pfdAt env s k).fd fdType ∉ new := by
  refine h.ready _ ?_ hsome
  rw [pfdAt, List.getD_eq_getElem?_getD] at hsome ⊢
  cases hk : s.pfds[k]? with
  | none =>
    rw [hk, Option.getD_none] at hsome
    exact absurd hstale hsome
  | some pfd => exact List.mem_of_getElem? hk

/-- A pass starts. -/
theorem inPass_start (s : Server) : InPass s.pfds s.pfds.length ∅ [] s where
  visited j pfd hj hpfd := by
    have := (List.getElem?_eq_some_iff.1 hpfd).1
    omega
  kept pfd hpfd := .inr ⟨pfd, hpfd, rfl⟩
  ready pfd hpfd hne := ⟨⟨pfd, hpfd, rfl, hne⟩, fun _ => List.not_mem_nil⟩

/-! ## Which handler runs -/

/-- The handler that the events of a descriptor select runs, and returns. -/
inductive Handled (config : Config) (env : Answers) (k : ℕ) (fd : ℤ) (s : Server) : Server → Prop
  | pollerr {fdType : FdType} {s' : Server} (htype : s.fdToFdType.lookup fd = some fdType)
    (hpollerr : (pfdAt env s k).revents.pollerr = true)
    (h : handlePollerr env fd fdType s = .ok () s') : Handled config env k fd s s'
  | pollhup {s' : Server} (htype : s.fdToFdType.lookup fd = some .cgiToServer)
    (hpollerr : (pfdAt env s k).revents.pollerr = false)
    (hpollhup : (pfdAt env s k).revents.pollhup = true)
    (hpollin : (pfdAt env s k).revents.pollin = false)
    (h : pollhupCgiToServer config env fd s = .ok () s') : Handled config env k fd s s'
  | pollin {fdType : FdType} {skip : Bool} {s' : Server} (htype : s.fdToFdType.lookup fd = some fdType)
    (hpollerr : (pfdAt env s k).revents.pollerr = false)
    (hpollin : (pfdAt env s k).revents.pollin = true)
    (h : handlePollin config env fd fdType s = .ok skip s')
    (hskip : ¬ (skip = false ∧ (pfdAt env s' k).revents.pollout = true)) : Handled config env k fd s s'
  | pollinOut {fdType : FdType} {s₁ s' : Server} (htype : s.fdToFdType.lookup fd = some fdType)
    (hpollerr : (pfdAt env s k).revents.pollerr = false)
    (hpollin : (pfdAt env s k).revents.pollin = true)
    (hin : handlePollin config env fd fdType s = .ok false s₁)
    (hpollout : (pfdAt env s₁ k).revents.pollout = true)
    (hout : handlePollout env fd fdType s₁ = .ok () s') : Handled config env k fd s s'
  | pollout {fdType : FdType} {s' : Server} (htype : s.fdToFdType.lookup fd = some fdType)
    (hpollerr : (pfdAt env s k).revents.pollerr = false)
    (hpollhup : (pfdAt env s k).revents.pollhup = false)
    (hpollin : (pfdAt env s k).revents.pollin = false)
    (hpollout : (pfdAt env s k).revents.pollout = true)
    (h : handlePollout env fd fdType s = .ok () s') : Handled config env k fd s s'

theorem Handled.actions {fd : ℤ} (h : Handled config env k fd s s') (hs : s.Good) :
    Actions config .handling s s' := by
  cases h with
  | pollerr _ _ h => exact handlePollerr_actions hs h
  | pollhup htype _ _ _ h =>
    exact (pollhupCgiToServer_quiet hs (hs.typed fd .cgiToServer htype (by decide)) h).actions
  | pollin htype _ _ h _ => exact handlePollin_actions hs htype h
  | pollinOut htype _ _ hin _ hout =>
    have hactions : Actions config .handling s _ := handlePollin_actions hs htype hin
    exact hactions.trans (handlePollout_actions (hs.actions hactions) hout)
  | pollout _ _ _ _ _ h => exact handlePollout_actions hs h

/-- For `POLLIN` and `POLLOUT` the handlers of these run. -/
theorem processInOut_handled {fd : ℤ} {fdType : FdType} {u : Unit}
    (htype : s.fdToFdType.lookup fd = some fdType) (hpollerr : (pfdAt env s k).revents.pollerr = false)
    (hpollhup : (pfdAt env s k).revents.pollin = false → (pfdAt env s k).revents.pollhup = false)
    (hsome : (pfdAt env s k).revents ≠ {}) (hpollnval : (pfdAt env s k).revents.pollnval = false)
    (h : processInOut config env k fd fdType (pfdAt env s k).revents.pollin s = .ok u s') :
    Handled config env k fd s s' := by
  obtain ⟨skip, s₁, hin, hrest⟩ := bind_eq_ok h
  obtain ⟨_, _, ⟨⟩, hrun⟩ := bind_eq_ok hrest
  rw [run_ite] at hin hrun
  cases hpollin : (pfdAt env s k).revents.pollin with
  | true =>
    rw [hpollin, if_pos rfl] at hin
    split_ifs at hrun with hout
    · obtain ⟨rfl, hpollout⟩ := hout
      exact .pollinOut htype hpollerr hpollin hin hpollout hrun
    · cases hrun
      exact .pollin htype hpollerr hpollin hin hout
  | false =>
    rw [hpollin, if_neg Bool.false_ne_true] at hin
    cases hin
    split_ifs at hrun with hout
    · exact .pollout htype hpollerr (hpollhup hpollin) hpollin hout.2 hrun
    · -- without any of the events there is none
      have hpollout : (pfdAt env s k).revents.pollout = false := by simpa using hout
      refine absurd ?_ hsome
      generalize (pfdAt env s k).revents = revents at *
      cases revents
      simp_all

/-- **What handles the events of a descriptor** is the handler that they select. -/
theorem processEvents_handled {fd : ℤ} {u : Unit} (hsome : (pfdAt env s k).revents ≠ {})
    (h : processEvents config env k fd s = .ok u s') : Handled config env k fd s s' := by
  obtain ⟨_, _, ⟨⟩, h⟩ := bind_eq_ok h
  obtain ⟨fdType, _, hlookup, h⟩ := bind_eq_ok h
  obtain ⟨rfl, htype⟩ := lookupAt_ok hlookup
  obtain ⟨_, _, hprint, h⟩ := bind_eq_ok h
  obtain rfl := printEvents_ok hprint
  obtain ⟨_, _, ⟨⟩, h⟩ := bind_eq_ok h
  obtain ⟨_, _, hassert, h⟩ := bind_eq_ok h
  obtain ⟨rfl, hpollnval⟩ := assert_ok hassert
  rw [run_ite] at h
  split at h
  · rename_i hpollerr
    exact .pollerr htype hpollerr h
  · rename_i hpollerr
    rw [Bool.not_eq_true] at hpollerr
    obtain ⟨_, _, hassert, h⟩ := bind_eq_ok h
    obtain ⟨rfl, hpipe⟩ := assert_ok hassert
    rw [run_ite] at h
    split_ifs at h with hhup
    · exact .pollhup (hpipe hhup.1 ▸ htype) hpollerr hhup.1 hhup.2 h
    · refine processInOut_handled htype hpollerr (fun hpollin => ?_) hsome hpollnval h
      rw [← Bool.not_eq_true]
      exact fun hpollhup => hhup ⟨hpollhup, hpollin⟩

/-- The call of `_processPfd` for an index runs the handler of a descriptor. -/
structure Handles (config : Config) (env : Answers) (k : ℕ) (s s' : Server) (fd : ℤ) : Prop where
  entry : (pfdAt env s k).fd = fd
  handled : Handled config env k fd
    { s with calls := .handle fd (k < s.pfds.length) :: s.calls } s'

/-- **What a call of `_processPfd` does**: nothing at all, or it runs the handler of one descriptor,
which is a new one. -/
theorem processPfd_handles {seenFds' : Finset ℤ} (hs : s.Good)
    (h : processPfd config env k seenFds s = .ok seenFds' s') :
    (s' = s ∧ seenFds' = seenFds ∧ ∀ fd, ¬ Handles config env k s s' fd) ∨
      ((pfdAt env s k).revents ≠ {} ∧ (pfdAt env s k).fd ∉ seenFds ∧
        seenFds' = insert (pfdAt env s k).fd seenFds ∧
        ∀ fd, Handles config env k s s' fd ↔ fd = (pfdAt env s k).fd) := by
  have hlog : ∀ fd inside, Action config .polling s
      { s with calls := .handle fd inside :: s.calls } := fun _ _ => .log _ trivial fun _ => rfl
  rcases processPfd_ok h with ⟨rfl, rfl, -⟩ | ⟨hsome, -, hunseen, rfl, hevents⟩
  · refine .inl ⟨rfl, rfl, fun fd hhandles => ?_⟩
    -- a handler forgets no call
    have hsuffix := (hhandles.handled.actions (hs.action (hlog _ _))).suffix.length_le
    exact absurd hsuffix (Nat.not_succ_le_self s.calls.length)
  · refine .inr ⟨hsome, hunseen, rfl, fun fd => ⟨fun hhandles => hhandles.entry.symm, ?_⟩⟩
    rintro rfl
    exact ⟨rfl, processEvents_handled hsome hevents⟩

/-- A call of `_processPfd` runs a handler for what it adds to the descriptors that were handled. -/
theorem processPfd_handles_iff {seenFds' : Finset ℤ} (hs : s.Good)
    (h : processPfd config env k seenFds s = .ok seenFds' s') : seenFds ⊆ seenFds' ∧
      ∀ fd, Handles config env k s s' fd ↔ fd ∉ seenFds ∧ fd ∈ seenFds' := by
  rcases processPfd_handles hs h with ⟨-, rfl, hnone⟩ | ⟨-, hunseen, rfl, hiff⟩
  · exact ⟨subset_rfl, fun fd => iff_of_false (hnone fd) fun hboth => hboth.1 hboth.2⟩
  · refine ⟨Finset.subset_insert _ _, fun fd => ?_⟩
    rw [hiff, Finset.mem_insert]
    constructor
    · rintro rfl
      exact ⟨hunseen, .inl rfl⟩
    · exact fun ⟨hnot, hor⟩ => hor.resolve_right hnot

end Server

namespace World

variable {config : Config} {env : Answers} {w w₀ w' : World} {pfds : List Pollfd} {k : ℕ}
  {seenFds : Finset ℤ} {new : List Call}

/-- A round of the loop. -/
theorem step_processing_ok (hphase : w.phase = .processing (k + 1) seenFds)
    (hstep : step config env w = .ok () w') : ∃ seenFds' s',
      processPfd config env k seenFds (w.interrupted env).server = .ok seenFds' s' ∧
      w' = { w.interrupted env with server := s', phase := .processing k seenFds' } := by
  rcases step_ok hstep with ⟨hother, -⟩ | ⟨hother, -⟩ | ⟨_, _, hother, -⟩ |
    ⟨⟨_, _, hother, -⟩, -⟩ | ⟨⟨_, hother⟩, -⟩ | ⟨k', seenFds', hsame, hpfd⟩ | ⟨hother, -⟩
  · cases hphase.symm.trans hother
  · cases hphase.symm.trans hother
  · cases hphase.symm.trans hother
  · cases hphase.symm.trans hother
  · cases hphase.symm.trans hother
  · cases hphase.symm.trans hsame
    exact hpfd
  · cases hphase.symm.trans hother

theorem inPass_step (hw : w.Good) (hphase : w.phase = .processing (k + 1) seenFds)
    (h : InPass pfds (k + 1) seenFds new w.server) (hstep : step config env w = .ok () w') :
    ∃ seenFds' new', w'.phase = .processing k seenFds' ∧
      w'.server.calls = new' ++ w.server.calls ∧ InPass pfds k seenFds' (new' ++ new) w'.server := by
  have hpass : InPass pfds (k + 1) seenFds new (w.interrupted env).server := ⟨h.visited, h.kept, h.ready⟩
  obtain ⟨seenFds', s', hpfd, rfl⟩ := step_processing_ok hphase hstep
  obtain ⟨new', hcalls, hnext⟩ := hpass.processPfd (hw.interrupted env).server hpfd
  exact ⟨seenFds', new', rfl, hcalls, hnext⟩

/-- The rounds of the loop. -/
theorem inPass_run {envs : List Answers} (h : Reachable config w)
    (hphase : w.phase = .processing (k + envs.length) seenFds)
    (hpass : InPass pfds (k + envs.length) seenFds new w.server)
    (hrun : run config envs w = .ok () w') : ∃ seenFds' new',
      w'.phase = .processing k seenFds' ∧ w'.server.calls = new' ++ w.server.calls ∧
      InPass pfds k seenFds' (new' ++ new) w'.server := by
  induction envs generalizing w seenFds new with
  | nil =>
    cases hrun
    exact ⟨seenFds, [], hphase, rfl, hpass⟩
  | cons env envs ih =>
    obtain ⟨_, w₁, hstep, hrun⟩ := bind_eq_ok hrun
    obtain ⟨seenFds₁, new₁, hphase₁, hcalls₁, hpass₁⟩ := inPass_step h.good hphase hpass hstep
    obtain ⟨seenFds₂, new₂, hphase₂, hcalls₂, hpass₂⟩ := ih (h.step env hstep) hphase₁ hpass₁ hrun
    refine ⟨seenFds₂, new₂ ++ new₁, hphase₂, ?_, ?_⟩
    · rw [hcalls₂, hcalls₁, List.append_assoc]
    · rwa [List.append_assoc]

/-! ## The rounds in which handlers run -/

/-- In a round of a pass, counted from its start, the handler of a descriptor runs. -/
def HandlesIn (config : Config) (envs : List Answers) (w₀ : World) (j : ℕ) (fd : ℤ) : Prop :=
  ∃ env k seenFds w w', envs[j]? = some env ∧ run config (envs.take j) w₀ = .ok () w ∧
    w.phase = .processing (k + 1) seenFds ∧ step config env w = .ok () w' ∧
    Handles config env k (w.interrupted env).server w'.server fd

theorem handlesIn_zero {envs : List Answers} {fd : ℤ} (hphase : w.phase = .processing (k + 1) seenFds)
    (hstep : step config env w = .ok () w') : HandlesIn config (env :: envs) w 0 fd ↔
      Handles config env k (w.interrupted env).server w'.server fd := by
  constructor
  · rintro ⟨env₁, k₁, seenFds₁, w₁, w₁', ⟨⟩, ⟨⟩, hphase₁, hstep₁, hhandles⟩
    cases hphase.symm.trans hphase₁
    cases hstep.symm.trans hstep₁
    exact hhandles
  · exact fun hhandles => ⟨env, k, seenFds, w, w', rfl, rfl, hphase, hstep, hhandles⟩

theorem handlesIn_succ {envs : List Answers} {j : ℕ} {fd : ℤ} (hstep : step config env w = .ok () w') :
    HandlesIn config (env :: envs) w (j + 1) fd ↔ HandlesIn config envs w' j fd := by
  unfold HandlesIn
  simp only [List.getElem?_cons_succ, List.take_succ_cons, World.run, bind_of_ok hstep]

/-- **What was handled in a pass is what a handler ran for**, and no handler runs twice for a descriptor,
nor for one that was handled before. -/
theorem handlesIn_run {envs : List Answers} {seenFds' : Finset ℤ} (h : Reachable config w)
    (hphase : w.phase = .processing (k + envs.length) seenFds)
    (hrun : run config envs w = .ok () w') (hphase' : w'.phase = .processing k seenFds') (fd : ℤ) :
    (fd ∈ seenFds' ↔ fd ∈ seenFds ∨ ∃ j, HandlesIn config envs w j fd) ∧
      (fd ∈ seenFds → ∀ j, ¬ HandlesIn config envs w j fd) ∧
      ∀ j j', HandlesIn config envs w j fd → HandlesIn config envs w j' fd → j = j' := by
  induction envs generalizing w seenFds with
  | nil =>
    cases hrun
    cases hphase.symm.trans hphase'
    have hnone : ∀ j, ¬ HandlesIn config [] w' j fd := by
      rintro j ⟨env, _, _, _, _, henv, -⟩
      cases henv
    exact ⟨⟨.inl, fun hmem => hmem.elim id fun ⟨j, hj⟩ => absurd hj (hnone j)⟩, fun _ => hnone,
      fun j _ hj => absurd hj (hnone j)⟩
  | cons env envs ih =>
    obtain ⟨_, w₁, hstep, hrun⟩ := bind_eq_ok hrun
    have hzero : HandlesIn config (env :: envs) w 0 fd ↔ _ := handlesIn_zero hphase hstep
    have hsucc : ∀ j, HandlesIn config (env :: envs) w (j + 1) fd ↔ HandlesIn config envs w₁ j fd :=
      fun j => handlesIn_succ hstep
    obtain ⟨seenFds₁, s', hpfd, hw₁⟩ := step_processing_ok hphase hstep
    have hphase₁ : w₁.phase = .processing (k + envs.length) seenFds₁ := congrArg World.phase hw₁
    obtain ⟨hmem, hnot, honce⟩ := ih (h.step env hstep) hphase₁ hrun
    obtain ⟨hsub, hnew⟩ := processPfd_handles_iff (h.good.interrupted env).server hpfd
    -- the first round handles what is new among what was handled
    have hfirst : HandlesIn config (env :: envs) w 0 fd ↔ fd ∉ seenFds ∧ fd ∈ seenFds₁ := by
      rw [hzero, hw₁]
      exact hnew fd
    refine ⟨?_, ?_, ?_⟩
    · rw [hmem]
      constructor
      · rintro (hseen | ⟨j, hj⟩)
        · by_cases hold : fd ∈ seenFds
          · exact .inl hold
          · exact .inr ⟨0, hfirst.2 ⟨hold, hseen⟩⟩
        · exact .inr ⟨j + 1, (hsucc j).2 hj⟩
      · rintro (hold | ⟨j, hj⟩)
        · exact .inl (hsub hold)
        · cases j with
          | zero => exact .inl (hfirst.1 hj).2
          | succ j => exact .inr ⟨j, (hsucc j).1 hj⟩
    · intro hold j hj
      cases j with
      | zero => exact (hfirst.1 hj).1 hold
      | succ j => exact hnot (hsub hold) j ((hsucc j).1 hj)
    · intro j j' hj hj'
      cases j with
      | zero =>
        cases j' with
        | zero => rfl
        | succ j' => exact absurd ((hsucc j').1 hj') (hnot (hfirst.1 hj).2 j')
      | succ j =>
        cases j' with
        | zero => exact absurd ((hsucc j).1 hj) (hnot (hfirst.1 hj').2 j)
        | succ j' => rw [honce j j' ((hsucc j).1 hj) ((hsucc j').1 hj')]

/-- What a pass has done that has started in the given state: the calls since then, and the state at its
end. -/
structure ExactlyOnce (config : Config) (envs : List Answers) (w₀ : World) (new : List Call) (w : World) :
    Prop where
  /-- The handler of an entry with events whose descriptor was not closed runs in one round, unless its
  events were cleared without a handler running for it. -/
  ready : ∀ pfd ∈ w₀.server.pfds, pfd.revents ≠ {} → .close pfd.fd true ∉ new →
    (∃! j, HandlesIn config envs w₀ j pfd.fd) ∨ ((∀ j, ¬ HandlesIn config envs w₀ j pfd.fd) ∧
      ∃ pfd' ∈ w.server.pfds, pfd'.fd = pfd.fd ∧ pfd'.revents = {})
  once : ∀ fd j j', HandlesIn config envs w₀ j fd → HandlesIn config envs w₀ j' fd → j = j'
  /-- What is handled is an entry with events, and not one that was registered in the pass. -/
  registered : ∀ j fd, HandlesIn config envs w₀ j fd →
    (∃ pfd ∈ w₀.server.pfds, pfd.fd = fd ∧ pfd.revents ≠ {}) ∧
      ∀ w₁ older, run config (envs.take j) w₀ = .ok () w₁ →
        w₁.server.calls = older ++ w₀.server.calls → ∀ fdType, .addFd fd fdType ∉ older
  /-- A round in which no handler runs does nothing. -/
  idle : ∀ j env w₁ w₂, envs[j]? = some env → run config (envs.take j) w₀ = .ok () w₁ →
    step config env w₁ = .ok () w₂ → (∀ fd, ¬ HandlesIn config envs w₀ j fd) →
    w₂.server = (w₁.interrupted env).server

/-- Where the loop over `_pfds` starts. -/
theorem phase_of_poll (htop : w.phase = .top) (hpoll : step config env w = .ok () w₀)
    (hphase : w₀.phase = .processing k seenFds) : k = w₀.server.pfds.length ∧ seenFds = ∅ := by
  rcases step_ok hpoll with ⟨-, h⟩ | ⟨hother, -⟩ | ⟨_, _, hother, -⟩ |
    ⟨⟨_, _, hother, -⟩, -⟩ | ⟨⟨_, hother⟩, -⟩ | ⟨_, _, hother, -⟩ | ⟨hother, -⟩
  · obtain ⟨_, w₁, hshut, h⟩ := bind_eq_ok h
    have hphase₁ : w₁.phase = .top := by
      obtain ⟨_, _, ⟨⟩, hshut⟩ := bind_eq_ok hshut
      rw [run_ite] at hshut
      split_ifs at hshut
      · obtain ⟨_, _, ⟨⟩, hshut⟩ := bind_eq_ok hshut
        obtain ⟨s', -, rfl⟩ := onServer_ok hshut
        exact htop
      · cases hshut
        exact htop
    obtain ⟨_, _, ⟨⟩, h⟩ := bind_eq_ok h
    rw [run_ite] at h
    split_ifs at h
    · obtain ⟨_, w₂, hservers, h⟩ := bind_eq_ok h
      cases h
      cases hphase
    · obtain rfl | ⟨events, phase, -, rfl, hcases⟩ := poll_ok h
      · cases hphase₁.symm.trans hphase
      · rcases hcases with rfl | rfl | rfl | rfl
        · cases hphase₁.symm.trans hphase
        · cases hphase
        · cases hphase
        · cases hphase
          exact ⟨(List.length_map _).symm, rfl⟩
  · cases htop.symm.trans hother
  · cases htop.symm.trans hother
  · cases htop.symm.trans hother
  · cases htop.symm.trans hother
  · cases htop.symm.trans hother
  · cases htop.symm.trans hother

section Pass

variable {envs : List Answers} {j : ℕ} {fd : ℤ} (h : Reachable config w₀)
  (hphase : w₀.phase = .processing envs.length ∅) (hlength : w₀.server.pfds.length = envs.length)

include h hphase hlength

/-- The state before a round of a pass. -/
theorem inPass_take (hj : j ≤ envs.length) (hrun : run config (envs.take j) w₀ = .ok () w) :
    ∃ seenFds' new, w.phase = .processing (envs.length - j) seenFds' ∧
      w.server.calls = new ++ w₀.server.calls ∧
      InPass w₀.server.pfds (envs.length - j) seenFds' new w.server := by
  have hrounds : envs.length - j + (envs.take j).length = envs.length := by
    rw [List.length_take]
    omega
  have hstart := inPass_start w₀.server
  rw [hlength] at hstart
  obtain ⟨seenFds', new, hphase', hcalls, hpass⟩ :=
    inPass_run h (hrounds.symm ▸ hphase) (hrounds.symm ▸ hstart) hrun
  rw [List.append_nil] at hpass
  exact ⟨seenFds', new, hphase', hcalls, hpass⟩

/-- A handler only runs for what had events when the pass started, and was not registered since. -/
theorem registered_of_handlesIn (hstale : ∀ env ∈ envs, env.stalePfd.revents = {})
    (hin : HandlesIn config envs w₀ j fd) : (∃ pfd ∈ w₀.server.pfds, pfd.fd = fd ∧ pfd.revents ≠ {}) ∧
      ∀ w₁ older, run config (envs.take j) w₀ = .ok () w₁ →
        w₁.server.calls = older ++ w₀.server.calls → ∀ fdType, .addFd fd fdType ∉ older := by
  obtain ⟨env, k', seenFds₁, w₁, w₂, henv, hrun₁, hphase₁, hstep, hhandles⟩ := hin
  have hj : j < envs.length := (List.getElem?_eq_some_iff.1 henv).1
  obtain ⟨seenFds₂, older, hphase₂, hcalls₁, hpass₁⟩ := inPass_take h hphase hlength hj.le hrun₁
  rw [hphase₁] at hphase₂
  obtain ⟨hindex, rfl⟩ := Phase.processing.inj hphase₂
  rw [← hindex] at hpass₁
  have hpass₂ : InPass w₀.server.pfds (k' + 1) seenFds₁ older (w₁.interrupted env).server :=
    ⟨hpass₁.visited, hpass₁.kept, hpass₁.ready⟩
  obtain ⟨seenFds₃, s', hpfd, rfl⟩ := step_processing_ok hphase₁ hstep
  rcases processPfd_handles ((h.run hrun₁).good.interrupted env).server hpfd with
    ⟨-, -, hnone⟩ | ⟨hsome, -, -, -⟩
  · exact absurd hhandles (hnone fd)
  · obtain ⟨hfirst, hadd⟩ := hpass₂.ready_pfdAt (hstale env (List.mem_of_getElem? henv)) hsome
    rw [hhandles.entry] at hfirst hadd
    refine ⟨hfirst, fun w₁' older' hrun₁' hcalls₁' => ?_⟩
    cases hrun₁.symm.trans hrun₁'
    obtain rfl := List.append_cancel_right (hcalls₁.symm.trans hcalls₁')
    exact hadd

/-- A round in which no handler runs changes nothing. -/
theorem idle_of_not_handlesIn {w₁ w₂ : World} (henv : envs[j]? = some env)
    (hrun : run config (envs.take j) w₀ = .ok () w₁) (hstep : step config env w₁ = .ok () w₂)
    (hnone : ∀ fd, ¬ HandlesIn config envs w₀ j fd) : w₂.server = (w₁.interrupted env).server := by
  have hj : j < envs.length := (List.getElem?_eq_some_iff.1 henv).1
  obtain ⟨seenFds₁, older, hphase₁, -⟩ := inPass_take h hphase hlength hj.le hrun
  obtain ⟨n, hn⟩ : ∃ n, envs.length - j = n + 1 := ⟨envs.length - j - 1, by omega⟩
  rw [hn] at hphase₁
  obtain ⟨seenFds₂, s', hpfd, rfl⟩ := step_processing_ok hphase₁ hstep
  rcases processPfd_handles ((h.run hrun).good.interrupted env).server hpfd with
    ⟨hsame, -, -⟩ | ⟨-, -, -, hiff⟩
  · exact hsame
  · exact absurd ⟨env, n, _, w₁, _, henv, hrun, hphase₁, hstep, (hiff _).2 rfl⟩ (hnone _)

end Pass

/-- **No ready descriptor is skipped or handled twice in a pass**: when `poll` has reported events and
the loop over `_pfds` has come to its end, the handler of every entry with events has run in exactly one
round, if its descriptor was not closed and its events were not cleared; no handler has run in two rounds
for a descriptor; and none has run for what was registered in the pass. -/
theorem pass_handles_once {envs : List Answers} (h : Reachable config w) (htop : w.phase = .top)
    (hpoll : step config env w = .ok () w₀) (hphase : w₀.phase = .processing k seenFds)
    (hrun : run config envs w₀ = .ok () w') (hlen : envs.length = k)
    (hstale : ∀ env ∈ envs, env.stalePfd.revents = {}) :
    ∃ seenFds' new, w'.phase = .processing 0 seenFds' ∧ w'.server.calls = new ++ w₀.server.calls ∧
      ExactlyOnce config envs w₀ new w' := by
  obtain ⟨hk, rfl⟩ := phase_of_poll htop hpoll hphase
  subst hlen
  have hreach := h.step env hpoll
  obtain ⟨seenFds', new, hphase', hcalls, hpass⟩ :=
    inPass_take hreach hphase hk.symm le_rfl (by rwa [List.take_length])
  rw [Nat.sub_self] at hphase' hpass
  have hseen := handlesIn_run hreach ((Nat.zero_add envs.length).symm ▸ hphase) hrun hphase'
  refine ⟨seenFds', new, hphase', hcalls, ?_, fun fd => (hseen fd).2.2,
    fun j fd => registered_of_handlesIn hreach hphase hk.symm hstale,
    fun j env w₁ w₂ => idle_of_not_handlesIn hreach hphase hk.symm⟩
  intro pfd hpfd hne hopen
  obtain ⟨pfd', hpfd', hfd⟩ := (hpass.kept pfd hpfd).resolve_left hopen
  obtain ⟨hmem, -, honce⟩ := hseen pfd.fd
  by_cases hhandled : ∃ j, HandlesIn config envs w₀ j pfd.fd
  · obtain ⟨j, hj⟩ := hhandled
    exact .inl ⟨j, hj, fun j' hj' => honce j' j hj' hj⟩
  · have hnot : pfd.fd ∉ seenFds' := fun hin =>
      hhandled ((hmem.1 hin).resolve_left (Finset.notMem_empty _))
    obtain ⟨l, hl⟩ := List.mem_iff_getElem?.1 hpfd'
    exact .inr ⟨fun j hj => hhandled ⟨j, hj⟩, pfd', hpfd', hfd,
      (hpass.visited l pfd' (Nat.zero_le _) hl).resolve_right (hfd ▸ hnot)⟩

/-- The events of a pass in which the pipes of a client are closed. -/
def hangUpEvents : Answers := { poll := some fun fd => { pollin := fd = 3, pollhup := fd = 7 } }

/-- The rounds of this pass, in the last of which a connection is accepted. -/
def hangUpRounds : List Answers := [{}, {}, {}, { accept := some 9 }]

/-- The start of this pass. -/
def hangUpWorld : World :=
  finalState (step cgiConfig hangUpEvents (after cgiConfig [3] (cgiAnswers 4 postRequest 100)))

theorem pass_handles_once_hangUp :
    hangUpWorld.server.pfds.map (fun pfd => (pfd.fd, decide (pfd.revents ≠ {}))) =
      [(3, true), (4, false), (6, false), (7, true)] ∧
    ∃ (w' : World) (new : List Call), w'.server.pfds.map Pollfd.fd = [3, 4, 9] ∧
      w'.server.calls = new ++ hangUpWorld.server.calls ∧
      ExactlyOnce cgiConfig hangUpRounds hangUpWorld new w' ∧
      (∃! j, HandlesIn cgiConfig hangUpRounds hangUpWorld j 3) ∧
      ∃! j, HandlesIn cgiConfig hangUpRounds hangUpWorld j 7 := by
  have hreach : Reachable cgiConfig (after cgiConfig [3] (cgiAnswers 4 postRequest 100)) :=
    reachable_after (by decide +kernel) (by decide +kernel)
  have hpoll : step cgiConfig hangUpEvents _ = .ok () hangUpWorld := eq_ok_of_thrown (by decide +kernel)
  have hphase : hangUpWorld.phase = .processing 4 ∅ := by decide +kernel
  have hrun := eq_ok_of_thrown (r := run cgiConfig hangUpRounds hangUpWorld) (by decide +kernel)
  obtain ⟨-, new, -, hcalls, hpass⟩ :=
    pass_handles_once hreach (by decide +kernel) hpoll hphase hrun rfl (by decide +kernel)
  have hphase' : (finalState (run cgiConfig hangUpRounds hangUpWorld)).phase = .processing 0 {3, 7} := by
    decide +kernel
  have honce : ∀ fd ∈ ({3, 7} : Finset ℤ), ∃! j, HandlesIn cgiConfig hangUpRounds hangUpWorld j fd := by
    intro fd hfd
    have hstart : hangUpWorld.phase = .processing (0 + hangUpRounds.length) ∅ := hphase
    obtain ⟨hseen, -⟩ := handlesIn_run (hreach.step _ hpoll) hstart hrun hphase' fd
    obtain ⟨j, hj⟩ := (hseen.1 hfd).resolve_left (Finset.notMem_empty fd)
    exact ⟨j, hj, fun j' hj' => hpass.once fd j' j hj' hj⟩
  exact ⟨by decide +kernel, _, new, by decide +kernel, hcalls, hpass, honce 3 (by decide),
    honce 7 (by decide)⟩

end World

end Webserv
