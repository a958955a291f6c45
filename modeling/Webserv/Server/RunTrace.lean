import Webserv.Server.ReadTrace

/-!
# Steps as sequences of actions

Writing to a descriptor, handling its events, and with them every step of `run` are sequences of
actions. So what holds of the server before its constructor does anything, and is kept by every
action, holds in every state of a run (`Reachable.invariant`).
-/

namespace Webserv

namespace Server

open Exec History IndexedVector

variable {config : Config} {stage : Stage} {env : Answers} {s s' : Server}

/-! ## Writing -/

theorem write_ok {fd : ℤ} {msg : Bytes} {written : Option ℕ} (h : write env fd msg s = .ok written s') :
    (∃ n, written = some (min n msg.length) ∧
        s' = { s with calls := .write fd (msg.take n) :: s.calls }) ∨
      (written = none ∧ s' = { s with errno := some .other }) := by
  unfold write at h
  cases hwrite : env.write with
  | none =>
    rw [hwrite] at h
    cases h
    exact .inr ⟨rfl, rfl⟩
  | some n =>
    rw [hwrite] at h
    cases h
    exact .inl ⟨n, rfl, rfl⟩

theorem Good.errno (hs : s.Good) (errno : Option Errno) : Good { s with errno := errno } where
  indexed := hs.indexed
  opened := hs.opened
  nonneg := hs.nonneg
  typed := hs.typed
  keyed := hs.keyed
  held := hs.held
  connected := hs.connected
  owned := hs.owned
  sound := hs.sound
  positive := hs.positive
  orderly hlate hearly :=
    have h := hs.orderly hlate hearly
    ⟨h.reapable, h.attached, h.finished⟩

theorem Quiet.errno (hs : s.Good) (errno : Option Errno) :
    Quiet config stage s { s with errno := errno } := .kernel (fun _ _ => rfl) hs.nonneg

/-- Both branches of `_writeToCGI` that close the pipe. -/
theorem writtenToCgi_actions {i : ℕ} {c : Client} {bodyIndex : ℕ} {u : Unit} (hs : s.Good)
    (hi : s.clients[i]? = some c) (hwriting : c.serverToCgiState = .writing)
    (h : removeServerToCgiFd c.serverToCgiFd
      { s with clients := s.clients.set i { c with bodyIndex := bodyIndex } } = .ok u s') :
    Actions config stage s s' := by
  have hheld : c.serverToCgiFd ≠ -1 := (hs.sound_at hi).toCgi.2 hwriting
  have hdone := (hs.sound_at hi).done_of_fdOf (.inl rfl) hheld
  obtain ⟨i', c', hindex', hi', hcases⟩ := removePipeFd_ok h
  obtain rfl := Option.some.inj (hindex'.symm.trans (hs.held i c .serverToCgi hi hheld).2)
  obtain rfl := Option.some.inj (hi'.symm.trans (getElem?_set_self_of hi _))
  rcases hcases with ⟨hnone, -⟩ | ⟨-, k, last, hk, hlast, rfl⟩
  · exact absurd hnone hheld
  -- the pipe is closed first
  have hrelease : Action config stage s _ := .release i' c .serverToCgi k last [] hi (.inl rfl) hheld
    hk hlast (.inl ⟨rfl, nofun⟩)
  have hbody := (Relation.ReflTransGen.single hrelease).tail (.change i'
    (c.release .serverToCgi) _ [] (getElem?_set_self_of hi _)
    (.writeBody bodyIndex hdone fun hne => absurd rfl hne))
  simp only [List.set_set] at hbody ⊢
  exact hbody

theorem writeToCgi_actions {i : ℕ} {u : Unit} (hs : s.Good) (h : writeToCgi env i s = .ok u s') :
    Actions config stage s s' := by
  obtain ⟨c, _, hclient, h⟩ := bind_eq_ok h
  obtain ⟨rfl, hi⟩ := clientAt_ok hclient
  obtain ⟨_, _, hassert, h⟩ := bind_eq_ok h
  obtain ⟨rfl, hwriting⟩ := assert_ok hassert
  obtain ⟨_, _, hassert, h⟩ := bind_eq_ok h
  obtain ⟨rfl, hlen⟩ := assert_ok hassert
  obtain ⟨_, s₁, hmodify, h⟩ := bind_eq_ok h
  obtain ⟨c₁, hi₁, rfl⟩ := modifyClient_ok hmodify
  obtain rfl : c₁ = c := Option.some.inj (hi₁.symm.trans hi)
  obtain ⟨written, s₂, hwrite, h⟩ := bind_eq_ok h
  rcases write_ok hwrite with ⟨n, rfl, rfl⟩ | ⟨rfl, rfl⟩
  · have h₁ : ∀ accepted, Quiet config stage s
        { s with calls := .write c₁.serverToCgiFd accepted :: s.calls } := fun _ => .log trivial rfl
    obtain ⟨_, _, hassert, h⟩ := bind_eq_ok h
    obtain ⟨rfl, -⟩ := assert_ok hassert
    rw [run_ite] at h
    split_ifs at h with hend
    · exact (h₁ _).actions.trans (writtenToCgi_actions ((h₁ _).good hs) hi hwriting h)
    · cases h
      have hheld : c₁.serverToCgiFd ≠ -1 := (hs.sound_at hi).toCgi.2 hwriting
      have hdone := (hs.sound_at hi).done_of_fdOf (.inl rfl) hheld
      refine (h₁ _).actions.tail (.change i c₁ _ [] hi (.writeBody _ hdone fun _ => ?_))
      omega
  · have h₁ : Quiet config stage s { s with errno := some .other } := .errno hs _
    exact h₁.actions.trans (writtenToCgi_actions (h₁.good hs) hi hwriting h)

/-- Both branches of `_writeToClient` that remove the client. -/
theorem writtenToClient_actions {i : ℕ} {c : Client} {responseIndex : ℕ} {u : Unit} (hs : s.Good)
    (hi : s.clients[i]? = some c) (hwriting : c.serverToClientState = .writing)
    (h : removeClient env c.clientFd
      { s with clients := s.clients.set i { c with responseIndex := responseIndex } } = .ok u s') :
    Actions config stage s s' := by
  by_cases hkill : c.cgiKilled = false ∧ c.cgiPid ≠ -1
  · have hresponse : Action config stage s _ := .change i c { c with responseIndex := responseIndex }
      [] hi (.writeResponse responseIndex hwriting fun hlate hearly => absurd
        ((hs.orderly hlate hearly).finished c (List.mem_of_getElem? hi) hwriting).cgiPid hkill.2)
    exact .head hresponse (removeClient_actions (hs.action hresponse) h)
  · refine removeClient_erases (d := { c with responseIndex := responseIndex }) hs hi (hs.index_clientFd hi) (fun fdType => ?_) rfl rfl rfl hkill h
    cases fdType <;> rfl

theorem writeToClient_actions {i : ℕ} {u : Unit} (hs : s.Good)
    (h : writeToClient env i s = .ok u s') : Actions config stage s s' := by
  obtain ⟨c, _, hclient, h⟩ := bind_eq_ok h
  obtain ⟨rfl, hi⟩ := clientAt_ok hclient
  obtain ⟨_, _, hassert, h⟩ := bind_eq_ok h
  obtain ⟨rfl, hwriting⟩ := assert_ok hassert
  obtain ⟨_, _, hassert, h⟩ := bind_eq_ok h
  obtain ⟨rfl, hlen⟩ := assert_ok hassert
  obtain ⟨_, s₁, hmodify, h⟩ := bind_eq_ok h
  obtain ⟨c₁, hi₁, rfl⟩ := modifyClient_ok hmodify
  obtain rfl : c₁ = c := Option.some.inj (hi₁.symm.trans hi)
  obtain ⟨written, s₂, hwrite, h⟩ := bind_eq_ok h
  rcases write_ok hwrite with ⟨n, rfl, rfl⟩ | ⟨rfl, rfl⟩
  · have h₁ : ∀ accepted, Quiet config stage s
        { s with calls := .write c₁.clientFd accepted :: s.calls } := fun _ => .log trivial rfl
    obtain ⟨_, _, hassert, h⟩ := bind_eq_ok h
    obtain ⟨rfl, -⟩ := assert_ok hassert
    rw [run_ite] at h
    split_ifs at h with hend
    · exact (h₁ _).actions.trans (writtenToClient_actions ((h₁ _).good hs) hi hwriting h)
    · cases h
      refine (h₁ _).actions.tail (.change i c₁ _ [] hi (.writeResponse _ hwriting fun _ _ => ?_))
      omega
  · have h₁ : Quiet config stage s { s with errno := some .other } := .errno hs _
    exact h₁.actions.trans (writtenToClient_actions (h₁.good hs) hi hwriting h)

theorem handlePollout_actions {fd : ℤ} {fdType : FdType} {u : Unit} (hs : s.Good)
    (h : handlePollout env fd fdType s = .ok u s') : Actions config stage s s' := by
  obtain ⟨i, _, hget, h⟩ := bind_eq_ok h
  obtain ⟨rfl, -⟩ := getClient_ok hget
  rw [run_ite, run_ite] at h
  split_ifs at h
  · exact writeToCgi_actions hs h
  · exact writeToClient_actions hs h
  · cases h

/-! ## The events of a descriptor -/

theorem printEvents_ok {fd : ℤ} {fdType : FdType} {u : Unit}
    (h : printEvents fd fdType s = .ok u s') : s = s' := by
  unfold printEvents at h
  rw [run_ite] at h
  split_ifs at h
  · obtain ⟨_, _, ⟨⟩, h⟩ := bind_eq_ok h
    obtain ⟨i, _, hlookup, h⟩ := bind_eq_ok h
    obtain ⟨rfl, -⟩ := lookupAt_ok hlookup
    obtain ⟨_, _, ⟨⟩, h⟩ := bind_eq_ok h
    cases hi : s.clients[i]? with
    | none =>
      rw [hi] at h
      cases h
    | some c =>
      rw [hi] at h
      cases h
      rfl
  · cases h
    rfl

theorem processInOut_actions {k : ℕ} {fd : ℤ} {fdType : FdType} {pollin : Bool} {u : Unit}
    (hs : s.Good) (htype : s.fdToFdType.lookup fd = some fdType)
    (h : processInOut config env k fd fdType pollin s = .ok u s') : Actions config stage s s' := by
  obtain ⟨skip, s₁, hin, h⟩ := bind_eq_ok h
  have h₁ : Actions config stage s s₁ := by
    rw [run_ite] at hin
    split_ifs at hin
    · exact handlePollin_actions hs htype hin
    · cases hin
      exact .refl
  obtain ⟨_, _, ⟨⟩, h⟩ := bind_eq_ok h
  rw [run_ite] at h
  split_ifs at h
  · exact h₁.trans (handlePollout_actions (hs.actions h₁) h)
  · cases h
    exact h₁

theorem processEvents_actions {k : ℕ} {fd : ℤ} {u : Unit} (hs : s.Good)
    (h : processEvents config env k fd s = .ok u s') : Actions config stage s s' := by
  obtain ⟨_, _, ⟨⟩, h⟩ := bind_eq_ok h
  obtain ⟨fdType, _, hlookup, h⟩ := bind_eq_ok h
  obtain ⟨rfl, htype⟩ := lookupAt_ok hlookup
  obtain ⟨_, _, hprint, h⟩ := bind_eq_ok h
  obtain rfl := printEvents_ok hprint
  obtain ⟨_, _, ⟨⟩, h⟩ := bind_eq_ok h
  obtain ⟨_, _, hassert, h⟩ := bind_eq_ok h
  obtain ⟨rfl, -⟩ := assert_ok hassert
  rw [run_ite] at h
  split at h
  · exact handlePollerr_actions hs h
  · obtain ⟨_, _, hassert, hevents⟩ := bind_eq_ok h
    obtain ⟨rfl, hpipe⟩ := assert_ok hassert
    rw [run_ite] at hevents
    split_ifs at hevents with hhup
    · have hpolls := hs.typed fd .cgiToServer (hpipe hhup.1 ▸ htype) (by decide)
      exact (pollhupCgiToServer_quiet hs hpolls hevents).actions
    · exact processInOut_actions hs htype hevents

/-- An entry is skipped, or its events are handled. -/
theorem processPfd_ok {k : ℕ} {seenFds seenFds' : Finset ℤ}
    (h : processPfd config env k seenFds s = .ok seenFds' s') :
    (s = s' ∧ seenFds' = seenFds ∧ ((pfdAt env s k).revents = {} ∨
        (pfdAt env s k).fd ∉ s.fdToPfdIndex ∨ (pfdAt env s k).fd ∈ seenFds)) ∨
      ((pfdAt env s k).revents ≠ {} ∧ (pfdAt env s k).fd ∈ s.fdToPfdIndex ∧
        (pfdAt env s k).fd ∉ seenFds ∧ seenFds' = insert (pfdAt env s k).fd seenFds ∧
        processEvents config env k (pfdAt env s k).fd
          { s with calls := .handle (pfdAt env s k).fd (k < s.pfds.length) :: s.calls } =
            .ok () s') := by
  obtain ⟨_, _, ⟨⟩, h⟩ := bind_eq_ok h
  rw [run_ite] at h
  split at h
  · rename_i hnone
    cases h
    exact .inl ⟨rfl, rfl, .inl hnone⟩
  rename_i hsome
  obtain ⟨_, _, ⟨⟩, h⟩ := bind_eq_ok h
  rw [run_ite] at h
  split at h
  · rename_i hgone
    cases h
    exact .inl ⟨rfl, rfl, .inr (.inl hgone)⟩
  rename_i hpolled
  rw [run_ite] at h
  split at h
  · rename_i hseen
    cases h
    exact .inl ⟨rfl, rfl, .inr (.inr hseen)⟩
  rename_i hunseen
  obtain ⟨_, _, ⟨⟩, h⟩ := bind_eq_ok h
  obtain ⟨_, s₁, hlog, h⟩ := bind_eq_ok h
  obtain rfl := log_ok hlog
  obtain ⟨_, s₂, hevents, h⟩ := bind_eq_ok h
  cases h
  exact .inr ⟨hsome, not_not.1 hpolled, hunseen, rfl, hevents⟩

/-- Handling an entry is a sequence of actions, once it is logged. -/
theorem processPfd_actions {k : ℕ} {seenFds seenFds' : Finset ℤ} (hs : s.Good)
    (h : processPfd config env k seenFds s = .ok seenFds' s') :
    ∃ s₁, Actions config .polling s s₁ ∧ Actions config .handling s₁ s' := by
  rcases processPfd_ok h with ⟨rfl, -⟩ | ⟨-, -, -, -, hevents⟩
  · exact ⟨s, .refl, .refl⟩
  · have hlog : ∀ fd inside, Action config .polling s
        { s with calls := .handle fd inside :: s.calls } := fun _ _ => .log _ trivial fun _ => rfl
    exact ⟨_, .single (hlog _ _), processEvents_actions (hs.action (hlog _ _)) hevents⟩

/-! ## Listening sockets -/

/-- What is polled and taken for a listening socket is one. -/
def Listening (s : Server) : Prop := ∀ fd ∈ s.fdToPfdIndex,
  s.fdToFdType.lookup fd = some .server → s.descriptors.lookup fd = some .server

theorem Active.listening (h : s.Active) : s.Listening := fun fd _ htype => (h fd htype).2

theorem shutDownFd_actions {fd : ℤ} {u : Unit} (hs : s.Good) (hlistening : s.Listening)
    (h : shutDownFd fd s = .ok u s') : Actions config .closing s s' ∧ s'.Listening := by
  obtain ⟨_, _, ⟨⟩, h⟩ := bind_eq_ok h
  rw [run_ite] at h
  split_ifs at h with hserver
  · obtain ⟨_, s₁, hremove, h⟩ := bind_eq_ok h
    obtain ⟨k, last, hk, hlast, rfl⟩ := removePfd_ok hremove
    obtain ⟨-, rfl⟩ := close_ok h
    refine ⟨.single (.shutDown fd k last rfl hk hlast (hlistening fd hserver.2 hserver.1)), ?_⟩
    intro fd' hmem htype
    have hpolled := (hs.toTables.mem_unregister hlast).1 hmem
    exact (Finmap.lookup_erase_ne hpolled.1).trans (hlistening fd' hpolled.2 htype)
  · cases h
    exact ⟨.refl, hlistening⟩

theorem shutDownFds_actions {fds : List ℤ} {u : Unit} (hs : s.Good) (hlistening : s.Listening)
    (h : shutDownFds fds s = .ok u s') : Actions config .closing s s' := by
  induction fds generalizing s with
  | nil =>
    cases h
    exact .refl
  | cons fd fds ih =>
    obtain ⟨_, s₁, hfd, h⟩ := bind_eq_ok h
    obtain ⟨h₁, hlistening₁⟩ : Actions config .closing s s₁ ∧ _ :=
      shutDownFd_actions hs hlistening hfd
    exact h₁.trans (ih (hs.actions h₁) hlistening₁ h)

/-- Without anything to poll there is nothing to shut down. -/
theorem shutDownFds_nothing {fds : List ℤ} {u : Unit} (hnone : ∀ fd, fd ∉ s.fdToPfdIndex)
    (h : shutDownFds fds s = .ok u s') : s = s' := by
  induction fds with
  | nil =>
    cases h
    rfl
  | cons fd fds ih =>
    obtain ⟨_, s₁, hfd, h⟩ := bind_eq_ok h
    obtain ⟨_, _, ⟨⟩, hfd⟩ := bind_eq_ok hfd
    rw [run_ite, if_neg fun hserver => hnone fd hserver.2] at hfd
    cases hfd
    exact ih h

theorem socket_ok {fd : ℤ} {u : Unit} (h : socket fd s = .ok u s') :
    s.CanOpen fd ∧ s' = { s with descriptors := s.descriptors.insert fd FdType.server } := by
  obtain ⟨_, _, ⟨⟩, h⟩ := bind_eq_ok h
  rw [run_ite] at h
  split_ifs at h with hopen
  · cases h
    exact ⟨hopen, rfl⟩
  · cases h

theorem listen_actions {bindInfos : List (Bytes × List ℕ)} {bindFds : List ℤ} {u : Unit}
    (h : listen bindInfos bindFds s = .ok u s') : Actions config .opening s s' := by
  induction bindInfos generalizing s bindFds with
  | nil =>
    cases h
    exact .refl
  | cons bindInfo bindInfos ih =>
    cases bindFds with
    | nil => cases h
    | cons fd bindFds =>
      obtain ⟨_, s₁, hsocket, h⟩ := bind_eq_ok h
      obtain ⟨hopen, rfl⟩ := socket_ok hsocket
      obtain ⟨_, _, ⟨⟩, h⟩ := bind_eq_ok h
      obtain ⟨_, s₂, hadd, h⟩ := bind_eq_ok h
      obtain rfl := addFd_ok hadd
      exact .head (.listen fd _ _ hopen rfl) (ih h)

theorem active_empty : empty.Active := fun fd h =>
  nomatch (Finmap.lookup_empty (β := fun _ : ℤ => FdType) fd).symm.trans h

theorem Active.actions (hactive : s.Active) (h : s.Good) (hactions : Actions config stage s s')
    (hstage : stage ≠ .closing) : s'.Active := by
  induction hactions with
  | refl => exact hactive
  | tail hactions haction ih => exact ih.action (h.actions hactions).toCoherent haction hstage

end Server

namespace World

open Exec Server

variable {config : Config} {env : Answers} {w w' : World}

/-! ## Steps -/

/-- What holds between two steps. -/
structure Good (w : World) : Prop where
  server : w.server.Good
  active : w.serversActive = true → w.server.Active

/-- What a step does: it may close listening sockets, then call `poll`, then handle events. -/
def Acts (config : Config) (s s' : Server) : Prop :=
  ∃ s₁ s₂, Actions config .closing s s₁ ∧ Actions config .polling s₁ s₂ ∧
    Actions config .handling s₂ s'

theorem onServer_ok {α : Type} {f : ServerM α} {a : α} (h : onServer f w = .ok a w') :
    ∃ s', f w.server = .ok a s' ∧ w' = { w with server := s' } := by
  unfold onServer at h
  cases hf : f w.server with
  | ok a' s' =>
    rw [hf] at h
    cases h
    exact ⟨s', rfl, rfl⟩
  | error e s' =>
    rw [hf] at h
    cases h

/-- What `poll` reports goes to `_pfds`; the loop over them is entered if there are events. -/
theorem poll_ok {u : Unit} (h : poll env w = .ok u w') :
    w' = w ∨ ∃ events phase, env.poll = some events ∧
      w' = { w with
        server := { w.server with pfds := w.server.pfds.map (w.server.polled events) }
        phase := phase } ∧
      (phase = w.phase ∨ phase = .reaping ∨ phase = .sweeping 0 w.server.clients.length ∨
        phase = .processing w.server.pfds.length ∅) := by
  unfold poll at h
  cases hpoll : env.poll with
  | none =>
    rw [hpoll] at h
    dsimp only at h
    rw [run_ite] at h
    split_ifs at h
    · cases h
      exact .inl rfl
    · cases h
  | some events =>
    rw [hpoll] at h
    obtain ⟨_, _, ⟨⟩, h⟩ := bind_eq_ok h
    obtain ⟨_, w₁, hmodify, h⟩ := bind_eq_ok h
    obtain ⟨s', hmodify', rfl⟩ := onServer_ok hmodify
    cases hmodify'
    refine .inr ⟨events, ?_⟩
    rw [run_ite] at h
    split at h
    · rw [run_ite] at h
      split at h
      · cases h
        exact ⟨_, rfl, rfl, .inl rfl⟩
      · obtain ⟨_, _, ⟨⟩, h⟩ := bind_eq_ok h
        obtain ⟨_, w₂, hassert, h⟩ := bind_eq_ok h
        obtain ⟨s₂, hassert', rfl⟩ := onServer_ok hassert
        obtain ⟨rfl, -⟩ := assert_ok hassert'
        rw [run_ite] at h
        split at h
        · cases h
          exact ⟨_, rfl, rfl, .inr (.inl rfl)⟩
        · cases h
          exact ⟨_, rfl, rfl, .inr (.inr (.inl rfl))⟩
    · cases h
      refine ⟨_, rfl, rfl, .inr (.inr (.inr ?_))⟩
      rw [List.length_map]

theorem poll_acts {u : Unit} (h : poll env w = .ok u w') :
    Actions config .polling w.server w'.server ∧ w'.serversActive = w.serversActive := by
  obtain rfl | ⟨events, phase, -, rfl, -⟩ := poll_ok h
  · exact ⟨.refl, rfl⟩
  · refine ⟨.single (.polled (fun pfd => (w.server.polled events pfd).revents) rfl fun pfd => ?_), rfl⟩
    constructor <;> intro hfound <;> exact (Bool.and_eq_true_iff.1 hfound).2

theorem shutDown_acts {u : Unit} (hw : w.Good) (h : shutDown env w = .ok u w') :
    Actions config .closing w.server w'.server ∧ w'.Good ∧ w'.phase = w.phase := by
  obtain ⟨_, _, ⟨⟩, h⟩ := bind_eq_ok h
  rw [run_ite] at h
  split_ifs at h with hshut
  · obtain ⟨_, _, ⟨⟩, h⟩ := bind_eq_ok h
    obtain ⟨s', hservers, rfl⟩ := onServer_ok h
    obtain ⟨_, _, ⟨⟩, hservers⟩ := bind_eq_ok hservers
    have hactions : Actions config .closing w.server s' :=
      shutDownFds_actions hw.server (hw.active hshut.2).listening hservers
    exact ⟨hactions, ⟨hw.server.actions hactions, nofun⟩, rfl⟩
  · cases h
    exact ⟨.refl, hw, rfl⟩

/-- The top of the loop. -/
theorem top_acts {u : Unit} (hw : w.Good) (h : top env w = .ok u w') :
    Acts config w.server w'.server ∧ w'.Good := by
  obtain ⟨_, w₁, hshut, h⟩ := bind_eq_ok h
  obtain ⟨h₁, hw₁, -⟩ : Actions config .closing w.server w₁.server ∧ _ := shutDown_acts hw hshut
  obtain ⟨_, _, ⟨⟩, h⟩ := bind_eq_ok h
  rw [run_ite] at h
  split_ifs at h with hempty
  · obtain ⟨_, w₂, hservers, h⟩ := bind_eq_ok h
    obtain ⟨s', hservers', rfl⟩ := onServer_ok hservers
    cases h
    obtain ⟨_, _, ⟨⟩, hfds⟩ := bind_eq_ok hservers'
    have hnone : ∀ fd, fd ∉ w₁.server.fdToPfdIndex := by
      intro fd hfd
      have hmem := (hw₁.server.indexed.mem_iff fd).1 hfd
      rw [List.length_eq_zero_iff.1 hempty] at hmem
      cases hmem
    obtain rfl := shutDownFds_nothing hnone hfds
    exact ⟨⟨_, _, h₁, .refl, .refl⟩, ⟨hw₁.server, hw₁.active⟩⟩
  · obtain ⟨h₂, hactive⟩ : Actions config .polling w₁.server w'.server ∧ _ := poll_acts h
    refine ⟨⟨_, _, h₁, h₂, .refl⟩, ⟨hw₁.server.actions h₂, fun hstill => ?_⟩⟩
    exact (hw₁.active (hactive ▸ hstill)).actions hw₁.server h₂ nofun

/-- What library calls leave in `errno`, and signals. -/
def interrupted (w : World) (env : Answers) : World :=
  { w with
    server := { w.server with errno := env.errno.or w.server.errno }
    shuttingDownGracefully := w.shuttingDownGracefully || env.sigint }

/-- A step, once the signals have arrived. -/
theorem step_ok {u : Unit} (h : step config env w = .ok u w') :
    (w.phase = .top ∧ top env (w.interrupted env) = .ok u w') ∨
    (w.phase = .reaping ∧ ∃ again s', reapChild config env (w.interrupted env).server = .ok again s' ∧
      w' = { w.interrupted env with
        server := s'
        phase := if again then .reaping else .sweeping 0 s'.clients.length }) ∨
    (∃ i n, w.phase = .sweeping i n ∧ i < n ∧ ∃ s',
      sweepClient config env i (w.interrupted env).server = .ok () s' ∧
      w' = { w.interrupted env with server := s', phase := .sweeping (i + 1) n }) ∨
    ((∃ i n, w.phase = .sweeping i n ∧ n ≤ i) ∧ w' = { w.interrupted env with phase := .top }) ∨
    ((∃ seenFds, w.phase = .processing 0 seenFds) ∧ w' = { w.interrupted env with phase := .top }) ∨
    (∃ k seenFds, w.phase = .processing (k + 1) seenFds ∧ ∃ seenFds' s',
      processPfd config env k seenFds (w.interrupted env).server = .ok seenFds' s' ∧
      w' = { w.interrupted env with server := s', phase := .processing k seenFds' }) ∨
    (w.phase = .stopped ∧ w' = w.interrupted env) := by
  obtain ⟨server, phase, serversActive, shuttingDown⟩ := w
  obtain ⟨_, _, ⟨⟩, h⟩ := bind_eq_ok h
  obtain ⟨_, _, ⟨⟩, h⟩ := bind_eq_ok h
  cases phase with
  | top => exact .inl ⟨rfl, h⟩
  | reaping =>
    obtain ⟨again, w₁, hreap, h⟩ := bind_eq_ok h
    obtain ⟨s', hreap', rfl⟩ := onServer_ok hreap
    refine .inr (.inl ⟨rfl, again, s', hreap', ?_⟩)
    cases again with
    | true =>
      cases h
      rfl
    | false =>
      cases h
      rfl
  | sweeping i n =>
    dsimp only at h
    rw [run_ite] at h
    split_ifs at h with hlt
    · obtain ⟨_, w₁, hsweep, h⟩ := bind_eq_ok h
      obtain ⟨s', hsweep', rfl⟩ := onServer_ok hsweep
      cases h
      exact .inr (.inr (.inl ⟨i, n, rfl, hlt, s', hsweep', rfl⟩))
    · cases h
      exact .inr (.inr (.inr (.inl ⟨⟨i, n, rfl, by omega⟩, rfl⟩)))
  | processing k seenFds =>
    cases k with
    | zero =>
      cases h
      exact .inr (.inr (.inr (.inr (.inl ⟨⟨seenFds, rfl⟩, rfl⟩))))
    | succ k =>
      obtain ⟨seenFds', w₁, hpfd, h⟩ := bind_eq_ok h
      obtain ⟨s', hpfd', rfl⟩ := onServer_ok hpfd
      cases h
      exact .inr (.inr (.inr (.inr (.inr (.inl ⟨k, seenFds, rfl, seenFds', s', hpfd', rfl⟩)))))
  | stopped =>
    cases h
    exact .inr (.inr (.inr (.inr (.inr (.inr ⟨rfl, rfl⟩)))))

theorem Good.interrupted (hw : w.Good) (env : Answers) : (w.interrupted env).Good :=
  ⟨hw.server.errno _, hw.active⟩

/-- Handling something, after an interrupt. -/
theorem Good.handled {s₁ s' : Server} {phase : Phase} (hw : w.Good) (env : Answers)
    (hpolling : Actions config .polling (w.interrupted env).server s₁)
    (hactions : Actions config .handling s₁ s') :
    Acts config w.server s' ∧ Good { w.interrupted env with server := s', phase := phase } := by
  have hw' := hw.interrupted env
  have hs₁ := hw'.server.actions hpolling
  have herrno : Action config .polling w.server (w.interrupted env).server :=
    .kernel _ _ (fun _ _ => rfl) hw.server.nonneg
  exact ⟨⟨_, _, .refl, .head herrno hpolling, hactions⟩, ⟨hs₁.actions hactions, fun hactive =>
    ((hw'.active hactive).actions hw'.server hpolling nofun).actions hs₁ hactions nofun⟩⟩

/-- **A step is a sequence of actions.** -/
theorem step_acts {u : Unit} (hw : w.Good) (h : step config env w = .ok u w') :
    Acts config w.server w'.server ∧ w'.Good := by
  have hw' := hw.interrupted env
  rcases step_ok h with ⟨-, htop⟩ | ⟨-, again, s', hreap, rfl⟩ | ⟨i, n, -, -, s', hsweep, rfl⟩ |
    ⟨-, rfl⟩ | ⟨-, rfl⟩ | ⟨k, seenFds, -, seenFds', s', hpfd, rfl⟩ | ⟨-, rfl⟩
  · obtain ⟨⟨s₁, s₂, h₁, h₂, h₃⟩, hgood⟩ : Acts config _ w'.server ∧ _ := top_acts hw' htop
    exact ⟨⟨s₁, s₂, .head (.kernel _ _ (fun _ _ => rfl) hw.server.nonneg) h₁, h₂, h₃⟩, hgood⟩
  · exact hw.handled env .refl (reapChild_actions hw'.server hreap)
  · exact hw.handled env .refl (sweepClient_actions hw'.server hsweep)
  · exact hw.handled env .refl .refl
  · exact hw.handled env .refl .refl
  · obtain ⟨s₁, hpolling, hactions⟩ := processPfd_actions hw'.server hpfd
    exact hw.handled env hpolling hactions
  · exact hw.handled env .refl .refl

theorem Started.good (h : Started config w) : w.Good := by
  obtain ⟨bindFds, s, hlisten, rfl⟩ := h
  have hactions : Actions config .opening empty s := listen_actions hlisten
  exact ⟨good_empty.actions hactions, fun _ => active_empty.actions good_empty hactions nofun⟩

theorem Reachable.good (h : Reachable config w) : w.Good := by
  induction h with
  | start h => exact h.good
  | step env _ hstep ih => exact (step_acts ih hstep).2

/-! ## Invariants -/

/-- What is kept by every action is kept by a sequence of actions. -/
theorem actions_invariant {I : Server → Prop} {stage : Stage} {s s' : Server}
    (haction : ∀ {s s'}, s.Good → I s → Action config stage s s' → I s') (hs : s.Good) (h : I s)
    (hactions : Actions config stage s s') : I s' := by
  induction hactions with
  | refl => exact h
  | tail hactions hlast ih => exact haction (hs.actions hactions) ih hlast

/-- What is kept by every action is kept by a step. -/
theorem Acts.invariant {I : Server → Prop} {s s' : Server}
    (haction : ∀ {stage s s'}, s.Good → I s → Action config stage s s' → I s') (hs : s.Good)
    (h : I s) (hacts : Acts config s s') : I s' := by
  obtain ⟨s₁, s₂, h₁, h₂, h₃⟩ := hacts
  have hs₁ := hs.actions h₁
  have hs₂ := hs₁.actions h₂
  exact actions_invariant haction hs₂
    (actions_invariant haction hs₁ (actions_invariant haction hs h h₁) h₂) h₃

/-- **The rule for invariants**: what holds of the empty server and is kept by every action holds in
every state of a run. -/
theorem Reachable.invariant {I : Server → Prop} (hempty : I empty)
    (haction : ∀ {stage s s'}, s.Good → I s → Action config stage s s' → I s')
    (h : Reachable config w) : I w.server := by
  induction h with
  | start h =>
    obtain ⟨bindFds, s, hlisten, rfl⟩ := h
    have hactions : Actions config .opening empty s := listen_actions hlisten
    exact actions_invariant haction good_empty hempty hactions
  | step env hreached hstep ih =>
    exact (step_acts hreached.good hstep).1.invariant haction hreached.good.server ih

end World

end Webserv
