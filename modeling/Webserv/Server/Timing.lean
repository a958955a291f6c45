import Webserv.Server.Frames
import Webserv.Server.Sweep

/-!
# When clients time out

`_readFd` notes the time when it reads for a client, and nothing else changes what is noted
(`frame_stamps`). But `_acceptClient` notes nothing, so a client that has never
been read from times out in the first sweep. A client that has been read from is only removed by a
sweep when it should be (`sweep_timely`).
-/

namespace Webserv

open Exec

namespace Server

variable {config : Config} {env : Answers} {s s' : Server} {i : ℕ} {c : Client} {α : Type}

/-- The connections of the clients, and when they were last read from. -/
def stamps (s : Server) : List (ℤ × ℕ) := s.clients.map Client.stamp

/-! ## What keeps the times -/

theorem keeps_stamps_assert (p : Prop) [Decidable p] : Keeps stamps (assert p) :=
  .ite (.pure _) (.throw _)

theorem keeps_stamps_lookupAt {κ ν : Type} [DecidableEq κ] (m : Map κ ν) (k : κ) :
    Keeps stamps (lookupAt m k) := (reads_lookupAt m k).of_comp stamps fun _ => rfl

theorem keeps_stamps_log (call : Call) : Keeps stamps (log call) := .modify fun _ => rfl

theorem keeps_stamps_close (fd : ℤ) : Keeps stamps (close fd) :=
  .bind .get fun _ => .bind (keeps_stamps_log _) fun _ => .bind .get fun _ =>
    .ite (.modify fun _ => rfl) (.throw _)

theorem keeps_stamps_addFd (fd : ℤ) (fdType : FdType) (events : Events) :
    Keeps stamps (addFd fd fdType events) :=
  .bind (keeps_stamps_assert _) fun _ => .bind (keeps_stamps_log _) fun _ => .modify fun _ => rfl

theorem keeps_stamps_removePfd (fd : ℤ) : Keeps stamps (removePfd fd) := by
  have hswap : ∀ k, Keeps stamps (swapRemovePfd k) := fun k => by
    refine .bind .get fun _ => ?_
    split
    · exact .modify fun _ => rfl
    · exact .throw _
  refine .bind .get fun _ => .bind (keeps_stamps_lookupAt _ _) fun k => .bind .get fun _ => ?_
  split
  · exact .throw _
  · exact .bind (.modify fun _ => rfl) fun _ => .bind (hswap k) fun _ => .modify fun _ => rfl

theorem keeps_stamps_removeFd (fd : ℤ) : Keeps stamps (removeFd fd) :=
  .bind (keeps_stamps_assert _) fun _ => .bind (keeps_stamps_removePfd fd) fun _ =>
    .bind (.modify fun _ => rfl) fun _ => keeps_stamps_close fd

/-- The parts of the handlers keep the times. -/
theorem frame_stamps (times : List (ℤ × ℕ)) : Frame fun s => s.stamps = times where
  client hs hi hc := (map_set_of_eq hi hc).trans hs
  call hs _ := hs
  pfd hs _ _ := hs
  index _ hs := hs
  removeFd fd s hs := (keeps_stamps_removeFd fd s).trans hs

theorem keeps_stamps_pipe (proposed : Option (ℤ × ℤ)) : Keeps stamps (pipe proposed) := by
  intro s
  rcases proposed with _ | ⟨readEnd, writeEnd⟩
  · rfl
  · simp only [pipe, run_bind, run_get, run_ite]
    split_ifs <;> rfl

theorem keeps_stamps_fork : Keeps stamps (fork env) := by
  intro s
  cases hfork : env.fork with
  | none =>
    simp only [fork, run_bind, run_get, hfork]
    rfl
  | some pid =>
    simp only [fork, run_bind, run_get, hfork, run_ite]
    split_ifs <;> rfl

theorem keeps_stamps_startCgi (i : ℕ) : Keeps stamps (startCgi env i) := by
  have hclient : Keeps stamps (clientAt i) := (reads_clientAt i).of_comp stamps fun _ => rfl
  have hmodify : ∀ {f : Client → Client}, (∀ c, (f c).stamp = c.stamp) →
      Keeps stamps (modifyClient i f) := fun hf =>
    .of_preserves fun times => (frame_stamps times).modifyClient i hf
  have hadd : ∀ fd j fdType events, Keeps stamps (addClientFd fd j fdType events) :=
    fun fd j fdType events => .bind (keeps_stamps_assert _) fun _ => .bind (.modify fun _ => rfl)
      fun _ => keeps_stamps_addFd fd fdType events
  have hto : ∀ j fd, Keeps stamps (connectServerToCgi i j fd) := fun j fd =>
    .bind hclient fun _ => .ite (keeps_stamps_close fd) <| .bind (hadd _ _ _ _) fun _ =>
      .bind (hmodify fun _ => rfl) fun _ =>
        .of_preserves fun times => (frame_stamps times).enableWritingToCgi i
  have hfrom : ∀ j fd, Keeps stamps (connectCgiToServer i j fd) := fun j fd =>
    .bind (hadd _ _ _ _) fun _ => hmodify fun _ => rfl
  refine .bind (keeps_stamps_pipe _) fun _ => .bind (keeps_stamps_pipe _) fun _ => ?_
  refine .bind keeps_stamps_fork fun _ => .bind (keeps_stamps_close _) fun _ => ?_
  refine .bind (keeps_stamps_close _) fun _ => .bind hclient fun _ => ?_
  refine .bind (hmodify fun _ => rfl) fun _ => .bind (.modify fun _ => rfl) fun _ => ?_
  refine .bind .get fun _ => .bind (keeps_stamps_lookupAt _ _) fun j => .bind (hto j _) fun _ => ?_
  exact .bind (hfrom j _) fun _ => .bind (keeps_stamps_log _) fun _ => .modify fun _ => rfl

theorem keeps_stamps_readBytes (i : ℕ) (fd : ℤ) (fdType : FdType) (received : Bytes) :
    Keeps stamps (readBytes config env i fd fdType received) := by
  refine .of_preserves fun times => (frame_stamps times).readBytes (fun i s hs => ?_) i fd fdType received
  exact (keeps_stamps_startCgi i s).trans hs

theorem keeps_stamps_writeToCgi (i : ℕ) : Keeps stamps (writeToCgi env i) := by
  refine .of_preserves fun times => ?_
  have hframe := frame_stamps times
  have hwrite : ∀ fd msg, Preserves (fun s => s.stamps = times) (write env fd msg) := by
    intro fd msg
    unfold write
    split
    · exact .bind (.modify fun _ hs => hs) fun _ => .pure _
    · exact .bind (.modify fun _ hs => hs) fun _ => .pure _
  refine .bind (preserves_clientAt i) fun _ => .bind (preserves_assert _) fun _ => ?_
  refine .bind (preserves_assert _) fun _ => .bind (hframe.modifyClient i fun _ => rfl) fun _ => ?_
  refine .bind (hwrite _ _) fun _ => ?_
  split
  · exact hframe.removePipeFd (.inl rfl) _
  · exact .bind (preserves_assert _) fun _ =>
      .ite (fun _ => hframe.removePipeFd (.inl rfl) _) fun _ => .pure _

/-! ## What takes clients out -/

/-- The state a program returns in, if it keeps the times. -/
theorem stamps_of_keeps {x : ServerM α} (h : Keeps stamps x) {a : α} (hx : x s = .ok a s') :
    s'.stamps = s.stamps := by
  have hs := h s
  rwa [hx] at hs

/-- Removing a client keeps the times of the others. -/
theorem removeClient_stamps (config : Config) {fd : ℤ} {u : Unit} (hs : s.Coherent)
    (h : removeClient env fd s = .ok u s') : s'.stamps ⊆ s.stamps := by
  obtain ⟨i, c, k, pfd, s₁, hindex, hi, hk, hpfd, hs₁, hcases⟩ := removeClient_ok h
  have hstamps₁ : s₁.stamps = s.stamps := by
    rw [hs₁]
    exact map_set_of_eq hi rfl
  rcases hcases with ⟨-, -, hkill⟩ | ⟨-, herase⟩
  · rw [stamps_of_keeps (.of_preserves fun times => (frame_stamps times).killCgi fd) hkill, hstamps₁]
    exact List.Subset.refl _
  · have hmark : Actions config .handling s s₁ := hs₁ ▸ mark_actions c hi hk hpfd rfl rfl rfl
    have hi₁ : s₁.clients[i]? = some { c with beingRemoved := true, clientToServerState := .done } := by
      rw [hs₁]
      exact getElem?_set_self_of hi _
    have hindex₁ : s₁.fdToClientIndex.lookup fd = some i := by rwa [hs₁]
    obtain ⟨s₂, c₂, j, last, this, src, k', lastPfd, hremove, hi₂, hj, -, -, -, hthis, hsrc, rfl⟩ :=
      eraseClient_ok herase
    obtain ⟨hquiet, -⟩ : Quiet config .handling s₁ s₂ ∧ _ :=
      removePipeFd_quiet (.inr rfl) hremove hindex₁ hi₁ fun _ => .inr rfl
    obtain rfl : j = i :=
      Option.some.inj (hj.symm.trans (((hs.actions hmark).actions hquiet.actions).index_clientFd hi₂))
    have hstamps₂ : s₂.stamps = s.stamps :=
      (stamps_of_keeps (.of_preserves fun times => (frame_stamps times).removePipeFd (.inr rfl) fd) hremove).trans hstamps₁
    rw [← hstamps₂]
    -- what is left was in another slot, or was the last one
    intro p hp
    obtain ⟨d, hd, rfl⟩ := List.mem_map.1 hp
    obtain ⟨l, hl⟩ := List.mem_iff_getElem?.1 hd
    simp only [List.set_set] at hl
    rcases IndexedVector.getElem?_dropLast_set_iff.1 hl with ⟨rfl, hlt, rfl⟩ | ⟨-, -, hl'⟩
    · have hlast : s₂.clients.getLast? = some src := by
        rw [List.getLast?_eq_getElem?] at hsrc ⊢
        rwa [List.length_set, List.getElem?_set_ne (by omega)] at hsrc
      exact List.mem_map.2 ⟨src, List.mem_of_getLast? hlast, rfl⟩
    · exact List.mem_map.2 ⟨d, List.mem_of_getElem? hl', rfl⟩

theorem writeToClient_stamps (config : Config) {u : Unit} (hs : s.Coherent)
    (h : writeToClient env i s = .ok u s') : s'.stamps ⊆ s.stamps := by
  obtain ⟨c, _, hclient, h⟩ := bind_eq_ok h
  obtain ⟨rfl, hi⟩ := clientAt_ok hclient
  obtain ⟨_, _, hassert, h⟩ := bind_eq_ok h
  obtain ⟨rfl, -⟩ := assert_ok hassert
  obtain ⟨_, _, hassert, h⟩ := bind_eq_ok h
  obtain ⟨rfl, -⟩ := assert_ok hassert
  obtain ⟨_, s₁, hmodify, h⟩ := bind_eq_ok h
  obtain ⟨c', hi', rfl⟩ := modifyClient_ok hmodify
  obtain ⟨written, s₂, hwrite, h⟩ := bind_eq_ok h
  obtain ⟨hstamps, hcoherent⟩ : s₂.stamps = s.stamps ∧ s₂.Coherent := by
    rcases write_ok hwrite with ⟨n, -, rfl⟩ | ⟨-, rfl⟩
    · refine ⟨map_set_of_eq hi' rfl, ?_⟩
      refine hs.congr rfl rfl rfl (fun _ _ => rfl) hs.nonneg (fun _ => rfl) rfl ?_
      exact map_set_of_eq hi' rfl
    · refine ⟨map_set_of_eq hi' rfl, ?_⟩
      refine hs.congr rfl rfl rfl (fun _ _ => rfl) hs.nonneg (fun _ => rfl) rfl ?_
      exact map_set_of_eq hi' rfl
  rw [← hstamps]
  cases written with
  | none => exact removeClient_stamps config hcoherent h
  | some n =>
    obtain ⟨_, _, hassert, h⟩ := bind_eq_ok h
    obtain ⟨rfl, -⟩ := assert_ok hassert
    rw [run_ite] at h
    split_ifs at h
    · exact removeClient_stamps config hcoherent h
    · cases h
      exact List.Subset.refl _

theorem handlePollout_stamps (config : Config) {fd : ℤ} {fdType : FdType} {u : Unit}
    (hs : s.Coherent) (h : handlePollout env fd fdType s = .ok u s') : s'.stamps ⊆ s.stamps := by
  obtain ⟨i, _, hget, h⟩ := bind_eq_ok h
  obtain ⟨rfl, -⟩ := getClient_ok hget
  rw [run_ite, run_ite] at h
  split_ifs at h
  · rw [stamps_of_keeps (keeps_stamps_writeToCgi i) h]
    exact List.Subset.refl _
  · exact writeToClient_stamps config hs h
  · cases h

theorem handlePollerr_stamps (config : Config) {fd : ℤ} {fdType : FdType} {u : Unit}
    (hs : s.Coherent) (h : handlePollerr env fd fdType s = .ok u s') : s'.stamps ⊆ s.stamps := by
  unfold handlePollerr at h
  rw [run_ite, run_ite] at h
  split_ifs at h
  · rw [stamps_of_keeps (.of_preserves fun times => (frame_stamps times).removePipeFd (.inl rfl) fd) h]
    exact List.Subset.refl _
  · exact removeClient_stamps config hs h
  · cases h

theorem sweepClient_stamps {u : Unit} (hs : s.Coherent)
    (h : sweepClient config env i s = .ok u s') : s'.stamps ⊆ s.stamps := by
  obtain ⟨_, _, ⟨⟩, h⟩ := bind_eq_ok h
  rw [run_ite] at h
  split_ifs at h
  · exact removeClient_stamps config hs h
  · cases h
    exact List.Subset.refl _

theorem reapClient_stamps {childPid : ℤ} {exitStatus : Option ℤ} {u : Unit} (hs : s.Coherent)
    (h : reapClient config env childPid exitStatus s = .ok u s') : s'.stamps ⊆ s.stamps := by
  obtain ⟨_, _, ⟨⟩, h⟩ := bind_eq_ok h
  obtain ⟨clientFd, _, hlookup, h⟩ := bind_eq_ok h
  obtain ⟨rfl, -⟩ := lookupAt_ok hlookup
  obtain ⟨_, _, ⟨⟩, h⟩ := bind_eq_ok h
  obtain ⟨i, _, hlookup, h⟩ := bind_eq_ok h
  obtain ⟨rfl, -⟩ := lookupAt_ok hlookup
  obtain ⟨_, _, ⟨⟩, h⟩ := bind_eq_ok h
  cases hi : s.clients[i]? with
  | none =>
    simp only [hi] at h
    cases h
  | some c =>
    simp only [hi] at h
    obtain ⟨_, _, ⟨⟩, h⟩ := bind_eq_ok h
    obtain ⟨_, s₁, hmodify, h⟩ := bind_eq_ok h
    obtain ⟨c₁, hi₁, rfl⟩ := modifyClient_ok hmodify
    obtain ⟨_, _, hassert, h⟩ := bind_eq_ok h
    obtain ⟨rfl, -⟩ := assert_ok hassert
    obtain ⟨_, _, hassert, h⟩ := bind_eq_ok h
    obtain ⟨rfl, -⟩ := assert_ok hassert
    obtain ⟨_, _, hassert, h⟩ := bind_eq_ok h
    obtain ⟨rfl, -⟩ := assert_ok hassert
    obtain ⟨_, _, hassert, h⟩ := bind_eq_ok h
    obtain ⟨rfl, -⟩ := assert_ok hassert
    obtain ⟨_, s₂, hmodify, h⟩ := bind_eq_ok h
    obtain ⟨c₂, hi₂, hs₂⟩ := modifyClient_ok hmodify
    obtain rfl := Option.some.inj (hi₂.symm.trans (getElem?_set_self_of hi₁ _))
    simp only [List.set_set] at hs₂
    have hstamps : s₂.stamps = s.stamps := by
      rw [hs₂]
      exact map_set_of_eq hi₁ rfl
    have hcoherent : s₂.Coherent := by
      rw [hs₂]
      refine hs.congr rfl rfl rfl (fun _ _ => rfl) hs.nonneg (fun _ => rfl) rfl ?_
      exact map_set_of_eq hi₁ rfl
    rw [run_ite, run_ite] at h
    rw [← hstamps]
    split_ifs at h
    · exact removeClient_stamps config hcoherent h
    · rw [stamps_of_keeps (.of_preserves fun times => (frame_stamps times).cgiEnd i) h]
      exact List.Subset.refl _
    · cases h
      exact List.Subset.refl _

theorem reapChild_stamps {again : Bool} (hs : s.Coherent)
    (h : reapChild config env s = .ok again s') : s'.stamps ⊆ s.stamps := by
  obtain ⟨child, s₁, hwait, h⟩ := bind_eq_ok h
  obtain ⟨hstamps, hcoherent⟩ : s₁.stamps = s.stamps ∧ ∀ unreaped,
      Server.Coherent { s₁ with unreapedCgiCount := unreaped } := by
    rcases waitpid_ok hwait with ⟨errno, rfl, -⟩ | ⟨-, rfl⟩
    · exact ⟨rfl, fun _ => hs.congr rfl rfl rfl (fun _ _ => rfl) hs.nonneg (fun _ => rfl) rfl rfl⟩
    · exact ⟨rfl, fun _ => hs.congr rfl rfl rfl (fun _ _ => rfl) hs.nonneg (fun _ => rfl) rfl rfl⟩
  rw [← hstamps]
  obtain ⟨_, _, ⟨⟩, h⟩ := bind_eq_ok h
  rw [run_ite, run_ite] at h
  split_ifs at h
  · cases h
    exact List.Subset.refl _
  · cases h
    exact List.Subset.refl _
  · obtain ⟨_, _, ⟨⟩, h⟩ := bind_eq_ok h
    obtain ⟨_, _, ⟨⟩, h⟩ := bind_eq_ok h
    rw [run_ite] at h
    split_ifs at h
    · obtain ⟨_, s₂, hreap, h⟩ := bind_eq_ok h
      cases h
      have hsub := reapClient_stamps (hcoherent _) hreap
      exact hsub
    · cases h
      exact List.Subset.refl _

/-! ## Accepting and reading -/

/-- A connection that is accepted has no time noted. -/
theorem acceptClient_stamps {serverFd : ℤ} {u : Unit}
    (h : acceptClient config env serverFd s = .ok u s') :
    ∃ fd new, s'.stamps = s.stamps ++ [(fd, 0)] ∧ s'.calls = new ++ s.calls ∧
      Call.acceptClient fd ∈ new := by
  obtain ⟨fd, _, haccept, h⟩ := bind_eq_ok h
  obtain ⟨-, -, rfl⟩ := accept_ok haccept
  obtain ⟨_, s₁, hfcntl, h⟩ := bind_eq_ok h
  obtain rfl := fcntl_ok hfcntl
  obtain ⟨_, _, ⟨⟩, h⟩ := bind_eq_ok h
  obtain ⟨_, s₂, hadd, h⟩ := bind_eq_ok h
  obtain rfl := addClientFd_ok hadd
  obtain ⟨_, _, ⟨⟩, h⟩ := bind_eq_ok h
  obtain ⟨serverPort, _, hlookup, h⟩ := bind_eq_ok h
  obtain ⟨rfl, -⟩ := lookupAt_ok hlookup
  obtain ⟨_, _, hlog, h⟩ := bind_eq_ok h
  obtain rfl := log_ok hlog
  cases h
  refine ⟨fd, [.acceptClient fd, .addFd fd .client], ?_, rfl, by simp⟩
  exact List.map_append

/-- The times once a client was read from: those of the others are kept. -/
def ReadAt (s : Server) (fd : ℤ) (now : ℕ) (s' : Server) : Prop :=
  ∀ p ∈ s'.stamps, p = (fd, now) ∨ (p ∈ s.stamps ∧ p.1 ≠ fd)

theorem stamps_modifyClient (hs : s.Coherent) (hi : s.clients[i]? = some c) :
    ReadAt s c.clientFd env.now
      { s with clients := s.clients.set i { c with timeOfLastRead := env.now } } := by
  intro p hp
  obtain ⟨d, hd, rfl⟩ := List.mem_map.1 hp
  obtain ⟨j, hj⟩ := List.mem_iff_getElem?.1 hd
  rcases getElem?_set_cases hj with ⟨rfl, rfl⟩ | ⟨hne, hj'⟩
  · exact .inl rfl
  · refine .inr ⟨List.mem_map.2 ⟨d, List.mem_of_getElem? hj', rfl⟩, fun heq => hne ?_⟩
    have hsame : d.fdOf .client = c.fdOf .client := heq
    exact (hs.unique hj' hi hsame (hs.clientFd_ne hj')).1

theorem ReadAt.mono {fd : ℤ} {now : ℕ} {s'' : Server} (h : ReadAt s fd now s')
    (hsub : s''.stamps ⊆ s'.stamps) : ReadAt s fd now s'' := fun p hp => h p (hsub hp)

theorem read_isSome {received : Bytes} (h : read env s = .ok received s') :
    env.read.isSome = true := by
  unfold read at h
  cases hbytes : env.read with
  | none =>
    rw [hbytes] at h
    cases h
  | some bytes => rfl

/-- **What `_readFd` notes.** -/
theorem readFd_stamps {fd : ℤ} {fdType : FdType} {skip : Bool} (hs : s.Coherent)
    (hi : s.clients[i]? = some c) (h : readFd config env i fd fdType s = .ok skip s') :
    env.read.isSome = true ∧ ReadAt s c.clientFd env.now s' := by
  have hcoherent : Server.Coherent
      { s with clients := s.clients.set i { c with timeOfLastRead := env.now } } := by
    refine hs.congr rfl rfl rfl (fun _ _ => rfl) hs.nonneg (fun _ => rfl) rfl ?_
    exact map_set_of_eq hi rfl
  obtain ⟨received, _, hread, h⟩ := bind_eq_ok h
  refine ⟨read_isSome hread, (stamps_modifyClient hs hi).mono ?_⟩
  obtain rfl := read_ok hread
  rw [bind_of_ok (modifyClient_of hi _), run_ite] at h
  split_ifs at h
  · obtain ⟨_, _, hassert, h⟩ := bind_eq_ok h
    obtain ⟨rfl, -⟩ := assert_ok hassert
    obtain ⟨d, _, hclient, h⟩ := bind_eq_ok h
    obtain ⟨rfl, -⟩ := clientAt_ok hclient
    obtain ⟨_, s₂, hremove, h⟩ := bind_eq_ok h
    cases h
    exact removeClient_stamps config hcoherent hremove
  · obtain ⟨_, s₂, hbytes, h⟩ := bind_eq_ok h
    cases h
    rw [stamps_of_keeps (keeps_stamps_readBytes i fd fdType received) hbytes]
    exact List.Subset.refl _

/-- The same if the request turns out to be wrong. -/
theorem readFd_stamps_error {fd : ℤ} {fdType : FdType} {status : Status} (hs : s.Coherent)
    (hi : s.clients[i]? = some c)
    (h : readFd config env i fd fdType s = .error (.clientException status) s') :
    env.read.isSome = true ∧ ReadAt s c.clientFd env.now s' := by
  obtain h | ⟨received, _, hread, h⟩ := bind_eq_error h
  · exact absurd ⟨status, rfl⟩ (noException_read env s _ _ h)
  refine ⟨read_isSome hread, (stamps_modifyClient hs hi).mono ?_⟩
  obtain rfl := read_ok hread
  rw [bind_of_ok (modifyClient_of hi _), run_ite] at h
  split_ifs at h
  · have hthrows : NoException (do
        assert (fdType = .client)
        removeClient env (← clientAt i).clientFd
        pure true : ServerM Bool) :=
      .bind (noException_assert _) fun _ => .bind (noException_clientAt i) fun _ =>
        .bind (noException_removeClient env _) fun _ => .pure _
    exact absurd ⟨status, rfl⟩ (hthrows _ _ _ h)
  · obtain h | ⟨_, s₂, -, h⟩ := bind_eq_error h
    · have hkeeps : Keeps stamps (readBytes config env i fd fdType received) :=
        keeps_stamps_readBytes i fd fdType received
      have hsame := hkeeps { s with clients := s.clients.set i { c with timeOfLastRead := env.now } }
      rw [h] at hsame
      have heq : s'.stamps = _ := hsame
      rw [heq]
      exact List.Subset.refl _
    · cases h

/-- **What `_handlePollin` notes.** -/
theorem handlePollin_stamps {fd : ℤ} {fdType : FdType} {skip : Bool} (hs : s.Coherent)
    (h : handlePollin config env fd fdType s = .ok skip s') :
    (fdType = .server ∧ ∃ fd' new, s'.stamps = s.stamps ++ [(fd', 0)] ∧
        s'.calls = new ++ s.calls ∧ Call.acceptClient fd' ∈ new) ∨
      (fdType ≠ .server ∧ env.read.isSome = true ∧ ∃ i c, s.fdToClientIndex.lookup fd = some i ∧
        s.clients[i]? = some c ∧ ReadAt s c.clientFd env.now s') := by
  unfold handlePollin at h
  rw [run_ite] at h
  split_ifs at h with hserver
  · obtain ⟨_, s₁, haccept, h⟩ := bind_eq_ok h
    cases h
    exact .inl ⟨hserver, acceptClient_stamps haccept⟩
  · obtain ⟨_, _, hassert, h⟩ := bind_eq_ok h
    obtain ⟨rfl, -⟩ := assert_ok hassert
    obtain ⟨i, _, hget, h⟩ := bind_eq_ok h
    obtain ⟨rfl, hindex, c, hi⟩ := getClient_ok hget
    obtain hread | ⟨status, s₁, hread, h⟩ := catchClientException_ok h
    · obtain ⟨hsome, hnoted⟩ := readFd_stamps hs hi hread
      exact .inr ⟨hserver, hsome, i, c, hindex, hi, hnoted⟩
    · obtain ⟨hsome, hnoted⟩ := readFd_stamps_error hs hi hread
      obtain ⟨_, s₂, hanswer, h⟩ := bind_eq_ok h
      cases h
      refine .inr ⟨hserver, hsome, i, c, hindex, hi, hnoted.mono ?_⟩
      rw [stamps_of_keeps (.of_preserves fun times =>
        (frame_stamps times).respondClientException status i) hanswer]
      exact List.Subset.refl _

/-! ## Descriptors -/

/-- The connection for which a read of a descriptor succeeds, if its `POLLIN` is handled. -/
def readsFor (env : Answers) (s : Server) (fd : ℤ) : Option ℤ :=
  if s.fdToFdType.lookup fd ≠ some .server ∧ env.read.isSome = true then
    (s.fdToClientIndex.lookup fd).bind fun i => s.clients[i]?.map Client.clientFd
  else none

/-- The connection for which a read succeeds while the events of a descriptor are handled. -/
def readsAt (env : Answers) (s : Server) (k : ℕ) (seenFds : Finset ℤ) : Option ℤ :=
  let pfd := pfdAt env s k
  if pfd.fd ∈ s.fdToPfdIndex ∧ pfd.fd ∉ seenFds ∧ pfd.revents.pollerr = false ∧
      pfd.revents.pollin = true then
    readsFor env s pfd.fd
  else none

/-- What handling events does to the times: a connection may be accepted, or read from, and some may be
closed. -/
def Notes (s : Server) (reads : Option ℤ) (now : ℕ) (s' : Server) : Prop :=
  (reads = none ∧ ∃ fd new, s'.calls = new ++ s.calls ∧ Call.acceptClient fd ∈ new ∧
    ∀ p ∈ s'.stamps, p ∈ s.stamps ∨ p.1 = fd) ∨
  (∃ fd time, reads = some fd ∧ (fd, time) ∈ s.stamps ∧ ReadAt s fd now s') ∨
  (reads = none ∧ s'.stamps ⊆ s.stamps)

theorem handlePollin_notes {fd : ℤ} {fdType : FdType} {skip : Bool} (hs : s.Coherent)
    (htype : s.fdToFdType.lookup fd = some fdType)
    (h : handlePollin config env fd fdType s = .ok skip s') :
    Notes s (readsFor env s fd) env.now s' := by
  rcases handlePollin_stamps hs h with ⟨rfl, fd', new, hstamps, hnew, hmem⟩ |
    ⟨hserver, hsome, i, c, hindex, hi, hread⟩
  · refine .inl ⟨if_neg fun hne => hne.1 htype, fd', new, hnew, hmem, fun p hp => ?_⟩
    rw [hstamps] at hp
    rcases List.mem_append.1 hp with hp | hp
    · exact .inl hp
    · exact .inr (by rw [List.mem_singleton.1 hp])
  · refine .inr (.inl ⟨c.clientFd, c.timeOfLastRead, ?_,
      List.mem_map.2 ⟨c, List.mem_of_getElem? hi, rfl⟩, hread⟩)
    have hne : s.fdToFdType.lookup fd ≠ some .server := by
      rw [htype]
      exact fun heq => hserver (Option.some.inj heq)
    rw [readsFor, if_pos ⟨hne, hsome⟩, hindex, Option.bind_some, hi, Option.map_some]

/-- Events that come later close connections at most. -/
theorem Notes.trans {reads : Option ℤ} {now : ℕ} {s'' : Server} (h : Notes s reads now s')
    (hsub : s''.stamps ⊆ s'.stamps) (hcalls : s'.calls <:+ s''.calls) :
    Notes s reads now s'' := by
  rcases h with ⟨hnone, fd, new, hnew, hmem, hstamps⟩ | ⟨fd, time, hreads, hmem, hread⟩ | ⟨hnone, h⟩
  · obtain ⟨later, hlater⟩ := hcalls
    refine .inl ⟨hnone, fd, later ++ new, ?_, List.mem_append_right _ hmem,
      fun p hp => hstamps p (hsub hp)⟩
    rw [← hlater, hnew, List.append_assoc]
  · exact .inr (.inl ⟨fd, time, hreads, hmem, hread.mono hsub⟩)
  · exact .inr (.inr ⟨hnone, List.Subset.trans hsub h⟩)

theorem processInOut_notes {k : ℕ} {fd : ℤ} {fdType : FdType} {pollin : Bool} {u : Unit}
    (hs : s.Good) (htype : s.fdToFdType.lookup fd = some fdType)
    (h : processInOut config env k fd fdType pollin s = .ok u s') :
    Notes s (if pollin then readsFor env s fd else none) env.now s' := by
  obtain ⟨skip, s₁, hin, h⟩ := bind_eq_ok h
  obtain ⟨hnotes, hactions⟩ : Notes s (if pollin then readsFor env s fd else none) env.now s₁ ∧
      Actions config .handling s s₁ := by
    rw [run_ite] at hin
    split_ifs at hin with hpollin
    · rw [if_pos hpollin]
      exact ⟨handlePollin_notes hs.toCoherent htype hin, handlePollin_actions hs htype hin⟩
    · cases hin
      exact ⟨.inr (.inr ⟨if_neg hpollin, List.Subset.refl _⟩), .refl⟩
  obtain ⟨_, _, ⟨⟩, h⟩ := bind_eq_ok h
  rw [run_ite] at h
  split_ifs at h
  · have hs₁ := hs.actions hactions
    have hout : Actions config .handling s₁ s' := handlePollout_actions hs₁ h
    exact hnotes.trans (handlePollout_stamps config hs₁.toCoherent h) hout.suffix
  · cases h
    exact hnotes

theorem processEvents_notes {k : ℕ} {fd : ℤ} {u : Unit} (hs : s.Good)
    (h : processEvents config env k fd s = .ok u s') :
    Notes s (if (pfdAt env s k).revents.pollerr = false ∧ (pfdAt env s k).revents.pollin = true then
      readsFor env s fd else none) env.now s' := by
  obtain ⟨_, _, ⟨⟩, h⟩ := bind_eq_ok h
  obtain ⟨fdType, _, hlookup, h⟩ := bind_eq_ok h
  obtain ⟨rfl, htype⟩ := lookupAt_ok hlookup
  obtain ⟨_, _, hprint, h⟩ := bind_eq_ok h
  obtain rfl := printEvents_ok hprint
  obtain ⟨_, _, ⟨⟩, h⟩ := bind_eq_ok h
  obtain ⟨_, _, hassert, h⟩ := bind_eq_ok h
  obtain ⟨rfl, -⟩ := assert_ok hassert
  rw [run_ite] at h
  split at h
  · rename_i herr
    refine .inr (.inr ⟨if_neg fun hnot => ?_, handlePollerr_stamps config hs.toCoherent h⟩)
    rw [hnot.1] at herr
    cases herr
  · rename_i herr
    obtain ⟨_, _, hassert, h⟩ := bind_eq_ok h
    obtain ⟨rfl, -⟩ := assert_ok hassert
    rw [run_ite] at h
    split at h
    · rename_i hhup
      refine .inr (.inr ⟨if_neg fun hnot => ?_, ?_⟩)
      · rw [hhup.2] at hnot
        cases hnot.2
      · rw [stamps_of_keeps (.of_preserves fun times => (frame_stamps times).pollhupCgiToServer fd) h]
        exact List.Subset.refl _
    · have hnotes := processInOut_notes hs htype h
      simpa only [Bool.not_eq_true _ ▸ herr, true_and] using hnotes

theorem processPfd_notes {k : ℕ} {seenFds seenFds' : Finset ℤ} (hs : s.Good)
    (h : processPfd config env k seenFds s = .ok seenFds' s') :
    Notes s (readsAt env s k seenFds) env.now s' := by
  rcases processPfd_ok h with ⟨rfl, -, hskip⟩ | ⟨-, hmem, hseen, -, hevents⟩
  · refine .inr (.inr ⟨if_neg fun hreads => ?_, List.Subset.refl _⟩)
    rcases hskip with hnone | hremoved | hseen
    · rw [hnone] at hreads
      cases hreads.2.2.2
    · exact hremoved hreads.1
    · exact hreads.2.1 hseen
  · have hlog : Action config .polling s
        { s with calls := .handle (pfdAt env s k).fd (k < s.pfds.length) :: s.calls } :=
      .log _ trivial fun _ => rfl
    have hnotes := processEvents_notes (hs.action hlog) hevents
    have hreads : readsAt env s k seenFds =
        if (pfdAt env s k).revents.pollerr = false ∧ (pfdAt env s k).revents.pollin = true then
          readsFor env s (pfdAt env s k).fd else none := by
      simp only [readsAt, hmem, hseen, not_false_eq_true, true_and]
    rw [hreads]
    rcases hnotes with ⟨hnone, fd, new, hnew, haccept, hstamps⟩ | hread
    · refine .inl ⟨hnone, fd, new ++ [.handle (pfdAt env s k).fd (k < s.pfds.length)], ?_,
        List.mem_append_left _ haccept, hstamps⟩
      rw [hnew, List.append_assoc]
      rfl
    · exact .inr hread

theorem keeps_stamps_shutDownFds (fds : List ℤ) : Keeps stamps (shutDownFds fds) := by
  induction fds with
  | nil => exact .pure _
  | cons fd fds ih =>
    exact .bind (.bind .get fun _ => .ite (.bind (keeps_stamps_removePfd fd) fun _ =>
      keeps_stamps_close fd) (.pure _)) fun _ => ih

theorem keeps_stamps_shutDownServers : Keeps stamps (shutDownServers env) :=
  .bind .get fun _ => keeps_stamps_shutDownFds _

theorem keeps_stamps_listen (bindInfos : List (Bytes × List ℕ)) (bindFds : List ℤ) :
    Keeps stamps (listen bindInfos bindFds) := by
  induction bindInfos generalizing bindFds with
  | nil => exact .pure _
  | cons bindInfo bindInfos ih =>
    cases bindFds with
    | nil => exact .throw _
    | cons bindFd bindFds =>
      have hsocket : Keeps stamps (socket bindFd) := by
        intro s
        simp only [socket, run_bind, run_get, run_ite]
        split_ifs <;> rfl
      refine .bind hsocket fun _ => ?_
      refine .bind (.modify fun _ => rfl) fun _ => .bind ?_ fun _ => ih bindFds
      exact keeps_stamps_addFd _ _ _

/-- A sweep calls `_removeClient` for the client it finds, also if the CGI cannot be killed. -/
theorem removals_removeClient (config : Config) (env : Answers) (hs : s.Good) (hi : s.clients[i]? = some c) :
    ∃ new, (finalState (removeClient env c.clientFd s)).calls = new ++ s.calls ∧
      removals new = [c.clientFd] := by
  by_cases hkill : c.HasCgi → env.kill = true
  · obtain ⟨s', h⟩ := hs.exists_removeClient config hi hkill
    rw [h]
    by_cases hcgi : c.HasCgi
    · exact (removeClient_kills hs hi hcgi h).2.2
    · exact (removeClient_takes config hs hi hcgi h).2.2
  · obtain ⟨hcgi, hkill⟩ := Classical.not_imp.1 hkill
    have hfd := hs.clientFd_ne hi
    have hindex := hs.index_clientFd hi
    obtain ⟨k, pfd, hk, hpfd⟩ := hs.exists_pfd (hs.held i c .client hi hfd).1.1
    have hi₁ : (s.marked i c k pfd).clients[i]? =
        some { c with beingRemoved := true, clientToServerState := .done } :=
      getElem?_set_self_of hi _
    refine ⟨[.removeClient c], ?_, rfl⟩
    have hcgi' : c.cgiKilled = false ∧ c.cgiPid ≠ -1 := hcgi
    have hthrow : kill env (s.marked i c k pfd) = .error (.system .kill) (s.marked i c k pfd) := by
      rw [kill, run_ite, if_neg hkill]
      rfl
    rw [removeClient_of hfd hindex hi hk hpfd, if_pos hcgi', killCgi,
      bind_of_ok (getClient_of (s := s.marked i c k pfd) hindex hi₁), bind_of_ok (clientAt_of hi₁),
      run_ite, if_pos ⟨hcgi'.1, hcgi'.2⟩, bind_of_error hthrow]
    rfl

end Server

/-! ## Runs -/

/-- When each connection was accepted, and when it was last read from since. -/
structure Times where
  accepted : ℤ → ℕ
  lastRead : ℤ → Option ℕ

namespace Times

/-- Nothing has happened yet. -/
def start : Times := ⟨fun _ => 0, fun _ => none⟩

/-- The later of the time a connection was accepted and the time it was last read from. -/
def since (times : Times) (fd : ℤ) : ℕ := max (times.accepted fd) ((times.lastRead fd).getD 0)

end Times

namespace World

variable {config : Config} {env : Answers} {envs : List Answers} {w w' : World} {times : Times}
  {now i n : ℕ}

/-- The calls of a step. -/
def newCalls (w w' : World) : List Call :=
  w'.server.calls.take (w'.server.calls.length - w.server.calls.length)

/-- A connection was accepted. -/
def accepts (w w' : World) (fd : ℤ) : Bool :=
  (newCalls w w').any fun
    | .acceptClient fd' => fd' = fd
    | _ => false

/-- The connection for which a read succeeds in a step. -/
def readsIn (env : Answers) (w : World) : Option ℤ :=
  match w.phase with
  | .processing (k + 1) seenFds => Server.readsAt env w.server k seenFds
  | _ => none

/-- The times after a step. -/
def noteTimes (times : Times) (env : Answers) (w w' : World) : Times where
  accepted fd := if accepts w w' fd then env.now else times.accepted fd
  lastRead fd :=
    if accepts w w' fd then none
    else if readsIn env w = some fd then some env.now else times.lastRead fd

/-- Something holds of every step of a run, given the times before it. -/
def EachStep (config : Config) (p : Times → Answers → World → Prop) :
    List Answers → Times → World → Prop
  | [], _, _ => True
  | env :: envs, past, w =>
    p past env w ∧
      match step config env w with
      | .ok _ w' => EachStep config p envs (noteTimes past env w w') w'
      | .error _ _ => True

/-- The sweep calls `_removeClient` for nobody who was accepted or read from within the last
`client_timeout_ms`. -/
def Timely (config : Config) (times : Times) (env : Answers) (w : World) : Prop :=
  match w.phase with
  | .sweeping _ _ => ∀ fd ∈ removals (newCalls w (finalState (step config env w))),
      times.since fd + config.clientTimeoutMs * 1000000 < env.now
  | _ => True

/-- A round of the sweep finds a client in its slot, and it has been read from since it was accepted. -/
def FindsReader (times : Times) (_ : Answers) (w : World) : Prop :=
  match w.phase with
  | .sweeping i n => i < n →
      ((w.server.clients[i]?).bind fun c => times.lastRead c.clientFd).isSome = true
  | _ => True

/-- What is known of the times of the clients. -/
def Noted (times : Times) (now : ℕ) (w : World) : Prop :=
  ∀ p ∈ w.server.stamps, times.accepted p.1 ≤ now ∧
    ∀ t, times.lastRead p.1 = some t → p.2 = t ∧ times.accepted p.1 ≤ t ∧ t ≤ now

theorem newCalls_of {new : List Call} (h : w'.server.calls = new ++ w.server.calls) :
    newCalls w w' = new := by
  unfold newCalls
  rw [h]
  simp

/-- The top of the loop keeps the times. -/
theorem top_stamps {u : Unit} (h : top env w = .ok u w') : w'.server.stamps = w.server.stamps := by
  have hservers : ∀ {w₁ w₂ : World} {u : Unit},
      onServer (Server.shutDownServers env) w₁ = .ok u w₂ → w₂.server.stamps = w₁.server.stamps := by
    intro w₁ w₂ u hshut
    obtain ⟨s', hshut', rfl⟩ := onServer_ok hshut
    exact Server.stamps_of_keeps Server.keeps_stamps_shutDownServers hshut'
  obtain ⟨_, w₁, hshut, h⟩ := bind_eq_ok h
  have h₁ : w₁.server.stamps = w.server.stamps := by
    obtain ⟨_, _, ⟨⟩, hshut⟩ := bind_eq_ok hshut
    rw [run_ite] at hshut
    split_ifs at hshut
    · obtain ⟨_, _, ⟨⟩, hshut⟩ := bind_eq_ok hshut
      have hsame := hservers hshut
      exact hsame
    · cases hshut
      rfl
  obtain ⟨_, _, ⟨⟩, h⟩ := bind_eq_ok h
  rw [run_ite] at h
  split_ifs at h
  · obtain ⟨_, w₂, hshut₂, h⟩ := bind_eq_ok h
    cases h
    exact (hservers hshut₂).trans h₁
  · obtain rfl | ⟨events, phase, -, rfl, -⟩ := poll_ok h
    · exact h₁
    · exact h₁

/-- What a step does to the times. -/
theorem step_notes {u : Unit} (hw : w.Good) (h : step config env w = .ok u w') :
    Server.Notes w.server (readsIn env w) env.now w'.server := by
  have hw' := (hw.interrupted env).server
  have hsub : ∀ {s : Server}, s.stamps ⊆ (w.interrupted env).server.stamps →
      s.stamps ⊆ w.server.stamps := id
  rcases step_ok h with ⟨hphase, htop⟩ | ⟨hphase, again, s', hreap, rfl⟩ |
    ⟨i, n, hphase, -, s', hsweep, rfl⟩ | ⟨⟨i, n, hphase, -⟩, rfl⟩ | ⟨⟨seenFds, hphase⟩, rfl⟩ |
    ⟨k, seenFds, hphase, seenFds', s', hpfd, rfl⟩ | ⟨hphase, rfl⟩
  · refine .inr (.inr ⟨by rw [readsIn, hphase], ?_⟩)
    rw [top_stamps htop]
    exact List.Subset.refl _
  · exact .inr (.inr ⟨by rw [readsIn, hphase], hsub (Server.reapChild_stamps hw'.toCoherent hreap)⟩)
  · exact .inr (.inr ⟨by rw [readsIn, hphase], hsub (Server.sweepClient_stamps hw'.toCoherent hsweep)⟩)
  · exact .inr (.inr ⟨by rw [readsIn, hphase], List.Subset.refl _⟩)
  · exact .inr (.inr ⟨by rw [readsIn, hphase], List.Subset.refl _⟩)
  · have hnotes := Server.processPfd_notes hw' hpfd
    rw [readsIn, hphase]
    exact hnotes
  · exact .inr (.inr ⟨by rw [readsIn, hphase], List.Subset.refl _⟩)

/-- What is known of the times stays known. -/
theorem Noted.step (h : Noted times now w) (hnow : now ≤ env.now)
    (hnotes : Server.Notes w.server (readsIn env w) env.now w'.server) :
    Noted (noteTimes times env w w') env.now w' := by
  intro p hp
  by_cases haccepts : accepts w w' p.1 = true
  · simp [noteTimes, haccepts]
  have hold : p ∈ w.server.stamps → readsIn env w ≠ some p.1 →
      (noteTimes times env w w').accepted p.1 ≤ env.now ∧
        ∀ t, (noteTimes times env w w').lastRead p.1 = some t →
          p.2 = t ∧ (noteTimes times env w w').accepted p.1 ≤ t ∧ t ≤ env.now := by
    intro hmem hreads
    obtain ⟨hle, hread⟩ := h p hmem
    simp only [noteTimes, haccepts, if_false, hreads, Bool.false_eq_true]
    refine ⟨hle.trans hnow, fun t ht => ?_⟩
    obtain ⟨heq, hle', ht'⟩ := hread t ht
    exact ⟨heq, hle', ht'.trans hnow⟩
  rcases hnotes with ⟨hnone, fd, new, hnew, hmem, hstamps⟩ | ⟨fd, time, hreads, hmem, hread⟩ |
    ⟨hnone, hsub⟩
  · rcases hstamps p hp with hp' | rfl
    · exact hold hp' (by rw [hnone]; simp)
    · refine absurd ?_ haccepts
      rw [accepts, newCalls_of hnew, List.any_eq_true]
      exact ⟨_, hmem, by simp⟩
  · rcases hread p hp with rfl | ⟨hp', hne⟩
    · have hle := (h _ hmem).1
      simp only [noteTimes, haccepts, if_false, hreads, Bool.false_eq_true, if_true]
      refine ⟨hle.trans hnow, fun t ht => ?_⟩
      obtain rfl := Option.some.inj ht
      exact ⟨rfl, hle.trans hnow, le_refl _⟩
    · exact hold hp' (by rw [hreads]; simpa using Ne.symm hne)
  · exact hold (hsub hp) (by rw [hnone]; simp)

/-- The time since a client was read from, when the sweep finds it to have timed out. -/
theorem lt_of_timedOut {c : Client} (h : TimedOut config env c) (hle : c.timeOfLastRead ≤ env.now) :
    c.timeOfLastRead + config.clientTimeoutMs * 1000000 < env.now := by
  have hdiff : ((env.now : ℤ) - c.timeOfLastRead).tdiv 1000000 =
      (((env.now - c.timeOfLastRead) / 1000000 : ℕ) : ℤ) := by
    rw [← Int.ofNat_sub hle]
    rfl
  unfold TimedOut Server.msSinceLastRead at h
  rw [hdiff, ← Int.natCast_mod, Int.toNat_natCast] at h
  have hmod := Nat.mod_le ((env.now - c.timeOfLastRead) / 1000000) sizeModulus
  omega

/-- The calls of a round of the sweep, thrown or not. -/
theorem newCalls_sweeping (hphase : w.phase = .sweeping i n) :
    newCalls w (finalState (step config env w)) =
      if i < n then newCalls w
        { w with server := finalState (Server.sweepClient config env i (w.interrupted env).server) }
      else [] := by
  obtain ⟨server, phase, serversActive, shuttingDown⟩ := w
  obtain rfl : phase = .sweeping i n := hphase
  have hstep : step config env ⟨server, .sweeping i n, serversActive, shuttingDown⟩ =
      (if i < n then do
          onServer (Server.sweepClient config env i)
          goto (.sweeping (i + 1) n)
        else goto .top : WorldM Unit)
      (interrupted ⟨server, .sweeping i n, serversActive, shuttingDown⟩ env) := rfl
  rw [hstep, run_ite]
  split_ifs
  · cases hsweep : Server.sweepClient config env i
        (interrupted ⟨server, .sweeping i n, serversActive, shuttingDown⟩ env).server with
    | ok u s' =>
      rw [bind_of_ok (onServer_of hsweep)]
      rfl
    | error e s' =>
      have herror : onServer (Server.sweepClient config env i)
          (interrupted ⟨server, .sweeping i n, serversActive, shuttingDown⟩ env) =
            .error e { interrupted ⟨server, .sweeping i n, serversActive, shuttingDown⟩ env with
              server := s' } := by
        unfold onServer
        rw [hsweep]
      rw [bind_of_error herror]
      rfl
  · exact newCalls_of rfl

/-- **A round that finds a client that has been read from is timely.** -/
theorem Noted.timely (h : Noted times now w) (hnow : now ≤ env.now) (hw : w.Good)
    (hfinds : FindsReader times env w) : Timely config times env w := by
  unfold FindsReader at hfinds
  unfold Timely
  cases hphase : w.phase with
  | sweeping i n =>
    rw [hphase] at hfinds
    intro fd hfd
    rw [newCalls_sweeping hphase] at hfd
    split_ifs at hfd with hlt
    · obtain ⟨t, hread⟩ := Option.isSome_iff_exists.1 (hfinds hlt)
      obtain ⟨c, hi, ht⟩ := Option.bind_eq_some_iff.1 hread
      have hi' : (w.interrupted env).server.clients[i]? = some c := hi
      obtain ⟨-, hnoted⟩ := h _ (List.mem_map.2 ⟨c, List.mem_of_getElem? hi, rfl⟩)
      obtain ⟨hlast, hle, hle'⟩ : c.timeOfLastRead = t ∧ times.accepted c.clientFd ≤ t ∧ t ≤ now :=
        hnoted t ht
      rw [Server.sweepClient_eq hi'] at hfd
      split_ifs at hfd with htime
      · obtain ⟨new, hnew, hremovals⟩ :=
          Server.removals_removeClient config env (hw.interrupted env).server hi'
        have hlate := lt_of_timedOut htime (by omega)
        rw [newCalls_of hnew, hremovals, List.mem_singleton] at hfd
        rw [hfd, Times.since, ht, Option.getD_some, max_eq_right hle]
        omega
      · have hnone : newCalls w { w with server := (w.interrupted env).server } = [] :=
          newCalls_of rfl
        rw [finalState_ok, hnone] at hfd
        simp [removals] at hfd
    · simp [removals] at hfd
  | top => trivial
  | reaping => trivial
  | processing k seenFds => trivial
  | stopped => trivial

theorem EachStep.timely (hw : w.Good) (hnoted : Noted times now w)
    (hsteady : (now :: envs.map Answers.now).IsChain (· ≤ ·))
    (hfinds : EachStep config FindsReader envs times w) :
    EachStep config (Timely config) envs times w := by
  induction envs generalizing now times w with
  | nil => trivial
  | cons env envs ih =>
    rw [List.map_cons, List.isChain_cons_cons] at hsteady
    obtain ⟨hnow, hsteady⟩ := hsteady
    obtain ⟨hfirst, hlater⟩ := hfinds
    refine ⟨hnoted.timely hnow hw hfirst, ?_⟩
    cases hstep : step config env w with
    | error e w' => trivial
    | ok u w' =>
      rw [hstep] at hlater
      have hnotes := step_notes hw hstep
      exact ih (step_acts hw hstep).2 (hnoted.step hnow hnotes) hsteady hlater

/-- **No client that has been read from is timed out early**: in every run with a steady clock in which
every round of a sweep finds a client in its slot that has been read from since it was accepted, the
sweep calls `_removeClient` for a client only if more than `client_timeout_ms` have passed since the
later of its accept and the last successful read for it. -/
theorem sweep_timely (now : ℕ) (hstart : Started config w)
    (hsteady : (now :: envs.map Answers.now).IsChain (· ≤ ·))
    (hfinds : EachStep config FindsReader envs .start w) :
    EachStep config (Timely config) envs .start w := by
  refine EachStep.timely hstart.good ?_ hsteady hfinds
  obtain ⟨bindFds, s, hlisten, rfl⟩ := hstart
  intro p hp
  have hp' : p ∈ s.stamps := hp
  rw [Server.stamps_of_keeps (Server.keeps_stamps_listen _ _) hlisten] at hp'
  cases hp'

/-! ## A client that is timed out at once -/

section Decidable

variable (config : Config) (times : Times) (env : Answers) (w : World)

instance : Decidable (Timely config times env w) :=
  match h : w.phase with
  | .sweeping _ _ => decidable_of_iff (∀ fd ∈ removals (newCalls w (finalState (step config env w))),
      times.since fd + config.clientTimeoutMs * 1000000 < env.now) (by rw [Timely, h])
  | .top => .isTrue (by rw [Timely, h]; trivial)
  | .reaping => .isTrue (by rw [Timely, h]; trivial)
  | .processing _ _ => .isTrue (by rw [Timely, h]; trivial)
  | .stopped => .isTrue (by rw [Timely, h]; trivial)

instance : Decidable (FindsReader times env w) :=
  match h : w.phase with
  | .sweeping i n => decidable_of_iff (i < n →
      ((w.server.clients[i]?).bind fun c => times.lastRead c.clientFd).isSome = true)
        (by rw [FindsReader, h])
  | .top => .isTrue (by rw [FindsReader, h]; trivial)
  | .reaping => .isTrue (by rw [FindsReader, h]; trivial)
  | .processing _ _ => .isTrue (by rw [FindsReader, h]; trivial)
  | .stopped => .isTrue (by rw [FindsReader, h]; trivial)

instance EachStep.decidable (config : Config) (p : Times → Answers → World → Prop)
    [∀ times env w, Decidable (p times env w)] :
    ∀ envs times w, Decidable (EachStep config p envs times w)
  | [], _, _ => .isTrue trivial
  | env :: envs, past, w =>
    have : Decidable (match step config env w with
        | .ok _ w' => EachStep config p envs (noteTimes past env w w') w'
        | .error _ _ => True) :=
      match step config env w with
      | .ok _ w' => EachStep.decidable config p envs (noteTimes past env w w') w'
      | .error _ _ => .isTrue trivial
    inferInstanceAs (Decidable (_ ∧ _))

end Decidable

/-- A server that was just constructed. -/
theorem started_after {bindFds : List ℤ}
    (hlisten : thrown (Server.listen config.bindInfos bindFds Server.empty) = none) :
    Started config (after config bindFds []) := by
  unfold after
  exact ⟨bindFds, _, eq_ok_of_thrown hlisten, rfl⟩

/-- A client connects ten seconds after the clock was started, and sends something. Its time runs out
two seconds later. -/
def readerAnswers : List Answers :=
  [{ now := 10000000000, poll := some fun fd => { pollin := fd = 3 } },
    { now := 10000000000, accept := some 4 }, { now := 10000000000 },
    { now := 10000000000, poll := some fun fd => { pollin := fd = 4 } },
    { now := 10000000000, read := some (bytes "GET") }, { now := 10000000000 },
    { now := 10000000000 }, { now := 12000000000 }, { now := 12000000000 }]

theorem sweep_timely_reader :
    EachStep cgiConfig (Timely cgiConfig) readerAnswers .start (after cgiConfig [3] []) := by
  refine sweep_timely 1000000000 (started_after (by decide +kernel)) (by decide +kernel) ?_
  unfold after
  decide +kernel

/-- A client connects ten seconds after the clock was started, and `poll` times out a millisecond
later. -/
def silentAnswers : List Answers :=
  [{ now := 10000000000, poll := some fun fd => { pollin := fd = 3 } },
    { now := 10000000000, accept := some 4 }, { now := 10000000000 }, { now := 10001000000 },
    { now := 10001000000 }]

/-- The client is removed at once, though it has a second to send something. -/
theorem not_timely_silent :
    Started cgiConfig (after cgiConfig [3] []) ∧
      (cgiConfig.clientTimeoutMs * 1000000 :: silentAnswers.map Answers.now).IsChain (· ≤ ·) ∧
      ¬ EachStep cgiConfig (Timely cgiConfig) silentAnswers .start (after cgiConfig [3] []) := by
  refine ⟨started_after (by decide +kernel), by decide +kernel, ?_⟩
  unfold after
  decide +kernel

end World

end Webserv
