import Webserv.Server.Forward

/-!
# The sweep of the clients that have timed out

The loop of `run` over `_clients` counts the clients when it is entered and then walks through the
slots, while `_removeClient` takes a client without a CGI out of its slot at once. The last client
then moves to a slot the loop has passed, and the loop reads past the end. So a sweep does what it
should exactly when nobody but the last client is taken out (`sweep_iff`).
-/

namespace Webserv

/-- The clients of the calls of `_removeClient`. -/
def removals (calls : List Call) : List ℤ :=
  calls.filterMap fun
    | .removeClient c => some c.clientFd
    | _ => none

/-- More than `client_timeout_ms` have passed since the client was last read from. -/
def TimedOut (config : Config) (env : Answers) (c : Client) : Prop :=
  config.clientTimeoutMs < Server.msSinceLastRead env.now c.timeOfLastRead

instance (config : Config) (env : Answers) (c : Client) : Decidable (TimedOut config env c) :=
  inferInstanceAs (Decidable (_ < _))

/-- The clients that have timed out, each when its round comes. -/
def timedOut (config : Config) (clients : List Client) (envs : List Answers) : List ℤ :=
  ((clients.zip envs).filter fun p => TimedOut config p.2 p.1).map fun p => p.1.clientFd

namespace Server

open Exec

variable {config : Config} {env : Answers} {s s' : Server} {i : ℕ} {c : Client}

theorem kill_succeeds {u : Unit} (h : kill env s = .ok u s') : env.kill = true := by
  unfold kill at h
  rw [run_ite] at h
  split_ifs at h with hkill
  · exact hkill
  · cases h

theorem removals_pipe {fdType : FdType} {fd : ℤ} {u : Unit}
    (h : removePipeFd fdType fd s = .ok u s') :
    ∃ new, s'.calls = new ++ s.calls ∧ removals new = [] := by
  obtain ⟨j, d, -, -, ⟨-, rfl⟩ | ⟨-, k, last, -, -, rfl⟩⟩ := removePipeFd_ok h
  · exact ⟨[], rfl, rfl⟩
  · exact ⟨[.close (d.fdOf fdType) true], rfl, rfl⟩

theorem clients_pipe {fdType : FdType} {fd : ℤ} {u : Unit}
    (h : removePipeFd fdType fd s = .ok u s')
    (hindex : s.fdToClientIndex.lookup fd = some i) (hi : s.clients[i]? = some c) :
    ∃ c', s'.clients = s.clients.set i c' := by
  obtain ⟨j, d, hindex', hi', hcases⟩ := removePipeFd_ok h
  obtain rfl := Option.some.inj (hindex'.symm.trans hindex)
  rcases hcases with ⟨-, rfl⟩ | ⟨-, k, last, -, -, rfl⟩
  · exact ⟨c, (set_self_of hi).symm⟩
  · exact ⟨_, rfl⟩

/-- A client with a CGI keeps its slot. -/
theorem removeClient_kills {u : Unit} (hs : s.Good) (hi : s.clients[i]? = some c)
    (hcgi : c.HasCgi) (h : removeClient env c.clientFd s = .ok u s') :
    env.kill = true ∧ (∃ c', s'.clients = s.clients.set i c') ∧
      ∃ new, s'.calls = new ++ s.calls ∧ removals new = [c.clientFd] := by
  have hindex := hs.index_clientFd hi
  obtain ⟨i', c', k, pfd, s₁, hindex', hi', -, -, rfl, hcases⟩ := removeClient_ok h
  obtain rfl := Option.some.inj (hindex'.symm.trans hindex)
  obtain rfl : c' = c := Option.some.inj (hi'.symm.trans hi)
  rcases hcases with ⟨-, -, hkill⟩ | ⟨hkeep, -⟩
  · obtain ⟨j, _, hget, hkill⟩ := bind_eq_ok hkill
    obtain ⟨rfl, hj, -⟩ := getClient_ok hget
    obtain rfl := Option.some.inj (hj.symm.trans hindex)
    obtain ⟨d, _, hclient, hkill⟩ := bind_eq_ok hkill
    obtain ⟨rfl, hd⟩ := clientAt_ok hclient
    obtain rfl := Option.some.inj (hd.symm.trans (getElem?_set_self_of hi _))
    rw [run_ite, if_pos ⟨hcgi.1, hcgi.2⟩] at hkill
    obtain ⟨_, s₁, hsignal, hkill⟩ := bind_eq_ok hkill
    obtain rfl := kill_ok hsignal
    obtain ⟨_, s₂, hmodify, hremove⟩ := bind_eq_ok hkill
    obtain ⟨d, hd', rfl⟩ := modifyClient_ok hmodify
    obtain ⟨new, hnew, hnone⟩ := removals_pipe hremove
    obtain ⟨c₂, hc₂⟩ := clients_pipe hremove hindex (getElem?_set_self_of hd' _)
    refine ⟨kill_succeeds hsignal, ⟨c₂, ?_⟩, new ++ [.removeClient c'], ?_, ?_⟩
    · rw [hc₂]
      simp only [List.set_set]
    · rw [hnew]
      simp
    · simp only [removals] at hnone ⊢
      rw [List.filterMap_append, hnone]
      rfl
  · exact absurd hcgi hkeep

/-- A client without a CGI is taken out of its slot. -/
theorem removeClient_takes (config : Config) {u : Unit} (hs : s.Good) (hi : s.clients[i]? = some c)
    (hcgi : ¬ c.HasCgi) (h : removeClient env c.clientFd s = .ok u s') :
    s'.clients.length + 1 = s.clients.length ∧
      (i + 1 = s.clients.length → s'.clients = s.clients.dropLast) ∧
      ∃ new, s'.calls = new ++ s.calls ∧ removals new = [c.clientFd] := by
  have hindex := hs.index_clientFd hi
  obtain ⟨i', c', k, pfd, s₁, hindex', hi', hk, hpfd, rfl, hcases⟩ := removeClient_ok h
  obtain rfl := Option.some.inj (hindex'.symm.trans hindex)
  obtain rfl : c' = c := Option.some.inj (hi'.symm.trans hi)
  rcases hcases with ⟨hkilled, hpid, -⟩ | ⟨-, herase⟩
  · exact absurd ⟨hkilled, hpid⟩ hcgi
  have hmark : Actions config .handling s (s.marked i' c' k pfd) :=
    mark_actions c' hi hk hpfd rfl rfl rfl
  have hs₁ := hs.actions hmark
  have hi₁ : (s.marked i' c' k pfd).clients[i']? =
      some { c' with beingRemoved := true, clientToServerState := .done } :=
    getElem?_set_self_of hi _
  obtain ⟨s₂, c₂, j, last, this, src, k', lastPfd, hremove, hi₂, hj, -, -, -, -, -, rfl⟩ :=
    eraseClient_ok herase
  obtain ⟨hquiet, -⟩ : Quiet config .handling (s.marked i' c' k pfd) s₂ ∧ _ :=
    removePipeFd_quiet (.inr rfl) hremove hindex hi₁ fun _ => .inr rfl
  obtain rfl : j = i' :=
    Option.some.inj (hj.symm.trans ((hquiet.good hs₁).index_clientFd hi₂))
  obtain ⟨new, hnew, hnone⟩ := removals_pipe hremove
  obtain ⟨c₃, hc₃⟩ := clients_pipe (s := s.marked j c' k pfd) hremove hindex hi₁
  have hclients : s₂.clients = s.clients.set j c₃ := by
    rw [hc₃]
    exact List.set_set ..
  have hlt : j < s.clients.length := (List.getElem?_eq_some_iff.1 hi).1
  refine ⟨?_, ?_, .assign this src :: .close c₂.clientFd true :: new ++ [.removeClient c'], ?_, ?_⟩
  · simp only [hclients, List.set_set, List.length_dropLast, List.length_set]
    omega
  · intro hlast
    simp only [hclients, List.set_set]
    rw [dropLast_set_last hlast _ c', set_self_of hi]
  · simp [hnew]
  · simp only [removals] at hnone ⊢
    simp [hnone]

/-- Removing adds no client. -/
theorem length_removeClient {fd : ℤ} {u : Unit} (h : removeClient env fd s = .ok u s') :
    s'.clients.length ≤ s.clients.length := by
  have hpipe : ∀ {fdType : FdType} {fd : ℤ} {s₁ s₂ : Server},
      removePipeFd fdType fd s₁ = .ok () s₂ → s₂.clients.length = s₁.clients.length := by
    intro fdType fd s₁ s₂ hremove
    obtain ⟨j, d, -, -, ⟨-, rfl⟩ | ⟨-, k, last, -, -, rfl⟩⟩ := removePipeFd_ok hremove
    · rfl
    · exact List.length_set
  obtain ⟨j, d, k, pfd, s₁, -, -, -, -, rfl, ⟨-, -, hkill⟩ | ⟨-, herase⟩⟩ := removeClient_ok h
  · obtain ⟨j', d', -, -, ⟨-, rfl⟩ | ⟨-, hremove⟩⟩ := killCgi_ok hkill
    · simp
    · rw [hpipe hremove]
      simp
  · obtain ⟨s₂, d₂, j', last, this, src, k', lastPfd, hremove, -, -, -, -, -, -, -, rfl⟩ :=
      eraseClient_ok herase
    have hlength := hpipe hremove
    simp only [List.length_set] at hlength
    simp only [List.length_dropLast, List.length_set]
    omega

/-! ## A round -/

/-- **What a round does** with the client of its slot. -/
theorem sweepClient_eq (hi : s.clients[i]? = some c) : sweepClient config env i s =
    if TimedOut config env c then removeClient env c.clientFd s else .ok () s := by
  rw [sweepClient, run_bind, run_get]
  dsimp only
  rw [hi]
  dsimp only
  rw [run_ite, run_pure]
  rfl

end Server

namespace World

open Exec Server

variable {config : Config} {env : Answers} {envs : List Answers} {w w' : World} {i n : ℕ}

theorem run_cons_ok {u : Unit} (h : run config (env :: envs) w = .ok u w') :
    ∃ w₁, step config env w = .ok () w₁ ∧ run config envs w₁ = .ok u w' := by
  obtain ⟨_, w₁, hstep, hrun⟩ := bind_eq_ok h
  exact ⟨w₁, hstep, hrun⟩

theorem onServer_of {α : Type} {f : ServerM α} {a : α} {s' : Server}
    (h : f w.server = .ok a s') : onServer f w = .ok a { w with server := s' } := by
  unfold onServer
  rw [h]

/-- A step of the sweep. -/
theorem step_sweeping (hphase : w.phase = .sweeping i n) (hlt : i < n) {s' : Server}
    (h : sweepClient config env i (w.interrupted env).server = .ok () s') :
    step config env w =
      .ok () { w.interrupted env with server := s', phase := .sweeping (i + 1) n } := by
  obtain ⟨server, phase, serversActive, shuttingDown⟩ := w
  obtain rfl : phase = .sweeping i n := hphase
  have hstep : step config env ⟨server, .sweeping i n, serversActive, shuttingDown⟩ =
      (if i < n then do
          onServer (sweepClient config env i)
          goto (.sweeping (i + 1) n)
        else goto .top : WorldM Unit)
      (interrupted ⟨server, .sweeping i n, serversActive, shuttingDown⟩ env) := rfl
  rw [hstep, if_pos hlt, bind_of_ok (onServer_of h)]
  rfl

/-- What a sweep should do from a slot on: `_removeClient` is called once for every client that has
timed out and for nobody else, every round finds a client in its slot, and the other clients stay as
they are. -/
structure SweptFrom (config : Config) (i : ℕ) (envs : List Answers) (w w' : World) : Prop where
  removed : ∃ new, w'.server.calls = new ++ w.server.calls ∧
    (removals new).Perm (timedOut config (w.server.clients.drop i) envs)
  inside : ∀ k < envs.length, ∃ w₁, run config (envs.take k) w = .ok () w₁ ∧
    i + k < w₁.server.clients.length
  others : ∀ k c env, w.server.clients[i + k]? = some c → envs[k]? = some env →
    ¬ TimedOut config env c → w'.server.clients[i + k]? = some c
  before : ∀ j < i, w'.server.clients[j]? = w.server.clients[j]?
  coherent : w'.server.Coherent

/-- Nobody but the client of the last slot is taken out. -/
def OnlyLast (config : Config) (i : ℕ) (envs : List Answers) (w : World) : Prop :=
  ∀ k c env, w.server.clients[i + k]? = some c → envs[k]? = some env → TimedOut config env c →
    (c.HasCgi → env.kill = true) ∧ (k + 1 < envs.length → c.HasCgi)

/-- A round that does not take its client out. -/
theorem round_ok (hw : w.Good) (hphase : w.phase = .sweeping i n) (hlt : i < n) {c : Client}
    (hi : w.server.clients[i]? = some c)
    (hkill : TimedOut config env c → c.HasCgi ∧ env.kill = true) :
    ∃ w₁ c₁ new, step config env w = .ok () w₁ ∧ w₁.Good ∧ w₁.phase = .sweeping (i + 1) n ∧
      w₁.server.clients = w.server.clients.set i c₁ ∧
      (¬ TimedOut config env c → c₁ = c) ∧ w₁.server.calls = new ++ w.server.calls ∧
      removals new = if TimedOut config env c then [c.clientFd] else [] := by
  have hw' := hw.interrupted env
  have hi' : (w.interrupted env).server.clients[i]? = some c := hi
  by_cases htime : TimedOut config env c
  · obtain ⟨hcgi, hsignal⟩ := hkill htime
    obtain ⟨s', h⟩ := hw'.server.exists_removeClient config hi' fun _ => hsignal
    have hsweep : sweepClient config env i (w.interrupted env).server = .ok () s' := by
      rw [sweepClient_eq hi', if_pos htime, h]
    obtain ⟨-, ⟨c₁, hc₁⟩, new, hnew, hremovals⟩ := removeClient_kills hw'.server hi' hcgi h
    have hstep := step_sweeping hphase hlt hsweep
    refine ⟨_, c₁, new, hstep, (step_acts hw hstep).2, rfl, hc₁, fun h => absurd htime h, hnew, ?_⟩
    rw [if_pos htime, hremovals]
  · have hsweep : sweepClient config env i (w.interrupted env).server =
        .ok () (w.interrupted env).server := by
      rw [sweepClient_eq hi', if_neg htime]
    have hstep := step_sweeping hphase hlt hsweep
    refine ⟨_, c, [], hstep, (step_acts hw hstep).2, rfl, (set_self_of hi).symm, fun _ => rfl, rfl,
      ?_⟩
    rw [if_neg htime]
    rfl

theorem timedOut_cons {c : Client} {clients : List Client} :
    timedOut config (c :: clients) (env :: envs) =
      (if TimedOut config env c then [c.clientFd] else []) ++ timedOut config clients envs := by
  rw [timedOut, List.zip_cons_cons, List.filter_cons]
  split_ifs with h <;> simp_all [timedOut]

/-- **A sweep that takes out nobody but the last client does what it should.** -/
theorem exists_swept (hw : w.Good) (hphase : w.phase = .sweeping i n)
    (hn : n = w.server.clients.length) (hlength : i + envs.length = n)
    (h : OnlyLast config i envs w) :
    ∃ w', run config envs w = .ok () w' ∧ SweptFrom config i envs w w' := by
  induction envs generalizing i w with
  | nil =>
    refine ⟨w, rfl, ⟨[], rfl, ?_⟩, by simp, by simp, fun _ _ => rfl, hw.server.toCoherent⟩
    simp [removals, timedOut]
  | cons env envs ih =>
    rw [List.length_cons] at hlength
    have hlt : i < w.server.clients.length := by omega
    have hi : w.server.clients[i]? = some w.server.clients[i] := List.getElem?_eq_getElem hlt
    generalize w.server.clients[i] = c at hi
    have hfirst := h 0 c env hi rfl
    have hdrop : w.server.clients.drop i = c :: w.server.clients.drop (i + 1) := by
      rw [List.drop_eq_getElem_cons hlt]
      rw [List.getElem?_eq_getElem hlt] at hi
      rw [Option.some.inj hi]
    by_cases htakes : TimedOut config env c ∧ ¬ c.HasCgi
    · -- the last round, which takes the last client out
      obtain ⟨htime, hcgi⟩ := htakes
      have hnil : envs = [] := by
        by_contra hne
        have hpos := List.length_pos_iff.2 hne
        exact hcgi ((hfirst htime).2 (by simpa using hpos))
      subst hnil
      have hw' := hw.interrupted env
      have hi' : (w.interrupted env).server.clients[i]? = some c := hi
      obtain ⟨s', hremove⟩ := hw'.server.exists_removeClient config hi' (hfirst htime).1
      have hsweep : sweepClient config env i (w.interrupted env).server = .ok () s' := by
        rw [sweepClient_eq hi', if_pos htime, hremove]
      obtain ⟨-, hlast, new, hnew, hremovals⟩ :=
        removeClient_takes config hw'.server hi' hcgi hremove
      have hclients : s'.clients = w.server.clients.dropLast := hlast (by
        change i + 1 = w.server.clients.length
        simp only [List.length_nil] at hlength
        omega)
      have hstep := step_sweeping hphase (by omega) hsweep
      have hrun : run config [env] w = .ok ()
          { w.interrupted env with server := s', phase := .sweeping (i + 1) n } :=
        bind_of_ok hstep
      refine ⟨_, hrun, ⟨new, hnew, ?_⟩, ?_, ?_, ?_, (step_acts hw hstep).2.server.toCoherent⟩
      · rw [hdrop, timedOut_cons, if_pos htime, hremovals]
        simp [timedOut]
      · intro k hk
        obtain rfl : k = 0 := by simpa using hk
        exact ⟨w, rfl, by omega⟩
      · intro k d env' hd henv hnot
        cases k with
        | zero =>
          obtain rfl := Option.some.inj henv
          obtain rfl := Option.some.inj (hd.symm.trans hi)
          exact absurd htime hnot
        | succ k => simp at henv
      · intro j hj
        change s'.clients[j]? = _
        rw [hclients, List.getElem?_dropLast, if_pos (by omega)]
    · have hkill : TimedOut config env c → c.HasCgi ∧ env.kill = true := by
        intro htime
        have hcgi : c.HasCgi := by
          by_contra hcgi
          exact htakes ⟨htime, hcgi⟩
        exact ⟨hcgi, (hfirst htime).1 hcgi⟩
      obtain ⟨w₁, c₁, new, hstep, hw₁, hphase₁, hclients, hsame, hnew, hremovals⟩ :=
        round_ok hw hphase (by omega) hi hkill
      have hlater : ∀ k, w₁.server.clients[i + 1 + k]? = w.server.clients[i + (k + 1)]? := by
        intro k
        rw [hclients, List.getElem?_set_ne (by omega), show i + 1 + k = i + (k + 1) by omega]
      have hdrop₁ : w₁.server.clients.drop (i + 1) = w.server.clients.drop (i + 1) := by
        rw [hclients, List.drop_set_of_lt (by omega)]
      obtain ⟨w', hrun, hswept⟩ := ih hw₁ hphase₁ (by rw [hclients, List.length_set, hn])
        (by omega) fun k d env' hd henv htime => by
          have hd' := (hlater k).symm.trans hd
          obtain ⟨h₁, h₂⟩ := h (k + 1) d env' hd' henv htime
          exact ⟨h₁, fun hk => h₂ (by simpa using hk)⟩
      obtain ⟨new', hnew', hperm⟩ := hswept.removed
      refine ⟨w', (bind_of_ok hstep).trans hrun, ⟨new' ++ new, ?_, ?_⟩, ?_, ?_, ?_,
        hswept.coherent⟩
      · rw [hnew', hnew, List.append_assoc]
      · rw [hdrop, timedOut_cons, ← hremovals, ← hdrop₁]
        simp only [removals] at hperm ⊢
        rw [List.filterMap_append]
        exact (hperm.append_right _).trans List.perm_append_comm
      · intro k hk
        cases k with
        | zero => exact ⟨w, rfl, by omega⟩
        | succ k =>
          obtain ⟨w₂, hrun₂, hlt₂⟩ := hswept.inside k (by simpa using hk)
          exact ⟨w₂, (bind_of_ok hstep).trans hrun₂, by omega⟩
      · intro k d env' hd henv hnot
        cases k with
        | zero =>
          obtain rfl := Option.some.inj henv
          obtain rfl := Option.some.inj (hd.symm.trans hi)
          rw [Nat.add_zero, hswept.before i (by omega), hclients, hsame hnot]
          exact getElem?_set_self_of hi _
        | succ k =>
          have hd' := (hlater k).trans hd
          have hkept := hswept.others k d env' hd' henv hnot
          rwa [show i + 1 + k = i + (k + 1) by omega] at hkept
      · intro j hj
        rw [hswept.before j (by omega), hclients, List.getElem?_set_ne (by omega)]

/-- A step of the sweep that returns. -/
theorem step_sweeping_ok {u : Unit} (hphase : w.phase = .sweeping i n) (hlt : i < n)
    (h : step config env w = .ok u w') :
    sweepClient config env i (w.interrupted env).server = .ok () w'.server ∧
      w'.phase = .sweeping (i + 1) n := by
  rcases step_ok h with ⟨h', -⟩ | ⟨h', -⟩ | ⟨i', n', h', -, s', hsweep, rfl⟩ |
    ⟨⟨i', n', h', hle⟩, -⟩ | ⟨⟨_, h'⟩, -⟩ | ⟨k, _, h', -⟩ | ⟨h', -⟩ <;> rw [hphase] at h' <;>
    cases h'
  · exact ⟨hsweep, rfl⟩
  · omega

/-- A sweep adds no client. -/
theorem length_run_sweeping (hphase : w.phase = .sweeping i n) (hlength : i + envs.length ≤ n)
    (h : run config envs w = .ok () w') :
    w'.server.clients.length ≤ w.server.clients.length := by
  induction envs generalizing i w with
  | nil =>
    cases h
    rfl
  | cons env envs ih =>
    rw [List.length_cons] at hlength
    obtain ⟨w₁, hstep, hrun⟩ := run_cons_ok h
    obtain ⟨hsweep, hphase₁⟩ := step_sweeping_ok hphase (by omega) hstep
    refine (ih hphase₁ (by omega) hrun).trans ?_
    obtain ⟨_, _, ⟨⟩, hsweep⟩ := bind_eq_ok hsweep
    rw [run_ite] at hsweep
    split_ifs at hsweep
    · have hle := length_removeClient hsweep
      exact hle
    · have hsame : w₁.server = (w.interrupted env).server := by
        cases hs : w₁.server
        rw [hs] at hsweep
        cases hsweep
        rfl
      rw [hsame]
      rfl

/-- **A sweep whose rounds all find a client in their slots takes out nobody but the last one.** -/
theorem onlyLast_of_inside (hw : w.Good) (hphase : w.phase = .sweeping i n)
    (hn : n = w.server.clients.length) (hlength : i + envs.length = n)
    (hrun : run config envs w = .ok () w')
    (hinside : ∀ k < envs.length, ∃ w₁, run config (envs.take k) w = .ok () w₁ ∧
      i + k < w₁.server.clients.length) : OnlyLast config i envs w := by
  induction envs generalizing i w with
  | nil => exact fun k c env _ henv => by simp at henv
  | cons env envs ih =>
    rw [List.length_cons] at hlength
    obtain ⟨w₁, hstep, hrun₁⟩ := run_cons_ok hrun
    obtain ⟨hsweep, hphase₁⟩ := step_sweeping_ok hphase (by omega) hstep
    have hlt : i < w.server.clients.length := by omega
    have hi : w.server.clients[i]? = some w.server.clients[i] := List.getElem?_eq_getElem hlt
    generalize w.server.clients[i] = c at hi
    have hi' : (w.interrupted env).server.clients[i]? = some c := hi
    have hw' := (hw.interrupted env).server
    rw [sweepClient_eq hi'] at hsweep
    -- the later rounds, when this one keeps its client
    have hlater : ∀ c₁, w₁.server.clients = w.server.clients.set i c₁ → ∀ k d env',
        w.server.clients[i + (k + 1)]? = some d → envs[k]? = some env' → TimedOut config env' d →
          (d.HasCgi → env'.kill = true) ∧ (k + 1 < envs.length → d.HasCgi) := by
      intro c₁ hclients k d env' hd henv htime
      have hlast := ih (step_acts hw hstep).2 hphase₁ (by rw [hclients, List.length_set, hn])
        (by omega) hrun₁ fun k hk => by
          obtain ⟨w₂, hrun₂, hlt₂⟩ := hinside (k + 1) (by simpa using hk)
          obtain ⟨w₁', hstep', hrun₂⟩ := run_cons_ok hrun₂
          rw [hstep] at hstep'
          cases hstep'
          exact ⟨w₂, hrun₂, by omega⟩
      refine hlast k d env' ?_ henv htime
      rw [hclients, List.getElem?_set_ne (by omega), show i + 1 + k = i + (k + 1) by omega, hd]
    by_cases htime : TimedOut config env c
    · rw [if_pos htime] at hsweep
      by_cases hcgi : c.HasCgi
      · obtain ⟨hkill, ⟨c₁, hc₁⟩, -⟩ := removeClient_kills hw' hi' hcgi hsweep
        intro k d env' hd henv ht
        cases k with
        | zero =>
          obtain rfl := Option.some.inj henv
          obtain rfl := Option.some.inj (hd.symm.trans hi)
          exact ⟨fun _ => hkill, fun _ => hcgi⟩
        | succ k =>
          obtain ⟨h₁, h₂⟩ := hlater c₁ hc₁ k d env' hd henv ht
          exact ⟨h₁, fun hk => h₂ (by simpa using hk)⟩
      · obtain ⟨hshort, -⟩ := removeClient_takes config hw' hi' hcgi hsweep
        have hnil : envs = [] := by
          by_contra hne
          obtain ⟨m, hm⟩ := Nat.exists_eq_succ_of_ne_zero (List.length_pos_iff.2 hne).ne'
          obtain ⟨w₂, hrun₂, hlt₂⟩ := hinside (m + 1) (by simp [hm])
          obtain ⟨w₁', hstep', hrun₂⟩ := run_cons_ok hrun₂
          rw [hstep] at hstep'
          cases hstep'
          have hle := length_run_sweeping hphase₁ (by simp; omega) hrun₂
          change _ = w.server.clients.length at hshort
          omega
        subst hnil
        intro k d env' hd henv _
        cases k with
        | zero =>
          obtain rfl := Option.some.inj (hd.symm.trans hi)
          exact ⟨fun h => absurd h hcgi, fun hk => by simp at hk⟩
        | succ k => simp at henv
    · rw [if_neg htime] at hsweep
      have hsame : w₁.server.clients = w.server.clients.set i c := by
        rw [set_self_of hi]
        cases hs : w₁.server
        rw [hs] at hsweep
        cases hsweep
        rfl
      intro k d env' hd henv ht
      cases k with
      | zero =>
        obtain rfl := Option.some.inj henv
        obtain rfl := Option.some.inj (hd.symm.trans hi)
        exact absurd ht htime
      | succ k =>
        obtain ⟨h₁, h₂⟩ := hlater c hsame k d env' hd henv ht
        exact ⟨h₁, fun hk => h₂ (by simpa using hk)⟩

/-! ## Runs -/

/-- A sweep is entered with the number of clients there are. -/
theorem top_sweeping (htop : w.phase = .top) (h : top env w = .ok () w')
    (hphase : w'.phase = .sweeping 0 n) : n = w'.server.clients.length := by
  obtain ⟨_, w₁, hshut, h⟩ := bind_eq_ok h
  have hphase₁ : w₁.phase = .top := by
    obtain ⟨_, _, ⟨⟩, hshut⟩ := bind_eq_ok hshut
    rw [run_ite] at hshut
    split_ifs at hshut
    · obtain ⟨_, _, ⟨⟩, hshut⟩ := bind_eq_ok hshut
      obtain ⟨s', -, rfl⟩ := onServer_ok hshut
      exact htop
    · cases hshut
      exact htop
  obtain ⟨_, _, ⟨⟩, h⟩ := bind_eq_ok h
  rw [run_ite] at h
  split_ifs at h
  · obtain ⟨_, w₂, -, h⟩ := bind_eq_ok h
    cases h
    cases hphase
  · obtain rfl | ⟨events, phase, -, rfl, hcases⟩ := poll_ok h
    · cases hphase₁.symm.trans hphase
    · rcases hcases with rfl | rfl | rfl | rfl
      · cases hphase₁.symm.trans hphase
      · cases hphase
      · cases hphase
        rfl
      · cases hphase

theorem Reachable.sweeping_zero (h : Reachable config w) (hphase : w.phase = .sweeping 0 n) :
    n = w.server.clients.length := by
  cases h with
  | start hstart =>
    obtain ⟨bindFds, s, -, rfl⟩ := hstart
    cases hphase
  | step env hreach hstep =>
    rcases step_ok hstep with ⟨htop, h⟩ | ⟨-, again, s', -, rfl⟩ | ⟨i, m, -, -, s', -, rfl⟩ |
      ⟨-, rfl⟩ | ⟨-, rfl⟩ | ⟨k, _, -, _, s', -, rfl⟩ | ⟨hstopped, rfl⟩
    · have htop' : (interrupted _ env).phase = .top := htop
      exact top_sweeping htop' h hphase
    · cases again <;> cases hphase
      rfl
    · cases hphase
    · cases hphase
    · cases hphase
    · cases hphase
    · cases hstopped.symm.trans hphase

/-- What one execution of the sweep should do: `_removeClient` is called exactly once for every client
that has timed out, and for nobody else; every round finds a client in its slot; and the other clients
stay as they are, and are found in their slots through the descriptors they hold. -/
structure Swept (config : Config) (envs : List Answers) (w w' : World) : Prop where
  removed : ∃ new, w'.server.calls = new ++ w.server.calls ∧
    (removals new).Perm (timedOut config w.server.clients envs)
  inside : ∀ k < envs.length, ∃ w₁, run config (envs.take k) w = .ok () w₁ ∧
    k < w₁.server.clients.length
  others : ∀ (i : ℕ) (c : Client) (env : Answers),
    w.server.clients[i]? = some c → envs[i]? = some env → ¬ TimedOut config env c → ∃ j, w'.server.clients[j]? = some c ∧
      ∀ fdType, c.fdOf fdType ≠ -1 → w'.server.Polls (c.fdOf fdType) fdType ∧
        w'.server.fdToClientIndex.lookup (c.fdOf fdType) = some j
  coherent : w'.server.Coherent

theorem SweptFrom.swept (h : SweptFrom config 0 envs w w') : Swept config envs w w' where
  removed := h.removed
  inside k hk := by simpa using h.inside k hk
  others i c env hi henv hnot := by
    have hi' := h.others i c env (by simpa using hi) henv hnot
    exact ⟨0 + i, hi', fun fdType hheld => h.coherent.held _ c fdType hi' hheld⟩
  coherent := h.coherent

theorem swept_iff (hw : w.Good) (hphase : w.phase = .sweeping 0 n)
    (hn : n = w.server.clients.length) (hlength : envs.length = n) :
    (∃ w', run config envs w = .ok () w' ∧ Swept config envs w w') ↔ OnlyLast config 0 envs w := by
  constructor
  · rintro ⟨w', hrun, hswept⟩
    exact onlyLast_of_inside hw hphase hn (by omega) hrun (by simpa using hswept.inside)
  · intro h
    obtain ⟨w', hrun, hswept⟩ := exists_swept hw hphase hn (by omega) h
    exact ⟨w', hrun, hswept.swept⟩

/-- **When the sweep does what it should**: for every client that has timed out when its round comes,
the CGI can be killed if it has one, and if it has none, it is the last client. -/
theorem sweep_iff (h : Reachable config w) (hphase : w.phase = .sweeping 0 n)
    (hlength : envs.length = n) :
    (∃ w', run config envs w = .ok () w' ∧ Swept config envs w w') ↔
      ∀ (i : ℕ) (c : Client) (env : Answers), w.server.clients[i]? = some c →
        envs[i]? = some env → TimedOut config env c →
          (c.HasCgi → env.kill = true) ∧ (¬ c.HasCgi → i + 1 = n) := by
  have hn := h.sweeping_zero hphase
  rw [swept_iff h.good hphase hn hlength]
  constructor
  · intro hlast i c env hi henv htime
    obtain ⟨hkill, hcgi⟩ := hlast i c env (by simpa using hi) henv htime
    refine ⟨hkill, fun hnone => ?_⟩
    have hlt := (List.getElem?_eq_some_iff.1 hi).1
    by_contra hne
    exact hnone (hcgi (by omega))
  · intro hall i c env hi henv htime
    obtain ⟨hkill, hlast⟩ := hall i c env (by simpa using hi) henv htime
    refine ⟨hkill, fun hlt => ?_⟩
    by_contra hnone
    have := hlast hnone
    omega

/-- One client connects, and then `poll` times out. -/
def oneIdleAnswers : List Answers :=
  [{ poll := some fun fd => { pollin := fd = 3 } }, { accept := some 4 }, {}, {}]

/-- Two clients connect, and then `poll` times out. -/
def twoIdleAnswers : List Answers :=
  [{ poll := some fun fd => { pollin := fd = 3 } }, { accept := some 4 }, {},
    { poll := some fun fd => { pollin := fd = 3 } }, {}, { accept := some 5 }, {}, {}]

/-- A round two seconds after the server was started. -/
def lateAnswers : Answers where
  now := 2000000000
  staleClient := (5, 0)

theorem sweep_iff_oneIdle :
    ∃ w', run cgiConfig [lateAnswers] (after cgiConfig [3] oneIdleAnswers) = .ok () w' ∧
      Swept cgiConfig [lateAnswers] (after cgiConfig [3] oneIdleAnswers) w' := by
  have hreach : Reachable cgiConfig (after cgiConfig [3] oneIdleAnswers) :=
    reachable_after (by decide +kernel) (by decide +kernel)
  have hphase : (after cgiConfig [3] oneIdleAnswers).phase = .sweeping 0 1 := by
    unfold after
    decide +kernel
  refine (sweep_iff hreach hphase rfl).2 fun i c env hi henv _ => ?_
  cases i with
  | succ i => simp at henv
  | zero =>
    have hkilled : env.kill = true := by
      obtain rfl := Option.some.inj henv
      rfl
    exact ⟨fun _ => hkilled, fun _ => rfl⟩

/-- Of two clients that have timed out, the second is not found in its slot. -/
theorem not_swept_twoIdle :
    Reachable cgiConfig (after cgiConfig [3] twoIdleAnswers) ∧
      (after cgiConfig [3] twoIdleAnswers).phase = .sweeping 0 2 ∧
      ¬ ∃ w', run cgiConfig [lateAnswers, lateAnswers] (after cgiConfig [3] twoIdleAnswers) =
          .ok () w' ∧
        Swept cgiConfig [lateAnswers, lateAnswers] (after cgiConfig [3] twoIdleAnswers) w' := by
  have hreach : Reachable cgiConfig (after cgiConfig [3] twoIdleAnswers) :=
    reachable_after (by decide +kernel) (by decide +kernel)
  have hphase : (after cgiConfig [3] twoIdleAnswers).phase = .sweeping 0 2 := by
    unfold after
    decide +kernel
  refine ⟨hreach, hphase, ?_⟩
  rw [swept_iff hreach.good hphase (hreach.sweeping_zero hphase) rfl]
  intro hlast
  have hclient : ((after cgiConfig [3] twoIdleAnswers).server.clients[0]?).map
      (fun c => (c.timeOfLastRead, c.cgiPid)) = some (0, -1) := by
    unfold after
    decide +kernel
  obtain ⟨c, hc, heq⟩ := Option.map_eq_some_iff.1 hclient
  have htime : TimedOut cgiConfig lateAnswers c := by
    unfold TimedOut
    have hlast : c.timeOfLastRead = 0 := congrArg Prod.fst heq
    rw [hlast]
    decide +kernel
  exact ((hlast 0 c lateAnswers hc rfl htime).2 (by decide)).2 (congrArg Prod.snd heq :)

end World

end Webserv
