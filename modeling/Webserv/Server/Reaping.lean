import Webserv.Server.RunTrace

/-!
# Reaping the children

`_reapChildCGIScripts` asserts that the client of a reaped CGI has written all its input: this is so
exactly when its pipe to the CGI is closed (`reapable_iff`). And it takes `errno` for the result of
`waitpid`: as long as no child is returned while `errno` is still `ECHILD`, the children are counted
right, and a reaped child leaves nothing behind (`unreapedCgiCount_eq`).
-/

namespace Webserv

open Server History

namespace Call

/-- The call starts a CGI. -/
def starts : Call → Bool
  | startCgi _ _ => true
  | _ => false

/-- The call returns a child. -/
def waits : Call → Bool
  | waitpid _ _ => true
  | _ => false

/-- The call returns a child, but `errno` says that there is none. -/
def IsStaleWait : Call → Bool
  | waitpid _ errno => errno = some .echild
  | _ => false

end Call

namespace History

/-- How many CGIs were started. -/
def started (calls : List Call) : ℕ := calls.countP Call.starts

/-- How many children were returned by `waitpid`. -/
def waited (calls : List Call) : ℕ := calls.countP Call.waits

/-- No child was returned by `waitpid` while `errno` was `ECHILD`. -/
def NoStaleErrno (calls : List Call) : Prop := ∀ call ∈ calls, call.IsStaleWait = false

instance (calls : List Call) : Decidable (NoStaleErrno calls) :=
  inferInstanceAs (Decidable (∀ call ∈ calls, _))

theorem NoStaleErrno.of_suffix {calls calls' : List Call} (h : NoStaleErrno calls')
    (hs : calls <:+ calls') : NoStaleErrno calls := fun call hmem => h call (hs.subset hmem)

end History

namespace Server

/-! ## The assertions of `_reapChildCGIScripts` -/

/-- The client is in the states that `_reapChildCGIScripts` asserts. -/
def Reapable (c : Client) : Prop :=
  c.clientToServerState = .done ∧ c.serverToCgiState = .done ∧ c.cgiToServerState ≠ .notReading ∧
    c.serverToClientState = .notWriting

variable {config : Config} {stage : Stage} {s s' : Server}

/-- The client of a CGI that can be reaped. -/
theorem Good.client_of_pid (hs : s.Good) (hlate : NoLateRead s.calls)
    (hearly : NoEarlyRemoval s.calls) {pid fd : ℤ} (hlookup : s.cgiPidToClientFd.lookup pid = some fd) :
    ∃ i c, s.fdToClientIndex.lookup fd = some i ∧ s.clients[i]? = some c ∧ c.clientFd = fd ∧
      c.cgiPid = pid ∧ pid ≠ -1 := by
  obtain ⟨c, hc, rfl, hpid, hne⟩ := (hs.orderly hlate hearly).reapable pid fd hlookup
  obtain ⟨i, hi⟩ := List.mem_iff_getElem?.1 hc
  exact ⟨i, c, hs.index_clientFd hi, hi, rfl, hpid, hne⟩

/-- A client with a CGI is as it is asserted to be once its pipe to the CGI is closed. -/
theorem Good.isReapable_iff (hs : s.Good) (hlate : NoLateRead s.calls)
    (hearly : NoEarlyRemoval s.calls) {i : ℕ} {c : Client} (hi : s.clients[i]? = some c)
    (hpid : c.cgiPid ≠ -1) : Reapable c ↔ c.serverToCgiFd = -1 := by
  have hc := hs.sound_at hi
  have hidle : c.serverToClientState ≠ .writing := fun hwriting =>
    hpid ((hs.orderly hlate hearly).finished c (List.mem_of_getElem? hi) hwriting).cgiPid
  constructor
  · rintro ⟨-, hwritten, -, -⟩
    by_contra hfd
    rw [hc.toCgi.1 hfd] at hwritten
    cases hwritten
  · intro hfd
    refine ⟨hc.done_of_cgiPid hpid, ?_, (hc.running hpid).2, (hc.idle hidle).1⟩
    cases hstate : c.serverToCgiState with
    | notWriting => exact absurd hstate (hc.running hpid).1
    | writing => exact absurd hfd (hc.toCgi.2 hstate)
    | done => rfl

end Server

namespace World

variable {config : Config} {w : World}

/-- **The client of a child can be reaped exactly when its pipe to the CGI is closed**: if no bytes
were read from a connection after its request was complete, and no removal was requested for a client
between the kill and the reaping of its CGI, then the client that `_reapChildCGIScripts` finds for a
child passes its assertions if and only if it does not hold a pipe to the CGI any more. -/
theorem reapable_iff (h : Reachable config w) (hlate : NoLateRead w.server.calls)
    (hearly : NoEarlyRemoval w.server.calls) {pid fd : ℤ}
    (hlookup : w.server.cgiPidToClientFd.lookup pid = some fd) :
    ∃ i c, w.server.fdToClientIndex.lookup fd = some i ∧ w.server.clients[i]? = some c ∧
      c.cgiPid = pid ∧ (Reapable c ↔ c.serverToCgiFd = -1) := by
  obtain ⟨i, c, hindex, hi, -, hpid, hne⟩ := h.good.server.client_of_pid hlate hearly hlookup
  exact ⟨i, c, hindex, hi, hpid, h.good.server.isReapable_iff hlate hearly hi (hpid ▸ hne)⟩

theorem reapable_iff_get : ∃ i c,
    (after cgiConfig [3] (cgiAnswers 4 getRequest 100)).server.fdToClientIndex.lookup 4 = some i ∧
    (after cgiConfig [3] (cgiAnswers 4 getRequest 100)).server.clients[i]? = some c ∧
    c.cgiPid = 100 ∧ (Reapable c ↔ c.serverToCgiFd = -1) := by
  have hreach : Reachable cgiConfig (after cgiConfig [3] (cgiAnswers 4 getRequest 100)) :=
    reachable_after (by decide +kernel) (by decide +kernel)
  have hlookup : (after cgiConfig [3] (cgiAnswers 4 getRequest 100)).server.cgiPidToClientFd.lookup
      100 = some 4 := by decide +kernel
  exact reapable_iff hreach (by decide +kernel) (by decide +kernel) hlookup

/-- A CGI that exits without reading its input is reaped while its client still writes to it. -/
theorem not_reapable_post : ¬ ∀ (config : Config) (w : World), Reachable config w → ∀ pid fd,
    pid ∈ w.server.children → w.server.cgiPidToClientFd.lookup pid = some fd → ∃ i c,
      w.server.fdToClientIndex.lookup fd = some i ∧ w.server.clients[i]? = some c ∧ Reapable c := by
  intro h
  have hreach : Reachable cgiConfig (after cgiConfig [3] (cgiAnswers 4 postRequest 100)) :=
    reachable_after (by decide +kernel) (by decide +kernel)
  have hchild : 100 ∈ (after cgiConfig [3] (cgiAnswers 4 postRequest 100)).server.children := by
    decide +kernel
  have hstates : (after cgiConfig [3] (cgiAnswers 4 postRequest 100)).server.clients.map
      Client.serverToCgiState = [.writing] := by decide +kernel
  obtain ⟨i, c, -, hi, -, hwritten, -⟩ := h _ _ hreach 100 4 hchild (by decide +kernel)
  have hmem : c.serverToCgiState ∈ (after cgiConfig [3]
      (cgiAnswers 4 postRequest 100)).server.clients.map Client.serverToCgiState :=
    List.mem_map_of_mem (List.mem_of_getElem? hi)
  rw [hstates, List.mem_singleton, hwritten] at hmem
  cases hmem

end World

/-! ## Counting the children -/

namespace Server

/-- The children are counted, whatever becomes of their clients. -/
structure Counted (s : Server) : Prop where
  count : s.unreapedCgiCount = started s.calls - waited s.calls
  children : s.unreapedCgiCount = s.children.card

/-- What is known of a CGI is known of a child that was not reaped. -/
structure Tracked (s : Server) : Prop where
  child : ∀ pid ∈ s.cgiPidToClientFd, pid ∈ s.children
  entry : ∀ c ∈ s.clients, c.cgiPid ≠ -1 → s.cgiPidToClientFd.lookup c.cgiPid = some c.clientFd

variable {config : Config} {stage : Stage} {s s' : Server} {calls new : List Call}

theorem started_append : started (new ++ calls) = started new + started calls := List.countP_append

theorem waited_append : waited (new ++ calls) = waited new + waited calls := List.countP_append

theorem counted_hangUpCalls (c : Client) :
    started (hangUpCalls c) = 0 ∧ waited (hangUpCalls c) = 0 := by
  unfold hangUpCalls
  split <;> exact ⟨rfl, rfl⟩

theorem counted_reapCalls (c : Client) (pid : ℤ) (errno : Option Errno) :
    started (reapCalls c pid errno) = 0 ∧ waited (reapCalls c pid errno) = 1 := by
  unfold reapCalls
  split <;> exact ⟨rfl, rfl⟩

theorem Change.counted {c c' : Client} (h : Change calls c new c') :
    started new = 0 ∧ waited new = 0 := by
  cases h with
  | note | kill | giveUp | writeBody | writeResponse | readCgi | remove => exact ⟨rfl, rfl⟩
  | read _ _ dispatched failed => cases dispatched <;> cases failed <;> exact ⟨rfl, rfl⟩

/-- Calls that neither start nor return a child. -/
theorem Counted.congr (h : s.Counted) (hcount : s'.unreapedCgiCount = s.unreapedCgiCount)
    (hchildren : s'.children = s.children) (hcalls : s'.calls = new ++ s.calls)
    (hnew : started new = 0 ∧ waited new = 0) : s'.Counted where
  count := by
    rw [hcount, hcalls, started_append, waited_append, hnew.1, hnew.2, h.count]
    simp
  children := by
    rw [hcount, hchildren, h.children]

/-- **Every action counts the children right**, if `errno` is not stale. -/
theorem Counted.action (h : s.Counted) (haction : Action config stage s s')
    (herrno : NoStaleErrno s'.calls) : s'.Counted := by
  have hnil : started [] = 0 ∧ waited [] = 0 := ⟨rfl, rfl⟩
  cases haction with
  | kernel | polled | stopReading | answer => exact h.congr rfl rfl rfl hnil
  | close fd | shutDown fd =>
    have hclose : started [.close fd true] = 0 ∧ waited [.close fd true] = 0 := ⟨rfl, rfl⟩
    exact h.congr rfl rfl rfl hclose
  | log call hneutral =>
    have hcall : started [call] = 0 ∧ waited [call] = 0 := by
      cases call <;> first | exact ⟨rfl, rfl⟩ | exact absurd hneutral id
    exact h.congr rfl rfl rfl hcall
  | change i c c' new _ hchange => exact h.congr rfl rfl rfl hchange.counted
  | start i c pid toCgi fromCgi _ _ hnew _ _ _ _ _ _ =>
    have hstart : started (.startCgi pid c :: .addFd fromCgi .cgiToServer ::
          toCgi.toList.map fun fd => Call.addFd fd .serverToCgi) = 1 ∧
        waited (.startCgi pid c :: .addFd fromCgi .cgiToServer ::
          toCgi.toList.map fun fd => Call.addFd fd .serverToCgi) = 0 := by
      cases toCgi <;> exact ⟨rfl, rfl⟩
    have hold := h.count
    constructor
    · change s.unreapedCgiCount + 1 = (started ((.startCgi pid c :: .addFd fromCgi .cgiToServer ::
          toCgi.toList.map fun fd => Call.addFd fd .serverToCgi) ++ s.calls) : ℤ) -
        waited ((.startCgi pid c :: .addFd fromCgi .cgiToServer ::
          toCgi.toList.map fun fd => Call.addFd fd .serverToCgi) ++ s.calls)
      rw [started_append, waited_append, hstart.1, hstart.2]
      push_cast
      omega
    · change s.unreapedCgiCount + 1 = ((insert pid s.children).card : ℤ)
      rw [Finset.card_insert_of_notMem hnew, h.children]
      push_cast
      rfl
  | release i c fdType k last new _ _ _ _ _ hnew =>
    have hclose : ∀ fd, started [.close fd true] = 0 ∧ waited [.close fd true] = 0 :=
      fun _ => ⟨rfl, rfl⟩
    have hcalls : started (new ++ [.close (c.fdOf fdType) true]) = 0 ∧
        waited (new ++ [.close (c.fdOf fdType) true]) = 0 := by
      rw [started_append, waited_append, (hclose _).1, (hclose _).2]
      rcases hnew with ⟨rfl, -⟩ | ⟨-, rfl⟩
      · exact hnil
      · exact counted_hangUpCalls _
    exact h.congr rfl rfl (List.append_cons _ _ _) hcalls
  | orphan i c d => exact h.congr rfl rfl rfl (counted_hangUpCalls d)
  | wait pid count hpid hcount =>
    have hcard : (s.children.erase pid).card + 1 = s.children.card := Finset.card_erase_add_one hpid
    have hcount' : count = s.unreapedCgiCount - 1 := by
      rcases hcount with ⟨hechild, -⟩ | ⟨-, hcount⟩
      · have hstale := herrno _ List.mem_cons_self
        simp [Call.IsStaleWait, hechild] at hstale
      · exact hcount
    have hold := h.count
    have hchildren := h.children
    have hnew : started [.waitpid pid s.errno] = 0 ∧ waited [.waitpid pid s.errno] = 1 := ⟨rfl, rfl⟩
    constructor
    · change count = (started ([.waitpid pid s.errno] ++ s.calls) : ℤ) -
        waited ([.waitpid pid s.errno] ++ s.calls)
      rw [started_append, waited_append, hnew.1, hnew.2]
      push_cast
      omega
    · change count = ((s.children.erase pid).card : ℤ)
      omega
  | reap i c pid clientFd status _ hchild =>
    have hcard : (s.children.erase pid).card + 1 = s.children.card := Finset.card_erase_add_one hchild
    have hnew := counted_reapCalls { c with cgiPid := -1, cgiExitStatus := status } pid s.errno
    have hold := h.count
    have hchildren := h.children
    constructor
    · change s.unreapedCgiCount - 1 = _
      rw [started_append, waited_append, hnew.1, hnew.2]
      push_cast
      omega
    · change s.unreapedCgiCount - 1 = ((s.children.erase pid).card : ℤ)
      omega
  | accept fd =>
    have haccept : started [.acceptClient fd, .addFd fd .client] = 0 ∧
        waited [.acceptClient fd, .addFd fd .client] = 0 := ⟨rfl, rfl⟩
    exact h.congr rfl rfl rfl haccept
  | erase i c last this src =>
    have herase : started [.assign this src, .close c.clientFd true] = 0 ∧
        waited [.assign this src, .close c.clientFd true] = 0 := ⟨rfl, rfl⟩
    exact h.congr rfl rfl rfl herase
  | listen fd =>
    have hlisten : started [.addFd fd .server] = 0 ∧ waited [.addFd fd .server] = 0 := ⟨rfl, rfl⟩
    exact h.congr rfl rfl rfl hlisten

theorem tracked_empty : empty.Tracked where
  child _ hpid := absurd hpid Finmap.notMem_empty
  entry _ hc := nomatch hc

theorem Tracked.congr (h : s.Tracked) (hpids : s'.cgiPidToClientFd = s.cgiPidToClientFd)
    (hchildren : s'.children = s.children) (hclients : ∀ c' ∈ s'.clients, c'.cgiPid ≠ -1 →
      ∃ c ∈ s.clients, c.cgiPid = c'.cgiPid ∧ c.clientFd = c'.clientFd) : s'.Tracked where
  child pid hpid := by
    rw [hchildren]
    exact h.child pid (hpids ▸ hpid)
  entry c' hc' hne := by
    obtain ⟨c, hc, hpid, hfd⟩ := hclients c' hc' hne
    rw [hpids, ← hpid, ← hfd]
    exact h.entry c hc (hpid ▸ hne)

/-- Changing one client, but not its CGI. -/
theorem Tracked.set_client (h : s.Tracked) {i : ℕ} {c c' : Client} (hi : s.clients[i]? = some c)
    (hpids : s'.cgiPidToClientFd = s.cgiPidToClientFd) (hchildren : s'.children = s.children)
    (hclients : s'.clients = s.clients.set i c') (hpid : c'.cgiPid = c.cgiPid)
    (hfd : c'.clientFd = c.clientFd) : s'.Tracked := by
  refine h.congr hpids hchildren fun d hd _ => ?_
  rw [hclients] at hd
  rcases List.mem_or_eq_of_mem_set hd with hd | rfl
  · exact ⟨d, hd, rfl, rfl⟩
  · exact ⟨c, List.mem_of_getElem? hi, hpid.symm, hfd.symm⟩

/-- Reaping a child of which nothing is known any more. -/
theorem Tracked.wait (h : s.Tracked) {pid : ℤ} (hpid : pid ∉ s.cgiPidToClientFd)
    (hpids : s'.cgiPidToClientFd = s.cgiPidToClientFd) (hchildren : s'.children = s.children.erase pid)
    (hclients : s'.clients = s.clients) : s'.Tracked where
  child pid' hpid' := by
    rw [hpids] at hpid'
    rw [hchildren]
    exact Finset.mem_erase.2 ⟨fun heq => hpid (heq ▸ hpid'), h.child pid' hpid'⟩
  entry c hc := by
    rw [hclients] at hc
    rw [hpids]
    exact h.entry c hc

/-- Reaping the CGI of a client. -/
theorem Tracked.reap (h : s.Tracked) {i : ℕ} {c c' : Client} {pid : ℤ}
    (hi : s.clients[i]? = some c) (hcgi : c.cgiPid = pid)
    (hpids : s'.cgiPidToClientFd = s.cgiPidToClientFd.erase c.cgiPid)
    (hchildren : s'.children = s.children.erase pid) (hclients : s'.clients = s.clients.set i c')
    (hreaped : c'.cgiPid = -1) (hdistinct : ∀ j d, s.clients[j]? = some d → j ≠ i →
      d.clientFd ≠ c.clientFd) : s'.Tracked where
  child pid' hpid' := by
    rw [hpids, Finmap.mem_erase, hcgi] at hpid'
    rw [hchildren]
    exact Finset.mem_erase.2 ⟨hpid'.1, h.child pid' hpid'.2⟩
  entry d hd hne := by
    rw [hclients] at hd
    obtain ⟨j, hj⟩ := List.mem_iff_getElem?.1 hd
    rcases getElem?_set_cases hj with ⟨rfl, rfl⟩ | ⟨hji, hj⟩
    · exact absurd hreaped hne
    · have hentry := h.entry d (List.mem_of_getElem? hj) hne
      have hentry' := h.entry c (List.mem_of_getElem? hi)
      rw [hpids, Map.lookup_erase_eq, if_neg ?_]
      · exact hentry
      · -- no two clients have the same CGI
        intro heq
        rw [heq] at hentry hne
        exact hdistinct j d hj hji (Option.some.inj (hentry.symm.trans (hentry' hne)))

/-- Starting a CGI for a client that has none. -/
theorem Tracked.start (h : s.Tracked) {i : ℕ} {c c' : Client} {pid : ℤ}
    (hnew : pid ∉ s.children) (hpids : s'.cgiPidToClientFd = s.cgiPidToClientFd.emplace pid c.clientFd)
    (hchildren : s'.children = insert pid s.children) (hclients : s'.clients = s.clients.set i c')
    (hpid : c'.cgiPid = pid) (hfd : c'.clientFd = c.clientFd) : s'.Tracked := by
  have hfree : pid ∉ s.cgiPidToClientFd := fun hmem => hnew (h.child pid hmem)
  rw [Map.emplace_of_notMem hfree] at hpids
  constructor
  · intro pid' hpid'
    rw [hpids] at hpid'
    rw [hchildren]
    rcases Finmap.mem_insert.1 hpid' with rfl | hpid'
    · exact Finset.mem_insert_self _ _
    · exact Finset.mem_insert_of_mem (h.child pid' hpid')
  · intro d hd hne
    rw [hclients] at hd
    rw [hpids, Map.lookup_insert_eq]
    rcases List.mem_or_eq_of_mem_set hd with hd | rfl
    · have hentry := h.entry d hd hne
      have hother : d.cgiPid ≠ pid := fun heq => hfree (heq ▸ Map.mem_of_lookup hentry)
      rw [if_neg hother]
      exact hentry
    · rw [if_pos hpid, hfd]

theorem cgiPid_started {c : Client} {pid fromCgi : ℤ} {toCgi : Option ℤ} :
    (c.started pid toCgi fromCgi).cgiPid = pid := by
  cases toCgi <;> rfl

/-- **Every action tracks the CGIs**, if `errno` is not stale and the server is orderly. -/
theorem Tracked.action (h : s.Tracked) (hs : s.Good) (haction : Action config stage s s')
    (herrno : NoStaleErrno s'.calls) (hlate : NoLateRead s'.calls) (hearly : NoEarlyRemoval s'.calls) :
    s'.Tracked := by
  have hlate' := hlate.of_suffix haction.suffix
  have hearly' := hearly.of_suffix haction.suffix
  have hsame : ∀ c' ∈ s.clients, c'.cgiPid ≠ -1 →
      ∃ c ∈ s.clients, c.cgiPid = c'.cgiPid ∧ c.clientFd = c'.clientFd :=
    fun c' hc' _ => ⟨c', hc', rfl, rfl⟩
  cases haction with
  | kernel | close | polled | log | orphan | listen | shutDown => exact h.congr rfl rfl hsame
  | change i c c' new hi hchange =>
    exact h.set_client hi rfl rfl rfl hchange.cgiPid hchange.clientFd
  | stopReading i c k pfd hi _ _ _ => exact h.set_client hi rfl rfl rfl rfl rfl
  | answer i c c' k pfd hi _ _ _ hsent _ _ _ _ =>
    exact h.set_client hi rfl rfl rfl (congrArg Client.cgiPid hsent :)
      (congrArg Client.clientFd hsent :)
  | start i c pid toCgi fromCgi hi _ hnew _ _ _ _ _ _ =>
    exact h.start hnew rfl rfl rfl cgiPid_started Client.clientFd_started
  | release i c fdType k last new hi hpipe _ _ _ _ =>
    exact h.set_client hi rfl rfl rfl (Client.cgiPid_release hpipe) (Client.clientFd_release hpipe)
  | wait pid count hpid hcount =>
    rcases hcount with ⟨hechild, -⟩ | ⟨hnone, -⟩
    · have hstale := herrno _ List.mem_cons_self
      simp [Call.IsStaleWait, hechild] at hstale
    · exact h.wait hnone rfl rfl rfl
  | reap i c pid clientFd status hi _ _ hlookup hindex _ _ _ _ =>
    obtain ⟨j, d, hindex', hj, -, hpid, -⟩ := hs.client_of_pid hlate' hearly' hlookup
    obtain rfl := Option.some.inj (hindex'.symm.trans hindex)
    obtain rfl := Option.some.inj (hj.symm.trans hi)
    refine h.reap hi hpid rfl rfl rfl rfl fun j' d' hj' hne heq => ?_
    have hindex₁ := hs.index_clientFd hj'
    rw [heq, hs.index_clientFd hi] at hindex₁
    exact hne (Option.some.inj hindex₁).symm
  | accept fd serverFd serverPort _ =>
    refine h.congr rfl rfl fun d hd hne => ?_
    rcases List.mem_append.1 hd with hd | hd
    · exact ⟨d, hd, rfl, rfl⟩
    · rw [List.mem_singleton.1 hd] at hne
      exact absurd rfl hne
  | erase i c last this src k lastPfd hi hlast _ _ _ _ _ _ _ =>
    refine h.congr rfl rfl fun d hd hne => ?_
    rcases mem_of_mem_removed hd with hd | rfl
    · exact ⟨d, hd, rfl, rfl⟩
    · exact ⟨last, List.mem_of_getLast? hlast, rfl, rfl⟩

end Server

namespace World

variable {config : Config} {w : World}

/-- **No exit of a CGI is lost**, as long as no child is returned by `waitpid` while `errno` is still
`ECHILD`: `_unreaped_cgi_count` is the number of the CGIs that were started minus the number of the
children that were returned, and it is never negative. If, besides, no bytes were read from a
connection after its request was complete and no removal was requested for a client between the kill
and the reaping of its CGI, then what was returned is neither in `_cgi_pid_to_client_fd` nor the CGI of
a client. -/
theorem unreapedCgiCount_eq (h : Reachable config w) (herrno : NoStaleErrno w.server.calls) :
    w.server.unreapedCgiCount = started w.server.calls - waited w.server.calls ∧
      0 ≤ w.server.unreapedCgiCount ∧
      (NoLateRead w.server.calls → NoEarlyRemoval w.server.calls → ∀ pid ∉ w.server.children,
        pid ∉ w.server.cgiPidToClientFd ∧ ∀ c ∈ w.server.clients, c.cgiPid = pid → pid = -1) := by
  have hcounted : w.server.Counted := by
    refine h.invariant (I := fun s => NoStaleErrno s.calls → s.Counted) (fun _ => ⟨rfl, rfl⟩) ?_ herrno
    intro stage s s' _ hold haction herrno'
    exact (hold (herrno'.of_suffix haction.suffix)).action haction herrno'
  refine ⟨hcounted.count, by rw [hcounted.children]; exact Int.natCast_nonneg _, ?_⟩
  intro hlate hearly pid hpid
  have htracked : w.server.Tracked := by
    refine h.invariant (I := fun s => NoStaleErrno s.calls → NoLateRead s.calls →
      NoEarlyRemoval s.calls → s.Tracked) (fun _ _ _ => tracked_empty) ?_ herrno hlate hearly
    intro stage s s' hs hold haction herrno' hlate' hearly'
    exact (hold (herrno'.of_suffix haction.suffix) (hlate'.of_suffix haction.suffix)
      (hearly'.of_suffix haction.suffix)).action hs haction herrno' hlate' hearly'
  refine ⟨fun hmem => hpid (htracked.child pid hmem), fun c hc heq => ?_⟩
  by_contra hne
  have hentry := htracked.entry c hc (heq ▸ hne)
  rw [heq] at hentry
  exact hpid (htracked.child pid (Map.mem_of_lookup hentry))

/-- A client asks for a CGI without a body, and the CGI exits. -/
def exitAnswers (clientFd pid : ℤ) : List Answers :=
  cgiAnswers clientFd getRequest pid ++ ([{}, { waitpid := some (pid, some 0) }] : List Answers)

theorem unreapedCgiCount_eq_exit : started (after cgiConfig [3] (exitAnswers 4 100)).server.calls = 1 ∧
    (after cgiConfig [3] (exitAnswers 4 100)).server.unreapedCgiCount =
      started (after cgiConfig [3] (exitAnswers 4 100)).server.calls -
        waited (after cgiConfig [3] (exitAnswers 4 100)).server.calls := by
  have hreach : Reachable cgiConfig (after cgiConfig [3] (exitAnswers 4 100)) :=
    reachable_after (by decide +kernel) (by decide +kernel)
  exact ⟨by decide +kernel, (unreapedCgiCount_eq hreach (by decide +kernel)).1⟩

/-- The first CGI is reaped, after which `waitpid` has left `ECHILD` in `errno`; then a second CGI
exits. -/
def twoExitsAnswers : List Answers :=
  exitAnswers 4 100 ++ ([{}, {}, {},
    { poll := some fun fd => { pollin := fd = 3 } }, {}, {}, { accept := some 9 }, {},
    { poll := some fun fd => { pollin := fd = 9 } },
    { read := some getRequest, serverToCgiPipe := some (5, 6), cgiToServerPipe := some (10, 8)
      fork := some 101 }, {}, {}, {}, {}, {}, { waitpid := some (101, some 0) }] : List Answers)

/-- The exit of the second CGI is lost. -/
theorem not_unreapedCgiCount_eq_twoExits : ¬ ∀ (config : Config) (w : World), Reachable config w →
    w.server.unreapedCgiCount = started w.server.calls - waited w.server.calls := by
  intro h
  have hreach : Reachable cgiConfig (after cgiConfig [3] twoExitsAnswers) :=
    reachable_after (by decide +kernel) (by decide +kernel)
  have hcount : (after cgiConfig [3] twoExitsAnswers).server.unreapedCgiCount = 1 := by
    decide +kernel
  have hstarted : started (after cgiConfig [3] twoExitsAnswers).server.calls = 2 := by decide +kernel
  have hwaited : waited (after cgiConfig [3] twoExitsAnswers).server.calls = 2 := by decide +kernel
  have heq := h _ _ hreach
  rw [hcount, hstarted, hwaited] at heq
  omega

end World

end Webserv
