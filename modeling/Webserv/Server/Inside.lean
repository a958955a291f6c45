import Webserv.Server.Growth
import Webserv.Server.Pass

/-!
# The index of the loop over `_pfds`

The events of one descriptor take at most two entries out of `_pfds`, while the index of the loop goes
down by one. So the index gets past the end exactly when the last entry is handled and takes another
one with it: when the output of a CGI ends before its input was written, or when a client is erased
that still holds the pipe from its CGI (`TakesTwo`).
-/

namespace Webserv

open Exec Server History

namespace Server

variable {config : Config} {env : Answers} {s s' s'' : Server} {m n i k : ℕ} {fd : ℤ} {c : Client}

/-! ## How many entries a function removes -/

/-- At most a number of entries are taken out of `_pfds`. -/
def Shrinks (m : ℕ) (s s' : Server) : Prop := s.pfds.length ≤ s'.pfds.length + m

theorem Shrinks.trans (h : Shrinks m s s') (h' : Shrinks n s' s'') : Shrinks (m + n) s s'' := by
  unfold Shrinks at *
  omega

theorem Shrinks.mono (h : Shrinks m s s') (hle : m ≤ n) : Shrinks n s s' := by
  unfold Shrinks at *
  omega

theorem Shrinks.of_eq (h : s'.pfds.length = s.pfds.length) : Shrinks 0 s s' := h.ge

theorem Grown.shrinks (h : Grown s s') : Shrinks 0 s s' := h.length_le

theorem shrinks_unregister {last : Pollfd} (h : s'.pfds = (s.pfds.set k last).dropLast) :
    Shrinks 1 s s' := by
  rw [Shrinks, h, List.length_dropLast, List.length_set]
  omega

/-- Closing the pipe of a client. -/
theorem removePipeFd_shrinks {fdType : FdType} {u : Unit} (h : removePipeFd fdType fd s = .ok u s')
    (hindex : s.fdToClientIndex.lookup fd = some i) (hi : s.clients[i]? = some c) :
    Shrinks (if c.fdOf fdType = -1 then 0 else 1) s s' := by
  obtain ⟨i', c', hindex', hi', hcases⟩ := removePipeFd_ok h
  obtain rfl := Option.some.inj (hindex'.symm.trans hindex)
  obtain rfl : c' = c := Option.some.inj (hi'.symm.trans hi)
  rcases hcases with ⟨hnone, rfl⟩ | ⟨hfd, j, last, -, -, rfl⟩
  · exact .mono (.of_eq rfl) (Nat.zero_le _)
  · rw [if_neg hfd]
    exact shrinks_unregister rfl

theorem removePipeFd_shrinks_one {fdType : FdType} {u : Unit}
    (h : removePipeFd fdType fd s = .ok u s') : Shrinks 1 s s' := by
  obtain ⟨i, c, hindex, hi, -⟩ := removePipeFd_ok h
  refine (removePipeFd_shrinks h hindex hi).mono ?_
  split_ifs <;> decide

theorem killCgi_shrinks {u : Unit} (h : killCgi env fd s = .ok u s') : Shrinks 1 s s' := by
  obtain ⟨i, c, -, -, ⟨-, rfl⟩ | ⟨-, hremove⟩⟩ := killCgi_ok h
  · exact .mono (.of_eq rfl) (Nat.zero_le _)
  · have hpipe := removePipeFd_shrinks_one hremove
    exact hpipe

/-- Without a CGI there is nothing to kill. -/
theorem killCgi_idle {u : Unit} (h : killCgi env fd s = .ok u s')
    (hindex : s.fdToClientIndex.lookup fd = some i) (hi : s.clients[i]? = some c)
    (hpid : c.cgiPid = -1) : s = s' := by
  obtain ⟨i', c', hindex', hi', hcases⟩ := killCgi_ok h
  obtain rfl := Option.some.inj (hindex'.symm.trans hindex)
  obtain rfl : c' = c := Option.some.inj (hi'.symm.trans hi)
  exact (hcases.resolve_right fun hkill => hkill.1 hpid).2

/-- A client that holds the pipe from its CGI when `_removeClient` erases it. -/
def ErasesPipe (c : Client) : Prop := c.cgiToServerFd ≠ -1 ∧ (c.cgiKilled = true ∨ c.cgiPid = -1)

instance (c : Client) : Decidable (ErasesPipe c) := inferInstanceAs (Decidable (_ ∧ _))

theorem removeClient_shrinks {u : Unit} (h : removeClient env fd s = .ok u s')
    (hindex : s.fdToClientIndex.lookup fd = some i) (hi : s.clients[i]? = some c) :
    Shrinks (if ErasesPipe c then 2 else 1) s s' := by
  obtain ⟨i', c', j, pfd, s₁, hindex', hi', -, -, rfl, hcases⟩ := removeClient_ok h
  obtain rfl := Option.some.inj (hindex'.symm.trans hindex)
  obtain rfl : c' = c := Option.some.inj (hi'.symm.trans hi)
  have hmark : ∀ {s₂ : Server}, s₂.pfds = s.pfds.set j pfd.withoutPollin → Shrinks 0 s s₂ := by
    intro s₂ heq
    refine .of_eq ?_
    rw [heq, List.length_set]
  rcases hcases with ⟨-, -, hkill⟩ | ⟨hkeep, herase⟩
  · refine ((hmark rfl).trans (killCgi_shrinks hkill)).mono ?_
    split_ifs <;> decide
  · obtain ⟨s₁, c₁, j', last, this, src, k', lastPfd, hremove, -, -, -, -, -, -, -, rfl⟩ :=
      eraseClient_ok herase
    have hpipe : Shrinks (if c'.cgiToServerFd = -1 then 0 else 1) _ s₁ :=
      removePipeFd_shrinks (c := { c' with beingRemoved := true, clientToServerState := .done })
        hremove hindex (getElem?_set_self_of hi _)
    refine (((hmark rfl).trans hpipe).trans (shrinks_unregister rfl)).mono ?_
    have hends : c'.cgiToServerFd ≠ -1 → ErasesPipe c' := by
      refine fun hheld => ⟨hheld, ?_⟩
      rw [not_and_or, not_not, Bool.not_eq_false] at hkeep
      exact hkeep
    by_cases hheld : c'.cgiToServerFd = -1
    · rw [if_pos hheld]
      split_ifs <;> decide
    · rw [if_neg hheld, if_pos (hends hheld)]

/-! ## Answering -/

theorem disableReadingFromClient_shrinks {u : Unit} (h : disableReadingFromClient i s = .ok u s') :
    Shrinks 0 s s' := by
  obtain ⟨c, j, pfd, -, -, -, rfl⟩ := disableReadingFromClient_ok h
  exact .of_eq (List.length_set ..)

/-- Only killing the CGI removes something. -/
theorem answerException_shrinks {status : Status} {u : Unit}
    (h : answerException config env status i s = .ok u s') : ∃ c s₁, s.clients[i]? = some c ∧
      killCgi env c.clientFd { s with clients := s.clients.set i { c with status := status } } =
        .ok () s₁ ∧ Shrinks 0 s₁ s' := by
  obtain ⟨_, s₁, hstatus, h⟩ := bind_eq_ok h
  obtain ⟨c, hi, rfl⟩ := modifyClient_ok hstatus
  obtain ⟨c₁, _, hclient, h⟩ := bind_eq_ok h
  obtain ⟨rfl, hi₁⟩ := clientAt_ok hclient
  obtain rfl := Option.some.inj (hi₁.symm.trans (getElem?_set_self_of hi _))
  obtain ⟨_, s₂, hkill, h⟩ := bind_eq_ok h
  obtain ⟨_, s₃, hdisable, h⟩ := bind_eq_ok h
  obtain ⟨server, _, hserver, h⟩ := bind_eq_ok h
  obtain rfl := getServer_ok hserver
  exact ⟨c, s₂, hi, hkill, (disableReadingFromClient_shrinks hdisable).trans
    (growing_respond i _ _ _ _ h).shrinks⟩

theorem respondClientException_shrinks {status : Status} {u : Unit}
    (h : respondClientException config env status i s = .ok u s') : Shrinks 1 s s' := by
  obtain ⟨c, _, hclient, h⟩ := bind_eq_ok h
  obtain ⟨rfl, -⟩ := clientAt_ok hclient
  obtain ⟨_, s₁, hlog, h⟩ := bind_eq_ok h
  obtain rfl := log_ok hlog
  obtain ⟨c', s₂, -, hkill, hrest⟩ := answerException_shrinks h
  exact (killCgi_shrinks hkill).trans hrest

/-- The end of a CGI that was reaped. -/
theorem cgiEnd_shrinks {u : Unit} (h : cgiEnd config env i s = .ok u s')
    (hi : s.clients[i]? = some c) (hindex : s.fdToClientIndex.lookup c.clientFd = some i)
    (hpid : c.cgiPid = -1) : Shrinks 0 s s' := by
  obtain ⟨c₁, _, hclient, h⟩ := bind_eq_ok h
  obtain ⟨rfl, hi₁⟩ := clientAt_ok hclient
  obtain rfl : c₁ = c := Option.some.inj (hi₁.symm.trans hi)
  obtain ⟨_, s₁, hlog, h⟩ := bind_eq_ok h
  obtain rfl := log_ok hlog
  unfold answerCgi at h
  rw [run_ite] at h
  split_ifs at h
  · obtain ⟨c₂, _, hclient, h⟩ := bind_eq_ok h
    obtain ⟨rfl, -⟩ := clientAt_ok hclient
    obtain ⟨_, s₂, hlog, h⟩ := bind_eq_ok h
    obtain rfl := log_ok hlog
    obtain ⟨c₃, s₃, hi₃, hkill, hrest⟩ := answerException_shrinks h
    obtain rfl : c₃ = c₁ := Option.some.inj (hi₃.symm.trans hi)
    obtain rfl := killCgi_idle hkill hindex (getElem?_set_self_of hi _) hpid
    exact hrest
  · obtain ⟨_, s₂, hextract, h⟩ := bind_eq_ok h
    exact ((growing_onClient i _ _ _ _ hextract).trans (growing_respond i _ _ _ _ h)).shrinks

/-- Closing a pipe of a client leaves its other descriptors alone. -/
theorem removePipeFd_client {fdType : FdType} {u : Unit} (h : removePipeFd fdType fd s = .ok u s')
    (hindex : s.fdToClientIndex.lookup fd = some i) (hi : s.clients[i]? = some c) :
    ∃ c', s'.clients[i]? = some c' ∧ (c' = c ∨ c' = c.release fdType) ∧
      (s'.fdToClientIndex = s.fdToClientIndex ∨ (c.fdOf fdType ≠ -1 ∧
        s'.fdToClientIndex = s.fdToClientIndex.erase (c.fdOf fdType))) := by
  obtain ⟨i', c', hindex', hi', hcases⟩ := removePipeFd_ok h
  obtain rfl := Option.some.inj (hindex'.symm.trans hindex)
  obtain rfl : c' = c := Option.some.inj (hi'.symm.trans hi)
  rcases hcases with ⟨-, rfl⟩ | ⟨hfd, j, last, -, -, rfl⟩
  · exact ⟨c', hi, .inl rfl, .inl rfl⟩
  · exact ⟨_, getElem?_set_self_of hi _, .inr rfl, .inr ⟨hfd, rfl⟩⟩

theorem lookup_of_erased {index index' : Map ℤ ℕ} {fd fd' : ℤ}
    (h : index' = index ∨ (fd' ≠ -1 ∧ index' = index.erase fd')) (hne : fd' ≠ -1 → fd ≠ fd') :
    index'.lookup fd = index.lookup fd := by
  rcases h with rfl | ⟨hfd', rfl⟩
  · rfl
  · exact Finmap.lookup_erase_ne (hne hfd')

/-- The end of the output of a CGI closes the pipes that its client holds. -/
theorem pollhupCgiToServer_shrinks {u : Unit} (hs : s.Good)
    (h : pollhupCgiToServer config env fd s = .ok u s')
    (hindex : s.fdToClientIndex.lookup fd = some i) (hi : s.clients[i]? = some c) :
    Shrinks ((if c.serverToCgiFd = -1 then 0 else 1) + if c.cgiToServerFd = -1 then 0 else 1) s s' := by
  obtain ⟨i', _, hget, h⟩ := bind_eq_ok h
  obtain ⟨rfl, hindex', -⟩ := getClient_ok hget
  obtain rfl := Option.some.inj (hindex'.symm.trans hindex)
  obtain ⟨_, s₁, hmodify, h⟩ := bind_eq_ok h
  obtain ⟨c₁, hi₁, rfl⟩ := modifyClient_ok hmodify
  obtain rfl : c₁ = c := Option.some.inj (hi₁.symm.trans hi)
  have hi₂ := getElem?_set_self_of hi { c₁ with clientToServerState := .done }
  obtain ⟨_, s₂, hto, h⟩ := bind_eq_ok h
  obtain ⟨_, s₃, hfrom, h⟩ := bind_eq_ok h
  have htoShrinks : Shrinks (if c₁.serverToCgiFd = -1 then 0 else 1) s s₂ :=
    removePipeFd_shrinks (c := { c₁ with clientToServerState := .done }) hto hindex hi₂
  obtain ⟨c₂, hi₃, hc₂, hindex₂⟩ := removePipeFd_client hto hindex hi₂
  have hfds : ∀ fdType, fdType ≠ .serverToCgi → c₂.fdOf fdType = c₁.fdOf fdType := by
    intro fdType hne
    rcases hc₂ with rfl | rfl
    · cases fdType <;> rfl
    · cases fdType <;> first | rfl | exact absurd rfl hne
  obtain ⟨j, d, hj, hd, -⟩ := removePipeFd_ok hfrom
  -- the descriptor still leads to the same client
  have hji : j = i' := by
    rcases hindex₂ with heq | ⟨-, heq⟩
    · rw [heq] at hj
      exact Option.some.inj (hj.symm.trans hindex)
    · rw [heq, Map.lookup_erase_eq] at hj
      split_ifs at hj
      exact Option.some.inj (hj.symm.trans hindex)
  subst hji
  have hfromShrinks : Shrinks (if c₂.fdOf .cgiToServer = -1 then 0 else 1) s₂ s₃ :=
    removePipeFd_shrinks hfrom hj hi₃
  rw [hfds .cgiToServer nofun] at hfromShrinks
  have hclosed := htoShrinks.trans hfromShrinks
  obtain ⟨c₃, hi₄, hc₃, hindex₃⟩ := removePipeFd_client hfrom hj hi₃
  obtain ⟨c₄, _, hclient, h⟩ := bind_eq_ok h
  obtain ⟨rfl, hi₅⟩ := clientAt_ok hclient
  obtain rfl : c₄ = c₃ := Option.some.inj (hi₅.symm.trans hi₄)
  obtain ⟨_, s₄, hlog, h⟩ := bind_eq_ok h
  obtain rfl := log_ok hlog
  rw [run_ite] at h
  split_ifs at h with hpid
  · have hfd : c₄.clientFd = c₁.clientFd := by
      rcases hc₃ with rfl | rfl
      · exact hfds .client nofun
      · exact hfds .client nofun
    have hindex₄ : s₃.fdToClientIndex.lookup c₄.clientFd = some j := by
      have hne : ∀ fdType, fdType ≠ .client → c₁.fdOf fdType ≠ -1 → c₁.clientFd ≠ c₁.fdOf fdType := by
        intro fdType hother _ heq
        have heq' : c₁.fdOf .client = c₁.fdOf fdType := heq
        exact hother (hs.toOwners.unique hi hi heq' (hs.clientFd_ne hi)).2.symm
      rw [hfd, lookup_of_erased hindex₃, lookup_of_erased hindex₂]
      · exact hs.index_clientFd hi
      · exact hne .serverToCgi nofun
      · rw [hfds .cgiToServer nofun]
        exact hne .cgiToServer nofun
    have hend := cgiEnd_shrinks h hi₄ hindex₄ hpid
    exact hclosed.trans hend
  · cases h
    exact hclosed

/-! ## Reading and writing -/

/-- What decides how many entries are removed with a client. -/
def holding (c : Client) : ℤ × ℤ × Bool × ℤ := (c.clientFd, c.cgiToServerFd, c.cgiKilled, c.cgiPid)

theorem erasesPipe_congr {c' : Client} (h : holding c' = holding c) : ErasesPipe c' ↔ ErasesPipe c := by
  simp only [holding, Prod.mk.injEq] at h
  rw [ErasesPipe, ErasesPipe, h.2.1, h.2.2.1, h.2.2.2]

/-- A program that answers a request: it adds an entry to `_pfds`, or the clients hold what they
held. -/
def Steady (x : ServerM Unit) : Prop := ∀ s u s', x s = .ok u s' →
  s.pfds.length < s'.pfds.length ∨ s'.clients.map holding = s.clients.map holding

theorem Steady.fail (e : Fault) : Steady (throw e) := fun _ _ _ h => by cases h

theorem Steady.ite {p : Prop} [Decidable p] {x y : ServerM Unit} (hx : Steady x) (hy : Steady y) :
    Steady (if p then x else y) := by
  split
  · exact hx
  · exact hy

theorem Steady.bind {α : Type} {x : ServerM α} {f : α → ServerM Unit} (hx : Reads x)
    (hf : ∀ a, Steady (f a)) : Steady (x >>= f) := by
  intro s u s' h
  obtain ⟨a, s₁, h₁, h⟩ := bind_eq_ok h
  have hsame := hx s
  rw [h₁] at hsame
  obtain rfl : s = s₁ := hsame.symm
  exact hf a s u s' h

theorem Steady.bind_throw {x : ServerM Unit} (e : Fault) : Steady (x >>= fun _ => throw e) := by
  intro s u s' h
  obtain ⟨_, _, -, h⟩ := bind_eq_ok h
  cases h

theorem Steady.respond {method : ClientM Unit} (hkeeps : Keeps Client.unanswered method) (i : ℕ) :
    Steady (onClient i method >>= fun _ => enableWritingToClient i) := by
  intro s u s' h
  obtain ⟨_, s₁, hrespond, h⟩ := bind_eq_ok h
  obtain ⟨c, c', hi, hmethod, rfl⟩ := onClient_ok hrespond
  obtain ⟨c₂, k, pfd, hi₂, -, -, rfl⟩ := enableWritingToClient_ok h
  obtain rfl := Option.some.inj (hi₂.symm.trans (getElem?_set_self_of hi _))
  have hsame := hkeeps c
  rw [hmethod] at hsame
  refine .inr ?_
  simp only [List.set_set]
  refine map_set_of_eq hi ?_
  exact (congrArg (holding ∘ fun d : Client => { d with serverToClientState := .writing }) hsame :)

/-- Starting a CGI adds an entry. -/
theorem steady_startCgi (i : ℕ) : Steady (startCgi env i) := by
  intro s u s' h
  refine .inl ?_
  obtain ⟨toCgi, s₁, hto, h⟩ := bind_eq_ok h
  obtain ⟨fromCgi, s₂, hfrom, h⟩ := bind_eq_ok h
  obtain ⟨pid, s₃, hfork, h⟩ := bind_eq_ok h
  obtain ⟨_, s₄, hclose, h⟩ := bind_eq_ok h
  obtain ⟨_, s₅, hclose', h⟩ := bind_eq_ok h
  obtain ⟨c, _, hclient, h⟩ := bind_eq_ok h
  obtain ⟨rfl, -⟩ := clientAt_ok hclient
  obtain ⟨_, s₆, hmodify, h⟩ := bind_eq_ok h
  obtain ⟨_, _, ⟨⟩, h⟩ := bind_eq_ok h
  obtain ⟨_, _, ⟨⟩, h⟩ := bind_eq_ok h
  obtain ⟨j, _, hlookup, h⟩ := bind_eq_ok h
  obtain ⟨rfl, -⟩ := lookupAt_ok hlookup
  obtain ⟨_, s₇, hconnect, h⟩ := bind_eq_ok h
  obtain ⟨_, s₈, hconnect', h⟩ := bind_eq_ok h
  obtain ⟨_, _, ⟨⟩, h⟩ := bind_eq_ok h
  cases h
  have h₅ := ((((growing_pipe _ _ _ _ hto).trans (growing_pipe _ _ _ _ hfrom)).trans
    (growing_fork _ _ _ hfork)).trans (growing_close _ _ _ _ hclose)).trans
      (growing_close _ _ _ _ hclose')
  have h₆ := (h₅.trans (growing_modifyClient i _ _ _ _ hmodify)).length_le
  have h₇ := (growing_connectServerToCgi i j _ _ _ _ hconnect).length_le
  obtain ⟨_, s₉, hadd, hmodify'⟩ := bind_eq_ok hconnect'
  obtain rfl := addClientFd_ok hadd
  have h₈ := (growing_modifyClient i _ _ _ _ hmodify').length_le
  have hpush : (s₇.pfds ++ [({ fd := fromCgi.1, events := { pollin := true } } : Pollfd)]).length =
      s₇.pfds.length + 1 := List.length_append
  change s₆.pfds.length ≤ s₇.pfds.length at h₇
  change (s₇.pfds ++ [_]).length ≤ s₈.pfds.length at h₈
  rw [hpush] at h₈
  change s.pfds.length < s₈.pfds.length
  omega

theorem steady_answerRequest (i : ℕ) (c : Client) : Steady (answerRequest config env i c) := by
  have hindex : ∀ location, Steady (dispatchIndex env i location) := fun location =>
    .bind (reads_liftExcept _) fun _ => .ite (.ite (.ite (.fail _) (.bind_throw _)) (.fail _))
      (.respond (Client.keeps_respondWithFile _ _) i)
  have hdirectory : ∀ method location, Steady (dispatchDirectory env i method location) :=
    fun method location => .ite (.ite (hindex location)
      (.ite (.respond (Client.keeps_respondWithDirectoryListing _ _) i) (.fail _))) (.fail _)
  have hfile : ∀ method location, Steady (dispatchFile env i method location) :=
    fun method location => .bind (reads_liftExcept _) fun _ => .ite (.ite (.fail _) (.fail _)) <|
      .ite (steady_startCgi i) <| .ite (.respond (Client.keeps_respondWithFile _ _) i) <|
        .ite (.respond (Client.keeps_respondWithCreateFile _ _) i)
          (.respond (Client.keeps_respondWithDeleteFile _ _) i)
  refine .bind (reads_getServer i) fun _ => .bind (reads_liftExcept _) fun location => ?_
  refine .ite (.fail _) (.ite (.bind_throw _) (.ite (.fail _) ?_))
  exact .bind (reads_liftExcept _) fun _ => .ite (hdirectory _ location) (hfile _ location)

/-- Reading from a connection. -/
theorem readClient_steady {received : Bytes} {u : Unit} {fd : ℤ}
    (h : readClient config env i fd received s = .ok u s') :
    s.pfds.length < s'.pfds.length ∨ s'.clients.map holding = s.clients.map holding := by
  obtain ⟨c, _, hclient, h⟩ := bind_eq_ok h
  obtain ⟨rfl, hi⟩ := clientAt_ok hclient
  obtain ⟨_, s₁, hlog, h⟩ := bind_eq_ok h
  obtain rfl := log_ok hlog
  obtain ⟨_, s₂, hmethod, h⟩ := bind_eq_ok h
  obtain ⟨c₁, c', hi₁, happend, rfl⟩ := onClient_ok hmethod
  have hkept := Client.kept_appendReadString received c₁
  rw [happend] at hkept
  have hsame : (s.clients.set i c').map holding = s.clients.map holding :=
    map_set_of_eq hi₁ (congrArg holding hkept.core :)
  obtain ⟨c₂, _, hclient, h⟩ := bind_eq_ok h
  obtain ⟨rfl, -⟩ := clientAt_ok hclient
  rw [run_ite] at h
  split_ifs at h
  · obtain ⟨c₃, _, hclient, h⟩ := bind_eq_ok h
    obtain ⟨rfl, -⟩ := clientAt_ok hclient
    obtain ⟨_, s₃, hlog, h⟩ := bind_eq_ok h
    obtain rfl := log_ok hlog
    exact (steady_answerRequest i c₃ _ _ _ h).imp_right fun hsame' => hsame'.trans hsame
  · cases h
    exact .inr hsame

/-- The client that a descriptor leads to. -/
def clientOf (s : Server) (fd : ℤ) : Option Client :=
  (s.fdToClientIndex.lookup fd).bind fun i => s.clients[i]?

theorem clientOf_eq (hindex : s.fdToClientIndex.lookup fd = some i) (hi : s.clients[i]? = some c) :
    s.clientOf fd = some c := by
  rw [clientOf, hindex, Option.bind_some, hi]

/-- The events of a connection remove its client: an error, the end of what it sends, or the end of
what is sent to it. -/
def Removes (env : Answers) (c : Client) (revents : Events) : Prop :=
  revents.pollerr = true ∨ (revents.pollin = true ∧ env.read = some []) ∨
    (revents.pollout = true ∧ (revents.pollin = false →
      env.write = none ∨ c.response.length ≤ c.responseIndex + maxClientWriteLen))

/-- The events of an entry take two entries out of `_pfds`: the output of a CGI ends whose client
holds both pipes, or a client is removed that holds the pipe from its CGI when it is erased. -/
def TakesTwo (env : Answers) (s : Server) (pfd : Pollfd) : Prop := ∃ c, s.clientOf pfd.fd = some c ∧
  ((pfd.revents.pollerr = false ∧ pfd.revents.pollhup = true ∧ pfd.revents.pollin = false ∧
      c.serverToCgiFd ≠ -1 ∧ c.cgiToServerFd ≠ -1) ∨
    (s.fdToFdType.lookup pfd.fd = some .client ∧ ErasesPipe c ∧ Removes env c pfd.revents))

instance (c : Client) (revents : Events) : Decidable (Removes env c revents) :=
  inferInstanceAs (Decidable (_ ∨ _))

instance (pfd : Pollfd) : Decidable (TakesTwo env s pfd) :=
  match hof : s.clientOf pfd.fd with
  | none => isFalse fun ⟨_, hof', _⟩ => nomatch hof.symm.trans hof'
  | some c => decidable_of_iff ((pfd.revents.pollerr = false ∧ pfd.revents.pollhup = true ∧
      pfd.revents.pollin = false ∧ c.serverToCgiFd ≠ -1 ∧ c.cgiToServerFd ≠ -1) ∨
    (s.fdToFdType.lookup pfd.fd = some .client ∧ ErasesPipe c ∧ Removes env c pfd.revents)) (by
      refine ⟨fun h => ⟨c, hof, h⟩, fun ⟨c', hof', h⟩ => ?_⟩
      cases hof.symm.trans hof'
      exact h)

theorem read_eq_nil (h : read env s = .ok [] s') : env.read = some [] := by
  unfold read at h
  cases hread : env.read with
  | none =>
    rw [hread] at h
    cases h
  | some received =>
    rw [hread] at h
    cases received with
    | nil => rfl
    | cons => cases h

/-- `_handlePollin` for a descriptor of a client. -/
theorem handlePollin_shrinks {fdType : FdType} {skip : Bool} (hs : s.Good)
    (htype : s.fdToFdType.lookup fd = some fdType)
    (h : handlePollin config env fd fdType s = .ok skip s')
    (hn : 1 ≤ n) (htwo : ∀ c, fdType = .client → s.clientOf fd = some c → ErasesPipe c →
      env.read = some [] → 2 ≤ n) : Shrinks n s s' := by
  unfold handlePollin at h
  rw [run_ite] at h
  split_ifs at h with hserver
  · obtain ⟨_, s₁, haccept, h⟩ := bind_eq_ok h
    cases h
    exact (growing_acceptClient _ _ _ _ haccept).shrinks.mono (Nat.zero_le _)
  obtain ⟨_, _, hassert, h⟩ := bind_eq_ok h
  obtain ⟨rfl, -⟩ := assert_ok hassert
  obtain ⟨i, _, hget, h⟩ := bind_eq_ok h
  obtain ⟨rfl, hindex, c, hi⟩ := getClient_ok hget
  obtain hread | ⟨status, s₁, hread, h⟩ := catchClientException_ok h
  · cases skip with
    | false => exact (readFd_grown hread).shrinks.mono (Nat.zero_le _)
    | true =>
      obtain ⟨received, _, hbytes, h⟩ := bind_eq_ok hread
      have hnil := fun heq : received = [] => read_eq_nil (heq ▸ hbytes)
      obtain rfl := read_ok hbytes
      obtain ⟨_, s₁, hmodify, h⟩ := bind_eq_ok h
      obtain ⟨c₁, hi₁, rfl⟩ := modifyClient_ok hmodify
      obtain rfl : c₁ = c := Option.some.inj (hi₁.symm.trans hi)
      rw [run_ite] at h
      split_ifs at h with hnone
      · obtain ⟨_, _, hassert, h⟩ := bind_eq_ok h
        obtain ⟨rfl, hclient⟩ := assert_ok hassert
        obtain ⟨c₂, _, hat, h⟩ := bind_eq_ok h
        obtain ⟨rfl, hi₂⟩ := clientAt_ok hat
        obtain rfl := Option.some.inj (hi₂.symm.trans (getElem?_set_self_of hi _))
        obtain ⟨_, s₂, hremove, h⟩ := bind_eq_ok h
        cases h
        have hindex₂ : s.fdToClientIndex.lookup c₁.clientFd = some i := hs.index_clientFd hi
        have hshrinks := removeClient_shrinks hremove hindex₂ hi₂
        have hshrinks' : Shrinks (if ErasesPipe c₁ then 2 else 1) s s' := hshrinks
        refine hshrinks'.mono ?_
        split_ifs with herases
        · exact htwo c₁ hclient (clientOf_eq hindex hi) herases (hnil hnone)
        · exact hn
      · obtain ⟨_, _, -, h⟩ := bind_eq_ok h
        cases h
  · obtain ⟨_, s₂, hanswer, h⟩ := bind_eq_ok h
    cases h
    obtain ⟨received, c', dispatched, -, -, -, rfl⟩ :=
      readFd_error hs (hs.typed fd fdType htype hserver) hindex hi hread
    have hshrinks := respondClientException_shrinks hanswer
    exact hshrinks.mono hn

/-- Reading from a connection, when the other events of the descriptor are to be handled. -/
theorem handlePollin_steady (h : handlePollin config env fd .client s = .ok false s') :
    s.pfds.length < s'.pfds.length ∨ s'.clients.map holding = s.clients.map holding := by
  obtain ⟨_, _, hassert, h⟩ := bind_eq_ok h
  obtain ⟨rfl, -⟩ := assert_ok hassert
  obtain ⟨i, _, hget, h⟩ := bind_eq_ok h
  obtain ⟨rfl, -⟩ := getClient_ok hget
  obtain hread | ⟨status, s₁, -, h⟩ := catchClientException_ok h
  · obtain ⟨received, _, hbytes, h⟩ := bind_eq_ok hread
    obtain rfl := read_ok hbytes
    obtain ⟨_, s₁, hmodify, h⟩ := bind_eq_ok h
    obtain ⟨c, hi, rfl⟩ := modifyClient_ok hmodify
    have hsame : (s.clients.set i { c with timeOfLastRead := env.now }).map holding =
        s.clients.map holding := map_set_of_eq hi rfl
    rw [run_ite] at h
    split_ifs at h
    · obtain ⟨_, _, -, h⟩ := bind_eq_ok h
      obtain ⟨_, _, -, h⟩ := bind_eq_ok h
      obtain ⟨_, _, -, h⟩ := bind_eq_ok h
      cases h
    · obtain ⟨_, s₂, hreceived, h⟩ := bind_eq_ok h
      cases h
      obtain ⟨c₁, _, hclient, h₁⟩ := bind_eq_ok hreceived
      obtain ⟨rfl, -⟩ := clientAt_ok hclient
      obtain ⟨_, _, hassert, h₂⟩ := bind_eq_ok h₁
      obtain ⟨rfl, -⟩ := assert_ok hassert
      rw [run_ite, if_pos rfl] at h₂
      exact (readClient_steady h₂).imp_right fun hsame' => hsame'.trans hsame
  · obtain ⟨_, _, -, h⟩ := bind_eq_ok h
    cases h

theorem writeToCgi_shrinks {u : Unit} (h : writeToCgi env i s = .ok u s') : Shrinks 1 s s' := by
  obtain ⟨c, _, hclient, h⟩ := bind_eq_ok h
  obtain ⟨rfl, -⟩ := clientAt_ok hclient
  obtain ⟨_, _, hassert, h⟩ := bind_eq_ok h
  obtain ⟨rfl, -⟩ := assert_ok hassert
  obtain ⟨_, _, hassert, h⟩ := bind_eq_ok h
  obtain ⟨rfl, -⟩ := assert_ok hassert
  obtain ⟨_, s₁, hmodify, h⟩ := bind_eq_ok h
  obtain ⟨c₁, -, rfl⟩ := modifyClient_ok hmodify
  obtain ⟨written, s₂, hwrite, h⟩ := bind_eq_ok h
  rcases write_ok hwrite with ⟨n, rfl, rfl⟩ | ⟨rfl, rfl⟩
  · obtain ⟨_, _, hassert, h⟩ := bind_eq_ok h
    obtain ⟨rfl, -⟩ := assert_ok hassert
    rw [run_ite] at h
    split_ifs at h
    · have hremove := removePipeFd_shrinks_one h
      exact hremove
    · cases h
      exact .mono (.of_eq rfl) (Nat.zero_le _)
  · have hremove := removePipeFd_shrinks_one h
    exact hremove

/-- Writing to a client removes it when the write fails or was the last one. -/
theorem writeToClient_shrinks {u : Unit} (h : writeToClient env i s = .ok u s')
    (hi : s.clients[i]? = some c) (hindex : s.fdToClientIndex.lookup c.clientFd = some i) :
    Shrinks (if ErasesPipe c then 2 else 1) s s' ∧
      (¬ (env.write = none ∨ c.response.length ≤ c.responseIndex + maxClientWriteLen) →
        Shrinks 1 s s') := by
  obtain ⟨c₀, _, hclient, h⟩ := bind_eq_ok h
  obtain ⟨rfl, hi₀⟩ := clientAt_ok hclient
  obtain rfl : c₀ = c := Option.some.inj (hi₀.symm.trans hi)
  obtain ⟨_, _, hassert, h⟩ := bind_eq_ok h
  obtain ⟨rfl, -⟩ := assert_ok hassert
  obtain ⟨_, _, hassert, h⟩ := bind_eq_ok h
  obtain ⟨rfl, -⟩ := assert_ok hassert
  obtain ⟨_, s₁, hmodify, h⟩ := bind_eq_ok h
  obtain ⟨c₁, hi₁, rfl⟩ := modifyClient_ok hmodify
  obtain rfl : c₁ = c₀ := Option.some.inj (hi₁.symm.trans hi)
  obtain ⟨written, s₂, hwrite, h⟩ := bind_eq_ok h
  have hi₂ := fun responseIndex => getElem?_set_self_of hi { c₁ with responseIndex := responseIndex }
  rcases write_ok hwrite with ⟨n, rfl, rfl⟩ | ⟨rfl, rfl⟩
  · obtain ⟨_, _, hassert, h⟩ := bind_eq_ok h
    obtain ⟨rfl, -⟩ := assert_ok hassert
    rw [run_ite] at h
    split_ifs at h with hend
    · have hremove := removeClient_shrinks h hindex (hi₂ _)
      refine ⟨hremove, fun hmore => absurd (.inr ?_) hmore⟩
      omega
    · cases h
      have hsame : ∀ {s₃ : Server}, s₃.pfds = s.pfds → Shrinks 0 s s₃ := fun heq =>
        .of_eq (congrArg List.length heq)
      refine ⟨(hsame rfl).mono (Nat.zero_le _), fun _ => (hsame rfl).mono (Nat.zero_le _)⟩
  · have hremove := removeClient_shrinks h hindex (hi₂ _)
    refine ⟨hremove, fun hmore => absurd (.inl ?_) hmore⟩
    unfold write at hwrite
    cases henv : env.write with
    | none => rfl
    | some n =>
      rw [henv] at hwrite
      cases hwrite

/-! ## The events of an entry -/

/-- A client whose connection was read from is found where it was, and it holds what it held. -/
theorem holding_of_steady {s₁ : Server} {c₁ : Client} {i₁ : ℕ} (hs₁ : s₁.Good)
    (hi : s.clients[i]? = some c) (hfd : c.clientFd = fd)
    (hsame : s₁.clients.map holding = s.clients.map holding)
    (hindex₁ : s₁.fdToClientIndex.lookup fd = some i₁) (hi₁ : s₁.clients[i₁]? = some c₁) :
    holding c₁ = holding c := by
  have hkey : (s₁.clients.map holding)[i]? = some (holding c) := by
    rw [hsame, List.getElem?_map, hi]
    rfl
  rw [List.getElem?_map, Option.map_eq_some_iff] at hkey
  obtain ⟨c₂, hi₂, hheld⟩ := hkey
  have hfd₂ : c₂.clientFd = fd := (congrArg Prod.fst hheld).trans hfd
  have hindex₂ := hs₁.index_clientFd hi₂
  rw [hfd₂] at hindex₂
  obtain rfl := Option.some.inj (hindex₂.symm.trans hindex₁)
  rw [Option.some.inj (hi₁.symm.trans hi₂), hheld]

/-- Writing to a connection or to a CGI. -/
theorem handlePollout_shrinks {fdType : FdType} {u : Unit} (hs : s.Good)
    (htype : s.fdToFdType.lookup fd = some fdType) (h : handlePollout env fd fdType s = .ok u s') :
    (fdType ≠ .client ∧ Shrinks 1 s s') ∨ (fdType = .client ∧ ∃ i c,
      s.fdToClientIndex.lookup fd = some i ∧ s.clients[i]? = some c ∧ c.clientFd = fd ∧
      Shrinks (if ErasesPipe c then 2 else 1) s s' ∧
      (¬ (env.write = none ∨ c.response.length ≤ c.responseIndex + maxClientWriteLen) →
        Shrinks 1 s s')) := by
  obtain ⟨i, _, hget, hwrite⟩ := bind_eq_ok h
  obtain ⟨rfl, hindex, c, hi⟩ := getClient_ok hget
  rw [run_ite, run_ite] at hwrite
  split_ifs at hwrite with hto hclient
  · exact .inl ⟨hto ▸ nofun, writeToCgi_shrinks hwrite⟩
  · subst hclient
    have hfd := hs.client_of_polls (hs.typed fd .client htype nofun) hindex hi
    exact .inr ⟨rfl, i, c, hindex, hi, hfd, writeToClient_shrinks hwrite hi (hfd ▸ hindex)⟩
  · cases hwrite

theorem processInOut_shrinks {fdType : FdType} {u : Unit} (hs : s.Good)
    (htype : s.fdToFdType.lookup fd = some fdType) (hk : k < s.pfds.length)
    (hfd : (pfdAt env s k).fd = fd)
    (h : processInOut config env k fd fdType (pfdAt env s k).revents.pollin s = .ok u s')
    (hn : 1 ≤ n) (htwo : TakesTwo env s (pfdAt env s k) → 2 ≤ n) : Shrinks n s s' := by
  have herase : ∀ c, fdType = .client → s.clientOf fd = some c → ErasesPipe c →
      Removes env c (pfdAt env s k).revents → 2 ≤ n := by
    intro c hclient hof herases hremoves
    exact htwo ⟨c, hfd ▸ hof, .inr ⟨by rw [hfd, htype, hclient], herases, hremoves⟩⟩
  obtain ⟨skip, s₁, hin, hrest⟩ := bind_eq_ok h
  obtain ⟨_, _, ⟨⟩, hwrite⟩ := bind_eq_ok hrest
  rw [run_ite] at hin hwrite
  split_ifs at hin with hpollin
  · split_ifs at hwrite with hout
    · obtain ⟨rfl, hpollout⟩ := hout
      have hgrown := handlePollin_grown hin
      rw [(hgrown.pfdAt_eq hk).2] at hpollout
      have hs₁ := hs.actions (handlePollin_actions hs htype hin : Actions config .handling s s₁)
      rcases handlePollout_shrinks hs₁ (hgrown.types fd fdType htype) hwrite with
        ⟨-, hshrinks⟩ | ⟨rfl, i₁, c₁, hindex₁, hi₁, hfd₁, hshrinks, -⟩
      · exact (hgrown.shrinks.trans hshrinks).mono (by omega)
      · have hpolls := hs.typed fd .client htype nofun
        obtain ⟨c, hc, hcfd⟩ := List.mem_map.1 (hs.owned fd hpolls)
        obtain ⟨i, hi⟩ := List.mem_iff_getElem?.1 hc
        have hof : s.clientOf fd = some c := clientOf_eq (hcfd ▸ hs.index_clientFd hi) hi
        rcases handlePollin_steady hin with hgrew | hsame
        · -- an entry was added, and at most two are removed
          have hle : Shrinks 2 s₁ s' := by
            refine hshrinks.mono ?_
            split_ifs <;> decide
          unfold Shrinks at *
          omega
        · have herases := erasesPipe_congr (holding_of_steady hs₁ hi hcfd hsame hindex₁ hi₁)
          refine (hgrown.shrinks.trans hshrinks).mono ?_
          split_ifs with hpipe
          · have hremoves : Removes env c (pfdAt env s k).revents :=
              .inr (.inr ⟨hpollout, fun hno => nomatch hpollin.symm.trans hno⟩)
            have := herase c rfl hof (herases.1 hpipe) hremoves
            omega
          · omega
    · cases hwrite
      exact handlePollin_shrinks hs htype hin hn fun c hclient hof herases hread =>
        herase c hclient hof herases (.inr (.inl ⟨hpollin, hread⟩))
  · cases hin
    split_ifs at hwrite with hout
    · rcases handlePollout_shrinks hs htype hwrite with
        ⟨-, hshrinks⟩ | ⟨rfl, i, c, hindex, hi, -, hshrinks, hmore⟩
      · exact hshrinks.mono hn
      · by_cases hends : env.write = none ∨ c.response.length ≤ c.responseIndex + maxClientWriteLen
        · refine hshrinks.mono ?_
          split_ifs with herases
          · exact herase c rfl (clientOf_eq hindex hi) herases (.inr (.inr ⟨hout.2, fun _ => hends⟩))
          · exact hn
        · exact (hmore hends).mono hn
    · cases hwrite
      exact .mono (.of_eq rfl) (Nat.zero_le _)

/-- **The events of an entry take one entry out of `_pfds`, or two.** -/
theorem processEvents_shrinks {u : Unit} (hs : s.Good) (hk : k < s.pfds.length)
    (hfd : (pfdAt env s k).fd = fd) (h : processEvents config env k fd s = .ok u s') (hn : 1 ≤ n)
    (htwo : TakesTwo env s (pfdAt env s k) → 2 ≤ n) : Shrinks n s s' := by
  obtain ⟨_, _, ⟨⟩, h⟩ := bind_eq_ok h
  obtain ⟨fdType, _, hlookup, h⟩ := bind_eq_ok h
  obtain ⟨rfl, htype⟩ := lookupAt_ok hlookup
  obtain ⟨_, _, hprint, h⟩ := bind_eq_ok h
  obtain rfl := printEvents_ok hprint
  obtain ⟨_, _, ⟨⟩, h⟩ := bind_eq_ok h
  obtain ⟨_, _, hassert, h⟩ := bind_eq_ok h
  obtain ⟨rfl, -⟩ := assert_ok hassert
  rw [run_ite] at h
  split at h
  · rename_i herr
    unfold handlePollerr at h
    rw [run_ite, run_ite] at h
    split_ifs at h with hto hclient
    · exact (removePipeFd_shrinks_one h).mono hn
    · obtain ⟨i, c, -, -, -, hindex, hi, -⟩ := removeClient_ok h
      refine (removeClient_shrinks h hindex hi).mono ?_
      split_ifs with herases
      · exact htwo ⟨c, hfd ▸ clientOf_eq hindex hi,
          .inr ⟨by rw [hfd, htype, hclient], herases, .inl herr⟩⟩
      · exact hn
    · cases h
  · rename_i herr
    obtain ⟨_, _, hassert, hevents⟩ := bind_eq_ok h
    obtain ⟨rfl, -⟩ := assert_ok hassert
    rw [run_ite] at hevents
    split_ifs at hevents with hhup
    · obtain ⟨i, _, hget, -⟩ := bind_eq_ok hevents
      obtain ⟨-, hindex, c, hi⟩ := getClient_ok hget
      refine (pollhupCgiToServer_shrinks hs hevents hindex hi).mono ?_
      by_cases hto : c.serverToCgiFd = -1
      · rw [if_pos hto]
        split_ifs <;> omega
      · by_cases hfrom : c.cgiToServerFd = -1
        · rw [if_neg hto, if_pos hfrom]
          omega
        · rw [if_neg hto, if_neg hfrom]
          exact htwo ⟨c, hfd ▸ clientOf_eq hindex hi,
            .inl ⟨Bool.eq_false_iff.2 herr, hhup.1, hhup.2, hto, hfrom⟩⟩
    · exact processInOut_shrinks hs htype hk hfd hevents hn htwo

end Server

namespace World

variable {config : Config} {env : Answers} {w w' : World} {k : ℕ} {seenFds : Finset ℤ}

/-- A step does not take two entries out of `_pfds` when it handles the last one. -/
def TakesOne (env : Answers) (w : World) : Prop := ∀ k seenFds, w.phase = .processing (k + 1) seenFds →
  k + 1 = w.server.pfds.length → (pfdAt env w.server k).fd ∉ seenFds →
    ¬ TakesTwo env w.server (pfdAt env w.server k)

variable (config) in
/-- The states between the steps of a run whose steps all meet a condition. -/
inductive ReachableBy (P : Answers → World → Prop) : World → Prop
  | start {w : World} (h : Started config w) : ReachableBy P w
  | step {w w' : World} (env : Answers) (h : ReachableBy P w) (hmeets : P env w)
    (hstep : step config env w = .ok () w') : ReachableBy P w'

theorem ReachableBy.reachable {P : Answers → World → Prop} (h : ReachableBy config P w) :
    Reachable config w := by
  induction h with
  | start h => exact .start h
  | step env _ _ hstep ih => exact ih.step env hstep

/-- The loop over `_pfds` is not past the end. -/
def Inside (w : World) : Prop := ∀ k seenFds, w.phase = .processing k seenFds → k ≤ w.server.pfds.length

/-- A step that takes out one entry stays inside. -/
theorem inside_step (hw : w.Good) (h : w.Inside) (hone : TakesOne env w)
    (hstep : step config env w = .ok () w') : w'.Inside := by
  intro k seenFds hphase
  rcases step_ok hstep with ⟨htop, -⟩ | ⟨-, again, s', -, rfl⟩ | ⟨_, _, -, -, s', -, rfl⟩ | ⟨-, rfl⟩ |
    ⟨-, rfl⟩ | ⟨k', seenFds', hsame, seenFds'', s', hpfd, rfl⟩ | ⟨hstopped, rfl⟩
  · exact (phase_of_poll htop hstep hphase).1.le
  · cases again <;> cases hphase
  · cases hphase
  · cases hphase
  · cases hphase
  · cases hphase
    have hlt : k < w.server.pfds.length := h _ _ hsame
    rcases processPfd_ok hpfd with ⟨rfl, -⟩ | ⟨-, -, hunseen, -, hevents⟩
    · exact hlt.le
    · have hlog : ∀ fd inside, Action config .polling (w.interrupted env).server
          { (w.interrupted env).server with calls := .handle fd inside :: w.server.calls } :=
        fun _ _ => .log _ trivial fun _ => rfl
      have hs := fun fd inside => (hw.interrupted env).server.action (hlog fd inside)
      by_cases hlast : k + 1 = w.server.pfds.length
      · have hshrinks : Shrinks 1 _ s' := processEvents_shrinks (hs _ _) hlt rfl hevents le_rfl
          fun htwo => absurd htwo (hone k seenFds' hsame hlast hunseen)
        have hle : w.server.pfds.length ≤ s'.pfds.length + 1 := hshrinks
        change k ≤ s'.pfds.length
        omega
      · have hshrinks : Shrinks 2 _ s' := processEvents_shrinks (hs _ _) hlt rfl hevents (by decide)
          fun _ => le_rfl
        have hle : w.server.pfds.length ≤ s'.pfds.length + 2 := hshrinks
        change k ≤ s'.pfds.length
        omega
  · cases hstopped.symm.trans hphase

theorem ReachableBy.inside (h : ReachableBy config TakesOne w) : w.Inside := by
  induction h with
  | start h =>
    obtain ⟨bindFds, s, -, rfl⟩ := h
    intro k seenFds hphase
    cases hphase
  | step env hreached hone hstep ih => exact inside_step hreached.reachable.good ih hone hstep

/-- **The loop over `_pfds` stays inside**: in a run in which no step takes two entries out of `_pfds`
when it handles the last one, every index that `_processPfd` is called with is below the size of
`_pfds`. -/
theorem pass_inside (h : ReachableBy config TakesOne w)
    (hphase : w.phase = .processing (k + 1) seenFds) : k < w.server.pfds.length :=
  h.inside _ _ hphase

/-! ## Concrete runs -/

instance (w : World) (env : Answers) : Decidable (TakesOne env w) :=
  match hphase : w.phase with
  | .processing (k + 1) seenFds =>
    decidable_of_iff (k + 1 = w.server.pfds.length → (pfdAt env w.server k).fd ∉ seenFds →
      ¬ TakesTwo env w.server (pfdAt env w.server k)) (by
        refine ⟨fun h k' seenFds' hphase' => ?_, fun h => h k seenFds hphase⟩
        cases hphase.symm.trans hphase'
        exact h)
  | .processing 0 _ | .top | .reaping | .sweeping _ _ | .stopped =>
    isTrue fun _ _ hphase' => nomatch hphase.symm.trans hphase'

variable (config) in
/-- All steps of a run meet a condition. -/
def Meets (P : Answers → World → Prop) : List Answers → World → Prop
  | [], _ => True
  | env :: envs, w => P env w ∧ Meets P envs (finalState (step config env w))

instance decidableMeets (P : Answers → World → Prop) [∀ env w, Decidable (P env w)] :
    (envs : List Answers) → (w : World) → Decidable (Meets config P envs w)
  | [], _ => isTrue trivial
  | env :: envs, w =>
    have := decidableMeets P envs (finalState (step config env w))
    inferInstanceAs (Decidable (P env w ∧ _))

theorem ReachableBy.run {P : Answers → World → Prop} {envs : List Answers}
    (h : ReachableBy config P w) (hmeets : Meets config P envs w)
    (hrun : run config envs w = .ok () w') : ReachableBy config P w' := by
  induction envs generalizing w with
  | nil =>
    cases hrun
    exact h
  | cons env envs ih =>
    obtain ⟨_, w₁, hstep, hrun⟩ := bind_eq_ok hrun
    have hrest := hmeets.2
    rw [hstep] at hrest
    exact ih (h.step env hmeets.1 hstep) hrest hrun

/-- A client asks for a CGI, and then the output of the CGI ends. -/
def hangUpAnswers (request : Bytes) : List Answers :=
  cgiAnswers 4 request 100 ++ ([{ poll := some fun fd => { pollhup := fd = 7 } }, {}] : List Answers)

/-- The CGI of a request without a body has one pipe. -/
theorem pass_inside_get : ∃ w : World, w.phase = .processing (1 + 1) {7} ∧
    w.server.pfds.map Pollfd.fd = [3, 4] ∧ 1 < w.server.pfds.length := by
  have hstart : ReachableBy cgiConfig TakesOne
      { server := finalState (listen cgiConfig.bindInfos [3] Server.empty) } :=
    .start ⟨[3], _, eq_ok_of_thrown (by decide +kernel), rfl⟩
  have hreach := hstart.run (show Meets cgiConfig TakesOne (hangUpAnswers getRequest) _ by decide +kernel)
    (eq_ok_of_thrown (by decide +kernel))
  have hphase : (finalState (World.run cgiConfig (hangUpAnswers getRequest)
      { server := finalState (listen cgiConfig.bindInfos [3] Server.empty) })).phase =
        .processing (1 + 1) {7} := by decide +kernel
  exact ⟨_, hphase, by decide +kernel, pass_inside hreach hphase⟩

/-- The output of a CGI ends whose input was not written: the last two entries are removed, and the
next index is past the end. -/
theorem not_inside_post : ¬ ∀ (config : Config) (w : World) (k : ℕ) (seenFds : Finset ℤ),
    Reachable config w → w.phase = .processing (k + 1) seenFds → k < w.server.pfds.length := by
  intro h
  have hreach : Reachable cgiConfig (after cgiConfig [3] (hangUpAnswers postRequest)) :=
    reachable_after (by decide +kernel) (by decide +kernel)
  have hphase : (after cgiConfig [3] (hangUpAnswers postRequest)).phase = .processing (2 + 1) {7} := by
    decide +kernel
  have hlength : (after cgiConfig [3] (hangUpAnswers postRequest)).server.pfds.length = 2 := by
    decide +kernel
  have hlt := h _ _ _ _ hreach hphase
  rw [hlength] at hlt
  exact absurd hlt (lt_irrefl _)

end World

end Webserv
