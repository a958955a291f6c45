import Webserv.Server.RunTrace

/-!
# The types of descriptors

`_fd_to_fd_type` has every polled descriptor with the type as which it was registered last
(`Typed`), as long as no descriptor that was a listening socket is registered again:
`_shutDownServers` leaves the entries of the listening sockets behind, and `_addFd` does not overwrite
them.
-/

namespace Webserv

open Server History

namespace History

/-- No descriptor was registered again that was registered as a listening socket before. -/
def NoServerReuse : List Call → Prop
  | [] => True
  | .addFd fd _ :: calls => registeredAs fd calls ≠ some .server ∧ NoServerReuse calls
  | _ :: calls => NoServerReuse calls

instance decidableNoServerReuse : (calls : List Call) → Decidable (NoServerReuse calls)
  | [] => isTrue trivial
  | call :: calls =>
    have := decidableNoServerReuse calls
    match call with
    | .addFd fd _ => inferInstanceAs (Decidable (registeredAs fd calls ≠ some .server ∧ _))
    | .acceptClient _ | .read _ _ _ | .dispatch _ | .respondClientException _ | .removeClient _
    | .assign _ _ | .close _ _ | .write _ _ | .startCgi _ _ | .readCgi _ _ | .hangUp _
    | .waitpid _ _ | .cgiEnd _ | .handle _ _ => this

variable {call : Call} {calls calls' : List Call}

theorem NoServerReuse.tail (h : NoServerReuse (call :: calls)) : NoServerReuse calls := by
  cases call with
  | addFd => exact h.2
  | _ => exact h

theorem NoServerReuse.of_suffix (h : NoServerReuse calls') (hs : calls <:+ calls') :
    NoServerReuse calls := by
  induction calls' with
  | nil => rwa [List.suffix_nil.1 hs]
  | cons call' calls' ih =>
    rcases List.suffix_cons_iff.1 hs with rfl | hs
    · exact h
    · exact ih h.tail hs

end History

namespace Server

/-- `_fd_to_fd_type` has the types as which the descriptors were registered last. -/
structure Typed (s : Server) : Prop where
  polled : ∀ fd ∈ s.fdToPfdIndex, s.fdToFdType.lookup fd = registeredAs fd s.calls
  servers : ∀ fd, s.fdToFdType.lookup fd = some .server → registeredAs fd s.calls = some .server

variable {config : Config} {stage : Stage} {s s' : Server}

theorem typed_empty : empty.Typed where
  polled _ hfd := absurd hfd Finmap.notMem_empty
  servers fd h := nomatch (Finmap.lookup_empty (β := fun _ : ℤ => FdType) fd).symm.trans h

/-- Changing neither the types nor the registrations. -/
theorem Typed.congr (h : s.Typed) (hindex : s'.fdToPfdIndex = s.fdToPfdIndex)
    (htype : s'.fdToFdType = s.fdToFdType)
    (hcalls : ∀ fd, registeredAs fd s'.calls = registeredAs fd s.calls) : s'.Typed where
  polled fd hfd := by
    rw [htype, hcalls]
    exact h.polled fd (hindex ▸ hfd)
  servers fd hlookup := by
    rw [hcalls]
    exact h.servers fd (htype ▸ hlookup)

/-- Registering a descriptor that is not polled and was no listening socket. -/
theorem Typed.register (h : s.Typed) (htables : s.Tables) {fd : ℤ} (fdType : FdType) (events : Events)
    (hnew : fd ∉ s.fdToPfdIndex) (hreuse : registeredAs fd s.calls ≠ some .server) :
    (s.register fd fdType events).Typed := by
  have hmem : fd ∉ s.fdToFdType := by
    intro hmem
    obtain ⟨fdType', hlookup⟩ := Finmap.mem_iff.1 hmem
    by_cases hserver : fdType' = .server
    · exact hreuse (h.servers fd (hserver ▸ hlookup))
    · exact hnew (htables.typed fd fdType' hlookup hserver).1
  have hregistered : ∀ fd', registeredAs fd' (.addFd fd fdType :: s.calls) =
      if fd' = fd then some fdType else registeredAs fd' s.calls := by
    intro fd'
    split_ifs with heq
    · rw [heq]
      exact registeredAs_addFd fdType
    · exact registeredAs_cons (if_neg fun heq' => heq heq'.symm)
  constructor
  · intro fd' hfd'
    change (s.fdToFdType.emplace fd fdType).lookup fd' = registeredAs fd' (.addFd fd fdType :: s.calls)
    rw [Map.emplace_of_notMem hmem, Map.lookup_insert_eq, hregistered]
    split_ifs with heq
    · rfl
    · exact h.polled fd' ((mem_emplace.1 hfd').resolve_left heq)
  · intro fd' hlookup
    change (s.fdToFdType.emplace fd fdType).lookup fd' = some .server at hlookup
    change registeredAs fd' (.addFd fd fdType :: s.calls) = _
    rw [Map.emplace_of_notMem hmem, Map.lookup_insert_eq] at hlookup
    rw [hregistered]
    split_ifs at hlookup ⊢ with heq
    · exact hlookup
    · exact h.servers fd' hlookup

/-- Taking a descriptor out. -/
theorem Typed.unregister (h : s.Typed) (htables : s.Tables) {fd : ℤ} {k : ℕ} {last : Pollfd}
    (hlast : s.pfds.getLast? = some last)
    (hindex : s'.fdToPfdIndex = (s.unregister fd k last).fdToPfdIndex)
    (htype : s'.fdToFdType = s.fdToFdType ∨ s'.fdToFdType = s.fdToFdType.erase fd)
    (hcalls : ∀ fd', registeredAs fd' s'.calls = registeredAs fd' s.calls) : s'.Typed := by
  have hlookup : ∀ fd', fd' ≠ fd → s'.fdToFdType.lookup fd' = s.fdToFdType.lookup fd' := by
    intro fd' hne
    rcases htype with heq | heq
    · rw [heq]
    · rw [heq, Finmap.lookup_erase_ne hne]
  constructor
  · intro fd' hfd'
    rw [hindex, htables.mem_unregister hlast] at hfd'
    rw [hlookup fd' hfd'.1, hcalls]
    exact h.polled fd' hfd'.2
  · intro fd' hserver
    rw [hcalls]
    rcases htype with heq | heq
    · exact h.servers fd' (heq ▸ hserver)
    · rw [heq, Map.lookup_erase_eq] at hserver
      split_ifs at hserver
      exact h.servers fd' hserver

/-- **Every action keeps the types right**, if it registers no former listening socket. -/
theorem Typed.action (h : s.Typed) (hs : s.Good) (haction : Action config stage s s')
    (hreuse : NoServerReuse s'.calls) : s'.Typed := by
  cases haction with
  | kernel | polled | stopReading | answer => exact h.congr rfl rfl fun _ => rfl
  | close fd => exact h.congr rfl rfl fun fd' => registeredAs_close fd fd' true s.calls
  | log call hneutral => exact h.congr rfl rfl fun fd => registeredAs_neutral hneutral fd s.calls
  | change i c c' new hi hchange => exact h.congr rfl rfl fun fd => hchange.registeredAs fd
  | orphan i c d fd => exact h.congr rfl rfl fun fd' => registeredAs_hangUpCalls fd' d s.calls
  | wait pid => exact h.congr rfl rfl fun fd => registeredAs_cons rfl
  | reap i c pid => exact h.congr rfl rfl fun fd => registeredAs_reapCalls fd _ pid _ s.calls
  | start i c pid toCgi fromCgi hi _ _ _ _ hto hfrom hne _ =>
    cases toCgi with
    | none =>
      have hregister := h.register hs.toTables .cgiToServer { pollin := true } hfrom.2 hreuse.1
      exact hregister.congr rfl rfl fun fd => registeredAs_cons rfl
    | some fd =>
      have hspare := hto fd rfl
      have hfd : fromCgi ≠ fd := fun heq => hne (heq ▸ rfl)
      have hregister := h.register hs.toTables .serverToCgi { pollout := true } hspare.2 hreuse.2.1
      have htables := hs.toTables.register hspare.2 hspare.1 { pollout := true }
      have hregister' := hregister.register htables .cgiToServer { pollin := true }
        (fun hmem => (mem_emplace.1 hmem).elim hfd hfrom.2) hreuse.1
      exact hregister'.congr rfl rfl fun fd' => registeredAs_cons rfl
  | release i c fdType k last new hi hpipe _ _ hlast hnew =>
    refine h.unregister hs.toTables hlast rfl (.inr rfl) fun fd => ?_
    have hclose := registeredAs_close (c.fdOf fdType) fd true s.calls
    rcases hnew with ⟨rfl, -⟩ | ⟨-, rfl⟩
    · exact hclose
    · exact (registeredAs_hangUpCalls fd _ _).trans hclose
  | accept fd serverFd serverPort hopen =>
    have hregister := h.register hs.toTables .client { pollin := true } (hs.notMem_of_canOpen hopen)
      hreuse.1
    exact hregister.congr rfl rfl fun fd' => registeredAs_cons rfl
  | erase i c last this src k lastPfd _ _ _ _ _ hlastPfd _ _ _ =>
    refine h.unregister hs.toTables hlastPfd rfl (.inr rfl) fun fd => ?_
    exact (registeredAs_cons rfl).trans (registeredAs_close c.clientFd fd true s.calls)
  | listen fd _ _ hopen =>
    have hregister := h.register hs.toTables .server { pollin := true } (hs.notMem_of_canOpen hopen)
      hreuse.1
    exact hregister.congr rfl rfl fun fd' => rfl
  | shutDown fd k last _ _ hlast _ =>
    exact h.unregister hs.toTables hlast rfl (.inl rfl) fun fd' => registeredAs_close fd fd' true s.calls

end Server

namespace World

variable {config : Config} {w : World}

/-- **Every polled descriptor has the type as which it was registered last**, as long as no descriptor
is registered again that was a listening socket; and the descriptor is of that type. -/
theorem fdToFdType_eq_registeredAs (h : Reachable config w) (hreuse : NoServerReuse w.server.calls) :
    ∀ pfd ∈ w.server.pfds, ∃ fdType, w.server.fdToFdType.lookup pfd.fd = some fdType ∧
      registeredAs pfd.fd w.server.calls = some fdType ∧
      w.server.descriptors.lookup pfd.fd = some fdType := by
  have htyped : w.server.Typed := by
    refine h.invariant (I := fun s => NoServerReuse s.calls → s.Typed) (fun _ => typed_empty) ?_ hreuse
    intro stage s s' hs hold haction hreuse'
    exact (hold (hreuse'.of_suffix haction.suffix)).action hs haction hreuse'
  intro pfd hpfd
  have hs := h.good.server
  have hpolled : pfd.fd ∈ w.server.fdToPfdIndex :=
    (hs.indexed.mem_iff pfd.fd).2 (List.mem_map_of_mem hpfd)
  obtain ⟨fdType, hkind, hregistered⟩ := hs.opened pfd.fd hpolled
  exact ⟨fdType, (htyped.polled pfd.fd hpolled).trans hregistered, hregistered, hkind⟩

/-- A server that listens on two ports. -/
def twoPortsConfig : Config :=
  { cgiConfig with bindInfos := [(bytes "80", [0]), (bytes "81", [0])] }

/-- A client connects, the server starts to shut down, and the client asks for a CGI, for which the
kernel hands out the given pipes. -/
def shutDownAnswers (serverToCgiPipe cgiToServerPipe : ℤ × ℤ) : List Answers :=
  [{ poll := some fun fd => { pollin := fd = 3 } }, {}, { accept := some 5 }, {},
    { sigint := true, order := [3, 4, 5], poll := some fun fd => { pollin := fd = 5 } },
    { read := some (bytes "POST /a HTTP/1.1\x0d\nHost: a\x0d\nContent-Length: 1\x0d\n\x0d\nx")
      serverToCgiPipe := some serverToCgiPipe
      cgiToServerPipe := some cgiToServerPipe
      fork := some 100 }]

theorem fdToFdType_eq_registeredAs_shutDown :
    (after twoPortsConfig [3, 4] (shutDownAnswers (8, 9) (6, 7))).server.pfds.map Pollfd.fd = [5, 9, 6] ∧
      ∀ pfd ∈ (after twoPortsConfig [3, 4] (shutDownAnswers (8, 9) (6, 7))).server.pfds,
        ∃ fdType, (after twoPortsConfig [3, 4] (shutDownAnswers (8, 9)
            (6, 7))).server.fdToFdType.lookup pfd.fd = some fdType ∧
          registeredAs pfd.fd (after twoPortsConfig [3, 4] (shutDownAnswers (8, 9)
            (6, 7))).server.calls = some fdType ∧
          (after twoPortsConfig [3, 4] (shutDownAnswers (8, 9)
            (6, 7))).server.descriptors.lookup pfd.fd = some fdType := by
  have hreach : Reachable twoPortsConfig
      (after twoPortsConfig [3, 4] (shutDownAnswers (8, 9) (6, 7))) :=
    reachable_after (by decide +kernel) (by decide +kernel)
  exact ⟨by decide +kernel, fdToFdType_eq_registeredAs hreach (by decide +kernel)⟩

/-- The pipe to a CGI that gets the descriptor of a former listening socket is taken for one. -/
theorem not_fdToFdType_eq_registeredAs_shutDown : ¬ ∀ (config : Config) (w : World),
    Reachable config w → ∀ pfd ∈ w.server.pfds, ∃ fdType,
      w.server.fdToFdType.lookup pfd.fd = some fdType ∧
      registeredAs pfd.fd w.server.calls = some fdType := by
  intro h
  have hreach : Reachable twoPortsConfig
      (after twoPortsConfig [3, 4] (shutDownAnswers (3, 4) (6, 7))) :=
    reachable_after (by decide +kernel) (by decide +kernel)
  have hmem : { fd := 4, events := { pollout := true } } ∈
      (after twoPortsConfig [3, 4] (shutDownAnswers (3, 4) (6, 7))).server.pfds := by decide +kernel
  have htype : (after twoPortsConfig [3, 4] (shutDownAnswers (3, 4) (6, 7))).server.fdToFdType.lookup 4 =
      some .server := by decide +kernel
  have hregistered : registeredAs 4 (after twoPortsConfig [3, 4] (shutDownAnswers (3, 4)
      (6, 7))).server.calls = some .serverToCgi := by decide +kernel
  obtain ⟨fdType, htype', hregistered'⟩ := h _ _ hreach _ hmem
  cases (htype.symm.trans htype').trans (hregistered'.symm.trans hregistered)

end World

end Webserv
