import Webserv.Server.Run

/-!
# The log of a run

What the results about whole runs say is read off the log: how often the request of a connection
was dispatched, what was read from it, whether it was given up, and as what a descriptor was
registered. A connection is over when its descriptor is accepted again, so these look at the calls
since then (`session`).
-/

namespace Webserv

namespace Call

/-- The call accepts a connection. -/
def accepts (fd : ℤ) : Call → Bool
  | acceptClient fd' => fd' = fd
  | _ => false

/-- The call dispatches the request of a connection. -/
def dispatches (fd : ℤ) : Call → Bool
  | dispatch c => c.clientFd = fd
  | _ => false

/-- The call gives up on the request of a connection: an exception was raised for it, or its removal
was requested. -/
def givesUp (fd : ℤ) : Call → Bool
  | respondClientException fd' => fd' = fd
  | removeClient c => c.clientFd = fd
  | _ => false

/-- The bytes that the call read from a connection. -/
def readFrom (fd : ℤ) : Call → Option Bytes
  | read fd' _ received => if fd' = fd then some received else none
  | _ => none

/-- The type as which the call registered a descriptor. -/
def registers (fd : ℤ) : Call → Option FdType
  | addFd fd' fdType => if fd' = fd then some fdType else none
  | _ => none

/-- The call reads from the connection of a client whose request was already complete. -/
def IsLateRead : Call → Bool
  | read _ c _ => c.clientToServerState = .done
  | _ => false

/-- The call requests the removal of a client between the kill and the reaping of its CGI. -/
def IsEarlyRemoval : Call → Bool
  | removeClient c => c.cgiKilled ∧ c.cgiPid ≠ -1
  | _ => false

/-- The call handles the events of a descriptor. -/
def isHandle : Call → Bool
  | handle _ _ => true
  | _ => false

/-- The call is none of those that the state of the server is compared with. -/
def Neutral : Call → Prop
  | respondClientException _ => True
  | removeClient _ => True
  | write _ _ => True
  | handle _ _ => True
  | _ => False

end Call

namespace History

/-- The calls since a connection was accepted, the latest first. -/
def session (fd : ℤ) (calls : List Call) : List Call := calls.takeWhile fun call => !call.accepts fd

/-- How often the request of a connection was dispatched. -/
def dispatches (fd : ℤ) (calls : List Call) : ℕ := (session fd calls).countP (Call.dispatches fd)

/-- What was read from a connection, in order. -/
def reads (fd : ℤ) (calls : List Call) : List Bytes :=
  ((session fd calls).filterMap (Call.readFrom fd)).reverse

/-- The request of a connection was given up. -/
def GivenUp (fd : ℤ) (calls : List Call) : Prop := ∃ call ∈ session fd calls, call.givesUp fd

/-- The type as which a descriptor was registered last. -/
def registeredAs (fd : ℤ) (calls : List Call) : Option FdType :=
  calls.findSome? (Call.registers fd)

/-- No bytes were read from the connection of a client whose request was already complete. -/
def NoLateRead (calls : List Call) : Prop :=
  ∀ fd c received, Call.read fd c received ∈ calls → c.clientToServerState ≠ .done

/-- No removal was requested for a client between the kill and the reaping of its CGI. -/
def NoEarlyRemoval (calls : List Call) : Prop :=
  ∀ c, Call.removeClient c ∈ calls → c.cgiKilled = true → c.cgiPid = -1

/-- Clients were only assigned to clients in the same `_chunked_read_state`, unless their requests
were given up before. -/
def SameChunkAssigns : List Call → Prop
  | [] => True
  | .assign this src :: calls =>
    (GivenUp src.clientFd calls ∨ this.chunkedReadState = src.chunkedReadState) ∧
      SameChunkAssigns calls
  | _ :: calls => SameChunkAssigns calls

variable {fd : ℤ} {call : Call} {calls : List Call}

theorem noLateRead_iff : NoLateRead calls ↔ ∀ call ∈ calls, call.IsLateRead = false := by
  refine ⟨fun h call hmem => ?_, fun h fd c received hmem => ?_⟩
  · cases call with
    | read fd c received => exact decide_eq_false (h fd c received hmem)
    | _ => rfl
  · exact of_decide_eq_false (h _ hmem)

theorem noEarlyRemoval_iff : NoEarlyRemoval calls ↔ ∀ call ∈ calls, call.IsEarlyRemoval = false := by
  refine ⟨fun h call hmem => ?_, fun h c hmem hkilled => ?_⟩
  · cases call with
    | removeClient c => exact decide_eq_false fun hc => hc.2 (h c hmem hc.1)
    | _ => rfl
  · by_contra hpid
    exact of_decide_eq_false (h _ hmem) ⟨hkilled, hpid⟩

instance : Decidable (NoLateRead calls) := decidable_of_iff _ noLateRead_iff.symm

instance : Decidable (NoEarlyRemoval calls) := decidable_of_iff _ noEarlyRemoval_iff.symm

instance : Decidable (GivenUp fd calls) := inferInstanceAs (Decidable (∃ call ∈ _, _))

instance decidableSameChunkAssigns : (calls : List Call) → Decidable (SameChunkAssigns calls)
  | [] => isTrue trivial
  | call :: calls =>
    have := decidableSameChunkAssigns calls
    match call with
    | .assign this src => inferInstanceAs (Decidable
      ((GivenUp src.clientFd calls ∨ this.chunkedReadState = src.chunkedReadState) ∧ _))
    | .addFd _ _ | .acceptClient _ | .read _ _ _ | .dispatch _ | .respondClientException _
    | .removeClient _ | .close _ _ | .write _ _ | .startCgi _ _ | .readCgi _ _ | .hangUp _
    | .waitpid _ _ | .cgiEnd _ | .handle _ _ => this

theorem SameChunkAssigns.tail (h : SameChunkAssigns (call :: calls)) : SameChunkAssigns calls := by
  cases call with
  | assign this src => exact h.2
  | _ => exact h

theorem NoLateRead.of_suffix {calls' : List Call} (h : NoLateRead calls') (hs : calls <:+ calls') :
    NoLateRead calls :=
  fun fd c received hmem => h fd c received (hs.subset hmem)

theorem NoEarlyRemoval.of_suffix {calls' : List Call} (h : NoEarlyRemoval calls')
    (hs : calls <:+ calls') : NoEarlyRemoval calls :=
  fun c hmem => h c (hs.subset hmem)

theorem SameChunkAssigns.of_suffix {calls' : List Call} (h : SameChunkAssigns calls')
    (hs : calls <:+ calls') : SameChunkAssigns calls := by
  induction calls' with
  | nil => rwa [List.suffix_nil.1 hs]
  | cons call' calls' ih =>
    rcases List.suffix_cons_iff.1 hs with rfl | hs
    · exact h
    · exact ih h.tail hs

/-! ## How a call extends the history -/

theorem session_cons (h : call.accepts fd = false) :
    session fd (call :: calls) = call :: session fd calls := by
  rw [session, List.takeWhile_cons_of_pos (by simp [h])]
  rfl

theorem session_accepted (h : call.accepts fd = true) : session fd (call :: calls) = [] :=
  List.takeWhile_cons_of_neg (by simp [h])

theorem reads_cons (h : call.accepts fd = false) (hread : call.readFrom fd = none) :
    reads fd (call :: calls) = reads fd calls := by
  rw [reads, session_cons h, List.filterMap_cons_none hread]
  rfl

theorem reads_read {received : Bytes} (hread : call.readFrom fd = some received)
    (h : call.accepts fd = false) : reads fd (call :: calls) = reads fd calls ++ [received] := by
  rw [reads, session_cons h, List.filterMap_cons_some hread, List.reverse_cons]
  rfl

theorem reads_accepted (h : call.accepts fd = true) : reads fd (call :: calls) = [] := by
  rw [reads, session_accepted h]
  rfl

theorem GivenUp.cons (h : call.accepts fd = false) (hgiven : GivenUp fd calls) :
    GivenUp fd (call :: calls) := by
  obtain ⟨call', hmem, hgives⟩ := hgiven
  refine ⟨call', ?_, hgives⟩
  rw [session_cons h]
  exact List.mem_cons_of_mem _ hmem

theorem GivenUp.head (h : call.accepts fd = false) (hgives : call.givesUp fd = true) :
    GivenUp fd (call :: calls) := by
  refine ⟨call, ?_, hgives⟩
  rw [session_cons h]
  exact List.mem_cons_self

/-- Calls that accept no connection give nothing back. -/
theorem GivenUp.append {new : List Call} (h : ∀ call ∈ new, call.accepts fd = false)
    (hgiven : GivenUp fd calls) : GivenUp fd (new ++ calls) := by
  induction new with
  | nil => exact hgiven
  | cons call new ih =>
    exact (ih fun call' hmem => h call' (List.mem_cons_of_mem _ hmem)).cons
      (h call List.mem_cons_self)

theorem registeredAs_cons (h : call.registers fd = none) :
    registeredAs fd (call :: calls) = registeredAs fd calls :=
  List.findSome?_cons_of_isNone (by simp [h])

theorem registeredAs_addFd (fdType : FdType) :
    registeredAs fd (.addFd fd fdType :: calls) = some fdType := by
  simp [registeredAs, Call.registers]

end History

end Webserv
