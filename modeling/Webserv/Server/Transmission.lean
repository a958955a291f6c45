import Webserv.Foundations.Pieces
import Webserv.Server.Frames

/-!
# What reaches the other side

`_writeToClient` and `_writeToCGI` send a message in pieces, and go on by the length of a piece whatever
`write` returns. So the bytes that `write` does not accept are lost: a message arrives exactly if every
call accepts all that it is given (`transmits_iff`).
-/

namespace Webserv

open Exec Pieces

/-- Where the server writes to. -/
inductive Outlet
  | client
  | cgi

namespace Outlet

/-- What is written. -/
def message : Outlet → Client → Bytes
  | client, c => c.response
  | cgi, c => c.body

/-- How much of it has been handed to `write`. -/
def index : Outlet → Client → ℕ
  | client, c => c.responseIndex
  | cgi, c => c.bodyIndex

/-- The descriptor it is written to. -/
def fd : Outlet → Client → ℤ
  | client, c => c.clientFd
  | cgi, c => c.serverToCgiFd

/-- The length of the pieces. -/
def maxLen : Outlet → ℕ
  | client => Server.maxClientWriteLen
  | cgi => Server.maxCgiWriteLen

/-- The message is being written. -/
def IsWriting : Outlet → Client → Prop
  | client, c => c.serverToClientState = .writing
  | cgi, c => c.serverToCgiState = .writing

/-- The client after `n` more bytes were handed to `write`. -/
def advance : Outlet → ℕ → Client → Client
  | client, n, c => { c with responseIndex := c.responseIndex + n }
  | cgi, n, c => { c with bodyIndex := c.bodyIndex + n }

/-- The call that writes a piece. -/
def write : Outlet → Answers → ℕ → ServerM Unit
  | client, env, i => Server.writeToClient env i
  | cgi, env, i => Server.writeToCgi env i

/-- The call that closes the descriptor. -/
def remove : Outlet → Answers → ℤ → ServerM Unit
  | client, env, fd => Server.removeClient env fd
  | cgi, _, fd => Server.removeServerToCgiFd fd

/-- Several calls, one after another. -/
def writeAll (outlet : Outlet) (i : ℕ) : List Answers → ServerM Unit
  | [] => pure ()
  | env :: envs => do
    outlet.write env i
    writeAll outlet i envs

end Outlet

/-- The bytes that the call wrote to a descriptor. -/
def Call.written (fd : ℤ) : Call → Bytes
  | write fd' accepted => if fd' = fd then accepted else []
  | _ => []

/-- The bytes that were accepted by a descriptor, in order. -/
def History.written (fd : ℤ) (calls : List Call) : Bytes := calls.reverse.flatMap (Call.written fd)

namespace Server

open History

variable {env : Answers} {s : Server} {i : ℕ} {c : Client} {outlet : Outlet}

theorem written_cons (fd : ℤ) (call : Call) (calls : List Call) :
    written fd (call :: calls) = written fd calls ++ call.written fd := by
  simp [written]

theorem written_of_not_isOutput {fd : ℤ} {call : Call} (h : call.isOutput = false) :
    call.written fd = [] := by
  cases call with
  | write fd' accepted => cases h
  | _ => rfl

/-- Closing descriptors writes nothing. -/
theorem detached_written (fd : ℤ) (accepted : Bytes) :
    Detached fun s => written fd s.calls = accepted where
  clients _ hs := hs
  call hs hcall := by rw [written_cons, written_of_not_isOutput hcall, List.append_nil, hs]
  pfd hs _ _ := hs
  index _ hs := hs
  removeFd fd' := by
    have hswap : ∀ k, Preserves (fun s => written fd s.calls = accepted) (swapRemovePfd k) := by
      intro k
      refine .bind .get fun s => ?_
      split
      · exact .modify fun _ hs => hs
      · exact .throw _
    have hclose : Preserves (fun s => written fd s.calls = accepted) (close fd') := by
      refine .bind .get fun _ => .bind (.modify fun s hs => ?_) fun _ => .bind .get fun _ => ?_
      · rw [written_cons, hs]
        exact List.append_nil _
      · exact .ite (fun _ => .modify fun _ hs => hs) fun _ => .throw _
    have hremove : Preserves (fun s => written fd s.calls = accepted) (removePfd fd') := by
      refine .bind .get fun _ => .bind (preserves_lookupAt _ _) fun k => .bind .get fun s => ?_
      split
      · exact .throw _
      · exact .bind (.modify fun _ hs => hs) fun _ => .bind (hswap k) fun _ => .modify fun _ hs => hs
    exact .bind (preserves_assert _) fun _ => .bind hremove fun _ =>
      .bind (.modify fun _ hs => hs) fun _ => hclose

theorem remove_written (outlet : Outlet) (fd fd' : ℤ) (s : Server) :
    written fd (finalState (outlet.remove env fd' s)).calls = written fd s.calls := by
  cases outlet with
  | client => exact (detached_written fd _).removeClient fd' s rfl
  | cgi => exact (detached_written fd _).frame.removePipeFd (.inl rfl) fd' s rfl

/-! ## One call -/

/-- What a call hands to `write`. -/
def piece (outlet : Outlet) (c : Client) : Bytes :=
  ((outlet.message c).drop (outlet.index c)).take outlet.maxLen

/-- **What a call does** whose `write` accepts bytes. -/
theorem write_eq (hi : s.clients[i]? = some c) (hwriting : outlet.IsWriting c)
    (hleft : outlet.index c < (outlet.message c).length) {n : ℕ} (hwrite : env.write = some n)
    (hn : 0 < n) :
    outlet.write env i s =
      (if outlet.index c + (piece outlet c).length = (outlet.message c).length then
        outlet.remove env (outlet.fd c) else pure ())
      { s with
        clients := s.clients.set i (outlet.advance (piece outlet c).length c)
        calls := .write (outlet.fd c) ((piece outlet c).take n) :: s.calls } := by
  have hlen : min ((outlet.message c).length - outlet.index c) outlet.maxLen =
      (piece outlet c).length := by
    rw [piece, List.length_take, List.length_drop, Nat.min_comm]
  have hpiece : ((outlet.message c).drop (outlet.index c)).take (piece outlet c).length =
      piece outlet c := by
    rw [piece, List.length_take, ← List.take_eq_take_min]
  have hmax : 0 < outlet.maxLen := by cases outlet <;> decide
  have hpos : 0 < (piece outlet c).length := by omega
  have hsent : ∀ fd (s : Server), Server.write env fd (piece outlet c) s =
      .ok (some (min n (piece outlet c).length))
        { s with calls := .write fd ((piece outlet c).take n) :: s.calls } := by
    intro fd s
    rw [Server.write, hwrite]
    rfl
  have hsome : min n (piece outlet c).length ≠ 0 := by omega
  cases outlet with
  | client =>
    have hstate : c.serverToClientState = .writing := hwriting
    change writeToClient env i s = _
    rw [writeToClient, bind_of_ok (clientAt_of hi), bind_of_ok (assert_of hstate)]
    dsimp only [Outlet.message, Outlet.index, Outlet.maxLen] at hlen hpiece ⊢
    rw [hlen, bind_of_ok (assert_of hpos), hpiece, bind_of_ok (modifyClient_of hi _),
      bind_of_ok (hsent _ _)]
    dsimp only
    rw [bind_of_ok (assert_of hsome)]
    rfl
  | cgi =>
    have hstate : c.serverToCgiState = .writing := hwriting
    change writeToCgi env i s = _
    rw [writeToCgi, bind_of_ok (clientAt_of hi), bind_of_ok (assert_of hstate)]
    dsimp only [Outlet.message, Outlet.index, Outlet.maxLen] at hlen hpiece ⊢
    rw [hlen, bind_of_ok (assert_of hpos), hpiece, bind_of_ok (modifyClient_of hi _),
      bind_of_ok (hsent _ _)]
    dsimp only
    rw [bind_of_ok (assert_of hsome)]
    rfl

theorem advance_message (n : ℕ) : outlet.message (outlet.advance n c) = outlet.message c := by
  cases outlet <;> rfl

theorem advance_index (n : ℕ) : outlet.index (outlet.advance n c) = outlet.index c + n := by
  cases outlet <;> rfl

theorem advance_advance (m n : ℕ) : outlet.advance n (outlet.advance m c) = outlet.advance (m + n) c := by
  cases outlet <;> simp only [Outlet.advance, Nat.add_assoc]

theorem advance_zero : outlet.advance 0 c = c := by
  cases outlet <;> rfl

theorem advance_fd (n : ℕ) : outlet.fd (outlet.advance n c) = outlet.fd c := by
  cases outlet <;> rfl

theorem advance_isWriting {n : ℕ} (h : outlet.IsWriting c) :
    outlet.IsWriting (outlet.advance n c) := by
  cases outlet with
  | client => exact h
  | cgi => exact h

/-! ## Several calls -/

/-- How many bytes the calls of `write` accept. -/
def counts (envs : List Answers) : List ℕ := envs.map fun env => env.write.getD 0

/-- Every call of `write` accepts bytes. -/
def Succeeds (envs : List Answers) : Prop := ∀ env ∈ envs, ∃ n, env.write = some n ∧ 0 < n

/-- **What is accepted** by calls that are made while something is left. -/
theorem writeAll_written {envs : List Answers} (hi : s.clients[i]? = some c)
    (hwriting : outlet.IsWriting c) (hsucceeds : Succeeds envs)
    (hleft : ∀ j < envs.length, outlet.index c + outlet.maxLen * j < (outlet.message c).length) :
    written (outlet.fd c) (finalState (outlet.writeAll i envs s)).calls =
      written (outlet.fd c) s.calls ++
        through outlet.maxLen ((outlet.message c).drop (outlet.index c)) (counts envs) := by
  induction envs generalizing s c with
  | nil => exact (List.append_nil _).symm
  | cons env envs ih =>
    obtain ⟨n, hwrite, hn⟩ := hsucceeds env List.mem_cons_self
    have hfirst := hleft 0 (Nat.zero_lt_succ _)
    have heq := write_eq hi hwriting (by omega) hwrite hn
    have hlength : (piece outlet c).length =
        min outlet.maxLen ((outlet.message c).length - outlet.index c) := by
      rw [piece, List.length_take, List.length_drop]
    have hcounts : counts (env :: envs) = n :: counts envs := by rw [counts, List.map_cons, hwrite]; rfl
    have hwritten : ∀ calls,
        written (outlet.fd c) (.write (outlet.fd c) ((piece outlet c).take n) :: calls) =
          written (outlet.fd c) calls ++ (piece outlet c).take n := by
      intro calls
      rw [written_cons, Call.written, if_pos rfl]
    rw [hcounts, through, ← piece, List.drop_drop]
    by_cases hend : outlet.index c + (piece outlet c).length = (outlet.message c).length
    · -- nothing is left after the call
      have hnil : envs = [] := by
        cases envs with
        | nil => rfl
        | cons env' envs =>
          have hsecond := hleft 1 (by simp)
          omega
      subst hnil
      rw [if_pos hend] at heq
      have hfinal : (finalState (outlet.writeAll i [env] s)).calls =
          (finalState (outlet.write env i s)).calls := by
        rw [Outlet.writeAll, run_bind]
        cases outlet.write env i s with
        | ok a s' => rfl
        | error e s' => rfl
      rw [hfinal, heq, remove_written, hwritten, counts, List.map_nil, through, List.append_nil]
    · have hmax : (piece outlet c).length = outlet.maxLen := by omega
      rw [if_neg hend, hmax] at heq
      have hi₁ := getElem?_set_self_of hi (outlet.advance outlet.maxLen c)
      rw [Outlet.writeAll, bind_of_ok (heq.trans (run_pure () _))]
      have hrest := ih (s := { s with
        clients := s.clients.set i (outlet.advance outlet.maxLen c)
        calls := .write (outlet.fd c) ((piece outlet c).take n) :: s.calls }) hi₁
        (advance_isWriting hwriting) (fun env henv => hsucceeds env (List.mem_cons_of_mem _ henv)) ?_
      · rw [advance_fd, advance_message, advance_index, hwritten, List.append_assoc] at hrest
        exact hrest
      · intro j hj
        have hnext := hleft (j + 1) (Nat.succ_lt_succ hj)
        rw [advance_index, advance_message]
        rw [Nat.mul_succ] at hnext
        omega

/-- **What is left of the client** by calls after which something is left. -/
theorem writeAll_client {envs : List Answers} (hi : s.clients[i]? = some c)
    (hwriting : outlet.IsWriting c) (hsucceeds : Succeeds envs)
    (hleft : outlet.index c + outlet.maxLen * envs.length < (outlet.message c).length) :
    (finalState (outlet.writeAll i envs s)).clients[i]? =
      some (outlet.advance (outlet.maxLen * envs.length) c) := by
  induction envs generalizing s c with
  | nil => exact hi.trans (congrArg some advance_zero.symm)
  | cons env envs ih =>
    obtain ⟨n, hwrite, hn⟩ := hsucceeds env List.mem_cons_self
    rw [List.length_cons, Nat.mul_succ] at hleft
    have hmax : (piece outlet c).length = outlet.maxLen := by
      rw [piece, List.length_take, List.length_drop]
      omega
    have heq := write_eq hi hwriting (by omega) hwrite hn
    rw [hmax, if_neg (by omega)] at heq
    rw [Outlet.writeAll, bind_of_ok (heq.trans (run_pure () _)),
      ih (getElem?_set_self_of hi (outlet.advance outlet.maxLen c)) (advance_isWriting hwriting)
        (fun env henv => hsucceeds env (List.mem_cons_of_mem _ henv))
        (by rw [advance_index, advance_message]; omega),
      advance_advance, List.length_cons, Nat.mul_succ, Nat.add_comm]

/-! ## Messages -/

/-- The call brings the index to the end of the message, so that it closes the descriptor. -/
def Completes (outlet : Outlet) (i : ℕ) (s : Server) : Prop :=
  ∃ c, s.clients[i]? = some c ∧
    outlet.index c + (piece outlet c).length = (outlet.message c).length

/-- The next call completes the message if what is left before it is one piece. -/
theorem completes_iff {envs : List Answers} (hi : s.clients[i]? = some c)
    (hwriting : outlet.IsWriting c) (hstart : outlet.index c = 0) (hsucceeds : Succeeds envs)
    (hleft : outlet.maxLen * envs.length < (outlet.message c).length) :
    Completes outlet i (finalState (outlet.writeAll i envs s)) ↔
      (outlet.message c).length ≤ outlet.maxLen * (envs.length + 1) := by
  have hclient := writeAll_client hi hwriting hsucceeds (by omega)
  simp only [Completes, hclient, Option.some.injEq, exists_eq_left', advance_index, advance_message, hstart,
    piece, List.length_take, List.length_drop]
  rw [Nat.mul_succ]
  omega

/-- After every call, what was accepted is the beginning of the message, and it is the whole message
when the call has brought the index to its end and closed the descriptor. -/
def Transmits (outlet : Outlet) (i : ℕ) (s : Server) (c : Client) (envs : List Answers) : Prop :=
  ∀ k ≤ envs.length, ∃ accepted,
    written (outlet.fd c) (finalState (outlet.writeAll i (envs.take k) s)).calls =
      written (outlet.fd c) s.calls ++ accepted ∧
    accepted <+: outlet.message c ∧
    ∀ j, k = j + 1 → Completes outlet i (finalState (outlet.writeAll i (envs.take j) s)) →
      accepted = outlet.message c

/-- Every call of `write` accepts all that it is given. -/
def AcceptsAll (outlet : Outlet) (c : Client) (envs : List Answers) : Prop :=
  ∀ j env n, envs[j]? = some env → env.write = some n →
    min ((outlet.message c).length - outlet.maxLen * j) outlet.maxLen ≤ n

theorem whole_iff {envs : List Answers} (hsucceeds : Succeeds envs) :
    Whole outlet.maxLen (outlet.message c) (counts envs) ↔ AcceptsAll outlet c envs := by
  constructor
  · intro h j env n hj hn
    refine h j n ?_
    rw [counts, List.getElem?_map, hj, Option.map_some, hn]
    rfl
  · intro h j n hj
    rw [counts, List.getElem?_map] at hj
    obtain ⟨env, henv, rfl⟩ := Option.map_eq_some_iff.1 hj
    obtain ⟨n, hn, -⟩ := hsucceeds env (List.mem_of_getElem? henv)
    rw [hn]
    exact h j env n henv hn

/-- **When messages arrive**: if every call of `write` accepts all that it is given, and, for calls that
get to the end of the message, only then. -/
theorem transmits_iff {envs : List Answers} (hi : s.clients[i]? = some c) (hwriting : outlet.IsWriting c)
    (hstart : outlet.index c = 0) (hsucceeds : Succeeds envs)
    (hleft : ∀ j < envs.length, outlet.maxLen * j < (outlet.message c).length) :
    (AcceptsAll outlet c envs → Transmits outlet i s c envs) ∧
      ((outlet.message c).length ≤ outlet.maxLen * envs.length →
        (Transmits outlet i s c envs ↔ AcceptsAll outlet c envs)) := by
  have hwritten : ∀ k,
      written (outlet.fd c) (finalState (outlet.writeAll i (envs.take k) s)).calls =
        written (outlet.fd c) s.calls ++
          through outlet.maxLen (outlet.message c) (counts (envs.take k)) := by
    intro k
    have hsucceeds' : Succeeds (envs.take k) := fun env henv =>
      hsucceeds env (List.mem_of_mem_take henv)
    have hk := writeAll_written hi hwriting hsucceeds' fun j hj => by
      rw [List.length_take] at hj
      rw [hstart, Nat.zero_add]
      exact hleft j (by omega)
    rwa [hstart, List.drop_zero] at hk
  have hcompletes : ∀ j < envs.length, Completes outlet i (finalState (outlet.writeAll i (envs.take j) s)) ↔
      (outlet.message c).length ≤ outlet.maxLen * (j + 1) := by
    intro j hj
    have hlength : (envs.take j).length = j := by
      rw [List.length_take]
      omega
    have hiff : Completes outlet i (finalState (outlet.writeAll i (envs.take j) s)) ↔ _ :=
      completes_iff hi hwriting hstart (fun env henv => hsucceeds env (List.mem_of_mem_take henv))
        (by rw [hlength]; exact hleft j hj)
    rwa [hlength] at hiff
  have henough : AcceptsAll outlet c envs → Transmits outlet i s c envs := by
    intro h k hk
    have hwhole := ((whole_iff hsucceeds).2 h).take k
    have hcounts : (counts envs).take k = counts (envs.take k) := List.map_take.symm
    rw [hcounts] at hwhole
    have hlength : (counts (envs.take k)).length = k := by
      rw [counts, List.length_map, List.length_take, Nat.min_eq_left hk]
    refine ⟨_, hwritten k, ?_, fun j hj hend => ?_⟩
    · rw [through_of_whole hwhole]
      exact List.take_prefix _ _
    · rw [through_of_whole hwhole, hlength, hj]
      exact List.take_of_length_le ((hcompletes j (by omega)).1 hend)
  refine ⟨henough, fun hend => ⟨fun h => ?_, henough⟩⟩
  obtain ⟨accepted, haccepted, -, hall⟩ := h envs.length le_rfl
  rw [hwritten, List.take_length] at haccepted
  rcases Nat.eq_zero_or_eq_succ_pred envs.length with hnone | hlast
  · -- without calls there is nothing to accept
    rw [List.length_eq_zero_iff.1 hnone]
    intro j env n hj
    cases hj
  · rw [hlast] at hend
    rw [hall _ hlast ((hcompletes _ (by omega)).2 hend)] at haccepted
    have hsame := congrArg List.length (List.append_cancel_left haccepted)
    exact (whole_iff hsucceeds).1 (whole_of_length hsame)

/-- A client whose response is ready. -/
def readyClient : Client :=
  { Client.new 4 3 (bytes "80") 1 with response := bytes "ab", serverToClientState := .writing }

/-- The server that sends it. -/
def sendingServer : Server :=
  { empty with
    clients := [readyClient]
    pfds := [{ fd := 4, events := { pollin := true, pollout := true } }]
    fdToClientIndex := Finmap.insert 4 0 ∅
    fdToPfdIndex := Finmap.insert 4 0 ∅
    fdToFdType := Finmap.insert 4 .client ∅
    descriptors := Finmap.insert 4 .client ∅ }

theorem transmits_iff_two : Transmits .client 0 sendingServer readyClient [{ write := some 2 }] := by
  have hsucceeds : Succeeds [{ write := some 2 }] := by
    intro env henv
    rw [List.mem_singleton.1 henv]
    exact ⟨2, rfl, by decide⟩
  have hleft : ∀ j < 1, Outlet.client.maxLen * j < (Outlet.client.message readyClient).length := by
    decide +kernel
  have hwriting : Outlet.client.IsWriting readyClient := rfl
  have hi : sendingServer.clients[0]? = some readyClient := rfl
  have haccepts : AcceptsAll .client readyClient [{ write := some 2 }] := by
    intro j env n hj hn
    obtain ⟨rfl, rfl⟩ : j = 0 ∧ { write := some 2 } = env := by
      cases j with
      | zero => exact ⟨rfl, Option.some.inj hj⟩
      | succ j => cases hj
    cases hn
    decide +kernel
  exact ((transmits_iff hi hwriting rfl hsucceeds hleft).2 (by decide +kernel)).2 haccepts

/-- The second byte is lost when `write` accepts the first one only. -/
theorem not_transmits_short : ¬ ∀ (outlet : Outlet) (i : ℕ) (s : Server) (c : Client)
    (envs : List Answers), s.clients[i]? = some c → outlet.IsWriting c → outlet.index c = 0 →
    Succeeds envs → (∀ j < envs.length, outlet.maxLen * j < (outlet.message c).length) →
    Transmits outlet i s c envs := by
  intro h
  have hsucceeds : Succeeds [{ write := some 1 }] := by
    intro env henv
    rw [List.mem_singleton.1 henv]
    exact ⟨1, rfl, by decide⟩
  have hleft : ∀ j < 1, Outlet.client.maxLen * j < (Outlet.client.message readyClient).length := by
    decide +kernel
  obtain ⟨accepted, haccepted, -, hall⟩ :=
    h .client 0 sendingServer readyClient [{ write := some 1 }] rfl rfl rfl hsucceeds hleft 1 le_rfl
  have hone : written 4 (finalState
      (Outlet.client.writeAll 0 [{ write := some 1 }] sendingServer)).calls = bytes "a" := by
    decide +kernel
  have haccepted' : accepted = bytes "a" := haccepted.symm.trans hone
  have hwhole := hall 0 rfl ⟨readyClient, rfl, by decide +kernel⟩
  rw [haccepted'] at hwhole
  exact absurd hwhole (by decide)

end Server

end Webserv
