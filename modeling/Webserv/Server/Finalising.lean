import Webserv.Server.Records

/-!
# The end of a CGI

The output of a CGI ends and the child is reaped in any order, by a hang-up of its pipe and by a timeout
of `poll`; each of the two looks whether the other has happened. As long as no client is read from after
its request is complete, and none is removed between the kill and the reaping of its CGI, `_cgiEnd` is
called at most once for a connection, exactly when both have happened, and the response is then what was
read from the CGI (`cgi_finalised`).
-/

namespace Webserv

open Server History

namespace Call

/-- The call ends the CGI of a connection. -/
def endsCgi (fd : ℤ) : Call → Bool
  | cgiEnd c => c.clientFd = fd
  | _ => false

/-- The call ends a CGI. -/
def isCgiEnd : Call → Bool
  | cgiEnd _ => true
  | _ => false

/-- The bytes that the call read from the CGI of a connection. -/
def readFromCgi (fd : ℤ) : Call → Option Bytes
  | readCgi c received => if c.clientFd = fd then some received else none
  | _ => none

/-- The call neither accepts a connection, nor reads from its CGI or ends it. -/
def SparesCgi (fd : ℤ) (call : Call) : Prop :=
  call.accepts fd = false ∧ call.endsCgi fd = false ∧ call.readFromCgi fd = none

end Call

namespace History

/-- How often the CGI of a connection was ended. -/
def cgiEnds (fd : ℤ) (calls : List Call) : ℕ := (session fd calls).countP (Call.endsCgi fd)

/-- What was read from the CGI of a connection. -/
def cgiOutput (fd : ℤ) (calls : List Call) : Bytes :=
  ((session fd calls).filterMap (Call.readFromCgi fd)).reverse.flatten

variable {fd : ℤ} {call : Call} {new calls : List Call}

theorem cgiEnds_cons (h : call.accepts fd = false) :
    cgiEnds fd (call :: calls) = cgiEnds fd calls + if call.endsCgi fd then 1 else 0 := by
  rw [cgiEnds, session_cons h, List.countP_cons]
  rfl

theorem cgiOutput_cons (h : call.accepts fd = false) : cgiOutput fd (call :: calls) =
    cgiOutput fd calls ++ (call.readFromCgi fd).getD [] := by
  rw [cgiOutput, session_cons h]
  cases hread : call.readFromCgi fd with
  | none =>
    rw [List.filterMap_cons_none hread]
    exact (List.append_nil _).symm
  | some received =>
    rw [List.filterMap_cons_some hread, List.reverse_cons, List.flatten_append]
    simp [cgiOutput]

theorem cgiEnds_spared (h : ∀ call ∈ new, call.SparesCgi fd) :
    cgiEnds fd (new ++ calls) = cgiEnds fd calls := by
  induction new with
  | nil => rfl
  | cons call new ih =>
    obtain ⟨haccepts, hends, -⟩ := h call List.mem_cons_self
    rw [List.cons_append, cgiEnds_cons haccepts, hends, ih fun call' hmem =>
      h call' (List.mem_cons_of_mem _ hmem)]
    rfl

theorem cgiOutput_spared (h : ∀ call ∈ new, call.SparesCgi fd) :
    cgiOutput fd (new ++ calls) = cgiOutput fd calls := by
  induction new with
  | nil => rfl
  | cons call new ih =>
    obtain ⟨haccepts, -, hread⟩ := h call List.mem_cons_self
    rw [List.cons_append, cgiOutput_cons haccepts, hread, ih fun call' hmem =>
      h call' (List.mem_cons_of_mem _ hmem)]
    exact List.append_nil _

end History

namespace Client

/-- The output of the CGI has ended, and its child was reaped. -/
def CgiEnded (c : Client) : Prop := c.cgiPid = -1 ∧ c.cgiToServerState = .done

/-- The parts of a client that say how far its CGI is. -/
structure SameCgi (c c' : Client) : Prop where
  clientFd : c'.clientFd = c.clientFd
  cgiPid : c'.cgiPid = c.cgiPid
  cgiToServerState : c'.cgiToServerState = c.cgiToServerState
  response : c'.response = c.response
  cgiKilled : c.cgiKilled = true → c'.cgiKilled = true
  beingRemoved : c.beingRemoved = true → c'.beingRemoved = true

/-- How far the CGI of a client is, and what was logged about it. -/
structure Tracked (calls : List Call) (c : Client) : Prop where
  unread : c.cgiToServerState = .notReading → cgiOutput c.clientFd calls = []
  pending : ¬ c.CgiEnded → cgiEnds c.clientFd calls = 0
  collected : ¬ c.CgiEnded → c.cgiToServerState ≠ .notReading →
    c.response = cgiOutput c.clientFd calls
  ended : c.CgiEnded → c.cgiKilled = false → c.beingRemoved = false → cgiEnds c.clientFd calls = 1

variable {c c' : Client} {new calls : List Call}

theorem Tracked.same (h : c.Tracked calls) (hsame : SameCgi c c')
    (hnew : ∀ call ∈ new, call.SparesCgi c.clientFd) : c'.Tracked (new ++ calls) := by
  have hended : c'.CgiEnded ↔ c.CgiEnded := by
    rw [CgiEnded, CgiEnded, hsame.cgiPid, hsame.cgiToServerState]
  constructor
  · rw [hsame.clientFd, hsame.cgiToServerState, cgiOutput_spared hnew]
    exact h.unread
  · rw [hended, hsame.clientFd, cgiEnds_spared hnew]
    exact h.pending
  · rw [hended, hsame.clientFd, hsame.cgiToServerState, hsame.response, cgiOutput_spared hnew]
    exact h.collected
  · rw [hended, hsame.clientFd, cgiEnds_spared hnew]
    intro hend hkilled hremoved
    refine h.ended hend ?_ ?_
    · exact Bool.eq_false_iff.2 fun heq => Bool.false_ne_true (hkilled.symm.trans (hsame.cgiKilled heq))
    · exact Bool.eq_false_iff.2 fun heq => Bool.false_ne_true (hremoved.symm.trans (hsame.beingRemoved heq))

theorem SameCgi.refl (c : Client) : SameCgi c c := ⟨rfl, rfl, rfl, rfl, id, id⟩

/-- A read that completes no request twice is not about a CGI. -/
theorem Tracked.read {calls : List Call} (h : c.Tracked calls) (hfresh : c.Fresh)
    (hcore : c'.core = c.core) (hnew : ∀ call ∈ new, call.SparesCgi c.clientFd) :
    c'.Tracked (new ++ calls) := by
  have hfd : c'.clientFd = c.clientFd := (congrArg Client.clientFd hcore :)
  have hnone : c'.cgiToServerState = .notReading :=
    (congrArg Client.cgiToServerState hcore).trans hfresh.cgiToServerState
  have hold : ¬ c.CgiEnded := by
    rintro ⟨-, hdone⟩
    rw [hfresh.cgiToServerState] at hdone
    cases hdone
  constructor
  · intro _
    rw [hfd, cgiOutput_spared hnew]
    exact h.unread hfresh.cgiToServerState
  · intro _
    rw [hfd, cgiEnds_spared hnew]
    exact h.pending hold
  · exact fun _ hreading => absurd hnone hreading
  · rintro ⟨-, hdone⟩
    rw [hnone] at hdone
    cases hdone

/-- Bytes are read from the CGI. -/
theorem Tracked.readCgi {calls : List Call} {received : Bytes} (h : c.Tracked calls)
    (hreading : c.cgiToServerState = .reading) : Tracked (.readCgi c received :: calls)
      { c with response := c.response ++ received } := by
  have hpending : ¬ c.CgiEnded := by
    rintro ⟨-, hdone⟩
    rw [hreading] at hdone
    cases hdone
  have hoff : (Call.readCgi c received).accepts c.clientFd = false := rfl
  constructor
  · intro hnone
    rw [show c.cgiToServerState = .notReading from hnone] at hreading
    cases hreading
  · intro _
    rw [cgiEnds_cons hoff]
    exact h.pending hpending
  · intro _ _
    have hread : (Call.readCgi c received).readFromCgi c.clientFd = some received := if_pos rfl
    rw [cgiOutput_cons hoff, hread, h.collected hpending (by rw [hreading]; nofun)]
    rfl
  · exact fun hended => absurd hended hpending

/-- A response is prepared for a client whose CGI has ended, or that has none. -/
theorem Tracked.answer {calls : List Call} (h : c.Tracked calls) (hfd : c'.clientFd = c.clientFd)
    (hpid : c'.cgiPid = c.cgiPid) (hstate : c'.cgiToServerState = c.cgiToServerState)
    (hkilled : c'.cgiKilled = c.cgiKilled) (hremoved : c'.beingRemoved = c.beingRemoved)
    (hidle : c.cgiPid = -1) (hnot : c.cgiToServerState ≠ .reading) : c'.Tracked calls := by
  have hended : c'.CgiEnded ↔ c.CgiEnded := by rw [CgiEnded, CgiEnded, hpid, hstate]
  refine ⟨?_, ?_, fun hpending hreading => absurd ?_ hpending, ?_⟩
  · rw [hfd, hstate]
    exact h.unread
  · rw [hended, hfd]
    exact h.pending
  · rw [hstate] at hreading
    rw [hended]
    cases hdone : c.cgiToServerState with
    | notReading => exact absurd hdone hreading
    | reading => exact absurd hdone hnot
    | done => exact ⟨hidle, hdone⟩
  · rw [hended, hfd, hkilled, hremoved]
    exact h.ended

/-- A CGI is started for a client that was only read from. -/
theorem Tracked.start {calls : List Call} (h : c.Tracked calls) (hfresh : c.Fresh) (pid : ℤ)
    (toCgi : Option ℤ) (fromCgi : ℤ) (hnew : ∀ call ∈ new, call.SparesCgi c.clientFd) :
    (c.started pid toCgi fromCgi).Tracked (new ++ calls) := by
  have hfd : (c.started pid toCgi fromCgi).clientFd = c.clientFd := clientFd_started
  have hreading : (c.started pid toCgi fromCgi).cgiToServerState = .reading := by
    cases toCgi <;> rfl
  have hresponse : (c.started pid toCgi fromCgi).response = c.response := by
    cases toCgi <;> rfl
  have hold : ¬ c.CgiEnded := by
    rintro ⟨-, hdone⟩
    rw [hfresh.cgiToServerState] at hdone
    cases hdone
  refine ⟨fun hnone => ?_, fun _ => ?_, fun _ _ => ?_, fun hended => ?_⟩
  · rw [hreading] at hnone
    cases hnone
  · rw [hfd, cgiEnds_spared hnew]
    exact h.pending hold
  · rw [hresponse, hfresh.response, hfd, cgiOutput_spared hnew, h.unread hfresh.cgiToServerState]
  · have hdone := hended.2
    rw [hreading] at hdone
    cases hdone

/-- A connection is accepted. -/
theorem Tracked.fresh {call : Call} {calls : List Call} {fd serverFd : ℤ} {serverPort : Bytes}
    {clientMaxBodySize : ℕ} (h : call.accepts fd = true) :
    (Client.new fd serverFd serverPort clientMaxBodySize).Tracked (call :: calls) := by
  have hended : ¬ (Client.new fd serverFd serverPort clientMaxBodySize).CgiEnded := fun hended =>
    nomatch hended.2
  have hsession : session fd (call :: calls) = [] := session_accepted h
  refine ⟨fun _ => ?_, fun _ => ?_, fun _ hreading => absurd rfl hreading, fun hend => absurd hend hended⟩
  · rw [cgiOutput, show (Client.new fd serverFd serverPort clientMaxBodySize).clientFd = fd from rfl,
      hsession]
    rfl
  · rw [cgiEnds, show (Client.new fd serverFd serverPort clientMaxBodySize).clientFd = fd from rfl,
      hsession]
    rfl

end Client

namespace History

/-- No CGI was ended twice, and every one that was ended was complete. -/
structure EndedOnce (calls : List Call) : Prop where
  once : ∀ fd, cgiEnds fd calls ≤ 1
  complete : ∀ d before, .cgiEnd d :: before <:+ calls →
    d.CgiEnded ∧ d.response = cgiOutput d.clientFd before

variable {new calls : List Call} {call : Call} {d : Client}

theorem endedOnce_nil : EndedOnce [] where
  once _ := Nat.zero_le 1
  complete d before h := by simp at h

theorem EndedOnce.cons (h : EndedOnce calls) (hcall : call.isCgiEnd = false) :
    EndedOnce (call :: calls) where
  once fd := by
    cases haccepts : call.accepts fd with
    | true =>
      rw [cgiEnds, session_accepted haccepts]
      exact Nat.zero_le 1
    | false =>
      have hends : call.endsCgi fd = false := by
        cases call with
        | cgiEnd d => cases hcall
        | _ => rfl
      rw [cgiEnds_cons haccepts, hends]
      exact h.once fd
  complete d before hsuffix := by
    rcases List.suffix_cons_iff.1 hsuffix with heq | hsuffix
    · cases heq
      cases hcall
    · exact h.complete d before hsuffix

theorem EndedOnce.append (h : EndedOnce calls) (hnew : ∀ call ∈ new, call.isCgiEnd = false) :
    EndedOnce (new ++ calls) := by
  induction new with
  | nil => exact h
  | cons call new ih =>
    have hrest := ih fun call' hmem => hnew call' (List.mem_cons_of_mem _ hmem)
    exact hrest.cons (hnew call List.mem_cons_self)

/-- A CGI that has not ended before is ended. -/
theorem EndedOnce.cgiEnd (h : EndedOnce calls) (hended : d.CgiEnded)
    (hresponse : d.response = cgiOutput d.clientFd calls) (hfirst : cgiEnds d.clientFd calls = 0) :
    EndedOnce (.cgiEnd d :: calls) where
  once fd := by
    rw [cgiEnds_cons rfl]
    split_ifs with hfd
    · rw [← of_decide_eq_true hfd, hfirst]
    · exact h.once fd
  complete d' before hsuffix := by
    rcases List.suffix_cons_iff.1 hsuffix with heq | hsuffix
    · cases heq
      exact ⟨hended, hresponse⟩
    · exact h.complete d' before hsuffix

end History

namespace Server

variable {config : Config} {stage : Stage} {s s' : Server} {i : ℕ} {c c' : Client} {new : List Call}
  {call : Call}

/-- The CGIs were ended once, and those of the live clients are where their states say. -/
structure Finalised (s : Server) : Prop where
  ended : EndedOnce s.calls
  tracked : Recorded Client.Tracked s

theorem finalised_empty : Finalised empty := ⟨endedOnce_nil, recorded_empty⟩

theorem isCgiEnd_of_spares (h : ∀ fd, call.SparesCgi fd) : call.isCgiEnd = false := by
  cases call with
  | cgiEnd d => exact absurd (h d.clientFd).2.1 (by simp [Call.endsCgi])
  | _ => rfl

/-- Calls that are about no CGI, and a client that is not about its CGI. -/
theorem Finalised.congr (h : s.Finalised) (hclients : s'.clients = s.clients)
    (hcalls : s'.calls = new ++ s.calls) (hnew : ∀ call ∈ new, ∀ fd, call.SparesCgi fd) : s'.Finalised where
  ended := by
    rw [hcalls]
    exact h.ended.append fun call hmem => isCgiEnd_of_spares (hnew call hmem)
  tracked := h.tracked.congr hclients fun d _ hd => by
    rw [hcalls]
    exact hd.same (.refl d) fun call hmem => hnew call hmem _

theorem Finalised.set (h : s.Finalised) (hs : s.Good) (hi : s.clients[i]? = some c)
    (hclients : s'.clients = s.clients.set i c') (hcalls : s'.calls = new ++ s.calls)
    (hown : c.Tracked s.calls → c'.Tracked (new ++ s.calls)) (hended : EndedOnce (new ++ s.calls))
    (hnew : ∀ fd ≠ c.clientFd, ∀ call ∈ new, call.SparesCgi fd) : s'.Finalised where
  ended := hcalls ▸ hended
  tracked := by
    refine h.tracked.set hs hi hclients (fun hc => hcalls ▸ hown hc) fun d hne hd => ?_
    rw [hcalls]
    exact hd.same (.refl d) (hnew d.clientFd hne)

/-- A change of a client that is not about its CGI. -/
theorem Finalised.same (h : s.Finalised) (hs : s.Good) (hi : s.clients[i]? = some c)
    (hclients : s'.clients = s.clients.set i c') (hcalls : s'.calls = new ++ s.calls)
    (hsame : c.SameCgi c') (hnew : ∀ call ∈ new, ∀ fd, call.SparesCgi fd) : s'.Finalised :=
  h.set hs hi hclients hcalls (fun hc => hc.same hsame fun call hmem => hnew call hmem _)
    (h.ended.append fun call hmem => isCgiEnd_of_spares (hnew call hmem))
    fun _ _ call hmem => hnew call hmem _

theorem sparesCgi_readCalls (fd : ℤ) (c : Client) (received : Bytes) (dispatched : Option Client)
    (failed : Bool) : ∀ call ∈ readCalls fd c received dispatched failed, ∀ fd', call.SparesCgi fd' := by
  intro call hmem fd'
  rw [readCalls, List.mem_append, List.mem_append] at hmem
  rcases hmem with hmem | hmem | hmem
  · split_ifs at hmem
    · rw [List.mem_singleton.1 hmem]
      exact ⟨rfl, rfl, rfl⟩
    · cases hmem
  · obtain ⟨d, -, rfl⟩ := List.mem_map.1 hmem
    exact ⟨rfl, rfl, rfl⟩
  · rw [List.mem_singleton.1 hmem]
    exact ⟨rfl, rfl, rfl⟩

/-! ## The end -/

/-- What happens when the output of a CGI ends, or when its child is reaped: the CGI is ended if the
other has happened, too, and not if it was killed. -/
structure Finishes (c c' : Client) (ends : List Call) : Prop where
  clientFd : c'.clientFd = c.clientFd
  response : c'.response = c.response
  pending : ¬ c.CgiEnded
  reading : c.cgiToServerState ≠ .notReading
  reading' : c'.cgiToServerState ≠ .notReading
  ends : (ends = [.cgiEnd c'] ∧ c'.CgiEnded) ∨
    (ends = [] ∧ (c'.CgiEnded → c'.cgiKilled = true ∨ c'.beingRemoved = true))

variable {calls ends : List Call}

theorem Finishes.endedOnce (h : Finishes c c' ends) (hcalls : EndedOnce calls) (hc : c.Tracked calls)
    (hnew : ∀ call ∈ new, ∀ fd, call.SparesCgi fd) : EndedOnce (ends ++ (new ++ calls)) := by
  have hspares : ∀ call ∈ new, call.SparesCgi c.clientFd := fun call hmem => hnew call hmem _
  have hold := hcalls.append fun call hmem => isCgiEnd_of_spares (hnew call hmem)
  rcases h.ends with ⟨rfl, hended⟩ | ⟨rfl, -⟩
  · refine hold.cgiEnd hended ?_ ?_
    · rw [h.response, h.clientFd, cgiOutput_spared hspares]
      exact hc.collected h.pending h.reading
    · rw [h.clientFd, cgiEnds_spared hspares]
      exact hc.pending h.pending
  · exact hold

theorem Finishes.tracked (h : Finishes c c' ends) (hc : c.Tracked calls)
    (hnew : ∀ call ∈ new, ∀ fd, call.SparesCgi fd) : c'.Tracked (ends ++ (new ++ calls)) := by
  have hspares : ∀ call ∈ new, call.SparesCgi c.clientFd := fun call hmem => hnew call hmem _
  have hcount : cgiEnds c.clientFd (new ++ calls) = 0 := by
    rw [cgiEnds_spared hspares]
    exact hc.pending h.pending
  rcases h.ends with ⟨rfl, hended⟩ | ⟨rfl, hkilled⟩
  · refine ⟨fun hnone => absurd hnone h.reading', fun hpending => absurd hended hpending,
      fun hpending => absurd hended hpending, fun _ _ _ => ?_⟩
    have hend : (Call.cgiEnd c').endsCgi c.clientFd = true := decide_eq_true h.clientFd
    rw [h.clientFd, List.singleton_append, cgiEnds_cons rfl, hcount, hend]
    rfl
  · refine ⟨fun hnone => absurd hnone h.reading', fun _ => ?_, fun _ _ => ?_, fun hended hno hno' => ?_⟩
    · rw [h.clientFd]
      exact hcount
    · rw [h.response, h.clientFd, List.nil_append, cgiOutput_spared hspares]
      exact hc.collected h.pending h.reading
    · rcases hkilled hended with hyes | hyes
      · exact absurd (hno.symm.trans hyes) Bool.false_ne_true
      · exact absurd (hno'.symm.trans hyes) Bool.false_ne_true

/-- The output of the CGI of a client ends, or its child is reaped. -/
theorem Finalised.finish (h : s.Finalised) (hs : s.Good) (hi : s.clients[i]? = some c)
    (hclients : s'.clients = s.clients.set i c') (hcalls : s'.calls = ends ++ (new ++ s.calls))
    (hfinish : Finishes c c' ends) (hnew : ∀ call ∈ new, ∀ fd, call.SparesCgi fd) : s'.Finalised := by
  have hc := h.tracked c (List.mem_of_getElem? hi)
  rw [← List.append_assoc] at hcalls
  refine h.set hs hi hclients hcalls (fun hc => ?_) ?_ fun fd hne call hmem => ?_
  · rw [List.append_assoc]
    exact hfinish.tracked hc hnew
  · rw [List.append_assoc]
    exact hfinish.endedOnce h.ended hc hnew
  · rcases List.mem_append.1 hmem with hmem | hmem
    · rcases hfinish.ends with ⟨rfl, -⟩ | ⟨rfl, -⟩
      · rw [List.mem_singleton.1 hmem]
        exact ⟨rfl, decide_eq_false fun heq => hne (heq.symm.trans hfinish.clientFd), rfl⟩
      · cases hmem
    · exact hnew call hmem fd

/-- **Every change of a client keeps track of its CGI.** -/
theorem Finalised.change (h : s.Finalised) (hs : s.Good) (hi : s.clients[i]? = some c)
    (hchange : Change s.calls c new c') (hlate : NoLateRead (new ++ s.calls)) :
    Finalised { s with clients := s.clients.set i c', calls := new ++ s.calls } := by
  have hnil : ∀ call ∈ ([] : List Call), ∀ fd, call.SparesCgi fd := fun _ hmem => nomatch hmem
  cases hchange with
  | note _ hsame =>
    exact h.same hs hi rfl rfl ⟨(congrArg Client.clientFd hsame :), (congrArg Client.cgiPid hsame :),
      (congrArg Client.cgiToServerState hsame :), (congrArg Client.response hsame :),
      fun hkilled => (congrArg Client.cgiKilled hsame).trans hkilled,
      fun hremoved => (congrArg Client.beingRemoved hsame).trans hremoved⟩ hnil
  | read _ received dispatched failed hkept =>
    have hspares := sparesCgi_readCalls c.clientFd c received dispatched failed
    have hfresh : c.Fresh := (hs.sound_at hi).unread <| hlate c.clientFd c received <|
      mem_readCalls c.clientFd c received dispatched failed s.calls
    exact h.set hs hi rfl rfl (fun hc => hc.read hfresh hkept.core fun call hmem => hspares call hmem _)
      (h.ended.append fun call hmem => isCgiEnd_of_spares (hspares call hmem))
      fun _ _ call hmem => hspares call hmem _
  | readCgi received hreading =>
    refine h.set hs hi rfl rfl (fun hc => hc.readCgi hreading) (h.ended.cons rfl)
      fun fd hne call hmem => ?_
    rw [List.mem_singleton.1 hmem]
    exact ⟨rfl, rfl, if_neg hne.symm⟩
  | kill | giveUp | writeBody | writeResponse =>
    exact h.same hs hi rfl rfl ⟨rfl, rfl, rfl, rfl, fun hkilled => by first | rfl | exact hkilled, id⟩ hnil
  | remove d =>
    refine h.same hs hi rfl rfl ⟨rfl, rfl, rfl, rfl, id, fun _ => rfl⟩ fun call hmem fd => ?_
    rw [List.mem_singleton.1 hmem]
    exact ⟨rfl, rfl, rfl⟩

/-- **Every action keeps track of the CGIs.** -/
theorem Finalised.action (h : s.Finalised) (hs : s.Good) (haction : Action config stage s s')
    (hlate : NoLateRead s'.calls) (hearly : NoEarlyRemoval s'.calls) : s'.Finalised := by
  have hlate' := hlate.of_suffix haction.suffix
  have horderly := hs.orderly hlate' (hearly.of_suffix haction.suffix)
  have hone : ∀ {call : Call}, (∀ fd, call.SparesCgi fd) → ∀ call' ∈ [call], ∀ fd, call'.SparesCgi fd :=
    fun hcall call' hmem fd => List.mem_singleton.1 hmem ▸ hcall fd
  have hnil : ∀ call ∈ ([] : List Call), ∀ fd, call.SparesCgi fd := fun _ hmem => nomatch hmem
  cases haction with
  | kernel | polled => exact h.congr rfl rfl hnil
  | log call hneutral =>
    refine h.congr rfl rfl (hone fun fd => ?_)
    cases call <;> first | exact ⟨rfl, rfl, rfl⟩ | exact absurd hneutral id
  | close fd | shutDown fd =>
    have hclose : ∀ fd', (Call.close fd true).SparesCgi fd' := fun _ => ⟨rfl, rfl, rfl⟩
    exact h.congr rfl rfl (hone hclose)
  | change i c c' new hi hchange => exact h.change hs hi hchange hlate
  | stopReading i c k pfd hi => exact h.same hs hi rfl rfl ⟨rfl, rfl, rfl, rfl, id, id⟩ hnil
  | answer i c c' k pfd hi _ _ _ hsame _ _ hidle =>
    have hno := hidle hlate'
    have hnot : c.cgiToServerState ≠ .reading := fun hreading =>
      (hs.sound_at hi).fromCgi.2 hreading hno.cgiToServerFd
    have hcalls : s.calls = [] ++ s.calls := rfl
    refine h.set hs hi rfl hcalls (fun hc => ?_) h.ended fun _ _ _ hmem => nomatch hmem
    exact hc.answer (congrArg Client.clientFd hsame :) (congrArg Client.cgiPid hsame :)
      (congrArg Client.cgiToServerState hsame :) (congrArg Client.cgiKilled hsame :)
      (congrArg Client.beingRemoved hsame :) hno.cgiPid hnot
  | start i c pid toCgi fromCgi hi hpid _ _ _ _ _ _ hfirst =>
    have hnew : ∀ call ∈ Call.startCgi pid c :: .addFd fromCgi .cgiToServer ::
        toCgi.toList.map (fun fd => Call.addFd fd .serverToCgi), ∀ fd, call.SparesCgi fd := by
      intro call hmem fd
      cases toCgi with
      | none =>
        simp only [Option.toList_none, List.map_nil, List.mem_cons, List.not_mem_nil, or_false] at hmem
        rcases hmem with rfl | rfl <;> exact ⟨rfl, rfl, rfl⟩
      | some toFd =>
        simp only [Option.toList_some, List.map_cons, List.map_nil, List.mem_cons, List.not_mem_nil,
          or_false] at hmem
        rcases hmem with rfl | rfl | rfl <;> exact ⟨rfl, rfl, rfl⟩
    refine h.set hs hi rfl rfl (fun hc => ?_)
      (h.ended.append fun call hmem => isCgiEnd_of_spares (hnew call hmem))
      fun _ _ call hmem => hnew call hmem _
    exact hc.start (hfirst hlate') pid toCgi fromCgi fun call hmem => hnew call hmem _
  | release i c fdType k last new hi hpipe hfd _ _ hnew =>
    have hclose : ∀ fd', (Call.close (c.fdOf fdType) true).SparesCgi fd' := fun _ => ⟨rfl, rfl, rfl⟩
    rcases hpipe with rfl | rfl
    · obtain rfl : new = [] := hnew.elim And.left fun hother => nomatch hother.1
      exact h.same hs hi rfl rfl ⟨rfl, rfl, rfl, rfl, id, id⟩ (hone hclose)
    · have hreading : c.cgiToServerState = .reading := (hs.sound_at hi).fromCgi.1 hfd
      have hpending : ¬ c.CgiEnded := by
        rintro ⟨-, hdone⟩
        rw [hreading] at hdone
        cases hdone
      have hfinishes : ∀ ends : List Call, (ends = [.cgiEnd (c.release .cgiToServer)] ∧
          (c.release .cgiToServer).CgiEnded) ∨ (ends = [] ∧ ((c.release .cgiToServer).CgiEnded →
            (c.release .cgiToServer).cgiKilled = true ∨ (c.release .cgiToServer).beingRemoved = true)) →
          Finishes c (c.release .cgiToServer) ends := fun ends hends =>
        { clientFd := rfl
          response := rfl
          pending := hpending
          reading := by
            rw [hreading]
            nofun
          reading' := nofun
          ends := hends }
      have hhangUp : ∀ fd', (Call.hangUp (c.release .cgiToServer)).SparesCgi fd' :=
        fun _ => ⟨rfl, rfl, rfl⟩
      have htwo : ∀ call ∈ [Call.hangUp (c.release .cgiToServer), .close (c.fdOf .cgiToServer) true],
          ∀ fd', call.SparesCgi fd' := by
        intro call hmem fd'
        rcases List.mem_cons.1 hmem with rfl | hmem
        · exact hhangUp fd'
        · exact hone hclose call hmem fd'
      rcases hnew with ⟨rfl, hkilled⟩ | ⟨-, rfl⟩
      · exact h.finish hs hi rfl rfl (hfinishes [] (.inr ⟨rfl, fun _ => hkilled rfl⟩)) (hone hclose)
      · by_cases hpid : (c.release .cgiToServer).cgiPid = -1
        · have hcalls : hangUpCalls (c.release .cgiToServer) =
              [.cgiEnd (c.release .cgiToServer), .hangUp (c.release .cgiToServer)] := if_pos hpid
          rw [hcalls]
          exact h.finish hs hi rfl rfl (hfinishes _ (.inl ⟨rfl, hpid, rfl⟩)) htwo
        · have hcalls : hangUpCalls (c.release .cgiToServer) = [.hangUp (c.release .cgiToServer)] :=
            if_neg hpid
          rw [hcalls]
          exact h.finish hs hi rfl rfl
            (hfinishes [] (.inr ⟨rfl, fun hended => absurd hended.1 hpid⟩)) htwo
  | orphan i c d fd hi hpolls hnone hindex =>
    -- a pipe that is polled is held by the client that it leads to
    obtain ⟨e, he, hheld⟩ := horderly.attached fd .cgiToServer nofun hpolls
    obtain ⟨j, hj⟩ := List.mem_iff_getElem?.1 he
    have hne := hs.ne_neg_one hpolls.1
    have hslot := (hs.held j e .cgiToServer hj (hheld ▸ hne)).2
    obtain rfl := Option.some.inj (hindex.symm.trans (hheld ▸ hslot))
    obtain rfl := Option.some.inj (hi.symm.trans hj)
    exact absurd (hheld.symm.trans hnone) hne
  | wait pid =>
    have hwait : ∀ fd, (Call.waitpid pid s.errno).SparesCgi fd := fun _ => ⟨rfl, rfl, rfl⟩
    exact h.congr rfl rfl (hone hwait)
  | reap i c pid clientFd status hi _ _ hpid hindex _ _ hread =>
    obtain ⟨d, hd, rfl, hdpid, hne⟩ := horderly.reapable pid clientFd hpid
    obtain ⟨j, hj⟩ := List.mem_iff_getElem?.1 hd
    obtain rfl := Option.some.inj (hindex.symm.trans (hs.index_clientFd hj))
    obtain rfl := Option.some.inj (hi.symm.trans hj)
    have hwait : ∀ fd, (Call.waitpid pid s.errno).SparesCgi fd := fun _ => ⟨rfl, rfl, rfl⟩
    refine h.finish hs hi rfl (List.append_assoc _ _ _)
      { clientFd := rfl
        response := rfl
        pending := fun hended => hne (hdpid.symm.trans hended.1)
        reading := hread
        reading' := hread
        ends := ?_ } (hone hwait)
    split_ifs with hend
    · exact .inl ⟨rfl, rfl, hend.2⟩
    · refine .inr ⟨rfl, fun hended => .inr ?_⟩
      rw [← Bool.not_eq_false]
      exact fun hno => hend ⟨hno, hended.2⟩
  | accept fd serverFd serverPort hopen =>
    refine ⟨(h.ended.cons rfl).cons rfl, h.tracked.accept rfl ?_ fun d hd htracked => ?_⟩
    · exact .fresh (decide_eq_true rfl)
    · have hne := hs.clientFd_ne_of_canOpen hopen hd
      have hnew : ∀ call ∈ [Call.acceptClient fd, .addFd fd .client], call.SparesCgi d.clientFd := by
        intro call hmem
        rcases List.mem_cons.1 hmem with rfl | hmem
        · exact ⟨decide_eq_false hne.symm, rfl, rfl⟩
        · rw [List.mem_singleton.1 hmem]
          exact ⟨rfl, rfl, rfl⟩
      exact htracked.same (.refl d) hnew
  | erase i c last this src k lastPfd hi hlast =>
    have hnew : ∀ call ∈ [Call.assign this src, .close c.clientFd true], ∀ fd, call.SparesCgi fd := by
      intro call hmem fd
      rcases List.mem_cons.1 hmem with rfl | hmem
      · exact ⟨rfl, rfl, rfl⟩
      · rw [List.mem_singleton.1 hmem]
        exact ⟨rfl, rfl, rfl⟩
    have hsame : last.SameCgi (c.assign last) := ⟨rfl, rfl, rfl, rfl, id, id⟩
    refine ⟨(h.ended.cons rfl).cons rfl, h.tracked.erase hlast rfl (fun hlast' => ?_) fun d _ hd => ?_⟩
    · exact hlast'.same hsame fun call hmem => hnew call hmem _
    · exact hd.same (.refl d) fun call hmem => hnew call hmem _
  | listen fd =>
    have hadd : ∀ fd', (Call.addFd fd .server).SparesCgi fd' := fun _ => ⟨rfl, rfl, rfl⟩
    exact h.congr rfl rfl (hone hadd)

end Server

namespace World

variable {config : Config} {w : World}

/-- **A CGI is ended once, when it is complete**: in every run in which no client is read from after its
request is complete, and none is removed between the kill and the reaping of its CGI. -/
theorem cgi_finalised (h : Reachable config w) (hlate : NoLateRead w.server.calls)
    (hearly : NoEarlyRemoval w.server.calls) :
    (∀ fd, cgiEnds fd w.server.calls ≤ 1) ∧
      (∀ c ∈ w.server.clients, c.cgiKilled = false → c.beingRemoved = false →
        (cgiEnds c.clientFd w.server.calls = 1 ↔ c.CgiEnded)) ∧
      ∀ d before, .cgiEnd d :: before <:+ w.server.calls →
        d.CgiEnded ∧ d.response = cgiOutput d.clientFd before := by
  have hfinalised : w.server.Finalised :=
    h.invariant (I := fun s => NoLateRead s.calls → NoEarlyRemoval s.calls → s.Finalised)
      (fun _ _ => finalised_empty)
      (fun hs hold haction hlate' hearly' =>
        (hold (hlate'.of_suffix haction.suffix) (hearly'.of_suffix haction.suffix)).action hs haction hlate'
          hearly') hlate hearly
  refine ⟨hfinalised.ended.once, fun c hc hkilled hremoved => ⟨fun hone => ?_, fun hended => ?_⟩,
    hfinalised.ended.complete⟩
  · by_contra hpending
    rw [(hfinalised.tracked c hc).pending hpending] at hone
    cases hone
  · exact (hfinalised.tracked c hc).ended hended hkilled hremoved

/-- The output of the CGI is read, it ends, and the child is reaped. -/
def outputAnswers : List Answers :=
  cgiAnswers 4 getRequest 100 ++ ([{ poll := some fun fd => { pollin := fd = 7 } },
    { read := some (bytes "Content-Type: a\n\nb") }, {}, {}, {},
    { poll := some fun fd => { pollhup := fd = 7 } }, {}, {}, {}, {}, {},
    { waitpid := some (100, some 0) }] : List Answers)

theorem cgi_finalised_output : cgiEnds 4 (after cgiConfig [3] outputAnswers).server.calls = 1 ∧
    ∃ c ∈ (after cgiConfig [3] outputAnswers).server.clients, c.CgiEnded := by
  have hreach : Reachable cgiConfig (after cgiConfig [3] outputAnswers) :=
    reachable_after (by decide +kernel) (by decide +kernel)
  have hends : cgiEnds 4 (after cgiConfig [3] outputAnswers).server.calls = 1 := by decide +kernel
  have hclients : ((after cgiConfig [3] outputAnswers).server.clients[0]?.any fun c =>
      decide (c.clientFd = 4 ∧ c.cgiKilled = false ∧ c.beingRemoved = false)) = true := by decide +kernel
  obtain ⟨c, hi, hclient⟩ := (Option.any_eq_true _ _).1 hclients
  obtain ⟨hfd, hkilled, hremoved⟩ := of_decide_eq_true hclient
  have hc := List.mem_of_getElem? hi
  have hiff := (cgi_finalised hreach (by decide +kernel) (by decide +kernel)).2.1 c hc hkilled hremoved
  exact ⟨hends, c, hc, hiff.1 (hfd.symm ▸ hends)⟩

end World

end Webserv
