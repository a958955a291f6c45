import Webserv.Client.HeaderUse
import Webserv.Client.RequestHead
import Webserv.Client.RequestLine

/-!
# The order of header lines

The header phase on a request that arrives in one read: the request line is parsed, the fields of the
header lines are stored, and the headers are used. Only the second of these sees the lines, and it does
not see their order (`headerOrder_irrelevant`).
-/

namespace Webserv.Client

open Exec Search Utils Lines

/-- A request without a body: its request line, its header lines and a blank line. -/
def request (line : Bytes) (lines : List Bytes) : Bytes := unlines (line :: lines) ++ crlf

/-- What the header phase finds out about a request. -/
def told (c : Client) : Headers × ℕ × Bool × Bytes × Bytes × Bytes × ClientToServerState :=
  (c.headers, c.contentLength, c.isChunked, c.serverName, c.unuppercasedServerName, c.contentType,
    c.clientToServerState)

/-- The outcome of the header phase: the exception, or what it found out. -/
def outcome : EStateM.Result Fault Client Unit →
    Except Fault (Headers × ℕ × Bool × Bytes × Bytes × Bytes × ClientToServerState)
  | .ok _ c => .ok c.told
  | .error e _ => .error e

variable {c : Client} {line : Bytes} {lines lines' : List Bytes}

/-- A request that arrives in one read. -/
theorem appendReadString_request (hstate : c.clientToServerState = .header) (hheader : c.header = [])
    (hlines : ∀ l ∈ line :: lines, Free 13 10 l) (hne : ∀ l ∈ lines, l ≠ []) :
    appendReadString (request line lines) c = readHead (c.withHeader (unlines (line :: lines))) := by
  have hfind := find_blankLine hlines hne []
  have hlen : 2 ≤ (unlines (line :: lines)).length := by
    rw [unlines_eq_join, List.length_append]
    simp [crlf]
  have hlen' : crlf.length = 2 := rfl
  rw [List.append_nil] at hfind
  rw [appendReadString_header hstate, hheader, List.nil_append, request, hfind]
  dsimp only
  rw [Nat.sub_add_cancel hlen, List.take_left, List.drop_of_length_le (by simp [hlen']; omega)]
  rfl

/-! ## The header block is not looked at again -/

theorem withEncoding_withHeader (c : Client) (header : Bytes) :
    (c.withHeader header).withEncoding = c.withEncoding.withHeader header := by
  unfold withEncoding
  change (if c.headers.lookup (bytes "TRANSFER_ENCODING") = some (bytes "chunked") then _ else _) = _
  split_ifs <;> rfl

theorem usable_withHeader {header : Bytes} : (c.withHeader header).Usable ↔ c.Usable := by
  have hchunked : (c.withHeader header).withEncoding.isChunked = c.withEncoding.isChunked := by
    rw [withEncoding_withHeader]
    rfl
  constructor
  · intro h
    exact ⟨fun value hvalue => hchunked ▸ h.length value hvalue, h.host⟩
  · intro h
    exact ⟨fun value hvalue => hchunked.symm ▸ h.length value hvalue, h.host⟩

theorem told_settled_withHeader (c : Client) (header : Bytes) :
    ((c.withHeader header).settled).told = c.settled.told := by
  unfold settled
  rw [withEncoding_withHeader]
  rfl

/-- What `_useHeaders` does, and then the end of the header phase. -/
theorem outcome_useHeaders (c : Client) (header : Bytes) :
    outcome ((useHeaders >>= fun _ => startBody []) (c.withHeader header)) =
      outcome ((useHeaders >>= fun _ => startBody []) c) := by
  by_cases h : c.Usable
  · have hmethod : (c.withHeader header).settled.requestMethod = c.settled.requestMethod := by
      unfold settled
      rw [withEncoding_withHeader]
      rfl
    have htold := told_settled_withHeader c header
    simp only [told, Prod.mk.injEq] at htold
    rw [bind_of_ok (useHeaders_of_usable h), bind_of_ok (useHeaders_of_usable (usable_withHeader.2 h)),
      startBody_nil, startBody_nil, outcome, outcome, hmethod, htold.2.1, htold.2.2.1]
    split_ifs <;> simp only [told, htold]
  · obtain ⟨c₁, h₁⟩ := useHeaders_of_not_usable h
    obtain ⟨c₂, h₂⟩ := useHeaders_of_not_usable (usable_withHeader.not.2 h)
    rw [bind_of_error h₁, bind_of_error h₂]
    rfl

/-- The header phase on header lines, given what the request line says. -/
theorem outcome_readHead {method : RequestMethod} {target protocol : Bytes}
    (hparse : ∀ c, parseRequestLine line c = .ok () { c with
      requestMethod := method, requestTarget := target, protocol := protocol })
    (hheaders : c.headers = ∅) (hlines : ∀ l ∈ line :: lines, Free 13 10 l) :
    outcome (readHead (c.withHeader (unlines (line :: lines)))) =
      if (fillHeaders lines ∅).1 then
        outcome ((useHeaders >>= fun _ => startBody []) { c with
          requestMethod := method, requestTarget := target, protocol := protocol,
          headers := (fillHeaders lines ∅).2 })
      else .error (.clientException .badRequest) := by
  have hblock := readHeaderBlock_eq (c := c.withHeader (unlines (line :: lines)))
    (getHeaderLines_unlines hlines)
  rw [hparse] at hblock
  have hempty : (c.withHeader (unlines (line :: lines))).headers = ∅ := hheaders
  dsimp only at hblock
  rw [hempty] at hblock
  split_ifs at hblock ⊢
  · rw [readHead, run_bind, hblock, ← outcome_useHeaders _ (unlines (line :: lines)), run_bind]
    rfl
  · rw [readHead, bind_of_error hblock]
    rfl

/-- The headers that a request leaves are the fields of its lines. -/
theorem headers_of_readHead {method : RequestMethod} {target protocol : Bytes} {c' : Client}
    (hparse : ∀ c, parseRequestLine line c = .ok () { c with
      requestMethod := method, requestTarget := target, protocol := protocol })
    (hheaders : c.headers = ∅) (hlines : ∀ l ∈ line :: lines, Free 13 10 l)
    (h : readHead (c.withHeader (unlines (line :: lines))) = .ok () c') :
    (fillHeaders lines ∅).1 = true ∧ c'.headers = (fillHeaders lines ∅).2 := by
  have houtcome := outcome_readHead hparse hheaders hlines
  rw [h] at houtcome
  by_cases haccepted : (fillHeaders lines ∅).1 = true
  swap
  · rw [if_neg haccepted] at houtcome
    cases houtcome
  rw [if_pos haccepted] at houtcome
  refine ⟨haccepted, ?_⟩
  generalize hc₁ : ({ c with
    requestMethod := method, requestTarget := target, protocol := protocol,
    headers := (fillHeaders lines ∅).2 } : Client) = c₁ at houtcome
  have hheaders₁ : c₁.headers = (fillHeaders lines ∅).2 := by rw [← hc₁]
  by_cases husable : c₁.Usable
  · have hsettled : c₁.settled.headers = c₁.headers := withEncoding_headers c₁
    rw [bind_of_ok (useHeaders_of_usable husable), startBody_nil] at houtcome
    have htold := congrArg Prod.fst (Except.ok.inj houtcome)
    rw [← hheaders₁, ← hsettled]
    refine htold.trans ?_
    split_ifs <;> rfl
  · obtain ⟨c₂, h₂⟩ := useHeaders_of_not_usable husable
    rw [bind_of_error h₂] at houtcome
    cases houtcome

/-- The header phase throws what `_parseRequestLine` throws. -/
theorem readHead_of_error {status : Status} (hlines : ∀ l ∈ line :: lines, Free 13 10 l)
    (hparse : ∀ c, ∃ c', parseRequestLine line c = .error (.clientException status) c') :
    ∃ c', readHead (c.withHeader (unlines (line :: lines))) = .error (.clientException status) c' := by
  obtain ⟨c', hc'⟩ := hparse (c.withHeader (unlines (line :: lines)))
  have hblock := readHeaderBlock_eq (c := c.withHeader (unlines (line :: lines)))
    (getHeaderLines_unlines hlines)
  rw [hc'] at hblock
  exact ⟨c', bind_of_error hblock⟩

theorem outcome_perm (hheaders : c.headers = ∅) (hlines : ∀ l ∈ line :: lines, Free 13 10 l)
    (hperm : lines.Perm lines') :
    outcome (readHead (c.withHeader (unlines (line :: lines)))) =
      outcome (readHead (c.withHeader (unlines (line :: lines')))) := by
  have hlines' : ∀ l ∈ line :: lines', Free 13 10 l :=
    fun l hl => hlines l ((hperm.cons line).mem_iff.2 hl)
  rcases parseRequestLine_uniform line with ⟨status, hparse⟩ | ⟨method, target, protocol, hparse⟩
  · obtain ⟨c₁, h₁⟩ := readHead_of_error (c := c) hlines hparse
    obtain ⟨c₂, h₂⟩ := readHead_of_error (c := c) hlines' hparse
    rw [h₁, h₂, outcome, outcome]
  · obtain ⟨haccepts, hfilled⟩ := fillHeaders_perm hperm ∅
    rw [outcome_readHead hparse hheaders hlines, outcome_readHead hparse hheaders hlines', haccepts]
    split_ifs with haccepted
    · rw [hfilled (haccepts.trans haccepted)]
    · rfl

theorem fields_of_readHead {c' : Client} (hheaders : c.headers = ∅)
    (hlines : ∀ l ∈ line :: lines, Free 13 10 l)
    (h : readHead (c.withHeader (unlines (line :: lines))) = .ok () c') :
    ∃ fields, List.Forall₂ IsField lines fields ∧ (fields.map Prod.fst).Nodup ∧
      ∀ key value, c'.headers.lookup key = some value ↔ (key, value) ∈ fields := by
  rcases parseRequestLine_uniform line with ⟨status, hparse⟩ | ⟨method, target, protocol, hparse⟩
  · obtain ⟨c₁, h₁⟩ := readHead_of_error (c := c) hlines hparse
    rw [h₁] at h
    cases h
  · obtain ⟨haccepted, hfilled⟩ := headers_of_readHead hparse hheaders hlines h
    obtain ⟨hall, hnodup, -⟩ := fillHeaders_accepts.1 haccepted
    refine ⟨fieldsOf lines, forall₂_fieldsOf hall, hnodup, fun key value => ?_⟩
    rw [hfilled, lookup_fillHeaders haccepted]
    simp

/-- The header phase throws client exceptions only. -/
theorem isClientException_of_readHead {e : Fault} (hline : Free 13 10 line)
    (hc : (c.withHeader (unlines (line :: lines))).IsFresh)
    (h : outcome (readHead (c.withHeader (unlines (line :: lines)))) = .error e) :
    IsClientException e := by
  have hfind : find crlf (c.withHeader (unlines (line :: lines))).header = some line.length := by
    change find crlf (unlines (line :: lines)) = _
    rw [unlines_cons, List.append_assoc]
    exact find_pair_append (by decide) hline _
  obtain ⟨status, c', herror, -⟩ | ⟨c', hok, -⟩ := readHead_cases hc hfind
  · rw [herror] at h
    cases h
    exact ⟨status, rfl⟩
  · rw [hok] at h
    cases h

/-- **The order of the header lines is irrelevant**: with the lines in another order, the header phase
throws the same exception, or finds out the same. If it throws nothing, the headers are the fields of
the lines, one for each, with distinct names. -/
theorem headerOrder_irrelevant (clientFd serverFd : ℤ) (serverPort : Bytes) (clientMaxBodySize : ℕ)
    (hline : Free 13 10 line) (hlines : ∀ l ∈ lines, Free 13 10 l ∧ l ≠ [])
    (hperm : lines.Perm lines') :
    (outcome (appendReadString (request line lines)
        (new clientFd serverFd serverPort clientMaxBodySize)) =
      outcome (appendReadString (request line lines')
        (new clientFd serverFd serverPort clientMaxBodySize)) ∧
      ∀ e, outcome (appendReadString (request line lines)
        (new clientFd serverFd serverPort clientMaxBodySize)) = .error e → IsClientException e) ∧
    ∀ c, appendReadString (request line lines)
        (new clientFd serverFd serverPort clientMaxBodySize) = .ok () c →
      ∃ fields, List.Forall₂ IsField lines fields ∧ (fields.map Prod.fst).Nodup ∧
        ∀ key value, c.headers.lookup key = some value ↔ (key, value) ∈ fields := by
  have hfree : ∀ l ∈ line :: lines, Free 13 10 l :=
    List.forall_mem_cons.2 ⟨hline, fun l hl => (hlines l hl).1⟩
  have hfree' : ∀ l ∈ line :: lines', Free 13 10 l :=
    fun l hl => hfree l ((hperm.cons line).mem_iff.2 hl)
  rw [appendReadString_request rfl rfl hfree fun l hl => (hlines l hl).2,
    appendReadString_request rfl rfl hfree' fun l hl => (hlines l (hperm.mem_iff.2 hl)).2]
  refine ⟨⟨outcome_perm rfl hfree hperm, fun e he => ?_⟩, fun c hc => fields_of_readHead rfl hfree hc⟩
  exact isClientException_of_readHead hline (isFresh_new _ _ _ _ _) he

/-- A request with three header lines, whose order is reversed. -/
theorem headerOrder_irrelevant_reversed :
    outcome (appendReadString (request (bytes "GET / HTTP/1.1")
        [bytes "Host: a", bytes "Content-Type: b", bytes "X: c"]) (new 4 3 (bytes "80") 1000)) =
      outcome (appendReadString (request (bytes "GET / HTTP/1.1")
        [bytes "X: c", bytes "Content-Type: b", bytes "Host: a"]) (new 4 3 (bytes "80") 1000)) := by
  refine (headerOrder_irrelevant 4 3 (bytes "80") 1000 ?_ ?_ ?_).1.1
  · exact free_of_notMem (by decide)
  · intro l hl
    have hfeed : ∀ l ∈ [bytes "Host: a", bytes "Content-Type: b", bytes "X: c"],
        (10 : UInt8) ∉ l ∧ l ≠ [] := by
      decide
    exact ⟨free_of_notMem (hfeed l hl).1, (hfeed l hl).2⟩
  · exact (List.reverse_perm [bytes "X: c", bytes "Content-Type: b", bytes "Host: a"])

end Webserv.Client
