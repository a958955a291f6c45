import Webserv.Client.ChunkGrammar
import Webserv.Client.Feed

/-!
# What the header phase can end in

The header phase throws a `ClientException`, or it completes a request without a body, or it leaves
a client that is ready to read a chunked body or one of known length (`readHead_cases`).
-/

namespace Webserv.Client

open Exec Search Chunked

/-! ## What the header phase changes, and what it throws -/

/-- A client without what its header block says. -/
def withoutHead (c : Client) : Client :=
  { c with
    requestMethod := .none
    requestTarget := []
    protocol := []
    headers := ∅
    isChunked := false
    contentLength := 0
    serverName := []
    unuppercasedServerName := []
    contentType := [] }

/-- What only `useFraming` changes, of what a header block says. -/
def framing (c : Client) : Client × Bool × ℕ := (c.withoutHead, c.isChunked, c.contentLength)

/-- A client without what the headers say beside the framing. -/
def withoutNames (c : Client) : Client :=
  { c with serverName := [], unuppercasedServerName := [], contentType := [] }

/-- The exceptions that `_handlePollin` catches. -/
def IsClientException (e : Fault) : Prop := ∃ status, e = .clientException status

theorem keeps_parseRequestLine (line : Bytes) : Keeps framing (parseRequestLine line) := by
  unfold parseRequestLine
  split
  · exact .throw _
  · refine .bind ?_ fun method => .bind (.modify fun _ => rfl) fun _ => ?_
    · unfold getRequestMethodEnumFromString
      exact .ite (.pure _) (.ite (.pure _) (.ite (.pure _) (.throw _)))
    split
    · exact .throw _
    · refine .ite (.throw _) (.bind (.modify fun _ => rfl) fun _ => .ite (.throw _) ?_)
      exact .bind (.modify fun _ => rfl) fun _ =>
        .bind (.modify fun _ => rfl) fun _ => .ite (.pure _) (.throw _)

theorem throws_parseRequestLine (line : Bytes) :
    Throws IsClientException (parseRequestLine line) := by
  have hraise : ∀ status, IsClientException (.clientException status) := fun s => ⟨s, rfl⟩
  unfold parseRequestLine
  split
  · exact .throw (hraise _)
  · refine .bind ?_ fun method => .bind (.modify _) fun _ => ?_
    · unfold getRequestMethodEnumFromString
      exact .ite (.pure _) (.ite (.pure _) (.ite (.pure _) (.throw (hraise _))))
    split
    · exact .throw (hraise _)
    · refine .ite (.throw (hraise _)) (.bind (.modify _) fun _ => .ite (.throw (hraise _)) ?_)
      exact .bind (.modify _) fun _ => .bind (.modify _) fun _ => .ite (.pure _) (.throw (hraise _))

/-- The client once `Transfer-Encoding` was looked at. -/
def withEncoding (c : Client) : Client :=
  if c.headers.lookup (bytes "TRANSFER_ENCODING") = some (bytes "chunked") then
    { c with isChunked := true }
  else c

@[simp] theorem withEncoding_headers (c : Client) : c.withEncoding.headers = c.headers := by
  unfold withEncoding
  split_ifs <;> rfl

@[simp] theorem withEncoding_requestMethod (c : Client) :
    c.withEncoding.requestMethod = c.requestMethod := by
  unfold withEncoding
  split_ifs <;> rfl

@[simp] theorem withEncoding_contentLength (c : Client) :
    c.withEncoding.contentLength = c.contentLength := by
  unfold withEncoding
  split_ifs <;> rfl

@[simp] theorem withEncoding_withoutHead (c : Client) :
    c.withEncoding.withoutHead = c.withoutHead := by
  unfold withEncoding
  split_ifs <;> rfl

theorem withEncoding_isChunked {c : Client} (h : c.isChunked = false) :
    c.withEncoding.isChunked = true ↔
      c.headers.lookup (bytes "TRANSFER_ENCODING") = some (bytes "chunked") := by
  unfold withEncoding
  split_ifs with hte
  · simp [hte]
  · simp [hte, h]

/-- A body is chunked or has a length that fits into a `size_t`, not both. -/
theorem useFraming_eq (c : Client) : useFraming c =
    match c.headers.lookup (bytes "CONTENT_LENGTH") with
    | none => .ok () c.withEncoding
    | some value =>
      if c.withEncoding.isChunked then .error (.clientException .badRequest) c.withEncoding
      else
        let p := Utils.parseNumber value (sizeModulus - 1)
        if p.1 then .ok () { c.withEncoding with contentLength := p.2 }
        else .error (.clientException .badRequest) { c.withEncoding with contentLength := p.2 } := by
  unfold useFraming withEncoding
  by_cases h : c.headers.lookup (bytes "TRANSFER_ENCODING") = some (bytes "chunked")
  · simp only [run_bind, run_get, h, if_true, run_modify]
    cases c.headers.lookup (bytes "CONTENT_LENGTH") <;> rfl
  · simp only [run_bind, run_get, h, if_false]
    cases c.headers.lookup (bytes "CONTENT_LENGTH") with
    | none => rfl
    | some value =>
      rcases hp : Utils.parseNumber value (sizeModulus - 1) with ⟨accepted, number⟩
      cases hc : c.isChunked <;> cases accepted <;> simp [hc, hp, raise]

/-- `useFraming` throws, or it settles the framing; it never leaves a chunked body with a
length. -/
theorem useFraming_cases (c : Client) :
    (∃ e c', useFraming c = .error e c' ∧ IsClientException e ∧ c'.withoutHead = c.withoutHead) ∨
    ∃ c', useFraming c = .ok () c' ∧ c'.withoutHead = c.withoutHead ∧
      (c'.isChunked = true → c'.contentLength = c.contentLength) := by
  have hwithout := c.withEncoding_withoutHead
  rw [useFraming_eq]
  split
  · exact .inr ⟨_, rfl, hwithout, fun _ => c.withEncoding_contentLength⟩
  · split
    · exact .inl ⟨_, _, rfl, ⟨_, rfl⟩, hwithout⟩
    · rename_i hchunked
      dsimp only
      split
      · exact .inr ⟨_, rfl, hwithout, fun h => absurd h hchunked⟩
      · exact .inl ⟨_, _, rfl, ⟨_, rfl⟩, hwithout⟩

theorem keeps_useHost : Keeps withoutNames useHost := by
  refine .bind .get fun c => ?_
  split
  · exact .throw _
  · split
    · exact .modify fun _ => rfl
    · exact .ite (.throw _) (.modify fun _ => rfl)

theorem throws_useHost : Throws IsClientException useHost := by
  refine .bind .get fun c => ?_
  split
  · exact .throw ⟨_, rfl⟩
  · split
    · exact .modify _
    · exact .ite (.throw ⟨_, rfl⟩) (.modify _)

theorem keeps_useContentType : Keeps withoutNames useContentType := by
  refine .bind .get fun c => ?_
  split
  · exact .pure _
  · exact .modify fun _ => rfl

theorem throws_useContentType : Throws IsClientException useContentType := by
  refine .bind .get fun c => ?_
  split
  · exact .pure _
  · exact .modify _

/-- The part of `_useHeaders` that does not touch the framing. -/
def useNames : ClientM Unit := do
  useHost
  useContentType

theorem useHeaders_eq : useHeaders = useFraming >>= fun _ => useNames := rfl

theorem keeps_useNames : Keeps withoutNames useNames :=
  keeps_useHost.bind fun _ => keeps_useContentType

theorem throws_useNames : Throws IsClientException useNames :=
  throws_useHost.bind fun _ => throws_useContentType

/-- What the header phase leaves, in terms of what it found: it throws a `ClientException`, or it
settles the framing. In both cases nothing but what the header block says has changed. -/
def Settles (x : ClientM Unit) (c : Client) : Prop :=
  (∃ e c', x c = .error e c' ∧ IsClientException e ∧ c'.withoutHead = c.withoutHead) ∨
    ∃ c', x c = .ok () c' ∧ c'.withoutHead = c.withoutHead ∧
      (c'.isChunked = true → c'.contentLength = c.contentLength)

theorem useHeaders_settles (c : Client) : Settles useHeaders c := by
  have htail : Keeps framing useNames :=
    keeps_useNames.of_comp framing fun _ => rfl
  unfold Settles
  rw [useHeaders_eq, run_bind]
  obtain ⟨e, c₁, h₁, he, hc₁⟩ | ⟨c₁, h₁, hc₁, hlen⟩ := useFraming_cases c
  · rw [h₁]
    exact .inl ⟨e, c₁, rfl, he, hc₁⟩
  · rw [h₁]
    obtain ⟨e, c₂, h₂, he, hc₂⟩ | ⟨_, c₂, h₂, hc₂⟩ := htail.cases throws_useNames c₁
    · exact .inl ⟨e, c₂, h₂, he, (congrArg Prod.fst hc₂).trans hc₁⟩
    · refine .inr ⟨c₂, h₂, (congrArg Prod.fst hc₂).trans hc₁, fun hchunked => ?_⟩
      have hframing := congrArg Prod.snd hc₂
      simp only [framing, Prod.mk.injEq] at hframing
      rw [hframing.2, hlen (hframing.1 ▸ hchunked)]

/-- A header block has a first line. -/
theorem getHeaderLines_ne_nil {header : Bytes} {i : ℕ} (h : find crlf header = some i) :
    getHeaderLines header ≠ [] := by
  simp [getHeaderLines, linesFrom, h]

/-- The client once the fields of its header block were read. -/
def withHeaders (c : Client) (headers : Headers) : Client := { c with headers := headers }

theorem readHeaderBlock_eq {c : Client} {line : Bytes} {lines : List Bytes}
    (h : getHeaderLines c.header = line :: lines) : readHeaderBlock c =
      match parseRequestLine line c with
      | .error e c' => .error e c'
      | .ok _ c' =>
        if (fillHeaders lines c'.headers).1 then
          useHeaders (c'.withHeaders (fillHeaders lines c'.headers).2)
        else
          .error (.clientException .badRequest)
            (c'.withHeaders (fillHeaders lines c'.headers).2) := by
  unfold readHeaderBlock
  rw [run_bind, run_get]
  dsimp only
  rw [h]
  change (parseRequestLine line >>= fun _ => _) c = _
  rw [run_bind]
  cases parseRequestLine line c with
  | error e c' => rfl
  | ok _ c' =>
    simp only [run_bind, run_get, run_modify, run_ite]
    rfl

theorem readHeaderBlock_settles {c : Client} {i : ℕ} (h : find crlf c.header = some i) :
    Settles readHeaderBlock c := by
  obtain ⟨line, lines, hlines⟩ := List.exists_cons_of_ne_nil (getHeaderLines_ne_nil h)
  unfold Settles
  rw [readHeaderBlock_eq hlines]
  obtain ⟨e, c₁, h₁, he, hc₁⟩ | ⟨_, c₁, h₁, hc₁⟩ :=
    (keeps_parseRequestLine line).cases (throws_parseRequestLine line) c
  · rw [h₁]
    exact .inl ⟨e, c₁, rfl, he, congrArg Prod.fst hc₁⟩
  · rw [h₁]
    simp only [framing, Prod.mk.injEq] at hc₁
    dsimp only
    split
    · obtain ⟨e, c₂, h₂, he, hc₂⟩ | ⟨c₂, h₂, hc₂, hlen⟩ :=
        useHeaders_settles (c₁.withHeaders (fillHeaders lines c₁.headers).2)
      · exact .inl ⟨e, c₂, h₂, he, hc₂.trans hc₁.1⟩
      · exact .inr ⟨c₂, h₂, hc₂.trans hc₁.1, fun hchunked => (hlen hchunked).trans hc₁.2.2⟩
    · exact .inl ⟨_, _, rfl, ⟨_, rfl⟩, hc₁.1⟩

/-! ## The end of the header phase -/

/-- A client whose body, of a known length, is about to be read. -/
structure AtLength (c : Client) : Prop where
  clientToServerState : c.clientToServerState = .body
  isChunked : c.isChunked = false
  body : c.body = []
  contentLength_pos : 0 < c.contentLength

/-- A client that has read nothing. -/
structure IsFresh (c : Client) : Prop where
  clientToServerState : c.clientToServerState = .header
  headers : c.headers = ∅
  isChunked : c.isChunked = false
  body : c.body = []
  contentLength : c.contentLength = 0
  chunkedBodyBuffer : c.chunkedBodyBuffer = []
  chunkedRemainingContentLength : c.chunkedRemainingContentLength = 0
  chunkedReadState : c.chunkedReadState = .readingContentLen

theorem isFresh_new (clientFd serverFd : ℤ) (serverPort : Bytes) (clientMaxBodySize : ℕ)
    (header : Bytes) :
    IsFresh ((Client.new clientFd serverFd serverPort clientMaxBodySize).withHeader header) :=
  ⟨rfl, rfl, rfl, rfl, rfl, rfl, rfl, rfl⟩

/-- **The header phase** throws a `ClientException`, or ends with a complete request, or with a
request whose body is about to be read. -/
theorem readHead_cases {c : Client} (hc : c.IsFresh) {i : ℕ} (h : find crlf c.header = some i) :
    (∃ status c', readHead c = .error (.clientException status) c' ∧
      c'.clientToServerState = .header) ∨
    ∃ c', readHead c = .ok () c' ∧ c'.clientMaxBodySize = c.clientMaxBodySize ∧
      (c'.clientToServerState = .done ∧ (c'.requestMethod = .post → c'.isChunked = false) ∨
        c'.requestMethod = .post ∧ (c'.AtChunks ∨ c'.AtLength)) := by
  unfold readHead
  rw [run_bind]
  obtain ⟨e, c₁, h₁, ⟨status, rfl⟩, hc₁⟩ | ⟨c₁, h₁, hc₁, hlen⟩ := readHeaderBlock_settles h
  · refine .inl ⟨status, c₁, by rw [h₁], ?_⟩
    exact (congrArg Client.clientToServerState hc₁).trans hc.clientToServerState
  · rw [h₁]
    dsimp only
    rw [startBody_nil]
    refine .inr ⟨_, rfl, ?_⟩
    have hbody : c₁.body = [] := (congrArg Client.body hc₁).trans hc.body
    have hmax : c₁.clientMaxBodySize = c.clientMaxBodySize :=
      (congrArg Client.clientMaxBodySize hc₁ :)
    split_ifs with hdone
    · exact ⟨hmax, .inl ⟨rfl, fun hpost => (hdone.resolve_left fun hne => hne hpost).2⟩⟩
    · obtain ⟨hpost, hframed⟩ := not_or.1 hdone
      refine ⟨hmax, .inr ⟨not_not.1 hpost, ?_⟩⟩
      by_cases hchunked : c₁.isChunked = true
      · have hlength : c₁.contentLength = 0 := (hlen hchunked).trans hc.contentLength
        have hbuffer : c₁.chunkedBodyBuffer = [] :=
          (congrArg Client.chunkedBodyBuffer hc₁).trans hc.chunkedBodyBuffer
        have hremaining : c₁.chunkedRemainingContentLength = 0 :=
          (congrArg Client.chunkedRemainingContentLength hc₁).trans
            hc.chunkedRemainingContentLength
        have hstate : c₁.chunkedReadState = .readingContentLen :=
          (congrArg Client.chunkedReadState hc₁).trans hc.chunkedReadState
        refine .inl ⟨?_, hchunked⟩
        simp [scanned, phaseLeft, phaseState, phaseProgress, hbody, hlength, hbuffer, hremaining,
          hstate]
      · have hunchunked : c₁.isChunked = false := by simpa using hchunked
        exact .inr ⟨rfl, hunchunked, hbody,
          Nat.pos_of_ne_zero fun h0 => hframed ⟨h0, hunchunked⟩⟩

/-- The bytes up to a blank line contain a line end. -/
theorem find_crlf_take {s : Bytes} {i : ℕ} (h : find blankLine s = some i) :
    ∃ j, find crlf (s.take (i + 2)) = some j := by
  obtain ⟨hle, hocc, -⟩ := find_eq_some h
  have hlen : i + 4 ≤ s.length := length_le_of_find h
  cases hfind : find crlf (s.take (i + 2)) with
  | some j => exact ⟨j, rfl⟩
  | none =>
    refine absurd ?_ (find_eq_none hfind i)
    rw [List.drop_take]
    have hcrlf : crlf <+: s.drop i := (List.prefix_append crlf crlf).trans hocc
    refine List.prefix_of_prefix_length_le hcrlf ( List.take_prefix _ _) ?_
    simp [crlf]
    omega

end Webserv.Client
