import Webserv.Client.Head

/-!
# Header blocks of requests with a body

`PostHead` says, in terms of the functions that take a header block apart, when the header phase
accepts a block as a `POST` request. The framing headers then decide how the body is read
(`readHead_chunked`, `readHead_length`), and only such blocks announce a chunked body
(`readHead_atChunks_iff`).
-/

namespace Webserv.Client

open Exec Search Utils

/-! ## The request line -/

/-- A request line with the method `POST` that `_parseRequestLine` accepts. -/
def PostLine (line : Bytes) : Prop :=
  ∃ i j, find (bytes " ") line = some i ∧ line.take i = bytes "POST" ∧
    findLast (ch ' ') line = some j ∧ j ≠ i ∧
    ((line.drop (i + 1)).take (j - (i + 1))).head? = some (ch '/') ∧
    isValidProtocol (line.drop (j + 1)) = true

theorem getRequestMethodEnumFromString_cases (m : Bytes) (c : Client) :
    (∃ status, getRequestMethodEnumFromString m c = .error (.clientException status) c ∧
      m ≠ bytes "POST") ∨
    ∃ method, getRequestMethodEnumFromString m c = .ok method c ∧
      (method = .post ↔ m = bytes "POST") := by
  unfold getRequestMethodEnumFromString
  by_cases hget : m = bytes "GET"
  · refine .inr ⟨.get, by rw [if_pos hget, run_pure], ?_⟩
    rw [hget]
    decide
  rw [if_neg hget]
  by_cases hpost : m = bytes "POST"
  · exact .inr ⟨.post, by rw [if_pos hpost, run_pure], by simp [hpost]⟩
  rw [if_neg hpost]
  by_cases hdelete : m = bytes "DELETE"
  · exact .inr ⟨.delete, by rw [if_pos hdelete, run_pure], by simp [hpost]⟩
  rw [if_neg hdelete]
  exact .inl ⟨_, rfl, hpost⟩

/-- The client after a request line. -/
def withLine (c : Client) (method : RequestMethod) (target protocol : Bytes) : Client :=
  { c with
    requestMethod := method
    requestTarget := replaceAll target (bytes "%20") (bytes " ")
    protocol := protocol }

theorem parseRequestLine_eq {line : Bytes} {i j : ℕ} {method : RequestMethod} {c : Client}
    (hi : find (bytes " ") line = some i)
    (hm : getRequestMethodEnumFromString (line.take i) c = .ok method c)
    (hj : findLast (ch ' ') line = some j) (hne : j ≠ i)
    (ht : ((line.drop (i + 1)).take (j - (i + 1))).head? = some (ch '/')) :
    parseRequestLine line c =
      if isValidProtocol (line.drop (j + 1)) then
        .ok () (c.withLine method ((line.drop (i + 1)).take (j - (i + 1))) (line.drop (j + 1)))
      else .error (.clientException .badRequest)
        (c.withLine method ((line.drop (i + 1)).take (j - (i + 1))) (line.drop (j + 1))) := by
  simp only [parseRequestLine, hi, hj, run_bind, hm, run_modify, run_ite, if_neg hne, ht, ne_eq,
    not_true_eq_false, if_false, decodeRequestTarget]
  rfl

/-- `_parseRequestLine` accepts a `POST` line and no other line as one. -/
theorem parseRequestLine_post {line : Bytes} (h : PostLine line) (c : Client) :
    ∃ target protocol, parseRequestLine line c = .ok () (c.withLine .post target protocol) := by
  obtain ⟨i, j, hi, hpost, hj, hne, ht, hp⟩ := h
  have hm : getRequestMethodEnumFromString (line.take i) c = .ok .post c := by
    rw [hpost]
    rfl
  exact ⟨_, _, by rw [parseRequestLine_eq hi hm hj hne ht, if_pos hp]⟩

theorem postLine_of_parseRequestLine {line : Bytes} {c c' : Client}
    (h : parseRequestLine line c = .ok () c') (hpost : c'.requestMethod = .post) :
    PostLine line ∧ c'.headers = c.headers := by
  cases hi : find (bytes " ") line with
  | none =>
    simp only [parseRequestLine, hi] at h
    cases h
  | some i =>
  obtain ⟨status, hm, -⟩ | ⟨method, hm, hiff⟩ := getRequestMethodEnumFromString_cases (line.take i) c
  · simp only [parseRequestLine, hi, run_bind, hm] at h
    cases h
  cases hj : findLast (ch ' ') line with
  | none =>
    simp only [parseRequestLine, hi, run_bind, hm, hj] at h
    cases h
  | some j =>
  by_cases hne : j = i
  · simp only [parseRequestLine, hi, run_bind, hm, hj, hne] at h
    cases h
  by_cases ht : ((line.drop (i + 1)).take (j - (i + 1))).head? = some (ch '/')
  · rw [parseRequestLine_eq hi hm hj hne ht] at h
    split at h
    · rename_i hp
      cases h
      exact ⟨⟨i, j, hi, hiff.1 hpost, hj, hne, ht, hp⟩, rfl⟩
    · cases h
  · simp only [parseRequestLine, hi, run_bind, hm, hj, if_neg hne, run_modify, ht, ne_eq,
      not_false_eq_true, if_true] at h
    cases h

/-! ## The header block -/

/-- The `Host` header is there, and does not start with a colon. -/
def HasHost (headers : Headers) : Prop :=
  ∃ host, headers.lookup (bytes "HOST") = some host ∧ find (bytes ":") host ≠ some 0

/-- A header block of a `POST` request with the given headers. -/
def PostHead (header : Bytes) (headers : Headers) : Prop :=
  ∃ line lines, getHeaderLines header = line :: lines ∧ PostLine line ∧
    fillHeaders lines ∅ = (true, headers) ∧ HasHost headers

/-- A header block of a `POST` request with a chunked body. -/
def ChunkedHead (header : Bytes) : Prop :=
  ∃ headers, PostHead header headers ∧
    headers.lookup (bytes "TRANSFER_ENCODING") = some (bytes "chunked") ∧
    headers.lookup (bytes "CONTENT_LENGTH") = none

theorem useHost_ok_iff (c : Client) : (∃ c', useHost c = .ok () c') ↔ HasHost c.headers := by
  unfold useHost HasHost
  simp only [run_bind, run_get]
  cases c.headers.lookup (bytes "HOST") with
  | none =>
    constructor
    · rintro ⟨c', h⟩
      cases h
    · rintro ⟨host, h, -⟩
      cases h
  | some host =>
    simp only [Option.some.injEq, exists_eq_left']
    cases find (bytes ":") host with
    | none => simp
    | some i =>
      by_cases h0 : i = 0
      · simp only [h0, if_true, ne_eq, not_true_eq_false, iff_false]
        rintro ⟨c', h⟩
        cases h
      · simp [h0]

theorem useNames_ok_iff (c : Client) : (∃ c', useNames c = .ok () c') ↔ HasHost c.headers := by
  rw [← useHost_ok_iff]
  have htype : ∀ c, ∃ c', useContentType c = .ok () c' := by
    intro c
    unfold useContentType
    simp only [run_bind, run_get]
    cases c.headers.lookup (bytes "CONTENT_TYPE") with
    | none => exact ⟨c, rfl⟩
    | some value => exact ⟨_, rfl⟩
  unfold useNames
  constructor
  · rintro ⟨c', h⟩
    obtain ⟨_, c₁, h₁, -⟩ := bind_eq_ok h
    exact ⟨c₁, h₁⟩
  · rintro ⟨c₁, h₁⟩
    obtain ⟨c₂, h₂⟩ := htype c₁
    exact ⟨c₂, by rw [run_bind, h₁]; exact h₂⟩

/-- Once the framing is settled, a valid `Host` is all that the rest of `_useHeaders` needs. -/
theorem useHeaders_of_framing {c c₁ : Client} (h : useFraming c = .ok () c₁)
    (hhost : HasHost c₁.headers) :
    ∃ c₂, useHeaders c = .ok () c₂ ∧ c₂.withoutNames = c₁.withoutNames := by
  obtain ⟨c₂, h₂⟩ := (useNames_ok_iff c₁).2 hhost
  have hkeep := keeps_useNames c₁
  rw [h₂] at hkeep
  refine ⟨c₂, ?_, hkeep⟩
  rw [useHeaders_eq, run_bind, h]
  exact h₂

/-- The header phase accepts the request line and the fields of a `POST` head. -/
theorem readHeaderBlock_post {c : Client} (hc : c.IsFresh) {headers : Headers}
    (h : PostHead c.header headers) :
    ∃ c₁, c₁.requestMethod = .post ∧ c₁.headers = headers ∧ c₁.framing = c.framing ∧
      readHeaderBlock c = useHeaders c₁ := by
  obtain ⟨line, lines, hlines, hline, hfill, -⟩ := h
  obtain ⟨target, protocol, hparse⟩ := parseRequestLine_post hline c
  have hempty : (c.withLine .post target protocol).headers = ∅ := hc.headers
  refine ⟨(c.withLine .post target protocol).withHeaders headers, rfl, rfl, rfl, ?_⟩
  rw [readHeaderBlock_eq hlines, hparse]
  dsimp only
  rw [hempty, hfill, if_pos rfl]

/-- The header phase on a `POST` head, once the framing is settled. -/
theorem readHead_of_framing {c : Client} (hc : c.IsFresh) {headers : Headers}
    (h : PostHead c.header headers) :
    ∃ c₁, c₁.requestMethod = .post ∧ c₁.headers = headers ∧ c₁.framing = c.framing ∧
      ∀ c₂, useFraming c₁ = .ok () c₂ → c₂.headers = headers →
        ∃ c₃, readHead c = startBody [] c₃ ∧ c₃.withoutNames = c₂.withoutNames := by
  have hhost : HasHost headers := h.choose_spec.choose_spec.2.2.2
  obtain ⟨c₁, hmethod, hheaders, hframing, hblock⟩ := readHeaderBlock_post hc h
  refine ⟨c₁, hmethod, hheaders, hframing, fun c₂ hframed hheaders₂ => ?_⟩
  rw [← hheaders₂] at hhost
  obtain ⟨c₃, huse, hnames⟩ := useHeaders_of_framing hframed hhost
  refine ⟨c₃, ?_, hnames⟩
  rw [readHead, run_bind, hblock, huse]

theorem framing_isChunked {c c₁ : Client} (h : c₁.framing = c.framing) :
    c₁.isChunked = c.isChunked := congrArg (fun f => f.2.1) h

/-- **A `POST` head with `Transfer-Encoding: chunked` and without `Content-Length`** announces a
chunked body. -/
theorem readHead_chunked {c : Client} (hc : c.IsFresh) (h : ChunkedHead c.header) {i : ℕ}
    (hi : find crlf c.header = some i) :
    ∃ c', readHead c = .ok () c' ∧ c'.clientMaxBodySize = c.clientMaxBodySize ∧ c'.AtChunks := by
  obtain ⟨headers, hpost, hte, hcl⟩ := h
  obtain ⟨c₁, hmethod, hheaders, hframing, hread⟩ := readHead_of_framing hc hpost
  have hframed : useFraming c₁ = .ok () c₁.withEncoding := by
    rw [useFraming_eq, hheaders, hcl]
  obtain ⟨c₃, hread, hnames⟩ := hread _ hframed (by simpa using hheaders)
  have hmethod₃ : c₃.requestMethod = .post := by
    have := congrArg Client.requestMethod hnames
    simpa [withoutNames, hmethod] using this
  have hchunked : c₃.isChunked = true := by
    have hfalse : c₁.isChunked = false := (framing_isChunked hframing).trans hc.isChunked
    have henc := (withEncoding_isChunked hfalse).2 (by rw [hheaders]; exact hte)
    exact (congrArg Client.isChunked hnames).trans henc
  -- a chunked `POST` request is neither complete nor one of known length
  obtain ⟨status, c', hc', -⟩ | ⟨c', hc', hmax, hcases⟩ := readHead_cases hc hi
  · rw [hread, startBody_nil] at hc'
    cases hc'
  · refine ⟨c', hc', hmax, ?_⟩
    rw [hread, startBody_nil, if_neg (by simp [hmethod₃, hchunked])] at hc'
    cases hc'
    rcases hcases with ⟨hdone, -⟩ | ⟨-, hc' | hc'⟩
    · cases hdone
    · exact hc'
    · exact absurd hc'.isChunked (by simp [hchunked])

/-- **A `POST` head with a positive `Content-Length`** announces a body of that length. -/
theorem readHead_length {c : Client} (hc : c.IsFresh) {headers : Headers}
    (h : PostHead c.header headers)
    (hte : headers.lookup (bytes "TRANSFER_ENCODING") ≠ some (bytes "chunked")) {value : Bytes}
    (hcl : headers.lookup (bytes "CONTENT_LENGTH") = some value) {n : ℕ}
    (hn : parseNumber value (sizeModulus - 1) = (true, n)) (hpos : 0 < n) :
    ∃ c', readHead c = .ok () c' ∧ c'.clientMaxBodySize = c.clientMaxBodySize ∧ c'.AtLength ∧
      c'.contentLength = n := by
  obtain ⟨c₁, hmethod, hheaders, hframing, hread⟩ := readHead_of_framing hc h
  have hfalse : c₁.isChunked = false := (framing_isChunked hframing).trans hc.isChunked
  have henc : c₁.withEncoding.isChunked = false := by
    rw [← Bool.not_eq_true, withEncoding_isChunked hfalse, hheaders]
    exact hte
  have hframed : useFraming c₁ = .ok () { c₁.withEncoding with contentLength := n } := by
    rw [useFraming_eq, hheaders, hcl]
    simp [henc, hn]
  obtain ⟨c₃, hread, hnames⟩ := hread _ hframed (by simpa using hheaders)
  have hmethod₃ : c₃.requestMethod = .post := by
    have := congrArg Client.requestMethod hnames
    simpa [withoutNames, hmethod] using this
  have hlength : c₃.contentLength = n := (congrArg Client.contentLength hnames :)
  have hwithout : c₃.withoutHead = c.withoutHead :=
    (congrArg withoutHead hnames).trans
      (c₁.withEncoding_withoutHead.trans (congrArg Prod.fst hframing))
  refine ⟨{ c₃ with clientToServerState := .body }, ?_, ?_, ?_, hlength⟩
  · rw [hread, startBody_nil, if_neg (by simp [hmethod₃, hlength, hpos.ne'])]
  · exact (congrArg Client.clientMaxBodySize hwithout :)
  · refine ⟨rfl, (congrArg Client.isChunked hnames).trans henc, ?_, by rw [← hlength] at hpos; exact hpos⟩
    exact (congrArg Client.body hwithout).trans hc.body

/-- What `useFraming` has found out about a body it leaves as chunked. -/
theorem useFraming_chunked {c c' : Client} (hc : c.isChunked = false)
    (h : useFraming c = .ok () c') (hc' : c'.isChunked = true) :
    c'.headers = c.headers ∧ c'.requestMethod = c.requestMethod ∧
      c.headers.lookup (bytes "TRANSFER_ENCODING") = some (bytes "chunked") ∧
      c.headers.lookup (bytes "CONTENT_LENGTH") = none := by
  rw [useFraming_eq] at h
  split at h
  · rename_i hcl
    cases h
    exact ⟨by simp, by simp, (withEncoding_isChunked hc).1 hc', hcl⟩
  · split at h
    · cases h
    · rename_i hchunked
      dsimp only at h
      split at h
      · cases h
        exact absurd hc' hchunked
      · cases h

/-- Only a chunked `POST` head announces a chunked body. -/
theorem chunkedHead_of_atChunks {c c' : Client} (hc : c.IsFresh) {i : ℕ}
    (hi : find crlf c.header = some i) (h : readHead c = .ok () c') (hc' : c'.AtChunks)
    (hpost : c'.requestMethod = .post) : ChunkedHead c.header := by
  obtain ⟨_, c₃, hblock, hstart⟩ := bind_eq_ok h
  have hc₃ : c₃.isChunked = true ∧ c₃.requestMethod = .post := by
    rw [startBody_nil] at hstart
    split at hstart <;> cases hstart <;> exact ⟨hc'.isChunked, hpost⟩
  obtain ⟨line, lines, hlines⟩ := List.exists_cons_of_ne_nil (getHeaderLines_ne_nil hi)
  rw [readHeaderBlock_eq hlines] at hblock
  obtain ⟨e, c₁, hline, -, -⟩ | ⟨_, c₁, hline, hframing⟩ :=
    (keeps_parseRequestLine line).cases (throws_parseRequestLine line) c
  · rw [hline] at hblock
    cases hblock
  rw [hline] at hblock
  dsimp only at hblock
  split at hblock
  swap
  · cases hblock
  rename_i hfill
  rw [useHeaders_eq] at hblock
  obtain ⟨_, c₂, hframed, hnames⟩ := bind_eq_ok hblock
  have hkeep : c₃.withoutNames = c₂.withoutNames := by
    have := keeps_useNames c₂
    rwa [hnames] at this
  have hchunked : c₂.isChunked = true := (congrArg Client.isChunked hkeep).symm.trans hc₃.1
  have hmethod : c₂.requestMethod = .post :=
    (congrArg Client.requestMethod hkeep).symm.trans hc₃.2
  have hfresh : (c₁.withHeaders (fillHeaders lines c₁.headers).2).isChunked = false :=
    (framing_isChunked hframing).trans hc.isChunked
  obtain ⟨hheaders, hmethod₁, hte, hcl⟩ := useFraming_chunked hfresh hframed hchunked
  obtain ⟨hpostLine, hempty⟩ := postLine_of_parseRequestLine hline (hmethod₁.symm.trans hmethod)
  have hhost := (useNames_ok_iff c₂).1 ⟨c₃, hnames⟩
  rw [hheaders] at hhost
  simp only [withHeaders, hempty, hc.headers] at hfill hte hcl hhost
  exact ⟨_, ⟨line, lines, hlines, hpostLine, Prod.ext hfill rfl, hhost⟩, hte, hcl⟩

end Webserv.Client
