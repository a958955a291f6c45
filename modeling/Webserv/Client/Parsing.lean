import Webserv.Client.Head

/-!
# What the parser of a client works with

`appendReadString` reads the parse state of a client (`parsing`) and writes nothing else, but for
`server_to_cgi_state`. So two clients with the same parse state stay so when they are given the same
read, and the rest of a client (`unparsed`: its descriptors, its CGI, its response) stays as it was.
-/

namespace Webserv.Client

open Exec Search Utils

/-- The parse state of a client: what its parser does not work with is set to a default. -/
def parsing (c : Client) : Client :=
  { new 0 0 [] c.clientMaxBodySize with
    clientToServerState := c.clientToServerState
    requestMethod := c.requestMethod
    requestTarget := c.requestTarget
    protocol := c.protocol
    headers := c.headers
    body := c.body
    serverName := c.serverName
    unuppercasedServerName := c.unuppercasedServerName
    contentType := c.contentType
    contentLength := c.contentLength
    header := c.header
    isChunked := c.isChunked
    chunkedRemainingContentLength := c.chunkedRemainingContentLength
    chunkedBodyBuffer := c.chunkedBodyBuffer
    chunkedReadState := c.chunkedReadState }

/-- A client with the parse state of another one. -/
def withParsing (d c : Client) : Client :=
  { d with
    clientToServerState := c.clientToServerState
    requestMethod := c.requestMethod
    requestTarget := c.requestTarget
    protocol := c.protocol
    headers := c.headers
    body := c.body
    clientMaxBodySize := c.clientMaxBodySize
    serverName := c.serverName
    unuppercasedServerName := c.unuppercasedServerName
    contentType := c.contentType
    contentLength := c.contentLength
    header := c.header
    isChunked := c.isChunked
    chunkedRemainingContentLength := c.chunkedRemainingContentLength
    chunkedBodyBuffer := c.chunkedBodyBuffer
    chunkedReadState := c.chunkedReadState }

/-- A client without its parse state, and without the one field that the parser only writes. -/
def unparsed (c : Client) : Client :=
  { withParsing c (new 0 0 [] 0) with serverToCgiState := .notWriting }

/-- The second client has the parse state of the first one, and the rest of `d₀`. -/
structure SameParsing (d₀ c d : Client) : Prop where
  parsing_eq : c.parsing = d.parsing
  unparsed_eq : d.unparsed = d₀.unparsed
  toCgi : d.serverToCgiState = d₀.serverToCgiState ∨ d.serverToCgiState = .done

variable {d₀ : Client}

theorem withParsing_parsing (d : Client) : d.withParsing d.parsing = d := rfl

/-- Clients with the same parse state differ in the rest only. -/
theorem SameParsing.eq_withParsing {c d : Client} (h : SameParsing d₀ c d) :
    d = d.withParsing c := by
  rw [← withParsing_parsing d, ← h.parsing_eq]
  rfl

/-- A client with the parse state of another one, before or after it was changed. -/
theorem SameParsing.intro {c d : Client} (h : SameParsing d₀ c d) {c' d' : Client}
    (hparsing : c'.parsing = d'.parsing) (hunparsed : d'.unparsed = d.unparsed)
    (htoCgi : d'.serverToCgiState = d.serverToCgiState) : SameParsing d₀ c' d' :=
  ⟨hparsing, hunparsed.trans h.unparsed_eq, htoCgi ▸ h.toCgi⟩

/-- To compare two runs, compare a client with one that differs in the rest only. -/
theorem respects_of {α : Type} {x : ClientM α}
    (h : ∀ c d, SameParsing d₀ c (withParsing d c) →
      SameResult (SameParsing d₀) (x c) (x (withParsing d c))) :
    Respects (SameParsing d₀) x := by
  intro c d hcd
  have hd := hcd.eq_withParsing
  have hx := h c d (hd ▸ hcd)
  rwa [← hd] at hx

theorem respects_modify {f : Client → Client}
    (h : ∀ c d, (f c).parsing = (f (withParsing d c)).parsing ∧
      (f (withParsing d c)).unparsed = (withParsing d c).unparsed ∧
      (f (withParsing d c)).serverToCgiState = (withParsing d c).serverToCgiState) :
    Respects (SameParsing d₀) (modify f : ClientM Unit) :=
  respects_of fun c d hcd => .ok () (hcd.intro (h c d).1 (h c d).2.1 (h c d).2.2)

/-- A program that looks at the parse state only. -/
theorem respects_get_bind {α : Type} {k : Client → ClientM α}
    (hk : ∀ c, Respects (SameParsing d₀) (k c)) (h : ∀ c d, k (withParsing d c) = k c) :
    Respects (SameParsing d₀) (get >>= k) := by
  refine respects_of fun c d hcd => ?_
  rw [run_bind, run_bind, run_get, run_get]
  dsimp only
  rw [h c d]
  exact hk c c _ hcd

/-! ## The header phase -/

theorem respects_parseRequestLine (line : Bytes) : Respects (SameParsing d₀) (parseRequestLine line) := by
  unfold parseRequestLine
  split
  · exact .throw _
  · refine .bind ?_ fun method => .bind (respects_modify fun _ _ => ⟨rfl, rfl, rfl⟩) fun _ => ?_
    · unfold getRequestMethodEnumFromString
      exact .ite (.pure _) (.ite (.pure _) (.ite (.pure _) (.throw _)))
    split
    · exact .throw _
    · refine .ite (.throw _) (.bind (respects_modify fun _ _ => ⟨rfl, rfl, rfl⟩) fun _ => .ite (.throw _) ?_)
      have hdecode : Respects (SameParsing d₀) decodeRequestTarget := respects_modify fun _ _ => ⟨rfl, rfl, rfl⟩
      refine .bind hdecode fun _ => .bind (respects_modify fun _ _ => ?_) fun _ =>
        .ite (.pure _) (.throw _)
      exact ⟨rfl, rfl, rfl⟩

theorem withEncoding_withParsing (d c : Client) :
    (withParsing d c).withEncoding = withParsing d c.withEncoding := by
  unfold withEncoding
  change (if c.headers.lookup (bytes "TRANSFER_ENCODING") = some (bytes "chunked") then _
    else _) = _
  split_ifs <;> rfl

theorem respects_useFraming : Respects (SameParsing d₀) useFraming := by
  refine respects_of fun c d hcd => ?_
  have hheaders : (withParsing d c).headers = c.headers := rfl
  have hchunked : (withParsing d c.withEncoding).isChunked = c.withEncoding.isChunked := rfl
  have hencoding : c.withEncoding.parsing = (withParsing d c.withEncoding).parsing := rfl
  simp only [useFraming_eq, withEncoding_withParsing, hheaders, hchunked]
  cases c.headers.lookup (bytes "CONTENT_LENGTH") with
  | none => exact .ok () (hcd.intro hencoding rfl rfl)
  | some value =>
    dsimp only
    split_ifs
    · exact .error _ (hcd.intro hencoding rfl rfl)
    · exact .ok () (hcd.intro rfl rfl rfl)
    · exact .error _ (hcd.intro rfl rfl rfl)

theorem respects_useHost : Respects (SameParsing d₀) useHost := by
  refine respects_get_bind (fun c => ?_) fun _ _ => rfl
  split
  · exact .throw _
  · split
    · exact respects_modify fun _ _ => ⟨rfl, rfl, rfl⟩
    · exact .ite (.throw _) (respects_modify fun _ _ => ⟨rfl, rfl, rfl⟩)

theorem respects_useContentType : Respects (SameParsing d₀) useContentType := by
  refine respects_get_bind (fun c => ?_) fun _ _ => rfl
  split
  · exact .pure _
  · exact respects_modify fun _ _ => ⟨rfl, rfl, rfl⟩

theorem respects_readHeaderBlock : Respects (SameParsing d₀) readHeaderBlock := by
  refine respects_get_bind (fun c => ?_) fun _ _ => rfl
  split
  · exact .throw _
  · refine .bind (respects_parseRequestLine _) fun _ => ?_
    refine respects_get_bind (fun c => ?_) fun _ _ => rfl
    refine .bind (respects_modify fun _ _ => ⟨rfl, rfl, rfl⟩) fun _ => .ite ?_ (.throw _)
    exact .bind respects_useFraming fun _ => .bind respects_useHost fun _ =>
      respects_useContentType

/-! ## The body phase -/

theorem respects_readContentLen : Respects (SameParsing d₀) readContentLen := by
  refine respects_of fun c d hcd => ?_
  have hbuffer : (withParsing d c).chunkedBodyBuffer = c.chunkedBodyBuffer := rfl
  have hremaining : (withParsing d c).chunkedRemainingContentLength =
      c.chunkedRemainingContentLength := rfl
  simp only [readContentLen, run_bind, run_get, run_ite, hbuffer, hremaining]
  split_ifs
  · exact .ok _ hcd
  · cases hexToNum c.chunkedBodyBuffer c.chunkedRemainingContentLength with
    | none => exact .error _ hcd
    | some p => exact .ok _ (hcd.intro rfl rfl rfl)

theorem respects_readChunkBody : Respects (SameParsing d₀) readChunkBody := by
  refine respects_of fun c d hcd => ?_
  have hbuffer : (withParsing d c).chunkedBodyBuffer = c.chunkedBodyBuffer := rfl
  have hremaining : (withParsing d c).chunkedRemainingContentLength =
      c.chunkedRemainingContentLength := rfl
  simp only [readChunkBody, run_bind, run_get, run_ite, hbuffer, hremaining]
  split_ifs
  · exact .ok _ (hcd.intro rfl rfl rfl)
  · exact .ok _ (hcd.intro rfl rfl rfl)

theorem finishLine_withParsing (d c : Client) (rest : Bytes) :
    (withParsing d c).finishLine rest = withParsing d (c.finishLine rest) := by
  unfold finishLine
  change (if c.chunkedReadState = .readingContentLenEndline then
    if c.chunkedRemainingContentLength = 0 then _ else _ else _) = _
  split_ifs <;> rfl

theorem respects_readEndline : Respects (SameParsing d₀) readEndline := by
  refine respects_of fun c d hcd => ?_
  have hbuffer : (withParsing d c).chunkedBodyBuffer = c.chunkedBodyBuffer := rfl
  simp only [readEndline, run_bind, run_get, hbuffer]
  rcases c.chunkedBodyBuffer with _ | ⟨b₀, _ | ⟨b₁, rest⟩⟩
  · exact .ok _ hcd
  · exact .ok _ hcd
  · simp only [run_ite]
    split_ifs
    · simp only [run_bind, run_set, run_pure, finishLine_withParsing]
      exact .ok _ (hcd.intro rfl rfl rfl)
    · exact .error _ hcd

theorem respects_chunkRound : Respects (SameParsing d₀) chunkRound := by
  have hline : Respects (SameParsing d₀) (do
      if (← get).chunkedReadState = .readingContentLenEndline ∨
        (← get).chunkedReadState = .readingBodyEndline then readEndline else pure true) := by
    refine respects_get_bind (fun c => ?_) fun _ _ => rfl
    refine respects_get_bind (fun c => ?_) fun _ _ => rfl
    exact .ite respects_readEndline (.pure _)
  have hbody : Respects (SameParsing d₀) (do
      let proceed ←
        if (← get).chunkedReadState = .readingBody then readChunkBody else pure true
      if proceed then
        if (← get).chunkedReadState = .readingContentLenEndline ∨
          (← get).chunkedReadState = .readingBodyEndline then readEndline else pure true
      else pure false) := by
    refine respects_get_bind (fun c => ?_) fun _ _ => rfl
    have hrest := fun proceed : Bool => Respects.ite (p := proceed = true) hline (.pure false)
    exact .ite (.bind respects_readChunkBody hrest) (.bind (.pure _) hrest)
  refine respects_get_bind (fun c => ?_) fun _ _ => rfl
  have hrest := fun proceed : Bool => Respects.ite (p := proceed = true) hbody (.pure false)
  exact .ite (.bind respects_readContentLen hrest) (.bind (.pure _) hrest)

theorem respects_chunkLoop (fuel : ℕ) : Respects (SameParsing d₀) (chunkLoop fuel) := by
  induction fuel with
  | zero => exact .pure _
  | succ fuel ih => exact .bind respects_chunkRound fun proceed => .ite ih (.pure _)

theorem respects_parseBodyAppend (extraBody : Bytes) :
    Respects (SameParsing d₀) (parseBodyAppend extraBody) := by
  refine respects_get_bind (fun c => ?_) fun _ _ => rfl
  have hchunked : Respects (SameParsing d₀) (parseChunked extraBody) := by
    refine .bind (respects_modify fun _ _ => ⟨rfl, rfl, rfl⟩) fun _ => ?_
    exact respects_get_bind (fun c => respects_chunkLoop _) fun _ _ => rfl
  have hunchunked : Respects (SameParsing d₀) (parseUnchunked extraBody) := by
    refine respects_modify fun c d => ?_
    change parsing (if c.contentLength ≤ c.body.length + extraBody.length then _ else _) =
        parsing (if c.contentLength ≤ c.body.length + extraBody.length then _ else _) ∧
      unparsed (if c.contentLength ≤ c.body.length + extraBody.length then _ else _) = _ ∧
      serverToCgiState (if c.contentLength ≤ c.body.length + extraBody.length then _ else _) = _
    split_ifs <;> exact ⟨rfl, rfl, rfl⟩
  have hsize : Respects (SameParsing d₀) (do
      if (← get).clientMaxBodySize < (← get).body.length then raise .requestEntityTooLarge) := by
    refine respects_get_bind (fun c => ?_) fun _ _ => rfl
    refine respects_get_bind (fun c => ?_) fun _ _ => rfl
    exact .ite (.throw _) (.pure _)
  exact .ite (.bind hchunked fun _ => hsize) (.bind hunchunked fun _ => hsize)

theorem respects_startBody (extraBody : Bytes) : Respects (SameParsing d₀) (startBody extraBody) := by
  refine respects_of fun c d hcd => ?_
  have hmethod : (withParsing d c).requestMethod = c.requestMethod := rfl
  have hlength : (withParsing d c).contentLength = c.contentLength := rfl
  have hchunked : (withParsing d c).isChunked = c.isChunked := rfl
  simp only [startBody, run_bind, run_get, run_ite, run_set, hmethod, hlength, hchunked]
  split_ifs
  · exact .ok _ ⟨rfl, hcd.unparsed_eq, .inr rfl⟩
  · exact respects_parseBodyAppend extraBody _ _ (hcd.intro rfl rfl rfl)
  · exact .ok _ (hcd.intro rfl rfl rfl)

/-- **The parser works with the parse state only.** -/
theorem respects_appendReadString (received : Bytes) :
    Respects (SameParsing d₀) (appendReadString received) := by
  refine respects_get_bind (fun c => ?_) fun _ _ => rfl
  split
  · refine .bind (respects_modify fun _ _ => ⟨rfl, rfl, rfl⟩) fun _ => ?_
    refine respects_get_bind (fun c => ?_) fun _ _ => rfl
    dsimp only
    split
    · exact .pure _
    · refine .bind (respects_modify fun _ _ => ⟨rfl, rfl, rfl⟩) fun _ => ?_
      exact .bind respects_readHeaderBlock fun _ => respects_startBody _
  · exact respects_parseBodyAppend received
  · exact .pure _

/-- **The parser leaves the rest of a client alone**, but for `server_to_cgi_state`, which it may
set to `DONE`. -/
theorem sameParsing_appendReadString (received : Bytes) (c : Client) :
    SameParsing c (finalState (appendReadString received c))
      (finalState (appendReadString received c)) := by
  have h : SameResult (SameParsing c) (appendReadString received c) (appendReadString received c) :=
    respects_appendReadString received c c ⟨rfl, rfl, .inl rfl⟩
  generalize appendReadString received c = r at h ⊢
  cases h with
  | ok a h => exact h
  | error e h => exact h

end Webserv.Client
