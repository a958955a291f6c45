import Webserv.Client.ResponseHead

/-!
# The framing of a response

The lines of the header that `prependResponseHeader` writes have no line end inside if the client is
`Clean`, and only one of them tells a length. So a response is cut into its header and its body at its
first blank line, and the length it tells is that of the body (`Framed`), whatever the body is and
whichever way `prependResponseHeader` was reached (`Way`).
-/

namespace Webserv.Client

open Exec Search Utils Lines

/-! ## The lines of a header -/

/-- The reason phrase of a client; `none` is the `assert(false)` of `get_reason_phrase`. -/
def phrase (c : Client) : Option Bytes :=
  if c.customReasonPhrase = [] then getReasonPhrase c.status else some c.customReasonPhrase

/-- The status line of a response. -/
def statusLine (c : Client) (phrase : Bytes) : Bytes :=
  c.protocol ++ bytes " " ++ decimal c.status.code ++ bytes " " ++ phrase

/-- The line of a header. -/
def headerLine (key value : Bytes) : Bytes := key ++ bytes ": " ++ value

/-- The line that says where to go instead, if there is one. -/
def locationLines (c : Client) : List Bytes :=
  if c.status = .movedPermanently then
    [headerLine (bytes "Location") (bytes "http://" ++ c.unuppercasedServerName ++ bytes ":" ++
      c.serverPort ++ c.requestTarget ++ bytes "/")]
  else if c.status = .movedTemporarily then [headerLine (bytes "Location") c.redirect]
  else []

/-- The lines after the status line. -/
def fieldLines (c : Client) : List Bytes :=
  headerLine (bytes "Content-Type") c.responseContentType ::
    headerLine (bytes "Content-Length") (decimal c.response.length) :: c.locationLines

/-- A response with its header. -/
def withHead (c : Client) (phrase : Bytes) : Bytes :=
  join 13 10 (c.statusLine phrase :: c.fieldLines) ++ crlf ++ crlf ++ c.response

/-- `prependResponseHeader` returns. -/
def Answerable (c : Client) : Prop :=
  c.phrase.isSome ∧ (c.status = .movedTemporarily → c.redirect ≠ [])

variable {c c' : Client} {text : Bytes}

theorem reasonPhrase_eq (c : Client) : reasonPhrase c =
    match c.phrase with
    | some text => .ok text c
    | none => .error .assertion c := by
  rw [reasonPhrase, run_bind, run_get]
  dsimp only
  rw [run_ite, phrase]
  split_ifs
  · cases getReasonPhrase c.status <;> rfl
  · rfl

/-- **What `prependResponseHeader` does**, when it returns. -/
theorem prependResponseHeader_eq (hphrase : c.phrase = some text)
    (hredirect : c.status = .movedTemporarily → c.redirect ≠ []) :
    prependResponseHeader c = .ok () { c with response := c.withHead text } := by
  have hreason : reasonPhrase c = .ok text c := by rw [reasonPhrase_eq, hphrase]
  rw [prependResponseHeader, run_bind, run_get]
  dsimp only
  rw [bind_of_ok hreason]
  unfold withHead fieldLines locationLines
  by_cases hmoved : c.status = .movedPermanently
  · simp [addResponseHeader, addLocation, hmoved, join, statusLine, headerLine, crlf]
  · by_cases htemp : c.status = .movedTemporarily
    · have hne := hredirect htemp
      have hneq : Status.movedTemporarily ≠ Status.movedPermanently := by decide
      simp [addResponseHeader, addLocation, htemp, hneq, hne, assert, join, statusLine, headerLine, crlf]
    · simp [addResponseHeader, addLocation, hmoved, htemp, join, statusLine, headerLine, crlf]

/-- If it returns, it was able to. -/
theorem answerable_of_ok {u : Unit} (h : prependResponseHeader c = .ok u c') : c.Answerable := by
  obtain ⟨_, _, ⟨⟩, h⟩ := bind_eq_ok h
  obtain ⟨text, c₁, hphrase, h⟩ := bind_eq_ok h
  rw [reasonPhrase_eq] at hphrase
  cases htext : c.phrase with
  | none =>
    rw [htext] at hphrase
    cases hphrase
  | some text' =>
    rw [htext] at hphrase
    cases hphrase
    refine ⟨by rw [htext]; rfl, fun hstatus hnil => ?_⟩
    have hneq : Status.movedTemporarily ≠ Status.movedPermanently := by decide
    simp [addResponseHeader, addLocation, hstatus, hneq, hnil, assert] at h

/-! ## No line has a line end inside -/

theorem lineFree_getReasonPhrase {status : Status} (h : getReasonPhrase status = some text) :
    LineFree text := by
  have hliteral : ∀ literal : Bytes, (10 : UInt8) ∉ literal → some literal = some text → LineFree text := by
    rintro literal hmem ⟨⟩
    exact free_of_notMem hmem
  unfold getReasonPhrase at h
  split_ifs at h
  all_goals exact hliteral _ (by decide) h

theorem Clean.lineFree_phrase (hc : c.Clean) (h : c.phrase = some text) : LineFree text := by
  unfold phrase at h
  split_ifs at h
  · exact lineFree_getReasonPhrase h
  · cases h
    exact hc.customReasonPhrase

theorem Clean.lineFree_statusLine (hc : c.Clean) (h : c.phrase = some text) :
    LineFree (c.statusLine text) := by
  have hmiddle : c.statusLine text =
      c.protocol ++ (bytes " " ++ decimal c.status.code ++ bytes " ") ++ text := by
    simp [statusLine]
  have hdigits : (13 : UInt8) ∉ decimal c.status.code := notMem_decimal (by decide) _
  have hspace : (13 : UInt8) ∉ bytes " " := by decide
  have hstart : (bytes " ").head? = some 32 := by decide
  rw [hmiddle]
  refine hc.protocol.insert (hc.lineFree_phrase h) (by simp [bytes]) ?_ ?_
  · simp only [List.mem_append, not_or]
    exact ⟨⟨hspace, hdigits⟩, hspace⟩
  · rw [List.append_assoc, List.head?_append, hstart]
    simp

theorem lineFree_headerLine {key value : Bytes} (hkey : (13 : UInt8) ∉ key) (h : LineFree value) :
    LineFree (headerLine key value) := by
  have hcolon : (13 : UInt8) ∉ bytes ": " := by decide
  refine Free.append_left ?_ h
  simp only [List.mem_append, not_or]
  exact ⟨hkey, hcolon⟩

theorem Clean.lineFree_location (hc : c.Clean) :
    LineFree (bytes "http://" ++ c.unuppercasedServerName ++ bytes ":" ++ c.serverPort ++
      c.requestTarget ++ bytes "/") := by
  have hscheme : (13 : UInt8) ∉ bytes "http://" := by decide
  have hcolon : (13 : UInt8) ∉ bytes ":" := by decide
  have hstart : (bytes ":").head? = some 58 := by decide
  have hname : LineFree (bytes "http://" ++ c.unuppercasedServerName) :=
    Free.append_left hscheme hc.unuppercasedServerName
  refine Free.append_right ?_ (by decide)
  rw [List.append_assoc (bytes "http://" ++ c.unuppercasedServerName)]
  refine hname.insert hc.requestTarget (by simp [bytes]) ?_ ?_
  · simp only [List.mem_append, not_or]
    exact ⟨hcolon, hc.serverPort⟩
  · rw [List.head?_append, hstart]
    simp

theorem Clean.lineFree_fieldLines (hc : c.Clean) : ∀ line ∈ c.fieldLines, LineFree line := by
  have hlength : LineFree (decimal c.response.length) := free_of_notMem (notMem_decimal (by decide) _)
  intro line hline
  rcases List.mem_cons.1 hline with rfl | hline
  · exact lineFree_headerLine (by decide) hc.responseContentType
  rcases List.mem_cons.1 hline with rfl | hline
  · exact lineFree_headerLine (by decide) hlength
  unfold locationLines at hline
  split_ifs at hline
  · rw [List.mem_singleton.1 hline]
    exact lineFree_headerLine (by decide) hc.lineFree_location
  · rw [List.mem_singleton.1 hline]
    exact lineFree_headerLine (by decide) hc.redirect
  · cases hline

/-! ## The framing -/

/-- A response is cut into a header and the given body at its first blank line. After its first line,
the header has one line that tells a length, and it is that of the body. -/
def Framed (body response : Bytes) : Prop :=
  ∃ head, find (crlf ++ crlf) response = some head.length ∧ response = head ++ crlf ++ crlf ++ body ∧
    (split 13 10 head).tail.filter (startsWith · (bytes "Content-Length: ")) =
      [bytes "Content-Length: " ++ decimal body.length]

/-- Only one of the lines tells a length. -/
theorem filter_fieldLines (c : Client) :
    c.fieldLines.filter (startsWith · (bytes "Content-Length: ")) =
      [bytes "Content-Length: " ++ decimal c.response.length] := by
  have hlength : ∀ value, headerLine (bytes "Content-Length") value =
      bytes "Content-Length: " ++ value := by
    intro value
    rfl
  have htype : ∀ value, startsWith (headerLine (bytes "Content-Type") value)
      (bytes "Content-Length: ") = false := by
    intro value
    rfl
  have hlocation : ∀ value, startsWith (headerLine (bytes "Location") value)
      (bytes "Content-Length: ") = false := by
    intro value
    rfl
  have hnone : c.locationLines.filter (startsWith · (bytes "Content-Length: ")) = [] := by
    unfold locationLines
    split_ifs
    · simp [hlocation]
    · simp [hlocation]
    · rfl
  have hself : startsWith (bytes "Content-Length: " ++ decimal c.response.length)
      (bytes "Content-Length: ") = true := by
    simp [startsWith]
  rw [fieldLines, hlength, List.filter_cons, if_neg (by simp [htype]), List.filter_cons, if_pos hself,
    hnone]

/-- **A response with the header of a clean client is framed.** -/
theorem Clean.framed (hc : c.Clean) (h : c.phrase = some text) : Framed c.response (c.withHead text) := by
  have hfields := hc.lineFree_fieldLines
  have hlines : ∀ line ∈ c.statusLine text :: c.fieldLines, LineFree line :=
    List.forall_mem_cons.2 ⟨hc.lineFree_statusLine h, hfields⟩
  have hne : ∀ line ∈ c.fieldLines, line ≠ [] := by
    have hcolon : ∀ key value, headerLine key value ≠ [] := by
      intro key value
      simp [headerLine, bytes]
    intro line hline
    unfold fieldLines locationLines at hline
    split_ifs at hline <;> simp only [List.mem_cons, List.not_mem_nil, or_false] at hline <;>
      rcases hline with rfl | rfl | rfl <;> exact hcolon _ _
  refine ⟨join 13 10 (c.statusLine text :: c.fieldLines), ?_, rfl, ?_⟩
  · rw [withHead, List.append_assoc, List.append_assoc]
    exact find_blank (by decide) hlines hne c.response
  · rw [split_join (by decide) (List.cons_ne_nil _ _) hlines, List.tail_cons]
    exact c.filter_fieldLines

/-! ## The ways to a header -/

/-- The types of files have no line end. -/
theorem lineFree_contentTypeOf (path contentType : Bytes) :
    LineFree ((contentTypeOf path).getD contentType) ∨
      (contentTypeOf path).getD contentType = contentType := by
  have htable : ∀ entry ∈ extensionToContentType, (10 : UInt8) ∉ entry.2 := by decide
  have hplain : (10 : UInt8) ∉ bytes "text/plain" := by decide
  unfold contentTypeOf
  split_ifs
  · exact .inl (free_of_notMem hplain)
  · cases hlookup : extensionToContentType.lookup (getFileExtension path) with
    | none => exact .inr rfl
    | some found =>
      obtain ⟨before, after, heq, -⟩ := List.lookup_eq_some_iff.1 hlookup
      have hmem : (getFileExtension path, found) ∈ extensionToContentType := by
        rw [heq]
        simp
      exact .inl (free_of_notMem (htable _ hmem))

/-- The methods that call `prependResponseHeader`, and `_cgiEnd`. -/
inductive Way
  | file (path : Bytes)
  | directoryListing (path : Bytes)
  | createFile (path : Bytes)
  | deleteFile (path : Bytes)
  | error (errorPages : Map ℕ Bytes)
  | cgi

namespace Way

variable (fs : FileSystem)

/-- What is called. -/
def respond : Way → ClientM Unit
  | file path => respondWithFile fs path
  | directoryListing path => respondWithDirectoryListing fs path
  | createFile path => respondWithCreateFile fs path
  | deleteFile path => respondWithDeleteFile fs path
  | error errorPages => respondWithError fs errorPages
  | cgi => do
    extractCGIDocumentResponseHeaders
    prependResponseHeader

/-- What is done before `prependResponseHeader` is called. -/
def prepare : Way → ClientM Unit
  | file path => do
    assert ((← get).response = [])
    let isRegularFile ← orThrow .filesystem (fs.isRegularFile path)
    if isRegularFile then
      modify fun c => { c with
        response := (fs.readFile path).getD []
        responseContentType := (contentTypeOf path).getD c.responseContentType }
    else raise .notFound
  | directoryListing path => do
    assert ((← get).response = [])
    modify fun c => { c with response := listingHead c.requestTarget }
    let directoryNames ← getSortedEntryNames fs path true
    modify fun c => { c with response := c.response ++ directoryNames.flatMap listingLine }
    let nonDirectoryNames ← getSortedEntryNames fs path false
    modify fun c => { c with response := c.response ++ nonDirectoryNames.flatMap listingLine }
    modify fun c => { c with
      response := c.response ++ bytes "\t\t</pre>\n\t\t<hr>\n\t</body>\n</html>\n"
      responseContentType := bytes "text/html" }
  | createFile path => do
    assert ((← get).response = [])
    if fs.openForUpdate path then raise .badRequest
    else if fs.openForWriting path = false then raise .badRequest
    else pure ()
  | deleteFile path => do
    assert ((← get).response = [])
    let removed ← orThrow .filesystem (fs.remove path)
    if removed then pure () else raise .notFound
  | error errorPages => do
    let page ← getErrorPage fs errorPages
    modify fun c => { c with
      response := page, responseIndex := 0, responseContentType := bytes "text/html" }
  | cgi => extractCGIDocumentResponseHeaders

variable {fs} {c c₁ : Client} {way : Way}

/-- What is prepared is given a header. -/
theorem respond_eq (way : Way) : way.respond fs = way.prepare fs >>= fun _ => prependResponseHeader := by
  cases way with
  | file path =>
    simp only [respond, respondWithFile, prepare, bind_assoc]
    refine bind_congr fun _ => bind_congr fun _ => bind_congr fun isRegularFile => ?_
    cases isRegularFile <;> rfl
  | directoryListing path =>
    simp only [respond, respondWithDirectoryListing, prepare, bind_assoc]
  | createFile path =>
    simp only [respond, respondWithCreateFile, prepare, bind_assoc]
    refine bind_congr fun _ => bind_congr fun _ => ?_
    split_ifs <;> rfl
  | deleteFile path =>
    simp only [respond, respondWithDeleteFile, prepare, bind_assoc]
    refine bind_congr fun _ => bind_congr fun _ => bind_congr fun removed => ?_
    cases removed <;> rfl
  | error errorPages => simp only [respond, respondWithError, prepare, bind_assoc]
  | cgi => rfl

/-- What holds whatever the response and its type are, and whatever a CGI writes, is preserved. -/
theorem preserves_prepare {I : Client → Prop} (way : Way)
    (hanswer : ∀ c response responseIndex contentType, LineFree contentType ∨
      contentType = c.responseContentType → I c → I { c with
        response := response
        responseIndex := responseIndex
        responseContentType := contentType })
    (hcgi : way = .cgi → Preserves I extractCGIDocumentResponseHeaders) :
    Preserves I (way.prepare fs) := by
  have hthrow : ∀ {α : Type} (fault : Fault) (a : Option α), Preserves I (orThrow fault a) := by
    intro α fault a
    cases a with
    | none => exact .throw _
    | some a => exact .pure a
  have hassert : ∀ (p : Prop) [Decidable p], Preserves I (assert p) :=
    fun p => .ite (fun _ => .pure _) fun _ => .throw _
  have hhtml : ∀ {c : Client} (response : Bytes) (responseIndex : ℕ), I c → I { c with
      response := response, responseIndex := responseIndex, responseContentType := bytes "text/html" } :=
    fun {c} response responseIndex => hanswer c response responseIndex _
      (.inl (free_of_notMem (by decide)))
  have hresponse : ∀ {c : Client} (response : Bytes), I c → I { c with response := response } :=
    fun {c} response => hanswer c response c.responseIndex c.responseContentType (.inr rfl)
  cases way with
  | file path =>
    refine .bind .get fun _ => .bind (hassert _) fun _ => .bind (hthrow _ _) fun _ => ?_
    refine .ite (fun _ => .modify fun c hc => ?_) fun _ => .throw _
    exact hanswer c _ c.responseIndex _ (lineFree_contentTypeOf path c.responseContentType) hc
  | directoryListing path =>
    have hnames : ∀ directories, Preserves I (getSortedEntryNames fs path directories) := by
      intro directories
      unfold getSortedEntryNames
      split
      · exact .throw _
      · exact .pure _
    refine .bind .get fun _ => .bind (hassert _) fun _ => ?_
    refine .bind (.modify fun c hc => hresponse _ hc) fun _ => .bind (hnames _) fun _ => ?_
    refine .bind (.modify fun c hc => hresponse _ hc) fun _ => .bind (hnames _) fun _ => ?_
    exact .bind (.modify fun c hc => hresponse _ hc) fun _ => .modify fun c hc => hhtml _ c.responseIndex hc
  | createFile path =>
    refine .bind .get fun _ => .bind (hassert _) fun _ => .ite (fun _ => .throw _) fun _ => ?_
    exact .ite (fun _ => .throw _) fun _ => .pure _
  | deleteFile path =>
    refine .bind .get fun _ => .bind (hassert _) fun _ => .bind (hthrow _ _) fun _ => ?_
    exact .ite (fun _ => .pure _) fun _ => .throw _
  | error errorPages =>
    have hpage : Preserves I (getErrorPage fs errorPages) := by
      refine .bind .get fun _ => ?_
      split
      · exact .pure _
      · exact .bind (hthrow _ _) fun _ => .pure _
    exact .bind hpage fun _ => .modify fun c hc => hhtml _ 0 hc
  | cgi => exact hcgi rfl

/-- **Every way keeps a client clean.** -/
theorem preserves_clean (way : Way) : Preserves Clean (way.prepare fs) := by
  refine way.preserves_prepare (fun c response responseIndex contentType h hc => ?_)
    fun _ => preserves_clean_extractCGIDocumentResponseHeaders
  have htype : LineFree contentType := by
    rcases h with h | rfl
    · exact h
    · exact hc.responseContentType
  exact { hc with responseContentType := htype }

/-- Every way keeps that a client has a reason phrase. -/
theorem preserves_phrase (way : Way) : Preserves (fun c => c.phrase.isSome = true) (way.prepare fs) := by
  refine way.preserves_prepare (fun c response responseIndex contentType _ hc => hc) fun _ => ?_
  refine preserves_extractCGIDocumentResponseHeaders (fun _ _ hc => hc) (fun c _ => ?_)
    (fun _ _ _ hc => hc) fun c status text _ hne _ => ?_
  · unfold phrase
    split_ifs
    · rfl
    · rfl
  · unfold phrase
    rw [if_neg hne]
    rfl

variable {way : Way} {c c₁ : Client}

/-- **A clean client is given a framed response**, whichever way it is answered. -/
theorem respond_framed {u : Unit} (hc : c.Clean) (hphrase : c.phrase.isSome = true)
    (hprepare : way.prepare fs c = .ok u c₁)
    (hredirect : c₁.status = .movedTemporarily → c₁.redirect ≠ []) :
    ∃ c', way.respond fs c = .ok () c' ∧ Framed c₁.response c'.response := by
  have hc₁ := @preserves_clean fs way c hc
  have hphrase₁ := @preserves_phrase fs way c hphrase
  rw [hprepare] at hc₁ hphrase₁
  obtain ⟨text, htext⟩ := Option.isSome_iff_exists.1 hphrase₁
  have hrespond : way.respond fs c = prependResponseHeader c₁ := by
    rw [respond_eq, bind_of_ok hprepare]
  rw [hrespond]
  exact ⟨_, prependResponseHeader_eq htext hredirect, hc₁.framed htext⟩

/-- What holds whatever the response and its type are, and whatever a CGI writes, is preserved by an
answer. -/
theorem preserves_respond {I : Client → Prop} (way : Way) (hprepare : Preserves I (way.prepare fs))
    (hresponse : ∀ c response, I c → I { c with response := response }) :
    Preserves I (way.respond fs) := by
  rw [way.respond_eq]
  refine .bind hprepare fun _ => ?_
  -- all that `prependResponseHeader` changes is the response
  have hkeeps := keeps_prependResponseHeader (f := fun c => { c with response := [] }) fun _ _ => rfl
  refine hkeeps.preserves fun c c' hsame hc => ?_
  have heq : c' = { c with response := c'.response } :=
    (congrArg (fun d : Client => { d with response := c'.response }) hsame :)
  rw [heq]
  exact hresponse c _ hc

end Way

/-! ## The life of a client -/

/-- What may happen to a client before it is answered: it is accepted, it is read from, it is
answered, and the server assigns to it. The server assigns the statuses of `Client::Status`, and of
the texts a configured redirection or index, here without a line feed. -/
inductive Lived : Client → Prop
  | new (clientFd serverFd : ℤ) (port clientMaxBodySize : ℕ) :
    Lived (new clientFd serverFd (decimal port) clientMaxBodySize)
  | read {c : Client} (received : Bytes) (h : Lived c) :
    Lived (finalState (appendReadString received c))
  | respond {c : Client} (fs : FileSystem) (way : Way) (h : Lived c) :
    Lived (finalState (way.respond fs c))
  | assign {c c' : Client} (h : Lived c)
    (htexts : c'.texts =
      ({ c with requestTarget := c'.requestTarget, redirect := c'.redirect } : Client).texts)
    (hindex : c'.requestTarget = c.requestTarget ∨ (10 : UInt8) ∉ c'.requestTarget)
    (hredirect : c'.redirect = c.redirect ∨ (10 : UInt8) ∉ c'.redirect)
    (hstatus : c'.status = c.status ∨ (getReasonPhrase c'.status).isSome = true) : Lived c'

theorem Lived.clean {c : Client} (h : Lived c) : c.Clean := by
  induction h with
  | new clientFd serverFd port clientMaxBodySize =>
    exact clean_new clientFd serverFd (notMem_decimal (by decide) port) clientMaxBodySize
  | read received _ ih => exact preserves_appendReadString received _ ih
  | respond fs way _ ih =>
    exact way.preserves_respond way.preserves_clean (fun _ _ hc => hc.congr rfl) _ ih
  | @assign c c' _ htexts hindex hredirect _ ih =>
    have hset : ∀ {text text' : Bytes}, LineFree text → text' = text ∨ (10 : UInt8) ∉ text' →
        LineFree text' := by
      rintro text text' htext (rfl | hfeed)
      · exact htext
      · exact free_of_notMem hfeed
    have hclean :
        ({ c with requestTarget := c'.requestTarget, redirect := c'.redirect } : Client).Clean :=
      { ih with
        requestTarget := hset ih.requestTarget hindex
        redirect := hset ih.redirect hredirect }
    exact hclean.congr htexts

/-- A status that the server assigns has a reason phrase, and so has one that a CGI gave. -/
theorem Lived.phrase {c : Client} (h : Lived c) : c.phrase.isSome = true := by
  induction h with
  | new => rfl
  | @read c received _ ih =>
    have hsame := congrArg Client.phrase (sameParsing_appendReadString received c).unparsed_eq
    exact (congrArg Option.isSome hsame).trans ih
  | respond fs way _ ih =>
    exact way.preserves_respond way.preserves_phrase (fun _ _ hc => hc) _ ih
  | @assign c c' _ htexts _ _ hstatus ih =>
    have hreason : c'.customReasonPhrase = c.customReasonPhrase := by
      simp only [texts, Prod.mk.injEq, List.cons.injEq, and_true] at htexts
      exact htexts.2.2.2.2.2.2.2
    unfold Client.phrase at ih ⊢
    rw [hreason]
    split_ifs at ih ⊢ with hempty
    · rcases hstatus with hsame | hsome
      · rwa [hsame]
      · exact hsome
    · rfl

/-- **Every response is framed**: whatever has happened to a client, and whichever way it is
answered, the response splits at its first blank line into a header and the prepared body, and the
header tells the length of that body in its one `Content-Length` line. A response with the status 302
needs a redirection. -/
theorem response_framed {fs : FileSystem} {way : Way} {c c₁ : Client} {u : Unit} (h : Lived c)
    (hprepare : way.prepare fs c = .ok u c₁)
    (hredirect : c₁.status = .movedTemporarily → c₁.redirect ≠ []) :
    ∃ c', way.respond fs c = .ok () c' ∧ Framed c₁.response c'.response :=
  Way.respond_framed h.clean h.phrase hprepare hredirect

/-- A client that has asked for a directory without a `/` at its end. -/
def movedClient : Client :=
  { finalState (appendReadString (bytes "GET /a HTTP/1.1\x0d\nHost: b\x0d\n\x0d\n")
      (new 4 3 (decimal 80) 1000)) with status := .movedPermanently }

theorem lived_movedClient : Lived movedClient :=
  (Lived.read _ (Lived.new 4 3 80 1000)).assign rfl (.inl rfl) (.inl rfl) (.inr rfl)

theorem response_framed_moved : movedClient.requestTarget = bytes "/a" ∧
    ∃ c', (Way.error ∅).respond {} movedClient = .ok () c' ∧
      Framed (finalState ((Way.error ∅).prepare {} movedClient)).response c'.response := by
  have hok : thrown ((Way.error ∅).prepare {} movedClient) = none := by decide +kernel
  have hstatus : (finalState ((Way.error ∅).prepare {} movedClient)).status ≠ .movedTemporarily := by
    decide +kernel
  exact ⟨by decide +kernel, response_framed lived_movedClient (eq_ok_of_thrown hok)
    fun htemp => absurd htemp hstatus⟩

end Webserv.Client
