import Webserv.Client.Answering
import Webserv.Foundations.Lines

/-!
# The header of a response

`prependResponseHeader` puts texts into the header that come from the request, from the output of a CGI
and from the configuration. None of them has a line end inside (`Clean`): those of a request are parts
of its header lines, which were cut at line ends, and those of a CGI are parts of lines without a line
feed. So the header ends where it should, and tells the length of the body (`Framed`).
-/

namespace Webserv.Client

open Exec Search Utils Lines

/-- There is no line end in a text. -/
abbrev LineFree (l : Bytes) : Prop := Free 13 10 l

/-! ## Parts of lines -/

theorem lineFree_of_find {l : Bytes} {i : ℕ} (h : find crlf l = some i) : LineFree (l.take i) := by
  obtain ⟨-, -, hfirst⟩ := find_eq_some h
  rintro ⟨before, after, heq⟩
  refine hfirst before.length ?_ ?_
  · have hlen := congrArg List.length heq
    simp only [List.length_append, List.length_cons, List.length_nil, List.length_take] at hlen
    omega
  · rw [← List.take_append_drop i l, ← heq, List.append_assoc, List.append_assoc, List.drop_left]
    exact List.prefix_append _ _

theorem lineFree_linesFrom (fuel : ℕ) (l : Bytes) : ∀ line ∈ linesFrom crlf fuel l, LineFree line := by
  induction fuel generalizing l with
  | zero => simp [linesFrom]
  | succ fuel ih =>
    intro line hline
    rw [linesFrom] at hline
    cases hfind : find crlf l with
    | none =>
      rw [hfind] at hline
      cases hline
    | some i =>
      rw [hfind] at hline
      rcases List.mem_cons.1 hline with rfl | hline
      · exact lineFree_of_find hfind
      · exact ih _ line hline

/-- The lines of the header of a CGI have no line feed. -/
theorem notMem_linesFrom (fuel : ℕ) (l : Bytes) : ∀ line ∈ linesFrom [10] fuel l, (10 : UInt8) ∉ line := by
  induction fuel generalizing l with
  | zero => simp [linesFrom]
  | succ fuel ih =>
    intro line hline
    rw [linesFrom] at hline
    cases hfind : find [(10 : UInt8)] l with
    | none =>
      rw [hfind] at hline
      cases hline
    | some i =>
      rw [hfind] at hline
      rcases List.mem_cons.1 hline with rfl | hline
      · obtain ⟨-, -, hfirst⟩ := find_eq_some hfind
        intro hmem
        obtain ⟨j, hj, hget⟩ := List.mem_iff_getElem.1 hmem
        rw [List.length_take] at hj
        have hlt : j < l.length := by omega
        rw [List.getElem_take] at hget
        refine hfirst j (by omega) ?_
        rw [List.drop_eq_getElem_cons hlt, hget]
        simp
      · exact ih _ line hline

theorem trimmed_within (line : Bytes) (i : ℕ) : trim (line.drop i) (bytes " \t") <:+: line := by
  have hleft : trim (line.drop i) (bytes " \t") <:+ rtrim (line.drop i) (bytes " \t") :=
    List.dropWhile_suffix _
  have hright : rtrim (line.drop i) (bytes " \t") <+: line.drop i := List.rdropWhile_prefix _ _
  exact hleft.isInfix.trans (hright.isInfix.trans (List.drop_suffix i line).isInfix)

/-- Decoding the spaces of a text makes no line end. -/
theorem lineFree_replaceFrom {needle : Bytes} (fuel : ℕ) {input : Bytes} (startPos : ℕ)
    (h : LineFree input) : LineFree (replaceFrom needle (bytes " ") fuel input startPos) := by
  induction fuel generalizing input startPos with
  | zero => exact h
  | succ fuel ih =>
    rw [replaceFrom]
    cases find needle (input.drop startPos) with
    | none => exact h
    | some i =>
      refine ih _ ?_
      exact (h.take _).insert (h.drop _) (by decide) (by decide) (by decide)

/-- A number is written with digits only. -/
theorem notMem_decimal {b : UInt8} (h : ∀ d < 10, b ∉ [Nat.digitChar d].map ch) (n : ℕ) :
    b ∉ decimal n := by
  rw [decimal_eq]
  induction n using Nat.strongRecOn with
  | ind n ih =>
  by_cases hlt : n < 10
  · rw [Nat.toDigits_of_lt_base hlt]
    exact h n hlt
  · rw [Nat.toDigits_of_base_le (by decide) (not_lt.1 hlt), List.map_append, List.mem_append, not_or]
    exact ⟨ih (n / 10) (by omega), h _ (Nat.mod_lt n (by decide))⟩

/-! ## The texts of a client -/

/-- The texts that the header of a response is made of have no line end inside. -/
structure Clean (c : Client) : Prop where
  headers : ∀ key value, c.headers.lookup key = some value → LineFree value
  protocol : LineFree c.protocol
  requestTarget : LineFree c.requestTarget
  unuppercasedServerName : LineFree c.unuppercasedServerName
  serverPort : (13 : UInt8) ∉ c.serverPort
  redirect : LineFree c.redirect
  responseContentType : LineFree c.responseContentType
  customReasonPhrase : LineFree c.customReasonPhrase

/-- The texts of a client. -/
def texts (c : Client) : Headers × List Bytes :=
  (c.headers, [c.protocol, c.requestTarget, c.unuppercasedServerName, c.serverPort, c.redirect,
    c.responseContentType, c.customReasonPhrase])

theorem Clean.congr {c c' : Client} (h : c.Clean) (htexts : c'.texts = c.texts) : c'.Clean := by
  simp only [texts, Prod.mk.injEq, List.cons.injEq, and_true] at htexts
  obtain ⟨hheaders, hprotocol, htarget, hname, hport, hredirect, htype, hreason⟩ := htexts
  exact ⟨hheaders ▸ h.headers, hprotocol ▸ h.protocol, htarget ▸ h.requestTarget,
    hname ▸ h.unuppercasedServerName, hport ▸ h.serverPort, hredirect ▸ h.redirect,
    htype ▸ h.responseContentType, hreason ▸ h.customReasonPhrase⟩

theorem clean_new (clientFd serverFd : ℤ) {serverPort : Bytes}
    (hport : (13 : UInt8) ∉ serverPort)
    (clientMaxBodySize : ℕ) : (new clientFd serverFd serverPort clientMaxBodySize).Clean where
  headers key value h := nomatch (Finmap.lookup_empty (β := fun _ : Bytes => Bytes) key).symm.trans h
  protocol := by
    have hnotMem : (10 : UInt8) ∉ bytes "HTTP/1.1" := by decide
    exact free_of_notMem hnotMem
  requestTarget := free_nil
  unuppercasedServerName := free_nil
  serverPort := hport
  redirect := free_nil
  responseContentType := by
    have hnotMem : (10 : UInt8) ∉ bytes "application/octet-stream" := by decide
    exact free_of_notMem hnotMem
  customReasonPhrase := free_nil

/-! ## Reading a request -/

theorem preserves_parseRequestLine {line : Bytes} (hline : LineFree line) :
    Preserves Clean (parseRequestLine line) := by
  unfold parseRequestLine
  split
  · exact .throw _
  · refine .bind ?_ fun method => .bind (.modify fun c hc => hc.congr rfl) fun _ => ?_
    · unfold getRequestMethodEnumFromString
      exact .ite (fun _ => .pure _) fun _ => .ite (fun _ => .pure _) fun _ =>
        .ite (fun _ => .pure _) fun _ => .throw _
    split
    · exact .throw _
    · refine .ite (fun _ => .throw _) fun _ => .bind (.modify fun c hc => ?_) fun _ => ?_
      · exact { hc with requestTarget := (hline.drop _).take _ }
      refine .ite (fun _ => .throw _) fun _ => .bind (.modify fun c hc => ?_) fun _ => ?_
      · exact { hc with requestTarget := lineFree_replaceFrom _ _ hc.requestTarget }
      refine .bind (.modify fun c hc => ?_) fun _ => .ite (fun _ => .pure _) fun _ => .throw _
      exact { hc with protocol := hline.drop _ }

/-- The values of headers are what is left of their lines. -/
theorem fillHeaders_values {P : Bytes → Prop} {lines : List Bytes}
    (hlines : ∀ line ∈ lines, ∀ i, P (trim (line.drop i) (bytes " \t"))) {headers : Headers}
    (h : ∀ key value, headers.lookup key = some value → P value) :
    ∀ key value, (fillHeaders lines headers).2.lookup key = some value → P value := by
  induction lines generalizing headers with
  | nil => exact h
  | cons line lines ih =>
    obtain ⟨hline, hlines⟩ := List.forall_mem_cons.1 hlines
    rw [fillHeaders]
    split
    · exact h
    · dsimp only
      split_ifs with hzero hmem
      · exact h
      · exact h
      · refine ih hlines fun key value hlookup => ?_
        rw [Map.emplace_of_notMem hmem, Map.lookup_insert_eq] at hlookup
        split_ifs at hlookup
        · cases hlookup
          exact hline _
        · exact h key value hlookup

theorem preserves_useFraming : Preserves Clean useFraming := by
  intro c hc
  have hencoding : c.withEncoding.Clean := by
    refine hc.congr ?_
    unfold withEncoding
    split_ifs <;> rfl
  rw [useFraming_eq]
  split
  · exact hencoding
  · split_ifs
    · exact hencoding
    · dsimp only
      split_ifs
      · exact hencoding.congr rfl
      · exact hencoding.congr rfl

theorem preserves_useHeaders : Preserves Clean useHeaders := by
  refine .bind preserves_useFraming fun _ => .bind ?_ fun _ => ?_
  · unfold useHost
    refine .bind_get fun c hc => ?_
    split
    · exact .throw _
    · rename_i host hhost
      have hfree := hc.headers _ _ hhost
      split
      · exact .modify fun c' hc' => { hc' with unuppercasedServerName := hfree }
      · refine .ite (fun _ => .throw _) fun _ => .modify fun c' hc' => ?_
        exact { hc' with unuppercasedServerName := hfree.take _ }
  · refine .bind .get fun c => ?_
    split
    · exact .pure _
    · exact .modify fun c' hc' => hc'.congr rfl

theorem preserves_readHeaderBlock : Preserves Clean readHeaderBlock := by
  refine .bind_get fun c _ => ?_
  have hlines : ∀ line ∈ getHeaderLines c.header, LineFree line := lineFree_linesFrom _ _
  split
  · exact .throw _
  · rename_i requestLine headerLines heq
    rw [heq] at hlines
    obtain ⟨hline, hlines⟩ := List.forall_mem_cons.1 hlines
    refine .bind (preserves_parseRequestLine hline) fun _ => .bind_get fun c hc => ?_
    have hvalues := fillHeaders_values
      (fun line hline _ => (hlines line hline).within (trimmed_within line _)) hc.headers
    refine .bind (.modify fun c' hc' => { hc' with headers := hvalues }) fun _ => ?_
    exact .ite (fun _ => preserves_useHeaders) fun _ => .throw _

/-- What `_parseBodyAppend` may do to a client. -/
theorem preserves_parseBodyAppend {I : Client → Prop}
    (hbody : ∀ (c : Client) body chunkedBodyBuffer remaining contentLength chunkedReadState, I c → I { c with
      body := body
      chunkedBodyBuffer := chunkedBodyBuffer
      chunkedRemainingContentLength := remaining
      contentLength := contentLength
      chunkedReadState := chunkedReadState })
    (hdone : ∀ c, I c → I { c with clientToServerState := .done }) (extraBody : Bytes) :
    Preserves I (parseBodyAppend extraBody) := by
  have hlen : Preserves I readContentLen := by
    refine .bind_get fun c hc => .ite (fun _ => .pure _) fun _ => ?_
    split
    · exact .throw _
    · exact .bind (.set (hbody c _ _ _ _ _ hc)) fun _ => .pure _
  have hchunk : Preserves I readChunkBody :=
    .bind_get fun c hc => .ite (fun _ => .bind (.set (hbody c _ _ _ _ _ hc)) fun _ => .pure _)
      fun _ => .bind (.set (hbody c _ _ _ _ _ hc)) fun _ => .pure _
  have hendline : Preserves I readEndline := by
    refine .bind_get fun c hc => ?_
    split
    · refine .ite (fun _ => .bind (.set ?_) fun _ => .pure _) fun _ => .throw _
      unfold finishLine
      split_ifs
      · exact hbody _ _ _ _ _ _ (hdone c hc)
      · exact hbody c _ _ _ _ _ hc
      · exact hbody c _ _ _ _ _ hc
    · exact .pure _
  have hline : Preserves I (do
      if (← get).chunkedReadState = .readingContentLenEndline ∨
        (← get).chunkedReadState = .readingBodyEndline then readEndline else pure true) :=
    .bind .get fun _ => .bind .get fun _ => .ite (fun _ => hendline) fun _ => .pure _
  have hrest : ∀ {x : ClientM Bool}, Preserves I x → ∀ proceed : Bool,
      Preserves I (if proceed = true then x else pure false) :=
    fun hx _ => .ite (fun _ => hx) fun _ => .pure _
  have hround : Preserves I chunkRound := by
    refine .bind .get fun _ => ?_
    have hlast : Preserves I (do
        let proceed ←
          if (← get).chunkedReadState = .readingBody then readChunkBody else pure true
        if proceed then
          if (← get).chunkedReadState = .readingContentLenEndline ∨
            (← get).chunkedReadState = .readingBodyEndline then readEndline else pure true
        else pure false) :=
      .bind .get fun _ => .ite (fun _ => .bind hchunk (hrest hline))
        fun _ => .bind (.pure _) (hrest hline)
    exact .ite (fun _ => .bind hlen (hrest hlast)) fun _ => .bind (.pure _) (hrest hlast)
  have hloop : ∀ fuel, Preserves I (chunkLoop fuel) := by
    intro fuel
    induction fuel with
    | zero => exact .pure _
    | succ fuel ih => exact .bind hround fun _ => .ite (fun _ => ih) fun _ => .pure _
  have hunchunked : Preserves I (parseUnchunked extraBody) := by
    refine .modify fun c hc => ?_
    split_ifs
    · exact hbody _ _ _ _ _ _ (hdone c hc)
    · exact hbody c _ _ _ _ _ hc
  have hchunked : Preserves I (parseChunked extraBody) :=
    .bind (.modify fun c hc => hbody c _ _ _ _ _ hc) fun _ => .bind .get fun _ => hloop _
  have hsize : Preserves I (do
      if (← get).clientMaxBodySize < (← get).body.length then raise .requestEntityTooLarge) :=
    .bind .get fun _ => .bind .get fun _ => .ite (fun _ => .throw _) fun _ => .pure _
  exact .bind .get fun _ => .ite (fun _ => .bind hchunked fun _ => hsize)
    fun _ => .bind hunchunked fun _ => hsize

/-- The body of a request is not among the texts. -/
theorem preserves_clean_parseBodyAppend (extraBody : Bytes) :
    Preserves Clean (parseBodyAppend extraBody) :=
  preserves_parseBodyAppend (fun _ _ _ _ _ _ hc => hc.congr rfl) (fun _ hc => hc.congr rfl) extraBody

/-- **A read of the connection keeps a client clean**, whatever the bytes are. -/
theorem preserves_appendReadString (received : Bytes) : Preserves Clean (appendReadString received) := by
  refine .bind .get fun c => ?_
  split
  · refine .bind (.modify fun c hc => hc.congr rfl) fun _ => .bind .get fun c => ?_
    dsimp only
    split
    · exact .pure _
    · refine .bind (.modify fun c hc => hc.congr rfl) fun _ => ?_
      refine .bind preserves_readHeaderBlock fun _ => .bind_get fun c hc => ?_
      refine .ite (fun _ => .set (hc.congr rfl)) fun _ => .bind (.set (hc.congr rfl)) fun _ => ?_
      exact .ite (fun _ => preserves_clean_parseBodyAppend _) fun _ => .pure _
  · exact preserves_clean_parseBodyAppend received
  · exact .pure _

/-! ## Reading the output of a CGI -/

/-- What is left of a line does not end in a space. -/
theorem getLast?_trim (s : Bytes) : (trim s (bytes " \t")).getLast? ≠ some (ch ' ') := by
  intro hlast
  have hsuffix : trim s (bytes " \t") <:+ rtrim s (bytes " \t") := List.dropWhile_suffix _
  have hne : trim s (bytes " \t") ≠ [] := by
    intro hnil
    rw [hnil] at hlast
    cases hlast
  obtain ⟨before, heq⟩ := hsuffix
  have hlast' : (rtrim s (bytes " \t")).getLast? = some (ch ' ') := by
    rw [← heq, List.getLast?_append_of_ne_nil _ hne, hlast]
  have hne' : rtrim s (bytes " \t") ≠ [] := by
    intro hnil
    rw [hnil] at hlast'
    cases hlast'
  rw [List.getLast?_eq_getLast_of_ne_nil hne'] at hlast'
  have hnot := List.rdropWhile_last_not _ _ hne'
  have hspace : (bytes " \t").contains (ch ' ') = true := by decide
  exact hnot (Option.some.inj hlast' ▸ hspace)

/-- The reason phrase of a CGI is a part of the header, and not empty. -/
theorem parseCgiStatus_phrase {statusString reasonPhrase : Bytes} {status : Status}
    (h : parseCgiStatus statusString = some (status, reasonPhrase))
    (hlast : statusString.getLast? ≠ some (ch ' ')) :
    reasonPhrase <:+ statusString ∧ reasonPhrase ≠ [] := by
  unfold parseCgiStatus at h
  split at h
  · cases h
  · rename_i spaceIndex hfind
    split at h
    · cases h
      refine ⟨List.drop_suffix _ _, fun hnil => hlast ?_⟩
      obtain ⟨-, hspace, -⟩ := find_eq_some hfind
      have hlength := List.drop_eq_nil_iff.1 hnil
      obtain ⟨rest, hrest⟩ := hspace
      have hone := congrArg List.length hrest
      have hlength' : (bytes " ").length = 1 := by decide
      rw [List.length_append, List.length_drop, hlength'] at hone
      have hempty : rest = [] := List.length_eq_zero_iff.1 (by omega)
      rw [hempty, List.append_nil] at hrest
      rw [← List.take_append_drop spaceIndex statusString, ← hrest,
        List.getLast?_append_of_ne_nil _ (by decide)]
      decide
    · cases h

/-- What `extractCGIDocumentResponseHeaders` may do to a client. -/
theorem preserves_extractCGIDocumentResponseHeaders {I : Client → Prop}
    (hresponse : ∀ c response, I c → I { c with response := response })
    (hfail : ∀ c, I c → I { c with status := .internalServerError })
    (htype : ∀ c contentType, (10 : UInt8) ∉ contentType → I c →
      I { c with responseContentType := contentType })
    (hphrase : ∀ c status phrase, (10 : UInt8) ∉ phrase → phrase ≠ [] → I c →
      I { c with status := status, customReasonPhrase := phrase }) :
    Preserves I extractCGIDocumentResponseHeaders := by
  have hfail' : Preserves I failDocument := .modify hfail
  refine .bind .get fun _ => .ite (fun _ => .pure _) fun _ => .bind .get fun _ => ?_
  split
  · exact hfail'
  · refine .bind .get fun _ => .bind (.modify fun c hc => hresponse c _ hc) fun _ => ?_
    generalize hfill : fillHeaders _ ∅ = filled
    have hvalues : ∀ key value, filled.2.lookup key = some value →
        (10 : UInt8) ∉ value ∧ value.getLast? ≠ some (ch ' ') := by
      rw [← hfill]
      refine fillHeaders_values
        (P := fun value => (10 : UInt8) ∉ value ∧ value.getLast? ≠ some (ch ' '))
        (fun line hline i => ⟨fun hmem => ?_, getLast?_trim _⟩) fun key value h => ?_
      · exact notMem_linesFrom _ _ line hline ((trimmed_within line i).subset hmem)
      · cases (Finmap.lookup_empty (β := fun _ : Bytes => Bytes) key).symm.trans h
    split
    · exact hfail'
    · unfold useCgiHeaders
      split
      · exact hfail'
      · rename_i contentType hlookup
        refine .bind (.modify fun c hc => htype c _ (hvalues _ _ hlookup).1 hc) fun _ => ?_
        split
        · exact .pure _
        · rename_i statusString hstatus
          obtain ⟨hfeed, hlast⟩ := hvalues _ _ hstatus
          split
          · exact hfail'
          · rename_i status reasonPhrase hparse
            obtain ⟨hpart, hne⟩ := parseCgiStatus_phrase hparse hlast
            exact .modify fun c hc => hphrase c _ _ (fun hmem => hfeed (hpart.subset hmem)) hne hc

/-- **The output of a CGI keeps a client clean**, whatever it is. -/
theorem preserves_clean_extractCGIDocumentResponseHeaders :
    Preserves Clean extractCGIDocumentResponseHeaders :=
  preserves_extractCGIDocumentResponseHeaders (fun _ _ hc => hc.congr rfl) (fun _ hc => hc.congr rfl)
    (fun _ _ h hc => { hc with responseContentType := free_of_notMem h })
    fun _ _ _ h _ hc => { hc with customReasonPhrase := free_of_notMem h }

end Webserv.Client
