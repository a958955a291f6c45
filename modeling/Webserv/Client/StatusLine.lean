import Webserv.Client.CgiDocument
import Webserv.Client.RequestHead
import Webserv.Client.RequestLine

/-!
# The status line of a response

The status line starts with the protocol of the request, which `_parseRequestLine` stores before it
checks it, so that the answer to a malformed request line repeats what the client has sent as its
version. Its code may come from a CGI, which may name any number up to 999 (`statusLine_iff`).
-/

namespace Webserv.Client

open Exec Search Utils Lines

/-- A version, three digits and a phrase without a line end, and then a line end. -/
def WellFormedStatusLine (response : Bytes) : Prop :=
  ∃ protocol code phrase rest, IsVersion protocol ∧ code.length = 3 ∧ (∀ b ∈ code, IsDigit b) ∧
    LineFree phrase ∧
    response = protocol ++ ch ' ' :: (code ++ ch ' ' :: (phrase ++ crlf ++ rest))

/-! ## Its parts -/

theorem length_decimal_iff {n : ℕ} (hn : n ≤ 999) : (decimal n).length = 3 ↔ 100 ≤ n := by
  have hone : ∀ {m : ℕ}, m < 10 → (Nat.toDigits 10 m).length = 1 := by
    intro m hm
    rw [Nat.toDigits_of_lt_base hm, List.length_singleton]
  have hstep : ∀ {m : ℕ}, 10 ≤ m → (Nat.toDigits 10 m).length = (Nat.toDigits 10 (m / 10)).length + 1 := by
    intro m hm
    rw [Nat.toDigits_of_base_le (by decide) hm, List.length_append, List.length_singleton]
  rw [decimal_eq, List.length_map]
  by_cases hlt : n < 10
  · rw [hone hlt]
    omega
  · rw [hstep (not_lt.1 hlt)]
    by_cases hlt' : n / 10 < 10
    · rw [hone hlt']
      omega
    · rw [hstep (not_lt.1 hlt'), hone (by omega)]
      omega

theorem space_notMem_decimal (n : ℕ) : ch ' ' ∉ decimal n :=
  fun h => absurd ((isNumeral_decimal n).digits _ h) (by decide)

/-- A text is cut at its first space in one way. -/
theorem append_space_inj {l l' r r' : Bytes} (hl : ch ' ' ∉ l) (hl' : ch ' ' ∉ l')
    (h : l ++ ch ' ' :: r = l' ++ ch ' ' :: r') : l = l' ∧ r = r' := by
  have hlength : l.length = l'.length := by
    have hfind := find_singleton_append hl r
    rw [h, find_singleton_append hl' r'] at hfind
    exact (Option.some.inj hfind).symm
  obtain ⟨rfl, hr⟩ := List.append_inj h hlength
  exact ⟨rfl, (List.cons.inj hr).2⟩

theorem space_notMem_of_isVersion {protocol : Bytes} (h : IsVersion protocol) : ch ' ' ∉ protocol := by
  obtain ⟨major, minor, hmajor, hminor, rfl⟩ := h
  exact space_notMem_version hmajor (hminor.ne (by decide))

/-- The status line of a response is well formed if its version is, and its code has three digits. -/
theorem wellFormedStatusLine_withHead {c : Client} {text : Bytes} (hprotocol : ch ' ' ∉ c.protocol)
    (htext : LineFree text) (hcode : c.status.code ≤ 999) :
    WellFormedStatusLine (c.withHead text) ↔ IsVersion c.protocol ∧ 100 ≤ c.status.code := by
  obtain ⟨rest, hrest⟩ : ∃ rest, c.withHead text = c.protocol ++ ch ' ' ::
      (decimal c.status.code ++ ch ' ' :: (text ++ crlf ++ rest)) := by
    refine ⟨join 13 10 c.fieldLines ++ crlf ++ crlf ++ c.response, ?_⟩
    have hspace : bytes " " = [ch ' '] := by decide
    simp only [withHead, fieldLines, join, statusLine, hspace, crlf]
    simp
  constructor
  · rintro ⟨protocol, code, phrase, rest', hversion, hlength, hdigits, -, heq⟩
    rw [hrest] at heq
    obtain ⟨rfl, hcode'⟩ := append_space_inj hprotocol (space_notMem_of_isVersion hversion) heq
    have hspace : ch ' ' ∉ code := fun h => absurd (hdigits _ h) (by decide)
    obtain ⟨rfl, -⟩ := append_space_inj (space_notMem_decimal _) hspace hcode'
    exact ⟨hversion, (length_decimal_iff hcode).1 hlength⟩
  · rintro ⟨hversion, hle⟩
    exact ⟨c.protocol, decimal c.status.code, text, rest, hversion, (length_decimal_iff hcode).2 hle,
      (isNumeral_decimal _).digits, htext, hrest⟩

/-! ## The protocol -/

/-- A line with a method and a target, whose version is none. -/
def OddProtocol (line : Bytes) : Prop :=
  ∃ method name target protocol, MethodName method name ∧ target.head? = some (ch '/') ∧
    ch ' ' ∉ protocol ∧ ¬ IsVersion protocol ∧
    line = name ++ ch ' ' :: target ++ ch ' ' :: protocol

variable {c : Client} {line : Bytes}

/-- What follows the last space is stored if the method and the target are fine. -/
theorem protocol_of_spaces {name protocol : Bytes} (target : Bytes) (hname : ch ' ' ∉ name)
    (hprotocol : ch ' ' ∉ protocol) :
    (finalState (parseRequestLine (name ++ ch ' ' :: target ++ ch ' ' :: protocol) c)).protocol =
      if (methodOf name).isSome ∧ target.head? = some (ch '/') then protocol else c.protocol := by
  have hspaces := parseRequestLine_spaces (c := c) target hname hprotocol
  by_cases haccepted : (methodOf name).isSome ∧ target.head? = some (ch '/') ∧ isValidProtocol protocol
  · rw [if_pos haccepted] at hspaces
    obtain ⟨method, -, heq⟩ := hspaces
    rw [heq, finalState_ok, if_pos ⟨haccepted.1, haccepted.2.1⟩]
  · rw [if_neg haccepted] at hspaces
    obtain ⟨c', herror, hc'⟩ := hspaces
    rw [herror, finalState_error, hc']

/-- **The protocol that is stored** is a version, unless the line has an odd one. -/
theorem isVersion_parseRequestLine (hc : IsVersion c.protocol) (line : Bytes) :
    ch ' ' ∉ (finalState (parseRequestLine line c)).protocol ∧
      (IsVersion (finalState (parseRequestLine line c)).protocol ↔ ¬ OddProtocol line) := by
  have hodd : OddProtocol line → ¬ IsVersion (finalState (parseRequestLine line c)).protocol := by
    rintro ⟨method, name, target, protocol, hmethod, hhead, hspace, hversion, rfl⟩
    rw [protocol_of_spaces target (space_notMem_name hmethod) hspace, if_pos]
    · exact hversion
    · exact ⟨by rw [methodOf_iff.2 hmethod]; rfl, hhead⟩
  have hold : (finalState (parseRequestLine line c)).protocol = c.protocol →
      ch ' ' ∉ (finalState (parseRequestLine line c)).protocol ∧
        (IsVersion (finalState (parseRequestLine line c)).protocol ↔ ¬ OddProtocol line) := by
    intro hsame
    have hversion : IsVersion (finalState (parseRequestLine line c)).protocol := by rwa [hsame]
    exact ⟨space_notMem_of_isVersion hversion, iff_of_true hversion fun h => hodd h hversion⟩
  rcases line_cases line with hspace | ⟨name, rest, hname, hrest, rfl | ⟨target, rfl⟩⟩
  · refine hold ?_
    rw [parseRequestLine_noSpace hspace]
    rfl
  · refine hold ?_
    obtain ⟨c', herror, hc'⟩ := parseRequestLine_oneSpace (c := c) hname hrest
    rw [herror, finalState_error, hc']
  · have hprotocol := protocol_of_spaces (c := c) target hname hrest
    by_cases hfine : (methodOf name).isSome ∧ target.head? = some (ch '/')
    · rw [if_pos hfine] at hprotocol
      obtain ⟨method, hmethod⟩ := Option.isSome_iff_exists.1 hfine.1
      rw [hprotocol]
      refine ⟨hrest, fun hversion h => hodd h (hprotocol.symm ▸ hversion), fun hnot => ?_⟩
      by_contra hversion
      exact hnot ⟨method, name, target, rest, methodOf_iff.1 hmethod, hfine.2, hrest, hversion, rfl⟩
    · rw [if_neg hfine] at hprotocol
      exact hold hprotocol

/-! ## The stream -/

/-- The request line of a stream, once its header block is complete. -/
def Announces (stream line : Bytes) : Prop :=
  (find blankLine stream).isSome = true ∧ ∃ j, find crlf stream = some j ∧ line = stream.take j

/-- The first line of a header block is the request line of the stream. -/
theorem announces_of_getHeaderLines {stream : Bytes} {i : ℕ} (hfind : find blankLine stream = some i)
    {lines : List Bytes} (h : getHeaderLines (stream.take (i + 2)) = line :: lines) (line' : Bytes) :
    Announces stream line' ↔ line' = line := by
  obtain ⟨j, hj⟩ := find_crlf_take hfind
  have hj' : find crlf stream = some j := by
    rw [← List.take_append_drop (i + 2) stream]
    exact find_append_right hj _
  have hline : line = stream.take j := by
    have hle := length_le_of_find hj
    rw [List.length_take] at hle
    rw [getHeaderLines, linesFrom, hj] at h
    rw [← (List.cons.inj h).1, List.take_take, Nat.min_eq_left (by omega)]
  constructor
  · rintro ⟨-, j', hfind', rfl⟩
    rw [hline, Option.some.inj (hj'.symm.trans hfind')]
  · rintro rfl
    exact ⟨by rw [hfind]; rfl, j, hj', hline⟩

/-- Nothing but the request line changes the protocol. -/
theorem protocol_readHeaderBlock {lines : List Bytes} (h : getHeaderLines c.header = line :: lines) :
    (finalState (readHeaderBlock c)).protocol = (finalState (parseRequestLine line c)).protocol := by
  have huse : ∀ c : Client, (finalState (useHeaders c)).protocol = c.protocol := by
    intro c
    have hframing : Keeps Client.protocol useFraming := by
      intro c
      have hencoding : c.withEncoding.protocol = c.protocol := by
        unfold withEncoding
        split_ifs <;> rfl
      rw [useFraming_eq]
      split
      · exact hencoding
      · split_ifs
        · exact hencoding
        · dsimp only
          split_ifs
          · exact hencoding
          · exact hencoding
    exact (Keeps.bind hframing fun _ => keeps_useNames.of_comp Client.protocol fun _ => rfl) c
  rw [readHeaderBlock_eq h]
  cases parseRequestLine line c with
  | error e c' => rfl
  | ok u c' =>
    dsimp only
    split_ifs
    · exact huse _
    · rfl

/-- The body of a request does not change the protocol, nor does what follows a request. -/
theorem protocol_feed_body (hstate : c.clientToServerState ≠ .header) (reads : List Bytes) :
    (finalState (feed reads c)).protocol = c.protocol := by
  have hread : ∀ read, Preserves (fun d => d.protocol = c.protocol ∧ d.clientToServerState ≠ .header)
      (appendReadString read) := by
    intro read d hd
    cases hphase : d.clientToServerState with
    | header => exact absurd hphase hd.2
    | body =>
      rw [appendReadString_body hphase]
      have hbody : Preserves (fun d : Client => d.protocol = c.protocol ∧ d.clientToServerState ≠ .header)
          (parseBodyAppend read) :=
        preserves_parseBodyAppend (fun _ _ _ _ _ _ hc => hc) (fun _ hc => ⟨hc.1, nofun⟩) read
      exact hbody d hd
    | done =>
      rw [appendReadString_done hphase]
      exact hd
  have hfeed : ∀ reads, Preserves (fun d => d.protocol = c.protocol ∧ d.clientToServerState ≠ .header)
      (feed reads) := by
    intro reads
    induction reads with
    | nil => exact .pure _
    | cons read reads ih => exact .bind (hread read) fun _ => ih
  exact (hfeed reads c ⟨rfl, hstate⟩).1

theorem isVersion_default : IsVersion (bytes "HTTP/1.1") :=
  ⟨ch '1', ch '1', by decide, by decide, by decide⟩

/-- **The protocol of a client** is a version, unless the request line of its stream has an odd one,
whatever the stream is and however it is cut. -/
theorem isVersion_feed (clientFd serverFd : ℤ) (serverPort : Bytes) (clientMaxBodySize : ℕ)
    (reads : List Bytes) :
    ch ' ' ∉ (finalState (feed reads (new clientFd serverFd serverPort clientMaxBodySize))).protocol ∧
      (IsVersion (finalState (feed reads (new clientFd serverFd serverPort clientMaxBodySize))).protocol ↔
        ∀ line, Announces reads.flatten line → ¬ OddProtocol line) := by
  have hfeed := feed_header (c := new clientFd serverFd serverPort clientMaxBodySize) rfl rfl reads
  have hheader : (new clientFd serverFd serverPort clientMaxBodySize).header ++ reads.flatten =
      reads.flatten := rfl
  rw [hheader] at hfeed
  cases hfind : find blankLine reads.flatten with
  | none =>
    rw [hfind] at hfeed
    dsimp only at hfeed
    rw [hfeed, finalState_ok]
    refine ⟨space_notMem_of_isVersion isVersion_default, iff_of_true isVersion_default ?_⟩
    rintro line ⟨hsome, -⟩
    rw [hfind] at hsome
    cases hsome
  | some i =>
    rw [hfind] at hfeed
    obtain ⟨pieces, -, hfeed⟩ := hfeed
    obtain ⟨j, hj⟩ := find_crlf_take hfind
    obtain ⟨line, lines, hlines⟩ := List.exists_cons_of_ne_nil (getHeaderLines_ne_nil hj)
    have hannounces := announces_of_getHeaderLines hfind hlines
    have hparse := isVersion_parseRequestLine
      (c := (new clientFd serverFd serverPort clientMaxBodySize).withHeader (reads.flatten.take (i + 2)))
      isVersion_default line
    have hprotocol : (finalState (feed reads
        (new clientFd serverFd serverPort clientMaxBodySize))).protocol =
        (finalState (parseRequestLine line ((new clientFd serverFd serverPort
          clientMaxBodySize).withHeader (reads.flatten.take (i + 2))))).protocol := by
      rw [hfeed, ← protocol_readHeaderBlock hlines, readHead, run_bind, run_bind]
      cases readHeaderBlock ((new clientFd serverFd serverPort clientMaxBodySize).withHeader
          (reads.flatten.take (i + 2))) with
      | error e c' => rfl
      | ok u c' =>
        dsimp only
        rw [startBody_nil]
        dsimp only
        rw [protocol_feed_body]
        · split_ifs <;> rfl
        · split_ifs <;>
          · intro hstate
            cases hstate
    rw [hprotocol]
    refine ⟨hparse.1, hparse.2.trans ?_⟩
    constructor
    · intro hodd line' hline'
      rw [(hannounces line').1 hline']
      exact hodd
    · exact fun h => h line ((hannounces line).2 rfl)

/-! ## The response -/

theorem code_of_getReasonPhrase {status : Status} {text : Bytes} (h : getReasonPhrase status = some text) :
    100 ≤ status.code ∧ status.code ≤ 999 := by
  unfold getReasonPhrase at h
  split_ifs at h with hok hmoved htemp hbad hforbidden hfound hallowed hlarge hserver
  · exact hok ▸ by decide
  · exact hmoved ▸ by decide
  · exact htemp ▸ by decide
  · exact hbad ▸ by decide
  · exact hforbidden ▸ by decide
  · exact hfound ▸ by decide
  · exact hallowed ▸ by decide
  · exact hlarge ▸ by decide
  · exact hserver ▸ by decide

variable {fs : FileSystem} {way : Way} {c₁ : Client}

/-- No way changes the protocol. -/
theorem protocol_prepare {u : Unit} (h : way.prepare fs c = .ok u c₁) : c₁.protocol = c.protocol := by
  have hkeeps : Preserves (fun d : Client => d.protocol = c.protocol) (way.prepare fs) :=
    way.preserves_prepare (fun _ _ _ _ _ hd => hd) fun _ =>
      preserves_extractCGIDocumentResponseHeaders (fun _ _ hd => hd) (fun _ hd => hd)
        (fun _ _ _ hd => hd) fun _ _ _ _ _ hd => hd
  have hprepared := hkeeps c rfl
  rwa [h] at hprepared

/-- The phrase of a response has no line end, though a CGI may have named it. -/
theorem lineFree_phrase_prepare {u : Unit} {text : Bytes} (hreason : c.customReasonPhrase = [])
    (h : way.prepare fs c = .ok u c₁) (htext : c₁.phrase = some text) : LineFree text := by
  have hfree : Preserves (fun d : Client => LineFree d.customReasonPhrase) (way.prepare fs) :=
    way.preserves_prepare (fun _ _ _ _ _ hd => hd) fun _ =>
      preserves_extractCGIDocumentResponseHeaders (fun _ _ hd => hd) (fun _ hd => hd)
        (fun _ _ _ hd => hd) fun _ _ _ hfeed _ _ => free_of_notMem hfeed
  have hnil : LineFree c.customReasonPhrase := by
    rw [hreason]
    exact free_nil
  have hprepared := hfree c hnil
  rw [h] at hprepared
  unfold phrase at htext
  split_ifs at htext
  · exact lineFree_getReasonPhrase htext
  · exact Option.some.inj htext ▸ hprepared

/-- Only a document changes the status, and it names one up to 999. -/
theorem IsDocument.code_le {output body : Bytes} {code : ℕ} (h : IsDocument output code body) :
    code ≤ 999 := by
  obtain ⟨lines, fields, -, -, -, -, -, -, ⟨-, rfl⟩ | ⟨numeral, phrase, -, -, hle⟩⟩ := h
  · decide
  · exact hle

/-- The code of a response is that of a document, or one that the server names. -/
theorem code_prepare {u : Unit} {text : Bytes} (hreason : c.customReasonPhrase = [])
    (hok : way = .cgi → c.status = .ok) (h : way.prepare fs c = .ok u c₁)
    (htext : c₁.phrase = some text) :
    c₁.status.code ≤ 999 ∧ (100 ≤ c₁.status.code ↔
      (way = .cgi → c.cgiExitStatus = 0 → ∀ code body, IsDocument c.response code body → 100 ≤ code)) := by
  by_cases hcgi : way = .cgi ∧ c.cgiExitStatus = 0 ∧ ∃ code body, IsDocument c.response code body
  · obtain ⟨rfl, hexit, code, body, hdoc⟩ := hcgi
    obtain ⟨contentType, reason, hextract, -⟩ := extract_of_isDocument hexit (hok rfl) hdoc
    cases hextract.symm.trans h
    refine ⟨hdoc.code_le, fun hle _ _ code' body' hdoc' => ?_, fun hall => hall rfl hexit code body hdoc⟩
    exact (hdoc.unique hdoc').1 ▸ hle
  · -- Nothing has named a phrase, so the status is one that has a phrase of its own
    have hstatus : c₁.status = .internalServerError ∨
        c₁.status = c.status ∧ c₁.customReasonPhrase = [] := by
      by_cases hway : way = .cgi
      · subst hway
        by_cases hexit : c.cgiExitStatus = 0
        · obtain ⟨c₂, hextract, hstatus⟩ :=
            extract_of_not_isDocument hexit fun hdoc => hcgi ⟨rfl, hexit, hdoc⟩
          cases hextract.symm.trans h
          exact .inl hstatus
        · have hkeeps : extractCGIDocumentResponseHeaders c = .ok () c := by
            rw [extractCGIDocumentResponseHeaders, run_bind, run_get]
            dsimp only
            rw [run_ite, if_pos hexit]
            rfl
          cases hkeeps.symm.trans h
          exact .inr ⟨rfl, hreason⟩
      · have hkeeps : Preserves (fun d : Client => d.status = c.status ∧ d.customReasonPhrase = [])
            (way.prepare fs) :=
          way.preserves_prepare (fun _ _ _ _ _ hd => hd) fun hcgi => absurd hcgi hway
        have hprepared := hkeeps c ⟨rfl, hreason⟩
        rw [h] at hprepared
        exact .inr hprepared
    have hcode : 100 ≤ c₁.status.code ∧ c₁.status.code ≤ 999 := by
      rcases hstatus with hstatus | ⟨-, hnil⟩
      · rw [hstatus]
        decide
      · rw [phrase, if_pos hnil] at htext
        exact code_of_getReasonPhrase htext
    exact ⟨hcode.2, iff_of_true hcode.1 fun hway hexit code body hdoc =>
      absurd ⟨hway, hexit, code, body, hdoc⟩ hcgi⟩

/-- **When a response has a well-formed status line**, whatever was received, however it was cut and
whichever way it is answered: if the request line has no odd version, and the CGI no status below 100. -/
theorem statusLine_iff {reads : List Bytes} {clientFd serverFd : ℤ} {serverPort : Bytes}
    {clientMaxBodySize : ℕ} {u : Unit} {c' : Client}
    (hprotocol : c.protocol =
      (finalState (feed reads (new clientFd serverFd serverPort clientMaxBodySize))).protocol)
    (hreason : c.customReasonPhrase = []) (hok : way = .cgi → c.status = .ok)
    (h : way.respond fs c = .ok u c') :
    WellFormedStatusLine c'.response ↔ (∀ line, Announces reads.flatten line → ¬ OddProtocol line) ∧
      (way = .cgi → c.cgiExitStatus = 0 → ∀ code body, IsDocument c.response code body → 100 ≤ code) := by
  rw [way.respond_eq] at h
  obtain ⟨v, c₁, hprepare, hprepend⟩ := bind_eq_ok h
  obtain ⟨hphrase, hredirect⟩ := answerable_of_ok hprepend
  obtain ⟨text, htext⟩ := Option.isSome_iff_exists.1 hphrase
  have hresponse : c'.response = c₁.withHead text := by
    rw [prependResponseHeader_eq htext hredirect] at hprepend
    cases hprepend
    rfl
  obtain ⟨hspace, hversion⟩ := isVersion_feed clientFd serverFd serverPort clientMaxBodySize reads
  obtain ⟨hle, hcode⟩ := code_prepare hreason hok hprepare htext
  have hsame := (protocol_prepare hprepare).trans hprotocol
  rw [hresponse, wellFormedStatusLine_withHead (hsame ▸ hspace)
    (lineFree_phrase_prepare hreason hprepare htext) hle, hcode, hsame, hversion]

/-- A client that has sent the given bytes and is answered with the given error. -/
def failedClient (received : String) (status : Status) : Client :=
  { finalState (feed [bytes received] (new 4 3 (bytes "80") 1000)) with status := status }

theorem failedClient_protocol (received : String) (status : Status) :
    (failedClient received status).protocol =
      (finalState (feed [bytes received] (new 4 3 (bytes "80") 1000))).protocol :=
  rfl

theorem statusLine_notAllowed : ∃ c',
    (Way.error ∅).respond {} (failedClient "BREW / HTTP/1.1\x0d\n\x0d\n" .methodNotAllowed) = .ok () c' ∧
      WellFormedStatusLine c'.response := by
  have hok : thrown ((Way.error ∅).respond {}
      (failedClient "BREW / HTTP/1.1\x0d\n\x0d\n" .methodNotAllowed)) = none := by
    decide +kernel
  have hline : ∀ line, Announces [bytes "BREW / HTTP/1.1\x0d\n\x0d\n"].flatten line → ¬ OddProtocol line := by
    rintro line ⟨-, j, hfind, rfl⟩ ⟨method, name, target, protocol, hname, -, -, -, heq⟩
    have hfind' : find crlf [bytes "BREW / HTTP/1.1\x0d\n\x0d\n"].flatten = some 15 := by decide +kernel
    obtain rfl := Option.some.inj (hfind'.symm.trans hfind)
    have hmethod := methodOf_iff.2 hname
    have hbrew : [bytes "BREW / HTTP/1.1\x0d\n\x0d\n"].flatten.take 15 =
        bytes "BREW" ++ ch ' ' :: bytes "/ HTTP/1.1" := by
      decide +kernel
    rw [hbrew, List.append_assoc, List.cons_append] at heq
    obtain ⟨rfl, -⟩ := append_space_inj (by decide) (space_notMem_name hname) heq
    cases hmethod
  have hreason : (failedClient "BREW / HTTP/1.1\x0d\n\x0d\n" .methodNotAllowed).customReasonPhrase = [] := by
    decide +kernel
  have hway : Way.error ∅ ≠ Way.cgi := Way.noConfusion
  have hrespond := eq_ok_of_thrown hok
  exact ⟨_, hrespond, (statusLine_iff (failedClient_protocol _ _) hreason (fun h => absurd h hway)
    hrespond).2 ⟨hline, fun h => absurd h hway⟩⟩

/-- The answer to a malformed version starts with it. -/
theorem not_wellFormedStatusLine_evil :
    thrown (feed [bytes "GET / evil\x0d\n\x0d\n"] (new 4 3 (bytes "80") 1000)) =
      some (.clientException .badRequest) ∧
    ∃ c', (Way.error ∅).respond {} (failedClient "GET / evil\x0d\n\x0d\n" .badRequest) = .ok () c' ∧
      ¬ WellFormedStatusLine c'.response := by
  have hok : thrown ((Way.error ∅).respond {}
      (failedClient "GET / evil\x0d\n\x0d\n" .badRequest)) = none := by
    decide +kernel
  have hhead : (finalState ((Way.error ∅).respond {}
      (failedClient "GET / evil\x0d\n\x0d\n" .badRequest))).response.head? = some (ch 'e') := by
    decide +kernel
  refine ⟨by decide +kernel, _, eq_ok_of_thrown hok, ?_⟩
  rintro ⟨protocol, code, phrase, rest, ⟨major, minor, -, -, rfl⟩, -, -, -, heq⟩
  rw [heq] at hhead
  cases hhead

end Webserv.Client
