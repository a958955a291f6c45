import Webserv.Client.HeaderUse
import Webserv.Client.RequestLine

/-!
# The framing headers

What `_useHeaders` makes of `Content-Length` and `Transfer-Encoding`, for every header block whose request
line and fields are accepted. A length has to be a numeral, but the empty string is taken for one
(`lengthChecked_iff`); an encoding other than `chunked` is ignored (`encodingHeeded_iff`).
-/

namespace Webserv.Client

open Exec Search Utils

variable {c c₁ : Client} {line : Bytes} {lines : List Bytes} {headers : Headers}

/-- The header block of a client, with a request line and fields that are accepted. -/
structure Accepted (c c₁ : Client) (headers : Headers) : Prop where
  fresh : c.IsFresh
  parts : ∃ line lines, getHeaderLines c.header = line :: lines ∧
    parseRequestLine line c = .ok () c₁ ∧ fillHeaders lines ∅ = (true, headers)

/-- What is left to do is to use the headers. -/
theorem Accepted.readHeaderBlock_eq (h : Accepted c c₁ headers) :
    readHeaderBlock c = useHeaders (c₁.withHeaders headers) ∧ c₁.isChunked = false := by
  obtain ⟨line, lines, hlines, hparse, hfill⟩ := h.parts
  have hkept := keeps_parseRequestLine line c
  rw [hparse, finalState_ok] at hkept
  have hheaders : c₁.headers = ∅ := by
    rcases parseRequestLine_uniform line with ⟨status, herror⟩ | ⟨method, target, protocol, hok⟩
    · obtain ⟨c', hc'⟩ := herror c
      cases hparse.symm.trans hc'
    · cases hparse.symm.trans (hok c)
      exact h.fresh.headers
  refine ⟨?_, ?_⟩
  · rw [Client.readHeaderBlock_eq hlines, hparse]
    dsimp only
    rw [hheaders, hfill]
    rfl
  · rw [framing_isChunked hkept]
    exact h.fresh.isChunked

/-- The body is chunked if the encoding is `chunked`. -/
theorem Accepted.isChunked_iff (h : Accepted c c₁ headers) :
    (c₁.withHeaders headers).withEncoding.isChunked = true ↔
      headers.lookup (bytes "TRANSFER_ENCODING") = some (bytes "chunked") := by
  have hfresh : (c₁.withHeaders headers).isChunked = false := h.readHeaderBlock_eq.2
  exact withEncoding_isChunked hfresh

/-! ## The length -/

/-- `Content-Length` is checked: the header phase goes on if the value is a numeral of a `size_t`, with
the number it denotes, and throws `BAD_REQUEST` otherwise. -/
def LengthChecked (c : Client) (value : Bytes) : Prop :=
  (∀ n, IsNumeral value n → n < sizeModulus →
    ∃ c', readHeaderBlock c = .ok () c' ∧ c'.contentLength = n) ∧
  ((¬ ∃ n, IsNumeral value n ∧ n < sizeModulus) →
    ∃ c', readHeaderBlock c = .error (.clientException .badRequest) c')

theorem Accepted.usable_iff (h : Accepted c c₁ headers) {value : Bytes}
    (hlength : headers.lookup (bytes "CONTENT_LENGTH") = some value)
    (hencoding : headers.lookup (bytes "TRANSFER_ENCODING") ≠ some (bytes "chunked")) :
    (c₁.withHeaders headers).Usable ↔
      (parseNumber value (sizeModulus - 1)).1 = true ∧ HasHost headers := by
  have hchunked := h.isChunked_iff.not.2 hencoding
  rw [Bool.not_eq_true] at hchunked
  constructor
  · exact fun husable => ⟨(husable.length value hlength).2, husable.host⟩
  · rintro ⟨haccepted, hhost⟩
    refine ⟨fun value' hvalue' => ?_, hhost⟩
    obtain rfl : value = value' := Option.some.inj (hlength.symm.trans hvalue')
    exact ⟨hchunked, haccepted⟩

/-- **When a length is checked**: unless nothing is left of the value after trimming. A block whose
`Host` starts with a colon is rejected whatever the length is. -/
theorem lengthChecked_iff {value host : Bytes} (h : Accepted c c₁ headers)
    (hlength : headers.lookup (bytes "CONTENT_LENGTH") = some value)
    (hencoding : headers.lookup (bytes "TRANSFER_ENCODING") ≠ some (bytes "chunked"))
    (hhost : headers.lookup (bytes "HOST") = some host) :
    (find (bytes ":") host ≠ some 0 → (LengthChecked c value ↔ value ≠ [])) ∧
      (find (bytes ":") host = some 0 →
        ∃ c', readHeaderBlock c = .error (.clientException .badRequest) c') := by
  have hmax : 9 ≤ sizeModulus - 1 := by decide
  have hlt : ∀ n, n ≤ sizeModulus - 1 ↔ n < sizeModulus := fun n =>
    Nat.le_sub_one_iff_lt (by decide)
  have husable := h.usable_iff hlength hencoding
  rw [LengthChecked, h.readHeaderBlock_eq.1]
  constructor
  · intro hcolon
    have hhost' : HasHost headers := ⟨host, hhost, hcolon⟩
    constructor
    · rintro ⟨-, hno⟩ rfl
      have hnone : ¬ ∃ n, IsNumeral [] n ∧ n < sizeModulus := fun ⟨n, hn, _⟩ => hn.nonempty rfl
      obtain ⟨c', herror⟩ := hno hnone
      rw [useHeaders_of_usable (husable.2 ⟨rfl, hhost'⟩)] at herror
      cases herror
    · intro hne
      refine ⟨fun n hn hbound => ?_, fun hno => ?_⟩
      · have hparse := (parseNumber_iff hmax).2 (.inl ⟨hn, (hlt n).2 hbound⟩)
        refine ⟨_, useHeaders_of_usable (husable.2 ⟨by rw [hparse], hhost'⟩), ?_⟩
        change (c₁.withHeaders headers).toldLength = n
        rw [toldLength, show (c₁.withHeaders headers).headers = headers from rfl, hlength]
        dsimp only
        rw [hparse]
      · refine useHeaders_of_not_usable fun hu => hno ?_
        rcases (parseNumber_fst hmax).1 (husable.1 hu).1 with ⟨n, hn, hbound⟩ | hnil
        · exact ⟨n, hn, (hlt n).1 hbound⟩
        · exact absurd hnil hne
  · intro hcolon
    refine useHeaders_of_not_usable fun hu => ?_
    obtain ⟨host', hhost', hcolon'⟩ := (husable.1 hu).2
    obtain rfl : host = host' := Option.some.inj (hhost.symm.trans hhost')
    exact hcolon' hcolon

/-- A client that has read a header block. -/
def blockClient (header : String) : Client :=
  (new 4 3 (bytes "80") 1000).withHeader (bytes header)

/-- The headers of a block with two fields. -/
def twoHeaders (key value : String) : Headers :=
  ((∅ : Headers).insert (bytes "HOST") (bytes "a")).insert (bytes key) (bytes value)

/-- The client after the request line of a `POST` request. -/
def postedClient (header : String) : Client := (blockClient header).withLine .post (bytes "/") (bytes "HTTP/1.1")

theorem accepted_block {header : String} (lines : List Bytes) {headers : Headers}
    (hlines : getHeaderLines (bytes header) = bytes "POST / HTTP/1.1" :: lines)
    (hfill : fillHeaders lines ∅ = (true, headers)) :
    Accepted (blockClient header) (postedClient header) headers :=
  ⟨isFresh_new 4 3 (bytes "80") 1000 _, bytes "POST / HTTP/1.1", lines, hlines, rfl, hfill⟩

theorem lengthChecked_five :
    LengthChecked (blockClient "POST / HTTP/1.1\x0d\nHost: a\x0d\nContent-Length: 5\x0d\n")
      (bytes "5") := by
  have haccepted : Accepted
      (blockClient "POST / HTTP/1.1\x0d\nHost: a\x0d\nContent-Length: 5\x0d\n")
      (postedClient "POST / HTTP/1.1\x0d\nHost: a\x0d\nContent-Length: 5\x0d\n")
      (twoHeaders "CONTENT_LENGTH" "5") :=
    accepted_block [bytes "Host: a", bytes "Content-Length: 5"] (by decide +kernel) rfl
  have hhost : (twoHeaders "CONTENT_LENGTH" "5").lookup (bytes "HOST") = some (bytes "a") := rfl
  exact ((lengthChecked_iff haccepted rfl (by decide +kernel) hhost).1 (by decide)).2 (by decide)

/-- A length of which nothing is left is accepted. -/
theorem not_lengthChecked_blank :
    Accepted (blockClient "POST / HTTP/1.1\x0d\nHost: a\x0d\nContent-Length: \x0d\n")
      (postedClient "POST / HTTP/1.1\x0d\nHost: a\x0d\nContent-Length: \x0d\n")
      (twoHeaders "CONTENT_LENGTH" "") ∧
    ¬ LengthChecked (blockClient "POST / HTTP/1.1\x0d\nHost: a\x0d\nContent-Length: \x0d\n") [] := by
  refine ⟨accepted_block [bytes "Host: a", bytes "Content-Length: "] (by decide +kernel) rfl,
    ?_⟩
  rintro ⟨-, hno⟩
  obtain ⟨c', herror⟩ := hno fun ⟨n, hn, _⟩ => hn.nonempty rfl
  have hok : thrown (readHeaderBlock
      (blockClient "POST / HTTP/1.1\x0d\nHost: a\x0d\nContent-Length: \x0d\n")) = none := by
    decide +kernel
  rw [herror] at hok
  cases hok

/-! ## The encoding -/

/-- `Transfer-Encoding` is heeded: the block is rejected, or the body is read in chunks; beside a length,
the block is rejected. -/
def EncodingHeeded (c : Client) (headers : Headers) : Prop :=
  ((∃ c', readHead c = .error (.clientException .badRequest) c') ∨
    ∃ c', readHead c = .ok () c' ∧ c'.isChunked = true ∧ c'.clientToServerState = .body) ∧
  ((headers.lookup (bytes "CONTENT_LENGTH")).isSome →
    ∃ c', readHead c = .error (.clientException .badRequest) c')

/-- What is rejected whatever the encoding is: a block without a proper `Host`, or with a length that is
no number. -/
def RejectedAnyway (headers : Headers) : Prop :=
  ¬ HasHost headers ∨ ∃ value, headers.lookup (bytes "CONTENT_LENGTH") = some value ∧
    (parseNumber value (sizeModulus - 1)).1 = false

/-- **When the encoding of a `POST` request is heeded**: if it is `chunked`, or the block is rejected
anyway. -/
theorem encodingHeeded_iff {encoding : Bytes} (h : Accepted c c₁ headers)
    (hpost : c₁.requestMethod = .post)
    (hencoding : headers.lookup (bytes "TRANSFER_ENCODING") = some encoding) :
    EncodingHeeded c headers ↔ encoding = bytes "chunked" ∨ RejectedAnyway headers := by
  have hblock := h.readHeaderBlock_eq.1
  have hchunked := h.isChunked_iff
  rw [hencoding, Option.some.injEq] at hchunked
  have hreject : ¬ (c₁.withHeaders headers).Usable →
      ∃ c', readHead c = .error (.clientException .badRequest) c' := by
    intro hu
    obtain ⟨c', herror⟩ := useHeaders_of_not_usable hu
    exact ⟨c', bind_of_error (hblock.trans herror)⟩
  have haccept : (c₁.withHeaders headers).Usable →
      readHead c = startBody [] (c₁.withHeaders headers).settled := fun hu =>
    bind_of_ok (hblock.trans (useHeaders_of_usable hu))
  have hpost' : (c₁.withHeaders headers).settled.requestMethod = .post :=
    (withEncoding_requestMethod _).trans hpost
  constructor
  · rintro ⟨hheeded, hboth⟩
    by_contra hcon
    obtain ⟨hne, hrejected⟩ := not_or.1 hcon
    rw [RejectedAnyway, not_or, not_not, not_exists] at hrejected
    -- the headers are used, and the body is not chunked
    have hunchunked : (c₁.withHeaders headers).withEncoding.isChunked = false := by
      rw [← Bool.not_eq_true]
      exact hchunked.not.2 hne
    have hu : (c₁.withHeaders headers).Usable := by
      refine ⟨fun value hvalue => ⟨hunchunked, ?_⟩, hrejected.1⟩
      by_contra hnumber
      exact hrejected.2 value ⟨hvalue, by simpa using hnumber⟩
    have hok := haccept hu
    rw [startBody_nil] at hok
    rcases hheeded with ⟨c', herror⟩ | ⟨c', hok', hchunked', -⟩
    · cases hok.symm.trans herror
    · have hc' := hok.symm.trans hok'
      simp only [EStateM.Result.ok.injEq, true_and] at hc'
      have hsettled : (c₁.withHeaders headers).settled.isChunked = false := hunchunked
      rw [← hc'] at hchunked'
      split_ifs at hchunked'
      · exact Bool.false_ne_true (hsettled.symm.trans hchunked')
      · exact Bool.false_ne_true (hsettled.symm.trans hchunked')
  · rintro (rfl | hrejected)
    · have hyes := hchunked.2 rfl
      by_cases hlength : headers.lookup (bytes "CONTENT_LENGTH") = none
      · refine ⟨?_, fun hsome => by rw [hlength] at hsome; cases hsome⟩
        by_cases hu : (c₁.withHeaders headers).Usable
        · right
          have hok := haccept hu
          have hsettled : (c₁.withHeaders headers).settled.isChunked = true := hyes
          rw [startBody_nil, if_neg] at hok
          · exact ⟨_, hok, hsettled, rfl⟩
          · rintro (hmethod | ⟨-, hno⟩)
            · exact hmethod hpost'
            · exact Bool.false_ne_true (hno.symm.trans hsettled)
        · exact .inl (hreject hu)
      · obtain ⟨value, hvalue⟩ := Option.ne_none_iff_exists'.1 hlength
        have hrejected := hreject fun hu =>
          Bool.false_ne_true ((hu.length value hvalue).1.symm.trans hyes)
        exact ⟨.inl hrejected, fun _ => hrejected⟩
    · have hnot : ¬ (c₁.withHeaders headers).Usable := by
        rintro hu
        rcases hrejected with hhost | ⟨value, hvalue, hnumber⟩
        · exact hhost hu.host
        · exact Bool.false_ne_true (hnumber.symm.trans (hu.length value hvalue).2)
      exact ⟨.inl (hreject hnot), fun _ => hreject hnot⟩

theorem encodingHeeded_chunked :
    EncodingHeeded (blockClient "POST / HTTP/1.1\x0d\nHost: a\x0d\nTransfer-Encoding: chunked\x0d\n")
      (twoHeaders "TRANSFER_ENCODING" "chunked") := by
  have haccepted : Accepted
      (blockClient "POST / HTTP/1.1\x0d\nHost: a\x0d\nTransfer-Encoding: chunked\x0d\n")
      (postedClient "POST / HTTP/1.1\x0d\nHost: a\x0d\nTransfer-Encoding: chunked\x0d\n")
      (twoHeaders "TRANSFER_ENCODING" "chunked") :=
    accepted_block [bytes "Host: a", bytes "Transfer-Encoding: chunked"] (by decide +kernel) rfl
  have hencoding : (twoHeaders "TRANSFER_ENCODING" "chunked").lookup (bytes "TRANSFER_ENCODING") =
      some (bytes "chunked") := rfl
  exact (encodingHeeded_iff haccepted rfl hencoding).2 (.inl rfl)

/-- The encoding `gzip, chunked` is ignored: the request is taken for one without a body. -/
theorem not_encodingHeeded_gzip :
    Accepted (blockClient "POST / HTTP/1.1\x0d\nHost: a\x0d\nTransfer-Encoding: gzip, chunked\x0d\n")
      (postedClient "POST / HTTP/1.1\x0d\nHost: a\x0d\nTransfer-Encoding: gzip, chunked\x0d\n")
      (twoHeaders "TRANSFER_ENCODING" "gzip, chunked") ∧
    ¬ EncodingHeeded
      (blockClient "POST / HTTP/1.1\x0d\nHost: a\x0d\nTransfer-Encoding: gzip, chunked\x0d\n")
      (twoHeaders "TRANSFER_ENCODING" "gzip, chunked") := by
  refine ⟨accepted_block [bytes "Host: a", bytes "Transfer-Encoding: gzip, chunked"]
    (by decide +kernel) rfl, ?_⟩
  have hok : thrown (readHead
      (blockClient "POST / HTTP/1.1\x0d\nHost: a\x0d\nTransfer-Encoding: gzip, chunked\x0d\n")) =
        none := by
    decide +kernel
  have hdone : (finalState (readHead
      (blockClient "POST / HTTP/1.1\x0d\nHost: a\x0d\nTransfer-Encoding: gzip, chunked\x0d\n"))
        ).clientToServerState = .done := by
    decide +kernel
  rintro ⟨⟨c', herror⟩ | ⟨c', hc', -, hbody⟩, -⟩
  · rw [herror] at hok
    cases hok
  · rw [hc', finalState_ok, hbody] at hdone
    cases hdone

end Webserv.Client
