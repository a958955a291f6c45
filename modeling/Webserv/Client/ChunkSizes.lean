import Webserv.Client.LengthFeed

/-!
# The sizes of chunks

When the chunk loop is about to read a size, nothing is missing from a chunk (`Met.sized`), so
`_hexToNum` starts from zero. It multiplies without a bound, in a `size_t`: a size is read exactly when
it is less than `2 ^ 64`, and no other size is rejected (`chunkSize_iff`).
-/

namespace Webserv.Client

open Exec Search Chunked

/-- The clients that the chunk loop meets at the beginning of its rounds: bytes are appended to the
buffer of a client that is reading its body, and rounds follow. The read that completes the head
appends what follows the blank line to the client that the head alone gives. -/
inductive Met : Client → Prop
  | append {clientFd serverFd : ℤ} {serverPort : Bytes} {clientMaxBodySize : ℕ} {reads : List Bytes}
    {c : Client} (hfeed : feed reads (new clientFd serverFd serverPort clientMaxBodySize) = .ok () c)
    (hbody : c.clientToServerState = .body) (hchunked : c.isChunked = true) (extraBody : Bytes) :
    Met (c.push extraBody)
  | round {c c' : Client} (h : Met c) (hround : chunkRound c = .ok true c') : Met c'

/-! ## Nothing is missing when a size is read -/

/-- Nothing is missing from a chunk when its line end or the size of the next one is awaited. -/
def Sized (c : Client) : Prop :=
  c.chunkedReadState = .readingContentLen ∨ c.chunkedReadState = .readingBodyEndline →
    c.chunkedRemainingContentLength = 0

variable {c c' : Client}

theorem sized_finishLine (hc : c.Sized) (hs : c.chunkedReadState = .readingContentLenEndline ∨
    c.chunkedReadState = .readingBodyEndline) (rest : Bytes) : (c.finishLine rest).Sized := by
  intro hstate
  unfold finishLine at hstate ⊢
  split_ifs at hstate ⊢ with hend hzero
  · exact hzero
  · simp at hstate
  · exact hc (.inr (hs.resolve_left hend))

theorem sized_readEndline (hc : c.Sized) (hs : c.chunkedReadState = .readingContentLenEndline ∨
    c.chunkedReadState = .readingBodyEndline) {goes : Bool} (h : readEndline c = .ok goes c') :
    c'.Sized := by
  rcases readEndline_cases c with ⟨-, h'⟩ | ⟨rest, -, h'⟩ | ⟨-, -, h'⟩
  · cases h'.symm.trans h
    exact hc
  · cases h'.symm.trans h
    exact sized_finishLine hc hs rest
  · cases h'.symm.trans h

/-- Every round keeps it. -/
theorem sized_chunkRound (hc : c.Sized) {goes : Bool} (h : chunkRound c = .ok goes c') : c'.Sized := by
  cases hs : c.chunkedReadState with
  | readingContentLen =>
    rw [chunkRound_contentLen hs] at h
    split at h
    · cases h
      exact hc
    · split at h
      · cases h
      · exact sized_readEndline (fun hstate => by simp at hstate) (.inl rfl) h
  | readingBody =>
    rw [chunkRound_body hs] at h
    split at h
    · exact sized_readEndline (fun _ => rfl) (.inr rfl) h
    · cases h
      intro hstate
      rw [continueChunk_state, hs] at hstate
      simp at hstate
  | readingContentLenEndline =>
    rw [chunkRound_endline (.inl hs)] at h
    exact sized_readEndline hc (.inl hs) h
  | readingBodyEndline =>
    rw [chunkRound_endline (.inr hs)] at h
    exact sized_readEndline hc (.inr hs) h

theorem sized_push (hc : c.Sized) (b : Bytes) : (c.push b).Sized := hc

theorem sized_rounds (hc : c.Sized) (h : Rounds c c') : c'.Sized := by
  induction h with
  | refl => exact hc
  | tail _ hround ih => exact sized_chunkRound ih hround

theorem sized_decode (hc : c.Sized) (h : decode c = .ok () c') : c'.Sized := by
  obtain ⟨last, hrounds, ⟨c₁, hlast, h₁⟩ | ⟨e, c₁, -, h₁⟩⟩ := exists_lastRound c
  · cases h₁.symm.trans h
    exact sized_chunkRound (sized_rounds hc hrounds) hlast
  · cases h₁.symm.trans h

theorem AtChunks.sized (hc : c.AtChunks) : c.Sized := by
  rw [← hc.eq_scanned]
  exact fun _ => rfl

/-- A client that is reading a chunked body has run the chunk loop on what it has read of it. -/
theorem exists_atChunks {clientFd serverFd : ℤ} {serverPort : Bytes} {clientMaxBodySize : ℕ}
    {reads : List Bytes}
    (hfeed : feed reads (new clientFd serverFd serverPort clientMaxBodySize) = .ok () c)
    (hbody : c.clientToServerState = .body) (hchunked : c.isChunked = true) :
    ∃ c₀ t, AtChunks c₀ ∧ decode (c₀.push t) = .ok () c := by
  have hheader := feed_header (c := new clientFd serverFd serverPort clientMaxBodySize) rfl rfl reads
  rw [hfeed] at hheader
  split at hheader
  · cases hheader
    cases hbody
  · rename_i i hfind
    obtain ⟨pieces, -, hheader⟩ := hheader
    obtain ⟨j, hj⟩ := find_crlf_take hfind
    obtain ⟨_, c₀, hread, hpieces⟩ := bind_eq_ok hheader.symm
    obtain ⟨status, c₁, h₁, -⟩ | ⟨c₁, h₁, -, hcases⟩ :=
      readHead_cases (isFresh_new clientFd serverFd serverPort clientMaxBodySize _) hj
    · cases h₁.symm.trans hread
    cases h₁.symm.trans hread
    rcases hcases with ⟨hdone, -⟩ | ⟨-, hatChunks | hatLength⟩
    · rw [feed_done hdone] at hpieces
      cases hpieces
      cases hdone.symm.trans hbody
    · have hfed := (fed_start hatChunks).feed hatChunks hpieces (by rw [hbody]; nofun)
      exact ⟨c₀, _, hatChunks, hfed.decode_eq⟩
    · have hlength := feed_length_isChunked hatLength pieces
      rw [hpieces, finalState_ok, hchunked] at hlength
      cases hlength

/-- **Nothing is missing when a size is read**, whatever was read before. -/
theorem Met.sized (h : Met c) : c.Sized := by
  induction h with
  | append hfeed hbody hchunked extraBody =>
    obtain ⟨c₀, t, hc₀, hdecode⟩ := exists_atChunks hfeed hbody hchunked
    exact sized_push (sized_decode (sized_push hc₀.sized t) hdecode) extraBody
  | round _ hround ih => exact sized_chunkRound ih hround

/-! ## The size that is read -/

/-- The digits at the beginning of the buffer are removed from it, and the size becomes the number that
they denote, or the round rejects the request; and no other number becomes the size. -/
def ReadsSize (c : Client) (digits rest : Bytes) : Prop :=
  ((∃ c', readContentLen c = .ok true c' ∧
      c'.chunkedRemainingContentLength = hexCoding.value digits ∧ c'.chunkedBodyBuffer = rest) ∨
    ∃ status c', chunkRound c = .error (.clientException status) c') ∧
  ∀ goes c', readContentLen c = .ok goes c' →
    c'.chunkedRemainingContentLength = hexCoding.value digits

theorem readContentLen_eq (hremaining : c.chunkedRemainingContentLength = 0) {digits rest : Bytes}
    (hdigits : hexCoding.IsNumeral digits) (hrest : hexCoding.NoDigit rest) (hne : rest ≠ [])
    (hbuffer : c.chunkedBodyBuffer = digits ++ rest) :
    readContentLen c = .ok true (c.startChunk rest (hexCoding.value digits % sizeModulus)) := by
  have hall : ¬ (digits ++ rest).all fun b => (bytes "1234567890abcdefABCDEF").contains b := by
    simp only [contains_hexDigits]
    exact not_all_digits hrest hne
  simp only [readContentLen, run_bind, run_get, run_ite, hbuffer, if_neg hall, hremaining,
    hexToNum_numeral hdigits hrest]
  rfl

/-- **Sizes below `2 ^ 64` are read exactly**, and others are neither read exactly nor rejected. -/
theorem chunkSize_iff (h : Met c) (hstate : c.chunkedReadState = .readingContentLen)
    {digits rest : Bytes} {b : UInt8} (hdigits : hexCoding.IsNumeral digits) (hb : hexDigit b = none)
    (hbuffer : c.chunkedBodyBuffer = digits ++ b :: rest) :
    c.chunkedRemainingContentLength = 0 ∧
      (c.ReadsSize digits (b :: rest) ↔ hexCoding.value digits < 2 ^ 64) := by
  have hremaining := h.sized (.inl hstate)
  have hnoDigit : hexCoding.NoDigit (b :: rest) := by
    intro b' hb'
    cases hb'
    exact hb
  have hread := readContentLen_eq hremaining hdigits hnoDigit (List.cons_ne_nil b rest) hbuffer
  refine ⟨hremaining, ?_, fun hlt => ?_⟩
  · rintro ⟨-, hexact⟩
    have hvalue : hexCoding.value digits % sizeModulus = hexCoding.value digits := hexact _ _ hread
    have hmod : hexCoding.value digits % sizeModulus < sizeModulus := Nat.mod_lt _ (by decide)
    rwa [hvalue] at hmod
  · have hvalue : hexCoding.value digits % sizeModulus = hexCoding.value digits :=
      Nat.mod_eq_of_lt hlt
    refine ⟨.inl ⟨_, hread, hvalue, rfl⟩, fun goes c' h' => ?_⟩
    cases hread.symm.trans h'
    exact hvalue

/-- A client that has read the head of a request with a chunked body. -/
def sizeClient : Client :=
  finalState (feed [bytes "POST / HTTP/1.1\x0d\nHost: a\x0d\nTransfer-Encoding: chunked\x0d\n\x0d\n"]
    (new 4 3 (bytes "80") 1))

theorem met_sizeClient (extraBody : Bytes) : Met (sizeClient.push extraBody) :=
  .append (eq_ok_of_thrown (by decide +kernel)) (by decide +kernel) (by decide +kernel) extraBody

theorem chunkSize_iff_five :
    (sizeClient.push (bytes "5\x0d\n")).chunkedRemainingContentLength = 0 ∧
      (sizeClient.push (bytes "5\x0d\n")).ReadsSize (bytes "5") (bytes "\x0d\n") := by
  have hdigits : hexCoding.IsNumeral (bytes "5") := ⟨by decide, by decide +kernel⟩
  have hb : hexDigit 13 = none := by decide +kernel
  have hbuffer : (sizeClient.push (bytes "5\x0d\n")).chunkedBodyBuffer = bytes "5" ++ 13 :: [10] := by
    decide +kernel
  obtain ⟨hnone, hreads⟩ := chunkSize_iff (met_sizeClient _) (by decide +kernel) hdigits hb hbuffer
  exact ⟨hnone, hreads.2 (by decide +kernel)⟩

/-- A size of seventeen digits is read as five. -/
theorem not_chunkSize_wrapped : ¬ ∀ (c : Client) (digits rest : Bytes) (b : UInt8), Met c →
    c.chunkedReadState = .readingContentLen → hexCoding.IsNumeral digits → hexDigit b = none →
    c.chunkedBodyBuffer = digits ++ b :: rest →
    c.chunkedRemainingContentLength = 0 ∧ c.ReadsSize digits (b :: rest) := by
  intro h
  have hreads := (h (sizeClient.push (bytes "10000000000000005\x0d\n")) (bytes "10000000000000005") [10] 13
    (met_sizeClient _) (by decide +kernel) ⟨by decide, by decide +kernel⟩ (by decide +kernel)
    (by decide +kernel)).2
  have hsize : (match readContentLen (sizeClient.push (bytes "10000000000000005\x0d\n")) with
      | .ok _ c' => c'.chunkedRemainingContentLength
      | .error _ _ => 0) = 5 := by decide +kernel
  have hvalue : hexCoding.value (bytes "10000000000000005") = 2 ^ 64 + 5 := by decide +kernel
  split at hsize
  · rename_i goes c' hread
    have hexact := hreads.2 goes c' hread
    rw [hsize, hvalue] at hexact
    omega
  · cases hsize

end Webserv.Client
