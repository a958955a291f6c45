import Webserv.Client.Fragmentation
import Webserv.Server.State

/-!
# How much a client buffers

The size limit looks at the decoded body only. Undecoded bytes wait in a buffer of their own, from
which the chunk loop takes whatever it can decode: when it waits, the buffer is empty or holds half a
line end, except in the line of a chunk size, of which it keeps all the digits (`decode_waits`). The
digits are not counted, so exactly an endless chunk size makes the buffer outgrow the limit
(`buffered_iff`).
-/

namespace Webserv.Client

open Exec Search Chunked

variable {c c' : Client}

/-! ## What the chunk loop leaves in the buffer -/

/-- The digits of a chunk size wait in the buffer. -/
theorem decode_digits (hc : c.AtChunks) {u l d : Bytes} {sizes : List ℕ}
    (hs : HexScan u d sizes .size) (hl : ∀ b ∈ l, (hexDigit b).isSome) :
    decode (c.push (u ++ l)) = .ok () ((c.scanned d sizes .size).push l) := by
  have hscan := decode_scan (c := c) hs l
  rw [hc.eq_scanned] at hscan
  rw [hscan]
  refine decode_of_break ?_
  rw [chunkRound_contentLen rfl, if_pos]
  simpa [scanned] using hl

/-- **What waits in the buffer**: the digits of a chunk size, or at most half a line end. -/
theorem decode_waits {d v : Bytes} {sizes : List ℕ} {ph : Phase} (h : Waits hexCoding ph v)
    (hdecode : decode ((c.scanned d sizes ph).push v) = .ok () c') :
    (ph = .size ∧ (∀ b ∈ v, (hexDigit b).isSome) ∧ c'.chunkedBodyBuffer = v) ∨
      c'.chunkedBodyBuffer.length < 2 := by
  cases ph with
  | size =>
    obtain ⟨l, x, rfl, hl, hx, hwait⟩ := h
    by_cases hx0 : x = []
    · subst hx0
      have hbreak : chunkRound ((c.scanned d sizes .size).push (l ++ [])) =
          .ok false ((c.scanned d sizes .size).push (l ++ [])) := by
        rw [chunkRound_contentLen rfl, if_pos]
        simpa [scanned] using hl
      rw [decode_of_break hbreak] at hdecode
      cases hdecode
      exact .inl ⟨rfl, by simpa using hl, rfl⟩
    · obtain ⟨hl0, hlen⟩ := hwait.resolve_left hx0
      rw [decode_of_break ((chunkRound_size ⟨hl0, hl⟩ hx hx0).trans (readEndline_of_lt hlen))]
        at hdecode
      cases hdecode
      exact .inr hlen
  | data left =>
    cases left with
    | zero =>
      rw [decode_of_break (chunkRound_dataEnd.trans (readEndline_of_lt h))] at hdecode
      cases hdecode
      exact .inr h
    | succ left =>
      obtain rfl : v = [] := h
      have hbreak : chunkRound ((c.scanned d sizes (.data (left + 1))).push []) =
          .ok false ((c.scanned d sizes (.data (left + 1))).push []).continueChunk := by
        rw [chunkRound_body rfl]
        exact if_neg (Nat.not_succ_le_zero left)
      rw [decode_of_break hbreak] at hdecode
      cases hdecode
      exact .inr (by simp)
  | last =>
    rw [decode_of_break ((chunkRound_ended .last).trans (readEndline_of_lt h))] at hdecode
    cases hdecode
    exact .inr h
  | blank =>
    rw [decode_of_break ((chunkRound_ended .blank).trans (readEndline_of_lt h))] at hdecode
    cases hdecode
    exact .inr h

/-- The body bytes end in the digits of a chunk size, and these and the data before them are too
many. -/
def EndlessSize (limit : ℕ) (t : Bytes) : Prop :=
  ∃ u l d sizes, t = u ++ l ∧ HexScan u d sizes .size ∧ (∀ b ∈ l, (hexDigit b).isSome) ∧
    limit < d.length + l.length

/-- What the chunk loop holds exceeds a limit above that of the body exactly in an endless chunk
size. -/
theorem decode_exceeds_iff (hc : c.AtChunks) {t : Bytes} (hdecode : decode (c.push t) = .ok () c')
    (hbody : c'.body.length ≤ c.clientMaxBodySize) {room : ℕ} (hroom : 0 < room) :
    c.clientMaxBodySize + room < c'.body.length + c'.chunkedBodyBuffer.length ↔
      EndlessSize (c.clientMaxBodySize + room) t := by
  constructor
  · intro hlt
    obtain ⟨u, v, d, sizes, ph, rfl, hs, ⟨hwaits, c₁, h₁, hstores⟩ | ⟨-, c₁, h₁, -⟩⟩ :=
      decode_cases hc t
    swap
    · rw [h₁] at hdecode
      cases hdecode
    rw [h₁] at hdecode
    cases hdecode
    have hscan := decode_scan (c := c) hs v
    rw [hc.eq_scanned, h₁] at hscan
    rcases decode_waits hwaits hscan.symm with ⟨rfl, hdigits, hbuffer⟩ | hshort
    · refine ⟨u, v, d, sizes, rfl, hs, hdigits, ?_⟩
      rwa [hstores.body, hbuffer] at hlt
    · omega
  · rintro ⟨u, l, d, sizes, rfl, hs, hl, hlt⟩
    rw [decode_digits hc hs hl] at hdecode
    cases hdecode
    exact hlt

/-! ## Reads -/

/-- What the client holds after reads that did not throw is what the chunk loop has made of the body
bytes up to the end of the body. -/
theorem feed_cases {c₁ c₂ : Client} (hc : c.AtChunks) {t : Bytes} (h : Fed c t c₁)
    {reads : List Bytes} (hfeed : feed reads c₁ = .ok () c₂) :
    ∃ t₁ t₂, reads.flatten = t₁ ++ t₂ ∧ decode (c.push (t ++ t₁)) = .ok () c₂ ∧
      c₂.body.length ≤ c.clientMaxBodySize ∧ (c₂.clientToServerState ≠ .done → t₂ = []) := by
  induction reads generalizing t c₁ with
  | nil =>
    cases hfeed
    exact ⟨[], [], rfl, by simpa using h.decode_eq, h.length_le, fun _ => rfl⟩
  | cons read reads ih =>
    rw [feed_cons, h.appendReadString hc] at hfeed
    cases hd : decode (c.push (t ++ read)) with
    | error e c' =>
      rw [hd] at hfeed
      cases hfeed
    | ok _ c' =>
      rw [hd, checkSize, (decode_sameHead hc hd).clientMaxBodySize] at hfeed
      split_ifs at hfeed with hlarge
      dsimp only at hfeed
      rcases decode_progress hc hd with hbody | hended
      · obtain ⟨t₁, t₂, hflat, hdecode, hle, hrest⟩ := ih ⟨hd, hbody, not_lt.1 hlarge⟩ hfeed
        refine ⟨read ++ t₁, t₂, ?_, ?_, hle, hrest⟩
        · rw [List.flatten_cons, hflat, List.append_assoc]
        · rwa [← List.append_assoc]
      · rw [feed_done hended] at hfeed
        cases hfeed
        exact ⟨read, reads.flatten, rfl, hd, not_lt.1 hlarge, fun hne => absurd hended hne⟩

/-- Once the body is complete, no chunk size is being read. -/
theorem not_endlessSize_of_done (hc : c.AtChunks) {t t' : Bytes}
    (hdecode : decode (c.push t) = .ok () c') (hdone : c'.clientToServerState = .done) {limit : ℕ} :
    ¬ EndlessSize limit (t ++ t') := by
  rintro ⟨u, l, d, sizes, heq, hs, hl, -⟩
  have hmono := (decode_mono (b := t') hc hdecode).2 hdone
  rw [heq, decode_digits hc hs hl] at hmono
  cases hmono.1

theorem feed_chunks_exceeds_iff (hc : c.AtChunks) {reads : List Bytes}
    (hfeed : feed reads c = .ok () c') {room : ℕ} (hroom : 0 < room) :
    c'.body.length ≤ c.clientMaxBodySize ∧
      (c.clientMaxBodySize + room < c'.body.length + c'.chunkedBodyBuffer.length ↔
        EndlessSize (c.clientMaxBodySize + room) reads.flatten) := by
  obtain ⟨t₁, t₂, hflat, hdecode, hle, hrest⟩ := feed_cases hc (fed_start hc) hfeed
  rw [List.nil_append] at hdecode
  refine ⟨hle, ?_⟩
  rw [decode_exceeds_iff hc hdecode hle hroom, hflat]
  by_cases hdone : c'.clientToServerState = .done
  · have hnot : ¬ EndlessSize (c.clientMaxBodySize + room) (t₁ ++ []) :=
      not_endlessSize_of_done hc hdecode hdone
    rw [List.append_nil] at hnot
    exact iff_of_false hnot (not_endlessSize_of_done hc hdecode hdone)
  · rw [hrest hdone, List.append_nil]

/-- A body that is not chunked is never buffered. -/
theorem feed_length_buffer (hc : c.AtLength) (hbuffer : c.chunkedBodyBuffer = [])
    {reads : List Bytes} (hfeed : feed reads c = .ok () c') :
    c'.body.length ≤ c.clientMaxBodySize ∧ c'.chunkedBodyBuffer = [] := by
  have hnil := lengthRead_nil hc
  have hread : ∀ t, (c.lengthRead t).chunkedBodyBuffer = [] := by
    intro t
    unfold lengthRead
    split_ifs <;> exact hbuffer
  by_cases hle : c.contentLength ≤ c.clientMaxBodySize
  · have hall := feed_length_of_le hc hle [] reads
    rw [hnil, hfeed] at hall
    cases hall
    refine ⟨?_, hread _⟩
    rw [lengthRead_body, List.length_take]
    omega
  · have hall := feed_length_of_lt hc (not_le.1 hle) (t := []) (Nat.zero_le _) reads
    rw [hnil, hfeed] at hall
    by_cases hsmall : ([] ++ reads.flatten).length ≤ c.clientMaxBodySize
    · have hsame := hall.1 hsmall
      cases hsame
      refine ⟨?_, hread _⟩
      rw [lengthRead_body, List.length_take]
      omega
    · obtain ⟨t', hsame⟩ := hall.2 (not_le.1 hsmall)
      cases hsame

/-- The header phase leaves the body alone. -/
theorem readHead_body {i : ℕ} (hi : find crlf c.header = some i) (h : readHead c = .ok () c') :
    c'.body = c.body ∧ c'.chunkedBodyBuffer = c.chunkedBodyBuffer := by
  obtain ⟨_, c₁, hblock, hstart⟩ := bind_eq_ok h
  obtain ⟨e, c₂, h₂, -⟩ | ⟨c₂, h₂, hhead, -⟩ := readHeaderBlock_settles hi
  · rw [h₂] at hblock
    cases hblock
  · rw [h₂] at hblock
    cases hblock
    have hbody : c₁.body = c.body := (congrArg Client.body hhead :)
    have hbuffer : c₁.chunkedBodyBuffer = c.chunkedBodyBuffer :=
      (congrArg Client.chunkedBodyBuffer hhead :)
    rw [startBody_nil] at hstart
    split_ifs at hstart <;> cases hstart <;> exact ⟨hbody, hbuffer⟩

/-- A chunked `POST` request that stops in an endless chunk size. -/
def StopsInSize (limit : ℕ) (stream : Bytes) : Prop :=
  ∃ i, find blankLine stream = some i ∧ ChunkedHead (stream.take (i + 2)) ∧
    EndlessSize limit (stream.drop (i + 4))

/-- A request only stops so when it is longer than the limit. -/
theorem StopsInSize.lt_length {limit : ℕ} {stream : Bytes} (h : StopsInSize limit stream) :
    limit < stream.length := by
  obtain ⟨i, -, -, u, l, d, sizes, hstream, hscan, -, hlimit⟩ := h
  have hle := hscan.length_le
  have hlength := congrArg List.length hstream
  rw [List.length_drop, List.length_append] at hlength
  omega

/-- What a client holds after reads that did not throw. -/
theorem feed_exceeds_iff (hc : c.IsFresh) (hheader : c.header = []) {reads : List Bytes}
    (hfeed : feed reads c = .ok () c') {room : ℕ} (hroom : 0 < room) :
    c'.body.length ≤ c.clientMaxBodySize ∧
      (c.clientMaxBodySize + room < c'.body.length + c'.chunkedBodyBuffer.length ↔
        StopsInSize (c.clientMaxBodySize + room) reads.flatten) := by
  have hall := feed_header hc.clientToServerState (by rw [hheader]; rfl) reads
  rw [hheader, List.nil_append, hfeed] at hall
  cases hi : find blankLine reads.flatten with
  | none =>
    rw [hi] at hall
    cases hall
    have hbody : (c.withHeader reads.flatten).body = [] := hc.body
    have hbuffer : (c.withHeader reads.flatten).chunkedBodyBuffer = [] := hc.chunkedBodyBuffer
    rw [hbody, hbuffer]
    refine ⟨Nat.zero_le _, iff_of_false (by simp) ?_⟩
    rintro ⟨i, hi', -⟩
    cases hi.symm.trans hi'
  | some i =>
    rw [hi] at hall
    obtain ⟨pieces, hflat, hall⟩ := hall
    obtain ⟨_, c₀, hread, hpieces⟩ := bind_eq_ok hall.symm
    obtain ⟨j, hj⟩ := find_crlf_take hi
    have hfresh : (c.withHeader (reads.flatten.take (i + 2))).IsFresh :=
      ⟨hc.1, hc.2, hc.3, hc.4, hc.5, hc.6, hc.7, hc.8⟩
    have hstops : StopsInSize (c.clientMaxBodySize + room) reads.flatten ↔
        ChunkedHead (reads.flatten.take (i + 2)) ∧
          EndlessSize (c.clientMaxBodySize + room) pieces.flatten := by
      rw [hflat]
      constructor
      · rintro ⟨i', hi', hsize⟩
        obtain rfl := Option.some.inj (hi.symm.trans hi')
        exact hsize
      · exact fun hsize => ⟨i, hi, hsize⟩
    rw [hstops]
    obtain ⟨hbody, hbuffer⟩ := readHead_body hj hread
    have hbody' : c₀.body = [] := hbody.trans hc.body
    have hbuffer' : c₀.chunkedBodyBuffer = [] := hbuffer.trans hc.chunkedBodyBuffer
    -- a chunked body is read exactly after a head that announces one
    have hchunked : ChunkedHead (reads.flatten.take (i + 2)) → c₀.AtChunks := by
      intro hhead
      obtain ⟨c₁, hread₁, -, hc₁⟩ := readHead_chunked hfresh hhead hj
      rw [hread] at hread₁
      cases hread₁
      exact hc₁
    obtain ⟨status, c₁, hread₁, -⟩ | ⟨c₁, hread₁, hmax, hcases⟩ := readHead_cases hfresh hj
    · rw [hread] at hread₁
      cases hread₁
    rw [hread] at hread₁
    cases hread₁
    have hmax' : c₀.clientMaxBodySize = c.clientMaxBodySize := hmax
    rw [← hmax']
    rcases hcases with ⟨hdone, -⟩ | ⟨hpost, hc₀ | hc₀⟩
    · rw [feed_done hdone] at hpieces
      cases hpieces
      rw [hbody', hbuffer']
      refine ⟨Nat.zero_le _, iff_of_false (by simp) ?_⟩
      rintro ⟨hhead, -⟩
      exact absurd ((hchunked hhead).clientToServerState_eq.symm.trans hdone) nofun
    · obtain ⟨hle, hiff⟩ := feed_chunks_exceeds_iff hc₀ hpieces hroom
      refine ⟨hle, hiff.trans (and_iff_right ?_).symm⟩
      exact chunkedHead_of_atChunks hfresh hj hread hc₀ hpost
    · obtain ⟨hle, hnone⟩ := feed_length_buffer hc₀ hbuffer' hpieces
      refine ⟨hle, iff_of_false (by rw [hnone, List.length_nil]; omega) ?_⟩
      rintro ⟨hhead, -⟩
      exact absurd ((hchunked hhead).isChunked.symm.trans hc₀.isChunked) nofun

/-- **The limit of the body bounds what a client holds, except in an endless chunk size**: for reads
that all returned, the body and the buffer are within the limit and one more read after every read
exactly if no read ends in the digits of a chunk size that, together with the data before them, are
more than that. The body of a complete request is always within the limit. -/
theorem buffered_iff (clientFd serverFd : ℤ) (serverPort : Bytes) (clientMaxBodySize : ℕ)
    {reads : List Bytes}
    (hfeed : feed reads (Client.new clientFd serverFd serverPort clientMaxBodySize) = .ok () c') :
    ((∀ k c₁, feed (reads.take k) (Client.new clientFd serverFd serverPort clientMaxBodySize) =
          .ok () c₁ →
        c₁.body.length + c₁.chunkedBodyBuffer.length ≤ clientMaxBodySize + Server.maxReadLen) ∧
      (c'.clientToServerState = .done → c'.body.length ≤ clientMaxBodySize)) ↔
      ∀ k, ¬ StopsInSize (clientMaxBodySize + Server.maxReadLen) (reads.take k).flatten := by
  have hfresh : (Client.new clientFd serverFd serverPort clientMaxBodySize).IsFresh :=
    isFresh_new clientFd serverFd serverPort clientMaxBodySize []
  have hroom : 0 < Server.maxReadLen := by decide
  have hpre : ∀ k, ∃ c₁, feed (reads.take k)
      (Client.new clientFd serverFd serverPort clientMaxBodySize) = .ok () c₁ := by
    intro k
    have hsplit := feed_append (reads.take k) (reads.drop k)
      (Client.new clientFd serverFd serverPort clientMaxBodySize)
    rw [List.take_append_drop, hfeed] at hsplit
    cases hk : feed (reads.take k) (Client.new clientFd serverFd serverPort clientMaxBodySize) with
    | ok _ c₁ => exact ⟨c₁, rfl⟩
    | error e c₁ =>
      rw [hk] at hsplit
      cases hsplit
  constructor
  · rintro ⟨hbound, -⟩ k hstops
    obtain ⟨c₁, hk⟩ := hpre k
    have hlt := (feed_exceeds_iff hfresh rfl hk hroom).2.2 hstops
    exact absurd (hbound k c₁ hk) (not_le.2 hlt)
  · intro hnot
    refine ⟨fun k c₁ hk => not_lt.1 fun hlt => hnot k ?_, fun _ => ?_⟩
    · exact (feed_exceeds_iff hfresh rfl hk hroom).2.1 hlt
    · exact (feed_exceeds_iff hfresh rfl hfeed hroom).1

/-! ## An endless chunk size -/

/-- The digits of a chunk size are read, however many there are. -/
theorem feed_digits (hc : c.AtChunks) {t : Bytes} (ht : ∀ b ∈ t, (hexDigit b).isSome)
    {reads : List Bytes} (hreads : ∀ b ∈ reads.flatten, (hexDigit b).isSome) :
    feed reads (c.push t) = .ok () (c.push (t ++ reads.flatten)) := by
  have hdecode : ∀ l, (∀ b ∈ l, (hexDigit b).isSome) → decode (c.push l) = .ok () (c.push l) := by
    intro l hl
    have hwait := decode_digits hc .start hl
    rwa [List.nil_append, hc.eq_scanned] at hwait
  have hfed : ∀ l, (∀ b ∈ l, (hexDigit b).isSome) → Fed c l (c.push l) := by
    intro l hl
    refine ⟨hdecode l hl, hc.clientToServerState_eq, ?_⟩
    rw [push_body, hc.body_eq]
    exact Nat.zero_le _
  induction reads generalizing t with
  | nil => simp
  | cons read reads ih =>
    have hread : ∀ b ∈ t ++ read, (hexDigit b).isSome := by
      intro b hb
      rcases List.mem_append.1 hb with hb | hb
      · exact ht b hb
      · exact hreads b (by simp [hb])
    have hsize : (c.push (t ++ read)).body.length ≤ (c.push (t ++ read)).clientMaxBodySize := by
      rw [push_body, hc.body_eq]
      exact Nat.zero_le _
    rw [feed_cons, (hfed t ht).appendReadString hc, hdecode _ hread, checkSize,
      if_neg (not_lt.2 hsize)]
    dsimp only
    rw [ih hread fun b hb => hreads b (by simp [hb]), List.flatten_cons, List.append_assoc]

/-- A head that announces a chunked body, and then digits, in any reads. -/
theorem exists_feed_digits (hc : c.IsFresh) (hheader : c.header = []) {head : Bytes} {i : ℕ}
    (hi : find blankLine head = some i) (hlen : head.length = i + 4)
    (hhead : ChunkedHead (head.take (i + 2))) {reads : List Bytes}
    (hreads : ∀ b ∈ reads.flatten, (hexDigit b).isSome) :
    ∃ c', feed (head :: reads) c = .ok () c' := by
  have hall := feed_header hc.clientToServerState (by rw [hheader]; rfl) (head :: reads)
  rw [hheader, List.nil_append, List.flatten_cons, find_append_right hi] at hall
  obtain ⟨pieces, hflat, hall⟩ := hall
  rw [List.drop_append_of_le_length hlen.ge, List.drop_of_length_le hlen.le, List.nil_append] at hflat
  rw [List.take_append_of_le_length (by omega)] at hall
  obtain ⟨j, hj⟩ := find_crlf_take hi
  obtain ⟨c₀, hread, -, hc₀⟩ := readHead_chunked (c := c.withHeader (head.take (i + 2)))
    ⟨hc.1, hc.2, hc.3, hc.4, hc.5, hc.6, hc.7, hc.8⟩ hhead hj
  have hdigits : feed pieces (c₀.push []) = _ :=
    feed_digits (t := []) hc₀ nofun (by rwa [hflat])
  rw [push_nil] at hdigits
  exact ⟨_, by rw [hall, bind_of_ok hread, hdigits]⟩

/-- The head of a request with a chunked body. -/
def openChunkedRequest : Bytes :=
  bytes "POST /a HTTP/1.1\x0d\nHost: a\x0d\nTransfer-Encoding: chunked\x0d\n\x0d\n"

theorem find_openChunkedRequest : find blankLine openChunkedRequest = some 53 := by decide +kernel

theorem chunkedHead_openChunkedRequest : ChunkedHead (openChunkedRequest.take 55) := by
  refine ⟨(fillHeaders [bytes "Host: a", bytes "Transfer-Encoding: chunked"] ∅).2,
    ⟨bytes "POST /a HTTP/1.1", [bytes "Host: a", bytes "Transfer-Encoding: chunked"],
      by decide +kernel, ⟨4, 7, by decide +kernel⟩, ?_, ⟨bytes "a", by decide +kernel⟩⟩,
    by decide +kernel⟩
  exact Prod.ext (by decide +kernel) rfl

/-- A request with a chunk of one byte. -/
def chunkReads : List Bytes := [openChunkedRequest, bytes "1\x0d\nx\x0d\n0\x0d\n\x0d\n"]

theorem buffered_iff_chunk : ∃ c', feed chunkReads (Client.new 4 3 (bytes "80") 1) = .ok () c' ∧
    (∀ k c₁, feed (chunkReads.take k) (Client.new 4 3 (bytes "80") 1) = .ok () c₁ →
      c₁.body.length + c₁.chunkedBodyBuffer.length ≤ 1 + Server.maxReadLen) ∧ c'.body.length ≤ 1 := by
  have hfeed := eq_ok_of_thrown (r := feed chunkReads (Client.new 4 3 (bytes "80") 1)) (by decide +kernel)
  have hnot : ∀ k, ¬ StopsInSize (1 + Server.maxReadLen) (chunkReads.take k).flatten := by
    intro k hstops
    have hle := ((List.take_sublist k chunkReads).flatten).length_le
    have hshort : chunkReads.flatten.length ≤ 1 + Server.maxReadLen := by decide +kernel
    have hlt := hstops.lt_length
    omega
  obtain ⟨hbuffered, hbody⟩ := (buffered_iff 4 3 (bytes "80") 1 hfeed).2 hnot
  exact ⟨_, hfeed, hbuffered, hbody (by decide +kernel)⟩

/-- Two reads of digits after the head of a request. -/
def endlessReads : List Bytes :=
  [openChunkedRequest, List.replicate Server.maxReadLen 49, List.replicate 2 49]

/-- With a limit of one byte, the client holds more than that byte and a read. -/
theorem not_buffered_endless :
    (∀ read ∈ endlessReads, read.length ≤ Server.maxReadLen) ∧
      ∃ c', feed endlessReads (Client.new 4 3 (bytes "80") 1) = .ok () c' ∧
        ¬ c'.body.length + c'.chunkedBodyBuffer.length ≤ 1 + Server.maxReadLen := by
  have hone : (hexDigit 49).isSome := by decide +kernel
  have hdigits : ∀ b ∈ [List.replicate Server.maxReadLen 49, List.replicate 2 49].flatten,
      (hexDigit b).isSome := by
    intro b hb
    obtain ⟨read, hread, hb⟩ := List.mem_flatten.1 hb
    rcases List.mem_pair.1 hread with rfl | rfl
    · rwa [List.eq_of_mem_replicate hb]
    · rwa [List.eq_of_mem_replicate hb]
  have hlen : openChunkedRequest.length = 57 := by decide +kernel
  obtain ⟨c', hfeed⟩ := exists_feed_digits (isFresh_new 4 3 (bytes "80") 1 []) rfl
    find_openChunkedRequest hlen chunkedHead_openChunkedRequest hdigits
  refine ⟨?_, c', hfeed, not_le.2 ?_⟩
  · intro read hread
    rcases List.mem_cons.1 hread with rfl | hread
    · rw [hlen]
      decide
    · rcases List.mem_pair.1 hread with rfl | rfl
      · rw [List.length_replicate]
      · rw [List.length_replicate]
        decide
  · refine (feed_exceeds_iff (isFresh_new 4 3 (bytes "80") 1 []) rfl hfeed (by decide)).2.2 ?_
    refine ⟨53, ?_, ?_, [], [List.replicate Server.maxReadLen 49, List.replicate 2 49].flatten, [], [],
      ?_, .start, hdigits, ?_⟩
    · rw [List.flatten_cons]
      exact find_append_right find_openChunkedRequest _
    · rw [List.flatten_cons, List.take_append_of_le_length (by omega)]
      exact chunkedHead_openChunkedRequest
    · rw [List.flatten_cons, List.drop_append_of_le_length hlen.ge, List.drop_of_length_le hlen.le]
    · change 1 + Server.maxReadLen < _
      simp only [List.flatten_cons, List.flatten_nil, List.append_nil, List.length_append,
        List.length_replicate, List.length_nil]
      omega

end Webserv.Client
