import Webserv.Client.LengthFeed
import Webserv.Client.RequestHead

/-!
# Framing of request bodies

What a fresh client has read once all of a valid request, or a part of it, has arrived, for any way
of cutting it into reads: a chunked body is decoded (`feed_chunked_message`), a body of known length
is cut out exactly (`feed_content_length`). A chunked body counts as complete only after a complete
message has arrived, if the last empty line arrives together with the last chunk and no chunk size
exceeds a `size_t`, and only then (`chunked_completion`).
-/

namespace Webserv.Client

open Exec Search Chunked

section

variable (clientFd serverFd : ℤ) (serverPort : Bytes) (clientMaxBodySize : ℕ)

/-! ## The header phase of a valid request -/

/-- The reads of a valid request are its header block and the reads of its body. -/
theorem feed_render {head : RequestHead} (hw : head.WellFormed) {t : Bytes} {reads : List Bytes}
    (hreads : reads.flatten = head.render ++ t) :
    ∃ pieces, pieces.flatten = t ∧
      feed reads (Client.new clientFd serverFd serverPort clientMaxBodySize) =
        (readHead >>= fun _ => feed pieces)
          ((Client.new clientFd serverFd serverPort clientMaxBodySize).withHeader
            (unlines head.lines)) := by
  have hfeed := feed_header (c := Client.new clientFd serverFd serverPort clientMaxBodySize) rfl rfl
    reads
  have hlines := head.two_le_length_lines
  have hlen := head.length_render
  have hempty : (Client.new clientFd serverFd serverPort clientMaxBodySize).header = [] := rfl
  rw [hempty, List.nil_append, hreads, hw.find_blankLine_render] at hfeed
  obtain ⟨pieces, hflat, hfeed⟩ := hfeed
  refine ⟨pieces, ?_, ?_⟩
  · have hdrop : (unlines head.lines).length - 2 + 4 = head.render.length := by omega
    rw [hflat, hdrop, List.drop_left]
  · have htake : (head.render ++ t).take ((unlines head.lines).length - 2 + 2) =
        unlines head.lines := by
      rw [Nat.sub_add_cancel hlines, RequestHead.render, List.append_assoc, List.take_left]
    rw [hfeed, htake]

/-- A header block that has not fully arrived. -/
theorem feed_render_partial {head : RequestHead} (hw : head.WellFormed) {t : Bytes}
    {reads : List Bytes} (hreads : reads.flatten <+: head.render ++ t)
    (hlt : reads.flatten.length < head.render.length) :
    feed reads (Client.new clientFd serverFd serverPort clientMaxBodySize) =
      .ok () ((Client.new clientFd serverFd serverPort clientMaxBodySize).withHeader
        reads.flatten) := by
  have hfeed := feed_header (c := Client.new clientFd serverFd serverPort clientMaxBodySize) rfl rfl
    reads
  have hempty : (Client.new clientFd serverFd serverPort clientMaxBodySize).header = [] := rfl
  rw [hempty, List.nil_append] at hfeed
  cases hi : find blankLine reads.flatten with
  | none =>
    rw [hi] at hfeed
    exact hfeed
  | some i =>
    -- a blank line in the reads would be the first one of the whole stream
    obtain ⟨rest, hrest⟩ := hreads
    have hwhole := find_append_right hi rest
    rw [hrest, hw.find_blankLine_render] at hwhole
    have hlines := head.two_le_length_lines
    have hlen := head.length_render
    have hroom : i + 4 ≤ reads.flatten.length := length_le_of_find hi
    have : (unlines head.lines).length - 2 = i := Option.some.inj hwhole
    omega

/-! ## Chunked bodies -/

/-- **Chunked decoding undoes chunked encoding**, for every way of writing the sizes and of cutting
the stream into reads. -/
theorem feed_chunked_message {head : RequestHead} (hw : head.WellFormed)
    (hte : head.field? (bytes "TRANSFER_ENCODING") = some (bytes "chunked"))
    (hcl : head.field? (bytes "CONTENT_LENGTH") = none)
    (hmax : clientMaxBodySize < sizeModulus) {cs : List (Chunk UInt8)}
    (hcs : ∀ c ∈ cs, Chunk.Valid hexCoding c) (hle : (datas cs).length ≤ clientMaxBodySize)
    {zeros : Bytes} (hz : IsZeros hexCoding zeros) {reads : List Bytes}
    (hreads : reads.flatten =
      head.render ++ (renders hexCoding cs ++ (zeros ++ crlf) ++ crlf)) :
    ∃ c, feed reads (Client.new clientFd serverFd serverPort clientMaxBodySize) = .ok () c ∧
      c.clientToServerState = .done ∧ c.body = datas cs ∧
      c.contentLength = (datas cs).length := by
  obtain ⟨pieces, hflat, hfeed⟩ := feed_render clientFd serverFd serverPort clientMaxBodySize hw
    hreads
  obtain ⟨headers, hpost, hlookup⟩ := hw.postHead
  obtain ⟨j, hj⟩ : ∃ j, find crlf (unlines head.lines) = some j := by
    rw [RequestHead.lines, unlines_cons]
    have hline := hw.line_free head.requestLine (by simp [RequestHead.lines])
    have := find_pair_append (by decide) hline
      (unlines (head.fields.map RequestHead.fieldLine))
    exact ⟨_, by simpa [crlf] using this⟩
  obtain ⟨c₀, hread, hmax₀, hc₀⟩ := readHead_chunked
    (isFresh_new clientFd serverFd serverPort clientMaxBodySize (unlines head.lines))
    ⟨headers, hpost, by rw [hlookup, hte], by rw [hlookup, hcl]⟩ hj
  rw [hfeed, run_bind, hread]
  dsimp only
  -- the whole body is a scan that has ended
  have hfit : ∀ c ∈ cs, c.data.length < sizeModulus := by
    intro c hc
    have hsub := (List.sublist_flatten_of_mem (List.mem_map_of_mem (f := Chunk.data) hc)).length_le
    rw [← datas] at hsub
    omega
  have hscan := Scan.of_message hcs hfit hz
  obtain ⟨c', hc', hstores⟩ := (decode_of_scan (v := []) hc₀ hscan).1 (by simp [Waits, crlf])
  rw [List.append_nil, hexCoding_eol, ← hflat] at hc'
  have hsmall : c'.body.length ≤ c₀.clientMaxBodySize := by
    rw [hstores.body, hmax₀]
    exact hle
  obtain ⟨c, hc, hsame⟩ := (feed_of_decode_ok hc₀ (fed_start hc₀) pieces hc').2 hsmall
  have hsum : (cs.map fun c => c.data.length).sum = (datas cs).length := by
    rw [datas, List.length_flatten, List.map_map]
    rfl
  refine ⟨c, hc, ?_, ?_, ?_⟩
  · rw [hsame.clientToServerState, hstores.progress]
    rfl
  · rw [hsame.body, hstores.body]
  · rw [hsame.contentLength, hstores.contentLength .blank, List.sum_append, hsum]
    simp only [List.sum_cons, List.sum_nil, Nat.add_zero]
    exact Nat.mod_eq_of_lt (by omega)

end

/-- A short head with the given field after `Host`. -/
def shortHead (name value : Bytes) : RequestHead where
  target := bytes "/"
  major := ch '1'
  minor := ch '1'
  fields := [(bytes "Host", bytes " a"), (name, value)]

theorem shortHead_wellFormed {name value : Bytes} (hne : name ≠ []) (hcolon : ch ':' ∉ name)
    (hname : (13 : UInt8) ∉ name) (hvalue : (13 : UInt8) ∉ value)
    (hkey : headerKey (bytes "Host") ≠ headerKey name) : (shortHead name value).WellFormed where
  target_head := rfl
  target_line := by
    change (13 : UInt8) ∉ bytes "/"
    decide
  major_digit := by
    change Utils.IsDigit (ch '1')
    decide
  minor_digit := by
    change Utils.IsDigit (ch '1')
    decide
  name_ne_nil := by
    have hhost : bytes "Host" ≠ [] := by decide
    simp [shortHead, hne, hhost]
  name_colon := by
    have hhost : ch ':' ∉ bytes "Host" := by decide
    simp [shortHead, hcolon, hhost]
  name_line := by
    have hhost : (13 : UInt8) ∉ bytes "Host" := by decide
    simp [shortHead, hname, hhost]
  value_line := by
    have hhost : (13 : UInt8) ∉ bytes " a" := by decide
    simp [shortHead, hvalue, hhost]
  names_nodup := by simpa [shortHead] using hkey
  host := ⟨bytes "a", rfl, by decide⟩

theorem shortHead_wellFormed_chunked :
    (shortHead (bytes "Transfer-Encoding") (bytes " chunked")).WellFormed :=
  shortHead_wellFormed (by decide) (by decide) (by decide) (by decide) (by decide)

theorem valid_singleChunk : ∀ c ∈ [(⟨bytes "0B", bytes "hello\r\n 5\r\n"⟩ : Chunk UInt8)],
    Chunk.Valid hexCoding c := by
  intro c hc
  obtain rfl := List.mem_singleton.1 hc
  exact ⟨⟨by decide +kernel, by decide +kernel⟩, by decide +kernel, by decide +kernel⟩

/-- A chunk whose data looks like chunks, cut in the middle of its size, of its data and of the last
line end. -/
theorem feed_chunked_message_cut : ∃ c, feed
    [(shortHead (bytes "Transfer-Encoding") (bytes " chunked")).render ++ bytes "0",
      bytes "B\r\nhello\r", bytes "\n 5\r\n\r\n00\r\n\r", bytes "\n"]
      (Client.new 4 3 (bytes "8080") 11) = .ok () c ∧
    c.clientToServerState = .done ∧ c.body = datas [⟨bytes "0B", bytes "hello\r\n 5\r\n"⟩] ∧
    c.contentLength = (datas [(⟨bytes "0B", bytes "hello\r\n 5\r\n"⟩ : Chunk UInt8)]).length := by
  have hzeros : IsZeros hexCoding (bytes "00") := ⟨by decide +kernel, by decide +kernel⟩
  exact feed_chunked_message 4 3 (bytes "8080") 11 shortHead_wellFormed_chunked
    (by decide +kernel) (by decide +kernel) (by decide +kernel) valid_singleChunk
    (by decide +kernel) hzeros (by decide +kernel)

section

variable (clientFd serverFd : ℤ) (serverPort : Bytes) (clientMaxBodySize : ℕ)

/-! ## Bodies of known length -/

/-- **`Content-Length` framing is exact**: after any number `k` of the reads, of which `arrived`
bytes belong to the body, the request is complete exactly if the announced number of bytes has
arrived, and then its body is exactly these; if the announced number exceeds the size limit, the
exception is thrown as soon as more bytes than the limit have arrived. -/
theorem feed_content_length {head : RequestHead} (hw : head.WellFormed) {n : ℕ} (hpos : 0 < n)
    (hn : n < sizeModulus) (hcl : head.field? (bytes "CONTENT_LENGTH") = some (decimal n))
    (hte : head.field? (bytes "TRANSFER_ENCODING") ≠ some (bytes "chunked")) {t : Bytes}
    {reads : List Bytes} (hreads : reads.flatten = head.render ++ t) (k arrived : ℕ)
    (harrived : arrived = (reads.take k).flatten.length - head.render.length)
    {r : EStateM.Result Fault Client Unit}
    (hr : feed (reads.take k) (Client.new clientFd serverFd serverPort clientMaxBodySize) = r) :
    (n ≤ clientMaxBodySize → ∃ c, r = .ok () c ∧
      (c.clientToServerState = .done ↔ n ≤ arrived) ∧
      (c.clientToServerState = .done → c.body = t.take n)) ∧
    (clientMaxBodySize < n →
      (arrived ≤ clientMaxBodySize ∧ ∃ c, r = .ok () c ∧ c.clientToServerState ≠ .done) ∨
      (clientMaxBodySize < arrived ∧
        ∃ c, r = .error (.clientException .requestEntityTooLarge) c)) ∧
    (finalState r).body.length ≤ (finalState r).contentLength := by
  have hpre : (reads.take k).flatten <+: head.render ++ t := by
    refine ⟨(reads.drop k).flatten, ?_⟩
    rw [← List.flatten_append, List.take_append_drop, hreads]
  by_cases hlt : (reads.take k).flatten.length < head.render.length
  · -- the header block has not fully arrived
    have hfeed := feed_render_partial clientFd serverFd serverPort clientMaxBodySize hw hpre hlt
    obtain rfl : arrived = 0 := by omega
    rw [← hr, hfeed]
    refine ⟨fun _ => ⟨_, rfl, ?_, nofun⟩, fun _ => .inl ⟨Nat.zero_le _, _, rfl, nofun⟩, le_rfl⟩
    exact ⟨nofun, fun h0 => absurd h0 (by omega)⟩
  · obtain ⟨t₁, ht₁⟩ : head.render <+: (reads.take k).flatten :=
      List.prefix_of_prefix_length_le (List.prefix_append _ _) hpre (not_lt.1 hlt)
    have hpre₁ : t₁ <+: t := by
      rw [← ht₁] at hpre
      exact (List.prefix_append_right_inj _).1 hpre
    obtain rfl : arrived = t₁.length := by
      rw [harrived, ← ht₁, List.length_append]
      omega
    obtain ⟨pieces, hflat, hfeed⟩ := feed_render clientFd serverFd serverPort clientMaxBodySize hw
      ht₁.symm
    obtain ⟨headers, hpost, hlookup⟩ := hw.postHead
    obtain ⟨c₀, hread, hmax₀, hc₀, hlength⟩ := readHead_length
      (isFresh_new clientFd serverFd serverPort clientMaxBodySize (unlines head.lines)) hpost
      (by rw [hlookup]; exact hte) (by rw [hlookup, hcl])
      (Utils.parseNumber_decimal hpos (Nat.le_sub_one_of_lt hn)) hpos
    have hmax : c₀.clientMaxBodySize = clientMaxBodySize := hmax₀
    rw [hfeed, run_bind, hread, ← lengthRead_nil hc₀] at hr
    dsimp only at hr
    have hbody : ∀ t', (c₀.lengthRead t').body.length ≤ (c₀.lengthRead t').contentLength := by
      intro t'
      rw [lengthRead_body, lengthRead_contentLength, List.length_take]
      omega
    by_cases hle : n ≤ clientMaxBodySize
    · rw [feed_length_of_le hc₀ (by omega), List.nil_append, hflat] at hr
      subst hr
      refine ⟨fun _ => ⟨_, rfl, ?_, fun hdone => ?_⟩, fun hgt => absurd hle (by omega), hbody t₁⟩
      · rw [lengthRead_done_iff hc₀, hlength]
      · rw [lengthRead_done_iff hc₀, hlength] at hdone
        rw [lengthRead_body, hlength, List.prefix_iff_eq_take.1 hpre₁, List.take_take,
          min_eq_left hdone]
    · have hfeed := feed_length_of_lt hc₀ (t := []) (by omega) (Nat.zero_le _) pieces
      rw [List.nil_append, hflat, hmax] at hfeed
      by_cases hsmall : t₁.length ≤ clientMaxBodySize
      · rw [hfeed.1 hsmall] at hr
        subst hr
        refine ⟨fun h => absurd h hle, fun _ => .inl ⟨hsmall, _, rfl, ?_⟩, hbody t₁⟩
        rw [ne_eq, lengthRead_done_iff hc₀]
        omega
      · obtain ⟨t', ht'⟩ := hfeed.2 (not_le.1 hsmall)
        rw [ht'] at hr
        subst hr
        exact ⟨fun h => absurd h hle, fun _ => .inr ⟨not_le.1 hsmall, _, rfl⟩, hbody t'⟩

end

/-- A body of three bytes, of which the last one and a byte after it come in a second read. -/
theorem feed_content_length_three : ∃ c, feed
    [(shortHead (bytes "Content-Length") (bytes " 3")).render ++ bytes "ab", bytes "cd"]
      (Client.new 4 3 (bytes "8080") 1000) = .ok () c ∧
    (c.clientToServerState = .done ↔ 3 ≤ 4) ∧
    (c.clientToServerState = .done → c.body = (bytes "abcd").take 3) := by
  have hreads : [(shortHead (bytes "Content-Length") (bytes " 3")).render ++ bytes "ab",
      bytes "cd"].flatten =
      (shortHead (bytes "Content-Length") (bytes " 3")).render ++ bytes "abcd" := by
    decide +kernel
  exact (feed_content_length 4 3 (bytes "8080") 1000
    (shortHead_wellFormed (by decide) (by decide) (by decide) (by decide) (by decide))
    (by decide) (by decide) (by decide +kernel) (by decide +kernel) hreads 2 4
    (by decide +kernel) rfl).1 (by decide)

section

variable (clientFd serverFd : ℤ) (serverPort : Bytes) (clientMaxBodySize : ℕ)

/-! ## The end of a chunked body -/

/-- The bytes of a stream after its first blank line. -/
def bodyBytes (stream : Bytes) : Bytes :=
  match find blankLine stream with
  | none => []
  | some i => stream.drop (i + 4)

/-- A chunked `POST` request that is complete had its body announced by its header block. -/
theorem atChunks_of_done {c : Client} (hc : c.IsFresh) {i : ℕ} (hi : find crlf c.header = some i)
    {pieces : List Bytes} {c' : Client}
    (h : finalState ((readHead >>= fun _ => feed pieces) c) = c')
    (hdone : c'.clientToServerState = .done) (hpost : c'.requestMethod = .post)
    (hchunked : c'.isChunked = true) :
    ∃ c₀ : Client, readHead c = .ok () c₀ ∧ c₀.AtChunks ∧ c' = finalState (feed pieces c₀) := by
  rw [run_bind] at h
  obtain ⟨status, c₀, hread, hstate⟩ | ⟨c₀, hread, -, hcases⟩ := readHead_cases hc hi
  · rw [hread] at h
    subst h
    exact absurd (hstate.symm.trans hdone) nofun
  rw [hread] at h
  dsimp only at h
  rcases hcases with ⟨hdone₀, hframed⟩ | ⟨-, hc₀ | hc₀⟩
  · rw [feed_done hdone₀] at h
    subst h
    rw [finalState_ok, hframed hpost] at hchunked
    cases hchunked
  · exact ⟨c₀, hread, hc₀, h.symm⟩
  · rw [← h, feed_length_isChunked hc₀] at hchunked
    cases hchunked

/-- A read that completes a chunked body runs the chunk loop on all body bytes so far. -/
theorem completing_read {c : Client} (hc : c.IsFresh) (hheader : c.header = [])
    {reads : List Bytes} {c₁ : Client} (h : feed reads c = .ok () c₁)
    (hne : c₁.clientToServerState ≠ .done) {read : Bytes} {c' : Client}
    (h' : finalState (appendReadString read c₁) = c') (hdone : c'.clientToServerState = .done)
    (hpost : c'.requestMethod = .post) (hchunked : c'.isChunked = true) :
    ∃ c₀ : Client, c₀.AtChunks ∧
      c' = finalState (decode (c₀.push (bodyBytes (reads.flatten ++ read)))) := by
  have hfeed := feed_header hc.clientToServerState (by rw [hheader]; rfl) reads
  have hfresh : ∀ header, (c.withHeader header).IsFresh :=
    fun _ => ⟨hc.1, hc.2, hc.3, hc.4, hc.5, hc.6, hc.7, hc.8⟩
  rw [hheader, List.nil_append] at hfeed
  cases hi : find blankLine reads.flatten with
  | none =>
    -- the read completes the header block, too
    rw [hi, h] at hfeed
    obtain rfl : c₁ = c.withHeader reads.flatten := by
      cases hfeed
      rfl
    have hempty : (c.withHeader reads.flatten).header = reads.flatten := rfl
    rw [appendReadString_header (hfresh _).clientToServerState, hempty] at h'
    cases hj : find blankLine (reads.flatten ++ read) with
    | none =>
      rw [hj] at h'
      subst h'
      exact absurd (hc.clientToServerState.symm.trans hdone) nofun
    | some j =>
      rw [hj] at h'
      dsimp only at h'
      rw [readHeaderBlock_startBody] at h'
      obtain ⟨k, hk⟩ := find_crlf_take hj
      obtain ⟨c₀, -, hc₀, hc'⟩ := atChunks_of_done (hfresh _) hk h' hdone hpost hchunked
      refine ⟨c₀, hc₀, ?_⟩
      rw [bodyBytes, hj]
      dsimp only
      split_ifs at hc' with hextra
      · rw [hc', feed_nil, finalState_ok, hc₀.clientToServerState_eq] at hdone
        cases hdone
      · have hread := (fed_start hc₀).appendReadString hc₀ ((reads.flatten ++ read).drop (j + 4))
        rw [List.nil_append] at hread
        rw [hc', feed_cons, hread, ← finalState_checkSize (decode _)]
        cases checkSize (decode (c₀.push ((reads.flatten ++ read).drop (j + 4)))) <;> rfl
  | some i =>
    -- the body was being read already
    rw [hi] at hfeed
    obtain ⟨pieces, hflat, hfeed⟩ := hfeed
    have hlen : i + 4 ≤ reads.flatten.length := length_le_of_find hi
    obtain ⟨k, hk⟩ := find_crlf_take hi
    rw [h] at hfeed
    obtain ⟨_, c₂, hread₂, hfeed₂⟩ := bind_eq_ok hfeed.symm
    have hall : finalState ((readHead >>= fun _ => feed (pieces ++ [read]))
        (c.withHeader (reads.flatten.take (i + 2)))) = c' := by
      rw [run_bind, hread₂]
      dsimp only
      rw [feed_append, hfeed₂, ← h']
      dsimp only
      rw [feed_cons]
      cases appendReadString read c₁ <;> rfl
    obtain ⟨c₀, hread₀, hc₀, -⟩ := atChunks_of_done (hfresh _) hk hall hdone hpost hchunked
    obtain rfl : c₀ = c₂ := by
      rw [hread₀] at hread₂
      cases hread₂
      rfl
    have hfed := (fed_start hc₀).feed hc₀ hfeed₂ hne
    refine ⟨c₀, hc₀, ?_⟩
    rw [bodyBytes, find_append_right hi]
    dsimp only
    rw [← h', hfed.appendReadString hc₀, finalState_checkSize, List.nil_append, hflat,
      List.drop_append_of_le_length hlen]

/-- The receiver has not been misled by a size that does not fit, and the empty line after the last
chunk has arrived with it. -/
def TerminatorArrived (t : Bytes) : Prop :=
  ∀ u v d sizes, t = u ++ v → HexScan u d sizes .last →
    (∀ n ∈ sizes, n < sizeModulus) ∧ crlf <+: v

/-- What has arrived starts with a complete message with the data `d`. -/
def HasMessage (t d : Bytes) : Prop := ∃ m, m <+: t ∧ IsMessage hexCoding m d

/-- A complete message fixes what a scan to the last chunk finds. -/
theorem terminatorArrived_of_hasMessage {t d : Bytes} (ht : t.length < sizeModulus)
    (h : HasMessage t d) : TerminatorArrived t := by
  obtain ⟨m, ⟨rest, rfl⟩, cs, zeros, hcs, hzeros, rfl, rfl⟩ := h
  have hfit : ∀ c ∈ cs, c.data.length < sizeModulus := by
    intro c hc
    have hmem : c.render hexCoding ∈ cs.map (Chunk.render hexCoding) := List.mem_map_of_mem hc
    have hsub := (List.sublist_flatten_of_mem hmem).length_le
    simp only [List.length_append, renders, Chunk.render] at ht hsub
    omega
  have hlast := (Scan.of_renders hcs hfit).last hzeros.isNumeral (by simp [hzeros.value_eq])
  intro u v d sizes htu hs
  rw [List.append_assoc] at htu
  obtain ⟨rfl, -, rfl⟩ := hlast.last_unique hs htu
  refine ⟨fun n hn => ?_, List.prefix_append _ _⟩
  rcases List.mem_append.1 hn with hn | hn
  · obtain ⟨c, hc, rfl⟩ := List.mem_map.1 hn
    exact hfit c hc
  · obtain rfl := List.mem_singleton.1 hn
    rw [hzeros.value_eq]
    decide

/-- **Soundness of chunked completion.** When a read completes a chunked body, the body bytes
received so far start with a complete chunked message, and the body is its data, if the empty line
after the last chunk has arrived and all sizes fit; and only then, unless more bytes have arrived
than a `size_t` can count. -/
theorem chunked_completion {reads : List Bytes} {read : Bytes} {c c' : Client}
    (h : feed reads (Client.new clientFd serverFd serverPort clientMaxBodySize) = .ok () c)
    (hne : c.clientToServerState ≠ .done) (h' : finalState (appendReadString read c) = c')
    (hdone : c'.clientToServerState = .done) (hpost : c'.requestMethod = .post)
    (hchunked : c'.isChunked = true) :
    (TerminatorArrived (bodyBytes (reads.flatten ++ read)) →
      HasMessage (bodyBytes (reads.flatten ++ read)) c'.body) ∧
    ((bodyBytes (reads.flatten ++ read)).length < sizeModulus →
      HasMessage (bodyBytes (reads.flatten ++ read)) c'.body →
        TerminatorArrived (bodyBytes (reads.flatten ++ read))) := by
  obtain ⟨c₀, hc₀, hc'⟩ := completing_read
    (isFresh_new clientFd serverFd serverPort clientMaxBodySize []) rfl h hne h' hdone hpost
    hchunked
  generalize bodyBytes (reads.flatten ++ read) = t at hc' ⊢
  refine ⟨fun harrived => ?_, fun ht => terminatorArrived_of_hasMessage ht⟩
  obtain ⟨u, v, d, sizes, ph, rfl, hs, hres⟩ := decode_cases hc₀ t
  have hstores : Stores c₀ d sizes ph c' := by
    obtain ⟨-, c₂, h₂, hstores⟩ | ⟨-, c₂, h₂, hstores⟩ := hres
    all_goals
      rw [h₂] at hc'
      subst hc'
      exact hstores
  have hended : ph.Ended := phaseProgress_done.1 (hstores.progress.symm.trans hdone)
  obtain ⟨u', x, rfl, hs', -⟩ := hs.last_of_ended hended
  obtain ⟨hsizes, hcrlf⟩ := harrived u' (x ++ v) d sizes (List.append_assoc _ _ _) hs'
  obtain ⟨cs, zeros, hcs, hzeros, rfl, rfl⟩ := hs'.shape fun n hn => Nat.mod_eq_of_lt (hsizes n hn)
  refine ⟨renders hexCoding cs ++ (zeros ++ crlf) ++ crlf, ?_, ?_⟩
  · rw [List.append_assoc (renders hexCoding cs ++ (zeros ++ hexCoding.eol))]
    exact (List.prefix_append_right_inj _).2 hcrlf
  · rw [hstores.body]
    exact ⟨cs, zeros, hcs, hzeros, rfl, rfl⟩

end

/-- A chunked request with the given body. -/
def chunkedRequest (t : String) : Bytes :=
  (shortHead (bytes "Transfer-Encoding") (bytes " chunked")).render ++ bytes t

/-- A whole message in one read. -/
theorem chunked_completion_message :
    HasMessage (bodyBytes ([].flatten ++ chunkedRequest "2\r\nhi\r\n0\r\n\r\n"))
      (finalState (appendReadString (chunkedRequest "2\r\nhi\r\n0\r\n\r\n")
        (Client.new 4 3 (bytes "8080") 1000))).body := by
  have hmessage : HasMessage (bytes "2\r\nhi\r\n0\r\n\r\n") (bytes "hi") := by
    refine ⟨_, List.prefix_rfl, [⟨bytes "2", bytes "hi"⟩], bytes "0", ?_,
      ⟨by decide +kernel, by decide +kernel⟩, by decide +kernel, by decide +kernel⟩
    intro c hc
    obtain rfl := List.mem_singleton.1 hc
    exact ⟨⟨by decide +kernel, by decide +kernel⟩, by decide +kernel, by decide +kernel⟩
  have hbytes : bodyBytes ([].flatten ++ chunkedRequest "2\r\nhi\r\n0\r\n\r\n") =
      bytes "2\r\nhi\r\n0\r\n\r\n" := by
    decide +kernel
  have hfeed : feed [] (Client.new 4 3 (bytes "8080") 1000) =
      .ok () (Client.new 4 3 (bytes "8080") 1000) := feed_nil _
  have hread := chunked_completion 4 3 (bytes "8080") 1000 hfeed (by decide)
    (Eq.refl (finalState (appendReadString (chunkedRequest "2\r\nhi\r\n0\r\n\r\n")
      (Client.new 4 3 (bytes "8080") 1000))))
    (by decide +kernel) (by decide +kernel) (by decide +kernel)
  refine hread.1 ?_
  rw [hbytes]
  exact terminatorArrived_of_hasMessage (by decide +kernel) hmessage

/-- The last chunk without the empty line after it completes the request. -/
theorem not_hasMessage_lastChunk :
    (finalState (appendReadString (chunkedRequest "0\r\n")
      (Client.new 4 3 (bytes "8080") 1000))).clientToServerState = .done ∧
    (finalState (appendReadString (chunkedRequest "0\r\n")
      (Client.new 4 3 (bytes "8080") 1000))).requestMethod = .post ∧
    (finalState (appendReadString (chunkedRequest "0\r\n")
      (Client.new 4 3 (bytes "8080") 1000))).isChunked = true ∧
    ¬ HasMessage (bodyBytes (chunkedRequest "0\r\n"))
      (finalState (appendReadString (chunkedRequest "0\r\n")
        (Client.new 4 3 (bytes "8080") 1000))).body := by
  refine ⟨by decide +kernel, by decide +kernel, by decide +kernel, ?_⟩
  rintro ⟨m, hm, cs, zeros, -, hzeros, rfl, -⟩
  have hlen := hm.length_le
  have hthree : (bodyBytes (chunkedRequest "0\r\n")).length = 3 := by decide +kernel
  have hpos := List.length_pos_of_ne_nil hzeros.ne_nil
  simp only [List.length_append, hexCoding_eol, crlf, List.length_cons, List.length_nil] at hlen
  omega

end Webserv.Client
