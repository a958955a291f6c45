import Webserv.Client.LengthFeed
import Webserv.Client.PostHead

/-!
# Cutting a stream into reads

A stream may reach `appendReadString` in any pieces. Everything but a malformed chunked body is
parsed alike for all of them. A malformed body is noticed only if it is in the same read as the end
of the part before it: when a read ends with a complete or a too large body, that decides, and what
follows is never looked at (`Ambiguous`). This is the only way in which the outcome depends on the
cuts (`fragmentationIndependent_iff`).
-/

namespace Webserv.Client

open Exec Search Chunked

/-- A way of cutting a stream into non-empty reads. -/
structure IsCut (stream : Bytes) (reads : List Bytes) : Prop where
  flatten_eq : reads.flatten = stream
  ne_nil : ∀ read ∈ reads, read ≠ []

/-- Two runs throw the same status, or both return and have read the same request. -/
def SameOutcome (r r' : EStateM.Result Fault Client Unit) : Prop :=
  (∃ status c c', r = .error (.clientException status) c ∧
    r' = .error (.clientException status) c') ∨
  ∃ c c', r = .ok () c ∧ r' = .ok () c' ∧ SameRequest c c'

/-- Any two ways of cutting the stream have the same outcome. -/
def FragmentationIndependent (c : Client) (stream : Bytes) : Prop :=
  ∀ reads reads', IsCut stream reads → IsCut stream reads' →
    SameOutcome (feed reads c) (feed reads' c)

/-- A malformed chunked body `t` that contains, before the malformed part, more data than the size
limit or the last chunk. -/
def Ambiguous (clientMaxBodySize : ℕ) (t : Bytes) : Prop :=
  ∃ u v d sizes ph, t = u ++ v ∧ HexScan u d sizes ph ∧ Offends hexCoding ph v ∧
    (clientMaxBodySize < d.length ∨ ph.Ended)

theorem offends_ne_nil {ph : Phase} {v : Bytes} (h : Offends hexCoding ph v) : v ≠ [] := by
  rintro rfl
  cases ph with
  | size =>
    obtain ⟨l, x, hlx, -, -, hx, -⟩ := h
    exact hx (List.append_eq_nil_iff.1 hlx.symm).2
  | data left =>
    cases left with
    | zero => exact absurd h.1 (by decide)
    | succ left => exact h
  | last | blank => exact absurd h.1 (by decide)

theorem hexScan_ne_nil {u d : Bytes} {sizes : List ℕ} {ph : Phase} (h : HexScan u d sizes ph)
    (hne : d ≠ [] ∨ ph.Ended) : u ≠ [] := by
  cases h with
  | start => simp at hne
  | chunk | last | byte | endChunk | blank => simp [crlf]

/-! ## Unambiguous bodies -/

variable {c : Client}

/-- In an unambiguous malformed body nothing before the malformed part is complete or too large. -/
theorem small_of_not_ambiguous (hc : c.AtChunks) {t : Bytes} {e : Fault} {c' : Client}
    (hall : decode (c.push t) = .error e c') (h : ¬ Ambiguous c.clientMaxBodySize t)
    (t₁ t₂ : Bytes) (ht : t = t₁ ++ t₂) (c₂ : Client) (h₂ : decode (c.push t₁) = .ok () c₂) :
    c₂.clientToServerState ≠ .done ∧ c₂.body.length ≤ c.clientMaxBodySize := by
  subst ht
  obtain ⟨u, v, d, sizes, ph, rfl, hs, ⟨-, c₃, h₃, hstores⟩ | ⟨-, c₃, h₃, -⟩⟩ := decode_cases hc t₁
  swap
  · rw [h₃] at h₂
    cases h₂
  rw [h₃] at h₂
  cases h₂
  obtain ⟨p, v', d', sizes', ph', hsplit, hs', hended, ⟨-, c₄, h₄, -⟩ | ⟨hoffends, -⟩⟩ :=
    decode_append (x := v) hc hs t₂
  · rw [h₄] at hall
    cases hall
  have hambiguous : c.clientMaxBodySize < d.length ∨ ph.Ended →
      Ambiguous c.clientMaxBodySize (u ++ v ++ t₂) := by
    intro hcase
    refine ⟨u ++ p, v', d ++ d', sizes', ph', ?_, hs', hoffends, ?_⟩
    · rw [List.append_assoc, hsplit, List.append_assoc]
    · refine hcase.imp (fun hlt => ?_) fun hph => (hended hph).1
      rw [List.length_append]
      omega
  constructor
  · intro hdone
    exact h (hambiguous (.inr (phaseProgress_done.1 (hstores.progress.symm.trans hdone))))
  · rw [hstores.body]
    exact not_lt.1 fun hlt => h (hambiguous (.inl hlt))

/-- Reads of an unambiguous chunked body have the same outcome. -/
theorem sameOutcome_chunked (hc : c.AtChunks) {reads reads' : List Bytes}
    (hflat : reads.flatten = reads'.flatten)
    (h : ¬ Ambiguous c.clientMaxBodySize reads.flatten) :
    SameOutcome (feed reads c) (feed reads' c) := by
  have hstart := fed_start hc
  obtain ⟨u, v, d, sizes, ph, ht, -, ⟨-, c', hc', -⟩ | ⟨-, c', hc', -⟩⟩ :=
    decode_cases hc reads.flatten
  · have h₁ := feed_of_decode_ok hc hstart reads hc'
    have h₂ := feed_of_decode_ok hc hstart reads' (hflat ▸ hc')
    by_cases hlt : c.clientMaxBodySize < c'.body.length
    · obtain ⟨c₁, hc₁⟩ := h₁.1 hlt
      obtain ⟨c₂, hc₂⟩ := h₂.1 hlt
      exact .inl ⟨_, c₁, c₂, hc₁, hc₂⟩
    · obtain ⟨c₁, hc₁, hsame₁⟩ := h₁.2 (not_lt.1 hlt)
      obtain ⟨c₂, hc₂, hsame₂⟩ := h₂.2 (not_lt.1 hlt)
      exact .inr ⟨c₁, c₂, hc₁, hc₂, hsame₁.common hsame₂⟩
  · obtain ⟨c₁, hc₁⟩ := feed_of_decode_error hc hstart reads hc'
      (small_of_not_ambiguous hc hc' h)
    rw [hflat] at hc' h
    obtain ⟨c₂, hc₂⟩ := feed_of_decode_error hc hstart reads' hc'
      (small_of_not_ambiguous hc hc' h)
    exact .inl ⟨_, c₁, c₂, hc₁, hc₂⟩

/-- Reads of a body of known length have the same outcome. -/
theorem sameOutcome_length (hc : c.AtLength) {reads reads' : List Bytes}
    (hflat : reads.flatten = reads'.flatten) : SameOutcome (feed reads c) (feed reads' c) := by
  have hnil := lengthRead_nil hc
  by_cases hle : c.contentLength ≤ c.clientMaxBodySize
  · have h₁ := feed_length_of_le hc hle [] reads
    have h₂ := feed_length_of_le hc hle [] reads'
    rw [hnil] at h₁ h₂
    rw [← hflat] at h₂
    exact .inr ⟨_, _, h₁, h₂, .refl _⟩
  · have h₁ := feed_length_of_lt hc (not_le.1 hle) (t := []) (Nat.zero_le _) reads
    have h₂ := feed_length_of_lt hc (not_le.1 hle) (t := []) (Nat.zero_le _) reads'
    rw [hnil] at h₁ h₂
    rw [← hflat] at h₂
    by_cases hsmall : ([] ++ reads.flatten).length ≤ c.clientMaxBodySize
    · exact .inr ⟨_, _, h₁.1 hsmall, h₂.1 hsmall, .refl _⟩
    · obtain ⟨t₁, ht₁⟩ := h₁.2 (not_le.1 hsmall)
      obtain ⟨t₂, ht₂⟩ := h₂.2 (not_le.1 hsmall)
      exact .inl ⟨_, _, _, ht₁, ht₂⟩

/-! ## Ambiguous bodies -/

/-- One read of all of a malformed body throws. -/
theorem feed_malformed (hc : c.AtChunks) {u v d : Bytes} {sizes : List ℕ} {ph : Phase}
    (hs : HexScan u d sizes ph) (ho : Offends hexCoding ph v) :
    ∃ c', feed [u ++ v] c = .error (.clientException .badRequest) c' := by
  obtain ⟨c', hc', -⟩ := (decode_of_scan hc hs).2 ho
  rw [feed_cons, (fed_start hc).appendReadString hc, List.nil_append, hc']
  exact ⟨c', rfl⟩

/-- A read that ends before the malformed part of an ambiguous body decides the outcome. -/
theorem feed_ambiguous (hc : c.AtChunks) {u v d : Bytes} {sizes : List ℕ} {ph : Phase}
    (hs : HexScan u d sizes ph) (hcase : c.clientMaxBodySize < d.length ∨ ph.Ended) :
    (∃ c', feed [u, v] c = .error (.clientException .requestEntityTooLarge) c') ∨
      ∃ c', feed [u, v] c = .ok () c' := by
  have hwaits : Waits hexCoding ph [] := by
    cases ph with
    | size => exact ⟨[], [], rfl, by simp, by simp [Coding.NoDigit], .inl rfl⟩
    | data left => cases left <;> simp [Waits, crlf]
    | last | blank => simp [Waits, crlf]
  obtain ⟨c', hc', hstores⟩ := (decode_of_scan hc hs).1 hwaits
  rw [List.append_nil] at hc'
  rw [feed_cons, (fed_start hc).appendReadString hc, List.nil_append, hc', checkSize,
    hstores.sameHead.clientMaxBodySize, hstores.body]
  by_cases hlt : c.clientMaxBodySize < d.length
  · rw [if_pos hlt]
    exact .inl ⟨c', rfl⟩
  · rw [if_neg hlt]
    have hdone : c'.clientToServerState = .done :=
      hstores.progress.trans (phaseProgress_done.2 (hcase.resolve_left hlt))
    exact .inr ⟨c', feed_done hdone [v]⟩

/-- The first read completes the header block. -/
theorem feed_first {stream : Bytes} (hc : c.clientToServerState = .header) (hheader : c.header = [])
    {i : ℕ} (hi : find blankLine stream = some i) (extra : Bytes) (hextra : extra ≠ [])
    (reads : List Bytes) {c₀ : Client}
    (hread : readHead (c.withHeader (stream.take (i + 2))) = .ok () c₀)
    (hstream : stream.drop (i + 4) = extra) :
    feed (stream :: reads) c = feed (extra :: reads) c₀ := by
  rw [feed_cons, appendReadString_header hc, hheader, List.nil_append, hi]
  dsimp only
  rw [readHeaderBlock_startBody, run_bind, hread, hstream, if_neg hextra]
  exact (feed_append [extra] reads c₀).symm

theorem not_sameOutcome_of_ambiguous (hc : c.IsFresh) (hheader : c.header = []) {stream : Bytes}
    {i : ℕ} (hi : find blankLine stream = some i) (hhead : ChunkedHead (stream.take (i + 2)))
    (h : Ambiguous c.clientMaxBodySize (stream.drop (i + 4))) :
    ¬ FragmentationIndependent c stream := by
  obtain ⟨u, v, d, sizes, ph, ht, hs, ho, hcase⟩ := h
  have hv : v ≠ [] := offends_ne_nil ho
  have hu : u ≠ [] := by
    refine hexScan_ne_nil hs (hcase.imp_left fun hlt => ?_)
    rintro rfl
    simp at hlt
  have hlen : i + 4 ≤ stream.length := length_le_of_find hi
  obtain ⟨j, hj⟩ := find_crlf_take hi
  obtain ⟨c₀, hread, hmax, hc₀⟩ := readHead_chunked (c := c.withHeader (stream.take (i + 2)))
    ⟨hc.1, hc.2, hc.3, hc.4, hc.5, hc.6, hc.7, hc.8⟩ hhead hj
  rw [show c.clientMaxBodySize = c₀.clientMaxBodySize from hmax.symm] at hcase
  -- one read of everything, and a cut before the malformed part
  have hwhole : feed [stream] c = feed [u ++ v] c₀ := by
    refine feed_first hc.clientToServerState hheader hi _ (by simp [hu]) [] hread ht
  have hsplit : stream = stream.take (i + 4) ++ u ++ v := by
    rw [List.append_assoc, ← ht, List.take_append_drop]
  have hpre : (stream.take (i + 4)).length = i + 4 := by
    rw [List.length_take]
    omega
  have hfirst : feed [stream.take (i + 4) ++ u, v] c = feed [u, v] c₀ := by
    have hi' : find blankLine (stream.take (i + 4) ++ u) = some i :=
      find_append_right (find_take hi le_rfl) u
    have htake : (stream.take (i + 4) ++ u).take (i + 2) = stream.take (i + 2) := by
      rw [List.take_append_of_le_length (by omega), List.take_take]
      simp
    refine feed_first hc.clientToServerState hheader hi' u hu [v] (by rwa [htake]) ?_
    rw [List.drop_append_of_le_length hpre.ge, List.drop_of_length_le hpre.le,
      List.nil_append]
  have hstream : stream ≠ [] := by
    rintro rfl
    simp at hlen
  intro hindependent
  have hsame := hindependent [stream] [stream.take (i + 4) ++ u, v]
    ⟨by simp, by simpa using hstream⟩ ⟨by simpa using hsplit.symm, by simp [hu, hv]⟩
  obtain ⟨c₁, hc₁⟩ := feed_malformed hc₀ hs ho
  rw [hwhole, hfirst, hc₁] at hsame
  rcases hsame with ⟨status, c₂, c₃, h₂, h₃⟩ | ⟨c₂, c₃, h₂, -⟩
  · cases h₂
    rcases feed_ambiguous (v := v) hc₀ hs hcase with ⟨c₄, h₄⟩ | ⟨c₄, h₄⟩
    · rw [h₄] at h₃
      cases h₃
    · rw [h₄] at h₃
      cases h₃
  · cases h₂

/-! ## All streams -/

theorem sameOutcome_of_not_ambiguous (hc : c.IsFresh) (hheader : c.header = []) {stream : Bytes}
    (h : ∀ i, find blankLine stream = some i → ChunkedHead (stream.take (i + 2)) →
      ¬ Ambiguous c.clientMaxBodySize (stream.drop (i + 4))) :
    FragmentationIndependent c stream := by
  intro reads reads' hcut hcut'
  have hnone : find blankLine c.header = none := by
    rw [hheader]
    rfl
  have hfeed := feed_header hc.clientToServerState hnone reads
  have hfeed' := feed_header hc.clientToServerState hnone reads'
  rw [hheader, List.nil_append] at hfeed hfeed'
  rw [hcut.flatten_eq] at hfeed
  rw [hcut'.flatten_eq] at hfeed'
  cases hi : find blankLine stream with
  | none =>
    rw [hi] at hfeed hfeed'
    exact .inr ⟨_, _, hfeed, hfeed', .refl _⟩
  | some i =>
    rw [hi] at hfeed hfeed'
    obtain ⟨pieces, hflat, hfeed⟩ := hfeed
    obtain ⟨pieces', hflat', hfeed'⟩ := hfeed'
    rw [hfeed, hfeed', run_bind, run_bind]
    obtain ⟨j, hj⟩ := find_crlf_take hi
    have hfresh : (c.withHeader (stream.take (i + 2))).IsFresh :=
      ⟨hc.1, hc.2, hc.3, hc.4, hc.5, hc.6, hc.7, hc.8⟩
    obtain ⟨status, c₀, hread, -⟩ | ⟨c₀, hread, hmax, hcases⟩ := readHead_cases hfresh hj
    · rw [hread]
      exact .inl ⟨status, c₀, c₀, rfl, rfl⟩
    · rw [hread]
      dsimp only
      rcases hcases with ⟨hdone, -⟩ | ⟨hpost, hc₀ | hc₀⟩
      · rw [feed_done hdone, feed_done hdone]
        exact .inr ⟨c₀, c₀, rfl, rfl, .refl c₀⟩
      · refine sameOutcome_chunked hc₀ (hflat.trans hflat'.symm) ?_
        rw [hmax, hflat]
        exact h i hi (chunkedHead_of_atChunks hfresh hj hread hc₀ hpost)
      · exact sameOutcome_length hc₀ (hflat.trans hflat'.symm)

/-- **The outcome of a stream depends on the cuts exactly if the stream is a chunked `POST` request
with an ambiguous body**: one that is malformed, but only after its last chunk or after more data
than the size limit. -/
theorem fragmentationIndependent_iff (clientFd serverFd : ℤ) (serverPort : Bytes)
    (clientMaxBodySize : ℕ) (stream : Bytes) :
    FragmentationIndependent (Client.new clientFd serverFd serverPort clientMaxBodySize) stream ↔
      ∀ i, find blankLine stream = some i → ChunkedHead (stream.take (i + 2)) →
        ¬ Ambiguous clientMaxBodySize (stream.drop (i + 4)) := by
  have hfresh : (Client.new clientFd serverFd serverPort clientMaxBodySize).IsFresh :=
    isFresh_new clientFd serverFd serverPort clientMaxBodySize []
  constructor
  · intro h i hi hhead hambiguous
    exact not_sameOutcome_of_ambiguous hfresh rfl hi hhead hambiguous h
  · exact sameOutcome_of_not_ambiguous hfresh rfl

/-- A chunked request whose last chunk is followed by something else than a line end is accepted or
rejected, depending on where the stream is cut. -/
theorem not_fragmentationIndependent_lastChunk :
    ¬ FragmentationIndependent (Client.new 4 3 (bytes "8080") 1000)
      (bytes "POST / HTTP/1.1\r\nHost: a\r\nTransfer-Encoding: chunked\r\n\r\n0\r\nXY") := by
  intro h
  have hsame := h
    [bytes "POST / HTTP/1.1\r\nHost: a\r\nTransfer-Encoding: chunked\r\n\r\n0\r\nXY"]
    [bytes "POST / HTTP/1.1\r\nHost: a\r\nTransfer-Encoding: chunked\r\n\r\n0\r\n", bytes "XY"]
    ⟨by decide +kernel, by decide +kernel⟩ ⟨by decide +kernel, by decide +kernel⟩
  have hwhole : thrown (feed
      [bytes "POST / HTTP/1.1\r\nHost: a\r\nTransfer-Encoding: chunked\r\n\r\n0\r\nXY"]
      (Client.new 4 3 (bytes "8080") 1000)) = some (.clientException .badRequest) := by
    decide +kernel
  have hcut : thrown (feed
      [bytes "POST / HTTP/1.1\r\nHost: a\r\nTransfer-Encoding: chunked\r\n\r\n0\r\n",
        bytes "XY"] (Client.new 4 3 (bytes "8080") 1000)) = none := by
    decide +kernel
  rcases hsame with ⟨status, c₁, c₂, -, h₂⟩ | ⟨c₁, c₂, h₁, -⟩
  · rw [h₂] at hcut
    cases hcut
  · rw [h₁] at hwhole
    cases hwhole

end Webserv.Client
