import Webserv.Client.ChunkLoop
import Webserv.Foundations.Chunked

/-!
# The chunk loop and the grammar of chunked messages

The chunk loop follows the grammar of `Foundations.Chunked`: on bytes that can be scanned it reaches
the client that the scan describes (`decode_scan`), from which it waits or throws as the grammar
says (`decode_of_waits`, `decode_of_offends`). What the loop has stored after some bytes is
therefore known from the bytes alone (`decode_cases`).
-/

namespace Webserv.Client

open Exec Chunked

/-- Hexadecimal sizes and lines that end in `"\r\n"`. -/
def hexCoding : Coding UInt8 where
  digit := hexDigit
  base := 16
  eol := crlf
  base_pos := by decide
  eol_ne_nil := by decide
  digit_eol := by decide +kernel

@[simp] theorem hexCoding_eol : hexCoding.eol = crlf := rfl

@[simp] theorem hexCoding_digit (b : UInt8) : hexCoding.digit b = hexDigit b := rfl

/-- Chunked messages with hexadecimal sizes, which the code keeps in a `size_t`. -/
abbrev HexScan := Scan hexCoding sizeModulus

/-! ## Numerals -/

theorem hexLoop_digits (l x : Bytes) (hl : ∀ b ∈ l, (hexDigit b).isSome)
    (hx : hexCoding.NoDigit x) (n : ℕ) :
    hexLoop (l ++ x) (n % sizeModulus) = (x, hexCoding.valueFrom n l % sizeModulus) := by
  induction l generalizing n with
  | nil =>
    cases x with
    | nil => rfl
    | cons b x =>
      have hb : hexDigit b = none := hx b (by simp)
      simp [hexLoop, hb, Coding.valueFrom]
  | cons b l ih =>
    obtain ⟨d, hd⟩ := Option.isSome_iff_exists.1 (hl b (by simp))
    have hstep : (n % sizeModulus * 16 % sizeModulus + d) % sizeModulus =
        (n * 16 + d) % sizeModulus := by
      simp [Nat.add_mod, Nat.mul_mod]
    have hvalue : hexCoding.valueFrom n (b :: l) = hexCoding.valueFrom (n * 16 + d) l := by
      simp [Coding.valueFrom, hexCoding, hd]
    rw [hvalue, ← ih (fun b' hb' => hl b' (by simp [hb'])), ← hstep, List.cons_append, hexLoop, hd]

/-- `_hexToNum` reads a numeral. -/
theorem hexToNum_numeral {l x : Bytes} (hl : hexCoding.IsNumeral l) (hx : hexCoding.NoDigit x) :
    hexToNum (l ++ x) 0 = some (x, hexCoding.value l % sizeModulus) := by
  cases l with
  | nil => exact absurd rfl hl.ne_nil
  | cons b l =>
    obtain ⟨d, hd⟩ := Option.isSome_iff_exists.1 (hl.digits b (by simp))
    have hd' : hexDigit b = some d := hd
    have hvalue : hexCoding.value (b :: l) = hexCoding.valueFrom d l := by
      simp [Coding.value, Coding.valueFrom, hd']
    rw [hvalue, ← hexLoop_digits l x (fun b' hb' => hl.digits b' (by simp [hb'])) hx]
    simp [hexToNum, hd']

theorem hexToNum_noDigit {x : Bytes} (hx : hexCoding.NoDigit x) (num : ℕ) :
    hexToNum x num = none := by
  cases x with
  | nil => rfl
  | cons b x =>
    have hb : hexDigit b = none := hx b (by simp)
    simp [hexToNum, hb]

theorem not_all_digits {l x : Bytes} (hx : hexCoding.NoDigit x) (hne : x ≠ []) :
    ¬ (l ++ x).all fun b => (hexDigit b).isSome := by
  cases x with
  | nil => exact absurd rfl hne
  | cons b x =>
    have hb : hexDigit b = none := hx b (by simp)
    simp [hb]

/-! ## The client a scan describes -/

/-- The state of the chunk loop in a phase of the message. -/
def phaseState : Phase → ChunkedReadState
  | .size => .readingContentLen
  | .data _ => .readingBody
  | .last | .blank => .readingContentLenEndline

/-- The bytes missing from the current chunk. -/
def phaseLeft : Phase → ℕ
  | .data left => left
  | _ => 0

/-- Whether the body is complete. -/
def phaseProgress : Phase → ClientToServerState
  | .size | .data _ => .body
  | .last | .blank => .done

/-- The client that has scanned a part of its body, with nothing left in its buffer. -/
def scanned (c : Client) (d : Bytes) (sizes : List ℕ) (ph : Phase) : Client :=
  { c with
    body := d
    contentLength := sizes.sum % sizeModulus
    chunkedBodyBuffer := []
    chunkedRemainingContentLength := phaseLeft ph
    chunkedReadState := phaseState ph
    clientToServerState := phaseProgress ph }

/-- A client whose chunked body is about to be read. -/
structure AtChunks (c : Client) : Prop where
  eq_scanned : c.scanned [] [] .size = c
  isChunked : c.isChunked = true

/-- What the header phase settles does not change. -/
structure SameHead (c c' : Client) : Prop where
  requestMethod : c'.requestMethod = c.requestMethod
  requestTarget : c'.requestTarget = c.requestTarget
  protocol : c'.protocol = c.protocol
  headers : c'.headers = c.headers
  isChunked : c'.isChunked = c.isChunked
  clientMaxBodySize : c'.clientMaxBodySize = c.clientMaxBodySize

/-- `c'` has stored what a scan that started at `c` has found. -/
structure Stores (c : Client) (d : Bytes) (sizes : List ℕ) (ph : Phase) (c' : Client) : Prop where
  sameHead : SameHead c c'
  body : c'.body = d
  progress : c'.clientToServerState = phaseProgress ph
  contentLength : ph.Ended → c'.contentLength = sizes.sum % sizeModulus

theorem phaseProgress_done {ph : Phase} : phaseProgress ph = .done ↔ ph.Ended := by
  cases ph <;> simp [phaseProgress]

section Scanned

variable {c : Client} {d v : Bytes} {sizes : List ℕ} {ph : Phase}

theorem stores_scanned (c : Client) (d v : Bytes) (sizes : List ℕ) (ph : Phase) :
    Stores c d sizes ph ((c.scanned d sizes ph).push v) :=
  ⟨⟨rfl, rfl, rfl, rfl, rfl, rfl⟩, rfl, rfl, fun _ => rfl⟩

/-! ## One step of the grammar -/

/-- A size that ends in something else than a digit is read. -/
theorem chunkRound_size {l x : Bytes} (hl : hexCoding.IsNumeral l) (hx : hexCoding.NoDigit x)
    (hne : x ≠ []) : chunkRound ((c.scanned d sizes .size).push (l ++ x)) =
      readEndline (((c.scanned d sizes .size).push (l ++ x)).startChunk x
        (hexCoding.value l % sizeModulus)) := by
  have hb : ((c.scanned d sizes .size).push (l ++ x)).chunkedBodyBuffer = l ++ x := rfl
  have hr : ((c.scanned d sizes .size).push (l ++ x)).chunkedRemainingContentLength = 0 := rfl
  rw [chunkRound_contentLen rfl, hb, hr, if_neg (not_all_digits hx hne), hexToNum_numeral hl hx]

theorem decode_size {l : Bytes} (hl : hexCoding.IsNumeral l) (v : Bytes) :
    decode ((c.scanned d sizes .size).push (l ++ crlf ++ v)) =
      decode ((c.scanned d (sizes ++ [hexCoding.value l])
        (if hexCoding.value l % sizeModulus = 0 then .last
          else .data (hexCoding.value l % sizeModulus))).push v) := by
  have hx : hexCoding.NoDigit (crlf ++ v) := hexCoding.noDigit_eol v
  have hround : chunkRound ((c.scanned d sizes .size).push (l ++ (crlf ++ v))) = _ :=
    chunkRound_size hl hx (by simp [crlf])
  rw [List.append_assoc, decode_of_next (hround.trans (readEndline_crlf rfl))]
  unfold finishLine
  by_cases h0 : hexCoding.value l % sizeModulus = 0
  · simp [h0, startChunk, scanned, push, phaseLeft, phaseState, phaseProgress, Nat.add_mod]
  · simp [h0, startChunk, scanned, push, phaseLeft, phaseState, phaseProgress]

theorem decode_byte (b : UInt8) (left : ℕ) :
    decode ((c.scanned d sizes (.data (left + 1))).push (b :: v)) =
      decode ((c.scanned (d ++ [b]) sizes (.data left)).push v) := by
  have hround : chunkRound ((c.scanned d sizes (.data (left + 1))).push (b :: v)) =
      chunkRound ((c.scanned (d ++ [b]) sizes (.data left)).push v) := by
    rw [chunkRound_body rfl, chunkRound_body rfl]
    simp [scanned, push, phaseLeft, phaseState, phaseProgress, finishChunk, continueChunk]
  rw [decode_eq, hround, ← decode_eq]

/-- After the data of a chunk a line end is due. -/
theorem chunkRound_dataEnd : chunkRound ((c.scanned d sizes (.data 0)).push v) =
    readEndline ((c.scanned d sizes (.data 0)).push v).finishChunk := by
  rw [chunkRound_body rfl]
  exact if_pos (Nat.zero_le _)

theorem dataEnd_buffer :
    ((c.scanned d sizes (.data 0)).push v).finishChunk.chunkedBodyBuffer = v := rfl

theorem decode_endChunk :
    decode ((c.scanned d sizes (.data 0)).push (crlf ++ v)) =
      decode ((c.scanned d sizes .size).push v) := by
  have hround : chunkRound ((c.scanned d sizes (.data 0)).push (crlf ++ v)) =
      .ok true ((c.scanned d sizes .size).push v) := by
    rw [chunkRound_dataEnd, readEndline_crlf dataEnd_buffer]
    simp [finishLine, scanned, push, phaseLeft, phaseState, phaseProgress, finishChunk]
  exact decode_of_next hround

/-- After the last chunk only line ends are read. -/
theorem chunkRound_ended (he : ph.Ended) : chunkRound ((c.scanned d sizes ph).push v) =
    readEndline ((c.scanned d sizes ph).push v) := by
  cases ph with
  | size | data => cases he
  | last | blank => exact chunkRound_endline (.inl rfl)

theorem decode_blank (he : ph.Ended) :
    decode ((c.scanned d sizes ph).push (crlf ++ v)) =
      decode ((c.scanned d sizes .blank).push v) := by
  have hround : chunkRound ((c.scanned d sizes ph).push (crlf ++ v)) =
      .ok true ((c.scanned d sizes .blank).push v) := by
    rw [chunkRound_ended he, readEndline_crlf rfl]
    cases ph with
    | size | data => cases he
    | last | blank => simp [finishLine, scanned, push, phaseLeft, phaseState, phaseProgress]
  exact decode_of_next hround

/-- **The chunk loop follows the scan.** -/
theorem decode_scan {u : Bytes} (h : HexScan u d sizes ph) (v : Bytes) :
    decode ((c.scanned [] [] .size).push (u ++ v)) = decode ((c.scanned d sizes ph).push v) := by
  induction h generalizing v with
  | start => rfl
  | chunk hs hl hpos ih =>
    rw [List.append_assoc, ih]
    exact (decode_size hl v).trans (by rw [if_neg hpos.ne'])
  | last hs hl h0 ih =>
    rw [List.append_assoc, ih]
    exact (decode_size hl v).trans (by rw [if_pos h0])
  | byte b hs ih =>
    rw [List.append_assoc, ih]
    exact decode_byte b _
  | endChunk hs ih =>
    rw [List.append_assoc, ih]
    exact decode_endChunk
  | blank hs he ih =>
    rw [List.append_assoc, ih]
    exact decode_blank he

/-! ## Where a scan ends -/

/-- Where the input waits for more, the loop is left, and everything scanned is stored. -/
theorem decode_of_waits (h : Waits hexCoding ph v) :
    ∃ c', decode ((c.scanned d sizes ph).push v) = .ok () c' ∧ Stores c d sizes ph c' := by
  cases ph with
  | size =>
    obtain ⟨l, x, rfl, hl, hx, hwait⟩ := h
    by_cases hx0 : x = []
    · subst hx0
      refine ⟨_, decode_of_break ?_, stores_scanned c d (l ++ []) sizes .size⟩
      rw [chunkRound_contentLen rfl, if_pos]
      simpa [scanned] using hl
    · obtain ⟨hl0, hlen⟩ := hwait.resolve_left hx0
      refine ⟨_, decode_of_break ((chunkRound_size ⟨hl0, hl⟩ hx hx0).trans
        (readEndline_of_lt hlen)), ?_⟩
      exact ⟨⟨rfl, rfl, rfl, rfl, rfl, rfl⟩, rfl, rfl, nofun⟩
  | data left =>
    cases left with
    | zero =>
      refine ⟨((c.scanned d sizes (.data 0)).push v).finishChunk, decode_of_break ?_, ?_⟩
      · exact chunkRound_dataEnd.trans (readEndline_of_lt h)
      · exact ⟨⟨rfl, rfl, rfl, rfl, rfl, rfl⟩, List.append_nil d, rfl, nofun⟩
    | succ left =>
      obtain rfl : v = [] := h
      refine ⟨((c.scanned d sizes (.data (left + 1))).push []).continueChunk,
        decode_of_break ?_, ?_⟩
      · rw [chunkRound_body rfl]
        exact if_neg (Nat.not_succ_le_zero left)
      · exact ⟨⟨rfl, rfl, rfl, rfl, rfl, rfl⟩, List.append_nil d, rfl, nofun⟩
  | last =>
    exact ⟨_, decode_of_break ((chunkRound_ended .last).trans (readEndline_of_lt h)),
      stores_scanned c d v sizes .last⟩
  | blank =>
    exact ⟨_, decode_of_break ((chunkRound_ended .blank).trans (readEndline_of_lt h)),
      stores_scanned c d v sizes .blank⟩

/-- Where the input can not be part of a message, the loop throws, and everything scanned is
stored. -/
theorem decode_of_offends (h : Offends hexCoding ph v) :
    ∃ c', decode ((c.scanned d sizes ph).push v) = .error (.clientException .badRequest) c' ∧
      Stores c d sizes ph c' := by
  cases ph with
  | size =>
    obtain ⟨l, x, rfl, hl, hx, hx0, hbad⟩ := h
    by_cases hl0 : l = []
    · subst hl0
      refine ⟨_, decode_of_error ?_, stores_scanned c d ([] ++ x) sizes .size⟩
      have hb : ((c.scanned d sizes .size).push ([] ++ x)).chunkedBodyBuffer = [] ++ x := rfl
      rw [chunkRound_contentLen rfl, hb, if_neg (not_all_digits hx hx0)]
      simp only [List.nil_append, hexToNum_noDigit hx]
    · obtain ⟨hlen, hp⟩ := hbad.resolve_left hl0
      refine ⟨_, decode_of_error ((chunkRound_size ⟨hl0, hl⟩ hx hx0).trans
        (readEndline_bad hlen hp)), ?_⟩
      exact ⟨⟨rfl, rfl, rfl, rfl, rfl, rfl⟩, rfl, rfl, nofun⟩
  | data left =>
    cases left with
    | zero =>
      refine ⟨((c.scanned d sizes (.data 0)).push v).finishChunk, decode_of_error ?_, ?_⟩
      · exact chunkRound_dataEnd.trans (readEndline_bad h.1 h.2)
      · exact ⟨⟨rfl, rfl, rfl, rfl, rfl, rfl⟩, List.append_nil d, rfl, nofun⟩
    | succ left => exact h.elim
  | last =>
    exact ⟨_, decode_of_error ((chunkRound_ended .last).trans (readEndline_bad h.1 h.2)),
      stores_scanned c d v sizes .last⟩
  | blank =>
    exact ⟨_, decode_of_error ((chunkRound_ended .blank).trans (readEndline_bad h.1 h.2)),
      stores_scanned c d v sizes .blank⟩

end Scanned

/-! ## The loop on any bytes -/

variable {c : Client}

/-- A scan and the input after it determine what the loop does. -/
theorem decode_of_scan (hc : c.AtChunks) {u v d : Bytes} {sizes : List ℕ} {ph : Phase}
    (h : HexScan u d sizes ph) :
    (Waits hexCoding ph v →
      ∃ c', decode (c.push (u ++ v)) = .ok () c' ∧ Stores c d sizes ph c') ∧
    (Offends hexCoding ph v →
      ∃ c', decode (c.push (u ++ v)) = .error (.clientException .badRequest) c' ∧
        Stores c d sizes ph c') := by
  have hdecode := decode_scan (c := c) h v
  rw [hc.eq_scanned] at hdecode
  rw [hdecode]
  exact ⟨decode_of_waits, decode_of_offends⟩

/-- **What the loop does is known from the bytes.** After `t`, of which a part `u` was scanned,
more bytes `b` are scanned further, up to a point where the loop waits or throws. -/
theorem decode_append (hc : c.AtChunks) {u x d : Bytes} {sizes : List ℕ} {ph : Phase}
    (h : HexScan u d sizes ph) (b : Bytes) :
    ∃ p v d' sizes' ph', x ++ b = p ++ v ∧ HexScan (u ++ p) (d ++ d') sizes' ph' ∧
      (ph.Ended → ph'.Ended ∧ d' = [] ∧ sizes' = sizes) ∧
      ((Waits hexCoding ph' v ∧ ∃ c', decode (c.push (u ++ x ++ b)) = .ok () c' ∧
          Stores c (d ++ d') sizes' ph' c') ∨
        (Offends hexCoding ph' v ∧
          ∃ c', decode (c.push (u ++ x ++ b)) = .error (.clientException .badRequest) c' ∧
            Stores c (d ++ d') sizes' ph' c')) := by
  obtain ⟨p, v, d', sizes', ph', hxb, hs, hended, hv⟩ := h.exists_scan (x ++ b)
  refine ⟨p, v, d', sizes', ph', hxb, hs, hended, ?_⟩
  rw [List.append_assoc, hxb, ← List.append_assoc]
  obtain ⟨hwaits, hoffends⟩ := decode_of_scan (v := v) hc hs
  exact hv.imp (fun h => ⟨h, hwaits h⟩) fun h => ⟨h, hoffends h⟩

/-- The loop on all bytes of a body. -/
theorem decode_cases (hc : c.AtChunks) (t : Bytes) :
    ∃ u v d sizes ph, t = u ++ v ∧ HexScan u d sizes ph ∧
      ((Waits hexCoding ph v ∧ ∃ c', decode (c.push t) = .ok () c' ∧ Stores c d sizes ph c') ∨
        (Offends hexCoding ph v ∧
          ∃ c', decode (c.push t) = .error (.clientException .badRequest) c' ∧
            Stores c d sizes ph c')) := by
  obtain ⟨p, v, d, sizes, ph, ht, hs, -, h⟩ := decode_append (x := []) hc Scan.start t
  exact ⟨p, v, d, sizes, ph, ht, by simpa using hs, h⟩

/-- **What was decoded stays.** If the loop waits after `t`, then after more bytes the body has
grown, and a body that was complete is as it was. -/
theorem decode_mono (hc : c.AtChunks) {t b : Bytes} {c₁ : Client}
    (h : decode (c.push t) = .ok () c₁) :
    c₁.body <+: (finalState (decode (c.push (t ++ b)))).body ∧
      (c₁.clientToServerState = .done →
        (finalState (decode (c.push (t ++ b)))).clientToServerState = .done ∧
        (finalState (decode (c.push (t ++ b)))).body = c₁.body ∧
        (finalState (decode (c.push (t ++ b)))).contentLength = c₁.contentLength) := by
  obtain ⟨u, v, d, sizes, ph, rfl, hs, ⟨-, c₂, h₂, hstores⟩ | ⟨-, c₂, h₂, -⟩⟩ := decode_cases hc t
  swap
  · rw [h₂] at h
    cases h
  obtain rfl : c₂ = c₁ := by
    rw [h₂] at h
    cases h
    rfl
  -- The bytes scanned so far are scanned further
  obtain ⟨p, v', d', sizes', ph', -, -, hended, hres⟩ := decode_append (x := v) hc hs b
  have hfinal : ∃ c₃, finalState (decode (c.push (u ++ v ++ b))) = c₃ ∧
      Stores c (d ++ d') sizes' ph' c₃ := by
    obtain ⟨-, c₃, h₃, hstores⟩ | ⟨-, c₃, h₃, hstores⟩ := hres <;>
      exact ⟨c₃, by rw [h₃]; rfl, hstores⟩
  obtain ⟨c₃, h₃, hstores'⟩ := hfinal
  rw [h₃, hstores.body, hstores'.body]
  refine ⟨List.prefix_append _ _, fun hdone => ?_⟩
  have hphase : ph.Ended := phaseProgress_done.1 (hstores.progress.symm.trans hdone)
  obtain ⟨hended', rfl, rfl⟩ := hended hphase
  refine ⟨?_, by simp, ?_⟩
  · rw [hstores'.progress, phaseProgress_done]
    exact hended'
  · rw [hstores'.contentLength hended', hstores.contentLength hphase]

end Webserv.Client
