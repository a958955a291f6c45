import Mathlib.Logic.Relation
import Webserv.Client.Body

/-!
# The chunk loop of `_parseBodyAppend`

`decode` runs the chunk loop on the buffer of a client. It needs no bound on its rounds
(`decode_eq`): a round that goes on erases a line end (`chunkRound_removes`), so the loop terminates and
only moves bytes from the front of the buffer to the body (`chunkLoop_forward`). The loop does not
care how its input is cut: running it, appending more bytes and running it again gives what one run
on all the bytes gives (`decode_push`).
-/

namespace Webserv.Client

open Exec

/-! ## Rounds -/

/-- The bytes `find_first_not_of` skips are the digits `_hexToNum` reads. -/
theorem contains_hexDigits (b : UInt8) :
    (bytes "1234567890abcdefABCDEF").contains b = (hexDigit b).isSome := by
  have key : ∀ n : Fin 256, (bytes "1234567890abcdefABCDEF").contains (UInt8.ofNat n) =
      (hexDigit (UInt8.ofNat n)).isSome := by decide +kernel
  simpa using key ⟨b.toNat, b.toNat_lt⟩

theorem chunkRound_contentLen {c : Client} (h : c.chunkedReadState = .readingContentLen) :
    chunkRound c =
      if c.chunkedBodyBuffer.all fun b => (hexDigit b).isSome then .ok false c
      else match hexToNum c.chunkedBodyBuffer c.chunkedRemainingContentLength with
        | none => .error (.clientException .badRequest) c
        | some (rest, num) => readEndline (c.startChunk rest num) := by
  have hs : ∀ rest num, (c.startChunk rest num).chunkedReadState = .readingContentLenEndline :=
    fun _ _ => rfl
  simp only [← contains_hexDigits]
  by_cases hall : c.chunkedBodyBuffer.all fun b => (bytes "1234567890abcdefABCDEF").contains b
  · simp only [chunkRound, run_bind, run_get, h, if_true, readContentLen, run_ite, hall, run_pure]
    rfl
  · cases hnum : hexToNum c.chunkedBodyBuffer c.chunkedRemainingContentLength with
    | none =>
      simp only [chunkRound, run_bind, run_get, h, if_true, readContentLen, run_ite, hall, hnum]
      rfl
    | some p =>
      simp only [chunkRound, run_bind, run_get, h, if_true, readContentLen, run_ite, hall, hnum]
      simp [hs]

theorem chunkRound_body {c : Client} (h : c.chunkedReadState = .readingBody) :
    chunkRound c =
      if c.chunkedRemainingContentLength ≤ c.chunkedBodyBuffer.length then readEndline c.finishChunk
      else .ok false c.continueChunk := by
  have hs : c.finishChunk.chunkedReadState = .readingBodyEndline := rfl
  by_cases hc : c.chunkedRemainingContentLength ≤ c.chunkedBodyBuffer.length <;>
    simp [chunkRound, readChunkBody, h, hc, hs]

theorem chunkRound_endline {c : Client} (h : c.chunkedReadState = .readingContentLenEndline ∨
    c.chunkedReadState = .readingBodyEndline) : chunkRound c = readEndline c := by
  rcases h with h | h <;> simp [chunkRound, h]

theorem readEndline_of_lt {c : Client} (h : c.chunkedBodyBuffer.length < 2) :
    readEndline c = .ok false c := by
  rcases hb : c.chunkedBodyBuffer with _ | ⟨b₀, _ | ⟨b₁, rest⟩⟩
  · simp [readEndline, hb]
  · simp [readEndline, hb]
  · simp only [hb, List.length_cons] at h
    omega

theorem readEndline_crlf {c : Client} {rest : Bytes} (h : c.chunkedBodyBuffer = crlf ++ rest) :
    readEndline c = .ok true (c.finishLine rest) := by
  simp [readEndline, h, crlf]

theorem readEndline_bad {c : Client} (h : 2 ≤ c.chunkedBodyBuffer.length)
    (h' : ¬ crlf <+: c.chunkedBodyBuffer) :
    readEndline c = .error (.clientException .badRequest) c := by
  rcases hb : c.chunkedBodyBuffer with _ | ⟨b₀, _ | ⟨b₁, rest⟩⟩
  · simp [hb] at h
  · simp [hb] at h
  · have hne : ¬ (b₀ = 13 ∧ b₁ = 10) := by
      rintro ⟨rfl, rfl⟩
      exact h' (by simp [hb, crlf])
    simp [readEndline, hb, hne, raise]

/-- The three things `readEndline` can find. -/
theorem readEndline_cases (c : Client) :
    (c.chunkedBodyBuffer.length < 2 ∧ readEndline c = .ok false c) ∨
      (∃ rest, c.chunkedBodyBuffer = crlf ++ rest ∧
        readEndline c = .ok true (c.finishLine rest)) ∨
      (2 ≤ c.chunkedBodyBuffer.length ∧ ¬ crlf <+: c.chunkedBodyBuffer ∧
        readEndline c = .error (.clientException .badRequest) c) := by
  by_cases hlen : c.chunkedBodyBuffer.length < 2
  · exact .inl ⟨hlen, readEndline_of_lt hlen⟩
  · by_cases hp : crlf <+: c.chunkedBodyBuffer
    · obtain ⟨rest, hrest⟩ := hp
      exact .inr (.inl ⟨rest, hrest.symm, readEndline_crlf hrest.symm⟩)
    · exact .inr (.inr ⟨by omega, hp, readEndline_bad (by omega) hp⟩)

/-! ## The fields a round touches -/

@[simp] theorem finishLine_buffer (c : Client) (rest : Bytes) :
    (c.finishLine rest).chunkedBodyBuffer = rest := by
  unfold finishLine
  split_ifs <;> rfl

@[simp] theorem finishLine_body (c : Client) (rest : Bytes) :
    (c.finishLine rest).body = c.body := by
  unfold finishLine
  split_ifs <;> rfl

@[simp] theorem startChunk_buffer (c : Client) (rest : Bytes) (num : ℕ) :
    (c.startChunk rest num).chunkedBodyBuffer = rest := rfl

@[simp] theorem startChunk_body (c : Client) (rest : Bytes) (num : ℕ) :
    (c.startChunk rest num).body = c.body := rfl

@[simp] theorem startChunk_state (c : Client) (rest : Bytes) (num : ℕ) :
    (c.startChunk rest num).chunkedReadState = .readingContentLenEndline := rfl

@[simp] theorem finishChunk_buffer (c : Client) : c.finishChunk.chunkedBodyBuffer =
    c.chunkedBodyBuffer.drop c.chunkedRemainingContentLength := rfl

@[simp] theorem finishChunk_state (c : Client) :
    c.finishChunk.chunkedReadState = .readingBodyEndline := rfl

@[simp] theorem continueChunk_buffer (c : Client) : c.continueChunk.chunkedBodyBuffer = [] := rfl

@[simp] theorem continueChunk_state (c : Client) :
    c.continueChunk.chunkedReadState = c.chunkedReadState := rfl

/-- `_hexToNum` only removes bytes from the front of the line. -/
theorem hexLoop_suffix (line : Bytes) (num : ℕ) : (hexLoop line num).1 <:+ line := by
  induction line generalizing num with
  | nil => exact List.suffix_rfl
  | cons b line ih =>
    rw [hexLoop]
    split
    · exact (ih _).trans (List.suffix_cons b line)
    · exact List.suffix_rfl

theorem hexToNum_suffix {line rest : Bytes} {num num' : ℕ}
    (h : hexToNum line num = some (rest, num')) : rest <:+ line := by
  cases line with
  | nil => simp [hexToNum] at h
  | cons b line =>
    simp only [hexToNum] at h
    split at h
    · rename_i d _
      have hs := hexLoop_suffix line ((num + d) % sizeModulus)
      rw [Option.some.inj h] at hs
      exact hs.trans (List.suffix_cons b line)
    · cases h

theorem readEndline_removes {c c' : Client} {goes : Bool} (h : readEndline c = .ok goes c') :
    c'.body = c.body ∧ c.chunkedBodyBuffer = (if goes then crlf else []) ++ c'.chunkedBodyBuffer := by
  rcases readEndline_cases c with ⟨-, h'⟩ | ⟨rest, hb, h'⟩ | ⟨-, -, h'⟩
  · rw [h'] at h
    cases h
    exact ⟨rfl, rfl⟩
  · rw [h'] at h
    cases h
    rw [finishLine_body, finishLine_buffer, hb]
    exact ⟨rfl, rfl⟩
  · rw [h'] at h
    cases h

/-- **A round moves forward**: it removes bytes from the front of the buffer and appends some of them
to the body, in order. A round that goes on removes a line end. -/
theorem chunkRound_removes {c c' : Client} {goes : Bool} (h : chunkRound c = .ok goes c') :
    ∃ removed added, c.chunkedBodyBuffer = removed ++ c'.chunkedBodyBuffer ∧
      c'.body = c.body ++ added ∧ added.Sublist removed ∧ (goes = true → 2 ≤ removed.length) := by
  -- what precedes the line end, and what the body gets from it
  have key : ∀ (e : Client) (front added : Bytes), readEndline e = .ok goes c' →
      c.chunkedBodyBuffer = front ++ e.chunkedBodyBuffer → e.body = c.body ++ added → added.Sublist front →
      ∃ removed added, c.chunkedBodyBuffer = removed ++ c'.chunkedBodyBuffer ∧
        c'.body = c.body ++ added ∧ added.Sublist removed ∧ (goes = true → 2 ≤ removed.length) := by
    intro e front added he hfront hadded hsub
    obtain ⟨hbody, hbuffer⟩ := readEndline_removes he
    refine ⟨front ++ if goes then crlf else [], added, ?_, hbody.trans hadded,
      hsub.trans (List.sublist_append_left _ _), ?_⟩
    · rw [hfront, hbuffer, List.append_assoc]
    · rintro rfl
      simp [crlf]
  cases hs : c.chunkedReadState with
  | readingContentLen =>
    rw [chunkRound_contentLen hs] at h
    split at h
    · cases h
      exact ⟨[], [], rfl, (List.append_nil _).symm, .refl _, nofun⟩
    · split at h
      · cases h
      · rename_i rest num hnum
        obtain ⟨digits, hdigits⟩ := hexToNum_suffix hnum
        exact key _ digits [] h hdigits.symm (List.append_nil _).symm (List.nil_sublist _)
  | readingBody =>
    rw [chunkRound_body hs] at h
    split at h
    · exact key _ _ _ h (List.take_append_drop _ _).symm rfl (.refl _)
    · cases h
      exact ⟨c.chunkedBodyBuffer, c.chunkedBodyBuffer, (List.append_nil _).symm, rfl, .refl _, nofun⟩
  | readingContentLenEndline =>
    rw [chunkRound_endline (.inl hs)] at h
    exact key _ [] [] h rfl (List.append_nil _).symm (.refl _)
  | readingBodyEndline =>
    rw [chunkRound_endline (.inr hs)] at h
    exact key _ [] [] h rfl (List.append_nil _).symm (.refl _)

/-- A round that goes on removes at least two bytes from the buffer. -/
theorem length_of_chunkRound {c c' : Client} (h : chunkRound c = .ok true c') :
    c'.chunkedBodyBuffer.length + 2 ≤ c.chunkedBodyBuffer.length := by
  obtain ⟨removed, added, hbuffer, -, -, htwo⟩ := chunkRound_removes h
  rw [hbuffer, List.length_append]
  have := htwo rfl
  omega

/-! ## The loop without its bound -/

/-- Append bytes to the buffer of undecoded bytes. -/
def push (c : Client) (b : Bytes) : Client :=
  { c with chunkedBodyBuffer := c.chunkedBodyBuffer ++ b }

/-- The chunk loop on the buffer of a client. -/
def decode (c : Client) : EStateM.Result Fault Client Unit :=
  chunkLoop (c.chunkedBodyBuffer.length + 1) c

theorem chunkLoop_succ (fuel : ℕ) (c : Client) : chunkLoop (fuel + 1) c =
    match chunkRound c with
    | .ok true c' => chunkLoop fuel c'
    | .ok false c' => .ok () c'
    | .error e c' => .error e c' := by
  simp only [chunkLoop, run_bind]
  rcases chunkRound c with ⟨_ | _, c'⟩ | ⟨e, c'⟩ <;> simp

/-- Enough rounds are enough. -/
theorem chunkLoop_eq_decode : ∀ (fuel : ℕ) (c : Client), c.chunkedBodyBuffer.length < fuel →
    chunkLoop fuel c = decode c := by
  intro fuel
  induction fuel using Nat.strongRecOn with
  | ind fuel ih =>
  intro c hc
  obtain ⟨n, rfl⟩ := Nat.exists_eq_succ_of_ne_zero (by omega : fuel ≠ 0)
  rw [decode, chunkLoop_succ, chunkLoop_succ]
  cases hr : chunkRound c with
  | error e c' => rfl
  | ok b c' =>
    cases b with
    | false => rfl
    | true =>
      have hlen := length_of_chunkRound hr
      change chunkLoop n c' = chunkLoop c.chunkedBodyBuffer.length c'
      rw [ih n (by omega) c' (by omega)]
      by_cases hlast : c.chunkedBodyBuffer.length < n + 1
      · exact (ih _ hlast c' (by omega)).symm
      · omega

/-- **The loop terminates**: it is the iteration of its rounds, with no bound on their number. -/
theorem decode_eq (c : Client) : decode c =
    match chunkRound c with
    | .ok true c' => decode c'
    | .ok false c' => .ok () c'
    | .error e c' => .error e c' := by
  rw [decode, chunkLoop_succ]
  cases hr : chunkRound c with
  | error e c' => rfl
  | ok b c' =>
    cases b with
    | false => rfl
    | true =>
      have hlen := length_of_chunkRound hr
      exact chunkLoop_eq_decode _ c' (by omega)

theorem decode_of_next {c c' : Client} (h : chunkRound c = .ok true c') :
    decode c = decode c' := by
  rw [decode_eq, h]

theorem decode_of_break {c c' : Client} (h : chunkRound c = .ok false c') :
    decode c = .ok () c' := by
  rw [decode_eq, h]

theorem decode_of_error {c c' : Client} {e : Fault} (h : chunkRound c = .error e c') :
    decode c = .error e c' := by
  rw [decode_eq, h]

/-- Rounds that go on, one after another. -/
abbrev Rounds : Client → Client → Prop := Relation.ReflTransGen fun c c' => chunkRound c = .ok true c'

/-- The rounds end with one that leaves the loop, by a `break` or by an exception. -/
theorem exists_lastRound (c : Client) : ∃ last, Rounds c last ∧
    ((∃ c', chunkRound last = .ok false c' ∧ decode c = .ok () c') ∨
      ∃ e c', chunkRound last = .error e c' ∧ decode c = .error e c') := by
  induction hn : c.chunkedBodyBuffer.length using Nat.strongRecOn generalizing c with
  | ind n ih =>
  cases hr : chunkRound c with
  | error e c' => exact ⟨c, .refl, .inr ⟨e, c', hr, decode_of_error hr⟩⟩
  | ok goes c' =>
    cases goes with
    | false => exact ⟨c, .refl, .inl ⟨c', hr, decode_of_break hr⟩⟩
    | true =>
      have hlen := length_of_chunkRound hr
      obtain ⟨last, hrounds, hend⟩ := ih c'.chunkedBodyBuffer.length (by omega) c' rfl
      refine ⟨last, .head hr hrounds, ?_⟩
      rwa [decode_of_next hr]

/-- What rounds remove, all together. -/
theorem Rounds.removes {c last : Client} (h : Rounds c last) :
    ∃ removed added, c.chunkedBodyBuffer = removed ++ last.chunkedBodyBuffer ∧
      last.body = c.body ++ added ∧ added.Sublist removed := by
  induction h with
  | refl => exact ⟨[], [], rfl, (List.append_nil _).symm, .refl _⟩
  | tail _ hround ih =>
    obtain ⟨removed, added, hbuffer, hbody, hsub⟩ := ih
    obtain ⟨removed', added', hbuffer', hbody', hsub', -⟩ := chunkRound_removes hround
    refine ⟨removed ++ removed', added ++ added', ?_, ?_, hsub.append hsub'⟩
    · rw [hbuffer, hbuffer', List.append_assoc]
    · rw [hbody', hbody, List.append_assoc]

/-- **The chunk loop terminates and only moves bytes forward**, whatever the client and the appended
bytes are: after finitely many rounds it is left by a `break` or by an exception, every round that
goes on removes at least two bytes from the front of the buffer, and what is removed in all is followed
by what remains, with some of it appended to the body, in order. -/
theorem chunkLoop_forward (c : Client) (extraBody : Bytes) :
    (∃ last, Rounds (c.push extraBody) last ∧
      ((∃ c', chunkRound last = .ok false c' ∧ parseChunked extraBody c = .ok () c') ∨
        ∃ e c', chunkRound last = .error e c' ∧ parseChunked extraBody c = .error e c')) ∧
    (∀ c₁ c₂, Rounds (c.push extraBody) c₁ → chunkRound c₁ = .ok true c₂ →
      ∃ removed, 2 ≤ removed.length ∧ c₁.chunkedBodyBuffer = removed ++ c₂.chunkedBodyBuffer) ∧
    ∀ c', parseChunked extraBody c = .ok () c' → ∃ removed added,
      c.chunkedBodyBuffer ++ extraBody = removed ++ c'.chunkedBodyBuffer ∧
        c'.body = c.body ++ added ∧ added.Sublist removed := by
  have hdecode : parseChunked extraBody c = decode (c.push extraBody) := rfl
  rw [hdecode]
  refine ⟨exists_lastRound _, fun c₁ c₂ _ hround => ?_, fun c' h => ?_⟩
  · obtain ⟨removed, -, hbuffer, -, -, htwo⟩ := chunkRound_removes hround
    exact ⟨removed, htwo rfl, hbuffer⟩
  · obtain ⟨last, hrounds, ⟨c₂, hlast, h₂⟩ | ⟨e, c₂, -, h₂⟩⟩ := exists_lastRound (c.push extraBody)
    · cases h.symm.trans h₂
      obtain ⟨removed, added, hbuffer, hbody, hsub⟩ := hrounds.removes
      obtain ⟨removed', added', hbuffer', hbody', hsub', -⟩ := chunkRound_removes hlast
      refine ⟨removed ++ removed', added ++ added', ?_, ?_, hsub.append hsub'⟩
      · rw [List.append_assoc, ← hbuffer', ← hbuffer]
        rfl
      · rw [hbody', hbody, List.append_assoc]
        rfl
    · cases h.symm.trans h₂

/-! ## More bytes in the buffer -/

@[simp] theorem push_buffer (c : Client) (b : Bytes) :
    (c.push b).chunkedBodyBuffer = c.chunkedBodyBuffer ++ b := rfl

@[simp] theorem push_state (c : Client) (b : Bytes) :
    (c.push b).chunkedReadState = c.chunkedReadState := rfl

@[simp] theorem push_remaining (c : Client) (b : Bytes) :
    (c.push b).chunkedRemainingContentLength = c.chunkedRemainingContentLength := rfl

@[simp] theorem push_body (c : Client) (b : Bytes) : (c.push b).body = c.body := rfl

@[simp] theorem push_clientToServerState (c : Client) (b : Bytes) :
    (c.push b).clientToServerState = c.clientToServerState := rfl

@[simp] theorem push_push (c : Client) (b b' : Bytes) : (c.push b).push b' = c.push (b ++ b') := by
  simp [push]

@[simp] theorem push_nil (c : Client) : c.push [] = c := by
  simp [push]

@[simp] theorem push_startChunk (c : Client) (b rest : Bytes) (num : ℕ) :
    (c.push b).startChunk rest num = c.startChunk rest num := rfl

@[simp] theorem startChunk_push (c : Client) (b rest : Bytes) (num : ℕ) :
    (c.startChunk rest num).push b = c.startChunk (rest ++ b) num := rfl

@[simp] theorem push_finishLine (c : Client) (b rest : Bytes) :
    (c.push b).finishLine rest = c.finishLine rest := rfl

@[simp] theorem finishLine_push (c : Client) (b rest : Bytes) :
    (c.finishLine rest).push b = c.finishLine (rest ++ b) := by
  unfold finishLine
  split_ifs <;> rfl

theorem push_finishChunk {c : Client} (b : Bytes)
    (h : c.chunkedRemainingContentLength ≤ c.chunkedBodyBuffer.length) :
    (c.push b).finishChunk = c.finishChunk.push b := by
  simp [push, finishChunk, List.take_append_of_le_length h, List.drop_append_of_le_length h]

/-- The rest of a chunk may come in two parts. -/
theorem continueChunk_push_finishChunk {c : Client} (b : Bytes)
    (h : c.chunkedBodyBuffer.length < c.chunkedRemainingContentLength) :
    (c.continueChunk.push b).finishChunk = (c.push b).finishChunk := by
  simp [push, finishChunk, continueChunk, List.take_append, List.drop_append,
    List.take_of_length_le h.le, List.drop_of_length_le h.le]

theorem continueChunk_push_continueChunk (c : Client) (b : Bytes) :
    (c.continueChunk.push b).continueChunk = (c.push b).continueChunk := by
  simp [push, continueChunk, Nat.sub_sub]

theorem hexLoop_append {line rest : Bytes} {num num' : ℕ} (h : hexLoop line num = (rest, num'))
    (hne : rest ≠ []) (b : Bytes) : hexLoop (line ++ b) num = (rest ++ b, num') := by
  induction line generalizing num with
  | nil =>
    simp only [hexLoop, Prod.mk.injEq] at h
    exact absurd h.1.symm hne
  | cons a line ih =>
    simp only [hexLoop] at h
    simp only [List.cons_append, hexLoop]
    split at h
    · exact ih h
    · obtain ⟨rfl, rfl⟩ := Prod.mk.inj h
      rfl

/-- `_hexToNum` stops at the first byte that is not a digit. -/
theorem hexLoop_rest_ne_nil {line : Bytes} {num : ℕ}
    (h : ¬ line.all fun b => (hexDigit b).isSome) : (hexLoop line num).1 ≠ [] := by
  induction line generalizing num with
  | nil => simp at h
  | cons b line ih =>
    rw [hexLoop]
    split
    · rename_i d hd
      refine ih ?_
      simpa [hd] using h
    · simp

theorem hexToNum_append {line : Bytes} (h : ¬ line.all fun b => (hexDigit b).isSome) (num : ℕ)
    (b : Bytes) :
    hexToNum (line ++ b) num = (hexToNum line num).map fun p => (p.1 ++ b, p.2) := by
  cases line with
  | nil => simp at h
  | cons a line =>
    simp only [List.cons_append, hexToNum]
    cases ha : hexDigit a with
    | none => rfl
    | some d =>
      have hrest : ¬ line.all fun b => (hexDigit b).isSome := by simpa [ha] using h
      exact congrArg some (hexLoop_append rfl (hexLoop_rest_ne_nil hrest) b)

theorem readEndline_push (c : Client) (b : Bytes) :
    match readEndline c with
    | .ok true c' => readEndline (c.push b) = .ok true (c'.push b)
    | .ok false c' => c' = c
    | .error e _ => readEndline (c.push b) = .error e (c.push b) := by
  rcases readEndline_cases c with ⟨-, h⟩ | ⟨rest, hb, h⟩ | ⟨hlen, hp, h⟩
  · rw [h]
  · rw [h]
    have hb' : (c.push b).chunkedBodyBuffer = crlf ++ (rest ++ b) := by simp [hb]
    simp only [readEndline_crlf hb', push_finishLine, finishLine_push]
  · rw [h]
    refine readEndline_bad (by simp; omega) fun hp' => hp ?_
    rw [push_buffer] at hp'
    exact List.prefix_of_prefix_length_le hp' (List.prefix_append _ _) hlen

/-- What more bytes in the buffer do to a round: one that went on or threw still does, and one that
left the loop can be taken up where it was left. -/
theorem chunkRound_push (c : Client) (b : Bytes) :
    match chunkRound c with
    | .ok true c' => chunkRound (c.push b) = .ok true (c'.push b)
    | .ok false c' => chunkRound (c.push b) = chunkRound (c'.push b)
    | .error e _ => ∃ c', chunkRound (c.push b) = .error e c' := by
  -- A round that ends with a line end, whatever state it reaches it in
  have key : ∀ e : Client, chunkRound c = readEndline e →
      chunkRound (c.push b) = readEndline (e.push b) →
      chunkRound (e.push b) = readEndline (e.push b) →
      match chunkRound c with
      | .ok true c' => chunkRound (c.push b) = .ok true (c'.push b)
      | .ok false c' => chunkRound (c.push b) = chunkRound (c'.push b)
      | .error e _ => ∃ c', chunkRound (c.push b) = .error e c' := by
    intro e h₁ h₂ h₃
    have h := readEndline_push e b
    rw [h₁, h₂]
    rcases hr : readEndline e with ⟨_ | _, c'⟩ | ⟨f, c'⟩ <;> rw [hr] at h
    · dsimp only at h ⊢
      rw [h, h₃]
    · exact h
    · exact ⟨_, h⟩
  cases hs : c.chunkedReadState with
  | readingContentLen =>
    have hs' : (c.push b).chunkedReadState = .readingContentLen := hs
    by_cases hall : c.chunkedBodyBuffer.all fun b => (hexDigit b).isSome
    · have h : chunkRound c = .ok false c := by rw [chunkRound_contentLen hs, if_pos hall]
      rw [h]
    · have hall' : ¬ (c.push b).chunkedBodyBuffer.all fun b => (hexDigit b).isSome := by
        simp only [push_buffer, List.all_append, Bool.and_eq_true, not_and]
        exact fun h => absurd h hall
      have happ := hexToNum_append hall c.chunkedRemainingContentLength b
      cases hnum : hexToNum c.chunkedBodyBuffer c.chunkedRemainingContentLength with
      | none =>
        have h : chunkRound c = .error (.clientException .badRequest) c := by
          rw [chunkRound_contentLen hs, if_neg hall, hnum]
        rw [h]
        refine ⟨c.push b, ?_⟩
        rw [chunkRound_contentLen hs', if_neg hall', push_buffer, push_remaining, happ, hnum]
        rfl
      | some p =>
        refine key (c.startChunk p.1 p.2) ?_ ?_ (chunkRound_endline (.inl rfl))
        · rw [chunkRound_contentLen hs, if_neg hall, hnum]
        · rw [chunkRound_contentLen hs', if_neg hall', push_buffer, push_remaining, happ, hnum]
          rfl
  | readingBody =>
    have hs' : (c.push b).chunkedReadState = .readingBody := hs
    by_cases hle : c.chunkedRemainingContentLength ≤ c.chunkedBodyBuffer.length
    · have hle' : (c.push b).chunkedRemainingContentLength ≤
          (c.push b).chunkedBodyBuffer.length := by
        simp only [push_remaining, push_buffer, List.length_append]
        omega
      refine key c.finishChunk ?_ ?_ (chunkRound_endline (.inr rfl))
      · rw [chunkRound_body hs, if_pos hle]
      · rw [chunkRound_body hs', if_pos hle', push_finishChunk b hle]
    · have h : chunkRound c = .ok false c.continueChunk := by
        rw [chunkRound_body hs, if_neg hle]
      have hlt := not_le.1 hle
      have hc : (c.continueChunk.push b).chunkedReadState = .readingBody := hs
      rw [h]
      dsimp only
      rw [chunkRound_body hs', chunkRound_body hc, continueChunk_push_finishChunk b hlt,
        continueChunk_push_continueChunk]
      refine if_congr ?_ rfl rfl
      simp only [push_remaining, push_buffer, List.length_append, continueChunk_buffer,
        List.nil_append]
      change _ ↔ c.chunkedRemainingContentLength - c.chunkedBodyBuffer.length ≤ b.length
      omega
  | readingContentLenEndline =>
    exact key c (chunkRound_endline (.inl hs)) (chunkRound_endline (.inl hs))
      (chunkRound_endline (.inl hs))
  | readingBodyEndline =>
    exact key c (chunkRound_endline (.inr hs)) (chunkRound_endline (.inr hs))
      (chunkRound_endline (.inr hs))

/-- **The loop does not care how its input is cut.** If it leaves a client, then more bytes are
decoded from that client as if they had been in the buffer from the start; if it throws, it also
throws with more bytes in the buffer. -/
theorem decode_push (c : Client) (b : Bytes) :
    match decode c with
    | .ok _ c' => decode (c.push b) = decode (c'.push b)
    | .error e _ => ∃ c', decode (c.push b) = .error e c' := by
  generalize hn : c.chunkedBodyBuffer.length = n
  induction n using Nat.strongRecOn generalizing c with
  | ind n ih =>
  have h := chunkRound_push c b
  rcases hr : chunkRound c with ⟨_ | _, c'⟩ | ⟨e, c'⟩
  · rw [hr] at h
    rw [decode_of_break hr]
    change decode (c.push b) = decode (c'.push b)
    rw [decode_eq, h, ← decode_eq]
  · rw [hr] at h
    have hlen := length_of_chunkRound hr
    rw [decode_of_next hr, decode_of_next h]
    exact ih _ (by omega) c' rfl
  · rw [hr] at h
    obtain ⟨c₂, h⟩ := h
    rw [decode_of_error hr]
    exact ⟨c₂, decode_of_error h⟩

end Webserv.Client
