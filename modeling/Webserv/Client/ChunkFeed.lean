import Webserv.Client.Head

/-!
# A chunked body, fed in reads

While a chunked body is read without an exception, the client is the one that the chunk loop gives
on all bytes read so far (`Fed`). So what feeding the reads ends in is known from what the loop does
on all bytes: if it leaves a client, the size limit decides (`feed_of_decode_ok`); if it throws, the
reads end with the same exception, provided that no read before ended with a complete or a too
large body (`feed_of_decode_error`).
-/

namespace Webserv.Client

open Exec Chunked

/-- Two clients that have read the same request. -/
structure SameRequest (c c' : Client) : Prop where
  clientToServerState : c'.clientToServerState = c.clientToServerState
  requestMethod : c'.requestMethod = c.requestMethod
  requestTarget : c'.requestTarget = c.requestTarget
  protocol : c'.protocol = c.protocol
  headers : c'.headers = c.headers
  contentLength : c'.contentLength = c.contentLength
  body : c'.body = c.body

theorem SameRequest.refl (c : Client) : SameRequest c c := ⟨rfl, rfl, rfl, rfl, rfl, rfl, rfl⟩

/-- Two clients that have read the same request as a third have read the same request. -/
theorem SameRequest.common {c c₁ c₂ : Client} (h₁ : SameRequest c c₁) (h₂ : SameRequest c c₂) :
    SameRequest c₁ c₂ :=
  ⟨h₂.1.trans h₁.1.symm, h₂.2.trans h₁.2.symm, h₂.3.trans h₁.3.symm, h₂.4.trans h₁.4.symm,
    h₂.5.trans h₁.5.symm, h₂.6.trans h₁.6.symm, h₂.7.trans h₁.7.symm⟩

/-- The size check at the end of `_parseBodyAppend`. -/
def checkSize : EStateM.Result Fault Client Unit → EStateM.Result Fault Client Unit
  | .ok _ c =>
    if c.clientMaxBodySize < c.body.length then
      .error (.clientException .requestEntityTooLarge) c
    else .ok () c
  | .error e c => .error e c

theorem parseBodyAppend_chunked {c : Client} (h : c.isChunked = true) (read : Bytes) :
    parseBodyAppend read c = checkSize (decode (c.push read)) := by
  have hdecode : parseChunked read c = decode (c.push read) := rfl
  simp only [parseBodyAppend, run_bind, run_get, h, if_true, hdecode]
  cases decode (c.push read) with
  | error e c' => rfl
  | ok _ c' =>
    simp only [run_ite, checkSize]
    rfl

variable {c c₁ : Client}

/-- The client is still reading its chunked body, of which it has read `t`. -/
structure Fed (c : Client) (t : Bytes) (c₁ : Client) : Prop where
  decode_eq : decode (c.push t) = .ok () c₁
  clientToServerState : c₁.clientToServerState = .body
  length_le : c₁.body.length ≤ c.clientMaxBodySize

theorem AtChunks.body_eq (hc : c.AtChunks) : c.body = [] := by
  rw [← hc.eq_scanned]
  rfl

theorem AtChunks.clientToServerState_eq (hc : c.AtChunks) : c.clientToServerState = .body := by
  rw [← hc.eq_scanned]
  rfl

/-- The client that the chunk loop leaves has what the header phase settled. -/
theorem decode_sameHead (hc : c.AtChunks) {t : Bytes} (h : decode (c.push t) = .ok () c₁) :
    SameHead c c₁ := by
  obtain ⟨u, v, d, sizes, ph, -, -, ⟨-, c₂, h₂, hstores⟩ | ⟨-, c₂, h₂, -⟩⟩ := decode_cases hc t
  · rw [h₂] at h
    cases h
    exact hstores.sameHead
  · rw [h₂] at h
    cases h

theorem fed_start (hc : c.AtChunks) : Fed c [] c := by
  refine ⟨?_, hc.clientToServerState_eq, by simp [hc.body_eq]⟩
  rw [push_nil]
  refine decode_of_break ?_
  rw [← hc.eq_scanned, chunkRound_contentLen rfl]
  rfl

/-- A read of a client that is still reading its body. -/
theorem Fed.appendReadString (hc : c.AtChunks) {t : Bytes} (h : Fed c t c₁) (read : Bytes) :
    appendReadString read c₁ = checkSize (decode (c.push (t ++ read))) := by
  have hchunked : c₁.isChunked = true := (decode_sameHead hc h.decode_eq).isChunked.trans hc.isChunked
  have hpush := decode_push (c.push t) read
  rw [h.decode_eq] at hpush
  rw [appendReadString_body h.clientToServerState, parseBodyAppend_chunked hchunked, ← push_push,
    hpush]

/-- An exception of the chunk loop is thrown with more bytes, too. -/
theorem decode_ok_of_append {t b : Bytes} {c' : Client} (h : decode (c.push (t ++ b)) = .ok () c') :
    ∃ c₁, decode (c.push t) = .ok () c₁ := by
  have hpush := decode_push (c.push t) b
  rw [push_push, h] at hpush
  cases hd : decode (c.push t) with
  | ok _ c₁ => exact ⟨c₁, rfl⟩
  | error e c₁ =>
    rw [hd] at hpush
    obtain ⟨_, hpush⟩ := hpush
    cases hpush

@[simp] theorem finalState_checkSize (r : EStateM.Result Fault Client Unit) :
    finalState (checkSize r) = finalState r := by
  cases r with
  | ok _ c =>
    rw [checkSize]
    split_ifs <;> rfl
  | error e c => rfl

/-- The chunk loop leaves the client it started from in one of two states. -/
theorem decode_progress (hc : c.AtChunks) {t : Bytes} (h : decode (c.push t) = .ok () c₁) :
    c₁.clientToServerState = .body ∨ c₁.clientToServerState = .done := by
  obtain ⟨u, v, d, sizes, ph, -, -, ⟨-, c₂, h₂, hstores⟩ | ⟨-, c₂, h₂, -⟩⟩ := decode_cases hc t
  · rw [h₂] at h
    cases h
    rw [hstores.progress]
    cases ph <;> simp [phaseProgress]
  · rw [h₂] at h
    cases h

/-- Reads after which the body is still being read. -/
theorem Fed.feed (hc : c.AtChunks) {t : Bytes} (h : Fed c t c₁) {reads : List Bytes} {c₂ : Client}
    (hfeed : feed reads c₁ = .ok () c₂) (hne : c₂.clientToServerState ≠ .done) :
    Fed c (t ++ reads.flatten) c₂ := by
  induction reads generalizing t c₁ with
  | nil =>
    cases hfeed
    simpa using h
  | cons read reads ih =>
    rw [feed_cons, h.appendReadString hc] at hfeed
    cases hd : decode (c.push (t ++ read)) with
    | error e c' =>
      rw [hd] at hfeed
      cases hfeed
    | ok _ c' =>
      rw [hd, checkSize, (decode_sameHead hc hd).clientMaxBodySize] at hfeed
      split_ifs at hfeed with hlarge
      dsimp only at hfeed
      rw [List.flatten_cons, ← List.append_assoc]
      rcases decode_progress hc hd with hbody | hended
      · exact ih ⟨hd, hbody, not_lt.1 hlarge⟩ hfeed
      · rw [feed_done hended] at hfeed
        cases hfeed
        exact absurd hended hne

/-- **Reads whose bytes are no malformed body** end in what the chunk loop does on all bytes: the
size limit decides, and a complete body is the same whichever read completed it. -/
theorem feed_of_decode_ok (hc : c.AtChunks) {t : Bytes} (h : Fed c t c₁) (reads : List Bytes)
    {c' : Client} (hall : decode (c.push (t ++ reads.flatten)) = .ok () c') :
    (c.clientMaxBodySize < c'.body.length →
      ∃ c₂, feed reads c₁ = .error (.clientException .requestEntityTooLarge) c₂) ∧
    (c'.body.length ≤ c.clientMaxBodySize →
      ∃ c₂, feed reads c₁ = .ok () c₂ ∧ SameRequest c' c₂) := by
  induction reads generalizing t c₁ with
  | nil =>
    rw [List.flatten_nil, List.append_nil, h.decode_eq] at hall
    cases hall
    exact ⟨fun hlt => absurd h.length_le (by omega), fun _ => ⟨c', rfl, .refl c'⟩⟩
  | cons read reads ih =>
    rw [List.flatten_cons, ← List.append_assoc] at hall
    obtain ⟨c₂, h₂⟩ := decode_ok_of_append hall
    have hmono := decode_mono (b := reads.flatten) hc h₂
    rw [hall, finalState_ok] at hmono
    obtain ⟨hpre, hdone⟩ := hmono
    have hhead := decode_sameHead hc h₂
    have hhead' := decode_sameHead hc hall
    rw [feed_cons, h.appendReadString hc, h₂, checkSize, hhead.clientMaxBodySize]
    by_cases hlarge : c.clientMaxBodySize < c₂.body.length
    · -- this read exceeds the limit, so all of them do
      have hlen := hpre.length_le
      rw [if_pos hlarge]
      exact ⟨fun _ => ⟨c₂, rfl⟩, fun hle => absurd hle (by omega)⟩
    · rw [if_neg hlarge]
      dsimp only
      rcases decode_progress hc h₂ with hbody | hended
      · exact ih ⟨h₂, hbody, not_lt.1 hlarge⟩ hall
      · -- this read completes the body, and the following ones are dropped
        obtain ⟨hstate, hbody, hlength⟩ := hdone hended
        rw [feed_done hended, hbody]
        refine ⟨fun hlt => absurd hlt hlarge, fun _ => ⟨c₂, rfl, ?_⟩⟩
        exact ⟨hended.trans hstate.symm, hhead.requestMethod.trans hhead'.requestMethod.symm,
          hhead.requestTarget.trans hhead'.requestTarget.symm,
          hhead.protocol.trans hhead'.protocol.symm, hhead.headers.trans hhead'.headers.symm,
          hlength.symm, hbody.symm⟩

/-- **Reads whose bytes are a malformed body** end with the exception of the chunk loop, if no
read before ends with a complete or a too large body. -/
theorem feed_of_decode_error (hc : c.AtChunks) {t : Bytes} (h : Fed c t c₁) (reads : List Bytes)
    {c' : Client} {e : Fault} (hall : decode (c.push (t ++ reads.flatten)) = .error e c')
    (hsmall : ∀ t₁ t₂, t ++ reads.flatten = t₁ ++ t₂ → ∀ c₂, decode (c.push t₁) = .ok () c₂ →
      c₂.clientToServerState ≠ .done ∧ c₂.body.length ≤ c.clientMaxBodySize) :
    ∃ c₂, feed reads c₁ = .error e c₂ := by
  induction reads generalizing t c₁ with
  | nil =>
    rw [List.flatten_nil, List.append_nil, h.decode_eq] at hall
    cases hall
  | cons read reads ih =>
    rw [List.flatten_cons, ← List.append_assoc] at hall hsmall
    rw [feed_cons, h.appendReadString hc]
    cases h₂ : decode (c.push (t ++ read)) with
    | error e₂ c₂ =>
      have hpush := decode_push (c.push (t ++ read)) reads.flatten
      rw [h₂, push_push, hall] at hpush
      obtain ⟨c₃, hpush⟩ := hpush
      cases hpush
      exact ⟨c₂, rfl⟩
    | ok _ c₂ =>
      obtain ⟨hdone, hle⟩ := hsmall _ _ rfl c₂ h₂
      have hhead := decode_sameHead hc h₂
      rw [checkSize, hhead.clientMaxBodySize, if_neg (not_lt.2 hle)]
      exact ih ⟨h₂, (decode_progress hc h₂).resolve_right hdone, hle⟩ hall hsmall

end Webserv.Client
