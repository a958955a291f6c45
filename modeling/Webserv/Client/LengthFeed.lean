import Webserv.Client.ChunkFeed

/-!
# A body of known length, fed in reads

The client that has read `t` of such a body is `lengthRead t`. Reading goes through these clients
while the size limit allows (`feed_length_of_le`), and else ends with the exception as soon as more
than the limit was read (`feed_length_of_lt`).
-/

namespace Webserv.Client

open Exec

/-- The client that has read `t` after its header block. -/
def lengthRead (c : Client) (t : Bytes) : Client :=
  if c.contentLength ≤ t.length then
    { c with body := t.take c.contentLength, clientToServerState := .done }
  else { c with body := t }

variable {c : Client}

theorem lengthRead_of_le {t : Bytes} (h : c.contentLength ≤ t.length) : c.lengthRead t =
    { c with body := t.take c.contentLength, clientToServerState := .done } := if_pos h

theorem lengthRead_of_lt {t : Bytes} (h : t.length < c.contentLength) :
    c.lengthRead t = { c with body := t } := if_neg (not_le.2 h)

@[simp] theorem lengthRead_contentLength (t : Bytes) :
    (c.lengthRead t).contentLength = c.contentLength := by
  unfold lengthRead
  split_ifs <;> rfl

@[simp] theorem lengthRead_clientMaxBodySize (t : Bytes) :
    (c.lengthRead t).clientMaxBodySize = c.clientMaxBodySize := by
  unfold lengthRead
  split_ifs <;> rfl

@[simp] theorem lengthRead_body (t : Bytes) :
    (c.lengthRead t).body = t.take c.contentLength := by
  unfold lengthRead
  split_ifs with h
  · rfl
  · exact (List.take_of_length_le (not_le.1 h).le).symm

theorem lengthRead_done_iff (hc : c.AtLength) (t : Bytes) :
    (c.lengthRead t).clientToServerState = .done ↔ c.contentLength ≤ t.length := by
  unfold lengthRead
  split_ifs with h
  · simp [h]
  · simp [h, hc.clientToServerState]

/-- Nothing is read into a body that is complete. -/
theorem lengthRead_append {t : Bytes} (h : c.contentLength ≤ t.length) (b : Bytes) :
    c.lengthRead (t ++ b) = c.lengthRead t := by
  rw [lengthRead_of_le h, lengthRead_of_le (by rw [List.length_append]; omega),
    List.take_append_of_le_length h]

theorem lengthRead_nil (hc : c.AtLength) : c.lengthRead [] = c := by
  have hlt : ([] : Bytes).length < c.contentLength := hc.contentLength_pos
  rw [lengthRead_of_lt hlt, ← hc.body]

theorem parseBodyAppend_unchunked (h : c.isChunked = false) (read : Bytes) :
    parseBodyAppend read c = checkSize (parseUnchunked read c) := by
  simp only [parseBodyAppend, run_bind, run_get, h, Bool.false_eq_true, if_false]
  cases parseUnchunked read c with
  | error e c' => rfl
  | ok _ c' =>
    simp only [run_ite, checkSize]
    rfl

/-- One read of a body that is not complete. -/
theorem appendReadString_length (hc : c.AtLength) {t : Bytes} (ht : t.length < c.contentLength)
    (read : Bytes) :
    appendReadString read (c.lengthRead t) = checkSize (.ok () (c.lengthRead (t ++ read))) := by
  have hread : c.lengthRead t = { c with body := t } := lengthRead_of_lt ht
  have hstate : (c.lengthRead t).clientToServerState = .body := by
    rw [hread]
    exact hc.clientToServerState
  have hchunked : (c.lengthRead t).isChunked = false := by
    rw [hread]
    exact hc.isChunked
  rw [appendReadString_body hstate, parseBodyAppend_unchunked hchunked, hread]
  congr 1
  simp only [parseUnchunked, run_modify, lengthRead, List.length_append]
  split_ifs with h
  · rw [List.take_append, List.take_of_length_le ht.le]
  · rfl

/-- **A body within the limit** is read exactly, whatever the cuts. -/
theorem feed_length_of_le (hc : c.AtLength) (hle : c.contentLength ≤ c.clientMaxBodySize)
    (t : Bytes) (reads : List Bytes) :
    feed reads (c.lengthRead t) = .ok () (c.lengthRead (t ++ reads.flatten)) := by
  induction reads generalizing t with
  | nil => simp
  | cons read reads ih =>
    by_cases ht : c.contentLength ≤ t.length
    · rw [feed_done ((lengthRead_done_iff hc t).2 ht), lengthRead_append ht]
    · rw [feed_cons, appendReadString_length hc (not_le.1 ht), checkSize, if_neg]
      · rw [List.flatten_cons, ← List.append_assoc]
        exact ih (t ++ read)
      · rw [lengthRead_body, lengthRead_clientMaxBodySize, List.length_take]
        omega

/-- **A body above the limit** is read until more bytes than the limit have arrived. -/
theorem feed_length_of_lt (hc : c.AtLength) (hlt : c.clientMaxBodySize < c.contentLength)
    {t : Bytes} (ht : t.length ≤ c.clientMaxBodySize) (reads : List Bytes) :
    ((t ++ reads.flatten).length ≤ c.clientMaxBodySize →
      feed reads (c.lengthRead t) = .ok () (c.lengthRead (t ++ reads.flatten))) ∧
    (c.clientMaxBodySize < (t ++ reads.flatten).length → ∃ t',
      feed reads (c.lengthRead t) =
        .error (.clientException .requestEntityTooLarge) (c.lengthRead t')) := by
  induction reads generalizing t with
  | nil => exact ⟨by simp, fun h => absurd ht (by simpa using h)⟩
  | cons read reads ih =>
    rw [feed_cons, appendReadString_length hc (by omega), checkSize, lengthRead_body,
      lengthRead_clientMaxBodySize, List.length_take, List.flatten_cons, ← List.append_assoc]
    by_cases hread : (t ++ read).length ≤ c.clientMaxBodySize
    · rw [if_neg (by omega)]
      exact ih hread
    · rw [if_pos (by omega)]
      refine ⟨fun hall => ?_, fun _ => ⟨t ++ read, rfl⟩⟩
      rw [List.length_append] at hall
      omega

/-- A body of known length stays one. -/
theorem feed_length_isChunked (hc : c.AtLength) (reads : List Bytes) :
    (finalState (feed reads c)).isChunked = false := by
  have hread : ∀ t, (c.lengthRead t).isChunked = false := by
    intro t
    unfold lengthRead
    split_ifs <;> exact hc.isChunked
  rw [← lengthRead_nil hc]
  by_cases hle : c.contentLength ≤ c.clientMaxBodySize
  · rw [feed_length_of_le hc hle]
    exact hread _
  · obtain ⟨hsmall, hlarge⟩ := feed_length_of_lt hc (not_le.1 hle) (t := []) (Nat.zero_le _) reads
    by_cases hlen : ([] ++ reads.flatten).length ≤ c.clientMaxBodySize
    · rw [hsmall hlen]
      exact hread _
    · obtain ⟨t', ht'⟩ := hlarge (not_le.1 hlen)
      rw [ht']
      exact hread _

end Webserv.Client
