import Webserv.Client.Body

/-!
# Feeding reads to a client

`feed` hands the reads of a connection to `appendReadString`, one after another, until it throws.
The header phase does not depend on how the stream is cut: the reads are joined until the header
block is complete, the block is read (`readHead`), and what follows it are the reads of the body
(`feed_header`).
-/

namespace Webserv.Client

open Exec Search

/-- Feed the reads of a connection to `appendReadString`, until it throws. -/
def feed : List Bytes → ClientM Unit
  | [] => pure ()
  | read :: reads => do
    appendReadString read
    feed reads

@[simp] theorem feed_nil (c : Client) : feed [] c = .ok () c := rfl

theorem feed_cons (read : Bytes) (reads : List Bytes) (c : Client) : feed (read :: reads) c =
    match appendReadString read c with
    | .ok _ c' => feed reads c'
    | .error e c' => .error e c' := by
  rw [feed, run_bind]
  cases appendReadString read c <;> rfl

theorem feed_append (reads reads' : List Bytes) (c : Client) : feed (reads ++ reads') c =
    match feed reads c with
    | .ok _ c' => feed reads' c'
    | .error e c' => .error e c' := by
  induction reads generalizing c with
  | nil => rfl
  | cons read reads ih =>
    rw [List.cons_append, feed_cons, feed_cons]
    cases appendReadString read c with
    | ok _ c' => exact ih c'
    | error e c' => rfl

theorem appendReadString_body {c : Client} (h : c.clientToServerState = .body) (read : Bytes) :
    appendReadString read c = parseBodyAppend read c := by
  simp only [appendReadString, run_bind, run_get, h]

theorem appendReadString_done {c : Client} (h : c.clientToServerState = .done) (read : Bytes) :
    appendReadString read c = .ok () c := by
  simp only [appendReadString, run_bind, run_get, h]
  rfl

/-- What follows a complete request is read and dropped. -/
theorem feed_done {c : Client} (h : c.clientToServerState = .done) (reads : List Bytes) :
    feed reads c = .ok () c := by
  induction reads with
  | nil => rfl
  | cons read reads ih =>
    rw [feed_cons, appendReadString_done h]
    exact ih

/-! ## The header phase -/

/-- The blank line that ends a header block, with the line end before it. -/
def blankLine : Bytes := crlf ++ crlf

/-- The header phase, without body bytes in the read that completed it. -/
def readHead : ClientM Unit := do
  readHeaderBlock
  startBody []

/-- The client whose header block is complete. -/
def withHeader (c : Client) (header : Bytes) : Client := { c with header := header }

theorem appendReadString_header {c : Client} (h : c.clientToServerState = .header) (read : Bytes) :
    appendReadString read c =
      match find blankLine (c.header ++ read) with
      | none => .ok () (c.withHeader (c.header ++ read))
      | some i => (readHeaderBlock >>= fun _ => startBody ((c.header ++ read).drop (i + 4)))
          (c.withHeader ((c.header ++ read).take (i + 2))) := by
  have hread : appendReadString read c = (match find blankLine (c.header ++ read) with
      | none => pure ()
      | some i => do
        modify fun c' => { c' with header := (c.header ++ read).take (i + 2) }
        readHeaderBlock
        startBody ((c.header ++ read).drop (i + 4)) : ClientM Unit)
      (c.withHeader (c.header ++ read)) := by
    unfold appendReadString
    rw [run_bind, run_get]
    dsimp only
    rw [h]
    rfl
  rw [hread]
  cases find blankLine (c.header ++ read) <;> rfl

theorem startBody_nil (c : Client) : startBody [] c = .ok () (
    if c.requestMethod ≠ .post ∨ c.contentLength = 0 ∧ c.isChunked = false then
      { c with clientToServerState := .done, serverToCgiState := .done }
    else { c with clientToServerState := .body }) := by
  simp only [startBody, run_bind, run_get, run_ite, List.length_nil, lt_irrefl, if_false]
  split_ifs <;> rfl

/-- The body bytes in the read that completed the header block are a read of their own. -/
theorem startBody_eq (extraBody : Bytes) (c : Client) :
    startBody extraBody c = (startBody [] >>= fun _ =>
      feed (if extraBody = [] then [] else [extraBody])) c := by
  rw [run_bind, startBody_nil]
  by_cases he : extraBody = []
  · subst he
    simpa using startBody_nil c
  · have hlen : 0 < extraBody.length := List.length_pos_of_ne_nil he
    by_cases hdone : c.requestMethod ≠ .post ∨ c.contentLength = 0 ∧ c.isChunked = false
    · simp only [startBody, run_bind, run_get, run_ite, hdone, if_true, he, if_false]
      exact (feed_done rfl _).symm
    · simp only [startBody, run_bind, run_get, run_ite, hdone, if_false, he, hlen, if_true,
        run_set, feed_cons]
      rw [appendReadString_body rfl]
      cases parseBodyAppend extraBody { c with clientToServerState := .body } <;> rfl

/-- The read that completes the header block: the header phase, and then the bytes after the block,
if there are any. -/
theorem readHeaderBlock_startBody (extraBody : Bytes) (c : Client) :
    (readHeaderBlock >>= fun _ => startBody extraBody) c =
      (readHead >>= fun _ => feed (if extraBody = [] then [] else [extraBody])) c := by
  simp only [readHead, run_bind]
  cases readHeaderBlock c with
  | error e c' => rfl
  | ok _ c' =>
    dsimp only
    rw [startBody_eq, run_bind]

/-- **The header phase does not depend on the cuts.** Reads without a blank line are joined. Once
there is one, the header block is read, and the rest of the stream is fed as reads of the body. -/
theorem feed_header {c : Client} (h : c.clientToServerState = .header)
    (hnone : find blankLine c.header = none) (reads : List Bytes) :
    match find blankLine (c.header ++ reads.flatten) with
    | none => feed reads c = .ok () (c.withHeader (c.header ++ reads.flatten))
    | some i => ∃ pieces, pieces.flatten = (c.header ++ reads.flatten).drop (i + 4) ∧
        feed reads c = (readHead >>= fun _ => feed pieces)
          (c.withHeader ((c.header ++ reads.flatten).take (i + 2))) := by
  induction reads generalizing c with
  | nil =>
    simp only [List.flatten_nil, List.append_nil, hnone]
    rfl
  | cons read reads ih =>
    rw [List.flatten_cons, ← List.append_assoc, feed_cons, appendReadString_header h]
    cases hfind : find blankLine (c.header ++ read) with
    | none => exact ih (c := c.withHeader (c.header ++ read)) h hfind
    | some i =>
      have hlen : i + 4 ≤ (c.header ++ read).length := length_le_of_find hfind
      have htake : (c.header ++ read ++ reads.flatten).take (i + 2) =
          (c.header ++ read).take (i + 2) := List.take_append_of_le_length (by omega)
      rw [find_append_right hfind]
      dsimp only
      rw [List.drop_append_of_le_length hlen, htake]
      generalize hextra : (c.header ++ read).drop (i + 4) = extraBody
      refine ⟨(if extraBody = [] then [] else [extraBody]) ++ reads, ?_, ?_⟩
      · split_ifs with he <;> simp [he]
      · -- after the block, the rest of the read is fed first and then the other reads
        rw [readHeaderBlock_startBody, run_bind, run_bind]
        cases readHead (c.withHeader ((c.header ++ read).take (i + 2))) with
        | error e c' => rfl
        | ok _ c' => exact (feed_append _ _ c').symm

end Webserv.Client
