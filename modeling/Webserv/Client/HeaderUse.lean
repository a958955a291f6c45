import Webserv.Client.HeaderFields
import Webserv.Client.PostHead

/-!
# What the headers do

`_useHeaders` looks at four headers. It throws `BAD_REQUEST`, or it settles the framing and the names of
the request (`useHeaders_of_usable`, `useHeaders_of_not_usable`).
-/

namespace Webserv.Client

open Exec Search Utils

/-- What `_useHeaders` asks for: a length is a number, and there is none beside a chunked body, and
there is a host. -/
structure Usable (c : Client) : Prop where
  length : ∀ value, c.headers.lookup (bytes "CONTENT_LENGTH") = some value →
    c.withEncoding.isChunked = false ∧ (parseNumber value (sizeModulus - 1)).1 = true
  host : HasHost c.headers

/-- The name in `Host`, without the port. -/
def hostName (headers : Headers) : Bytes :=
  match headers.lookup (bytes "HOST") with
  | none => []
  | some host =>
    match find (bytes ":") host with
    | none => host
    | some colonIndex => host.take colonIndex

/-- The length that the headers tell. -/
def toldLength (c : Client) : ℕ :=
  match c.headers.lookup (bytes "CONTENT_LENGTH") with
  | none => c.contentLength
  | some value => (parseNumber value (sizeModulus - 1)).2

/-- The client after `_useHeaders`. -/
def settled (c : Client) : Client :=
  { c.withEncoding with
    contentLength := c.toldLength
    serverName := upper (hostName c.headers)
    unuppercasedServerName := hostName c.headers
    contentType := (c.headers.lookup (bytes "CONTENT_TYPE")).getD c.contentType }

variable {c : Client}

theorem useFraming_of_length
    (h : ∀ value, c.headers.lookup (bytes "CONTENT_LENGTH") = some value →
      c.withEncoding.isChunked = false ∧ (parseNumber value (sizeModulus - 1)).1 = true) :
    useFraming c = .ok () { c.withEncoding with contentLength := c.toldLength } := by
  rw [useFraming_eq, toldLength]
  cases hlookup : c.headers.lookup (bytes "CONTENT_LENGTH") with
  | none =>
    dsimp only
    rw [← withEncoding_contentLength c]
  | some value =>
    obtain ⟨hchunked, haccepted⟩ := h value hlookup
    dsimp only
    rw [if_neg (by rw [hchunked]; exact Bool.false_ne_true), if_pos haccepted]

theorem useHost_of_hasHost (h : HasHost c.headers) : useHost c = .ok () { c with
    serverName := upper (hostName c.headers), unuppercasedServerName := hostName c.headers } := by
  obtain ⟨host, hlookup, hcolon⟩ := h
  rw [useHost, run_bind, run_get]
  dsimp only
  rw [hostName, hlookup]
  dsimp only
  cases hfind : find (bytes ":") host with
  | none => rfl
  | some i =>
    have hne : i ≠ 0 := by
      rintro rfl
      exact hcolon hfind
    dsimp only
    rw [run_ite, if_neg hne]
    rfl

theorem useHost_of_not_hasHost (h : ¬ HasHost c.headers) :
    useHost c = .error (.clientException .badRequest) c := by
  rw [useHost, run_bind, run_get]
  dsimp only
  cases hlookup : c.headers.lookup (bytes "HOST") with
  | none => rfl
  | some host =>
    have hzero : find (bytes ":") host = some 0 := by
      by_contra hne
      exact h ⟨host, hlookup, hne⟩
    dsimp only
    rw [hzero]
    rfl

theorem useContentType_eq (c : Client) : useContentType c = .ok () { c with
    contentType := (c.headers.lookup (bytes "CONTENT_TYPE")).getD c.contentType } := by
  rw [useContentType, run_bind, run_get]
  dsimp only
  cases c.headers.lookup (bytes "CONTENT_TYPE") <;> rfl

/-- **Usable headers are used.** -/
theorem useHeaders_of_usable (h : c.Usable) : useHeaders c = .ok () c.settled := by
  have hhost : HasHost (c.withEncoding).headers := by
    rw [withEncoding_headers]
    exact h.host
  rw [useHeaders, bind_of_ok (useFraming_of_length h.length)]
  have hnamed := useHost_of_hasHost (c := { c.withEncoding with contentLength := c.toldLength }) hhost
  rw [bind_of_ok hnamed, useContentType_eq, settled]
  simp only [withEncoding_headers]
  rw [show c.withEncoding.contentType = c.contentType by unfold withEncoding; split_ifs <;> rfl]

/-- **Other headers are rejected.** -/
theorem useHeaders_of_not_usable (h : ¬ c.Usable) :
    ∃ c', useHeaders c = .error (.clientException .badRequest) c' := by
  by_cases hlength : ∀ value, c.headers.lookup (bytes "CONTENT_LENGTH") = some value →
      c.withEncoding.isChunked = false ∧ (parseNumber value (sizeModulus - 1)).1 = true
  · -- the framing is fine, so the host is not
    have hhost : ¬ HasHost c.headers := fun hhost => h ⟨hlength, hhost⟩
    rw [useHeaders, bind_of_ok (useFraming_of_length hlength)]
    refine ⟨_, bind_of_error (useHost_of_not_hasHost ?_)⟩
    rwa [withEncoding_headers]
  · -- the framing is rejected
    obtain ⟨value, hvalue⟩ := not_forall.1 hlength
    obtain ⟨hlookup, hbad⟩ := Classical.not_imp.1 hvalue
    have hframing := useFraming_eq c
    rw [hlookup] at hframing
    dsimp only at hframing
    split_ifs at hframing with hchunked haccepted
    · exact ⟨_, bind_of_error hframing⟩
    · exact absurd ⟨by simpa using hchunked, haccepted⟩ hbad
    · exact ⟨_, bind_of_error hframing⟩

end Webserv.Client
