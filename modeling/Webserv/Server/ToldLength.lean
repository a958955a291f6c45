import Webserv.Client.ToldLength
import Webserv.Server.Isolation

/-!
# The length that the CGI of a client is told

`_startCGI` is called for a client whose request is complete, and passes on its `content_length` and its
`body` as they were parsed. So they agree in every run for every request that is a `POST` or tells no
length (`toldLength_iff`).
-/

namespace Webserv.World

open Server History Exec

variable {config : Config}

/-- **When a CGI is told the length of what it is written**: exactly if the request is a `POST`, or its
header tells no length or zero. This holds of every request, however it is cut, and of every client of
every run whose request is complete and was not given up. -/
theorem toldLength_iff (hmax : config.clientMaxBodySize < sizeModulus) :
    (∀ (clientFd serverFd : ℤ) (serverPort : Bytes) (reads : List Bytes) (c : Client),
      Client.feed reads (Client.new clientFd serverFd serverPort config.clientMaxBodySize) = .ok () c →
      c.clientToServerState = .done →
      (c.contentLength = c.body.length ↔ c.requestMethod = .post ∨ Client.TellsNothing c.headers)) ∧
    ∀ w, Reachable config w → SameChunkAssigns w.server.calls → ∀ c ∈ w.server.clients,
      ¬ GivenUp c.clientFd w.server.calls → c.clientToServerState = .done →
      (c.contentLength = c.body.length ↔ c.requestMethod = .post ∨ Client.TellsNothing c.headers) := by
  refine ⟨fun _ _ _ _ _ h hdone => Client.contentLength_iff hmax h hdone, ?_⟩
  intro w hreach hchunks c hc hgiven hdone
  obtain ⟨c', hfeed, hparsing⟩ := hreach.isolated hchunks 0 [] c hc hgiven
  have hlength : c'.contentLength = c.contentLength := (congrArg Client.contentLength hparsing :)
  have hbody : c'.body = c.body := (congrArg Client.body hparsing :)
  have hmethod : c'.requestMethod = c.requestMethod := (congrArg Client.requestMethod hparsing :)
  have hheaders : c'.headers = c.headers := (congrArg Client.headers hparsing :)
  have hstate : c'.clientToServerState = c.clientToServerState :=
    (congrArg Client.clientToServerState hparsing :)
  rw [← hlength, ← hbody, ← hmethod, ← hheaders]
  exact Client.contentLength_iff hmax hfeed (hstate.trans hdone)

theorem toldLength_post : ∃ c ∈ (after cgiConfig [3] (cgiAnswers 4 postRequest 100)).server.clients,
    c.cgiPid = 100 ∧ c.contentLength = c.body.length := by
  have hreach : Reachable cgiConfig (after cgiConfig [3] (cgiAnswers 4 postRequest 100)) :=
    reachable_after (by decide +kernel) (by decide +kernel)
  have hclient : ∃ c ∈ (after cgiConfig [3] (cgiAnswers 4 postRequest 100)).server.clients,
      c.cgiPid = 100 ∧ c.clientToServerState = .done ∧ c.requestMethod = .post ∧
        ¬ GivenUp c.clientFd (after cgiConfig [3] (cgiAnswers 4 postRequest 100)).server.calls := by
    decide +kernel
  obtain ⟨c, hc, hpid, hdone, hpost, hgiven⟩ := hclient
  exact ⟨c, hc, hpid, ((toldLength_iff (by decide)).2 _ hreach (by decide +kernel) c hc hgiven hdone).2
    (.inl hpost)⟩

/-- A request without a body that tells a length. -/
def lengthRequest : Bytes := bytes "GET /a HTTP/1.1\x0d\nHost: a\x0d\nContent-Length: 5\x0d\n\x0d\n"

/-- A CGI is started with a body that has not the length it is told. -/
def Call.tellsOther : Call → Bool
  | .startCgi _ c => c.contentLength ≠ c.body.length
  | _ => false

/-- A CGI is told a length and written nothing. -/
theorem not_told_get : ∃ w, Reachable cgiConfig w ∧ NoLateRead w.server.calls ∧
    SameChunkAssigns w.server.calls ∧ ∃ pid c, .startCgi pid c ∈ w.server.calls ∧
      c.contentLength ≠ c.body.length := by
  have hreach : Reachable cgiConfig (after cgiConfig [3] (cgiAnswers 4 lengthRequest 100)) :=
    reachable_after (by decide +kernel) (by decide +kernel)
  have hstarted : ∃ call ∈ (after cgiConfig [3] (cgiAnswers 4 lengthRequest 100)).server.calls,
      Call.tellsOther call = true := by
    decide +kernel
  refine ⟨_, hreach, by decide +kernel, by decide +kernel, ?_⟩
  obtain ⟨call, hcall, hother⟩ := hstarted
  cases call with
  | startCgi pid c => exact ⟨pid, c, hcall, by simpa [Call.tellsOther] using hother⟩
  | _ => cases hother

end Webserv.World
