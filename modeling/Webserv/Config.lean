import Webserv.Fault
import Webserv.Foundations.Map

/-!
# The configuration

The parts of a parsed `Config` that the server reads while it runs.
-/

namespace Webserv

/-- `Config::LocationDirective`. -/
structure LocationDirective where
  uri : Bytes
  cgiExecvePath : Bytes := []
  getAllowed : Bool := false
  postAllowed : Bool := false
  deleteAllowed : Bool := false
  autoindex : Bool := false
  index : Bytes := []
  redirect : Bytes := []
  root : Bytes

/-- `Config::ServerDirective`; the error pages are keyed by the code of the status. -/
structure ServerDirective where
  serverNames : List Bytes := []
  locations : List LocationDirective := []
  errorPages : Map ℕ Bytes := ∅

/-- `Config`; `bindInfos` has, for every address that is listened on, its port and the indices of
its servers, as `bind_info_to_server_indices` lists them. -/
structure Config where
  clientMaxBodySize : ℕ
  clientTimeoutMs : ℕ
  servers : List ServerDirective
  bindInfos : List (Bytes × List ℕ)

end Webserv
