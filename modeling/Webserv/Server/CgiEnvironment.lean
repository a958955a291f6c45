import Webserv.Foundations.Environ
import Webserv.Server.Location

/-!
# What a CGI is started with

The child of `_startCGI` calls `_execveChild`, which hands the CGI its script name and path info, and an
environment: every header of the request as a variable with the prefix `HTTP_`, in the order of an
unordered map, and then the variables of the CGI protocol. Whatever a client sends, the latter have the
values that the server gives them; but a header whose name has a `=` in it may pass for another one
(`cgi_environment_iff`).
-/

namespace Webserv

open Environ

/-- `c_str()`, as the program that gets it sees it. -/
abbrev cStr (s : Bytes) : Bytes := cString 0 s

/-- The value of a variable in an environment. -/
abbrev getEnv (envp : List Bytes) (name : Bytes) : Option Bytes := getenv (ch '=') envp name

/-- The arguments of `T::execve`. -/
structure Execve where
  pathname : Bytes
  argv : List Bytes
  envp : List Bytes

/-- `Client::getRequestMethodString`. -/
def Client.getRequestMethodString (c : Client) : Except Fault Bytes :=
  match c.requestMethod with
  | .none => .error .assertion
  | .get => .ok (bytes "GET")
  | .post => .ok (bytes "POST")
  | .delete => .ok (bytes "DELETE")

namespace Server

/-- An entry of `cgi_headers`. -/
def cgiHeader (entry : Bytes × Bytes) : Bytes := entry.1 ++ ch '=' :: entry.2

/-- The variable of a header of the request. -/
def headerVariable (header : Bytes × Bytes) : Bytes × Bytes := (bytes "HTTP_" ++ header.1, header.2)

/-- The variables that `_execveChild` adds to those of the headers. -/
def metaVariables (c : Client)
    (currentPath requestMethod scriptName pathInfo queryString : Bytes) : List (Bytes × Bytes) :=
  [(bytes "REQUEST_METHOD", requestMethod),
    (bytes "SCRIPT_NAME", scriptName),
    (bytes "PATH_INFO", pathInfo),
    (bytes "QUERY_STRING", queryString),
    (bytes "CONTENT_LENGTH", decimal c.contentLength),
    (bytes "CONTENT_TYPE", c.contentType),
    (bytes "SERVER_NAME", c.unuppercasedServerName),
    (bytes "SERVER_PORT", c.serverPort),
    (bytes "GATEWAY_INTERFACE", bytes "CGI/1.1"),
    (bytes "PATH_TRANSLATED", currentPath ++ pathInfo),
    (bytes "SERVER_PROTOCOL", bytes "HTTP/1.1"),
    (bytes "AUTH_TYPE", []),
    (bytes "REMOTE_ADDR", []),
    (bytes "REMOTE_HOST", []),
    (bytes "REMOTE_IDENT", []),
    (bytes "REMOTE_USER", []),
    (bytes "SERVER_SOFTWARE", [])]

/-- `Server::_getCGIEnv`; the `NULL` at its end is the end of the list. -/
def getCgiEnv (cgiHeaders : List Bytes) : List Bytes := cgiHeaders.map cStr

/-- `Server::_execveChild`, up to the call of `T::execve`, with the headers in the order in which the loop
meets them, and the answer of `std::filesystem::current_path`. -/
def execveChild (headers : List (Bytes × Bytes)) (currentPath : Option Bytes) (c : Client)
    (cgiExecvePath scriptName pathInfo queryString : Bytes) : Except Fault Execve := do
  let requestMethod ← c.getRequestMethodString
  let currentPath ← orFilesystemError currentPath
  let cgiHeaders := (headers.map headerVariable ++
    metaVariables c currentPath requestMethod scriptName pathInfo queryString).map cgiHeader
  .ok {
    pathname := cStr cgiExecvePath
    argv := [cStr cgiExecvePath, cStr scriptName, cStr pathInfo]
    envp := getCgiEnv cgiHeaders }

/-! ## The names of the variables -/

/-- The names of the variables of the CGI protocol. -/
def metaNames : List Bytes :=
  [bytes "REQUEST_METHOD", bytes "SCRIPT_NAME", bytes "PATH_INFO", bytes "QUERY_STRING",
    bytes "CONTENT_LENGTH", bytes "CONTENT_TYPE", bytes "SERVER_NAME", bytes "SERVER_PORT",
    bytes "GATEWAY_INTERFACE", bytes "PATH_TRANSLATED", bytes "SERVER_PROTOCOL", bytes "AUTH_TYPE",
    bytes "REMOTE_ADDR", bytes "REMOTE_HOST", bytes "REMOTE_IDENT", bytes "REMOTE_USER",
    bytes "SERVER_SOFTWARE"]

variable {c : Client} {headers : List (Bytes × Bytes)}
  {currentPath requestMethod scriptName pathInfo queryString key value name : Bytes}

theorem map_fst_metaVariables :
    (metaVariables c currentPath requestMethod scriptName pathInfo queryString).map Prod.fst =
      metaNames := rfl

theorem fst_mem_metaNames {entry : Bytes × Bytes}
    (hentry : entry ∈ metaVariables c currentPath requestMethod scriptName pathInfo queryString) :
    entry.1 ∈ metaNames := by
  have hmem := List.mem_map_of_mem (f := Prod.fst) hentry
  rwa [map_fst_metaVariables] at hmem

theorem nodup_metaNames : metaNames.Nodup := by decide +kernel

theorem sep_notMem_metaNames : ∀ name ∈ metaNames, ch '=' ∉ name ∧ 0 ∉ name := by decide +kernel

/-- No variable of the CGI protocol has the prefix of the headers. -/
theorem not_http_metaNames : ∀ name ∈ metaNames, 5 ≤ name.length ∧ name.take 5 ≠ bytes "HTTP_" := by
  decide +kernel

/-- No header says anything under the name of a variable of the CGI protocol. -/
theorem not_says_headerVariable (hname : name ∈ metaNames) (header : Bytes × Bytes) :
    ¬ Says 0 (ch '=') (headerVariable header) name value := by
  obtain ⟨hlength, hne⟩ := not_http_metaNames name hname
  have hhttp : (headerVariable header).1.take 5 = bytes "HTTP_" := List.take_left' (by decide +kernel)
  rw [says_iff]
  rintro (⟨heq, -⟩ | ⟨more, heq, -⟩)
  · exact hne (heq ▸ hhttp)
  · rw [heq, List.take_append_of_le_length hlength] at hhttp
    exact hne hhttp

/-- No variable of the CGI protocol says anything under the name of a header. -/
theorem not_says_metaVariables {entry : Bytes × Bytes} (hname : entry.1 ∈ metaNames) :
    ¬ Says 0 (ch '=') entry (bytes "HTTP_" ++ key) value := by
  obtain ⟨hlength, hne⟩ := not_http_metaNames entry.1 hname
  have hhttp : ∀ rest, (bytes "HTTP_" ++ (key ++ rest)).take 5 = bytes "HTTP_" := fun rest =>
    List.take_left' (by decide +kernel)
  rw [says_iff]
  rintro (⟨heq, -⟩ | ⟨more, heq, -⟩)
  · have hhttp' := hhttp []
    rw [List.append_nil, ← heq] at hhttp'
    exact hne hhttp'
  · rw [List.append_assoc] at heq
    exact hne (heq ▸ hhttp _)

/-! ## What the variables are -/

variable {cgiExecvePath : Bytes} {path : Option Bytes} {call : Execve}

theorem execveChild_ok
    (h : execveChild headers path c cgiExecvePath scriptName pathInfo queryString = .ok call) :
    ∃ requestMethod currentPath, c.getRequestMethodString = .ok requestMethod ∧
      path = some currentPath ∧ call.envp = environ 0 (ch '=') (headers.map headerVariable ++
        metaVariables c currentPath requestMethod scriptName pathInfo queryString) := by
  obtain ⟨requestMethod, hmethod, h⟩ := Exec.except_bind_eq_ok h
  obtain ⟨currentPath, hpath, h⟩ := Exec.except_bind_eq_ok h
  cases h
  refine ⟨requestMethod, currentPath, hmethod, ?_, List.map_map⟩
  cases path with
  | none => cases hpath
  | some path =>
    cases hpath
    rfl

/-- Every variable of the CGI protocol has its value, whatever the headers are. -/
theorem getEnv_metaVariables {entry : Bytes × Bytes}
    (hentry : entry ∈ metaVariables c currentPath requestMethod scriptName pathInfo queryString) :
    getEnv (environ 0 (ch '=') (headers.map headerVariable ++
      metaVariables c currentPath requestMethod scriptName pathInfo queryString)) entry.1 =
        some (cStr entry.2) := by
  have hname := fst_mem_metaNames hentry
  obtain ⟨hsep, hzero⟩ := sep_notMem_metaNames entry.1 hname
  refine getenv_environ_of_forall (by decide) hsep hzero ?_ ?_
  · exact ⟨entry, List.mem_append_right _ hentry, says_iff.2 (.inl ⟨rfl, rfl⟩)⟩
  · intro other hother value htold
    rcases List.mem_append.1 hother with hheader | hmeta
    · obtain ⟨header, -, rfl⟩ := List.mem_map.1 hheader
      exact absurd htold (not_says_headerVariable hname header)
    · have hnodup : ((metaVariables c currentPath requestMethod scriptName pathInfo
          queryString).map Prod.fst).Nodup := by
        rw [map_fst_metaVariables]
        exact nodup_metaNames
      rcases says_iff.1 htold with ⟨heq, rfl⟩ | ⟨more, heq, -⟩
      · rw [List.inj_on_of_nodup_map hnodup hmeta hentry heq]
      · have hother' := (sep_notMem_metaNames other.1 (fst_mem_metaNames hmeta)).1
        rw [heq] at hother'
        exact absurd (List.mem_append_right _ List.mem_cons_self) hother'

/-- Under the name of a header only headers say anything. -/
theorem header_of_says {entry : Bytes × Bytes}
    (hentry : entry ∈ headers.map headerVariable ++
      metaVariables c currentPath requestMethod scriptName pathInfo queryString)
    (htold : Says 0 (ch '=') entry (bytes "HTTP_" ++ key) value) :
    ∃ header ∈ headers, Says 0 (ch '=') header key value := by
  rcases List.mem_append.1 hentry with hheader | hmeta
  · obtain ⟨header, hmem, rfl⟩ := List.mem_map.1 hheader
    exact ⟨header, hmem, says_append_iff.1 htold⟩
  · exact absurd htold (not_says_metaVariables (fst_mem_metaNames hmeta))

/-- **What a CGI is told**, in whatever order the headers are met: every variable of the CGI protocol has
the value that the server gives it. A header has its value under its name with the prefix `HTTP_` exactly
if every header whose name goes on after it with a `=` says the same; and what no header says is not
there. -/
theorem cgi_environment_iff (hmethod : c.requestMethod ≠ .none) (currentPath cgiExecvePath scriptName
    pathInfo queryString : Bytes) :
    (∀ headers requestMethod call, Map.Lists headers c.headers →
      c.getRequestMethodString = .ok requestMethod →
      execveChild headers (some currentPath) c cgiExecvePath scriptName pathInfo queryString = .ok call →
      ∀ entry ∈ metaVariables c currentPath requestMethod scriptName pathInfo queryString,
        getEnv call.envp entry.1 = some (cStr entry.2)) ∧
    (∀ key value, c.headers.lookup key = some value → ch '=' ∉ key → 0 ∉ key →
      ((∀ headers call, Map.Lists headers c.headers →
        execveChild headers (some currentPath) c cgiExecvePath scriptName pathInfo queryString = .ok call →
        getEnv call.envp (bytes "HTTP_" ++ key) = some (cStr value)) ↔
      ∀ more value', c.headers.lookup (key ++ ch '=' :: more) = some value' →
        cStr (more ++ ch '=' :: value') = cStr value)) ∧
    ∀ key, ch '=' ∉ key → 0 ∉ key → key ∉ c.headers →
      (∀ more, key ++ ch '=' :: more ∉ c.headers) → ∀ headers call, Map.Lists headers c.headers →
      execveChild headers (some currentPath) c cgiExecvePath scriptName pathInfo queryString = .ok call →
      getEnv call.envp (bytes "HTTP_" ++ key) = none := by
  have hhttp : ch '=' ∉ bytes "HTTP_" ∧ 0 ∉ bytes "HTTP_" := by decide +kernel
  have hname : ∀ {key : Bytes} {b : UInt8}, b ∉ bytes "HTTP_" → b ∉ key → b ∉ bytes "HTTP_" ++ key :=
    fun hstart hkey hmem => (List.mem_append.1 hmem).elim hstart hkey
  refine ⟨?_, fun key value hlookup hsep hzero => ⟨fun htold more value' hlookup' => ?_, ?_⟩, ?_⟩
  · intro headers requestMethod call _ hmethod' h entry hentry
    obtain ⟨requestMethod', currentPath', hmethod'', hpath, henvp⟩ := execveChild_ok h
    cases hmethod'.symm.trans hmethod''
    cases hpath
    rw [henvp]
    exact getEnv_metaVariables hentry
  · -- the other header may come first
    obtain ⟨headers, hlists⟩ := Map.exists_lists hlookup'
    obtain ⟨requestMethod, hrequest⟩ : ∃ requestMethod, c.getRequestMethodString = .ok requestMethod := by
      unfold Client.getRequestMethodString
      cases hcase : c.requestMethod with
      | none => exact absurd hcase hmethod
      | _ => exact ⟨_, rfl⟩
    obtain ⟨call, hcall⟩ : ∃ call, execveChild ((key ++ ch '=' :: more, value') :: headers)
        (some currentPath) c cgiExecvePath scriptName pathInfo queryString = .ok call := by
      rw [execveChild, hrequest]
      exact ⟨_, rfl⟩
    obtain ⟨_, _, _, _, henvp⟩ := execveChild_ok hcall
    have htold' := htold _ call hlists hcall
    rw [henvp] at htold'
    have htold : Says 0 (ch '=') (headerVariable (key ++ ch '=' :: more, value'))
        (bytes "HTTP_" ++ key) (cStr (more ++ ch '=' :: value')) :=
      says_append_iff.2 (.part key more value')
    have hfirst := getenv_environ_cons (by decide) (hname hhttp.1 hsep) (hname hhttp.2 hzero) htold
    exact Option.some.inj ((hfirst _).symm.trans htold')
  · intro hagree headers call hlists hcall
    obtain ⟨_, _, _, _, henvp⟩ := execveChild_ok hcall
    rw [henvp]
    refine getenv_environ_of_forall (by decide) (hname hhttp.1 hsep) (hname hhttp.2 hzero) ?_ ?_
    · refine ⟨headerVariable (key, value), List.mem_append_left _ ?_, says_append_iff.2 (.self key value)⟩
      exact List.mem_map_of_mem ((hlists.2 key value).2 hlookup)
    · intro entry hentry value' htold
      obtain ⟨header, hheader, htold'⟩ := header_of_says hentry htold
      cases htold' with
      | self _ value'' =>
        have hlookup' := (hlists.2 key value'').1 hheader
        rw [Option.some.inj (hlookup'.symm.trans hlookup)]
      | part _ more value'' => exact hagree more value'' ((hlists.2 _ value'').1 hheader)
  · intro key hsep hzero hnone hmore headers call hlists hcall
    obtain ⟨_, _, _, _, henvp⟩ := execveChild_ok hcall
    rw [henvp]
    refine getenv_environ_eq_none (by decide) (hname hhttp.1 hsep) (hname hhttp.2 hzero) ?_
    intro entry hentry value htold
    obtain ⟨header, hheader, htold'⟩ := header_of_says hentry htold
    cases htold' with
    | self _ value' => exact hnone (Map.mem_of_lookup ((hlists.2 key value').1 hheader))
    | part _ more value' => exact hmore more (Map.mem_of_lookup ((hlists.2 _ value').1 hheader))

/-- A client that has asked for a CGI. -/
def cgiClient : Client :=
  { Client.new 4 3 (bytes "80") 1000 with
    requestMethod := .get
    headers := (∅ : Headers).insert (bytes "HOST") (bytes "a") }

/-- The CGI that it has asked for is told the host of the request. -/
theorem cgi_environment_iff_host : ∃ call,
    execveChild [(bytes "HOST", bytes "a")] (some (bytes "/")) cgiClient (bytes "/bin/sh") (bytes "cgi/a")
      [] [] = .ok call ∧
    getEnv call.envp (bytes "HTTP_" ++ bytes "HOST") = some (bytes "a") := by
  have hhost : cgiClient.headers.lookup (bytes "HOST") = some (bytes "a") := Finmap.lookup_insert _
  have hempty : ∀ key, key ≠ bytes "HOST" → cgiClient.headers.lookup key = none := fun _ hne =>
    (Finmap.lookup_insert_of_ne _ hne).trans (Finmap.lookup_empty _)
  have hlists : Map.Lists [(bytes "HOST", bytes "a")] cgiClient.headers := by
    refine ⟨List.nodup_singleton _, fun key value => ?_⟩
    rw [List.mem_singleton, Prod.mk.injEq]
    by_cases hkey : key = bytes "HOST"
    · rw [hkey, hhost, Option.some.injEq]
      exact ⟨fun h => h.2.symm, fun h => ⟨rfl, h.symm⟩⟩
    · rw [hempty key hkey]
      exact ⟨fun h => absurd h.1 hkey, fun h => nomatch h⟩
  have hother : ∀ more value', cgiClient.headers.lookup (bytes "HOST" ++ ch '=' :: more) = some value' →
      cStr (more ++ ch '=' :: value') = cStr (bytes "a") := by
    intro more value' hlookup
    have hne : bytes "HOST" ++ ch '=' :: more ≠ bytes "HOST" := fun heq => by
      have hlength := congrArg List.length heq
      simp at hlength
    cases (hempty _ hne).symm.trans hlookup
  exact ⟨_, rfl, ((cgi_environment_iff (by decide +kernel) (bytes "/") (bytes "/bin/sh") (bytes "cgi/a") []
    []).2.1 (bytes "HOST") (bytes "a") hhost (by decide +kernel) (by decide +kernel)).2 hother _ _ hlists
    rfl⟩

end Server

end Webserv
