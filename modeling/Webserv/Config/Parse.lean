import Webserv.Config.Node
import Webserv.Foundations.Exec

/-!
# Reading a configuration

The constructor of `Config`: it reads the values of the JSON tree, and lists for every address that is
listened on the servers that listen on it. `getaddrinfo` is a parameter.
-/

namespace Webserv

open Search Utils

/-- `Config::ListenEntry`. -/
structure ListenEntry where
  address : Bytes
  port : Bytes

/-- `Config::BindInfo`, in network byte order. -/
structure BindInfo where
  sAddr : ℕ
  sinPort : ℕ
  deriving DecidableEq

/-- `Config::ServerDirective` with its `listen` entries. -/
structure ServerEntry extends ServerDirective where
  listen : List ListenEntry := []

/-- The members of `Config`. The map from addresses to servers is the list of its entries, in the
order of the addresses. -/
structure ParsedConfig where
  connectionQueueLength : ℕ
  clientMaxBodySize : ℕ
  pollTimeoutMs : ℕ
  clientTimeoutMs : ℕ
  servers : List ServerEntry
  bindInfoToServerIndices : List (BindInfo × List ℕ)

namespace Config

/-! ## The values at the root -/

/-- `std::numeric_limits<int>::max()`. -/
def intMax : ℕ := 2147483647

/-- The value of a key, if it is there. -/
def require (members : Members) (key : Bytes) (fault : ConfigFault) : Except ConfigFault Node :=
  match members.lookup key with
  | some value => .ok value
  | none => .error fault

/-- `Config::_parseConnectionQueueLength`. -/
def parseConnectionQueueLength (rootObject : Members) : Except ConfigFault ℕ := do
  let value ← require rootObject (bytes "connection_queue_length") .expectedConnectionQueueLength
  let connectionQueueLength ← value.getInteger
  if intMax < connectionQueueLength then throw .connectionQueueLengthIsGreaterThanIntMax
  else if connectionQueueLength < 1 then throw .connectionQueueLengthIsLessThanOne
  else pure connectionQueueLength

/-- `Config::_parseClientMaxBodySize`. -/
def parseClientMaxBodySize (rootObject : Members) : Except ConfigFault ℕ := do
  let value ← require rootObject (bytes "client_max_body_size") .expectedClientMaxBodySize
  value.getInteger

/-- What `_parsePollTimeoutMs` and `_parseClientTimeoutMs` do for a key. -/
def parseTimeoutMs (rootObject : Members) (key : Bytes) (expected tooSmall tooLarge : ConfigFault) :
    Except ConfigFault ℕ := do
  let value ← require rootObject key expected
  let timeoutMs ← value.getInteger
  if timeoutMs < 1 then throw tooSmall
  else if 10000 < timeoutMs then throw tooLarge
  else pure timeoutMs

/-- `Config::_parsePollTimeoutMs`. -/
def parsePollTimeoutMs (rootObject : Members) : Except ConfigFault ℕ :=
  parseTimeoutMs rootObject (bytes "poll_timeout_ms") .expectedPollTimeoutMs
    .pollTimeoutMsIsLessThan1 .pollTimeoutMsIsGreaterThan10000

/-- `Config::_parseClientTimeoutMs`. -/
def parseClientTimeoutMs (rootObject : Members) : Except ConfigFault ℕ :=
  parseTimeoutMs rootObject (bytes "client_timeout_ms") .expectedClientTimeoutMs
    .clientTimeoutMsIsLessThan1 .clientTimeoutMsIsGreaterThan10000

/-! ## The values of a server -/

/-- `Config::_parseListen`. -/
def parseListen (listenNode : Node) : Except ConfigFault ListenEntry := do
  let listen ← listenNode.getString
  match find (bytes ":") listen with
  | none => throw .listenColonIsRequired
  | some colonIndex =>
    if colonIndex = 0 then throw .missingAddressBeforePortColon
    else if colonIndex = listen.length - 1 then throw .noPortAfterColon
    else pure ⟨listen.take colonIndex, listen.drop (colonIndex + 1)⟩

/-- One round of the loop of `_parseLocation` over the properties. -/
def parseProperty (directive : LocationDirective) (property : Bytes × Node) :
    Except ConfigFault LocationDirective := do
  let key := property.1
  let value := property.2
  if key = bytes "cgi_execve_path" then
    pure { directive with cgiExecvePath := ← value.getString }
  else if key = bytes "get_allowed" then pure { directive with getAllowed := ← value.getBoolean }
  else if key = bytes "post_allowed" then pure { directive with postAllowed := ← value.getBoolean }
  else if key = bytes "delete_allowed" then
    pure { directive with deleteAllowed := ← value.getBoolean }
  else if key = bytes "autoindex" then pure { directive with autoindex := ← value.getBoolean }
  else if key = bytes "index" then pure { directive with index := ← value.getString }
  else if key = bytes "redirect" then pure { directive with redirect := ← value.getString }
  else if key = bytes "root" then pure { directive with root := ← value.getString }
  else throw .unknownKey

/-- `Config::_parseLocation`. The first character of an empty uri is its terminating zero. -/
def parseLocation (locationNode : Bytes × Node) : Except ConfigFault LocationDirective := do
  let locationObject ← locationNode.2.getObject
  let has := fun key => Members.contains locationObject (bytes key)
  if has "root" = false ∧ has "redirect" = false then throw .needEitherRootOrRedirect
  else if has "redirect" = true ∧ 1 < locationObject.length then
    throw .cantHaveOtherOtherPropertiesWithRedirect
  else if has "index" = true ∧ has "autoindex" = true then throw .cantHaveBothIndexAndAutoindex
  else if locationNode.1.head? ≠ some (ch '/') then throw .locationNeedsToStartWithSlash
  else locationObject.foldlM parseProperty { uri := locationNode.1, root := [] }

/-- The codes that may have an error page. -/
def errorPageCodes : List ℕ := [200, 301, 302, 400, 403, 404, 405, 413, 500]

/-- One round of the loop over the error pages. -/
def parseErrorPage (errorPages : Map ℕ Bytes) (member : Bytes × Node) :
    Except ConfigFault (Map ℕ Bytes) :=
  match parseNumber member.1 intMax with
  | (false, _) => throw .invalidErrorPageCode
  | (true, errorCode) => do
    let pagePath ← member.2.getString
    if errorCode ∉ errorPageCodes then throw .invalidErrorPageCode
    else pure (errorPages.emplace errorCode pagePath)

/-- One round of the loop over the members of a server. Every round checks for all the keys. -/
def parseServerMember (server : Members) (directive : ServerEntry) (member : Bytes × Node) :
    Except ConfigFault ServerEntry := do
  let has := fun key => Members.contains server (bytes key)
  if has "listen" = false then throw .expectedListen
  else if has "server_names" = false then throw .expectedServerNames
  else if has "locations" = false then throw .expectedLocations
  else if has "error_pages" = false then throw .expectedErrorPages
  else if member.1 = bytes "listen" then
    let listen ← (← member.2.getArray).mapM parseListen
    pure { directive with listen := directive.listen ++ listen }
  else if member.1 = bytes "server_names" then
    let serverNames ← (← member.2.getArray).mapM fun node => upper <$> node.getString
    pure { directive with serverNames := directive.serverNames ++ serverNames }
  else if member.1 = bytes "locations" then
    let locations ← (← member.2.getObject).mapM parseLocation
    pure { directive with locations := directive.locations ++ locations }
  else if member.1 = bytes "error_pages" then
    let errorPages ← (← member.2.getObject).foldlM parseErrorPage directive.errorPages
    pure { directive with errorPages := errorPages }
  else throw .unknownKey

/-- One round of the loop over the servers. -/
def parseServer (serverNode : Node) : Except ConfigFault ServerEntry := do
  let server ← serverNode.getObject
  server.foldlM (parseServerMember server) {}

/-! ## The addresses -/

/-- The order of the addresses. -/
def BindInfo.lt (bindInfo bindInfo' : BindInfo) : Prop :=
  bindInfo.sAddr < bindInfo'.sAddr ∨
    bindInfo.sAddr = bindInfo'.sAddr ∧ bindInfo.sinPort < bindInfo'.sinPort

instance (bindInfo bindInfo' : BindInfo) : Decidable (BindInfo.lt bindInfo bindInfo') :=
  inferInstanceAs (Decidable (_ ∨ _))

/-- `bind_info_to_server_indices[bind_info].push_back(server_index)`. -/
def pushIndex (bindInfo : BindInfo) (serverIndex : ℕ) :
    List (BindInfo × List ℕ) → List (BindInfo × List ℕ)
  | [] => [(bindInfo, [serverIndex])]
  | (b, indices) :: entries =>
    if BindInfo.lt bindInfo b then (bindInfo, [serverIndex]) :: (b, indices) :: entries
    else if bindInfo = b then (b, indices ++ [serverIndex]) :: entries
    else (b, indices) :: pushIndex bindInfo serverIndex entries

/-- The variables of `_fillBindInfoToServerIndices`: the map it fills, and the names it has seen on
every address. -/
structure Filling where
  entries : List (BindInfo × List ℕ) := []
  namesOfBindInfo : Finset (BindInfo × Bytes) := ∅

/-- The loop over the names of a server. -/
def addNames (bindInfo : BindInfo) :
    List Bytes → Finset (BindInfo × Bytes) → Except ConfigFault (Finset (BindInfo × Bytes))
  | [], names => .ok names
  | serverName :: serverNames, names =>
    if (bindInfo, serverName) ∈ names then .error .conflictingServerNameOnListen
    else addNames bindInfo serverNames (insert (bindInfo, serverName) names)

variable (getaddrinfo : Bytes → Bytes → Option BindInfo)

/-- The loop over the `listen` entries of a server. -/
def fillEntries (serverNames : List Bytes) (serverIndex : ℕ) :
    List ListenEntry → Finset BindInfo → Filling → Except ConfigFault Filling
  | [], _, filling => .ok filling
  | listenEntry :: listen, bindInfosInServer, filling =>
    match getaddrinfo listenEntry.address listenEntry.port with
    | none => .error .getAddrInfo
    | some bindInfo =>
      if bindInfo ∈ bindInfosInServer then .error .duplicateLocationInServer
      else do
        let names ← addNames bindInfo serverNames filling.namesOfBindInfo
        fillEntries serverNames serverIndex listen (insert bindInfo bindInfosInServer)
          { entries := pushIndex bindInfo serverIndex filling.entries, namesOfBindInfo := names }

/-- The loop over the servers. -/
def fillServers : List ServerEntry → ℕ → Filling → Except ConfigFault Filling
  | [], _, filling => .ok filling
  | server :: servers, serverIndex, filling => do
    let filling ← fillEntries getaddrinfo server.serverNames serverIndex server.listen ∅ filling
    fillServers servers (serverIndex + 1) filling

/-- `Config::_fillBindInfoToServerIndices`. -/
def fillBindInfoToServerIndices (servers : List ServerEntry) :
    Except ConfigFault (List (BindInfo × List ℕ)) :=
  Filling.entries <$> fillServers getaddrinfo servers 0 {}

/-- The constructor of `Config`. -/
def parse (root : Node) : Except ConfigFault ParsedConfig := do
  let rootObject ← root.getObject
  let connectionQueueLength ← parseConnectionQueueLength rootObject
  let clientMaxBodySize ← parseClientMaxBodySize rootObject
  let pollTimeoutMs ← parsePollTimeoutMs rootObject
  let clientTimeoutMs ← parseClientTimeoutMs rootObject
  let serversNode ← require rootObject (bytes "servers") .expectedServers
  let servers ← (← serversNode.getArray).mapM parseServer
  let bindInfoToServerIndices ← fillBindInfoToServerIndices getaddrinfo servers
  pure ⟨connectionQueueLength, clientMaxBodySize, pollTimeoutMs, clientTimeoutMs, servers,
    bindInfoToServerIndices⟩

/-- `ntohs`. -/
def ntohs (port : ℕ) : ℕ := port % 256 * 256 + port / 256

end Config

/-- What the server reads of the configuration. -/
def ParsedConfig.toConfig (config : ParsedConfig) : Config where
  clientMaxBodySize := config.clientMaxBodySize
  clientTimeoutMs := config.clientTimeoutMs
  servers := config.servers.map ServerEntry.toServerDirective
  bindInfos := config.bindInfoToServerIndices.map fun entry =>
    (decimal (Config.ntohs entry.1.sinPort), entry.2)

end Webserv
