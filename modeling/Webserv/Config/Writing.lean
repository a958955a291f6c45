import Webserv.Config.Conflicts
import Webserv.Config.Printing

/-!
# Writing a configuration

What a valid configuration is (`ParsedConfig.IsValid`), in terms of its values alone, and the tree and
the text that it can be written as. The tree is accepted and gives the configuration (`parse_tree`), and
it can be printed (`element_tree`).
-/

namespace Webserv

open Exec Search Utils

/-! ## Valid configurations -/

/-- A string that can be written between quotes. -/
def Quotable (s : Bytes) : Prop := ch '"' ∉ s

instance (s : Bytes) : Decidable (Quotable s) := inferInstanceAs (Decidable (_ ∉ s))

/-- What is listened on has an address, up to the first colon, and a port. -/
structure ListenEntry.IsValid (entry : ListenEntry) : Prop where
  address : entry.address ≠ []
  colon : ch ':' ∉ entry.address
  port : entry.port ≠ []
  quotable : Quotable entry.address ∧ Quotable entry.port

/-- A location starts with a slash, has nothing else if it redirects, and does not have both an index
file and an automatic index. -/
structure LocationDirective.IsValid (location : LocationDirective) : Prop where
  slash : location.uri.head? = some (ch '/')
  redirect : location.redirect ≠ [] →
    location = { uri := location.uri, redirect := location.redirect, root := [] }
  index : location.index ≠ [] → location.autoindex = false
  quotable : ∀ s ∈ [location.uri, location.cgiExecvePath, location.index, location.redirect,
    location.root], Quotable s

/-- A server has names in upper case, locations in order, and error pages for the codes that may have
one. -/
structure ServerEntry.IsValid (server : ServerEntry) : Prop where
  listen : ∀ entry ∈ server.listen, entry.IsValid
  serverNames : ∀ name ∈ server.serverNames, upper name = name ∧ Quotable name
  locations : ∀ location ∈ server.locations, location.IsValid
  inOrder : (server.locations.map LocationDirective.uri).Pairwise (· < ·)
  errorPages : ∀ code page, server.errorPages.lookup code = some page →
    code ∈ Config.errorPageCodes ∧ Quotable page

/-- A configuration has numbers in their ranges and valid servers, which go together. -/
structure ParsedConfig.IsValid (getaddrinfo : Bytes → Bytes → Option BindInfo)
    (config : ParsedConfig) : Prop where
  connectionQueueLength : 1 ≤ config.connectionQueueLength ∧
    config.connectionQueueLength ≤ Config.intMax
  clientMaxBodySize : config.clientMaxBodySize < sizeModulus
  pollTimeoutMs : 1 ≤ config.pollTimeoutMs ∧ config.pollTimeoutMs ≤ 10000
  clientTimeoutMs : 1 ≤ config.clientTimeoutMs ∧ config.clientTimeoutMs ≤ 10000
  servers : ∀ server ∈ config.servers, server.IsValid
  compatible : Config.Compatible getaddrinfo config.servers
  table : Config.IsTable getaddrinfo config.servers config.bindInfoToServerIndices

/-! ## Trees -/

/-- An entry of `listen`. -/
def ListenEntry.tree (entry : ListenEntry) : Node := .string (entry.address ++ bytes ":" ++ entry.port)

/-- A location, under its uri. -/
def LocationDirective.tree (location : LocationDirective) : Bytes × Node :=
  (location.uri, .object (
    if location.redirect ≠ [] then [(bytes "redirect", .string location.redirect)]
    else
      (if location.index ≠ [] then [] else [(bytes "autoindex", .boolean location.autoindex)]) ++
      [(bytes "cgi_execve_path", .string location.cgiExecvePath),
        (bytes "delete_allowed", .boolean location.deleteAllowed),
        (bytes "get_allowed", .boolean location.getAllowed)] ++
      (if location.index ≠ [] then [(bytes "index", .string location.index)] else []) ++
      [(bytes "post_allowed", .boolean location.postAllowed), (bytes "root", .string location.root)]))

/-- The error pages of the given codes, under these. -/
def errorPageMembers (errorPages : Map ℕ Bytes) (codes : List ℕ) : Members :=
  codes.filterMap fun code => (errorPages.lookup code).map fun page => (decimal code, .string page)

/-- The members of a server. -/
def ServerEntry.members (server : ServerEntry) : Members :=
  [(bytes "error_pages", .object (errorPageMembers server.errorPages Config.errorPageCodes)),
    (bytes "listen", .array (server.listen.map ListenEntry.tree)),
    (bytes "locations", .object (server.locations.map LocationDirective.tree)),
    (bytes "server_names", .array (server.serverNames.map .string))]

/-- A configuration. -/
def ParsedConfig.tree (config : ParsedConfig) : Node :=
  .object [(bytes "client_max_body_size", .integer config.clientMaxBodySize),
    (bytes "client_timeout_ms", .integer config.clientTimeoutMs),
    (bytes "connection_queue_length", .integer config.connectionQueueLength),
    (bytes "poll_timeout_ms", .integer config.pollTimeoutMs),
    (bytes "servers", .array (config.servers.map fun server => .object server.members))]

/-- The file that a configuration is written as. -/
def ParsedConfig.text (config : ParsedConfig) : Bytes := config.tree.text

/-! ## Valid configurations are accepted -/

namespace Config

variable {getaddrinfo : Bytes → Bytes → Option BindInfo}

/-- What is read back one by one is read back. -/
theorem mapM_map_ok {α β : Type} {f : α → β} {g : β → Except ConfigFault α} {l : List α}
    (h : ∀ a ∈ l, g (f a) = .ok a) : (l.map f).mapM g = .ok l := by
  induction l with
  | nil => rfl
  | cons a l ih =>
    obtain ⟨ha, hl⟩ := List.forall_mem_cons.1 h
    rw [List.map_cons, List.mapM_cons, ha, ih hl]
    rfl

theorem parseListen_tree {entry : ListenEntry} (h : entry.IsValid) :
    parseListen entry.tree = .ok entry := by
  have hfind : find (bytes ":") (entry.address ++ bytes ":" ++ entry.port) =
      some entry.address.length := by
    rw [List.append_assoc]
    exact find_singleton_append h.colon _
  have haddress := List.length_pos_iff.2 h.address
  have hport := List.length_pos_iff.2 h.port
  have hlength : (entry.address ++ bytes ":" ++ entry.port).length =
      entry.address.length + 1 + entry.port.length := by
    rw [List.length_append, List.length_append]
    rfl
  have htake : (entry.address ++ bytes ":" ++ entry.port).take entry.address.length = entry.address := by
    rw [List.append_assoc, List.take_left]
  have hdrop : (entry.address ++ bytes ":" ++ entry.port).drop (entry.address.length + 1) =
      entry.port := List.drop_left' (by rw [List.length_append]; rfl)
  have hbefore : entry.address.length ≠ (entry.address ++ bytes ":" ++ entry.port).length - 1 := by
    rw [hlength]
    omega
  have hstring : entry.tree.getString = .ok (entry.address ++ bytes ":" ++ entry.port) := rfl
  rw [parseListen, hstring, except_ok_bind]
  simp only [hfind, if_neg haddress.ne', if_neg hbefore, htake, hdrop]
  rfl

/-- The members that are checked first decide whether the others are read. -/
theorem parseLocation_eq {uri : Bytes} {members : Members} (hslash : uri.head? = some (ch '/'))
    (hroot : members.contains (bytes "root") = true ∨ members.contains (bytes "redirect") = true)
    (hredirect : members.contains (bytes "redirect") = false ∨ members.length ≤ 1)
    (hindex : members.contains (bytes "index") = false ∨ members.contains (bytes "autoindex") = false) :
    parseLocation (uri, .object members) = members.foldlM parseProperty { uri, root := [] } := by
  have hobject : (Node.object members).getObject = .ok members := rfl
  simp only [parseLocation, hobject, except_ok_bind]
  rw [if_neg, if_neg, if_neg, if_neg (not_not.2 hslash)]
  · rintro ⟨h, h'⟩
    rcases hindex with hindex | hindex
    · exact absurd (hindex.symm.trans h) Bool.false_ne_true
    · exact absurd (hindex.symm.trans h') Bool.false_ne_true
  · rintro ⟨h, h'⟩
    rcases hredirect with hredirect | hredirect
    · exact absurd (hredirect.symm.trans h) Bool.false_ne_true
    · omega
  · rintro ⟨h, h'⟩
    rcases hroot with hroot | hroot
    · exact absurd (h.symm.trans hroot) Bool.false_ne_true
    · exact absurd (h'.symm.trans hroot) Bool.false_ne_true

theorem parseLocation_tree {location : LocationDirective} (h : location.IsValid) :
    parseLocation location.tree = .ok location := by
  obtain ⟨hslash, hredirect, hindex, -⟩ := h
  obtain ⟨uri, cgiExecvePath, getAllowed, postAllowed, deleteAllowed, autoindex, index, redirect, root⟩ :=
    location
  by_cases hredirects : redirect = []
  · subst hredirects
    by_cases hindexed : index = []
    · subst hindexed
      exact (parseLocation_eq hslash (.inl rfl) (.inl rfl) (.inl rfl)).trans rfl
    · obtain rfl : autoindex = false := hindex hindexed
      rw [LocationDirective.tree, if_neg (not_not.2 rfl), if_pos hindexed, if_pos hindexed]
      exact (parseLocation_eq hslash (.inl rfl) (.inl rfl) (.inr rfl)).trans rfl
  · rw [hredirect hredirects, LocationDirective.tree, if_pos hredirects]
    exact (parseLocation_eq hslash (.inr rfl) (.inr le_rfl) (.inl rfl)).trans rfl

/-! ## Error pages -/

theorem parseErrorPage_decimal {errorPages : Map ℕ Bytes} {code : ℕ} (hcode : code ∈ errorPageCodes)
    (page : Bytes) :
    parseErrorPage errorPages (decimal code, .string page) = .ok (errorPages.emplace code page) := by
  have hrange : ∀ code ∈ errorPageCodes, 0 < code ∧ code ≤ intMax := by decide
  obtain ⟨hpos, hle⟩ := hrange code hcode
  rw [parseErrorPage, parseNumber_decimal hpos hle]
  exact if_neg (not_not.2 hcode)

/-- **The loop over the error pages** adds those of the codes to those that are there. -/
theorem foldlM_errorPageMembers {errorPages : Map ℕ Bytes} {codes : List ℕ} (hnodup : codes.Nodup)
    (hcodes : ∀ code ∈ codes, code ∈ errorPageCodes) {pages : Map ℕ Bytes}
    (hnew : ∀ code ∈ codes, pages.lookup code = none) :
    ∃ pages', (errorPageMembers errorPages codes).foldlM parseErrorPage pages = .ok pages' ∧
      ∀ code, pages'.lookup code =
        if code ∈ codes then errorPages.lookup code else pages.lookup code := by
  induction codes generalizing pages with
  | nil => exact ⟨pages, rfl, fun code => rfl⟩
  | cons code codes ih =>
    obtain ⟨hnotMem, hnodup⟩ := List.nodup_cons.1 hnodup
    obtain ⟨hcode, hcodes⟩ := List.forall_mem_cons.1 hcodes
    obtain ⟨hfirst, hnew⟩ := List.forall_mem_cons.1 hnew
    have hskip : ∀ code', code' ∈ codes → code' ≠ code := fun _ hmem heq => hnotMem (heq ▸ hmem)
    cases hpage : errorPages.lookup code with
    | none =>
      obtain ⟨pages', hfold, hlookup⟩ := ih hnodup hcodes hnew
      refine ⟨pages', by rwa [errorPageMembers, List.filterMap_cons, hpage], fun code' => ?_⟩
      rw [hlookup code']
      by_cases heq : code' = code
      · rw [heq, if_neg hnotMem, if_pos List.mem_cons_self, hfirst, hpage]
      · simp [heq]
    | some page =>
      have hemplace : pages.emplace code page = pages.insert code page :=
        Map.emplace_of_notMem (Finmap.lookup_eq_none.1 hfirst) page
      have hnew' : ∀ code' ∈ codes, (pages.insert code page).lookup code' = none := fun code' hmem => by
        rw [Map.lookup_insert_eq, if_neg (hskip code' hmem), hnew code' hmem]
      obtain ⟨pages', hfold, hlookup⟩ := ih hnodup hcodes hnew'
      refine ⟨pages', ?_, fun code' => ?_⟩
      · rw [errorPageMembers, List.filterMap_cons, hpage]
        exact (congrArg (· >>= _) (parseErrorPage_decimal hcode page)).trans (hemplace ▸ hfold)
      · rw [hlookup code', Map.lookup_insert_eq]
        by_cases heq : code' = code
        · rw [heq, if_neg hnotMem, if_pos rfl, if_pos List.mem_cons_self, hpage]
        · simp [heq]

/-- The error pages of a valid server are read back. -/
theorem foldlM_errorPages {server : ServerEntry} (h : server.IsValid) :
    (errorPageMembers server.errorPages errorPageCodes).foldlM parseErrorPage ∅ =
      .ok server.errorPages := by
  have hempty : ∀ code ∈ errorPageCodes, (∅ : Map ℕ Bytes).lookup code = none := fun _ _ => rfl
  obtain ⟨pages, hfold, hlookup⟩ := @foldlM_errorPageMembers server.errorPages errorPageCodes
    (by decide) (fun _ hcode => hcode) ∅ hempty
  rw [hfold]
  refine congrArg _ (Finmap.ext_lookup fun code => ?_)
  rw [hlookup code]
  split_ifs with hcode
  · rfl
  · cases hpage : server.errorPages.lookup code with
    | none => rfl
    | some page => exact absurd (h.errorPages code page hpage).1 hcode

/-! ## Servers -/

theorem parseServer_tree {server : ServerEntry} (h : server.IsValid) :
    parseServer (.object server.members) = .ok server := by
  have hlisten := mapM_map_ok fun entry hentry => parseListen_tree (h.listen entry hentry)
  have hlocations := mapM_map_ok fun location hlocation =>
    parseLocation_tree (h.locations location hlocation)
  have hnames : (server.serverNames.map Node.string).mapM (fun node => upper <$> node.getString) =
      .ok server.serverNames := by
    refine mapM_map_ok fun name hname => ?_
    exact congrArg Except.ok (h.serverNames name hname).1
  have hpages := foldlM_errorPages h
  have hfirst : parseServerMember server.members {}
      (bytes "error_pages", .object (errorPageMembers server.errorPages errorPageCodes)) =
      .ok { errorPages := server.errorPages } := by
    show ((errorPageMembers server.errorPages errorPageCodes).foldlM parseErrorPage ∅ >>= _) = _
    rw [hpages]
    rfl
  have hsecond : parseServerMember server.members { errorPages := server.errorPages }
      (bytes "listen", .array (server.listen.map ListenEntry.tree)) =
      .ok { errorPages := server.errorPages, listen := server.listen } := by
    show ((server.listen.map ListenEntry.tree).mapM parseListen >>= _) = _
    rw [hlisten]
    rfl
  have hthird : parseServerMember server.members
      { errorPages := server.errorPages, listen := server.listen }
      (bytes "locations", .object (server.locations.map LocationDirective.tree)) =
      .ok { errorPages := server.errorPages, listen := server.listen,
            locations := server.locations } := by
    show ((server.locations.map LocationDirective.tree).mapM parseLocation >>= _) = _
    rw [hlocations]
    rfl
  have hfourth : parseServerMember server.members
      { errorPages := server.errorPages, listen := server.listen, locations := server.locations }
      (bytes "server_names", .array (server.serverNames.map Node.string)) = .ok server := by
    show ((server.serverNames.map Node.string).mapM (fun node => upper <$> node.getString) >>= _) = _
    rw [hnames]
    rfl
  have hobject : (Node.object server.members).getObject = .ok server.members := rfl
  rw [parseServer, hobject, except_ok_bind]
  show List.foldlM (parseServerMember server.members) {} [_, _, _, _] = _
  rw [List.foldlM_cons, hfirst, except_ok_bind, List.foldlM_cons, hsecond, except_ok_bind,
    List.foldlM_cons, hthird, except_ok_bind, List.foldlM_cons, hfourth]
  rfl

/-- **The tree of a valid configuration is accepted** and gives it. -/
theorem parse_tree {config : ParsedConfig} (h : config.IsValid getaddrinfo) :
    parse getaddrinfo config.tree = .ok config := by
  obtain ⟨connectionQueueLength, clientMaxBodySize, pollTimeoutMs, clientTimeoutMs, servers, entries⟩ :=
    config
  obtain ⟨⟨hone, hmax⟩, -, ⟨hpoll, hpoll'⟩, ⟨hclient, hclient'⟩, hvalid, hcompatible, htable⟩ := h
  have hservers : (servers.map fun server => Node.object server.members).mapM parseServer = .ok servers :=
    mapM_map_ok fun server hserver => parseServer_tree (hvalid server hserver)
  have hentries : fillBindInfoToServerIndices getaddrinfo servers = .ok entries :=
    fillBindInfoToServerIndices_iff.2 ⟨hcompatible, htable⟩
  have htimeout : ∀ {members : Members} {key : Bytes} {expected tooSmall tooLarge : ConfigFault}
      {n : ℕ}, members.lookup key = some (.integer n) → 1 ≤ n → n ≤ 10000 →
      parseTimeoutMs members key expected tooSmall tooLarge = .ok n := by
    intro members key expected tooSmall tooLarge n hlookup hone hmax
    have hinteger : (Node.integer n).getInteger = .ok n := rfl
    rw [parseTimeoutMs, require, hlookup]
    simp only [except_ok_bind, hinteger, if_neg (Nat.not_lt.2 hone), if_neg (Nat.not_lt.2 hmax)]
    rfl
  have hqueue : ∀ {members : Members} {n : ℕ},
      members.lookup (bytes "connection_queue_length") = some (.integer n) → 1 ≤ n → n ≤ intMax →
      parseConnectionQueueLength members = .ok n := by
    intro members n hlookup hone hmax
    have hinteger : (Node.integer n).getInteger = .ok n := rfl
    rw [parseConnectionQueueLength, require, hlookup]
    simp only [except_ok_bind, hinteger, if_neg (Nat.not_lt.2 hone), if_neg (Nat.not_lt.2 hmax)]
    rfl
  have hsize : ∀ {members : Members} {n : ℕ},
      members.lookup (bytes "client_max_body_size") = some (.integer n) →
      parseClientMaxBodySize members = .ok n := by
    intro members n hlookup
    rw [parseClientMaxBodySize, require, hlookup]
    rfl
  have hrequire : ∀ {members : Members} {value : Node}, members.lookup (bytes "servers") = some value →
      require members (bytes "servers") .expectedServers = .ok value := by
    intro members value hlookup
    rw [require, hlookup]
  have hobject : ∀ {members : Members}, (Node.object members).getObject = .ok members := rfl
  have harray : ∀ {elements : List Node}, (Node.array elements).getArray = .ok elements := rfl
  rw [parse, ParsedConfig.tree, hobject, except_ok_bind, hqueue rfl hone hmax, except_ok_bind,
    hsize rfl, except_ok_bind, parsePollTimeoutMs, htimeout rfl hpoll hpoll', except_ok_bind,
    parseClientTimeoutMs, htimeout rfl hclient hclient', except_ok_bind, hrequire rfl, except_ok_bind,
    harray, except_ok_bind, hservers, except_ok_bind, hentries]
  rfl

/-! ## Valid configurations can be written -/

/-- Members whose keys are in order and can be written. -/
theorem element_of_keys {depth : ℕ} {members : Members} (keys : List Bytes)
    (hkeys : members.map Prod.fst = keys) (hsorted : keys.Pairwise (· < ·))
    (hquotable : ∀ key ∈ keys, ch '"' ∉ key)
    (h : ∀ member ∈ members, (∀ b, member.2 ≠ .boolean b) → Element depth member.2) :
    Element (depth + 1) (.object members) := by
  refine .object (hkeys ▸ hsorted : (members.map Prod.fst).Pairwise (· < ·)) (fun member hmember => ?_) h
  exact hquotable member.1 (hkeys ▸ List.mem_map_of_mem hmember)

theorem quotable_decimal (n : ℕ) : Quotable (decimal n) := by
  intro hquote
  have hdigit := (isNumeral_decimal n).digits _ hquote
  exact absurd hdigit (by decide)

theorem element_location {depth : ℕ} {location : LocationDirective} (h : location.IsValid) :
    Element (depth + 1) location.tree.2 := by
  have hstring : ∀ s ∈ [location.uri, location.cgiExecvePath, location.index, location.redirect,
      location.root], Element depth (.string s) := fun s hs => .string (h.quotable s hs)
  have hboolean : ∀ {b : Bool}, (∀ b', Node.boolean b ≠ .boolean b') → Element depth (.boolean b) :=
    fun hne => absurd rfl (hne _)
  simp only [List.forall_mem_cons, List.not_mem_nil, false_implies, implies_true, and_true] at hstring
  obtain ⟨-, hcgi, hindex, hredirect, hroot⟩ := hstring
  rw [LocationDirective.tree]
  split_ifs with hredirects hindexed
  · refine element_of_keys [bytes "redirect"] rfl (by decide +kernel) (by decide +kernel) ?_
    exact List.forall_mem_singleton.2 fun _ => hredirect
  · refine element_of_keys [bytes "cgi_execve_path", bytes "delete_allowed", bytes "get_allowed",
      bytes "index", bytes "post_allowed", bytes "root"] rfl (by decide +kernel) (by decide +kernel) ?_
    simp only [List.cons_append, List.nil_append, List.forall_mem_cons, List.not_mem_nil,
      false_implies, implies_true, and_true]
    exact ⟨fun _ => hcgi, hboolean, hboolean, fun _ => hindex, hboolean, fun _ => hroot⟩
  · refine element_of_keys [bytes "autoindex", bytes "cgi_execve_path", bytes "delete_allowed",
      bytes "get_allowed", bytes "post_allowed", bytes "root"] rfl (by decide +kernel)
      (by decide +kernel) ?_
    simp only [List.cons_append, List.nil_append, List.forall_mem_cons, List.not_mem_nil,
      false_implies, implies_true, and_true]
    exact ⟨hboolean, fun _ => hcgi, hboolean, hboolean, hboolean, fun _ => hroot⟩

/-- The keys of the error pages are among the codes that may have one. -/
theorem keys_errorPageMembers (errorPages : Map ℕ Bytes) (codes : List ℕ) :
    ((errorPageMembers errorPages codes).map Prod.fst).Sublist (codes.map decimal) := by
  induction codes with
  | nil => exact .slnil
  | cons code codes ih =>
    rw [errorPageMembers, List.filterMap_cons]
    cases errorPages.lookup code with
    | none => exact .cons _ ih
    | some page => exact .cons_cons _ ih

theorem element_errorPages {depth : ℕ} {server : ServerEntry} (h : server.IsValid) :
    Element (depth + 1) (.object (errorPageMembers server.errorPages errorPageCodes)) := by
  have hsublist := keys_errorPageMembers server.errorPages errorPageCodes
  have hsorted : (errorPageCodes.map decimal).Pairwise (· < ·) := by decide +kernel
  refine element_of_keys _ rfl (hsorted.sublist hsublist) (fun key hkey => ?_) fun member hmember _ => ?_
  · obtain ⟨code, -, rfl⟩ := List.mem_map.1 (hsublist.subset hkey)
    exact quotable_decimal code
  · obtain ⟨code, -, hpage⟩ := List.mem_filterMap.1 hmember
    obtain ⟨page, hlookup, rfl⟩ := Option.map_eq_some_iff.1 hpage
    exact .string (h.errorPages code page hlookup).2

theorem element_server {depth : ℕ} {server : ServerEntry} (h : server.IsValid) :
    Element (depth + 3) (.object server.members) := by
  have hlisten : Element (depth + 2) (.array (server.listen.map ListenEntry.tree)) := by
    refine .array fun node hnode => ?_
    obtain ⟨entry, hentry, rfl⟩ := List.mem_map.1 hnode
    obtain ⟨haddress, hport⟩ := (h.listen entry hentry).quotable
    refine .string fun hquote => ?_
    rw [List.mem_append, List.mem_append] at hquote
    rcases hquote with (hquote | hquote) | hquote
    · exact haddress hquote
    · exact absurd hquote (by decide)
    · exact hport hquote
  have hlocations : Element (depth + 2) (.object (server.locations.map LocationDirective.tree)) := by
    refine element_of_keys (server.locations.map LocationDirective.uri) (List.map_map ..) h.inOrder
      (fun key hkey => ?_) fun member hmember _ => ?_
    · obtain ⟨location, hlocation, rfl⟩ := List.mem_map.1 hkey
      exact (h.locations location hlocation).quotable _ List.mem_cons_self
    · obtain ⟨location, hlocation, rfl⟩ := List.mem_map.1 hmember
      exact element_location (h.locations location hlocation)
  have hnames : Element (depth + 2) (.array (server.serverNames.map .string)) := by
    refine .array fun node hnode => ?_
    obtain ⟨name, hname, rfl⟩ := List.mem_map.1 hnode
    exact .string (h.serverNames name hname).2
  refine element_of_keys [bytes "error_pages", bytes "listen", bytes "locations", bytes "server_names"]
    rfl (by decide +kernel) (by decide +kernel) ?_
  simp only [ServerEntry.members, List.forall_mem_cons, List.not_mem_nil, false_implies, implies_true,
    and_true]
  exact ⟨fun _ => element_errorPages h, fun _ => hlisten, fun _ => hlocations, fun _ => hnames⟩

/-- **The tree of a valid configuration can be written.** -/
theorem element_tree {config : ParsedConfig} (h : config.IsValid getaddrinfo) :
    Element 5 config.tree := by
  have hservers : Element 4 (.array (config.servers.map fun server => .object server.members)) := by
    refine .array fun node hnode => ?_
    obtain ⟨server, hserver, rfl⟩ := List.mem_map.1 hnode
    exact element_server (h.servers server hserver)
  have hmax : intMax < sizeModulus := by decide
  have hsmall : 10000 < sizeModulus := by decide
  refine element_of_keys [bytes "client_max_body_size", bytes "client_timeout_ms",
    bytes "connection_queue_length", bytes "poll_timeout_ms", bytes "servers"] rfl (by decide +kernel)
    (by decide +kernel) ?_
  simp only [List.forall_mem_cons, List.not_mem_nil, false_implies, implies_true, and_true]
  exact ⟨fun _ => .integer h.clientMaxBodySize,
    fun _ => .integer (h.clientTimeoutMs.2.trans_lt hsmall),
    fun _ => .integer (h.connectionQueueLength.2.trans_lt hmax),
    fun _ => .integer (h.pollTimeoutMs.2.trans_lt hsmall), fun _ => hservers⟩

end Config

end Webserv
