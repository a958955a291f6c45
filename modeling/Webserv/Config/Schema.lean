import Webserv.Config.Parse

/-!
# The documented schema

What `webserv_schema.json` says of a configuration (`Conforms`). `Config` is laxer in two ways: it does
not look at other keys of the root, and it checks the keys of a server only while it goes through them,
so it takes a server without any. Nothing else that it accepts violates the schema (`conforms_iff`).
-/

namespace Webserv

open Exec Search Utils

namespace Config

/-! ## The schema -/

/-- An object has exactly the given keys. -/
def HasKeys (members : Members) (keys : List Bytes) : Prop :=
  ∀ key, members.contains key = true ↔ key ∈ keys

/-- The keys of the root. -/
def rootKeys : List Bytes :=
  [bytes "connection_queue_length", bytes "client_max_body_size", bytes "poll_timeout_ms",
    bytes "client_timeout_ms", bytes "servers"]

/-- The keys of a server. -/
def serverKeys : List Bytes :=
  [bytes "listen", bytes "server_names", bytes "locations", bytes "error_pages"]

/-- The properties of a location that are strings. -/
def stringProperties : List Bytes :=
  [bytes "cgi_execve_path", bytes "index", bytes "redirect", bytes "root"]

/-- The properties of a location that are booleans. -/
def booleanProperties : List Bytes :=
  [bytes "get_allowed", bytes "post_allowed", bytes "delete_allowed", bytes "autoindex"]

/-- An array of strings. -/
def IsStrings (node : Node) : Prop :=
  ∃ elements, node = .array elements ∧ ∀ element ∈ elements, ∃ s, element = .string s

/-- A property of a location is known, and has a value of its type. -/
def IsProperty (property : Bytes × Node) : Prop :=
  (property.1 ∈ stringProperties ∧ ∃ s, property.2 = .string s) ∨
    (property.1 ∈ booleanProperties ∧ ∃ b, property.2 = .boolean b)

/-- A location starts with a slash, and has either a root or nothing but a redirect, and not both an
index file and an automatic index. -/
structure IsLocation (location : Bytes × Node) : Prop where
  slash : location.1.head? = some (ch '/')
  object : ∃ members, location.2 = .object members ∧
    (∀ property ∈ members, IsProperty property) ∧
    Xor (Members.contains members (bytes "root") = true)
      (Members.contains members (bytes "redirect") = true) ∧
    (Members.contains members (bytes "redirect") = true → HasKeys members [bytes "redirect"]) ∧
    ¬ (Members.contains members (bytes "index") = true ∧
      Members.contains members (bytes "autoindex") = true)

/-- The key of an error page is a number that is not zero, and its value is a string. -/
structure IsErrorPage (errorPage : Bytes × Node) : Prop where
  ne_nil : errorPage.1 ≠ []
  digits : ∀ b ∈ errorPage.1, ch '0' ≤ b ∧ b ≤ ch '9'
  leading : errorPage.1.head? ≠ some (ch '0')
  value : ∃ s, errorPage.2 = .string s

/-- A server. -/
structure IsServer (server : Node) : Prop where
  object : ∃ members, server = .object members ∧ HasKeys members serverKeys ∧
    (∃ listen, members.lookup (bytes "listen") = some listen ∧ IsStrings listen) ∧
    (∃ names, members.lookup (bytes "server_names") = some names ∧ IsStrings names) ∧
    (∃ locations, members.lookup (bytes "locations") = some (.object locations) ∧
      ∀ location ∈ locations, IsLocation location) ∧
    ∃ errorPages, members.lookup (bytes "error_pages") = some (.object errorPages) ∧
      ∀ errorPage ∈ errorPages, IsErrorPage errorPage

/-- A configuration. -/
structure Conforms (root : Node) : Prop where
  object : ∃ members, root = .object members ∧ HasKeys members rootKeys ∧
    (∃ n, members.lookup (bytes "connection_queue_length") = some (.integer n) ∧ 1 ≤ n) ∧
    (∃ n, members.lookup (bytes "client_max_body_size") = some (.integer n)) ∧
    (∃ n, members.lookup (bytes "poll_timeout_ms") = some (.integer n) ∧ 1 ≤ n ∧ n ≤ 10000) ∧
    (∃ n, members.lookup (bytes "client_timeout_ms") = some (.integer n) ∧ 1 ≤ n ∧ n ≤ 10000) ∧
    ∃ servers, members.lookup (bytes "servers") = some (.array servers) ∧
      ∀ server ∈ servers, IsServer server

/-! ## Loops -/

theorem mapM_ok {α β : Type} {f : α → Except ConfigFault β} {l : List α} {l' : List β}
    (h : l.mapM f = .ok l') : ∀ a ∈ l, ∃ b, f a = .ok b := by
  induction l generalizing l' with
  | nil => simp
  | cons a l ih =>
    rw [List.mapM_cons] at h
    obtain ⟨b, hb, h⟩ := except_bind_eq_ok h
    obtain ⟨bs, hbs, -⟩ := except_bind_eq_ok h
    intro a' ha'
    rcases List.mem_cons.1 ha' with rfl | ha'
    · exact ⟨b, hb⟩
    · exact ih hbs a' ha'

theorem foldlM_ok {α β : Type} {f : β → α → Except ConfigFault β} {l : List α} {b b' : β}
    (h : l.foldlM f b = .ok b') : ∀ a ∈ l, ∃ c c', f c a = .ok c' := by
  induction l generalizing b with
  | nil => simp
  | cons a l ih =>
    rw [List.foldlM_cons] at h
    obtain ⟨c, hc, h⟩ := except_bind_eq_ok h
    intro a' ha'
    rcases List.mem_cons.1 ha' with rfl | ha'
    · exact ⟨b, c, hc⟩
    · exact ih h a' ha'

/-! ## What is accepted -/

theorem mem_of_lookup {members : Members} {key : Bytes} {value : Node}
    (h : members.lookup key = some value) : (key, value) ∈ members := by
  obtain ⟨before, after, rfl, -⟩ := List.lookup_eq_some_iff.1 h
  simp

theorem contains_of_mem {members : Members} {member : Bytes × Node} (h : member ∈ members) :
    members.contains member.1 = true := by
  rw [Members.contains, List.lookup_isSome_iff]
  exact ⟨member, h, by simp⟩

theorem exists_of_contains {members : Members} {key : Bytes} (h : members.contains key = true) :
    ∃ value, members.lookup key = some value := Option.isSome_iff_exists.1 h

theorem require_ok {members : Members} {key : Bytes} {fault : ConfigFault} {value : Node}
    (h : require members key fault = .ok value) : members.lookup key = some value := by
  rw [require] at h
  split at h
  · cases h
    assumption
  · cases h

theorem parseProperty_ok {directive directive' : LocationDirective} {property : Bytes × Node}
    (h : parseProperty directive property = .ok directive') : IsProperty property := by
  have hstring : ∀ {f : Bytes → LocationDirective}, property.1 ∈ stringProperties →
      (do pure (f (← property.2.getString)) : Except ConfigFault _) = .ok directive' →
      IsProperty property := by
    intro f hkey h
    obtain ⟨s, hs, -⟩ := except_bind_eq_ok h
    exact .inl ⟨hkey, s, Node.getString_ok hs⟩
  have hboolean : ∀ {f : Bool → LocationDirective}, property.1 ∈ booleanProperties →
      (do pure (f (← property.2.getBoolean)) : Except ConfigFault _) = .ok directive' →
      IsProperty property := by
    intro f hkey h
    obtain ⟨b, hb, -⟩ := except_bind_eq_ok h
    exact .inr ⟨hkey, b, Node.getBoolean_ok hb⟩
  unfold parseProperty at h
  dsimp only at h
  split_ifs at h with h₁ h₂ h₃ h₄ h₅ h₆ h₇ h₈
  · exact hstring (by simp [h₁, stringProperties]) h
  · exact hboolean (by simp [h₂, booleanProperties]) h
  · exact hboolean (by simp [h₃, booleanProperties]) h
  · exact hboolean (by simp [h₄, booleanProperties]) h
  · exact hboolean (by simp [h₅, booleanProperties]) h
  · exact hstring (by simp [h₆, stringProperties]) h
  · exact hstring (by simp [h₇, stringProperties]) h
  · exact hstring (by simp [h₈, stringProperties]) h

theorem hasKeys_singleton {members : Members} {key : Bytes} (hkey : members.contains key = true)
    (hlength : members.length ≤ 1) : HasKeys members [key] := by
  obtain ⟨value, hvalue⟩ := exists_of_contains hkey
  have hmem := mem_of_lookup hvalue
  obtain ⟨member, rfl⟩ : ∃ member, members = [member] := by
    have hpos := List.length_pos_of_mem hmem
    exact List.length_eq_one_iff.1 (by omega)
  obtain rfl := List.mem_singleton.1 hmem
  intro key'
  simp only [Members.contains, List.mem_singleton]
  by_cases heq : key' = key
  · simp [heq]
  · simp [heq]

theorem parseLocation_ok {locationNode : Bytes × Node} {directive : LocationDirective}
    (h : parseLocation locationNode = .ok directive) : IsLocation locationNode := by
  obtain ⟨members, hobject, h⟩ := except_bind_eq_ok h
  dsimp only at h
  split_ifs at h with hneither hother hboth hslash
  have hredirect : Members.contains members (bytes "redirect") = true →
      HasKeys members [bytes "redirect"] := by
    intro hkey
    refine hasKeys_singleton hkey (not_lt.1 fun hlt => hother ⟨hkey, hlt⟩)
  refine ⟨not_not.1 hslash, members, Node.getObject_ok hobject, ?_, ?_, hredirect, hboth⟩
  · intro property hproperty
    obtain ⟨d, d', hd⟩ := foldlM_ok h property hproperty
    exact parseProperty_ok hd
  · by_cases hkey : Members.contains members (bytes "redirect") = true
    · refine .inr ⟨hkey, fun hroot => ?_⟩
      have hsame := (hredirect hkey (bytes "root")).1 hroot
      exact absurd hsame (by decide +kernel)
    · refine .inl ⟨?_, hkey⟩
      by_contra hroot
      exact hneither ⟨by simpa using hroot, by simpa using hkey⟩

/-! ## Error pages -/

theorem parseDigits_ok {max number n : ℕ} {s : Bytes} (h : parseDigits max s number = (true, n)) :
    ∀ b ∈ s, ch '0' ≤ b ∧ b ≤ ch '9' := by
  induction s generalizing number with
  | nil => simp
  | cons b s ih =>
    rw [parseDigits] at h
    dsimp only at h
    split_ifs at h with hrange
    · cases h
    · cases h
    · cases h
    · rw [not_or, UInt8.not_lt, UInt8.not_lt] at hrange
      intro b' hb'
      rcases List.mem_cons.1 hb' with rfl | hb'
      · exact hrange
      · exact ih h b' hb'

theorem parseErrorPage_ok {errorPages errorPages' : Map ℕ Bytes} {member : Bytes × Node}
    (h : parseErrorPage errorPages member = .ok errorPages') : IsErrorPage member := by
  unfold parseErrorPage at h
  split at h
  · cases h
  · rename_i errorCode hnumber
    obtain ⟨pagePath, hpath, h⟩ := except_bind_eq_ok h
    split_ifs at h with hcode
    have hdigits : parseDigits intMax member.1 0 = (true, errorCode) := by
      rw [parseNumber] at hnumber
      split_ifs at hnumber
      · cases hnumber
      · exact hnumber
    have hzero : errorCode ≠ 0 := by
      rintro rfl
      exact absurd hcode (by decide)
    refine ⟨?_, parseDigits_ok hdigits, fun hleading => hzero ?_, pagePath, Node.getString_ok hpath⟩
    · intro hnil
      rw [hnil] at hdigits
      exact hzero (Prod.mk.inj hdigits).2.symm
    · -- a number that starts with a zero is zero
      obtain ⟨rest, hrest⟩ := List.head?_eq_some_iff.1 hleading
      have hshort : ¬ (2 ≤ member.1.length ∧ member.1.head? = some (ch '0')) := by
        intro hlong
        rw [parseNumber, if_pos hlong] at hnumber
        cases hnumber
      rw [hrest] at hshort hdigits
      cases rest with
      | nil => exact (Prod.mk.inj hdigits).2.symm
      | cons b rest => exact absurd ⟨by simp, by simp⟩ hshort

/-! ## Servers -/

theorem isStrings_of_mapM {node : Node} {elements : List Node} (harray : node = .array elements)
    {α : Type} {f : Node → Except ConfigFault α}
    (hf : ∀ element a, f element = .ok a → ∃ s, element.getString = .ok s) {as : List α}
    (h : elements.mapM f = .ok as) : IsStrings node := by
  refine ⟨elements, harray, fun element helement => ?_⟩
  obtain ⟨a, ha⟩ := mapM_ok h element helement
  obtain ⟨s, hs⟩ := hf element a ha
  exact ⟨s, Node.getString_ok hs⟩

/-- What is known of a member of a server that is accepted. -/
structure IsServerMember (member : Bytes × Node) : Prop where
  key : member.1 ∈ serverKeys
  listen : member.1 = bytes "listen" → IsStrings member.2
  serverNames : member.1 = bytes "server_names" → IsStrings member.2
  locations : member.1 = bytes "locations" →
    ∃ locations, member.2 = .object locations ∧ ∀ location ∈ locations, IsLocation location
  errorPages : member.1 = bytes "error_pages" →
    ∃ errorPages, member.2 = .object errorPages ∧ ∀ errorPage ∈ errorPages, IsErrorPage errorPage

theorem parseServerMember_ok {server : Members} {directive directive' : ServerEntry}
    {member : Bytes × Node} (h : parseServerMember server directive member = .ok directive') :
    (∀ key ∈ serverKeys, server.contains key = true) ∧ IsServerMember member := by
  have hne : ∀ {key key' : Bytes} {p : Prop}, member.1 = key → key ≠ key' → member.1 = key' → p :=
    fun hkey hne hkey' => absurd (hkey.symm.trans hkey') hne
  unfold parseServerMember at h
  dsimp only at h
  split_ifs at h with h₁ h₂ h₃ h₄ hlisten hnames hlocations hpages
  all_goals
    refine ⟨?_, ?_⟩
    · simp only [serverKeys, List.forall_mem_cons, List.not_mem_nil, false_implies, implies_true,
        and_true]
      exact ⟨by simpa using h₁, by simpa using h₂, by simpa using h₃, by simpa using h₄⟩
  · obtain ⟨elements, harray, h⟩ := except_bind_eq_ok h
    obtain ⟨listen, hmap, -⟩ := except_bind_eq_ok h
    refine ⟨by simp [hlisten, serverKeys], fun _ => ?_, hne hlisten (by decide +kernel),
      hne hlisten (by decide +kernel), hne hlisten (by decide +kernel)⟩
    refine isStrings_of_mapM (Node.getArray_ok harray) (fun element entry hentry => ?_) hmap
    obtain ⟨s, hs, -⟩ := except_bind_eq_ok hentry
    exact ⟨s, hs⟩
  · obtain ⟨elements, harray, h⟩ := except_bind_eq_ok h
    obtain ⟨names, hmap, -⟩ := except_bind_eq_ok h
    refine ⟨by simp [hnames, serverKeys], hne hnames (by decide +kernel), fun _ => ?_,
      hne hnames (by decide +kernel), hne hnames (by decide +kernel)⟩
    refine isStrings_of_mapM (Node.getArray_ok harray) (fun element name hname => ?_) hmap
    cases hs : element.getString with
    | error e =>
      rw [hs] at hname
      cases hname
    | ok s => exact ⟨s, rfl⟩
  · obtain ⟨members, hobject, h⟩ := except_bind_eq_ok h
    obtain ⟨locations, hmap, -⟩ := except_bind_eq_ok h
    refine ⟨by simp [hlocations, serverKeys], hne hlocations (by decide +kernel),
      hne hlocations (by decide +kernel), fun _ => ⟨members, Node.getObject_ok hobject, ?_⟩,
      hne hlocations (by decide +kernel)⟩
    intro location hlocation
    obtain ⟨directive, hdirective⟩ := mapM_ok hmap location hlocation
    exact parseLocation_ok hdirective
  · obtain ⟨members, hobject, h⟩ := except_bind_eq_ok h
    obtain ⟨errorPages, hfold, -⟩ := except_bind_eq_ok h
    refine ⟨by simp [hpages, serverKeys], hne hpages (by decide +kernel),
      hne hpages (by decide +kernel), hne hpages (by decide +kernel),
      fun _ => ⟨members, Node.getObject_ok hobject, ?_⟩⟩
    intro errorPage hpage
    obtain ⟨pages, pages', hpages'⟩ := foldlM_ok hfold errorPage hpage
    exact parseErrorPage_ok hpages'

/-- A server that is accepted conforms, if it has any key. -/
theorem parseServer_ok {serverNode : Node} {server : ServerEntry}
    (h : parseServer serverNode = .ok server) (hne : serverNode ≠ .object []) :
    IsServer serverNode := by
  obtain ⟨members, hobject, h⟩ := except_bind_eq_ok h
  obtain rfl := Node.getObject_ok hobject
  have hmembers : ∀ member ∈ members,
      (∀ key ∈ serverKeys, Members.contains members key = true) ∧ IsServerMember member := by
    intro member hmember
    obtain ⟨d, d', hd⟩ := foldlM_ok h member hmember
    exact parseServerMember_ok hd
  obtain ⟨first, hfirst⟩ := List.exists_mem_of_ne_nil members fun hnil => hne (by rw [hnil])
  have hkeys := (hmembers first hfirst).1
  have hvalue : ∀ key ∈ serverKeys, ∃ value, members.lookup key = some value ∧
      IsServerMember (key, value) := by
    intro key hkey
    obtain ⟨value, hvalue⟩ := exists_of_contains (hkeys key hkey)
    exact ⟨value, hvalue, (hmembers _ (mem_of_lookup hvalue)).2⟩
  refine ⟨members, rfl, fun key => ⟨fun hkey => ?_, hkeys key⟩, ?_, ?_, ?_, ?_⟩
  · obtain ⟨value, hlookup⟩ := exists_of_contains hkey
    exact (hmembers _ (mem_of_lookup hlookup)).2.key
  · obtain ⟨value, hlookup, hmember⟩ := hvalue (bytes "listen") (by simp [serverKeys])
    exact ⟨value, hlookup, hmember.listen rfl⟩
  · obtain ⟨value, hlookup, hmember⟩ := hvalue (bytes "server_names") (by simp [serverKeys])
    exact ⟨value, hlookup, hmember.serverNames rfl⟩
  · obtain ⟨value, hlookup, hmember⟩ := hvalue (bytes "locations") (by simp [serverKeys])
    obtain ⟨locations, hobject, hall⟩ := hmember.locations rfl
    exact ⟨locations, by rw [hlookup, ← hobject], hall⟩
  · obtain ⟨value, hlookup, hmember⟩ := hvalue (bytes "error_pages") (by simp [serverKeys])
    obtain ⟨errorPages, hobject, hall⟩ := hmember.errorPages rfl
    exact ⟨errorPages, by rw [hlookup, ← hobject], hall⟩

/-! ## The root -/

theorem parseTimeoutMs_ok {members : Members} {key : Bytes}
    {expected tooSmall tooLarge : ConfigFault} {n : ℕ}
    (h : parseTimeoutMs members key expected tooSmall tooLarge = .ok n) :
    members.lookup key = some (.integer n) ∧ 1 ≤ n ∧ n ≤ 10000 := by
  obtain ⟨value, hvalue, h⟩ := except_bind_eq_ok h
  obtain ⟨m, hm, h⟩ := except_bind_eq_ok h
  split_ifs at h with hsmall hlarge
  cases h
  exact ⟨by rw [require_ok hvalue, Node.getInteger_ok hm], by omega, by omega⟩

/-- **When an accepted configuration conforms to the schema**: exactly if the root has no other keys
and no server is empty. -/
theorem conforms_iff {getaddrinfo : Bytes → Bytes → Option BindInfo} {root : Node}
    {config : ParsedConfig} (h : parse getaddrinfo root = .ok config) :
    Conforms root ↔ ∃ members, root = .object members ∧
      (∀ key, Members.contains members key = true → key ∈ rootKeys) ∧
      ∀ servers, members.lookup (bytes "servers") = some (.array servers) →
        .object [] ∉ servers := by
  constructor
  · rintro ⟨members, rfl, hkeys, -, -, -, -, servers, hlookup, hall⟩
    refine ⟨members, rfl, fun key hkey => (hkeys key).1 hkey, fun servers' hlookup' hmem => ?_⟩
    obtain rfl : servers = servers' := by
      rw [hlookup] at hlookup'
      exact Node.array.inj (Option.some.inj hlookup')
    obtain ⟨members', hobject, hkeys', -⟩ := hall _ hmem
    obtain rfl := Node.object.inj hobject
    exact absurd ((hkeys' (bytes "listen")).2 (by simp [serverKeys])) (by simp [Members.contains])
  · rintro ⟨members, rfl, hroot, hservers⟩
    obtain ⟨_, ⟨⟩, h⟩ := except_bind_eq_ok h
    obtain ⟨connectionQueueLength, hqueue, h⟩ := except_bind_eq_ok h
    obtain ⟨clientMaxBodySize, hsize, h⟩ := except_bind_eq_ok h
    obtain ⟨pollTimeoutMs, hpoll, h⟩ := except_bind_eq_ok h
    obtain ⟨clientTimeoutMs, hclient, h⟩ := except_bind_eq_ok h
    obtain ⟨serversNode, hnode, h⟩ := except_bind_eq_ok h
    obtain ⟨servers, harray, h⟩ := except_bind_eq_ok h
    obtain ⟨entries, hmap, -⟩ := except_bind_eq_ok h
    have hlookup : members.lookup (bytes "servers") = some (.array servers) := by
      rw [require_ok hnode, Node.getArray_ok harray]
    obtain ⟨queueNode, hqueueNode, hqueue⟩ := except_bind_eq_ok hqueue
    obtain ⟨n, hn, hqueue⟩ := except_bind_eq_ok hqueue
    split_ifs at hqueue with hlarge hsmall
    obtain ⟨sizeNode, hsizeNode, hsize⟩ := except_bind_eq_ok hsize
    have hpoll' := parseTimeoutMs_ok hpoll
    have hclient' := parseTimeoutMs_ok hclient
    refine ⟨members, rfl, fun key => ⟨hroot key, fun hkey => ?_⟩, ⟨n, ?_, by omega⟩,
      ⟨clientMaxBodySize, ?_⟩, ⟨_, hpoll'⟩, ⟨_, hclient'⟩, servers, hlookup, ?_⟩
    · have hcontains : ∀ {value}, members.lookup key = some value → Members.contains members key = true :=
        fun hvalue => by rw [Members.contains, hvalue]; rfl
      simp only [rootKeys, List.mem_cons, List.not_mem_nil, or_false] at hkey
      rcases hkey with rfl | rfl | rfl | rfl | rfl
      · exact hcontains (require_ok hqueueNode)
      · exact hcontains (require_ok hsizeNode)
      · exact hcontains hpoll'.1
      · exact hcontains hclient'.1
      · exact hcontains hlookup
    · rw [require_ok hqueueNode, Node.getInteger_ok hn]
    · rw [require_ok hsizeNode, Node.getInteger_ok hsize]
    · intro server hserver
      obtain ⟨entry, hentry⟩ := mapM_ok hmap server hserver
      refine parseServer_ok hentry fun hempty => ?_
      exact hservers servers hlookup (hempty ▸ hserver)

/-! ## Trees -/

/-- A configuration with the given servers, and more members at the end. -/
def smallTree (servers : List Node) (more : Members) : Node :=
  .object ([(bytes "client_max_body_size", .integer 1000), (bytes "client_timeout_ms", .integer 1000),
    (bytes "connection_queue_length", .integer 10), (bytes "poll_timeout_ms", .integer 1000),
    (bytes "servers", .array servers)] ++ more)

/-- A server that listens on one address. -/
def smallServer : Node :=
  .object [(bytes "error_pages", .object [(bytes "404", .string (bytes "404.html"))]),
    (bytes "listen", .array [.string (bytes "localhost:8080")]),
    (bytes "locations", .object [(bytes "/", .object [(bytes "get_allowed", .boolean true),
      (bytes "root", .string (bytes "public"))])]),
    (bytes "server_names", .array [.string (bytes "a")])]

/-- An address for every name. -/
def someAddress : Bytes → Bytes → Option BindInfo := fun address port =>
  some ⟨address.length, port.length⟩

theorem exists_parse (root : Node) (h : (parse someAddress root).isOk = true) :
    ∃ config, parse someAddress root = .ok config := by
  cases hparse : parse someAddress root with
  | error e =>
    rw [hparse] at h
    cases h
  | ok config => exact ⟨config, rfl⟩

theorem conforms_iff_smallServer :
    ∃ config, parse someAddress (smallTree [smallServer] []) = .ok config ∧
      Conforms (smallTree [smallServer] []) := by
  obtain ⟨config, h⟩ := exists_parse (smallTree [smallServer] []) (by decide +kernel)
  refine ⟨config, h, (conforms_iff h).2 ⟨_, rfl, fun key hkey => ?_, fun servers hlookup => ?_⟩⟩
  · obtain ⟨value, hvalue⟩ := exists_of_contains hkey
    have hmem := List.mem_map_of_mem (f := Prod.fst) (mem_of_lookup hvalue)
    revert hmem
    simp only [List.append_nil, List.map_cons, List.map_nil, rootKeys, List.mem_cons, List.not_mem_nil,
      or_false]
    tauto
  · have hservers : servers = [smallServer] := by
      have hsame : some (Node.array [smallServer]) = some (.array servers) := hlookup
      exact (Node.array.inj (Option.some.inj hsame)).symm
    simp [hservers, smallServer]

/-- A server without keys, and a key at the root that is not known, are accepted. -/
theorem not_conforms_emptyServer :
    (∃ config, parse someAddress (smallTree [.object []] []) = .ok config) ∧
      ¬ Conforms (smallTree [.object []] []) ∧
      (∃ config, parse someAddress (smallTree [] [(bytes "unknown", .boolean true)]) = .ok config) ∧
      ¬ Conforms (smallTree [] [(bytes "unknown", .boolean true)]) := by
  refine ⟨exists_parse _ (by decide +kernel), ?_, exists_parse _ (by decide +kernel), ?_⟩
  · rintro ⟨members, hroot, -, -, -, -, -, servers, hlookup, hall⟩
    obtain rfl := Node.object.inj hroot
    have hsame : some (Node.array [.object []]) = some (.array servers) := hlookup
    obtain rfl := Node.array.inj (Option.some.inj hsame)
    obtain ⟨members', hobject, hkeys, -⟩ := hall (.object []) (by simp)
    obtain rfl := Node.object.inj hobject
    exact absurd ((hkeys (bytes "listen")).2 (by simp [serverKeys])) (by simp [Members.contains])
  · rintro ⟨members, hroot, hkeys, -⟩
    obtain rfl := Node.object.inj hroot
    exact absurd ((hkeys (bytes "unknown")).1 (by decide +kernel)) (by decide +kernel)

end Config

end Webserv
