import Webserv.Config.Writing

/-!
# Which configurations are accepted

What `main` makes of a configuration file (`load`). Every loop of the constructor of `Config` keeps the
values that it fills in valid, so what it accepts is valid (`isValid_of_parse`); and a valid
configuration is what its text gives, if that is not too long (`load_iff`).
-/

namespace Webserv

open Exec Search Utils

/-! ## Files -/

/-- How `main` fails before it serves. -/
inductive LoadFault
  | configFileTooLarge
  | json (e : ParseFault)
  | config (e : ConfigFault)

/-- `main`, from the file that it has opened to the configuration. -/
def load (getaddrinfo : Bytes → Bytes → Option BindInfo) (file : Bytes) :
    Except LoadFault ParsedConfig :=
  if 420420 < file.length then .error .configFileTooLarge
  else
    match JSON.parse 5 (2 * file.length + 1) file with
    | .error e => .error (.json e)
    | .ok root =>
      match Config.parse getaddrinfo root with
      | .error e => .error (.config e)
      | .ok config => .ok config

variable {depth : ℕ} {getaddrinfo : Bytes → Bytes → Option BindInfo}

/-! ## Parts of a tree that can be printed -/

namespace Element

theorem of_string {s : Bytes} (h : Element depth (.string s)) : Quotable s := by
  cases h
  assumption

theorem of_integer {n : ℕ} (h : Element depth (.integer n)) : n < sizeModulus := by
  cases h
  assumption

theorem of_array {nodes : List Node} (h : Element depth (.array nodes)) :
    ∃ depth', ∀ node ∈ nodes, Element depth' node := by
  cases h with
  | @array depth _ h => exact ⟨depth, h⟩

theorem of_object {members : Members} (h : Element depth (.object members)) :
    members.Sorted ∧ (∀ member ∈ members, Quotable member.1) ∧
      ∃ depth', ∀ member ∈ members, (∀ b, member.2 ≠ .boolean b) → Element depth' member.2 := by
  cases h with
  | @object depth _ hsorted hkeys h => exact ⟨hsorted, hkeys, depth, h⟩

end Element

namespace Config

/-! ## Addresses and names -/

theorem parseListen_isValid {node : Node} {entry : ListenEntry} (hnode : Element depth node)
    (h : parseListen node = .ok entry) : entry.IsValid := by
  obtain ⟨listen, hstring, hlisten⟩ := except_bind_eq_ok h
  obtain rfl := Node.getString_ok hstring
  have hquotable := hnode.of_string
  split at hlisten
  · cases hlisten
  · rename_i colonIndex hfind
    split_ifs at hlisten with hfirst hlast
    cases hlisten
    have hsplit : find [ch ':'] listen = some colonIndex := hfind
    obtain ⟨address, port, rfl, hcolon, rfl⟩ := find_singleton_eq_some hsplit
    rw [List.length_append, List.length_cons] at hlast
    have hdrop : (address ++ ch ':' :: port).drop (address.length + 1) = port :=
      List.drop_length_add_append ..
    rw [List.take_left, hdrop]
    refine ⟨fun hnil => hfirst (List.length_eq_zero_iff.2 hnil), hcolon, fun hnil => hlast ?_, ?_, ?_⟩
    · have hzero : port.length = 0 := List.length_eq_zero_iff.2 hnil
      omega
    · exact fun hquote => hquotable (List.mem_append_left _ hquote)
    · exact fun hquote => hquotable (List.mem_append_right _ (List.mem_cons_of_mem _ hquote))

theorem quotable_upper {s : Bytes} (h : Quotable s) : Quotable (upper s) := by
  intro hquote
  obtain ⟨b, hb, heq⟩ := List.mem_map.1 hquote
  refine h (?_ : ch '"' ∈ s)
  unfold toupper at heq
  split_ifs at heq with hlower
  · -- no letter is turned into a quote
    exfalso
    have ha : (ch 'a').toNat = 97 := rfl
    have hz : (ch 'z').toNat = 122 := rfl
    have h32 : (32 : UInt8).toNat = 32 := rfl
    have hquote : (ch '"').toNat = 34 := rfl
    rw [UInt8.le_iff_toNat_le, UInt8.le_iff_toNat_le, ha, hz] at hlower
    have hsub := UInt8.toNat_sub_of_le b 32 (UInt8.le_iff_toNat_le.2 (by omega))
    rw [heq] at hsub
    omega
  · rwa [← heq]

/-! ## Locations -/

/-- The strings of a location can be written, and what it has besides its uri was set by a member. -/
structure SetBy (uri : Bytes) (members : Members) (location : LocationDirective) : Prop where
  uri : location.uri = uri
  quotable : ∀ s ∈ [location.uri, location.cgiExecvePath, location.index, location.redirect,
    location.root], Quotable s
  index : location.index ≠ [] → members.contains (bytes "index") = true
  autoindex : location.autoindex = true → members.contains (bytes "autoindex") = true
  redirect : location.redirect ≠ [] → members.contains (bytes "redirect") = true

theorem parseProperty_setBy {uri : Bytes} {members : Members} {location location' : LocationDirective}
    {property : Bytes × Node} (hmem : property ∈ members)
    (hvalue : (∀ b, property.2 ≠ .boolean b) → Element depth property.2)
    (hset : SetBy uri members location) (h : parseProperty location property = .ok location') :
    SetBy uri members location' := by
  have hcontains := contains_of_mem hmem
  have hstring : ∀ {f : Bytes → LocationDirective},
      (do pure (f (← property.2.getString)) : Except ConfigFault _) = .ok location' →
      ∃ s, Quotable s ∧ location' = f s := by
    intro f h
    obtain ⟨s, hs, h⟩ := except_bind_eq_ok h
    cases h
    have hnode := Node.getString_ok hs
    rw [hnode] at hvalue
    exact ⟨s, (hvalue nofun).of_string, rfl⟩
  have hboolean : ∀ {f : Bool → LocationDirective},
      (do pure (f (← property.2.getBoolean)) : Except ConfigFault _) = .ok location' →
      ∃ b, location' = f b := by
    intro f h
    obtain ⟨b, -, h⟩ := except_bind_eq_ok h
    cases h
    exact ⟨b, rfl⟩
  have hlist : ∀ {uri cgiExecvePath index redirect root : Bytes}, Quotable uri →
      Quotable cgiExecvePath → Quotable index → Quotable redirect → Quotable root →
      ∀ s ∈ [uri, cgiExecvePath, index, redirect, root], Quotable s := by
    intro _ _ _ _ _ huri hcgi hindex hredirect hroot
    simp only [List.forall_mem_cons, List.not_mem_nil, false_implies, implies_true, and_true]
    exact ⟨huri, hcgi, hindex, hredirect, hroot⟩
  obtain ⟨huri, hquotable, hindex, hautoindex, hredirect⟩ := hset
  have hquotable' := hquotable
  simp only [List.forall_mem_cons, List.not_mem_nil, false_implies, implies_true, and_true] at hquotable'
  obtain ⟨hquri, hqcgi, hqindex, hqredirect, hqroot⟩ := hquotable'
  unfold parseProperty at h
  dsimp only at h
  split_ifs at h with h₁ h₂ h₃ h₄ h₅ h₆ h₇ h₈
  · obtain ⟨s, hs, rfl⟩ := hstring h
    exact ⟨huri, hlist hquri hs hqindex hqredirect hqroot, hindex, hautoindex, hredirect⟩
  · obtain ⟨b, rfl⟩ := hboolean h
    exact ⟨huri, hquotable, hindex, hautoindex, hredirect⟩
  · obtain ⟨b, rfl⟩ := hboolean h
    exact ⟨huri, hquotable, hindex, hautoindex, hredirect⟩
  · obtain ⟨b, rfl⟩ := hboolean h
    exact ⟨huri, hquotable, hindex, hautoindex, hredirect⟩
  · obtain ⟨b, rfl⟩ := hboolean h
    exact ⟨huri, hquotable, hindex, fun _ => h₅ ▸ hcontains, hredirect⟩
  · obtain ⟨s, hs, rfl⟩ := hstring h
    exact ⟨huri, hlist hquri hqcgi hs hqredirect hqroot, fun _ => h₆ ▸ hcontains, hautoindex, hredirect⟩
  · obtain ⟨s, hs, rfl⟩ := hstring h
    exact ⟨huri, hlist hquri hqcgi hqindex hs hqroot, hindex, hautoindex, fun _ => h₇ ▸ hcontains⟩
  · obtain ⟨s, hs, rfl⟩ := hstring h
    exact ⟨huri, hlist hquri hqcgi hqindex hqredirect hs, hindex, hautoindex, hredirect⟩

/-- **A location that is accepted is valid**, and keeps its uri. -/
theorem parseLocation_isValid {locationNode : Bytes × Node} {location : LocationDirective}
    (huri : Quotable locationNode.1) (hnode : Element depth locationNode.2)
    (h : parseLocation locationNode = .ok location) :
    location.IsValid ∧ location.uri = locationNode.1 := by
  obtain ⟨members, hobject, hparse⟩ := except_bind_eq_ok h
  rw [Node.getObject_ok hobject] at hnode
  obtain ⟨-, -, depth', hmembers⟩ := hnode.of_object
  dsimp only at hparse
  split_ifs at hparse with hneither hother hboth hslash
  have hset : SetBy locationNode.1 members location := by
    refine foldlM_invariant (I := SetBy locationNode.1 members) (fun hmem hset hproperty => ?_) ?_ hparse
    · exact parseProperty_setBy hmem (hmembers _ hmem) hset hproperty
    · exact ⟨rfl, by simpa [Quotable] using huri, by simp, by simp, by simp⟩
  refine ⟨⟨hset.uri ▸ not_not.1 hslash, fun hredirect => ?_, fun hindex => ?_, hset.quotable⟩, hset.uri⟩
  · -- the redirect is the only member
    have hcontains := hset.redirect hredirect
    obtain ⟨value, hlookup⟩ := exists_of_contains hcontains
    have hmem := mem_of_lookup hlookup
    have hlength : members.length = 1 := by
      have hpos := List.length_pos_of_mem hmem
      have hle : ¬ 1 < members.length := fun hlt => hother ⟨hcontains, hlt⟩
      omega
    obtain ⟨member, rfl⟩ := List.length_eq_one_iff.1 hlength
    obtain rfl := List.mem_singleton.1 hmem
    rw [List.foldlM_cons] at hparse
    obtain ⟨location', hproperty, hlast⟩ := except_bind_eq_ok hparse
    cases hlast
    obtain ⟨s, -, hlocation⟩ := except_bind_eq_ok (x := value.getString) hproperty
    cases hlocation
    rfl
  · by_contra hautoindex
    exact hboth ⟨hset.index hindex, hset.autoindex (by simpa using hautoindex)⟩

/-- What is read keeps what each of it keeps. -/
theorem map_of_mapM {α β γ : Type} {f : α → Except ConfigFault β} {p : α → γ} {q : β → γ} {l : List α}
    {l' : List β} (hf : ∀ a ∈ l, ∀ b, f a = .ok b → q b = p a) (h : l.mapM f = .ok l') :
    l'.map q = l.map p := by
  induction l generalizing l' with
  | nil =>
    cases h
    rfl
  | cons a l ih =>
    rw [List.mapM_cons] at h
    obtain ⟨b, hb, h⟩ := except_bind_eq_ok h
    obtain ⟨bs, hbs, h⟩ := except_bind_eq_ok h
    cases h
    rw [List.map_cons, List.map_cons, hf a List.mem_cons_self b hb,
      ih (fun a' ha' => hf a' (List.mem_cons_of_mem _ ha')) hbs]

/-! ## Error pages -/

theorem parseErrorPage_isValid {errorPages errorPages' : Map ℕ Bytes} {member : Bytes × Node}
    (hvalue : (∀ b, member.2 ≠ .boolean b) → Element depth member.2)
    (hpages : ∀ code page, errorPages.lookup code = some page → code ∈ errorPageCodes ∧ Quotable page)
    (h : parseErrorPage errorPages member = .ok errorPages') :
    ∀ code page, errorPages'.lookup code = some page → code ∈ errorPageCodes ∧ Quotable page := by
  unfold parseErrorPage at h
  split at h
  · cases h
  · rename_i errorCode hnumber
    obtain ⟨pagePath, hpath, h⟩ := except_bind_eq_ok h
    rw [Node.getString_ok hpath] at hvalue
    split_ifs at h with hcode
    cases h
    intro code page hlookup
    by_cases hmem : errorCode ∈ errorPages
    · rw [Map.emplace_of_mem hmem] at hlookup
      exact hpages code page hlookup
    · rw [Map.emplace_of_notMem hmem, Map.lookup_insert_eq] at hlookup
      split_ifs at hlookup with heq
      · cases hlookup
        exact ⟨heq ▸ hcode, (hvalue nofun).of_string⟩
      · exact hpages code page hlookup

/-! ## Servers -/

/-- **One round of the loop over the members of a server** keeps it valid, if the locations have not been
read yet when they are. -/
theorem parseServerMember_isValid {members : Members} {server server' : ServerEntry}
    {member : Bytes × Node} (hvalue : (∀ b, member.2 ≠ .boolean b) → Element depth member.2)
    (hserver : server.IsValid) (hnew : member.1 = bytes "locations" → server.locations = [])
    (h : parseServerMember members server member = .ok server') :
    server'.IsValid ∧ (member.1 ≠ bytes "locations" → server'.locations = server.locations) := by
  obtain ⟨hlisten, hnames, hlocations, hinOrder, hpages⟩ := hserver
  unfold parseServerMember at h
  dsimp only at h
  split_ifs at h with h₁ h₂ h₃ h₄ hkey hkey₁ hkey₂ hkey₃
  · obtain ⟨elements, harray, h⟩ := except_bind_eq_ok h
    obtain ⟨listen, hmap, h⟩ := except_bind_eq_ok h
    cases h
    rw [Node.getArray_ok harray] at hvalue
    obtain ⟨depth', helements⟩ := (hvalue nofun).of_array
    refine ⟨⟨fun entry hentry => ?_, hnames, hlocations, hinOrder, hpages⟩, fun _ => rfl⟩
    rcases List.mem_append.1 hentry with hentry | hentry
    · exact hlisten entry hentry
    · obtain ⟨node, hnode, hparse⟩ := mem_of_mapM hmap entry hentry
      exact parseListen_isValid (helements node hnode) hparse
  · obtain ⟨elements, harray, h⟩ := except_bind_eq_ok h
    obtain ⟨names, hmap, h⟩ := except_bind_eq_ok h
    cases h
    rw [Node.getArray_ok harray] at hvalue
    obtain ⟨depth', helements⟩ := (hvalue nofun).of_array
    refine ⟨⟨hlisten, fun name hname => ?_, hlocations, hinOrder, hpages⟩, fun _ => rfl⟩
    rcases List.mem_append.1 hname with hname | hname
    · exact hnames name hname
    · obtain ⟨node, hnode, hparse⟩ := mem_of_mapM hmap name hname
      have helement := helements node hnode
      cases hstring : node.getString with
      | error e =>
        rw [hstring] at hparse
        cases hparse
      | ok s =>
        rw [hstring] at hparse
        cases hparse
        rw [Node.getString_ok hstring] at helement
        exact ⟨upper_upper s, quotable_upper helement.of_string⟩
  · obtain ⟨locationMembers, hobject, h⟩ := except_bind_eq_ok h
    obtain ⟨locations, hmap, h⟩ := except_bind_eq_ok h
    cases h
    rw [Node.getObject_ok hobject] at hvalue
    obtain ⟨hsorted, hquotable, depth', hmembers⟩ := (hvalue nofun).of_object
    have hone : ∀ member ∈ locationMembers, ∀ location, parseLocation member = .ok location →
        location.IsValid ∧ location.uri = member.1 := by
      intro member hmember location hparse
      refine parseLocation_isValid (hquotable member hmember) (hmembers member hmember ?_) hparse
      obtain ⟨_, hobject', -⟩ := except_bind_eq_ok hparse
      rw [Node.getObject_ok hobject']
      exact nofun
    rw [hnew hkey₂, List.nil_append]
    refine ⟨⟨hlisten, hnames, fun location hlocation => ?_, ?_, hpages⟩, fun hne => absurd hkey₂ hne⟩
    · obtain ⟨member, hmember, hparse⟩ := mem_of_mapM hmap location hlocation
      exact (hone member hmember location hparse).1
    · show (locations.map LocationDirective.uri).Pairwise (· < ·)
      rw [map_of_mapM (fun member hmember location hparse => (hone member hmember location hparse).2) hmap]
      exact hsorted
  · obtain ⟨pageMembers, hobject, h⟩ := except_bind_eq_ok h
    obtain ⟨errorPages, hfold, h⟩ := except_bind_eq_ok h
    cases h
    rw [Node.getObject_ok hobject] at hvalue
    obtain ⟨-, -, depth', hmembers⟩ := (hvalue nofun).of_object
    refine ⟨⟨hlisten, hnames, hlocations, hinOrder, ?_⟩, fun _ => rfl⟩
    exact foldlM_invariant (I := fun errorPages : Map ℕ Bytes => ∀ code page,
      errorPages.lookup code = some page → code ∈ errorPageCodes ∧ Quotable page)
      (fun hmem hpages hparse => parseErrorPage_isValid (hmembers _ hmem) hpages hparse) hpages hfold

/-- **The loop over the members of a server** keeps it valid. -/
theorem foldlM_parseServerMember_isValid {all members : Members} {server server' : ServerEntry}
    (hmembers : ∀ member ∈ members, (∀ b, member.2 ≠ .boolean b) → Element depth member.2)
    (hnodup : (members.map Prod.fst).Nodup) (hserver : server.IsValid)
    (hnew : bytes "locations" ∈ members.map Prod.fst → server.locations = [])
    (h : members.foldlM (parseServerMember all) server = .ok server') : server'.IsValid := by
  induction members generalizing server with
  | nil =>
    cases h
    exact hserver
  | cons member members ih =>
    obtain ⟨hmember, hmembers⟩ := List.forall_mem_cons.1 hmembers
    obtain ⟨hnotMem, hnodup⟩ := List.nodup_cons.1 hnodup
    rw [List.foldlM_cons] at h
    obtain ⟨server₁, hfirst, h⟩ := except_bind_eq_ok h
    obtain ⟨hvalid, hkeeps⟩ := parseServerMember_isValid hmember hserver
      (fun hkey => hnew (hkey ▸ List.mem_cons_self)) hfirst
    refine ih hmembers hnodup hvalid (fun hmem => ?_) h
    rw [hkeeps fun hkey => hnotMem (hkey ▸ hmem)]
    exact hnew (List.mem_cons_of_mem _ hmem)

theorem parseServer_isValid {serverNode : Node} {server : ServerEntry}
    (hnode : Element depth serverNode) (h : parseServer serverNode = .ok server) : server.IsValid := by
  obtain ⟨members, hobject, h⟩ := except_bind_eq_ok h
  rw [Node.getObject_ok hobject] at hnode
  obtain ⟨hsorted, -, depth', hmembers⟩ := hnode.of_object
  refine foldlM_parseServerMember_isValid hmembers hsorted.nodup ?_ (fun _ => rfl) h
  exact ⟨by simp, by simp, by simp, List.Pairwise.nil, fun code page hpage => nomatch hpage⟩

/-! ## The root -/

/-- **A configuration that is accepted is valid.** -/
theorem isValid_of_parse {root : Node} {config : ParsedConfig} (hroot : Element depth root)
    (h : parse getaddrinfo root = .ok config) : config.IsValid getaddrinfo := by
  obtain ⟨members, hobject, h⟩ := except_bind_eq_ok h
  rw [Node.getObject_ok hobject] at hroot
  obtain ⟨-, -, depth', hmembers⟩ := hroot.of_object
  have helement : ∀ {key : Bytes} {value : Node}, members.lookup key = some value →
      (∀ b, value ≠ .boolean b) → Element depth' value :=
    fun hlookup => hmembers _ (mem_of_lookup hlookup)
  obtain ⟨connectionQueueLength, hqueue, h⟩ := except_bind_eq_ok h
  obtain ⟨clientMaxBodySize, hsize, h⟩ := except_bind_eq_ok h
  obtain ⟨pollTimeoutMs, hpoll, h⟩ := except_bind_eq_ok h
  obtain ⟨clientTimeoutMs, hclient, h⟩ := except_bind_eq_ok h
  obtain ⟨serversNode, hnode, h⟩ := except_bind_eq_ok h
  obtain ⟨elements, harray, h⟩ := except_bind_eq_ok h
  obtain ⟨servers, hmap, h⟩ := except_bind_eq_ok h
  obtain ⟨entries, hfill, h⟩ := except_bind_eq_ok h
  cases h
  obtain ⟨queueNode, -, hqueue⟩ := except_bind_eq_ok hqueue
  obtain ⟨n, -, hqueue⟩ := except_bind_eq_ok hqueue
  split_ifs at hqueue with hlarge hsmall
  cases hqueue
  obtain ⟨sizeNode, hsizeNode, hsize⟩ := except_bind_eq_ok hsize
  have hsizeElement := helement (require_ok hsizeNode)
  rw [Node.getInteger_ok hsize] at hsizeElement
  have hserversElement := helement (require_ok hnode)
  rw [Node.getArray_ok harray] at hserversElement
  obtain ⟨depth'', helements⟩ := (hserversElement nofun).of_array
  obtain ⟨hcompatible, htable⟩ := fillBindInfoToServerIndices_iff.1 hfill
  refine ⟨⟨Nat.not_lt.1 hsmall, Nat.not_lt.1 hlarge⟩, (hsizeElement nofun).of_integer,
    (parseTimeoutMs_ok hpoll).2, (parseTimeoutMs_ok hclient).2, fun server hserver => ?_, hcompatible,
    htable⟩
  obtain ⟨element, helement, hparse⟩ := mem_of_mapM hmap server hserver
  exact parseServer_isValid (helements element helement) hparse

end Config

/-- **Which configurations are accepted**: whatever a file gives is valid, and the text of a valid
configuration gives it, unless it is too large. -/
theorem load_iff (getaddrinfo : Bytes → Bytes → Option BindInfo) (config : ParsedConfig) :
    (∀ file, load getaddrinfo file = .ok config → config.IsValid getaddrinfo) ∧
      (config.IsValid getaddrinfo → load getaddrinfo config.text =
        if 420420 < config.text.length then .error .configFileTooLarge else .ok config) := by
  refine ⟨fun file h => ?_, fun h => ?_⟩
  · unfold load at h
    split_ifs at h
    split at h
    · cases h
    · rename_i root hroot
      split at h
      · cases h
      · rename_i config' hconfig
        cases h
        exact Config.isValid_of_parse (JSON.element_of_parse (Nat.lt_succ_self _) hroot).2 hconfig
  · have hread : JSON.parse 5 (2 * config.text.length + 1) config.text = .ok config.tree :=
      JSON.parse_text (Config.element_tree h) (Nat.lt_succ_self _)
    rw [load, hread]
    simp only [Config.parse_tree h]

/-! ## A small configuration -/

/-- A server with one address, one location and one error page. -/
def smallEntry : ServerEntry where
  listen := [⟨bytes "localhost", bytes "8080"⟩]
  serverNames := [bytes "A"]
  locations := [{ uri := bytes "/", getAllowed := true, root := bytes "public" }]
  errorPages := (∅ : Map ℕ Bytes).insert 404 (bytes "404.html")

/-- A configuration with this server. -/
def smallConfig : ParsedConfig := ⟨10, 1000, 1000, 1000, [smallEntry], [(⟨9, 4⟩, [0])]⟩

theorem smallEntry_isValid : smallEntry.IsValid := by
  refine ⟨?_, ?_, ?_, List.pairwise_singleton _ _, fun code page hpage => ?_⟩
  · exact List.forall_mem_singleton.2 ⟨by decide, by decide, by decide, by decide⟩
  · exact List.forall_mem_singleton.2 ⟨by decide, by decide⟩
  · refine List.forall_mem_singleton.2 ⟨by decide, ?_, fun h => absurd rfl h, by decide⟩
    exact fun h => absurd rfl h
  · rw [smallEntry, Map.lookup_insert_eq] at hpage
    split_ifs at hpage with hcode
    · cases hpage
      exact ⟨hcode ▸ by decide, by decide⟩
    · cases hpage

theorem load_iff_small : load Config.someAddress smallConfig.text = .ok smallConfig := by
  have htable : Config.fillBindInfoToServerIndices Config.someAddress smallConfig.servers =
      .ok smallConfig.bindInfoToServerIndices := by decide +kernel
  obtain ⟨hcompatible, htable⟩ := Config.fillBindInfoToServerIndices_iff.1 htable
  have hload := (load_iff Config.someAddress smallConfig).2 ⟨by decide, by decide, by decide, by decide,
    List.forall_mem_singleton.2 smallEntry_isValid, hcompatible, htable⟩
  rwa [if_neg (by decide +kernel)] at hload

end Webserv
