import Webserv.Config.Addresses

/-!
# When the addresses are accepted

`_fillBindInfoToServerIndices` throws when an address cannot be looked up, when a server listens on an
address twice, or when an address gets a name twice. `Compatible` says this of the servers alone, and
`IsTable` what the map from the addresses to the servers is; together they are exactly what the
function accepts and fills in (`fillBindInfoToServerIndices_iff`).
-/

namespace Webserv

open Exec

namespace Config

variable {getaddrinfo : Bytes → Bytes → Option BindInfo} {namesOf : ℕ → List Bytes}
  {met : BindInfo → ℕ → Prop} {filling filling' : Filling} {n : ℕ}

/-! ## Servers that go together -/

/-- The address of an entry. -/
def addressOf (getaddrinfo : Bytes → Bytes → Option BindInfo) (entry : ListenEntry) : Option BindInfo :=
  getaddrinfo entry.address entry.port

/-- Nothing that the servers listen on conflicts. -/
structure Compatible (getaddrinfo : Bytes → Bytes → Option BindInfo) (servers : List ServerEntry) :
    Prop where
  resolved : ∀ server ∈ servers, ∀ entry ∈ server.listen, (addressOf getaddrinfo entry).isSome = true
  /-- No server listens on an address twice. -/
  once : ∀ server ∈ servers, (server.listen.map (addressOf getaddrinfo)).Nodup
  nodup : ∀ server ∈ servers, server.listen ≠ [] → server.serverNames.Nodup
  /-- Servers that share an address share no name. -/
  disjoint : servers.Pairwise fun server server' => ∀ bindInfo,
    ListensOn getaddrinfo server.listen bindInfo → ListensOn getaddrinfo server'.listen bindInfo →
    server.serverNames.Disjoint server'.serverNames

/-- The map from the addresses to the indices of their servers, in order. -/
structure IsTable (getaddrinfo : Bytes → Bytes → Option BindInfo) (servers : List ServerEntry)
    (entries : List (BindInfo × List ℕ)) : Prop where
  inOrder : InOrder entries
  nonempty : ∀ entry ∈ entries, entry.2 ≠ []
  increasing : ∀ entry ∈ entries, entry.2.Pairwise (· < ·)
  mem_iff : ∀ entry ∈ entries, ∀ i, i ∈ entry.2 ↔
    ∃ server, servers[i]? = some server ∧ ListensOn getaddrinfo server.listen entry.1
  complete : ∀ server ∈ servers, ∀ bindInfo, ListensOn getaddrinfo server.listen bindInfo →
    bindInfo ∈ entries.map Prod.fst

/-- There is one such map. -/
theorem IsTable.eq {servers : List ServerEntry} {entries entries' : List (BindInfo × List ℕ)}
    (h : IsTable getaddrinfo servers entries) (h' : IsTable getaddrinfo servers entries') :
    entries = entries' := by
  have hsub : ∀ {entries entries'}, IsTable getaddrinfo servers entries →
      IsTable getaddrinfo servers entries' → ∀ entry ∈ entries, entry ∈ entries' := by
    intro entries entries' h h' entry hentry
    obtain ⟨i, hi⟩ := List.exists_mem_of_ne_nil _ (h.nonempty entry hentry)
    obtain ⟨server, hserver, hlisten⟩ := (h.mem_iff entry hentry i).1 hi
    obtain ⟨entry', hentry', hkey⟩ := List.mem_map.1
      (h'.complete server (List.mem_of_getElem? hserver) entry.1 hlisten)
    have hindices : entry.2 = entry'.2 := by
      have hmem : ∀ i, i ∈ entry.2 ↔ i ∈ entry'.2 := fun i => by
        rw [h.mem_iff entry hentry i, h'.mem_iff entry' hentry' i, hkey]
      have hperm := (List.perm_ext_iff_of_nodup ((h.increasing entry hentry).imp Nat.ne_of_lt)
        ((h'.increasing entry' hentry').imp Nat.ne_of_lt)).2 hmem
      exact hperm.eq_of_pairwise (fun i j _ _ hlt hlt' => absurd hlt' (Nat.lt_asymm hlt))
        (h.increasing entry hentry) (h'.increasing entry' hentry')
    rwa [show entry = entry' from Prod.ext hkey.symm hindices]
  have hnodup : ∀ {entries}, IsTable getaddrinfo servers entries → entries.Nodup := fun h =>
    h.inOrder.imp fun hlt heq => BindInfo.ne_of_lt hlt (congrArg Prod.fst heq)
  have hperm := (List.perm_ext_iff_of_nodup (hnodup h) (hnodup h')).2
    fun entry => ⟨hsub h h' entry, hsub h' h entry⟩
  refine hperm.eq_of_pairwise (fun entry entry' _ _ hlt hlt' => ?_) h.inOrder h'.inOrder
  exact absurd rfl (BindInfo.ne_of_lt (BindInfo.lt_trans hlt hlt'))

/-! ## The loops end -/

/-- The names of a server can be added to an address that has none of them. -/
theorem exists_addNames {bindInfo : BindInfo} {serverNames : List Bytes}
    {names : Finset (BindInfo × Bytes)} (hnodup : serverNames.Nodup)
    (hnew : ∀ name ∈ serverNames, (bindInfo, name) ∉ names) :
    ∃ names', addNames bindInfo serverNames names = .ok names' := by
  induction serverNames generalizing names with
  | nil => exact ⟨names, rfl⟩
  | cons name serverNames ih =>
    obtain ⟨hnotMem, hnodup⟩ := List.nodup_cons.1 hnodup
    obtain ⟨hname, hnew⟩ := List.forall_mem_cons.1 hnew
    rw [addNames, if_neg hname]
    refine ih hnodup fun name' hname' hmem => ?_
    rcases Finset.mem_insert.1 hmem with heq | hmem
    · obtain ⟨-, rfl⟩ := Prod.mk.inj heq
      exact hnotMem hname'
    · exact hnew name' hname' hmem

/-- **The loop over the entries of a server ends** if all addresses are found, new for this server, and
have none of its names. -/
theorem Filled.exists_fillEntries {listen : List ListenEntry} {seen : Finset BindInfo}
    (h : Filled namesOf met filling) (hmet : ∀ b i, met b i → i ≤ n ∧ (i = n → b ∈ seen))
    (hresolved : ∀ entry ∈ listen, (addressOf getaddrinfo entry).isSome = true)
    (honce : (listen.map (addressOf getaddrinfo)).Nodup)
    (hseen : ∀ b, ListensOn getaddrinfo listen b → b ∉ seen)
    (hnodup : listen ≠ [] → (namesOf n).Nodup)
    (hdisjoint : ∀ b, ListensOn getaddrinfo listen b → ∀ i, met b i → (namesOf i).Disjoint (namesOf n)) :
    ∃ filling', Config.fillEntries getaddrinfo (namesOf n) n listen seen filling = .ok filling' := by
  induction listen generalizing seen filling met with
  | nil => exact ⟨filling, rfl⟩
  | cons entry listen ih =>
    obtain ⟨hentry, hresolved⟩ := List.forall_mem_cons.1 hresolved
    obtain ⟨hnotMem, honce⟩ := List.nodup_cons.1 honce
    obtain ⟨bindInfo, haddress⟩ := Option.isSome_iff_exists.1 hentry
    have haddress' : getaddrinfo entry.address entry.port = some bindInfo := haddress
    have hhead : ListensOn getaddrinfo (entry :: listen) bindInfo :=
      ⟨entry, List.mem_cons_self, haddress⟩
    have htail : ∀ {b}, ListensOn getaddrinfo listen b → ListensOn getaddrinfo (entry :: listen) b :=
      fun ⟨entry', hentry', hb⟩ => ⟨entry', List.mem_cons_of_mem _ hentry', hb⟩
    have hne : ∀ b, ListensOn getaddrinfo listen b → b ≠ bindInfo := by
      rintro b ⟨entry', hentry', hb⟩ rfl
      exact hnotMem (List.mem_map.2 ⟨entry', hentry', hb.trans haddress.symm⟩)
    have hlast : ∀ i, met bindInfo i → i < n := fun i hi =>
      lt_of_le_of_ne (hmet _ i hi).1 fun heq => hseen bindInfo hhead ((hmet _ i hi).2 heq)
    obtain ⟨names, hnames⟩ : ∃ names,
        addNames bindInfo (namesOf n) filling.namesOfBindInfo = .ok names := by
      refine exists_addNames (hnodup (List.cons_ne_nil _ _)) fun name hname hmem => ?_
      obtain ⟨i, hi, hname'⟩ := (h.names bindInfo name).1 hmem
      exact hdisjoint bindInfo hhead i hi hname' hname
    simp only [Config.fillEntries, haddress', if_neg (hseen bindInfo hhead)]
    rw [hnames]
    refine ih (h.push hlast hnames) ?_ hresolved honce ?_ (fun _ => hnodup (List.cons_ne_nil _ _)) ?_
    · rintro b i (hi | ⟨rfl, rfl⟩)
      · exact ⟨(hmet b i hi).1, fun heq => Finset.mem_insert_of_mem ((hmet b i hi).2 heq)⟩
      · exact ⟨le_rfl, fun _ => Finset.mem_insert_self _ _⟩
    · intro b hb hmem
      rcases Finset.mem_insert.1 hmem with heq | hmem
      · exact hne b hb heq
      · exact hseen b (htail hb) hmem
    · rintro b hb i (hi | ⟨heq, -⟩)
      · exact hdisjoint b (htail hb) i hi
      · exact absurd heq (hne b hb)

/-- **The loop over the servers ends** if they go together, and share no name with those before them. -/
theorem Filled.exists_fillServers {servers : List ServerEntry} (h : Filled namesOf met filling)
    (hmet : ∀ b i, met b i → i < n)
    (hnames : ∀ k server, servers[k]? = some server → namesOf (n + k) = server.serverNames)
    (hcompatible : Compatible getaddrinfo servers)
    (hdisjoint : ∀ b i, met b i → ∀ server ∈ servers, ListensOn getaddrinfo server.listen b →
      (namesOf i).Disjoint server.serverNames) :
    ∃ filling', Config.fillServers getaddrinfo servers n filling = .ok filling' := by
  induction servers generalizing n filling met with
  | nil => exact ⟨filling, rfl⟩
  | cons server servers ih =>
    have hname : namesOf n = server.serverNames := hnames 0 server rfl
    obtain ⟨hresolved, hresolveds⟩ := List.forall_mem_cons.1 hcompatible.resolved
    obtain ⟨honce, honces⟩ := List.forall_mem_cons.1 hcompatible.once
    obtain ⟨hnodup, hnodups⟩ := List.forall_mem_cons.1 hcompatible.nodup
    obtain ⟨hapart, haparts⟩ := List.pairwise_cons.1 hcompatible.disjoint
    have hbefore : ∀ b i, met b i → i ≤ n ∧ (i = n → b ∈ (∅ : Finset BindInfo)) :=
      fun b i hi => ⟨(hmet b i hi).le, fun heq => absurd heq (hmet b i hi).ne⟩
    obtain ⟨filling₁, hentries⟩ := h.exists_fillEntries hbefore hresolved honce
      (fun b _ => Finset.notMem_empty b) (fun hne => hname ▸ hnodup hne) fun b hb i hi =>
        hname ▸ hdisjoint b i hi server List.mem_cons_self hb
    have h₁ := h.fillEntries hbefore hentries
    rw [hname] at hentries
    rw [Config.fillServers, hentries]
    refine ih h₁ ?_ (fun k server' hk => ?_) ⟨hresolveds, honces, hnodups, haparts⟩ ?_
    · rintro b i (hi | ⟨rfl, -⟩)
      · exact Nat.lt_succ_of_lt (hmet b i hi)
      · exact Nat.lt_succ_self _
    · rw [← hnames (k + 1) server' hk, Nat.add_assoc, Nat.add_comm 1]
    · rintro b i (hi | ⟨rfl, hb⟩) server' hserver' hb'
      · exact hdisjoint b i hi server' (List.mem_cons_of_mem _ hserver') hb'
      · exact hname ▸ hapart server' hserver' b hb hb'

/-! ## What the loops have checked -/

theorem resolved_of_fillEntries {listen : List ListenEntry} {seen : Finset BindInfo}
    {serverNames : List Bytes}
    (h : Config.fillEntries getaddrinfo serverNames n listen seen filling = .ok filling') :
    (∀ entry ∈ listen, (addressOf getaddrinfo entry).isSome = true) ∧
      (listen.map (addressOf getaddrinfo)).Nodup ∧ ∀ b, ListensOn getaddrinfo listen b → b ∉ seen := by
  induction listen generalizing seen filling with
  | nil => simp [ListensOn]
  | cons entry listen ih =>
    rw [Config.fillEntries] at h
    split at h
    · cases h
    · rename_i bindInfo haddress
      split_ifs at h with hseen
      obtain ⟨names, hnames, h⟩ := except_bind_eq_ok h
      obtain ⟨hresolved, honce, hnew⟩ := ih h
      have haddress' : addressOf getaddrinfo entry = some bindInfo := haddress
      refine ⟨List.forall_mem_cons.2 ⟨haddress' ▸ rfl, hresolved⟩, List.nodup_cons.2 ⟨?_, honce⟩, ?_⟩
      · intro hmem
        obtain ⟨entry', hentry', hb⟩ := List.mem_map.1 hmem
        exact hnew bindInfo ⟨entry', hentry', hb.trans haddress'⟩ (Finset.mem_insert_self _ _)
      · rintro b ⟨entry', hentry', hb⟩ hmem
        rcases List.mem_cons.1 hentry' with rfl | hentry'
        · rw [haddress, Option.some.injEq] at hb
          exact hseen (hb ▸ hmem)
        · exact hnew b ⟨entry', hentry', hb⟩ (Finset.mem_insert_of_mem hmem)

theorem resolved_of_fillServers {servers : List ServerEntry}
    (h : Config.fillServers getaddrinfo servers n filling = .ok filling') :
    ∀ server ∈ servers, (∀ entry ∈ server.listen, (addressOf getaddrinfo entry).isSome = true) ∧
      (server.listen.map (addressOf getaddrinfo)).Nodup := by
  induction servers generalizing n filling with
  | nil => simp
  | cons server servers ih =>
    obtain ⟨filling₁, hentries, h⟩ := except_bind_eq_ok h
    obtain ⟨hresolved, honce, -⟩ := resolved_of_fillEntries hentries
    exact List.forall_mem_cons.2 ⟨⟨hresolved, honce⟩, ih h⟩

/-- The pairs of an address and a server that there are. -/
def Met (getaddrinfo : Bytes → Bytes → Option BindInfo) (servers : List ServerEntry)
    (bindInfo : BindInfo) (i : ℕ) : Prop :=
  ∃ server, servers[i]? = some server ∧ ListensOn getaddrinfo server.listen bindInfo

/-- What the loop over the servers leaves in the variables. -/
theorem filled_of_fillServers {servers : List ServerEntry}
    (h : Config.fillServers getaddrinfo servers 0 {} = .ok filling) :
    Filled (namesAt servers) (Met getaddrinfo servers) filling := by
  refine (filled_empty.fillServers (fun _ _ => False.elim) (fun k server hk => ?_) h).congr
    fun b i => by simp [Met]
  rw [Nat.zero_add, namesAt_of hk]

/-- Servers whose addresses have been filled in go together. -/
theorem Filled.compatible {servers : List ServerEntry}
    (h : Filled (namesAt servers) (Met getaddrinfo servers) filling)
    (hresolved : ∀ server ∈ servers,
      (∀ entry ∈ server.listen, (addressOf getaddrinfo entry).isSome = true) ∧
        (server.listen.map (addressOf getaddrinfo)).Nodup) : Compatible getaddrinfo servers := by
  -- the list of an address has all its servers, and no name twice
  have hlist : ∀ b i, Met getaddrinfo servers b i → ∃ indices : List ℕ, i ∈ indices ∧
      (∀ j, Met getaddrinfo servers b j → j ∈ indices) ∧ (indices.flatMap (namesAt servers)).Nodup := by
    intro b i hi
    obtain ⟨entry, hentry, rfl⟩ := List.mem_map.1 (h.complete b i hi)
    exact ⟨entry.2, (h.mem_iff entry hentry i).2 hi, fun j => (h.mem_iff entry hentry j).2,
      h.named entry hentry⟩
  refine ⟨fun server hserver => (hresolved server hserver).1,
    fun server hserver => (hresolved server hserver).2, fun server hserver hne => ?_, ?_⟩
  · obtain ⟨entry, hentry⟩ := List.exists_mem_of_ne_nil _ hne
    obtain ⟨b, hb⟩ := Option.isSome_iff_exists.1 ((hresolved server hserver).1 entry hentry)
    obtain ⟨i, hi⟩ := List.mem_iff_getElem?.1 hserver
    obtain ⟨indices, hmem, -, hnodup⟩ := hlist b i ⟨server, hi, entry, hentry, hb⟩
    exact namesAt_of hi ▸ (List.nodup_flatMap.1 hnodup).1 i hmem
  · rw [List.pairwise_iff_getElem]
    intro i j hi hj hlt b hb hb'
    have hserver := List.getElem?_eq_getElem hi
    have hserver' := List.getElem?_eq_getElem hj
    obtain ⟨indices, hmem, hall, hnodup⟩ := hlist b i ⟨_, hserver, hb⟩
    have hsymm : Std.Symm (Function.onFun List.Disjoint (namesAt servers)) :=
      ⟨fun _ _ h => List.Disjoint.symm h⟩
    have hdisjoint := (List.nodup_flatMap.1 hnodup).2.forall hmem (hall j ⟨_, hserver', hb'⟩) hlt.ne
    rwa [Function.onFun, namesAt_of hserver, namesAt_of hserver'] at hdisjoint

theorem Filled.isTable {servers : List ServerEntry}
    (h : Filled (namesAt servers) (Met getaddrinfo servers) filling) :
    IsTable getaddrinfo servers filling.entries := by
  refine ⟨h.inOrder, h.nonempty, h.increasing, h.mem_iff, fun server hserver b hb => ?_⟩
  obtain ⟨i, hi⟩ := List.mem_iff_getElem?.1 hserver
  exact h.complete b i ⟨server, hi, hb⟩

/-- **What `_fillBindInfoToServerIndices` accepts and fills in.** -/
theorem fillBindInfoToServerIndices_iff {servers : List ServerEntry}
    {entries : List (BindInfo × List ℕ)} :
    fillBindInfoToServerIndices getaddrinfo servers = .ok entries ↔
      Compatible getaddrinfo servers ∧ IsTable getaddrinfo servers entries := by
  have hmap : ∀ {entries}, fillBindInfoToServerIndices getaddrinfo servers = .ok entries ↔
      ∃ filling, Config.fillServers getaddrinfo servers 0 {} = .ok filling ∧
        filling.entries = entries := by
    intro entries
    unfold fillBindInfoToServerIndices
    cases Config.fillServers getaddrinfo servers 0 {} with
    | error e => exact ⟨nofun, fun ⟨_, h, _⟩ => nomatch h⟩
    | ok filling => simp [Functor.map, Except.map]
  rw [hmap]
  constructor
  · rintro ⟨filling, hfill, rfl⟩
    have hfilled := filled_of_fillServers hfill
    exact ⟨hfilled.compatible (resolved_of_fillServers hfill), hfilled.isTable⟩
  · rintro ⟨hcompatible, htable⟩
    obtain ⟨filling, hfill⟩ := (@filled_empty (namesAt servers)).exists_fillServers
      (fun _ _ => False.elim) (fun k server hk => by rw [Nat.zero_add, namesAt_of hk]) hcompatible
      fun _ _ => False.elim
    exact ⟨filling, hfill, (filled_of_fillServers hfill).isTable.eq htable⟩

end Config

end Webserv
