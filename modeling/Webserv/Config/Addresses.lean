import Mathlib.Data.List.Nodup
import Webserv.Config.Schema

/-!
# The servers of an address

`_fillBindInfoToServerIndices` goes through the servers and through what each of them listens on. Each
round puts the index of a server at the end of the list of one address, and its names among the names
of the address. `Filled` says what the variables hold in between, for the pairs of an address and a
server that have been met; it is kept by a round (`Filled.push`), by the loop over the entries of a
server (`Filled.fillEntries`) and by the loop over the servers (`Filled.fillServers`). So an accepted
configuration lists for every address the servers that listen on it (`listed_of_parse`).
-/

namespace Webserv

open Exec Utils

namespace Config

/-! ## The order of the addresses -/

theorem BindInfo.lt_trans {a b c : BindInfo} (hab : BindInfo.lt a b) (hbc : BindInfo.lt b c) :
    BindInfo.lt a c := by
  unfold BindInfo.lt at *
  omega

theorem BindInfo.ne_of_lt {a b : BindInfo} (h : BindInfo.lt a b) : a ≠ b := by
  rintro rfl
  unfold BindInfo.lt at h
  omega

theorem BindInfo.lt_of_not {a b : BindInfo} (h : ¬ BindInfo.lt a b) (hne : a ≠ b) :
    BindInfo.lt b a := by
  obtain ⟨aAddr, aPort⟩ := a
  obtain ⟨bAddr, bPort⟩ := b
  have hor : ¬ (aAddr = bAddr ∧ aPort = bPort) := fun heq => hne (by rw [heq.1, heq.2])
  simp only [BindInfo.lt] at h ⊢
  omega

/-- The entries are in the order of their addresses. -/
def InOrder (entries : List (BindInfo × List ℕ)) : Prop :=
  entries.Pairwise fun entry entry' => BindInfo.lt entry.1 entry'.1

variable {entries : List (BindInfo × List ℕ)} {bindInfo b : BindInfo} {n : ℕ}

theorem keys_pushIndex (h : b ∈ (pushIndex bindInfo n entries).map Prod.fst) :
    b = bindInfo ∨ b ∈ entries.map Prod.fst := by
  induction entries with
  | nil => exact .inl (by simpa [pushIndex] using h)
  | cons entry entries ih =>
    obtain ⟨b', indices⟩ := entry
    rw [pushIndex] at h
    split_ifs at h with hlt heq
    · simpa using h
    · exact .inr h
    · rcases List.mem_cons.1 h with rfl | h
      · exact .inr (by simp)
      · exact (ih h).imp_right (List.mem_cons_of_mem _)

theorem inOrder_pushIndex (h : InOrder entries) : InOrder (pushIndex bindInfo n entries) := by
  induction entries with
  | nil => exact List.pairwise_singleton _ _
  | cons entry entries ih =>
    obtain ⟨b', indices⟩ := entry
    obtain ⟨hhead, htail⟩ := List.pairwise_cons.1 h
    rw [pushIndex]
    split_ifs with hlt heq
    · refine List.pairwise_cons.2 ⟨fun entry hentry => ?_, h⟩
      rcases List.mem_cons.1 hentry with rfl | hentry
      · exact hlt
      · exact BindInfo.lt_trans hlt (hhead entry hentry)
    · exact List.pairwise_cons.2 ⟨hhead, htail⟩
    · refine List.pairwise_cons.2 ⟨fun entry hentry => ?_, ih htail⟩
      rcases keys_pushIndex (List.mem_map_of_mem hentry) with hkey | hkey
      · rw [hkey]
        exact BindInfo.lt_of_not hlt heq
      · obtain ⟨entry', hentry', hsame⟩ := List.mem_map.1 hkey
        rw [← hsame]
        exact hhead entry' hentry'

/-- What one round does to the lists: the one of its address grows, and the others stay. -/
theorem mem_pushIndex (h : InOrder entries) {indices : List ℕ} :
    (b, indices) ∈ pushIndex bindInfo n entries ↔
      (b ≠ bindInfo ∧ (b, indices) ∈ entries) ∨
      (b = bindInfo ∧ ((∃ old, (b, old) ∈ entries ∧ indices = old ++ [n]) ∨
        b ∉ entries.map Prod.fst ∧ indices = [n])) := by
  induction entries with
  | nil => simp [pushIndex]
  | cons entry entries ih =>
    obtain ⟨b', indices'⟩ := entry
    obtain ⟨hhead, htail⟩ := List.pairwise_cons.1 h
    have hnew : ∀ {a : BindInfo}, BindInfo.lt a b' → a ∉ entries.map Prod.fst := by
      intro a ha hmem
      obtain ⟨entry, hentry, rfl⟩ := List.mem_map.1 hmem
      exact BindInfo.ne_of_lt (BindInfo.lt_trans ha (hhead entry hentry)) rfl
    rw [pushIndex]
    split_ifs with hlt heq
    · have hne := BindInfo.ne_of_lt hlt
      have hnotMem := hnew hlt
      by_cases hb : b = bindInfo
      · subst hb
        have hold : ∀ old, (b, old) ∉ entries := fun old hmem => hnotMem (List.mem_map_of_mem hmem)
        simp [hne, hold, hnotMem]
      · simp [hb]
    · subst heq
      have hnotMem : bindInfo ∉ entries.map Prod.fst := by
        intro hmem
        obtain ⟨entry, hentry, hkey⟩ := List.mem_map.1 hmem
        exact BindInfo.ne_of_lt (hhead entry hentry) hkey.symm
      by_cases hb : b = bindInfo
      · subst hb
        have hold : ∀ old, (b, old) ∉ entries := fun old hmem => hnotMem (List.mem_map_of_mem hmem)
        simp [hold]
      · simp [hb]
    · rw [List.mem_cons, ih htail]
      by_cases hb : b = bindInfo
      · subst hb
        simp [heq]
      · simp [hb]

/-! ## One round -/

/-- The names are new on an address, and are added to it. -/
theorem addNames_ok {serverNames : List Bytes} {names names' : Finset (BindInfo × Bytes)}
    (h : addNames bindInfo serverNames names = .ok names') :
    serverNames.Nodup ∧ (∀ serverName ∈ serverNames, (bindInfo, serverName) ∉ names) ∧
      ∀ p, p ∈ names' ↔ p ∈ names ∨ p.1 = bindInfo ∧ p.2 ∈ serverNames := by
  induction serverNames generalizing names with
  | nil =>
    cases h
    simp
  | cons serverName serverNames ih =>
    rw [addNames] at h
    split_ifs at h with hmem
    obtain ⟨hnodup, hnew, hmem'⟩ := ih h
    refine ⟨List.nodup_cons.2 ⟨fun hin => ?_, hnodup⟩, ?_, fun p => ?_⟩
    · exact hnew serverName hin (Finset.mem_insert_self _ _)
    · intro name hname
      rcases List.mem_cons.1 hname with rfl | hname
      · exact hmem
      · exact fun hold => hnew name hname (Finset.mem_insert_of_mem hold)
    · rw [hmem' p, Finset.mem_insert, List.mem_cons, Prod.ext_iff]
      tauto

/-- What the variables of `_fillBindInfoToServerIndices` hold, when the pairs of an address and a
server that have been met are those of `met`. -/
structure Filled (namesOf : ℕ → List Bytes) (met : BindInfo → ℕ → Prop) (filling : Filling) :
    Prop where
  inOrder : InOrder filling.entries
  nonempty : ∀ entry ∈ filling.entries, entry.2 ≠ []
  increasing : ∀ entry ∈ filling.entries, entry.2.Pairwise (· < ·)
  mem_iff : ∀ entry ∈ filling.entries, ∀ i, i ∈ entry.2 ↔ met entry.1 i
  named : ∀ entry ∈ filling.entries, (entry.2.flatMap namesOf).Nodup
  complete : ∀ b i, met b i → b ∈ filling.entries.map Prod.fst
  names : ∀ b name, (b, name) ∈ filling.namesOfBindInfo ↔ ∃ i, met b i ∧ name ∈ namesOf i

variable {namesOf : ℕ → List Bytes} {met : BindInfo → ℕ → Prop} {filling filling' : Filling}

theorem filled_empty : Filled namesOf (fun _ _ => False) {} := by
  refine ⟨.nil, ?_, ?_, ?_, ?_, fun _ _ => False.elim, ?_⟩ <;> simp

/-- What has been met may be said in another way. -/
theorem Filled.congr (h : Filled namesOf met filling) {met' : BindInfo → ℕ → Prop}
    (hmet : ∀ b i, met b i ↔ met' b i) : Filled namesOf met' filling := by
  obtain rfl : met = met' := funext fun b => funext fun i => propext (hmet b i)
  exact h

/-- **One round**: a server that the address has not been met with is added to its list. -/
theorem Filled.push (h : Filled namesOf met filling) (hlast : ∀ i, met bindInfo i → i < n)
    {names : Finset (BindInfo × Bytes)}
    (hnames : addNames bindInfo (namesOf n) filling.namesOfBindInfo = .ok names) :
    Filled namesOf (fun b i => met b i ∨ b = bindInfo ∧ i = n)
      { entries := pushIndex bindInfo n filling.entries, namesOfBindInfo := names } := by
  obtain ⟨hnodup, hnew, hmem⟩ := addNames_ok hnames
  -- an entry of the new map is an old one, or an old one with the server added, or a new one
  have hcases : ∀ {p : BindInfo → List ℕ → Prop},
      (∀ entry ∈ filling.entries, entry.1 ≠ bindInfo → p entry.1 entry.2) →
      (∀ old, (bindInfo, old) ∈ filling.entries → p bindInfo (old ++ [n])) →
      (bindInfo ∉ filling.entries.map Prod.fst → p bindInfo [n]) →
      ∀ entry ∈ pushIndex bindInfo n filling.entries, p entry.1 entry.2 := by
    rintro p hother hold hfirst ⟨b, indices⟩ hentry
    rcases (mem_pushIndex h.inOrder).1 hentry with
      ⟨hne, hentry⟩ | ⟨rfl, ⟨old, hmem, rfl⟩ | ⟨hnotMem, rfl⟩⟩
    · exact hother _ hentry hne
    · exact hold old hmem
    · exact hfirst hnotMem
  refine ⟨inOrder_pushIndex h.inOrder, ?_, ?_, ?_, ?_, fun b i hmet => ?_, fun b name => ?_⟩
  · exact hcases (p := fun _ indices => indices ≠ []) (fun entry hentry _ => h.nonempty entry hentry)
      (fun _ _ => by simp) fun _ => by simp
  · refine hcases (p := fun _ indices => indices.Pairwise (· < ·))
      (fun entry hentry _ => h.increasing entry hentry) (fun old hold => ?_)
      fun _ => List.pairwise_singleton _ _
    refine List.pairwise_append.2 ⟨h.increasing _ hold, List.pairwise_singleton _ _, ?_⟩
    intro i hi j hj
    rw [List.mem_singleton.1 hj]
    exact hlast i ((h.mem_iff _ hold i).1 hi)
  · refine hcases (p := fun b indices => ∀ i, i ∈ indices ↔ met b i ∨ b = bindInfo ∧ i = n)
      (fun entry hentry hne i => ?_) (fun old hold i => ?_) fun hnotMem i => ?_
    · simp [h.mem_iff entry hentry i, hne]
    · simp [h.mem_iff _ hold i]
    · have hnone : ¬ met bindInfo i := fun hmet => hnotMem (h.complete _ _ hmet)
      simp [hnone]
  · refine hcases (p := fun _ indices => (indices.flatMap namesOf).Nodup)
      (fun entry hentry _ => h.named entry hentry) (fun old hold => ?_) fun _ => by simpa using hnodup
    rw [List.flatMap_append, List.flatMap_singleton, List.nodup_append']
    refine ⟨h.named _ hold, hnodup, fun name hname hname' => hnew name hname' ?_⟩
    obtain ⟨i, hi, hname⟩ := List.mem_flatMap.1 hname
    exact (h.names _ _).2 ⟨i, (h.mem_iff _ hold i).1 hi, hname⟩
  · have hkey : ∃ indices, (b, indices) ∈ pushIndex bindInfo n filling.entries := by
      by_cases hb : b = bindInfo
      · subst hb
        by_cases hold : b ∈ filling.entries.map Prod.fst
        · obtain ⟨⟨_, old⟩, hentry, rfl⟩ := List.mem_map.1 hold
          exact ⟨old ++ [n], (mem_pushIndex h.inOrder).2 (.inr ⟨rfl, .inl ⟨old, hentry, rfl⟩⟩)⟩
        · exact ⟨[n], (mem_pushIndex h.inOrder).2 (.inr ⟨rfl, .inr ⟨hold, rfl⟩⟩)⟩
      · rcases hmet with hmet | hmet
        · obtain ⟨⟨_, old⟩, hold, rfl⟩ := List.mem_map.1 (h.complete b i hmet)
          exact ⟨old, (mem_pushIndex h.inOrder).2 (.inl ⟨hb, hold⟩)⟩
        · exact absurd hmet.1 hb
    obtain ⟨indices, hindices⟩ := hkey
    exact List.mem_map_of_mem hindices
  · rw [hmem, h.names]
    constructor
    · rintro (⟨i, hmet, hname⟩ | ⟨rfl, hname⟩)
      · exact ⟨i, .inl hmet, hname⟩
      · exact ⟨n, .inr ⟨rfl, rfl⟩, hname⟩
    · rintro ⟨i, hmet | ⟨rfl, rfl⟩, hname⟩
      · exact .inl ⟨i, hmet, hname⟩
      · exact .inr ⟨rfl, hname⟩

/-! ## The loops -/

variable {getaddrinfo : Bytes → Bytes → Option BindInfo}

/-- A server listens on an address. -/
def ListensOn (getaddrinfo : Bytes → Bytes → Option BindInfo) (listen : List ListenEntry)
    (bindInfo : BindInfo) : Prop :=
  ∃ entry ∈ listen, getaddrinfo entry.address entry.port = some bindInfo

/-- **The loop over the entries of a server.** -/
theorem Filled.fillEntries {listen : List ListenEntry} {seen : Finset BindInfo}
    (h : Filled namesOf met filling) (hmet : ∀ b i, met b i → i ≤ n ∧ (i = n → b ∈ seen))
    (hfill : Config.fillEntries getaddrinfo (namesOf n) n listen seen filling = .ok filling') :
    Filled namesOf (fun b i => met b i ∨ i = n ∧ ListensOn getaddrinfo listen b) filling' := by
  induction listen generalizing seen filling met with
  | nil =>
    cases hfill
    exact h.congr fun b i => by simp [ListensOn]
  | cons entry listen ih =>
    rw [Config.fillEntries] at hfill
    split at hfill
    · cases hfill
    · rename_i bindInfo haddress
      split_ifs at hfill with hseen
      obtain ⟨names, hnames, hfill⟩ := except_bind_eq_ok hfill
      -- the server is not in the list of this address yet
      have hlast : ∀ i, met bindInfo i → i < n := fun i hi =>
        lt_of_le_of_ne (hmet _ i hi).1 fun heq => hseen ((hmet _ i hi).2 heq)
      refine (ih (h.push hlast hnames) ?_ hfill).congr fun b i => ?_
      · rintro b i (hi | ⟨rfl, rfl⟩)
        · exact ⟨(hmet b i hi).1, fun heq => Finset.mem_insert_of_mem ((hmet b i hi).2 heq)⟩
        · exact ⟨le_rfl, fun _ => Finset.mem_insert_self _ _⟩
      · simp only [ListensOn, List.exists_mem_cons_iff, haddress, Option.some.injEq]
        tauto

/-- **The loop over the servers.** -/
theorem Filled.fillServers {servers : List ServerEntry} (h : Filled namesOf met filling)
    (hmet : ∀ b i, met b i → i < n)
    (hnames : ∀ k server, servers[k]? = some server → namesOf (n + k) = server.serverNames)
    (hfill : Config.fillServers getaddrinfo servers n filling = .ok filling') :
    Filled namesOf (fun b i => met b i ∨ ∃ k server, i = n + k ∧ servers[k]? = some server ∧
      ListensOn getaddrinfo server.listen b) filling' := by
  induction servers generalizing n filling met with
  | nil =>
    cases hfill
    exact h.congr fun b i => by simp
  | cons server servers ih =>
    obtain ⟨filling₁, hentries, hfill⟩ := except_bind_eq_ok hfill
    have hname : namesOf n = server.serverNames := hnames 0 server rfl
    rw [← hname] at hentries
    have h₁ := h.fillEntries (fun b i hi => ⟨(hmet b i hi).le, fun heq => absurd heq (hmet b i hi).ne⟩)
      hentries
    refine (ih h₁ ?_ (fun k server' hk => ?_) hfill).congr fun b i => ?_
    · rintro b i (hi | ⟨rfl, -⟩)
      · exact Nat.lt_succ_of_lt (hmet b i hi)
      · exact Nat.lt_succ_self _
    · rw [← hnames (k + 1) server' hk, Nat.add_assoc, Nat.add_comm 1]
    · constructor
      · rintro ((hi | ⟨rfl, hlisten⟩) | ⟨k, server', rfl, hk, hlisten⟩)
        · exact .inl hi
        · exact .inr ⟨0, server, rfl, rfl, hlisten⟩
        · exact .inr ⟨k + 1, server', by omega, hk, hlisten⟩
      · rintro (hi | ⟨_ | k, server', rfl, hk, hlisten⟩)
        · exact .inl (.inl hi)
        · cases hk
          exact .inl (.inr ⟨rfl, hlisten⟩)
        · exact .inr ⟨k, server', by omega, hk, hlisten⟩

/-! ## Names -/

theorem toupper_toupper (b : UInt8) : toupper (toupper b) = toupper b := by
  unfold toupper
  split_ifs with h h' <;> first | rfl | skip
  exfalso
  have ha : (ch 'a').toNat = 97 := rfl
  have hz : (ch 'z').toNat = 122 := rfl
  rw [UInt8.le_iff_toNat_le, UInt8.le_iff_toNat_le, ha, hz] at h h'
  have hsub := UInt8.toNat_sub_of_le b 32 (UInt8.le_iff_toNat_le.2 (by
    have h32 : (32 : UInt8).toNat = 32 := rfl
    omega))
  have h32 : (32 : UInt8).toNat = 32 := rfl
  omega

theorem upper_upper (s : Bytes) : upper (upper s) = upper s := by
  simp [upper, toupper_toupper]

theorem mem_of_mapM {α β : Type} {f : α → Except ConfigFault β} {l : List α} {l' : List β}
    (h : l.mapM f = .ok l') : ∀ b ∈ l', ∃ a ∈ l, f a = .ok b := by
  induction l generalizing l' with
  | nil =>
    cases h
    simp
  | cons a l ih =>
    rw [List.mapM_cons] at h
    obtain ⟨b, hb, h⟩ := except_bind_eq_ok h
    obtain ⟨bs, hbs, h⟩ := except_bind_eq_ok h
    cases h
    intro b' hb'
    rcases List.mem_cons.1 hb' with rfl | hb'
    · exact ⟨a, List.mem_cons_self, hb⟩
    · obtain ⟨a', ha', hfa'⟩ := ih hbs b' hb'
      exact ⟨a', List.mem_cons_of_mem _ ha', hfa'⟩

theorem foldlM_invariant {α β : Type} {I : β → Prop} {f : β → α → Except ConfigFault β} {l : List α}
    {b b' : β} (hf : ∀ {b a b'}, a ∈ l → I b → f b a = .ok b' → I b') (hb : I b)
    (h : l.foldlM f b = .ok b') : I b' := by
  induction l generalizing b with
  | nil =>
    cases h
    exact hb
  | cons a l ih =>
    rw [List.foldlM_cons] at h
    obtain ⟨c, hc, h⟩ := except_bind_eq_ok h
    exact ih (fun ha => hf (List.mem_cons_of_mem _ ha)) (hf List.mem_cons_self hb hc) h

/-- The names of a server are in upper case. -/
theorem upper_of_parseServer {serverNode : Node} {server : ServerEntry}
    (h : parseServer serverNode = .ok server) : ∀ name ∈ server.serverNames, upper name = name := by
  obtain ⟨members, -, h⟩ := except_bind_eq_ok h
  refine foldlM_invariant (I := fun server : ServerEntry =>
    ∀ name ∈ server.serverNames, upper name = name) (fun {d member d'} _ hd hmember => ?_) (by simp) h
  unfold parseServerMember at hmember
  dsimp only at hmember
  split_ifs at hmember
  · obtain ⟨elements, -, hmember⟩ := except_bind_eq_ok hmember
    obtain ⟨listen, -, hmember⟩ := except_bind_eq_ok hmember
    cases hmember
    exact hd
  · obtain ⟨elements, -, hmember⟩ := except_bind_eq_ok hmember
    obtain ⟨names, hmap, hmember⟩ := except_bind_eq_ok hmember
    cases hmember
    intro name hname
    rcases List.mem_append.1 hname with hname | hname
    · exact hd name hname
    · obtain ⟨node, -, hnode⟩ := mem_of_mapM hmap name hname
      cases hs : node.getString with
      | error e =>
        rw [hs] at hnode
        cases hnode
      | ok s =>
        rw [hs] at hnode
        cases hnode
        exact upper_upper s
  · obtain ⟨members', -, hmember⟩ := except_bind_eq_ok hmember
    obtain ⟨locations, -, hmember⟩ := except_bind_eq_ok hmember
    cases hmember
    exact hd
  · obtain ⟨members', -, hmember⟩ := except_bind_eq_ok hmember
    obtain ⟨errorPages, -, hmember⟩ := except_bind_eq_ok hmember
    cases hmember
    exact hd

/-! ## Accepted configurations -/

/-- The names of the server at an index. -/
def namesAt (servers : List ServerEntry) (i : ℕ) : List Bytes :=
  (servers[i]?.map fun server => server.serverNames).getD []

theorem namesAt_of {servers : List ServerEntry} {i : ℕ} {server : ServerEntry}
    (h : servers[i]? = some server) : namesAt servers i = server.serverNames := by
  rw [namesAt, h]
  rfl

/-- The list of the servers of every address is what it should be. -/
structure Listed (getaddrinfo : Bytes → Bytes → Option BindInfo) (config : ParsedConfig) : Prop where
  distinct : (config.bindInfoToServerIndices.map Prod.fst).Nodup
  nonempty : ∀ entry ∈ config.bindInfoToServerIndices, entry.2 ≠ []
  increasing : ∀ entry ∈ config.bindInfoToServerIndices, entry.2.Pairwise (· < ·)
  below : ∀ entry ∈ config.bindInfoToServerIndices, ∀ i ∈ entry.2, i < config.servers.length
  /-- The list has exactly the servers that listen on the address. -/
  mem_iff : ∀ entry ∈ config.bindInfoToServerIndices, ∀ i, i ∈ entry.2 ↔
    ∃ server, config.servers[i]? = some server ∧ ListensOn getaddrinfo server.listen entry.1
  /-- Every address that is listened on has a list. -/
  complete : ∀ server ∈ config.servers, ∀ bindInfo, ListensOn getaddrinfo server.listen bindInfo →
    bindInfo ∈ config.bindInfoToServerIndices.map Prod.fst
  /-- No name occurs twice among the servers of an address, whatever its case. -/
  named : ∀ entry ∈ config.bindInfoToServerIndices,
    (entry.2.flatMap fun i => (namesAt config.servers i).map upper).Nodup

/-- What is read of the servers, and what is made of it. -/
theorem servers_of_parse {root : Node} {config : ParsedConfig}
    (h : parse getaddrinfo root = .ok config) :
    (∀ server ∈ config.servers, ∀ name ∈ server.serverNames, upper name = name) ∧
      fillBindInfoToServerIndices getaddrinfo config.servers = .ok config.bindInfoToServerIndices := by
  obtain ⟨_, -, h⟩ := except_bind_eq_ok h
  obtain ⟨_, -, h⟩ := except_bind_eq_ok h
  obtain ⟨_, -, h⟩ := except_bind_eq_ok h
  obtain ⟨_, -, h⟩ := except_bind_eq_ok h
  obtain ⟨_, -, h⟩ := except_bind_eq_ok h
  obtain ⟨_, -, h⟩ := except_bind_eq_ok h
  obtain ⟨_, -, h⟩ := except_bind_eq_ok h
  obtain ⟨servers, hservers, h⟩ := except_bind_eq_ok h
  obtain ⟨entries, hentries, h⟩ := except_bind_eq_ok h
  cases h
  refine ⟨fun server hserver => ?_, hentries⟩
  obtain ⟨node, -, hnode⟩ := mem_of_mapM hservers server hserver
  exact upper_of_parseServer hnode

theorem map_upper_namesAt {servers : List ServerEntry}
    (h : ∀ server ∈ servers, ∀ name ∈ server.serverNames, upper name = name) (i : ℕ) :
    (namesAt servers i).map upper = namesAt servers i := by
  cases hi : servers[i]? with
  | none => simp [namesAt, hi]
  | some server =>
    rw [namesAt_of hi]
    exact (List.map_congr_left (h server (List.mem_of_getElem? hi))).trans (List.map_id' _)

/-- **An accepted configuration lists the servers of every address.** -/
theorem listed_of_parse {root : Node} {config : ParsedConfig}
    (h : parse getaddrinfo root = .ok config) : Listed getaddrinfo config := by
  obtain ⟨hupper, hfill⟩ := servers_of_parse h
  have hfilled : ∃ filling, Config.fillServers getaddrinfo config.servers 0 {} = .ok filling ∧
      filling.entries = config.bindInfoToServerIndices := by
    unfold fillBindInfoToServerIndices at hfill
    cases hservers : Config.fillServers getaddrinfo config.servers 0 {} with
    | error e =>
      rw [hservers] at hfill
      cases hfill
    | ok filling =>
      rw [hservers] at hfill
      exact ⟨filling, rfl, Except.ok.inj hfill⟩
  obtain ⟨filling, hservers, hentries⟩ := hfilled
  have hresult : Filled (namesAt config.servers) (fun b i => ∃ server,
      config.servers[i]? = some server ∧ ListensOn getaddrinfo server.listen b) filling := by
    refine (filled_empty.fillServers (n := 0) (fun _ _ => False.elim) (fun k server hk => ?_)
      hservers).congr fun b i => by simp
    rw [Nat.zero_add, namesAt_of hk]
  obtain ⟨hinOrder, hnonempty, hincreasing, hmem, hnamed, hcomplete, -⟩ := hresult
  rw [hentries] at hinOrder hnonempty hincreasing hmem hnamed hcomplete
  refine ⟨?_, hnonempty, hincreasing, fun entry hentry i hi => ?_, hmem, ?_, fun entry hentry => ?_⟩
  · exact List.pairwise_map.2 (hinOrder.imp BindInfo.ne_of_lt)
  · obtain ⟨server, hserver, -⟩ := (hmem entry hentry i).1 hi
    exact (List.getElem?_eq_some_iff.1 hserver).1
  · intro server hserver bindInfo hlisten
    obtain ⟨i, hi⟩ := List.mem_iff_getElem?.1 hserver
    exact hcomplete bindInfo i ⟨server, hi, hlisten⟩
  · simp only [map_upper_namesAt hupper]
    exact hnamed entry hentry

end Config

end Webserv
