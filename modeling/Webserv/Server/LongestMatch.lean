import Webserv.Server.Location

/-!
# The location of a request target

`_resolveToLocation` picks the longest matching uri (`resolveToLocation_eq_longest`). A better match
overwrites every field of the result so far (`resolveLocation_congr`), so nothing of a shorter match
is left, and only the location that is picked counts.
-/

namespace Webserv.Server

open Exec Utils

variable {fs : FileSystem} {requestTarget : Bytes}

theorem startsWith_iff {haystack needle : Bytes} :
    startsWith haystack needle = true ↔ needle <+: haystack := by
  rw [startsWith, List.isPrefixOf_iff_prefix]

/-- The location with the longest uri that the target begins with. -/
structure IsLongest (requestTarget : Bytes) (locations : List LocationDirective)
    (location : LocationDirective) : Prop where
  mem : location ∈ locations
  isMatch : location.uri <+: requestTarget
  longest : ∀ other ∈ locations, other.uri <+: requestTarget →
    other.uri.length ≤ location.uri.length

/-- What `Config` makes sure of: the uris start with `/`, and they are the keys of a map. -/
structure Distinct (locations : List LocationDirective) : Prop where
  slash : ∀ location ∈ locations, location.uri.head? = some (ch '/')
  nodup : (locations.map LocationDirective.uri).Nodup

/-! ## One location -/

/-- **A match overwrites every field of the result so far.** -/
theorem resolveLocation_congr (fs : FileSystem) (requestTarget : Bytes)
    (location : LocationDirective) (resolved resolved' : ResolvedLocation) :
    resolveLocation fs requestTarget location resolved =
      resolveLocation fs requestTarget location resolved' := rfl

theorem resolveCgi_resolved {root : Bytes} {resolved resolved' : ResolvedLocation}
    (h : resolveCgi fs root requestTarget resolved = .ok resolved') :
    resolved'.resolved = resolved.resolved := by
  simp only [resolveCgi] at h
  obtain ⟨⟨path, targetIsDirectory⟩, -, h⟩ := except_bind_eq_ok h
  split at h
  · obtain ⟨last, -, h⟩ := except_bind_eq_ok h
    obtain ⟨last', -, h⟩ := except_bind_eq_ok h
    split at h <;> cases h <;> rfl
  · obtain ⟨canonicalPath, -, h⟩ := except_bind_eq_ok h
    obtain ⟨canonicalPathInfo, -, h⟩ := except_bind_eq_ok h
    cases h
    rfl

theorem resolveLocation_resolved {location : LocationDirective}
    {resolved resolved' : ResolvedLocation}
    (h : resolveLocation fs requestTarget location resolved = .ok resolved') :
    resolved'.resolved = true := by
  simp only [resolveLocation] at h
  obtain ⟨canonical, -, h⟩ := except_bind_eq_ok h
  split at h
  · cases h
    rfl
  · split at h
    · exact resolveCgi_resolved h
    · split at h <;> cases h <;> rfl

theorem resolveToLocation_singleton {location : LocationDirective}
    (hslash : location.uri.head? = some (ch '/')) (hmatch : location.uri <+: requestTarget) :
    resolveToLocation fs requestTarget [location] =
      resolveLocation fs requestTarget location {} := by
  have hpos : 0 < location.uri.length := by
    cases huri : location.uri with
    | nil => simp [huri] at hslash
    | cons b uri => simp
  rw [resolveToLocation, resolveFrom, if_pos ⟨startsWith_iff.2 hmatch, hpos⟩]
  cases resolveLocation fs requestTarget location {} <;> rfl

/-! ## The loop -/

/-- **What the loop returns**: the result so far if no uri that is longer matches, and otherwise the
result of the longest one. -/
theorem resolveFrom_eq_ok {locations : List LocationDirective} {longestUriLength : ℕ}
    {resolved resolved' : ResolvedLocation}
    (h : resolveFrom fs requestTarget locations longestUriLength resolved = .ok resolved') :
    (resolved' = resolved ∧
        ∀ other ∈ locations, other.uri <+: requestTarget → other.uri.length ≤ longestUriLength) ∨
      ∃ location, IsLongest requestTarget locations location ∧
        longestUriLength < location.uri.length ∧
        resolveLocation fs requestTarget location {} = .ok resolved' := by
  induction locations generalizing longestUriLength resolved with
  | nil =>
    cases h
    exact .inl ⟨rfl, by simp⟩
  | cons first locations ih =>
    rw [resolveFrom] at h
    split at h
    · rename_i hfirst
      obtain ⟨hmatch, hlonger⟩ := hfirst
      obtain ⟨found, hfound, h⟩ := except_bind_eq_ok h
      rcases ih h with ⟨rfl, hshort⟩ | ⟨location, hlongest, hlt, hlocation⟩
      · refine .inr ⟨first, ⟨by simp, startsWith_iff.1 hmatch, ?_⟩, hlonger, hfound⟩
        simpa using hshort
      · refine .inr ⟨location, ⟨by simp [hlongest.mem], hlongest.isMatch, ?_⟩, by omega, hlocation⟩
        simpa using ⟨fun _ => hlt.le, hlongest.longest⟩
    · rename_i hfirst
      have hshort : first.uri <+: requestTarget → first.uri.length ≤ longestUriLength := by
        intro hmatch
        by_contra hlonger
        exact hfirst ⟨startsWith_iff.2 hmatch, by omega⟩
      rcases ih h with ⟨rfl, hrest⟩ | ⟨location, hlongest, hlt, hlocation⟩
      · exact .inl ⟨rfl, by simpa using ⟨hshort, hrest⟩⟩
      · refine .inr ⟨location, ⟨by simp [hlongest.mem], hlongest.isMatch, ?_⟩, hlt, hlocation⟩
        simpa using ⟨fun hmatch => (hshort hmatch).trans hlt.le, hlongest.longest⟩

/-- The loop returns unless a location that matches throws. -/
theorem exists_resolveFrom {locations : List LocationDirective}
    (h : ∀ location ∈ locations, location.uri <+: requestTarget →
      ∃ resolved, resolveLocation fs requestTarget location {} = .ok resolved)
    (longestUriLength : ℕ) (resolved : ResolvedLocation) :
    ∃ resolved', resolveFrom fs requestTarget locations longestUriLength resolved =
      .ok resolved' := by
  induction locations generalizing longestUriLength resolved with
  | nil => exact ⟨resolved, rfl⟩
  | cons first locations ih =>
    have hrest := ih fun location hlocation => h location (by simp [hlocation])
    rw [resolveFrom]
    split
    · rename_i hfirst
      obtain ⟨found, hfound⟩ := h first (by simp) (startsWith_iff.1 hfirst.1)
      obtain ⟨resolved', hresolved'⟩ := hrest first.uri.length found
      refine ⟨resolved', ?_⟩
      rw [resolveLocation_congr fs requestTarget first resolved {}, hfound]
      exact hresolved'
    · exact hrest longestUriLength resolved

/-! ## The longest match -/

/-- There is only one longest match. -/
theorem IsLongest.unique {locations : List LocationDirective} (hd : Distinct locations)
    {location location' : LocationDirective} (h : IsLongest requestTarget locations location)
    (h' : IsLongest requestTarget locations location') : location = location' := by
  have hlength : location.uri.length = location'.uri.length :=
    le_antisymm (h'.longest _ h.mem h.isMatch) (h.longest _ h'.mem h'.isMatch)
  have huri : location.uri = location'.uri :=
    (List.prefix_of_prefix_length_le h.isMatch h'.isMatch hlength.le).eq_of_length hlength
  exact List.inj_on_of_nodup_map hd.nodup h.mem h'.mem huri

/-- The order of the locations does not matter for the longest match. -/
theorem IsLongest.perm {locations locations' : List LocationDirective}
    {location : LocationDirective} (h : IsLongest requestTarget locations location)
    (hperm : locations.Perm locations') : IsLongest requestTarget locations' location :=
  ⟨hperm.mem_iff.1 h.mem, h.isMatch, fun other hother => h.longest other (hperm.mem_iff.2 hother)⟩

/-- Another location does not matter for the longest match if it does not match, or a longer uri
does. -/
theorem IsLongest.insert {before after : List LocationDirective}
    {location extra : LocationDirective}
    (h : IsLongest requestTarget (before ++ after) location)
    (hextra : extra.uri <+: requestTarget → ∃ other ∈ before ++ after,
      other.uri <+: requestTarget ∧ extra.uri.length < other.uri.length) :
    IsLongest requestTarget (before ++ extra :: after) location := by
  refine ⟨?_, h.isMatch, ?_⟩
  · have hmem := h.mem
    simp only [List.mem_append, List.mem_cons] at hmem ⊢
    tauto
  · intro other hother hmatch
    have hcases : other = extra ∨ other ∈ before ++ after := by
      simp only [List.mem_append, List.mem_cons] at hother ⊢
      tauto
    rcases hcases with rfl | hother
    · obtain ⟨longer, hmem, hlonger, hlt⟩ := hextra hmatch
      exact hlt.le.trans (h.longest longer hmem hlonger)
    · exact h.longest other hother hmatch

theorem Distinct.perm {locations locations' : List LocationDirective} (hd : Distinct locations)
    (hperm : locations.Perm locations') : Distinct locations' :=
  ⟨fun location hlocation => hd.slash location (hperm.mem_iff.2 hlocation),
    (hperm.map LocationDirective.uri).nodup_iff.1 hd.nodup⟩

theorem Distinct.remove {before after : List LocationDirective} {extra : LocationDirective}
    (hd : Distinct (before ++ extra :: after)) : Distinct (before ++ after) := by
  have hsub : (before ++ after).Sublist (before ++ extra :: after) :=
    (List.sublist_cons_self extra after).append_left before
  exact ⟨fun location hlocation => hd.slash location (hsub.subset hlocation),
    hd.nodup.sublist (hsub.map LocationDirective.uri)⟩

/-! ## The result -/

variable {locations : List LocationDirective} {resolved : ResolvedLocation}

theorem resolveToLocation_resolved_iff (hd : Distinct locations)
    (h : resolveToLocation fs requestTarget locations = .ok resolved) :
    resolved.resolved = true ↔ ∃ location ∈ locations, location.uri <+: requestTarget := by
  rcases resolveFrom_eq_ok h with ⟨rfl, hshort⟩ | ⟨location, hlongest, -, hlocation⟩
  · refine iff_of_false (by simp) ?_
    rintro ⟨location, hmem, hmatch⟩
    have hslash := hd.slash location hmem
    have hnil := List.length_eq_zero_iff.1 (Nat.le_zero.1 (hshort location hmem hmatch))
    simp [hnil] at hslash
  · exact iff_of_true (resolveLocation_resolved hlocation)
      ⟨location, hlongest.mem, hlongest.isMatch⟩

theorem exists_isLongest
    (h : resolveToLocation fs requestTarget locations = .ok resolved)
    (hresolved : resolved.resolved = true) :
    ∃ location, IsLongest requestTarget locations location := by
  rcases resolveFrom_eq_ok h with ⟨rfl, -⟩ | ⟨location, hlongest, -⟩
  · cases hresolved
  · exact ⟨location, hlongest⟩

/-- **Only the longest match counts.** -/
theorem resolveToLocation_eq_longest (hd : Distinct locations)
    (h : resolveToLocation fs requestTarget locations = .ok resolved)
    {location : LocationDirective} (hlongest : IsLongest requestTarget locations location) :
    resolveToLocation fs requestTarget [location] = .ok resolved := by
  have hresolved := (resolveToLocation_resolved_iff hd h).2
    ⟨location, hlongest.mem, hlongest.isMatch⟩
  rcases resolveFrom_eq_ok h with ⟨rfl, -⟩ | ⟨location', hlongest', -, hlocation⟩
  · cases hresolved
  · obtain rfl := hlongest.unique hd hlongest'
    rw [resolveToLocation_singleton (hd.slash location hlongest.mem) hlongest.isMatch, hlocation]

/-- Two lists with the same longest match give the same result. -/
theorem resolveToLocation_unique {locations' : List LocationDirective}
    {resolved' : ResolvedLocation} (hd : Distinct locations) (hd' : Distinct locations')
    (h : resolveToLocation fs requestTarget locations = .ok resolved)
    (h' : resolveToLocation fs requestTarget locations' = .ok resolved')
    (hlongest : ∀ location, IsLongest requestTarget locations location →
      IsLongest requestTarget locations' location)
    (hmatch : ∀ location' ∈ locations', location'.uri <+: requestTarget →
      ∃ location ∈ locations, location.uri <+: requestTarget) : resolved' = resolved := by
  by_cases hresolved : resolved.resolved = true
  · obtain ⟨location, hlocation⟩ := exists_isLongest h hresolved
    have heq := resolveToLocation_eq_longest hd h hlocation
    rw [resolveToLocation_eq_longest hd' h' (hlongest location hlocation)] at heq
    exact Except.ok.inj heq
  · have hnone : ¬ ∃ location ∈ locations, location.uri <+: requestTarget :=
      fun hsome => hresolved ((resolveToLocation_resolved_iff hd h).2 hsome)
    have hempty : ∀ {list : List LocationDirective} {result : ResolvedLocation},
        resolveToLocation fs requestTarget list = .ok result →
        (¬ ∃ location ∈ list, location.uri <+: requestTarget) → result = {} := by
      intro list result hlist hno
      rcases resolveFrom_eq_ok hlist with ⟨rfl, -⟩ | ⟨location, hlocation, -⟩
      · rfl
      · exact absurd ⟨location, hlocation.mem, hlocation.isMatch⟩ hno
    have hnone' : ¬ ∃ location ∈ locations', location.uri <+: requestTarget :=
      fun ⟨location', hmem, hm⟩ => hnone (hmatch location' hmem hm)
    rw [hempty h hnone, hempty h' hnone']

/-- **Location resolution is longest-prefix matching, whatever the order of the locations.** It
returns unless a location that matches throws by itself, and its result is, in every field, that of
the longest match alone. -/
theorem resolveToLocation_longest (fs : FileSystem) (requestTarget : Bytes)
    {locations : List LocationDirective} (hd : Distinct locations) :
    ((∀ location ∈ locations, location.uri <+: requestTarget →
        ∃ resolved, resolveToLocation fs requestTarget [location] = .ok resolved) →
      ∃ resolved, resolveToLocation fs requestTarget locations = .ok resolved) ∧
    ∀ resolved, resolveToLocation fs requestTarget locations = .ok resolved →
      (resolved.resolved = true ↔ ∃ location ∈ locations, location.uri <+: requestTarget) ∧
      (resolved.resolved = true → ∃ location, IsLongest requestTarget locations location) ∧
      (∀ location, IsLongest requestTarget locations location →
        resolveToLocation fs requestTarget [location] = .ok resolved) ∧
      (∀ locations' resolved', locations.Perm locations' →
        resolveToLocation fs requestTarget locations' = .ok resolved' → resolved' = resolved) ∧
      (∀ before extra after resolved', locations = before ++ extra :: after →
        (extra.uri <+: requestTarget → ∃ other ∈ before ++ after,
          other.uri <+: requestTarget ∧ extra.uri.length < other.uri.length) →
        resolveToLocation fs requestTarget (before ++ after) = .ok resolved' →
        resolved' = resolved) := by
  refine ⟨?_, fun resolved h => ⟨resolveToLocation_resolved_iff hd h, exists_isLongest h,
    fun location => resolveToLocation_eq_longest hd h, ?_, ?_⟩⟩
  · intro h
    refine exists_resolveFrom ?_ 0 {}
    intro location hmem hmatch
    rw [← resolveToLocation_singleton (hd.slash location hmem) hmatch]
    exact h location hmem hmatch
  · intro locations' resolved' hperm h'
    refine resolveToLocation_unique hd (hd.perm hperm) h h' (fun location hl => hl.perm hperm) ?_
    exact fun location' hmem hmatch => ⟨location', hperm.mem_iff.2 hmem, hmatch⟩
  · rintro before extra after resolved' rfl hextra h'
    refine (resolveToLocation_unique hd.remove hd h' h (fun location hl => hl.insert hextra) ?_).symm
    intro location hmem hmatch
    by_cases hloc : location ∈ before ++ after
    · exact ⟨location, hloc, hmatch⟩
    · obtain rfl : location = extra := by
        simp only [List.mem_append, List.mem_cons] at hmem hloc
        tauto
      obtain ⟨other, hother, hm, -⟩ := hextra hmatch
      exact ⟨other, hother, hm⟩

/-- A location for CGIs. -/
def scripts : LocationDirective where
  uri := bytes "/"
  root := bytes "cgi"
  cgiExecvePath := bytes "/bin/sh"

/-- A location for files, below it. -/
def files : LocationDirective where
  uri := bytes "/a"
  root := bytes "public"
  index := bytes "i"

theorem resolveToLocation_longest_files :
    ∃ resolved, resolveToLocation {} (bytes "/a/b?c") [scripts, files] = .ok resolved ∧
      resolved.resolved = true ∧ resolved.queryString = [] ∧
      resolveToLocation {} (bytes "/a/b?c") [files] = .ok resolved := by
  have hd : Distinct [scripts, files] := ⟨by simp [scripts, files, bytes], by decide +kernel⟩
  obtain ⟨-, hresult⟩ := resolveToLocation_longest {} (bytes "/a/b?c") hd
  obtain ⟨hiff, -, hlongest, -⟩ := hresult _ rfl
  have hfiles : files.uri <+: bytes "/a/b?c" := by decide +kernel
  have hlength : scripts.uri.length ≤ files.uri.length := by decide +kernel
  refine ⟨_, rfl, hiff.2 ⟨files, by simp, hfiles⟩, rfl, hlongest files ⟨by simp, hfiles, ?_⟩⟩
  simp [hlength]

end Webserv.Server
