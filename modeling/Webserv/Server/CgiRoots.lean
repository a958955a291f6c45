import Webserv.Config.Addresses
import Webserv.Server.CgiSplit

/-!
# The root of a location with a CGI

The walk along the components starts at the first byte of the root. If this is a slash, the first
component is the empty path, which is no directory, so the walk stops there and the path of the script
is empty; and a question mark in the root is taken for the start of the query string. Otherwise, if the
root and what leads to it are directories, the walk goes on behind the root (`keepsRoot_iff`).
-/

namespace Webserv.Server

open Exec Search LexicalPath

/-! ## What `_parseLocation` makes sure of -/

/-- Only the property of its name sets a redirect or the path of an interpreter. -/
theorem parseProperty_keys {members : Members} {directive directive' : LocationDirective}
    {property : Bytes × Node} (hmem : property ∈ members)
    (hredirect : directive.redirect ≠ [] → Members.contains members (bytes "redirect") = true)
    (hcgi : directive.cgiExecvePath ≠ [] → Members.contains members (bytes "cgi_execve_path") = true)
    (h : Config.parseProperty directive property = .ok directive') :
    (directive'.redirect ≠ [] → Members.contains members (bytes "redirect") = true) ∧
      (directive'.cgiExecvePath ≠ [] → Members.contains members (bytes "cgi_execve_path") = true) ∧
      directive'.uri = directive.uri := by
  have hkey : ∀ {key : Bytes}, property.1 = key → members.contains key = true := by
    rintro key rfl
    rw [Members.contains, List.lookup_isSome_iff]
    exact ⟨property, hmem, by simp⟩
  unfold Config.parseProperty at h
  dsimp only at h
  split_ifs at h with hkey₁ _ _ _ _ _ hkey₂
  all_goals
    obtain ⟨value, -, h⟩ := except_bind_eq_ok h
    cases h
  · exact ⟨hredirect, fun _ => hkey hkey₁, rfl⟩
  · exact ⟨hredirect, hcgi, rfl⟩
  · exact ⟨hredirect, hcgi, rfl⟩
  · exact ⟨hredirect, hcgi, rfl⟩
  · exact ⟨hredirect, hcgi, rfl⟩
  · exact ⟨hredirect, hcgi, rfl⟩
  · exact ⟨fun _ => hkey hkey₂, hcgi, rfl⟩
  · exact ⟨hredirect, hcgi, rfl⟩

/-- A location with a CGI has no redirect, and its uri starts with a slash. -/
theorem parseLocation_cgi {locationNode : Bytes × Node} {location : LocationDirective}
    (h : Config.parseLocation locationNode = .ok location) (hcgi : location.cgiExecvePath ≠ []) :
    location.redirect = [] ∧ location.uri.head? = some (ch '/') := by
  obtain ⟨members, hobject, h⟩ := except_bind_eq_ok h
  dsimp only at h
  split_ifs at h with hneither hother hboth hslash
  have hkeys := Config.foldlM_invariant
    (I := fun d : LocationDirective => (d.redirect ≠ [] → Members.contains members (bytes "redirect") = true) ∧
      (d.cgiExecvePath ≠ [] → Members.contains members (bytes "cgi_execve_path") = true) ∧ d.uri = locationNode.1)
    (fun hmem hd hproperty =>
      have hd' := parseProperty_keys hmem hd.1 hd.2.1 hproperty
      ⟨hd'.1, hd'.2.1, hd'.2.2.trans hd.2.2⟩)
    ⟨fun hne => absurd rfl hne, fun hne => absurd rfl hne, rfl⟩ h
  obtain ⟨hredirect, hcgi', huri⟩ := hkeys
  refine ⟨by_contra fun hne => ?_, huri ▸ not_not.1 hslash⟩
  -- two properties, one of them a redirect
  have hlength := not_lt.1 fun hlt => hother ⟨hredirect hne, hlt⟩
  have hsame := (Config.hasKeys_singleton (hredirect hne) hlength _).1 (hcgi' hcgi)
  exact absurd hsame (by decide)

/-! ## The walk -/

/-- A root and what leads to it are directories. -/
def AllDirectories (isDirectory : Bytes → Bool) (root : Bytes) : Prop :=
  ∀ path, path <+: root → path ≠ [] → root[path.length]? = some (ch '/') ∨ path = root →
    isDirectory path = true

/-- A root without the slashes at its end. -/
def withoutSlashes (root : Bytes) : Bytes := root.rdropWhile (· = ch '/')

variable {fs : FileSystem} {isDirectory : Bytes → Bool} {root requestTarget path : Bytes}
  {targetIsDirectory : Bool}

theorem question_mem_withoutSlashes (h : ch '?' ∈ root) : ch '?' ∈ withoutSlashes root := by
  have hslash : ch '?' ≠ ch '/' := by decide
  induction root using List.reverseRecOn with
  | nil => cases h
  | append_singleton root b ih =>
    rw [withoutSlashes, List.rdropWhile_concat]
    split_ifs with hb
    · refine ih ((List.mem_append.1 h).resolve_right fun hmem => ?_)
      rw [List.mem_singleton.1 hmem] at hslash
      exact hslash (by simpa using hb)
    · exact h

/-- **The walk goes on behind a root that is a directory.** -/
theorem IsStop.root_isPrefix (hfs : ∀ path, fs.isDirectory path = some (isDirectory path))
    (hdirs : AllDirectories isDirectory root) (htarget : requestTarget.head? = some (ch '/'))
    (hslash : root.head? ≠ some (ch '/')) (hquestion : ch '?' ∉ root)
    (h : IsStop fs (root ++ requestTarget) path targetIsDirectory) : root <+: path := by
  refine List.prefix_of_prefix_length_le (List.prefix_append _ _) h.isPrefix (not_lt.1 fun hlt => ?_)
  have hpos : 0 < requestTarget.length := by
    cases requestTarget with
    | nil => cases htarget
    | cons b rest => exact Nat.succ_pos _
  have hget : (root ++ requestTarget)[path.length]? = root[path.length]? :=
    List.getElem?_append_left hlt
  -- the walk has stopped inside the root, before a slash
  have hends : root[path.length]? = some (ch '/') := by
    rcases h.ends with hends | hends | ⟨hend, -⟩
    · exact hget.symm.trans hends
    · exact absurd (List.mem_of_getElem? (hget.symm.trans hends)) hquestion
    · rw [List.length_append] at hend
      omega
  have hpath : path <+: root :=
    List.prefix_of_prefix_length_le h.isPrefix (List.prefix_append _ _) hlt.le
  have hne : path ≠ [] := by
    rintro rfl
    exact hslash (by rw [List.head?_eq_getElem?]; exact hends)
  have htrue : targetIsDirectory = true := by
    rw [← hdirs path hpath hne (.inl hends)]
    exact Option.some.inj (h.isDirectory.symm.trans (hfs path))
  rcases h.stops htrue with hmark | hend
  · cases hends.symm.trans (hget.symm.trans hmark)
  · rw [List.length_append] at hend
    omega

/-- A root that starts with a slash is not even entered. -/
theorem IsStop.path_nil (hfs : ∀ path, fs.isDirectory path = some (isDirectory path))
    (hnil : isDirectory [] = false) (hslash : root.head? = some (ch '/'))
    (h : IsStop fs (root ++ requestTarget) path targetIsDirectory) : path = [] := by
  by_contra hne
  have hfirst : (root ++ requestTarget)[0]? = some (ch '/') := by
    rw [← List.head?_eq_getElem?, List.head?_append, hslash]
    rfl
  have htrue := (h.before 0 (List.length_pos_iff.2 hne) (.inl hfirst)).1
  rw [List.take_zero, hfs, hnil] at htrue
  cases htrue

/-! ## The path of a location -/

/-- The path of a location is not empty, and begins with the root before it is made canonical. -/
structure KeepsRoot (fs : FileSystem) (root requestTarget : Bytes) (resolved : ResolvedLocation) :
    Prop where
  path_ne : resolved.path ≠ []
  begins : ∃ found, walkCgiPath fs (root ++ requestTarget) ((root ++ requestTarget).length + 1) 0
      ([], true) = .ok found ∧
    withoutSlashes root <+: (splitAt (root ++ requestTarget) found).path

theorem splitAt_path (unsplitPath path : Bytes) (targetIsDirectory : Bool) :
    (splitAt unsplitPath (path, targetIsDirectory)).path = path ∨
      (splitAt unsplitPath (path, targetIsDirectory)).path = path ++ [ch '/'] := by
  cases targetIsDirectory with
  | false => exact .inl rfl
  | true =>
    rw [splitAt]
    split_ifs
    · exact .inr rfl
    · exact .inl rfl

/-- What is made canonical stays empty or not empty. -/
theorem canonicalise_path (hempty : ∀ path canonical, fs.weaklyCanonical path = some canonical →
      (canonical = [] ↔ path = [])) {split : CgiSplit} {resolved resolved' : ResolvedLocation}
    (h : canonicalise fs split resolved = .ok resolved') : resolved'.path = [] ↔ split.path = [] := by
  unfold canonicalise at h
  split_ifs at h
  · cases h
    exact Iff.rfl
  · obtain ⟨canonicalPath, hcanonical, h⟩ := except_bind_eq_ok h
    obtain ⟨canonicalPathInfo, -, h⟩ := except_bind_eq_ok h
    cases h
    exact hempty _ _ (orFilesystemError_ok hcanonical)

theorem resolveCgi_keepsRoot_iff (hfs : ∀ path, fs.isDirectory path = some (isDirectory path))
    (hnil : isDirectory [] = false)
    (hempty : ∀ path canonical, fs.weaklyCanonical path = some canonical → (canonical = [] ↔ path = []))
    (hroot : root ≠ []) (hdirs : AllDirectories isDirectory root)
    (htarget : requestTarget.head? = some (ch '/')) {resolved resolved' : ResolvedLocation}
    (h : resolveCgi fs root requestTarget resolved = .ok resolved') :
    KeepsRoot fs root requestTarget resolved' ↔ root.head? ≠ some (ch '/') ∧ ch '?' ∉ root := by
  have hne : root ++ requestTarget ≠ [] := by simp [hroot]
  obtain ⟨⟨path, targetIsDirectory⟩, hwalk⟩ := @exists_walkCgiPath fs (root ++ requestTarget)
    isDirectory hfs ((root ++ requestTarget).length + 1) 0 ([], true)
  have hstop : IsStop fs (root ++ requestTarget) path targetIsDirectory :=
    walkCgiPath_stop (by omega) ⟨Nat.zero_le _, by simp⟩ (.inl (List.length_pos_iff.2 hne)) hwalk
  have hpath : targetIsDirectory = true → path ≠ [] ∧ root ++ requestTarget ≠ [] := by
    rintro rfl
    refine ⟨?_, hne⟩
    rintro rfl
    have htrue := hstop.isDirectory
    rw [hfs, hnil] at htrue
    cases htrue
  rw [resolveCgi_eq hwalk hpath] at h
  have hsplit := splitAt_path (root ++ requestTarget) path targetIsDirectory
  constructor
  · rintro ⟨hpath_ne, found, hwalk', hbegins⟩
    cases hwalk.symm.trans hwalk'
    refine ⟨fun hslash => hpath_ne ((canonicalise_path hempty h).2 ?_), fun hquestion => ?_⟩
    · have hnil' := hstop.path_nil hfs hnil hslash
      cases htrue : targetIsDirectory with
      | false => exact hnil'
      | true => exact absurd hnil' (hpath htrue).1
    · -- the walk does not go beyond a question mark
      have hmem := hbegins.subset (question_mem_withoutSlashes hquestion)
      have hnotMem := hstop.question_notMem
      rcases hsplit with heq | heq
      · rw [heq] at hmem
        exact hnotMem hmem
      · rw [heq, List.mem_append, List.mem_singleton] at hmem
        exact hmem.elim hnotMem (by decide)
  · rintro ⟨hslash, hquestion⟩
    have hbegins : root <+: (splitAt (root ++ requestTarget) (path, targetIsDirectory)).path := by
      have hstarts := hstop.root_isPrefix hfs hdirs htarget hslash hquestion
      rcases hsplit with heq | heq
      · rwa [heq]
      · rw [heq]
        exact hstarts.trans (List.prefix_append _ _)
    refine ⟨fun hnil' => hroot ?_, _, hwalk, (List.rdropWhile_prefix _ _).trans hbegins⟩
    rw [(canonicalise_path hempty h).1 hnil'] at hbegins
    exact List.prefix_nil.1 hbegins

/-- **Which roots a location with a CGI may have**, whatever else is configured and whatever is asked
for: those that neither start with a slash nor have a question mark. -/
theorem keepsRoot_iff (hfs : ∀ path, fs.isDirectory path = some (isDirectory path))
    (hnil : isDirectory [] = false)
    (hempty : ∀ path canonical, fs.weaklyCanonical path = some canonical → (canonical = [] ↔ path = []))
    {locations : List LocationDirective} (hd : Distinct locations) {location : LocationDirective}
    (hparsed : ∃ locationNode, Config.parseLocation locationNode = .ok location)
    (hcgi : location.cgiExecvePath ≠ []) (hroot : location.root ≠ [])
    (hdirs : AllDirectories isDirectory location.root)
    (hlongest : IsLongest requestTarget locations location) {resolved : ResolvedLocation}
    (h : resolveToLocation fs requestTarget locations = .ok resolved) :
    KeepsRoot fs location.root requestTarget resolved ↔
      location.root.head? ≠ some (ch '/') ∧ ch '?' ∉ location.root := by
  obtain ⟨locationNode, hparsed⟩ := hparsed
  obtain ⟨hredirect, huri⟩ := parseLocation_cgi hparsed hcgi
  have htarget : requestTarget.head? = some (ch '/') := by
    obtain ⟨rest, rfl⟩ := hlongest.isMatch
    rw [List.head?_append, huri]
    rfl
  rcases resolveFrom_eq_ok h with ⟨-, hshort⟩ | ⟨location', hlongest', -, hlocation⟩
  · have hlength := hshort location hlongest.mem hlongest.isMatch
    rw [List.length_eq_zero_iff.1 (Nat.le_zero.1 hlength)] at huri
    cases huri
  · obtain rfl := hlongest.unique hd hlongest'
    simp only [resolveLocation] at hlocation
    obtain ⟨canonical, -, hlocation⟩ := except_bind_eq_ok hlocation
    rw [if_neg (by simp [hredirect]), if_pos (by simpa using hcgi)] at hlocation
    exact resolveCgi_keepsRoot_iff hfs hnil hempty hroot hdirs htarget hlocation

/-- A location with a CGI. -/
def cgiLocation (root : Bytes) : LocationDirective where
  uri := bytes "/"
  root := root
  cgiExecvePath := bytes "/bin/sh"

theorem allDirectories_of_take {root : Bytes}
    (h : ∀ k ≤ root.length, k ≠ 0 → root[k]? = some (ch '/') ∨ k = root.length →
      isDirectory (root.take k) = true) : AllDirectories isDirectory root := by
  intro path hpath hne hends
  rw [List.prefix_iff_eq_take.1 hpath]
  refine h _ hpath.length_le (List.length_pos_iff.2 hne).ne' (hends.imp_right ?_)
  rintro rfl
  rfl

theorem keepsRoot_relative : ∃ resolved,
    resolveToLocation srvFiles (bytes "/a") [cgiLocation (bytes "cgi")] = .ok resolved ∧
      KeepsRoot srvFiles (bytes "cgi") (bytes "/a") resolved := by
  have hempty : ∀ path canonical, srvFiles.weaklyCanonical path = some canonical →
      (canonical = [] ↔ path = []) := by
    intro path canonical h
    obtain rfl := Option.some.inj h
    split_ifs with hnil
    · simp [hnil]
    · refine iff_of_false (fun hrender => ?_) hnil
      have habsolute := isAbsolute_render (N := posix) (denotes posix srv path)
      rw [hrender] at habsolute
      cases habsolute
  have hparsed : ∃ locationNode, Config.parseLocation locationNode = .ok (cgiLocation (bytes "cgi")) :=
    ⟨(bytes "/", .object [(bytes "cgi_execve_path", .string (bytes "/bin/sh")),
      (bytes "root", .string (bytes "cgi"))]), rfl⟩
  have hd : Distinct [cgiLocation (bytes "cgi")] :=
    ⟨fun location hlocation => by rw [List.mem_singleton.1 hlocation]; rfl, List.nodup_singleton _⟩
  have hlongest : IsLongest (bytes "/a") [cgiLocation (bytes "cgi")] (cgiLocation (bytes "cgi")) :=
    ⟨List.mem_singleton_self _, by decide, fun other hother _ => by rw [List.mem_singleton.1 hother]⟩
  obtain ⟨resolved, hresolved, -, -⟩ := exists_resolved [cgiLocation (bytes "cgi")] (bytes "/a") true
    (bytes "/srv/cgi/a") (by decide +kernel)
  have hdirs : AllDirectories isSrvDirectory (bytes "cgi") := allDirectories_of_take (by decide +kernel)
  exact ⟨resolved, hresolved, (keepsRoot_iff (fun _ => rfl) rfl hempty hd hparsed (by decide) (by decide)
    hdirs hlongest hresolved).2 ⟨by decide, by decide⟩⟩

/-- With an absolute root the path of the script is empty. -/
theorem not_keepsRoot_absolute : AllDirectories isSrvDirectory (bytes "/srv/cgi") ∧
    isSrvDirectory (bytes "/") = true ∧ ∃ resolved,
      resolveToLocation srvFiles (bytes "/a") [cgiLocation (bytes "/srv/cgi")] = .ok resolved ∧
        ¬ KeepsRoot srvFiles (bytes "/srv/cgi") (bytes "/a") resolved := by
  obtain ⟨resolved, hresolved, -, hpath⟩ := exists_resolved [cgiLocation (bytes "/srv/cgi")] (bytes "/a")
    true [] (by decide +kernel)
  exact ⟨allDirectories_of_take (by decide +kernel), by decide +kernel, resolved, hresolved,
    fun h => h.path_ne hpath⟩

end Webserv.Server
