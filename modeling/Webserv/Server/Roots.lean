import Webserv.Foundations.LexicalPath
import Webserv.Server.LongestMatch

/-!
# Staying below the root

For a static location `_resolveToLocation` normalises the request target and then appends it to the
root, so no request leads above the root. For a location with a CGI it appends the target first and
walks along the components up to one that is not a directory (`IsStop`), and normalises only then. So
the components of the script's path count, and these may lead above the root (`below_iff`).
-/

namespace Webserv.Server

open Exec Search LexicalPath

/-- Paths of the file system. -/
def posix : Spelling UInt8 where
  sep := ch '/'
  self := bytes "."
  parent := bytes ".."
  sep_self := by decide +kernel
  sep_parent := by decide +kernel
  self_ne := by decide +kernel

/-- What `weakly_canonical` does in a tree without links: it keeps what a path denotes, and takes every
`..` out of an absolute path. -/
structure Lexical (cwd : Place UInt8) (fs : FileSystem) : Prop where
  denotes_eq : ∀ path canonical, fs.weaklyCanonical path = some canonical →
    denotes posix cwd canonical = denotes posix cwd path
  normal : ∀ path canonical, fs.weaklyCanonical path = some canonical → IsAbsolute posix path →
    IsAbsolute posix canonical ∧ ∀ name ∈ names posix canonical, name ≠ posix.parent

/-- A path denotes a directory or something below it. -/
def Below (cwd : Place UInt8) (directory path : Bytes) : Prop :=
  denotes posix cwd directory <+: denotes posix cwd path

instance (cwd : Place UInt8) (directory path : Bytes) : Decidable (Below cwd directory path) :=
  inferInstanceAs (Decidable (_ <+: _))

variable {cwd : Place UInt8} {fs : FileSystem} {requestTarget : Bytes}

/-! ## Static locations -/

/-- What is normalised first stays below the root. -/
theorem Lexical.below (hlex : Lexical cwd fs) {root canonical : Bytes} (hroot : root ≠ [])
    (hslash : IsAbsolute posix requestTarget)
    (h : fs.weaklyCanonical requestTarget = some canonical) : Below cwd root (root ++ canonical) := by
  obtain ⟨habsolute, hnames⟩ := hlex.normal requestTarget canonical h hslash
  rw [Below, denotes_append hroot habsolute, walk_of_ne_parent hnames]
  exact List.prefix_append _ _

/-! ## The walk along the components -/

/-- The byte at a position of a path ends a component. -/
def EndsComponent (unsplitPath : Bytes) (k : ℕ) : Prop :=
  unsplitPath[k]? = some (ch '/') ∨ unsplitPath[k]? = some (ch '?') ∨
    (k = unsplitPath.length ∧ unsplitPath.getLast? ≠ some (ch '/'))

/-- Where the walk along the components of a path stops: at the first component that is not a
directory, or that is followed by a `?`, or that is the last one. -/
structure IsStop (fs : FileSystem) (unsplitPath path : Bytes) (targetIsDirectory : Bool) : Prop where
  isPrefix : path <+: unsplitPath
  ends : EndsComponent unsplitPath path.length
  isDirectory : fs.isDirectory path = some targetIsDirectory
  before : ∀ k < path.length, EndsComponent unsplitPath k →
    fs.isDirectory (unsplitPath.take k) = some true ∧ unsplitPath[k]? = some (ch '/')
  stops : targetIsDirectory = true → unsplitPath[path.length]? = some (ch '?') ∨
    unsplitPath.length ≤ path.length + 1

/-- The walk stops in one place only. -/
theorem IsStop.unique {unsplitPath path path' : Bytes} {isDirectory isDirectory' : Bool}
    (h : IsStop fs unsplitPath path isDirectory) (h' : IsStop fs unsplitPath path' isDirectory') :
    path = path' := by
  have key : ∀ {p p' : Bytes} {d d' : Bool}, IsStop fs unsplitPath p d →
      IsStop fs unsplitPath p' d' → p'.length ≤ p.length := by
    intro p p' d d' hp hp'
    by_contra hlt
    obtain ⟨hdirectory, hslash⟩ := hp'.before p.length (by omega) hp.ends
    rw [← List.prefix_iff_eq_take.1 hp.isPrefix, hp.isDirectory] at hdirectory
    rcases hp.stops (Option.some.inj hdirectory) with hquestion | hend
    · rw [hslash] at hquestion
      exact absurd hquestion (by decide +kernel)
    · -- the path ends in a slash, where no component ends
      have hle := hp'.isPrefix.length_le
      have hlast : unsplitPath.getLast? = some (ch '/') := by
        rw [List.getLast?_eq_getElem?, show unsplitPath.length - 1 = p.length by omega]
        exact hslash
      rcases hp'.ends with hk | hk | ⟨-, hk⟩
      · have := (List.getElem?_eq_some_iff.1 hk).1
        omega
      · have := (List.getElem?_eq_some_iff.1 hk).1
        omega
      · exact hk hlast
  exact (List.prefix_of_prefix_length_le h.isPrefix h'.isPrefix (key h' h)).eq_of_length
    (le_antisymm (key h' h) (key h h'))

theorem getElem?_takeWhile (p : UInt8 → Bool) (s : Bytes) :
    (∀ j < (s.takeWhile p).length, ∀ b, s[j]? = some b → p b = true) ∧
      ∀ b, s[(s.takeWhile p).length]? = some b → p b = false := by
  induction s with
  | nil => simp
  | cons a s ih =>
    by_cases ha : p a = true
    · rw [List.takeWhile_cons_of_pos ha, List.length_cons]
      refine ⟨fun j hj b hb => ?_, by simpa using ih.2⟩
      cases j with
      | zero =>
        obtain rfl : a = b := by simpa using hb
        exact ha
      | succ j => exact ih.1 j (by omega) b (by simpa using hb)
    · rw [List.takeWhile_cons_of_neg ha]
      simpa using ha

/-- Where the next component ends. -/
theorem nextSeparator_spec {unsplitPath : Bytes} {k : ℕ} (hk : k ≤ unsplitPath.length) :
    k ≤ nextSeparator unsplitPath k ∧ nextSeparator unsplitPath k ≤ unsplitPath.length ∧
      (∀ j, k ≤ j → j < nextSeparator unsplitPath k →
        unsplitPath[j]? ≠ some (ch '/') ∧ unsplitPath[j]? ≠ some (ch '?')) ∧
      (nextSeparator unsplitPath k < unsplitPath.length →
        unsplitPath[nextSeparator unsplitPath k]? = some (ch '/') ∨
          unsplitPath[nextSeparator unsplitPath k]? = some (ch '?')) := by
  have hlength : ((unsplitPath.drop k).takeWhile fun b => b ≠ ch '/' ∧ b ≠ ch '?').length ≤
      (unsplitPath.drop k).length := ( List.takeWhile_prefix _).length_le
  rw [List.length_drop] at hlength
  obtain ⟨hbefore, hat⟩ :=
    getElem?_takeWhile (fun b => b ≠ ch '/' ∧ b ≠ ch '?') (unsplitPath.drop k)
  refine ⟨Nat.le_add_right _ _, ?_, fun j hj hlt => ?_, fun hlt => ?_⟩
  · unfold nextSeparator
    omega
  · unfold nextSeparator at hlt
    have hdrop : ∀ b, unsplitPath[j]? = some b → b ≠ ch '/' ∧ b ≠ ch '?' := by
      intro b hb
      have hb' : (unsplitPath.drop k)[j - k]? = some b := by
        rw [List.getElem?_drop, show k + (j - k) = j by omega, hb]
      simpa using hbefore (j - k) (by omega) b hb'
    exact ⟨fun hslash => (hdrop _ hslash).1 rfl, fun hquestion => (hdrop _ hquestion).2 rfl⟩
  · have hb := List.getElem?_eq_getElem hlt
    have hb' : (unsplitPath.drop k)[((unsplitPath.drop k).takeWhile
        fun b => b ≠ ch '/' ∧ b ≠ ch '?').length]? = _ := (List.getElem?_drop ..).trans hb
    have hsep := hat _ hb'
    rw [hb]
    by_contra hnot
    rw [not_or] at hnot
    rw [decide_eq_false_iff_not] at hsep
    exact hsep ⟨fun heq => hnot.1 (by rw [heq]), fun heq => hnot.2 (by rw [heq])⟩

/-- What is known in the loop: the components before the position are directories. -/
structure Walking (fs : FileSystem) (unsplitPath : Bytes) (k : ℕ) : Prop where
  le : k ≤ unsplitPath.length
  before : ∀ j < k, EndsComponent unsplitPath j →
    fs.isDirectory (unsplitPath.take j) = some true ∧ unsplitPath[j]? = some (ch '/')

/-- What the loop has found before a position: the last of the directories. -/
def Found (unsplitPath : Bytes) (k : ℕ) (found : Bytes × Bool) : Prop :=
  k ≠ 0 ∧ found = (unsplitPath.take (k - 1), true) ∧ unsplitPath[k - 1]? = some (ch '/')

/-- A path that ends in a slash is walked to the end. -/
theorem Found.isStop {unsplitPath : Bytes} {found : Bytes × Bool}
    (hwalking : Walking fs unsplitPath unsplitPath.length)
    (h : Found unsplitPath unsplitPath.length found) :
    IsStop fs unsplitPath found.1 found.2 := by
  obtain ⟨hne, rfl, hslash⟩ := h
  have hlength : (unsplitPath.take (unsplitPath.length - 1)).length = unsplitPath.length - 1 := by
    rw [List.length_take]
    omega
  refine ⟨List.take_prefix _ _, .inl (by rwa [hlength]), ?_, ?_, fun _ => .inr ?_⟩
  · exact (hwalking.before _ (by omega) (.inl hslash)).1
  · intro j hj
    rw [hlength] at hj
    exact hwalking.before j (by omega)
  · rw [hlength]
    omega

/-- **Where the walk ends.** -/
theorem walkCgiPath_stop {unsplitPath : Bytes} {fuel k : ℕ} {found result : Bytes × Bool}
    (hfuel : unsplitPath.length < fuel + k) (hwalking : Walking fs unsplitPath k)
    (hfound : k < unsplitPath.length ∨ Found unsplitPath k found)
    (h : walkCgiPath fs unsplitPath fuel k found = .ok result) :
    IsStop fs unsplitPath result.1 result.2 := by
  induction fuel generalizing k found with
  | zero =>
    have := hwalking.le
    omega
  | succ fuel ih =>
    rw [walkCgiPath] at h
    split at h
    · rename_i hlt
      obtain ⟨hle, hle', hinside, hsep⟩ := nextSeparator_spec hwalking.le
      generalize nextSeparator unsplitPath k = j at h hle hle' hinside hsep
      obtain ⟨targetIsDirectory, hquery, h⟩ := except_bind_eq_ok h
      have hdirectory : fs.isDirectory (unsplitPath.take j) = some targetIsDirectory := by
        cases hanswer : fs.isDirectory (unsplitPath.take j) with
        | none =>
          rw [hanswer] at hquery
          cases hquery
        | some b =>
          rw [hanswer] at hquery
          cases hquery
          rfl
      have hlength : (unsplitPath.take j).length = j := by
        rw [List.length_take]
        omega
      -- no component ends between the two positions
      have hbefore : ∀ l < j, EndsComponent unsplitPath l →
          fs.isDirectory (unsplitPath.take l) = some true ∧ unsplitPath[l]? = some (ch '/') := by
        intro l hl hends
        by_cases hlk : l < k
        · exact hwalking.before l hlk hends
        · obtain ⟨hslash, hquestion⟩ := hinside l (by omega) hl
          rcases hends with hends | hends | ⟨hend, -⟩
          · exact absurd hends hslash
          · exact absurd hends hquestion
          · omega
      have hends : EndsComponent unsplitPath j := by
        by_cases hj : j < unsplitPath.length
        · exact (hsep hj).imp_right .inl
        · refine .inr (.inr ⟨by omega, fun hlast => ?_⟩)
          rw [List.getLast?_eq_getElem?] at hlast
          exact (hinside (unsplitPath.length - 1) (by omega) (by omega)).1 hlast
      split at h
      · rename_i hstop
        cases h
        refine ⟨List.take_prefix _ _, by rwa [hlength], hdirectory, by rwa [hlength], ?_⟩
        intro htrue
        rw [hlength]
        rcases hstop with hfalse | hend | hquestion
        · dsimp only at htrue
          rw [htrue] at hfalse
          cases hfalse
        · exact .inr (by omega)
        · exact .inl hquestion
      · rename_i hgo
        simp only [not_or, Bool.not_eq_false, not_le] at hgo
        obtain ⟨rfl, hj, hquestion⟩ := hgo
        have hslash := (hsep hj).resolve_right hquestion
        refine ih (by omega) ⟨by omega, ?_⟩ ?_ h
        · intro l hl hends'
          by_cases hlj : l < j
          · exact hbefore l hlj hends'
          · obtain rfl : l = j := by omega
            exact ⟨hdirectory, hslash⟩
        · exact .inr ⟨by omega, by simp, by simpa using hslash⟩
    · rename_i hend
      cases h
      obtain rfl : k = unsplitPath.length := le_antisymm hwalking.le (not_lt.1 hend)
      exact (hfound.resolve_left (by omega)).isStop hwalking

/-! ## Locations -/

theorem orFilesystemError_ok {α : Type} {answer : Option α} {a : α}
    (h : orFilesystemError answer = .ok a) : answer = some a := by
  cases answer with
  | none => cases h
  | some b =>
    cases h
    rfl

/-- The path that is acted on in a location with a CGI. -/
theorem resolveCgi_denotes (hlex : Lexical cwd fs) {root : Bytes} (hroot : root ≠ [])
    {resolved resolved' : ResolvedLocation}
    (h : resolveCgi fs root requestTarget resolved = .ok resolved') :
    resolved'.indexPath = resolved.indexPath ∧
      ∃ path targetIsDirectory, IsStop fs (root ++ requestTarget) path targetIsDirectory ∧
        denotes posix cwd resolved'.path = denotes posix cwd path := by
  have hne : root ++ requestTarget ≠ [] := by simp [hroot]
  simp only [resolveCgi] at h
  obtain ⟨⟨path, targetIsDirectory⟩, hwalk, h⟩ := except_bind_eq_ok h
  have hstop := walkCgiPath_stop (by omega) ⟨Nat.zero_le _, by simp⟩
    (.inl (List.length_pos_iff.2 hne)) hwalk
  dsimp only at h
  split at h
  · obtain ⟨last, hlast, h⟩ := except_bind_eq_ok h
    obtain ⟨last', -, h⟩ := except_bind_eq_ok h
    have hpath : path ≠ [] := by
      rintro rfl
      cases hlast
    split at h
    · cases h
      exact ⟨rfl, path, _, hstop, denotes_append_sep hpath⟩
    · cases h
      exact ⟨rfl, path, _, hstop, rfl⟩
  · obtain ⟨canonicalPath, hcanonical, h⟩ := except_bind_eq_ok h
    obtain ⟨canonicalPathInfo, -, h⟩ := except_bind_eq_ok h
    cases h
    exact ⟨rfl, path, _, hstop, hlex.denotes_eq path _ (orFilesystemError_ok hcanonical)⟩

/-- The paths that are acted on stay below the root of their location. -/
structure StaysBelow (cwd : Place UInt8) (location : LocationDirective)
    (resolved : ResolvedLocation) : Prop where
  path : Below cwd location.root resolved.path
  indexPath : resolved.indexPath = [] ∨
    ∃ suffix, suffix <:+ location.index ∧ resolved.indexPath = resolved.path ++ suffix

theorem resolveLocation_below_iff (hlex : Lexical cwd fs)
    (hslash : IsAbsolute posix requestTarget) {location : LocationDirective}
    {resolved : ResolvedLocation} (hredirect : location.redirect = []) (hroot : location.root ≠ [])
    (h : resolveLocation fs requestTarget location {} = .ok resolved) :
    StaysBelow cwd location resolved ↔
      location.cgiExecvePath = [] ∨ ∀ path targetIsDirectory,
        IsStop fs (location.root ++ requestTarget) path targetIsDirectory →
          Below cwd location.root path := by
  simp only [resolveLocation] at h
  obtain ⟨canonical, hcanonical, h⟩ := except_bind_eq_ok h
  have hstatic := hlex.below hroot hslash (orFilesystemError_ok hcanonical)
  rw [if_neg (by simp [hredirect])] at h
  by_cases hcgi : location.cgiExecvePath = []
  · refine iff_of_true ?_ (.inl hcgi)
    rw [if_neg (by simp [hcgi])] at h
    split at h
    · cases h
      refine ⟨hstatic, .inr ?_⟩
      simp only [resolveIndex]
      split_ifs
      · exact ⟨_, List.tail_suffix _, rfl⟩
      · exact ⟨_, List.suffix_refl _, rfl⟩
    · cases h
      exact ⟨hstatic, .inl rfl⟩
  · rw [if_pos (by simpa using hcgi)] at h
    obtain ⟨hindex, path, targetIsDirectory, hstop, hdenotes⟩ := resolveCgi_denotes hlex hroot h
    have hpath : Below cwd location.root resolved.path ↔ Below cwd location.root path := by
      rw [Below, Below, hdenotes]
    constructor
    · rintro ⟨hbelow, -⟩
      refine .inr fun path' targetIsDirectory' hstop' => ?_
      rw [hstop'.unique hstop]
      exact hpath.1 hbelow
    · intro hcond
      exact ⟨hpath.2 (hcond.resolve_left hcgi path targetIsDirectory hstop), .inl hindex⟩

/-- **When a request stays below the root**: whatever location is picked, the paths that are acted on
stay below its root exactly if it has no CGI, or the part of the path at which the walk along the
components stops denotes the root or something below it. -/
theorem staysBelow_iff (hlex : Lexical cwd fs) (hslash : IsAbsolute posix requestTarget)
    {locations : List LocationDirective} {resolved : ResolvedLocation}
    (h : resolveToLocation fs requestTarget locations = .ok resolved)
    (hresolved : resolved.resolved = true) :
    ∃ location, IsLongest requestTarget locations location ∧
      resolveLocation fs requestTarget location {} = .ok resolved ∧
      (location.redirect = [] → location.root ≠ [] →
        (StaysBelow cwd location resolved ↔
          location.cgiExecvePath = [] ∨ ∀ path targetIsDirectory,
            IsStop fs (location.root ++ requestTarget) path targetIsDirectory →
              Below cwd location.root path)) := by
  rcases resolveFrom_eq_ok h with ⟨rfl, -⟩ | ⟨location, hlongest, -, hlocation⟩
  · cases hresolved
  · exact ⟨location, hlongest, hlocation, fun hredirect hroot =>
      resolveLocation_below_iff hlex hslash hredirect hroot hlocation⟩

/-! ## A tree -/

/-- The working directory of the examples. -/
def srv : Place UInt8 := [bytes "srv"]

/-- A tree with the directories `/srv` and `/srv/cgi`. -/
def srvFiles : FileSystem where
  weaklyCanonical path := some (if path = [] then [] else render posix (denotes posix srv path))
  isDirectory path := some (decide (path ≠ [] ∧
    denotes posix srv path ∈ [[], [bytes "srv"], [bytes "srv", bytes "cgi"]]))

theorem lexical_srvFiles : Lexical srv srvFiles := by
  have hsrv : ∀ name ∈ srv, IsName posix name := by
    intro name hname
    obtain rfl := List.mem_singleton.1 hname
    exact ⟨by decide +kernel, by decide +kernel, by decide +kernel, by decide +kernel⟩
  have hnames : ∀ path, ∀ name ∈ denotes posix srv path, IsName posix name :=
    fun path => isName_of_mem_denotes hsrv
  constructor
  · intro path canonical h
    obtain rfl := Option.some.inj h
    split_ifs with hnil
    · rw [hnil]
    · exact denotes_render (hnames path)
  · intro path canonical h habsolute
    obtain rfl := Option.some.inj h
    have hne : path ≠ [] := by
      rintro rfl
      cases habsolute
    rw [if_neg hne, names_render (hnames path)]
    exact ⟨isAbsolute_render _, fun name hname => (hnames path name hname).ne_parent⟩

/-- A location without a CGI, and one with a CGI. -/
def srvLocations : List LocationDirective :=
  [{ uri := bytes "/files", root := bytes "cgi" },
    { uri := bytes "/", root := bytes "cgi", cgiExecvePath := bytes "/bin/sh" }]

theorem exists_resolved (locations : List LocationDirective) (requestTarget : Bytes) (resolved : Bool)
    (path : Bytes) (h : (resolveToLocation srvFiles requestTarget locations).toOption.map
      (fun r => (r.resolved, r.path)) = some (resolved, path)) :
    ∃ r, resolveToLocation srvFiles requestTarget locations = .ok r ∧ r.resolved = resolved ∧
      r.path = path := by
  cases hr : resolveToLocation srvFiles requestTarget locations with
  | error e =>
    rw [hr] at h
    cases h
  | ok r =>
    rw [hr] at h
    cases h
    exact ⟨r, rfl, rfl, rfl⟩

theorem staysBelow_iff_parent :
    ∃ resolved location, resolveToLocation srvFiles (bytes "/files/../a") srvLocations = .ok resolved ∧
      IsLongest (bytes "/files/../a") srvLocations location ∧
      resolveLocation srvFiles (bytes "/files/../a") location {} = .ok resolved ∧
      StaysBelow srv location resolved := by
  obtain ⟨resolved, h, hresolved, -⟩ := exists_resolved srvLocations (bytes "/files/../a") true
    (bytes "cgi/a") (by decide +kernel)
  obtain ⟨location, hlongest, hlocation, hbelow⟩ :=
    staysBelow_iff lexical_srvFiles (by decide +kernel) h hresolved
  refine ⟨resolved, location, h, hlongest, hlocation, ?_⟩
  have hfiles := hlongest.longest { uri := bytes "/files", root := bytes "cgi" } (by simp [srvLocations])
    (by decide +kernel)
  rcases List.mem_pair.1 hlongest.mem with rfl | rfl
  · exact (hbelow rfl (by decide +kernel)).2 (.inl rfl)
  · exact absurd hfiles (by decide +kernel)

/-- A request for a script above the root. -/
theorem not_staysBelow_script :
    Lexical srv srvFiles ∧ ∃ resolved location,
      resolveToLocation srvFiles (bytes "/../a") srvLocations = .ok resolved ∧
      resolved.resolved = true ∧ IsLongest (bytes "/../a") srvLocations location ∧
      location.redirect = [] ∧ location.root ≠ [] ∧ ¬ StaysBelow srv location resolved := by
  obtain ⟨resolved, h, hresolved, hpath⟩ := exists_resolved srvLocations (bytes "/../a") true
    (bytes "/srv/a") (by decide +kernel)
  refine ⟨lexical_srvFiles, resolved,
    { uri := bytes "/", root := bytes "cgi", cgiExecvePath := bytes "/bin/sh" }, h, hresolved,
    ⟨by simp [srvLocations], by decide +kernel, by decide +kernel⟩, rfl, by decide +kernel, ?_⟩
  rintro ⟨hbelow, -⟩
  rw [hpath] at hbelow
  revert hbelow
  decide +kernel

end Webserv.Server
