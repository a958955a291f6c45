import Webserv.Server.Handlers
import Webserv.Server.Forward
import Webserv.Server.Roots

/-!
# What the permissions of a location cover

A location is picked for the request target as it stands, and with it the methods that are allowed. The
path that is acted on is made of the normalised target (`actedPath`, `answerRequest_congr`). So the
permissions cover what is acted on exactly if normalising the target keeps the uri of the location at
its beginning (`covered_iff`).
-/

namespace Webserv.Server

open Exec Utils

variable {config : Config} {env : Answers} {fs fs' : FileSystem} {i : ℕ} {s : Server}
  {resolved : ResolvedLocation} {path : Bytes}

/-- The path of a static location that is read, listed, created or deleted, if any is. -/
def actedPath (fs : FileSystem) (method : RequestMethod) (location : ResolvedLocation) :
    Option Bytes :=
  if location.path.getLast? = some (ch '/') then
    if method = .get then
      if location.hasIndex then some location.indexPath
      else if location.autoindex then some location.path
      else none
    else none
  else if fs.isDirectory location.path = some true then none
  else some location.path

/-- Two file systems with the same tree. -/
structure SameTree (fs fs' : FileSystem) : Prop where
  weaklyCanonical : fs'.weaklyCanonical = fs.weaklyCanonical
  isDirectory : fs'.isDirectory = fs.isDirectory
  isRegularFile : fs'.isRegularFile = fs.isRegularFile

/-- What is read, listed, created or deleted at a path is the same. -/
structure SameAt (fs fs' : FileSystem) (path : Bytes) : Prop where
  readFile : fs'.readFile path = fs.readFile path
  openForUpdate : fs'.openForUpdate path = fs.openForUpdate path
  openForWriting : fs'.openForWriting path = fs.openForWriting path
  remove : fs'.remove path = fs.remove path
  entries : fs'.entries path = fs.entries path

/-! ## The path that is acted on -/

theorem respondWithFile_congr (htree : SameTree fs fs') (hat : SameAt fs fs' path) :
    Client.respondWithFile fs' path = Client.respondWithFile fs path := by
  unfold Client.respondWithFile
  rw [htree.isRegularFile, hat.readFile]

theorem respondWithDirectoryListing_congr (hat : SameAt fs fs' path) :
    Client.respondWithDirectoryListing fs' path = Client.respondWithDirectoryListing fs path := by
  unfold Client.respondWithDirectoryListing Client.getSortedEntryNames
  rw [hat.entries]

theorem respondWithCreateFile_congr (hat : SameAt fs fs' path) :
    Client.respondWithCreateFile fs' path = Client.respondWithCreateFile fs path := by
  unfold Client.respondWithCreateFile
  rw [hat.openForUpdate, hat.openForWriting]

theorem respondWithDeleteFile_congr (hat : SameAt fs fs' path) :
    Client.respondWithDeleteFile fs' path = Client.respondWithDeleteFile fs path := by
  unfold Client.respondWithDeleteFile
  rw [hat.remove]

/-- The environment with another file system. -/
def withFs (env : Answers) (fs : FileSystem) : Answers := { env with fs := fs }

theorem resolveLocation_tree (htree : SameTree fs fs') (requestTarget : Bytes)
    (location : LocationDirective) (resolved : ResolvedLocation) :
    resolveLocation fs' requestTarget location resolved =
      resolveLocation fs requestTarget location resolved := by
  have hwalk : ∀ unsplitPath fuel k found,
      walkCgiPath fs' unsplitPath fuel k found = walkCgiPath fs unsplitPath fuel k found := by
    intro unsplitPath fuel
    induction fuel with
    | zero => exact fun _ _ => rfl
    | succ fuel ih =>
      intro k found
      simp only [walkCgiPath, htree.isDirectory, ih]
  simp only [resolveLocation, resolveCgi, htree.weaklyCanonical, hwalk]

theorem resolveToLocation_tree (htree : SameTree fs fs') (requestTarget : Bytes)
    (locations : List LocationDirective) :
    resolveToLocation fs' requestTarget locations =
      resolveToLocation fs requestTarget locations := by
  have hfrom : ∀ longest resolved, resolveFrom fs' requestTarget locations longest resolved =
      resolveFrom fs requestTarget locations longest resolved := by
    induction locations with
    | nil => exact fun _ _ => rfl
    | cons location locations ih =>
      intro longest resolved
      simp only [resolveFrom, resolveLocation_tree htree, ih]
  exact hfrom 0 {}

theorem dispatchDirectory_congr (htree : SameTree env.fs fs') {method : RequestMethod}
    (hslash : resolved.path.getLast? = some (ch '/'))
    (hat : ∀ path, actedPath env.fs method resolved = some path → SameAt env.fs fs' path) :
    dispatchDirectory (withFs env fs') i method resolved =
      dispatchDirectory env i method resolved := by
  unfold dispatchDirectory
  by_cases hget : method = .get
  · rw [if_pos hget, if_pos hget]
    by_cases hindex : resolved.hasIndex = true
    · have hsame : SameAt env.fs fs' resolved.indexPath := by
        refine hat _ ?_
        rw [actedPath, if_pos hslash, if_pos hget, if_pos hindex]
      rw [if_pos hindex, if_pos hindex]
      unfold dispatchIndex
      simp only [withFs, htree.isRegularFile, hsame.readFile, respondWithFile_congr htree hsame]
    · rw [if_neg hindex, if_neg hindex]
      by_cases hautoindex : resolved.autoindex = true
      · have hsame : SameAt env.fs fs' resolved.path := by
          refine hat _ ?_
          rw [actedPath, if_pos hslash, if_pos hget, if_neg hindex, if_pos hautoindex]
        rw [if_pos hautoindex, if_pos hautoindex]
        simp only [withFs, respondWithDirectoryListing_congr hsame]
      · rw [if_neg hautoindex, if_neg hautoindex]
  · rw [if_neg hget, if_neg hget]

theorem dispatchFile_congr (htree : SameTree env.fs fs') {method : RequestMethod}
    (hstatic : resolved.isCgiDirectory = false)
    (hslash : resolved.path.getLast? ≠ some (ch '/'))
    (hat : ∀ path, actedPath env.fs method resolved = some path → SameAt env.fs fs' path) :
    dispatchFile (withFs env fs') i method resolved = dispatchFile env i method resolved := by
  unfold dispatchFile
  have hquery : (withFs env fs').fs.isDirectory = env.fs.isDirectory := htree.isDirectory
  rw [hquery]
  cases hdirectory : env.fs.isDirectory resolved.path with
  | none => rfl
  | some targetIsDirectory =>
    cases targetIsDirectory with
    | true => rfl
    | false =>
      have hsame : SameAt env.fs fs' resolved.path := by
        refine hat _ ?_
        rw [actedPath, if_neg hslash, if_neg (by rw [hdirectory]; simp)]
      simp only [hstatic, withFs, respondWithFile_congr htree hsame,
        respondWithCreateFile_congr hsame, respondWithDeleteFile_congr hsame, Bool.false_eq_true,
        if_false]

/-- **Nothing but one path is acted on**: the dispatch of a request to a static location is the same in
every file system with the same tree that has the same at the path that is acted on. -/
theorem answerRequest_congr (htree : SameTree env.fs fs') {c : Client} {server : ServerDirective}
    (hserver : getServer config i s = .ok server s)
    (h : resolveToLocation env.fs c.requestTarget server.locations = .ok resolved)
    (hstatic : resolved.isCgiDirectory = false)
    (hat : ∀ path, actedPath env.fs c.requestMethod resolved = some path →
      SameAt env.fs fs' path) :
    answerRequest config (withFs env fs') i c s = answerRequest config env i c s := by
  have hresolve : resolveToLocation (withFs env fs').fs c.requestTarget server.locations =
      .ok resolved := (resolveToLocation_tree htree _ _).trans h
  have hlift : liftExcept (.ok resolved) s = .ok resolved s := rfl
  have hdispatch : ∀ last, back resolved.path = .ok last →
      (if last = ch '/' then dispatchDirectory (withFs env fs') i c.requestMethod resolved
        else dispatchFile (withFs env fs') i c.requestMethod resolved) =
      (if last = ch '/' then dispatchDirectory env i c.requestMethod resolved
        else dispatchFile env i c.requestMethod resolved) := by
    intro last hback
    have hlast : resolved.path.getLast? = some last := by
      rw [back] at hback
      cases hend : resolved.path.getLast? with
      | none =>
        rw [hend] at hback
        cases hback
      | some last' =>
        rw [hend] at hback
        cases hback
        rfl
    split_ifs with hslash
    · exact dispatchDirectory_congr htree (by rw [hlast, hslash]) hat
    · refine dispatchFile_congr htree hstatic ?_ hat
      rw [hlast]
      exact fun heq => hslash (Option.some.inj heq)
  rw [answerRequest, answerRequest, bind_of_ok hserver, bind_of_ok hserver, h, hresolve,
    bind_of_ok hlift, bind_of_ok hlift, run_ite, run_ite, run_ite, run_ite, run_ite, run_ite]
  cases hback : back resolved.path with
  | error e => rfl
  | ok last =>
    have hlast : liftExcept (.ok last) s = .ok last s := rfl
    rw [bind_of_ok hlast, bind_of_ok hlast, hdispatch last hback]

/-! ## Permissions -/

/-- What the index directive of a location adds to the normalised target of a request. -/
def indexSuffix (location : LocationDirective) (method : RequestMethod) (canonical : Bytes) : Bytes :=
  if method = .get ∧ (location.root ++ canonical).getLast? = some (ch '/') then
    if location.index.head? = some (ch '/') then location.index.tail else location.index
  else []

/-- The path that is acted on in a static location. -/
theorem actedPath_static {requestTarget : Bytes} {location : LocationDirective}
    (method : RequestMethod) (hredirect : location.redirect = [])
    (hstatic : location.cgiExecvePath = [])
    (h : resolveLocation fs requestTarget location {} = .ok resolved) :
    resolved.isCgiDirectory = false ∧ ∃ canonical, fs.weaklyCanonical requestTarget = some canonical ∧
      ∀ path, actedPath fs method resolved = some path →
        path = location.root ++ (canonical ++ indexSuffix location method canonical) := by
  simp only [resolveLocation] at h
  obtain ⟨canonical, hcanonical, h⟩ := except_bind_eq_ok h
  rw [if_neg (by simp [hredirect]), if_neg (by simp [hstatic])] at h
  refine ⟨?_, canonical, orFilesystemError_ok hcanonical, fun path hpath => ?_⟩
  · split at h <;> cases h <;> simp [resolveIndex, hstatic]
  · by_cases hindex : location.index = []
    · rw [if_neg (by simp [hindex])] at h
      cases h
      have hsuffix : indexSuffix location method canonical = [] := by
        simp [indexSuffix, hindex]
      have hsame : some (location.root ++ canonical) = some path := by
        rw [← hpath]
        simp only [actedPath, hindex] at hpath ⊢
        split_ifs at hpath ⊢ <;> simp_all
      rw [hsuffix, List.append_nil, Option.some.inj hsame]
    · rw [if_pos (by simpa using hindex)] at h
      cases h
      have hindexed : decide (location.index ≠ []) = true := by simpa using hindex
      simp only [actedPath, resolveIndex, hindexed, if_true] at hpath
      by_cases hslash : (location.root ++ canonical).getLast? = some (ch '/')
      · by_cases hget : method = .get
        · rw [if_pos hslash, if_pos hget] at hpath
          rw [indexSuffix, if_pos ⟨hget, hslash⟩, ← Option.some.inj hpath, List.append_assoc]
        · rw [if_pos hslash, if_neg hget] at hpath
          cases hpath
      · rw [if_neg hslash] at hpath
        rw [indexSuffix, if_neg fun hboth => hslash hboth.2, List.append_nil]
        split_ifs at hpath
        exact (Option.some.inj hpath).symm

/-- **When the permissions of a location cover what is acted on**: the path begins with the root and
the uri of the location exactly if the normalised target, with the index file, begins with the uri. -/
theorem covered_iff (env : Answers) {c : Client} {server : ServerDirective}
    (hserver : getServer config i s = .ok server s)
    (h : resolveToLocation env.fs c.requestTarget server.locations = .ok resolved)
    (hresolved : resolved.resolved = true) :
    ∃ location, IsLongest c.requestTarget server.locations location ∧
      (location.redirect = [] → location.cgiExecvePath = [] →
        (∀ fs', SameTree env.fs fs' → (∀ path, actedPath env.fs c.requestMethod resolved = some path →
            SameAt env.fs fs' path) →
          answerRequest config (withFs env fs') i c s = answerRequest config env i c s) ∧
        ∃ canonical, env.fs.weaklyCanonical c.requestTarget = some canonical ∧
          ∀ path, actedPath env.fs c.requestMethod resolved = some path →
            (location.root ++ location.uri <+: path ↔
              location.uri <+: canonical ++ indexSuffix location c.requestMethod canonical)) := by
  rcases resolveFrom_eq_ok h with ⟨rfl, -⟩ | ⟨location, hlongest, -, hlocation⟩
  · cases hresolved
  refine ⟨location, hlongest, fun hredirect hstatic => ?_⟩
  obtain ⟨hcgi, canonical, hcanonical, hpath⟩ :=
    actedPath_static c.requestMethod hredirect hstatic hlocation
  refine ⟨fun fs' htree hat => answerRequest_congr htree hserver h hcgi hat, canonical, hcanonical,
    fun path hacted => ?_⟩
  rw [hpath path hacted]
  exact List.prefix_append_right_inj _

/-- A location that allows to delete files, and one that allows to read them. -/
def sharedLocations : List LocationDirective :=
  [{ uri := bytes "/files", root := bytes "cgi", deleteAllowed := true },
    { uri := bytes "/", root := bytes "cgi", getAllowed := true }]

/-- A server with the two locations. -/
def sharedConfig : Config where
  clientMaxBodySize := 1000
  clientTimeoutMs := 1000
  servers := [{ locations := sharedLocations }]
  bindInfos := [(bytes "80", [0])]

/-- A server with one client. -/
def sharedServer (c : Client) : Server :=
  { Server.empty with
    clients := [c], bindFdToServerIndices := Finmap.singleton 3 [0] }

/-- A client that asks to delete a file. -/
def deleting (requestTarget : Bytes) : Client :=
  { Client.new 4 3 (bytes "80") 1000 with
    requestMethod := .delete, requestTarget := requestTarget }

theorem getServer_sharedServer (c : Client) (hserver : c.serverFd = 3) :
    getServer sharedConfig 0 (sharedServer c) =
      .ok { locations := sharedLocations } (sharedServer c) := by
  have hindices : (sharedServer c).bindFdToServerIndices.lookup c.serverFd = some [0] := by
    rw [hserver]
    exact Finmap.lookup_singleton_eq
  have hclient : clientAt 0 (sharedServer c) = .ok c (sharedServer c) := rfl
  rw [getServer, bind_of_ok hclient, run_bind, run_get]
  dsimp only
  rw [bind_of_ok (lookupAt_of hindices)]
  by_cases hname : c.serverName ∈ ({ locations := sharedLocations } : ServerDirective).serverNames
  · cases hname
  · rfl

/-- Deleting a file in the part of the tree that the location names. -/
theorem covered_iff_inside :
    ∃ resolved location,
      resolveToLocation srvFiles (bytes "/files/./a") sharedLocations = .ok resolved ∧
      IsLongest (bytes "/files/./a") sharedLocations location ∧
      (∀ fs', SameTree srvFiles fs' →
          (∀ path, actedPath srvFiles .delete resolved = some path → SameAt srvFiles fs' path) →
        answerRequest sharedConfig (withFs { fs := srvFiles } fs') 0 (deleting (bytes "/files/./a"))
            (sharedServer (deleting (bytes "/files/./a"))) =
          answerRequest sharedConfig { fs := srvFiles } 0 (deleting (bytes "/files/./a"))
            (sharedServer (deleting (bytes "/files/./a")))) ∧
      actedPath srvFiles .delete resolved = some (bytes "cgi/files/a") ∧
      location.root ++ location.uri <+: bytes "cgi/files/a" := by
  have hresolved : ((resolveToLocation srvFiles (bytes "/files/./a") sharedLocations).toOption.map
      fun r => (r.resolved, actedPath srvFiles .delete r)) = some (true, some (bytes "cgi/files/a")) := by
    decide +kernel
  cases h : resolveToLocation srvFiles (bytes "/files/./a") sharedLocations with
  | error e =>
    rw [h] at hresolved
    cases hresolved
  | ok resolved =>
    rw [h] at hresolved
    obtain ⟨htrue, hacted⟩ := Prod.mk.inj (Option.some.inj hresolved)
    have hserver := getServer_sharedServer (deleting (bytes "/files/./a")) rfl
    obtain ⟨location, hlongest, hcovered⟩ := covered_iff { fs := srvFiles }
      (c := deleting (bytes "/files/./a")) hserver h htrue
    have hfiles := hlongest.longest { uri := bytes "/files", root := bytes "cgi", deleteAllowed := true }
      (by simp [sharedLocations]) (by decide +kernel)
    rcases List.mem_pair.1 hlongest.mem with rfl | rfl
    · obtain ⟨hsame, canonical, hcanonical, hpaths⟩ := hcovered rfl rfl
      have hfile : srvFiles.weaklyCanonical (bytes "/files/./a") = some (bytes "/files/a") := by
        decide +kernel
      obtain rfl := Option.some.inj (hcanonical.symm.trans hfile)
      exact ⟨resolved, _, rfl, hlongest, hsame, hacted, (hpaths _ hacted).2 (by decide +kernel)⟩
    · exact absurd hfiles (by decide +kernel)

/-- A request that deletes a file outside of the part of the tree that the location names. -/
theorem not_covered_parent :
    ∃ resolved location,
      resolveToLocation srvFiles (bytes "/files/../a") sharedLocations = .ok resolved ∧
      IsLongest (bytes "/files/../a") sharedLocations location ∧ location.redirect = [] ∧
      location.cgiExecvePath = [] ∧ isAllowedMethod resolved .delete = true ∧
      actedPath srvFiles .delete resolved = some (bytes "cgi/a") ∧
      ¬ location.root ++ location.uri <+: bytes "cgi/a" := by
  have hresolved : ((resolveToLocation srvFiles (bytes "/files/../a") sharedLocations).toOption.map
      fun r => (isAllowedMethod r .delete, actedPath srvFiles .delete r)) =
        some (true, some (bytes "cgi/a")) := by decide +kernel
  cases h : resolveToLocation srvFiles (bytes "/files/../a") sharedLocations with
  | error e =>
    rw [h] at hresolved
    cases hresolved
  | ok resolved =>
    rw [h] at hresolved
    have heq := Option.some.inj hresolved
    exact ⟨resolved, { uri := bytes "/files", root := bytes "cgi", deleteAllowed := true }, rfl,
      ⟨by simp [sharedLocations], by decide +kernel, by decide +kernel⟩, rfl, rfl,
      congrArg Prod.fst heq, congrArg Prod.snd heq, by decide +kernel⟩

end Webserv.Server
