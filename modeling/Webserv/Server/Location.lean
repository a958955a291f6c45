import Webserv.Client.State
import Webserv.Config
import Webserv.FileSystem

/-!
# Resolving a request target

`Server::_resolveToLocation` and `_isAllowedMethod`. The file system may answer with an exception,
and `back()` of an empty path is undefined behaviour.
-/

namespace Webserv.Server

open Search Utils

/-- `Server::ResolvedLocation`. -/
structure ResolvedLocation where
  resolved : Bool := false
  isCgiDirectory : Bool := false
  cgiExecvePath : Bytes := []
  pathInfo : Bytes := []
  queryString : Bytes := []
  hasIndex : Bool := false
  autoindex : Bool := false
  hasRedirect : Bool := false
  path : Bytes := []
  indexPath : Bytes := []
  indexDirective : Bytes := []
  getAllowed : Bool := false
  postAllowed : Bool := false
  deleteAllowed : Bool := false

/-- The answer of `std::filesystem`, or its exception. -/
def orFilesystemError {α : Type} : Option α → Except Fault α
  | some a => .ok a
  | none => .error .filesystem

/-- `back()` of a string. -/
def back (s : Bytes) : Except Fault UInt8 :=
  match s.getLast? with
  | some b => .ok b
  | none => .error .undefinedBehaviour

/-- The position of the next `/` or `?`, from a position on. -/
def nextSeparator (unsplitPath : Bytes) (pathEndIndex : ℕ) : ℕ :=
  pathEndIndex +
    ((unsplitPath.drop pathEndIndex).takeWhile fun b => b ≠ ch '/' ∧ b ≠ ch '?').length

/-- The loop over the components of the path of a CGI script: the path it ends with, and whether
this is a directory. -/
def walkCgiPath (fs : FileSystem) (unsplitPath : Bytes) :
    ℕ → ℕ → Bytes × Bool → Except Fault (Bytes × Bool)
  | 0, _, found => .ok found
  | fuel + 1, pathEndIndex, found =>
    if pathEndIndex < unsplitPath.length then do
      let pathEndIndex := nextSeparator unsplitPath pathEndIndex
      let path := unsplitPath.take pathEndIndex
      let targetIsDirectory ← orFilesystemError (fs.isDirectory path)
      if targetIsDirectory = false ∨ unsplitPath.length ≤ pathEndIndex ∨
          unsplitPath[pathEndIndex]? = some (ch '?') then .ok (path, targetIsDirectory)
      else walkCgiPath fs unsplitPath fuel (pathEndIndex + 1) (path, targetIsDirectory)
    else .ok found

/-- The CGI branch of `_resolveToLocation`. Every round of the walk moves forward. -/
def resolveCgi (fs : FileSystem) (root requestTarget : Bytes) (resolved : ResolvedLocation) :
    Except Fault ResolvedLocation := do
  let unsplitPath := root ++ requestTarget
  let (path, targetIsDirectory) ←
    walkCgiPath fs unsplitPath (unsplitPath.length + 1) 0 ([], true)
  if targetIsDirectory then
    if (← back path) ≠ ch '/' ∧ (← back unsplitPath) = ch '/' then
      .ok { resolved with path := path ++ [ch '/'] }
    else .ok { resolved with path := path }
  else
    let pathInfo :=
      match find (bytes "?") (unsplitPath.drop path.length) with
      | some i => (unsplitPath.drop path.length).take i
      | none => unsplitPath.drop path.length
    let queryString := unsplitPath.drop (path.length + pathInfo.length)
    -- Resolves "/.." to "/" to prevent escaping directories
    let canonicalPath ← orFilesystemError (fs.weaklyCanonical path)
    let canonicalPathInfo ← orFilesystemError (fs.weaklyCanonical pathInfo)
    .ok { resolved with
      path := canonicalPath, pathInfo := canonicalPathInfo, queryString := queryString }

/-- The index branch of `_resolveToLocation`. -/
def resolveIndex (index : Bytes) (resolved : ResolvedLocation) : ResolvedLocation :=
  let suffix := if index.head? = some (ch '/') then index.tail else index
  { resolved with indexPath := resolved.path ++ suffix, indexDirective := index }

/-- What `_resolveToLocation` makes of the result so far at a location that matches. -/
def resolveLocation (fs : FileSystem) (requestTarget : Bytes) (location : LocationDirective)
    (resolved : ResolvedLocation) : Except Fault ResolvedLocation := do
  let canonical ← orFilesystemError (fs.weaklyCanonical requestTarget)
  let resolved := { resolved with
    resolved := true
    isCgiDirectory := location.cgiExecvePath ≠ []
    cgiExecvePath := location.cgiExecvePath
    pathInfo := []
    queryString := []
    hasIndex := location.index ≠ []
    autoindex := location.autoindex
    hasRedirect := location.redirect ≠ []
    path := location.root ++ canonical
    indexPath := []
    indexDirective := []
    getAllowed := location.getAllowed
    postAllowed := location.postAllowed
    deleteAllowed := location.deleteAllowed }
  if resolved.hasRedirect then .ok { resolved with path := location.redirect }
  else if resolved.isCgiDirectory then resolveCgi fs location.root requestTarget resolved
  else if resolved.hasIndex then .ok (resolveIndex location.index resolved)
  else .ok resolved

/-- The loop of `_resolveToLocation` over the locations. -/
def resolveFrom (fs : FileSystem) (requestTarget : Bytes) :
    List LocationDirective → ℕ → ResolvedLocation → Except Fault ResolvedLocation
  | [], _, resolved => .ok resolved
  | location :: locations, longestUriLength, resolved =>
    if startsWith requestTarget location.uri ∧ longestUriLength < location.uri.length then do
      let resolved ← resolveLocation fs requestTarget location resolved
      resolveFrom fs requestTarget locations location.uri.length resolved
    else resolveFrom fs requestTarget locations longestUriLength resolved

/-- `Server::_resolveToLocation`. -/
def resolveToLocation (fs : FileSystem) (requestTarget : Bytes)
    (locations : List LocationDirective) : Except Fault ResolvedLocation :=
  resolveFrom fs requestTarget locations 0 {}

/-- `Server::_isAllowedMethod`. -/
def isAllowedMethod (location : ResolvedLocation) (method : RequestMethod) : Bool :=
  method = .get && location.getAllowed || method = .post && location.postAllowed ||
    method = .delete && location.deleteAllowed

end Webserv.Server
