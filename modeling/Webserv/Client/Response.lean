import Mathlib.Data.List.Sort
import Webserv.Client.Header
import Webserv.FileSystem

/-!
# Preparing a response

The `respondWith…` methods of `Client`, `prependResponseHeader`, and the headers of a CGI document
response (`extractCGIDocumentResponseHeaders`).
-/

namespace Webserv.Client

open Search Utils

/-- `Client::get_reason_phrase`; `none` is its `assert(false)`. -/
def getReasonPhrase (status : Status) : Option Bytes :=
  if status = .ok then some (bytes "OK")
  else if status = .movedPermanently then some (bytes "Moved Permanently")
  else if status = .movedTemporarily then some (bytes "Moved Temporarily")
  else if status = .badRequest then some (bytes "Bad Request")
  else if status = .forbidden then some (bytes "Forbidden")
  else if status = .notFound then some (bytes "Not Found")
  else if status = .methodNotAllowed then some (bytes "Method Not Allowed")
  else if status = .requestEntityTooLarge then some (bytes "Request Entity Too Large")
  else if status = .internalServerError then some (bytes "Internal Server Error")
  else none

/-- The result of a call that gives `none` where it asserts or throws `fault`. -/
def orThrow {α : Type} (fault : Fault) : Option α → ClientM α
  | some a => pure a
  | none => throw fault

/-- `Client::_addResponseHeader`. -/
def addResponseHeader (key value : Bytes) : ClientM Unit :=
  modify fun c => { c with response := c.response ++ key ++ bytes ": " ++ value ++ crlf }

/-- The reason phrase in the status line of a response. -/
def reasonPhrase : ClientM Bytes := do
  let c ← get
  if c.customReasonPhrase = [] then orThrow .assertion (getReasonPhrase c.status)
  else pure c.customReasonPhrase

/-- The `Location` header of a redirection. -/
def addLocation : ClientM Unit := do
  let c ← get
  if c.status = .movedPermanently then
    addResponseHeader (bytes "Location") (bytes "http://" ++ c.unuppercasedServerName ++
      bytes ":" ++ c.serverPort ++ c.requestTarget ++ bytes "/")
  else if c.status = .movedTemporarily then
    assert (c.redirect ≠ [])
    addResponseHeader (bytes "Location") c.redirect

/-- `Client::prependResponseHeader`. -/
def prependResponseHeader : ClientM Unit := do
  let responseBody := (← get).response
  let phrase ← reasonPhrase
  modify fun c => { c with
    response := c.protocol ++ bytes " " ++ decimal c.status.code ++ bytes " " ++ phrase ++ crlf }
  addResponseHeader (bytes "Content-Type") (← get).responseContentType
  addResponseHeader (bytes "Content-Length") (decimal responseBody.length)
  addLocation
  modify fun c => { c with response := c.response ++ crlf ++ responseBody }

/-- The page `respondWithError` falls back on. -/
def defaultErrorPage (title : Bytes) : Bytes :=
  bytes "<html>\n<head><title>" ++ title ++ bytes "</title></head>\n<body>\n<center><h1>" ++ title ++
    bytes "</h1></center>\n<hr><center>webserv</center>\n</body>\n</html>\n"

/-- The page of `respondWithError`: the configured one, if it can be read. -/
def getErrorPage (fs : FileSystem) (errorPages : Map ℕ Bytes) : ClientM Bytes := do
  let c ← get
  match (errorPages.lookup c.status.code).bind fs.readFile with
  | some page => pure page
  | none =>
    let phrase ← orThrow .assertion (getReasonPhrase c.status)
    pure (defaultErrorPage (decimal c.status.code ++ bytes " " ++ phrase))

/-- `Client::respondWithError`. -/
def respondWithError (fs : FileSystem) (errorPages : Map ℕ Bytes) : ClientM Unit := do
  let page ← getErrorPage fs errorPages
  modify fun c => { c with
    response := page, responseIndex := 0, responseContentType := bytes "text/html" }
  prependResponseHeader

/-- `Client::_getFileExtension`. -/
def getFileExtension (path : Bytes) : Bytes :=
  match findLast (ch '.') path with
  | none => []
  | some periodIndex => path.drop periodIndex

/-- `Client::_getFileName`. -/
def getFileName (path : Bytes) : Bytes :=
  match findLast (ch '/') path with
  | none => []
  | some slashIndex => path.drop (slashIndex + 1)

/-- The table `extension_to_content_type` of `respondWithFile`. -/
def extensionToContentType : List (Bytes × Bytes) :=
  [(bytes ".c", bytes "text/plain"), (bytes ".cpp", bytes "text/plain"),
    (bytes ".h", bytes "text/plain"), (bytes ".hpp", bytes "text/plain"),
    (bytes ".log", bytes "text/plain"), (bytes ".md", bytes "text/plain"),
    (bytes ".mk", bytes "text/plain"), (bytes ".py", bytes "text/plain"),
    (bytes ".tpp", bytes "text/plain"), (bytes ".txt", bytes "text/plain"),
    (bytes ".html", bytes "text/html"), (bytes ".mp3", bytes "audio/mpeg"),
    (bytes ".png", bytes "image/png"), (bytes ".pdf", bytes "application/pdf"),
    (bytes ".gif", bytes "image/gif"), (bytes ".json", bytes "application/json"),
    (bytes ".mp4", bytes "video/mp4")]

/-- The content type `respondWithFile` chooses for a path, if it changes it. -/
def contentTypeOf (path : Bytes) : Option Bytes :=
  if getFileName path = bytes "Makefile" then some (bytes "text/plain")
  else extensionToContentType.lookup (getFileExtension path)

/-- `Client::respondWithFile`. -/
def respondWithFile (fs : FileSystem) (path : Bytes) : ClientM Unit := do
  assert ((← get).response = [])
  if ← orThrow .filesystem (fs.isRegularFile path) then
    modify fun c => { c with
      response := (fs.readFile path).getD []
      responseContentType := (contentTypeOf path).getD c.responseContentType }
    prependResponseHeader
  else raise .notFound

/-- `Client::_getSortedEntryNames`. -/
def getSortedEntryNames (fs : FileSystem) (path : Bytes) (onlyReturnDirectoryEntries : Bool) :
    ClientM (List Bytes) :=
  match fs.entries path with
  | none => raise .notFound
  | some entries =>
    let names := (entries.filter fun e => e.1 ≠ bytes "." ∧ e.2 = onlyReturnDirectoryEntries).map
      fun e => if onlyReturnDirectoryEntries then e.1 ++ bytes "/" else e.1
    pure (names.insertionSort (· ≤ ·))

/-- The part of a directory listing before its entries. -/
def listingHead (requestTarget : Bytes) : Bytes :=
  bytes "<!DOCTYPE html>\n<html>\n\t<meta charset=\"UTF-8\">\n\t<head>\n\t\t<title>Index of " ++
    requestTarget ++
    bytes "</title>\n\t\t<style>\n\t\t\tbody \x7b\n\t\t\t\tbackground-color: gray;\n" ++
    bytes "\t\t\t\tfont-size: large;\n\t\t\t\x7d\n\t\t\ta \x7b\n\t\t\t\tpadding-left: 2px;\n" ++
    bytes "\t\t\t\tmargin-left: 4px;\n\t\t\t\x7d\n\t\t\tbutton \x7b\n" ++
    bytes "\t\t\t\tbackground-color: gray;\n\t\t\t\tpadding-left: 3px;\n" ++
    bytes "\t\t\t\tpadding-right: 3px;\n\t\t\t\tborder: 0px;\n\t\t\t\tmargin: 2px;\n" ++
    bytes "\t\t\t\tcursor: pointer;\n\t\t\t\x7d\n\t\t\thr \x7b\n\t\t\t\tborder-color: black;\n" ++
    bytes "\t\t\t\tbackground-color: black;\n\t\t\t\tcolor: black;\n\t\t\t\x7d\n\t\t</style>\n" ++
    bytes "\t</head>\n\t<body>\n\t\t<h1>Index of " ++ requestTarget ++
    bytes "</h1>\n\t\t<hr>\n\t\t<pre>\n"

/-- The line of a directory listing for an entry. -/
def listingLine (name : Bytes) : Bytes :=
  bytes "<a href=\"" ++ name ++ bytes "\">" ++ name ++ bytes "</a>\n"

/-- `Client::respondWithDirectoryListing`. -/
def respondWithDirectoryListing (fs : FileSystem) (path : Bytes) : ClientM Unit := do
  assert ((← get).response = [])
  modify fun c => { c with response := listingHead c.requestTarget }
  let directoryNames ← getSortedEntryNames fs path true
  modify fun c => { c with response := c.response ++ directoryNames.flatMap listingLine }
  let nonDirectoryNames ← getSortedEntryNames fs path false
  modify fun c => { c with response := c.response ++ nonDirectoryNames.flatMap listingLine }
  modify fun c => { c with
    response := c.response ++ bytes "\t\t</pre>\n\t\t<hr>\n\t</body>\n</html>\n"
    responseContentType := bytes "text/html" }
  prependResponseHeader

/-- `Client::respondWithCreateFile`. -/
def respondWithCreateFile (fs : FileSystem) (path : Bytes) : ClientM Unit := do
  assert ((← get).response = [])
  -- The file already exists
  if fs.openForUpdate path then raise .badRequest
  -- The file cannot be created
  else if fs.openForWriting path = false then raise .badRequest
  else prependResponseHeader

/-- `Client::respondWithDeleteFile`. -/
def respondWithDeleteFile (fs : FileSystem) (path : Bytes) : ClientM Unit := do
  assert ((← get).response = [])
  if ← orThrow .filesystem (fs.remove path) then prependResponseHeader else raise .notFound

/-- The status a CGI's `Status` header names, with its reason phrase; `none` if it is malformed. -/
def parseCgiStatus (statusString : Bytes) : Option (Status × Bytes) :=
  match find (bytes " ") statusString with
  | none => none
  | some spaceIndex =>
    match parseNumber (statusString.take spaceIndex) 999 with
    | (true, statusCode) => some (⟨statusCode⟩, statusString.drop (spaceIndex + 1))
    | (false, _) => none

/-- `this->status = Status::INTERNAL_SERVER_ERROR; return;`. -/
def failDocument : ClientM Unit := modify fun c => { c with status := .internalServerError }

/-- What `extractCGIDocumentResponseHeaders` does with the headers of the document. -/
def useCgiHeaders (cgiHeaders : Headers) : ClientM Unit := do
  match cgiHeaders.lookup (bytes "CONTENT_TYPE") with
  | none => failDocument
  | some contentType =>
    modify fun c => { c with responseContentType := contentType }
    match cgiHeaders.lookup (bytes "STATUS") with
    | none => pure ()
    | some statusString =>
      match parseCgiStatus statusString with
      | none => failDocument
      | some (status, reasonPhrase) =>
        modify fun c => { c with status := status, customReasonPhrase := reasonPhrase }

/-- `Client::extractCGIDocumentResponseHeaders`. -/
def extractCGIDocumentResponseHeaders : ClientM Unit := do
  if (← get).cgiExitStatus ≠ 0 then pure ()
  else
    match find [10, 10] (← get).response with
    | none => failDocument
    | some separatorIndex =>
      let cgiHeader := (← get).response.take (separatorIndex + 1)
      modify fun c => { c with response := c.response.drop (separatorIndex + 2) }
      match fillHeaders (linesFrom [10] (cgiHeader.length + 1) cgiHeader) ∅ with
      | (false, _) => failDocument
      | (true, cgiHeaders) => useCgiHeaders cgiHeaders

end Webserv.Client
