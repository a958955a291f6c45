import Webserv.Client.Parsing
import Webserv.Client.Response

/-!
# What preparing a response changes

The methods of `Client` that prepare a response change the response, its content type and its
status, and nothing else (`unanswered`), whether they return or throw. When they return, there is
something to send (`Fills`).
-/

namespace Webserv.Client

open Exec

/-- A client without its response. -/
def unanswered (c : Client) : Client :=
  { c with
    status := .ok
    response := []
    customReasonPhrase := []
    responseContentType := [] }

theorem keeps_orThrow {α β : Type} {f : Client → β} (fault : Fault) (a : Option α) :
    Keeps f (orThrow fault a) := by
  cases a with
  | none => exact .throw _
  | some a => exact .pure a

theorem keeps_assert {β : Type} {f : Client → β} (p : Prop) [Decidable p] : Keeps f (assert p) :=
  .ite (.pure _) (.throw _)

section Header

variable {β : Type} {f : Client → β} (hf : ∀ c response, f { c with response := response } = f c)

include hf

theorem keeps_addResponseHeader (key value : Bytes) : Keeps f (addResponseHeader key value) :=
  .modify fun c => hf c _

theorem keeps_addLocation : Keeps f addLocation := by
  refine .bind .get fun c => .ite (keeps_addResponseHeader hf _ _) (.ite ?_ (.pure _))
  exact .bind (keeps_assert _) fun _ => keeps_addResponseHeader hf _ _

/-- Only the response is given a header. -/
theorem keeps_prependResponseHeader : Keeps f prependResponseHeader := by
  have hphrase : Keeps f reasonPhrase := .bind .get fun _ => .ite (keeps_orThrow _ _) (.pure _)
  refine .bind .get fun _ => .bind hphrase fun _ => .bind (.modify fun c => hf c _) fun _ => ?_
  refine .bind .get fun _ => .bind (keeps_addResponseHeader hf _ _) fun _ => ?_
  refine .bind (keeps_addResponseHeader hf _ _) fun _ => .bind (keeps_addLocation hf) fun _ => ?_
  exact .modify fun c => hf c _

end Header

/-- A client without its response and what was sent of it. -/
def unsent (c : Client) : Client := { c.unanswered with responseIndex := 0 }

theorem keeps_respondWithError (fs : FileSystem) (errorPages : Map ℕ Bytes) :
    Keeps unsent (respondWithError fs errorPages) := by
  have hpage : Keeps unsent (getErrorPage fs errorPages) := by
    refine .bind .get fun _ => ?_
    split
    · exact .pure _
    · exact .bind (keeps_orThrow _ _) fun _ => .pure _
  refine .bind hpage fun _ => .bind (.modify fun _ => rfl) fun _ => ?_
  exact keeps_prependResponseHeader fun _ _ => rfl

/-- An error page is sent from its beginning. -/
theorem responseIndex_respondWithError {fs : FileSystem} {errorPages : Map ℕ Bytes} {c c' : Client}
    {u : Unit} (h : respondWithError fs errorPages c = .ok u c') : c'.responseIndex = 0 := by
  obtain ⟨page, c₁, -, h⟩ := bind_eq_ok h
  obtain ⟨_, _, ⟨⟩, h⟩ := bind_eq_ok h
  have hkeeps := keeps_prependResponseHeader (f := responseIndex) (fun _ _ => rfl) { c₁ with
    response := page, responseIndex := 0, responseContentType := bytes "text/html" }
  rw [h] at hkeeps
  exact hkeeps

theorem keeps_respondWithFile (fs : FileSystem) (path : Bytes) :
    Keeps unanswered (respondWithFile fs path) := by
  refine .bind .get fun _ => .bind (keeps_assert _) fun _ => .bind (keeps_orThrow _ _) fun _ => ?_
  exact .ite (.bind (.modify fun _ => rfl) fun _ => keeps_prependResponseHeader fun _ _ => rfl) (.throw _)

theorem keeps_respondWithDirectoryListing (fs : FileSystem) (path : Bytes) :
    Keeps unanswered (respondWithDirectoryListing fs path) := by
  have hnames : ∀ directories, Keeps unanswered (getSortedEntryNames fs path directories) := by
    intro directories
    unfold getSortedEntryNames
    split
    · exact .throw _
    · exact .pure _
  refine .bind .get fun _ => .bind (keeps_assert _) fun _ => .bind (.modify fun _ => rfl) fun _ => ?_
  refine .bind (hnames _) fun _ => .bind (.modify fun _ => rfl) fun _ => ?_
  refine .bind (hnames _) fun _ => .bind (.modify fun _ => rfl) fun _ => ?_
  exact .bind (.modify fun _ => rfl) fun _ => keeps_prependResponseHeader fun _ _ => rfl

theorem keeps_respondWithCreateFile (fs : FileSystem) (path : Bytes) :
    Keeps unanswered (respondWithCreateFile fs path) := by
  refine .bind .get fun _ => .bind (keeps_assert _) fun _ => .ite (.throw _) ?_
  exact .ite (.throw _) (keeps_prependResponseHeader fun _ _ => rfl)

theorem keeps_respondWithDeleteFile (fs : FileSystem) (path : Bytes) :
    Keeps unanswered (respondWithDeleteFile fs path) := by
  refine .bind .get fun _ => .bind (keeps_assert _) fun _ => .bind (keeps_orThrow _ _) fun _ => ?_
  exact .ite (keeps_prependResponseHeader fun _ _ => rfl) (.throw _)

theorem keeps_extractCGIDocumentResponseHeaders :
    Keeps unanswered extractCGIDocumentResponseHeaders := by
  have hfail : Keeps unanswered failDocument := .modify fun _ => rfl
  have huse : ∀ cgiHeaders, Keeps unanswered (useCgiHeaders cgiHeaders) := by
    intro cgiHeaders
    unfold useCgiHeaders
    split
    · exact hfail
    · refine .bind (.modify fun _ => rfl) fun _ => ?_
      split
      · exact .pure _
      · split
        · exact hfail
        · exact .modify fun _ => rfl
  refine .bind .get fun _ => .ite (.pure _) (.bind .get fun _ => ?_)
  split
  · exact hfail
  · refine .bind .get fun _ => .bind (.modify fun _ => rfl) fun _ => ?_
    split
    · exact hfail
    · exact huse _

/-! ## There is something to send -/

/-- When the program returns, the response is not empty. -/
def Fills (x : ClientM Unit) : Prop := ∀ c u c', x c = .ok u c' → c'.response ≠ []

theorem Fills.throw (e : Fault) : Fills (throw e) := by
  intro c u c' h
  cases h

theorem Fills.bind {α : Type} {x : ClientM α} {k : α → ClientM Unit} (hk : ∀ a, Fills (k a)) :
    Fills (x >>= k) := by
  intro c u c' h
  obtain ⟨a, c₁, -, h⟩ := bind_eq_ok h
  exact hk a c₁ u c' h

theorem Fills.ite {p : Prop} [Decidable p] {x y : ClientM Unit} (hx : Fills x) (hy : Fills y) :
    Fills (if p then x else y) := by
  split
  · exact hx
  · exact hy

theorem fills_prependResponseHeader : Fills prependResponseHeader := by
  refine .bind fun _ => .bind fun _ => .bind fun _ => .bind fun _ => .bind fun _ => ?_
  refine .bind fun _ => .bind fun _ => ?_
  intro c u c' h
  cases h
  simp [crlf]

theorem fills_respondWithError (fs : FileSystem) (errorPages : Map ℕ Bytes) :
    Fills (respondWithError fs errorPages) :=
  .bind fun _ => .bind fun _ => fills_prependResponseHeader

theorem fills_respondWithFile (fs : FileSystem) (path : Bytes) : Fills (respondWithFile fs path) :=
  .bind fun _ => .bind fun _ => .bind fun _ =>
    .ite (.bind fun _ => fills_prependResponseHeader) (.throw _)

theorem fills_respondWithDirectoryListing (fs : FileSystem) (path : Bytes) :
    Fills (respondWithDirectoryListing fs path) :=
  .bind fun _ => .bind fun _ => .bind fun _ => .bind fun _ => .bind fun _ => .bind fun _ =>
    .bind fun _ => .bind fun _ => fills_prependResponseHeader

theorem fills_respondWithCreateFile (fs : FileSystem) (path : Bytes) :
    Fills (respondWithCreateFile fs path) :=
  .bind fun _ => .bind fun _ => .ite (.throw _) (.ite (.throw _) fills_prependResponseHeader)

theorem fills_respondWithDeleteFile (fs : FileSystem) (path : Bytes) :
    Fills (respondWithDeleteFile fs path) :=
  .bind fun _ => .bind fun _ => .bind fun _ => .ite fills_prependResponseHeader (.throw _)

end Webserv.Client
