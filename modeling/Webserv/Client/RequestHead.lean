import Webserv.Client.PostHead
import Webserv.Foundations.Lines
import Webserv.Numeral

/-!
# Valid header blocks

`RequestHead` is the header block of a `POST` request as a client writes it, and `WellFormed` says
when it is a valid one. The header phase finds its end in the stream (`find_blankLine_render`),
takes it apart into its lines (`getHeaderLines_render`) and accepts it with the headers it names
(`postHead_render`).
-/

namespace Webserv.Client

open Search Utils Lines

/-! ## Lines -/

/-- Lines, each with its line end. -/
def unlines (lines : List Bytes) : Bytes := (lines.map (· ++ crlf)).flatten

@[simp] theorem unlines_nil : unlines [] = [] := rfl

@[simp] theorem unlines_cons (line : Bytes) (lines : List Bytes) :
    unlines (line :: lines) = line ++ crlf ++ unlines lines := by
  simp [unlines]

/-- Lines without a line end inside are found again. -/
theorem linesFrom_unlines {lines : List Bytes} (h : ∀ line ∈ lines, Free 13 10 line) {fuel : ℕ}
    (hfuel : lines.length < fuel) : linesFrom crlf fuel (unlines lines) = lines := by
  induction lines generalizing fuel with
  | nil =>
    obtain ⟨n, rfl⟩ := Nat.exists_eq_succ_of_ne_zero (by omega : fuel ≠ 0)
    rfl
  | cons line lines ih =>
    obtain ⟨n, rfl⟩ := Nat.exists_eq_succ_of_ne_zero (by omega : fuel ≠ 0)
    have hfind : find crlf (line ++ crlf ++ unlines lines) = some line.length := by
      have := find_pair_append (by decide) (h line List.mem_cons_self) (unlines lines)
      simpa [crlf] using this
    have hlen : line.length + crlf.length = (line ++ crlf).length := by simp
    rw [unlines_cons, linesFrom, hfind]
    dsimp only
    rw [hlen, List.drop_left, List.append_assoc, List.take_left,
      ih (fun l hl => h l (by simp [hl])) (by simpa using hfuel)]

theorem length_lt_unlines (lines : List Bytes) : lines.length ≤ (unlines lines).length := by
  induction lines with
  | nil => simp
  | cons line lines ih =>
    simp only [unlines_cons, List.length_append, List.length_cons, crlf]
    omega

theorem getHeaderLines_unlines {lines : List Bytes} (h : ∀ line ∈ lines, Free 13 10 line) :
    getHeaderLines (unlines lines) = lines :=
  linesFrom_unlines h (Nat.lt_succ_of_le (length_lt_unlines lines))

theorem unlines_eq_join (line : Bytes) (lines : List Bytes) :
    unlines (line :: lines) = join 13 10 (line :: lines) ++ crlf := by
  induction lines generalizing line with
  | nil => simp [join]
  | cons next lines ih =>
    rw [unlines_cons, ih next, join]
    simp [crlf]

/-- The first blank line of non-empty lines that a blank line follows. -/
theorem find_blankLine {line : Bytes} {lines : List Bytes}
    (h : ∀ l ∈ line :: lines, Free 13 10 l) (hne : ∀ l ∈ lines, l ≠ []) (t : Bytes) :
    find blankLine (unlines (line :: lines) ++ (crlf ++ t)) =
      some ((unlines (line :: lines)).length - 2) := by
  rw [unlines_eq_join, List.append_assoc, List.length_append]
  exact find_blank (by decide) h hne t

/-! ## The header block -/

/-- The header block of a `POST` request: the target, the digits of the protocol version, and the
fields with their names and values. -/
structure RequestHead where
  target : Bytes
  major : UInt8
  minor : UInt8
  fields : List (Bytes × Bytes)

namespace RequestHead

/-- The request line. -/
def requestLine (h : RequestHead) : Bytes :=
  bytes "POST" ++ ch ' ' :: h.target ++ ch ' ' :: (bytes "HTTP/" ++ [h.major, ch '.', h.minor])

/-- The line of a field. -/
def fieldLine (field : Bytes × Bytes) : Bytes := field.1 ++ ch ':' :: field.2

/-- The lines of the header block. -/
def lines (h : RequestHead) : List Bytes := h.requestLine :: h.fields.map fieldLine

/-- The bytes of the header block, with the blank line that ends it. -/
def render (h : RequestHead) : Bytes := unlines h.lines ++ crlf

/-- The value of the field that is stored under `key`, without the blanks around it. -/
def field? (h : RequestHead) (key : Bytes) : Option Bytes :=
  (h.fields.find? fun field => headerKey field.1 = key).map fun field =>
    trim field.2 (bytes " \t")

/-- A valid header block: the target is absolute, no line has a line end inside, the fields have
distinct names, and one of them is a `Host` that does not start with a colon. -/
structure WellFormed (h : RequestHead) : Prop where
  target_head : h.target.head? = some (ch '/')
  target_line : (13 : UInt8) ∉ h.target
  major_digit : IsDigit h.major
  minor_digit : IsDigit h.minor
  name_ne_nil : ∀ field ∈ h.fields, field.1 ≠ []
  name_colon : ∀ field ∈ h.fields, ch ':' ∉ field.1
  name_line : ∀ field ∈ h.fields, (13 : UInt8) ∉ field.1
  value_line : ∀ field ∈ h.fields, (13 : UInt8) ∉ field.2
  names_nodup : (h.fields.map fun field => headerKey field.1).Nodup
  host : ∃ host, h.field? (bytes "HOST") = some host ∧ host.head? ≠ some (ch ':')

variable {h : RequestHead}

theorem WellFormed.line_free (hw : h.WellFormed) : ∀ line ∈ h.lines, Free 13 10 line := by
  intro line hline
  refine free_of_notMem_left ?_
  rcases List.mem_cons.1 hline with rfl | hline
  · have hmajor : h.major ≠ 13 := hw.major_digit.ne (by decide)
    have hminor : h.minor ≠ 13 := hw.minor_digit.ne (by decide)
    have hpost : (13 : UInt8) ∉ bytes "POST" := by decide
    have hhttp : (13 : UInt8) ∉ bytes "HTTP/" := by decide
    have hspace : (13 : UInt8) ≠ ch ' ' := by decide
    have hdot : (13 : UInt8) ≠ ch '.' := by decide
    simp [requestLine, hw.target_line, hpost, hhttp, hspace, hdot, hmajor.symm, hminor.symm]
  · obtain ⟨field, hfield, rfl⟩ := List.mem_map.1 hline
    have hcolon : (13 : UInt8) ≠ ch ':' := by decide
    simp [fieldLine, hw.name_line field hfield, hw.value_line field hfield, hcolon]

/-- The end of the header block is found in the stream. -/
theorem WellFormed.find_blankLine_render (hw : h.WellFormed) (t : Bytes) :
    find blankLine (h.render ++ t) = some ((unlines h.lines).length - 2) := by
  rw [render, List.append_assoc]
  refine find_blankLine hw.line_free (fun l hl => ?_) t
  obtain ⟨field, hfield, rfl⟩ := List.mem_map.1 hl
  simp [fieldLine]

theorem two_le_length_lines (h : RequestHead) : 2 ≤ (unlines h.lines).length := by
  simp [lines, crlf]
  omega

theorem length_render (h : RequestHead) : h.render.length = (unlines h.lines).length + 2 := by
  simp [render, crlf]

theorem WellFormed.getHeaderLines_render (hw : h.WellFormed) :
    getHeaderLines (unlines h.lines) = h.lines := getHeaderLines_unlines hw.line_free

/-! ## The request line and the fields -/

theorem isValidProtocol_render (hw : h.WellFormed) :
    isValidProtocol (bytes "HTTP/" ++ [h.major, ch '.', h.minor]) = true := by
  have hbytes : bytes "HTTP/" = [72, 84, 84, 80, 47] := by decide
  have hlen : (bytes "HTTP/0.0").length = 8 := by decide
  obtain ⟨h₀, h₉⟩ := hw.major_digit
  simp [isValidProtocol, hbytes, hlen, startsWith, h₀, h₉, hw.minor_digit.1]

theorem WellFormed.postLine (hw : h.WellFormed) : PostLine h.requestLine := by
  have hspace : bytes " " = [ch ' '] := by decide
  have hpost : ch ' ' ∉ bytes "POST" := by decide
  have hhttp : ch ' ' ∉ bytes "HTTP/" ++ [h.major, ch '.', h.minor] := by
    have h₁ : ch ' ' ∉ bytes "HTTP/" := by decide
    have h₂ : ch ' ' ≠ ch '.' := by decide
    have hmajor : h.major ≠ ch ' ' := hw.major_digit.ne (by decide)
    have hminor : h.minor ≠ ch ' ' := hw.minor_digit.ne (by decide)
    simp [h₁, h₂, hmajor.symm, hminor.symm]
  have hfirst : find (bytes " ") h.requestLine = some (bytes "POST").length := by
    rw [hspace, requestLine, List.append_assoc, List.cons_append]
    exact find_singleton_append hpost _
  have hlast : findLast (ch ' ') h.requestLine =
      some (bytes "POST" ++ ch ' ' :: h.target).length := findLast_append _ hhttp
  have htarget : h.target ≠ [] := by
    intro hnil
    have := hw.target_head
    simp [hnil] at this
  refine ⟨_, _, hfirst, ?_, hlast, ?_, ?_, ?_⟩
  · rw [requestLine, List.append_assoc, List.take_left]
  · simp
  · have hdrop : h.requestLine.drop ((bytes "POST").length + 1) =
        h.target ++ ch ' ' :: (bytes "HTTP/" ++ [h.major, ch '.', h.minor]) := by
      rw [requestLine, List.append_assoc, ← List.drop_drop, List.drop_left]
      rfl
    have hlen : (bytes "POST" ++ ch ' ' :: h.target).length - ((bytes "POST").length + 1) =
        h.target.length := by
      simp
      omega
    rw [hdrop, hlen, List.take_left]
    exact hw.target_head
  · rw [requestLine, ← List.drop_drop, List.drop_left]
    exact isValidProtocol_render hw

/-- `_fillHeaders` stores every field under its own key. -/
theorem fillHeaders_fields {fields : List (Bytes × Bytes)} (hne : ∀ f ∈ fields, f.1 ≠ [])
    (hcolon : ∀ f ∈ fields, ch ':' ∉ f.1)
    (hnodup : (fields.map fun f => headerKey f.1).Nodup) (headers : Headers)
    (hnew : ∀ f ∈ fields, headerKey f.1 ∉ headers) :
    ∃ filled, fillHeaders (fields.map fieldLine) headers = (true, filled) ∧
      ∀ key, filled.lookup key =
        ((fields.find? fun f => headerKey f.1 = key).map fun f => trim f.2 (bytes " \t")).or
          (headers.lookup key) := by
  induction fields generalizing headers with
  | nil => exact ⟨headers, rfl, by simp⟩
  | cons f fields ih =>
    have hcolonBytes : bytes ":" = [ch ':'] := by decide
    have hfind : find (bytes ":") (fieldLine f) = some f.1.length := by
      rw [hcolonBytes]
      exact find_singleton_append (hcolon f (by simp)) f.2
    have hlen : f.1.length ≠ 0 := by
      simpa using hne f (by simp)
    have hkey : headerKey f.1 ∉ headers := hnew f (by simp)
    have htake : (fieldLine f).take f.1.length = f.1 := List.take_left
    have hdrop : (fieldLine f).drop (f.1.length + 1) = f.2 := by
      rw [fieldLine, ← List.drop_drop, List.drop_left]
      rfl
    rw [List.map_cons, List.nodup_cons] at hnodup
    obtain ⟨filled, hfilled, hlookup⟩ := ih (fun g hg => hne g (by simp [hg]))
      (fun g hg => hcolon g (by simp [hg])) hnodup.2
      (headers.insert (headerKey f.1) (trim f.2 (bytes " \t"))) (by
        intro g hg hmem
        rcases Finmap.mem_insert.1 hmem with heq | hmem
        · exact hnodup.1 (List.mem_map.2 ⟨g, hg, heq⟩)
        · exact hnew g (by simp [hg]) hmem)
    refine ⟨filled, ?_, fun key => ?_⟩
    · rw [List.map_cons, fillHeaders, hfind]
      dsimp only
      rw [if_neg hlen, htake, hdrop, if_neg hkey, Map.emplace_of_notMem hkey, hfilled]
    · rw [hlookup, Map.lookup_insert_eq, List.find?_cons]
      by_cases hk : headerKey f.1 = key
      · subst hk
        have hnone : fields.find? (fun g => headerKey g.1 = headerKey f.1) = none := by
          rw [List.find?_eq_none]
          intro g hg heq
          exact hnodup.1 (List.mem_map.2 ⟨g, hg, by simpa using heq⟩)
        simp [hnone]
      · simp [hk, Ne.symm hk]

/-- **The header phase accepts a well-formed head**, with the headers it names. -/
theorem WellFormed.postHead (hw : h.WellFormed) :
    ∃ headers : Headers, PostHead (unlines h.lines) headers ∧
      ∀ key, headers.lookup key = h.field? key := by
  obtain ⟨headers, hfill, hlookup⟩ := fillHeaders_fields hw.name_ne_nil hw.name_colon
    hw.names_nodup ∅ fun f _ => Finmap.notMem_empty
  have hfield : ∀ key, headers.lookup key = h.field? key := by
    intro key
    rw [hlookup, field?]
    simp
  refine ⟨headers, ⟨h.requestLine, _, hw.getHeaderLines_render, hw.postLine, hfill, ?_⟩, hfield⟩
  obtain ⟨host, hhost, hhead⟩ := hw.host
  refine ⟨host, by rw [hfield, hhost], fun h0 => hhead ?_⟩
  have hcolonBytes : bytes ":" = [ch ':'] := by decide
  obtain ⟨-, hocc, -⟩ := find_eq_some h0
  rw [List.drop_zero, hcolonBytes] at hocc
  obtain ⟨rest, rfl⟩ := hocc
  rfl

end RequestHead

end Webserv.Client
