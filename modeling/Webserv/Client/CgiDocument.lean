import Webserv.Client.HeaderFields
import Webserv.Client.ResponseFraming
import Webserv.Numeral

/-!
# The document of a CGI

The output of a CGI is a document if it has header lines, a blank line and a body, and the headers name a
type and, if they name a status, do so properly (`IsDocument`). `_cgiEnd` sends the body of a document
with its status, and an error otherwise. But a document may name the status 302, and
`prependResponseHeader` asserts that this one comes with a configured redirect (`delivers_iff`).
-/

namespace Webserv.Client

open Exec Search Utils

/-! ## Lines that end in a line feed -/

/-- Lines, each with a line feed. -/
def feedLines (lines : List Bytes) : Bytes := lines.flatMap (· ++ [10])

theorem feedLines_cons (line : Bytes) (lines : List Bytes) :
    feedLines (line :: lines) = line ++ 10 :: feedLines lines := by
  simp [feedLines]

theorem length_le_feedLines (lines : List Bytes) : lines.length ≤ (feedLines lines).length := by
  induction lines with
  | nil => exact le_rfl
  | cons line lines ih =>
    rw [feedLines_cons, List.length_append, List.length_cons, List.length_cons]
    omega

/-- Lines without a line feed are found again. -/
theorem linesFrom_feedLines {lines : List Bytes} (h : ∀ line ∈ lines, (10 : UInt8) ∉ line) {fuel : ℕ}
    (hfuel : lines.length < fuel) : linesFrom [10] fuel (feedLines lines) = lines := by
  induction lines generalizing fuel with
  | nil =>
    obtain ⟨n, rfl⟩ := Nat.exists_eq_succ_of_ne_zero (by omega : fuel ≠ 0)
    rfl
  | cons line lines ih =>
    obtain ⟨n, rfl⟩ := Nat.exists_eq_succ_of_ne_zero (by omega : fuel ≠ 0)
    obtain ⟨hline, hlines⟩ := List.forall_mem_cons.1 h
    rw [List.length_cons] at hfuel
    rw [feedLines_cons, linesFrom, find_singleton_append hline]
    dsimp only
    rw [List.take_left, ← List.drop_drop, List.drop_left]
    exact congrArg _ (ih hlines (by omega))

/-- A text that ends in a line feed is made of its lines. -/
theorem feedLines_linesFrom {header : Bytes} (h : header = [] ∨ header.getLast? = some 10) {fuel : ℕ}
    (hfuel : header.length < fuel) : feedLines (linesFrom [10] fuel header) = header := by
  induction fuel generalizing header with
  | zero => omega
  | succ fuel ih =>
    rw [linesFrom]
    cases hfind : find [(10 : UInt8)] header with
    | none =>
      rcases h with rfl | hlast
      · rfl
      · have hmem : (10 : UInt8) ∈ header := List.mem_of_getLast? hlast
        obtain ⟨before, after, heq, -⟩ := List.eq_append_cons_of_mem hmem
        refine absurd ?_ (find_eq_none hfind before.length)
        rw [heq, List.drop_left]
        exact List.prefix_append [10] after
    | some i =>
      obtain ⟨hle, ⟨rest, hrest⟩, -⟩ := find_eq_some hfind
      rw [List.singleton_append] at hrest
      have hdrop : header.drop (i + 1) = rest := by
        rw [← List.drop_drop, ← hrest, List.drop_one, List.tail_cons]
      have hsplit : header = header.take i ++ 10 :: rest := by
        rw [hrest, List.take_append_drop]
      have hlength := congrArg List.length hsplit
      rw [List.length_append, List.length_cons] at hlength
      have hrest' : rest = [] ∨ rest.getLast? = some 10 := by
        rcases h with rfl | hlast
        · simp at hsplit
        · by_cases hnil : rest = []
          · exact .inl hnil
          · rw [hsplit, List.getLast?_append_of_ne_nil _ (List.cons_ne_nil _ _),
              List.getLast?_cons_of_ne_nil hnil] at hlast
            exact .inr hlast
      dsimp only
      rw [List.length_singleton, hdrop, feedLines_cons, ih hrest' (by omega), ← hsplit]

/-- The first empty line after lines that are not empty. -/
theorem find_emptyLine {line : Bytes} {lines : List Bytes}
    (h : ∀ l ∈ line :: lines, l ≠ [] ∧ (10 : UInt8) ∉ l) (body : Bytes) :
    find [10, 10] (feedLines (line :: lines) ++ 10 :: body) =
      some ((feedLines (line :: lines)).length - 1) := by
  have hinside : ∀ {line rest : Bytes} {j : ℕ}, (10 : UInt8) ∉ line → j < line.length →
      ¬ [10, 10] <+: (line ++ rest).drop j := by
    intro line rest j hline hj hmatch
    rw [List.drop_append_of_le_length hj.le, List.drop_eq_getElem_cons hj, List.cons_append,
      List.cons_prefix_cons] at hmatch
    exact hline (hmatch.1 ▸ List.getElem_mem hj)
  induction lines generalizing line with
  | nil =>
    obtain ⟨-, hline⟩ := h line List.mem_cons_self
    have hfeed : feedLines [line] ++ 10 :: body = line ++ (10 :: 10 :: body) := by simp [feedLines]
    have hlength : (feedLines [line]).length - 1 = line.length := by simp [feedLines]
    rw [hfeed, hlength]
    exact find_eq_some_of (by simp) (by simp) fun j hj => hinside hline hj
  | cons next lines ih =>
    obtain ⟨⟨-, hline⟩, hlines⟩ := List.forall_mem_cons.1 h
    obtain ⟨hne, hnext⟩ := hlines next List.mem_cons_self
    have hfeed : feedLines (line :: next :: lines) ++ 10 :: body =
        line ++ 10 :: (feedLines (next :: lines) ++ 10 :: body) := by
      rw [feedLines_cons, List.append_assoc]
      rfl
    have hskip : (line ++ 10 :: (feedLines (next :: lines) ++ 10 :: body)).drop (line.length + 1) =
        feedLines (next :: lines) ++ 10 :: body := by
      rw [← List.drop_drop, List.drop_left]
      rfl
    have hpos : 0 < (feedLines (next :: lines)).length := by
      rw [feedLines_cons, List.length_append, List.length_cons]
      omega
    rw [hfeed, find_skip (line.length + 1) (by simp), hskip, ih hlines, feedLines_cons line]
    · simp only [Option.map_some, List.length_append, List.length_cons, Option.some.injEq]
      omega
    · intro j hj
      rcases Nat.lt_succ_iff_lt_or_eq.1 hj with hlt | rfl
      · exact hinside hline hlt
      · obtain ⟨b, rest, rfl⟩ := List.exists_cons_of_ne_nil hne
        rw [List.drop_left, feedLines_cons, List.cons_append, List.cons_append, List.cons_prefix_cons,
          List.cons_prefix_cons]
        rintro ⟨-, rfl, -⟩
        simp at hnext

/-! ## Documents -/

/-- The status that the headers of a document name: that of `Status`, which is a number up to 999, a
space and a phrase, or 200 if there is none. -/
def NamesStatus (fields : List (Bytes × Bytes)) (code : ℕ) : Prop :=
  (∀ value, (bytes "STATUS", value) ∉ fields) ∧ code = 200 ∨
    ∃ numeral phrase, (bytes "STATUS", numeral ++ ch ' ' :: phrase) ∈ fields ∧
      IsNumeral numeral code ∧ code ≤ 999

/-- Lines with distinct fields, among them a type and maybe a status, then an empty line and a body. -/
def IsDocument (output : Bytes) (code : ℕ) (body : Bytes) : Prop :=
  ∃ lines fields, output = feedLines lines ++ 10 :: body ∧ lines ≠ [] ∧
    (∀ line ∈ lines, (10 : UInt8) ∉ line) ∧ List.Forall₂ IsField lines fields ∧
    (fields.map Prod.fst).Nodup ∧ (∃ value, (bytes "CONTENT_TYPE", value) ∈ fields) ∧
    NamesStatus fields code

/-- What is left of a line does not start with a space. -/
theorem head?_trim (s : Bytes) : (trim s (bytes " \t")).head? ≠ some (ch ' ') := by
  intro hhead
  have hne : trim s (bytes " \t") ≠ [] := by
    intro hnil
    rw [hnil] at hhead
    cases hhead
  have hnot := List.head_dropWhile_not ((bytes " \t").contains ·) hne
  have hspace : (bytes " \t").contains (ch ' ') = true := by decide
  rw [List.head?_eq_some_head hne] at hhead
  exact Bool.false_ne_true ((Option.some.inj hhead ▸ hnot).symm.trans hspace)

theorem parseCgiStatus_iff {value reasonPhrase : Bytes} {status : Status}
    (hhead : value.head? ≠ some (ch ' ')) :
    parseCgiStatus value = some (status, reasonPhrase) ↔
      ∃ numeral, value = numeral ++ ch ' ' :: reasonPhrase ∧ IsNumeral numeral status.code ∧
        status.code ≤ 999 := by
  have hspace : bytes " " = [ch ' '] := by decide
  have hmax : 9 ≤ 999 := by decide
  constructor
  · intro h
    unfold parseCgiStatus at h
    split at h
    · cases h
    · rename_i i hfind
      split at h
      · rename_i code hnumber
        cases h
        obtain ⟨hle, ⟨rest, hrest⟩, -⟩ := find_eq_some hfind
        rw [hspace, List.singleton_append] at hrest
        have hdrop : value.drop (i + 1) = rest := by
          rw [← List.drop_drop, ← hrest, List.drop_one, List.tail_cons]
        have hsplit : value = value.take i ++ ch ' ' :: rest := by
          rw [hrest, List.take_append_drop]
        rcases (parseNumber_iff hmax).1 hnumber with ⟨hnumeral, hbound⟩ | ⟨hnil, -⟩
        · exact ⟨value.take i, by rw [hdrop]; exact hsplit, hnumeral, hbound⟩
        · rw [hnil, List.nil_append] at hsplit
          exact absurd (by rw [hsplit]; rfl) hhead
      · cases h
  · rintro ⟨numeral, rfl, hnumeral, hbound⟩
    have hnotMem : ch ' ' ∉ numeral := fun hmem => absurd (hnumeral.digits _ hmem) (by decide)
    have hfind : find (bytes " ") (numeral ++ ch ' ' :: reasonPhrase) = some numeral.length := by
      rw [hspace]
      exact find_singleton_append hnotMem reasonPhrase
    have hnumber : parseNumber numeral 999 = (true, status.code) :=
      (parseNumber_iff hmax).2 (.inl ⟨hnumeral, hbound⟩)
    rw [parseCgiStatus, hfind]
    dsimp only
    rw [List.take_left, hnumber]
    dsimp only
    rw [← List.drop_drop, List.drop_left, List.drop_one, List.tail_cons]

/-- The header lines of an output, as they are found up to the first empty line. -/
def cgiLines (output : Bytes) (separatorIndex : ℕ) : List Bytes :=
  linesFrom [10] ((output.take (separatorIndex + 1)).length + 1) (output.take (separatorIndex + 1))

/-- The status that `useCgiHeaders` finds. -/
def FindsStatus (headers : Headers) (code : ℕ) : Prop :=
  headers.lookup (bytes "STATUS") = none ∧ code = 200 ∨
    ∃ value phrase, headers.lookup (bytes "STATUS") = some value ∧
      parseCgiStatus value = some (⟨code⟩, phrase)

/-- The values of fields are trimmed. -/
theorem head?_of_mem_fieldsOf {lines : List Bytes} {key value : Bytes} (h : (key, value) ∈ fieldsOf lines) :
    value.head? ≠ some (ch ' ') := by
  obtain ⟨line, -, hfield⟩ := List.mem_filterMap.1 h
  obtain ⟨name, rest, -, -, -, heq⟩ := field?_iff.1 hfield
  cases heq
  exact head?_trim rest

theorem findsStatus_iff {lines : List Bytes} (h : (fillHeaders lines ∅).1 = true) {code : ℕ} :
    FindsStatus (fillHeaders lines ∅).2 code ↔ NamesStatus (fieldsOf lines) code := by
  have hlookup : ∀ key value, (fillHeaders lines ∅).2.lookup key = some value ↔
      (key, value) ∈ fieldsOf lines := by
    intro key value
    rw [lookup_fillHeaders h]
    simp
  refine or_congr (and_congr_left fun _ => ?_) ?_
  · rw [Option.eq_none_iff_forall_ne_some]
    exact forall_congr' fun value => (hlookup _ value).not
  · constructor
    · rintro ⟨value, phrase, hvalue, hparse⟩
      have hmem := (hlookup _ _).1 hvalue
      obtain ⟨numeral, rfl, hnumeral, hbound⟩ :=
        (parseCgiStatus_iff (head?_of_mem_fieldsOf hmem)).1 hparse
      exact ⟨numeral, phrase, hmem, hnumeral, hbound⟩
    · rintro ⟨numeral, phrase, hmem, hnumeral, hbound⟩
      exact ⟨_, phrase, (hlookup _ _).2 hmem,
        (parseCgiStatus_iff (head?_of_mem_fieldsOf hmem)).2 ⟨numeral, rfl, hnumeral, hbound⟩⟩

/-- **Documents, in terms of what is found.** -/
theorem isDocument_iff {output body : Bytes} {code : ℕ} : IsDocument output code body ↔
    ∃ i, find [10, 10] output = some i ∧ body = output.drop (i + 2) ∧
      (fillHeaders (cgiLines output i) ∅).1 = true ∧
      ((fillHeaders (cgiLines output i) ∅).2.lookup (bytes "CONTENT_TYPE")).isSome = true ∧
      FindsStatus (fillHeaders (cgiLines output i) ∅).2 code := by
  constructor
  · rintro ⟨lines, fields, rfl, hne, hlines, hfields, hnodup, ⟨value, hvalue⟩, hstatus⟩
    obtain ⟨hall, rfl⟩ := eq_fieldsOf hfields
    have hnonempty : ∀ l ∈ lines, l ≠ [] ∧ (10 : UInt8) ∉ l := by
      refine fun l hl => ⟨?_, hlines l hl⟩
      rintro rfl
      exact Bool.false_ne_true (hall [] hl)
    obtain ⟨line, rest, rfl⟩ := List.exists_cons_of_ne_nil hne
    have hpos : 0 < (feedLines (line :: rest)).length := by
      rw [feedLines_cons, List.length_append, List.length_cons]
      omega
    have hcgi : cgiLines (feedLines (line :: rest) ++ 10 :: body)
        ((feedLines (line :: rest)).length - 1) = line :: rest := by
      rw [cgiLines, Nat.sub_add_cancel hpos, List.take_left]
      exact linesFrom_feedLines hlines (Nat.lt_succ_of_le (length_le_feedLines _))
    have haccepted : (fillHeaders (line :: rest) ∅).1 = true :=
      fillHeaders_accepts.2 ⟨hall, hnodup, fun _ _ => Finmap.notMem_empty⟩
    refine ⟨_, find_emptyLine hnonempty body, ?_, ?_⟩
    · rw [show (feedLines (line :: rest)).length - 1 + 2 = (feedLines (line :: rest)).length + 1 by omega,
        ← List.drop_drop, List.drop_left, List.drop_one, List.tail_cons]
    · rw [hcgi]
      refine ⟨haccepted, ?_, (findsStatus_iff haccepted).2 hstatus⟩
      rw [(lookup_fillHeaders haccepted).2 (.inl hvalue)]
      rfl
  · rintro ⟨i, hfind, rfl, haccepted, htype, hstatus⟩
    obtain ⟨hle, ⟨rest, hrest⟩, -⟩ := find_eq_some hfind
    obtain ⟨hall, hnodup, -⟩ := fillHeaders_accepts.1 haccepted
    obtain ⟨value, hvalue⟩ := Option.isSome_iff_exists.1 htype
    have hdrop : output.drop (i + 1) = 10 :: rest := by
      rw [← List.drop_drop, ← hrest]
      rfl
    have hdrop' : output.drop (i + 2) = rest := by
      rw [show i + 2 = i + 1 + 1 from rfl, ← List.drop_drop, hdrop, List.drop_one, List.tail_cons]
    have htake : output.take (i + 1) = output.take i ++ [10] := by
      have hlt : i < output.length := by
        have hlength := congrArg List.length hrest
        rw [List.length_append, List.length_drop] at hlength
        simp only [List.length_cons, List.length_nil] at hlength
        omega
      rw [List.take_succ_eq_append_getElem hlt]
      congr 2
      rw [List.drop_eq_getElem_cons hlt] at hrest
      exact (List.cons.inj hrest).1.symm
    have hfeed : feedLines (cgiLines output i) = output.take (i + 1) := by
      refine feedLines_linesFrom (.inr ?_) (Nat.lt_succ_self _)
      rw [htake, List.getLast?_append_of_ne_nil _ (List.cons_ne_nil _ _)]
      rfl
    refine ⟨cgiLines output i, fieldsOf (cgiLines output i), ?_, ?_, notMem_linesFrom _ _,
      forall₂_fieldsOf hall, hnodup, ⟨value, ?_⟩, (findsStatus_iff haccepted).1 hstatus⟩
    · rw [hfeed, hdrop', ← hdrop, List.take_append_drop]
    · intro hnil
      rw [hnil, htake] at hfeed
      simp [feedLines] at hfeed
    · exact ((lookup_fillHeaders haccepted).1 hvalue).resolve_right (by simp)

/-! ## What is sent -/

variable {c : Client}

theorem extractCGIDocumentResponseHeaders_eq (hexit : c.cgiExitStatus = 0) :
    extractCGIDocumentResponseHeaders c =
      match find [10, 10] c.response with
      | none => failDocument c
      | some i =>
        (if (fillHeaders (cgiLines c.response i) ∅).1 then
          useCgiHeaders (fillHeaders (cgiLines c.response i) ∅).2
        else failDocument) { c with response := c.response.drop (i + 2) } := by
  rw [extractCGIDocumentResponseHeaders, run_bind, run_get]
  dsimp only
  rw [run_ite, if_neg (not_not.2 hexit), run_bind, run_get]
  dsimp only
  cases find [10, 10] c.response with
  | none => rfl
  | some i =>
    simp only [run_bind, run_get, run_modify]
    rw [← cgiLines]
    rcases fillHeaders (cgiLines c.response i) ∅ with ⟨_ | _, headers⟩ <;> rfl

/-- The headers of a document set its type, and its status if they name one. -/
theorem useCgiHeaders_of_findsStatus {headers : Headers} {contentType : Bytes} {code : ℕ}
    (htype : headers.lookup (bytes "CONTENT_TYPE") = some contentType)
    (hstatus : FindsStatus headers code) (hok : c.status = .ok)
    (hlast : ∀ value, headers.lookup (bytes "STATUS") = some value → value.getLast? ≠ some (ch ' ')) :
    ∃ text, useCgiHeaders headers c = .ok () { c with
        responseContentType := contentType, status := ⟨code⟩, customReasonPhrase := text } ∧
      (text ≠ [] ∨ code = 200 ∧ text = c.customReasonPhrase) := by
  unfold useCgiHeaders
  rw [htype]
  dsimp only
  rw [run_bind, run_modify]
  rcases hstatus with ⟨hnone, rfl⟩ | ⟨value, phrase, hvalue, hparse⟩
  · refine ⟨c.customReasonPhrase, ?_, .inr ⟨rfl, rfl⟩⟩
    rw [hnone]
    dsimp only
    rw [run_pure]
    exact congrArg _ (congrArg (fun status => ({ c with
      responseContentType := contentType, status := status } : Client)) hok)
  · refine ⟨phrase, ?_, .inl (parseCgiStatus_phrase hparse (hlast value hvalue)).2⟩
    rw [hvalue]
    dsimp only
    rw [hparse]
    rfl

/-- Headers that are not those of a document make it an error. -/
theorem useCgiHeaders_of_not {headers : Headers}
    (h : ¬ ((headers.lookup (bytes "CONTENT_TYPE")).isSome = true ∧ ∃ code, FindsStatus headers code)) :
    ∃ c', useCgiHeaders headers c = .ok () c' ∧ c'.status = .internalServerError := by
  unfold useCgiHeaders
  cases htype : headers.lookup (bytes "CONTENT_TYPE") with
  | none => exact ⟨_, rfl, rfl⟩
  | some contentType =>
    dsimp only
    rw [run_bind, run_modify]
    cases hstatus : headers.lookup (bytes "STATUS") with
    | none => exact absurd ⟨by rw [htype]; rfl, 200, .inl ⟨hstatus, rfl⟩⟩ h
    | some value =>
      dsimp only
      cases hparse : parseCgiStatus value with
      | none => exact ⟨_, rfl, rfl⟩
      | some p =>
        exact absurd ⟨by rw [htype]; rfl, p.1.code, .inr ⟨value, p.2, hstatus, hparse⟩⟩ h

/-- The values that `fillHeaders` stores do not end in a space. -/
theorem getLast?_fillHeaders {lines : List Bytes} : ∀ key value,
    (fillHeaders lines ∅).2.lookup key = some value → value.getLast? ≠ some (ch ' ') :=
  fillHeaders_values (fun _ _ _ => getLast?_trim _) fun key _ h =>
    nomatch (Finmap.lookup_empty (β := fun _ : Bytes => Bytes) key).symm.trans h

theorem extract_of_isDocument {code : ℕ} {body : Bytes} (hexit : c.cgiExitStatus = 0)
    (hok : c.status = .ok) (h : IsDocument c.response code body) :
    ∃ contentType text, extractCGIDocumentResponseHeaders c = .ok () { c with
        response := body, responseContentType := contentType, status := ⟨code⟩
        customReasonPhrase := text } ∧
      (text ≠ [] ∨ code = 200 ∧ text = c.customReasonPhrase) := by
  obtain ⟨i, hfind, rfl, haccepted, htype, hstatus⟩ := isDocument_iff.1 h
  obtain ⟨contentType, htype⟩ := Option.isSome_iff_exists.1 htype
  obtain ⟨text, huse, htext⟩ := useCgiHeaders_of_findsStatus
    (c := { c with response := c.response.drop (i + 2) }) htype hstatus hok
    fun value => getLast?_fillHeaders (bytes "STATUS") value
  refine ⟨contentType, text, ?_, htext⟩
  rw [extractCGIDocumentResponseHeaders_eq hexit, hfind]
  dsimp only
  rw [if_pos haccepted, huse]

theorem extract_of_not_isDocument (hexit : c.cgiExitStatus = 0)
    (h : ¬ ∃ code body, IsDocument c.response code body) :
    ∃ c', extractCGIDocumentResponseHeaders c = .ok () c' ∧ c'.status = .internalServerError := by
  rw [extractCGIDocumentResponseHeaders_eq hexit]
  cases hfind : find [10, 10] c.response with
  | none => exact ⟨_, rfl, rfl⟩
  | some i =>
    dsimp only
    by_cases haccepted : (fillHeaders (cgiLines c.response i) ∅).1 = true
    · rw [if_pos haccepted]
      refine useCgiHeaders_of_not ?_
      rintro ⟨htype, code, hstatus⟩
      exact h ⟨code, _, isDocument_iff.2 ⟨i, hfind, rfl, haccepted, htype, hstatus⟩⟩
    · rw [if_neg haccepted]
      exact ⟨_, rfl, rfl⟩

/-- A response with the header of a client, and the given body. -/
def Sends (c : Client) (body : Bytes) : Prop :=
  ∃ text, c.response = ({ c with response := body } : Client).withHead text

/-- The output of a CGI is delivered: a document with its status and its body, and an error for
anything else. -/
def Delivers (c : Client) : Prop :=
  ∃ c', Way.cgi.respond {} c = .ok () c' ∧
    (∀ code body, IsDocument c.response code body → c'.status = ⟨code⟩ ∧ c'.Sends body) ∧
    ((¬ ∃ code body, IsDocument c.response code body) →
      c'.status = .internalServerError ∧ ∃ body, c'.Sends body)

/-- A document has one status and one body. -/
theorem IsDocument.unique {output body body' : Bytes} {code code' : ℕ} (h : IsDocument output code body)
    (h' : IsDocument output code' body') : code = code' ∧ body = body' := by
  obtain ⟨i, hfind, rfl, haccepted, -, hstatus⟩ := isDocument_iff.1 h
  obtain ⟨j, hfind', rfl, -, -, hstatus'⟩ := isDocument_iff.1 h'
  obtain rfl := Option.some.inj (hfind.symm.trans hfind')
  refine ⟨?_, rfl⟩
  rcases hstatus with ⟨hnone, rfl⟩ | ⟨value, phrase, hvalue, hparse⟩
  · rcases hstatus' with ⟨-, rfl⟩ | ⟨value, phrase, hvalue, -⟩
    · rfl
    · cases hnone.symm.trans hvalue
  · rcases hstatus' with ⟨hnone, -⟩ | ⟨value', phrase', hvalue', hparse'⟩
    · cases hnone.symm.trans hvalue
    · obtain rfl := Option.some.inj (hvalue.symm.trans hvalue')
      cases hparse.symm.trans hparse'
      rfl

/-- **When every output of a CGI is delivered**: if it is not a document that names the status 302. -/
theorem delivers_iff (hexit : c.cgiExitStatus = 0) (hok : c.status = .ok) (hredirect : c.redirect = []) :
    Delivers c ↔ ¬ ∃ body, IsDocument c.response 302 body := by
  by_cases hdoc : ∃ code body, IsDocument c.response code body
  · obtain ⟨code, body, hdoc⟩ := hdoc
    obtain ⟨contentType, text, hextract, htext⟩ := extract_of_isDocument hexit hok hdoc
    generalize hc₁ : ({ c with
      response := body, responseContentType := contentType, status := ⟨code⟩
      customReasonPhrase := text } : Client) = c₁ at hextract
    have hrespond : Way.cgi.respond {} c = prependResponseHeader c₁ := bind_of_ok hextract
    have hstatus₁ : c₁.status = ⟨code⟩ := by rw [← hc₁]
    have hredirect₁ : c₁.redirect = [] := by rw [← hc₁, ← hredirect]
    have hresponse₁ : c₁.response = body := by rw [← hc₁]
    constructor
    · rintro ⟨c', hsend, -⟩ ⟨body', hdoc'⟩
      obtain ⟨rfl, -⟩ := hdoc.unique hdoc'
      exact (answerable_of_ok (hrespond.symm.trans hsend)).2 hstatus₁ hredirect₁
    · intro hnot
      have hphrase₁ : ∃ phrase, c₁.phrase = some phrase := by
        rw [← hc₁]
        unfold phrase
        split_ifs with hnil
        · rcases htext with hne | ⟨rfl, -⟩
          · exact absurd hnil hne
          · exact ⟨_, rfl⟩
        · exact ⟨_, rfl⟩
      obtain ⟨phrase, hphrase₁⟩ := hphrase₁
      have hsend := prependResponseHeader_eq hphrase₁ fun h302 => by
        rw [hstatus₁] at h302
        obtain rfl : code = 302 := congrArg Status.code h302
        exact absurd ⟨body, hdoc⟩ hnot
      refine ⟨_, hrespond.trans hsend, fun code' body' hdoc' => ?_, fun hno => ?_⟩
      · obtain ⟨rfl, rfl⟩ := hdoc.unique hdoc'
        refine ⟨hstatus₁, phrase, ?_⟩
        rw [← hresponse₁]
      · exact absurd ⟨code, body, hdoc⟩ hno
  · refine iff_of_true ?_ fun ⟨body, h⟩ => hdoc ⟨302, body, h⟩
    obtain ⟨c₁, hextract, hstatus₁⟩ := extract_of_not_isDocument hexit hdoc
    have hrespond : Way.cgi.respond {} c = prependResponseHeader c₁ := bind_of_ok hextract
    have hphrase₁ : ∃ phrase, c₁.phrase = some phrase := by
      unfold phrase
      rw [hstatus₁]
      split_ifs
      · exact ⟨_, rfl⟩
      · exact ⟨_, rfl⟩
    obtain ⟨phrase, hphrase₁⟩ := hphrase₁
    have hsend := prependResponseHeader_eq hphrase₁ fun h302 => by
      rw [hstatus₁] at h302
      exact absurd h302 (by decide)
    exact ⟨_, hrespond.trans hsend, fun code body h => absurd ⟨code, body, h⟩ hdoc,
      fun _ => ⟨hstatus₁, c₁.response, phrase, rfl⟩⟩

/-- A client whose CGI has exited, with what it has written. -/
def cgiClient (output : String) : Client :=
  { new 4 3 (bytes "80") 1000 with cgiExitStatus := 0, response := bytes output }

theorem delivers_page : Delivers (cgiClient "Content-Type: text/html\n\nhi") := by
  refine (delivers_iff rfl rfl rfl).2 ?_
  rintro ⟨body, hdoc⟩
  obtain ⟨i, hfind, -, -, -, hstatus⟩ := isDocument_iff.1 hdoc
  have hfind' : find [10, 10] (cgiClient "Content-Type: text/html\n\nhi").response = some 23 := by
    decide +kernel
  obtain rfl := Option.some.inj (hfind.symm.trans hfind')
  have hnone : (fillHeaders (cgiLines (cgiClient "Content-Type: text/html\n\nhi").response 23) ∅
      ).2.lookup (bytes "STATUS") = none := by
    decide +kernel
  rcases hstatus with ⟨-, h302⟩ | ⟨value, phrase, hvalue, -⟩
  · exact absurd h302 (by decide)
  · cases hnone.symm.trans hvalue

/-- A CGI that redirects by itself makes an assertion fail. -/
theorem not_delivers_redirect :
    ¬ Delivers (cgiClient "Content-Type: text/html\nStatus: 302 Found\n\n") := by
  rintro ⟨c', hsend, -⟩
  have hthrown : thrown (Way.cgi.respond {}
      (cgiClient "Content-Type: text/html\nStatus: 302 Found\n\n")) = some .assertion := by
    decide +kernel
  rw [hsend] at hthrown
  cases hthrown

end Webserv.Client
