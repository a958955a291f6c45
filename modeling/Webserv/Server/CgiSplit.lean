import Webserv.Server.Roots

/-!
# How a CGI path is split

The CGI branch of `_resolveToLocation` cuts the root and the target into the path of a script, a path
info and a query string. `splitCgi` is that branch up to the canonicalisation, statement by statement,
with every `at()`, `substr` and `back()` that may fail and with loops that may not end. It returns for
every target (`splitCgi_eq`), `resolveCgi` is what is then made of its result (`resolveCgi_eq`), and the
path it finds is the first component that is not a directory (`splits_path`).
-/

namespace Webserv.Server

open Search Exec LexicalPath

/-! ## The branch, statement by statement -/

/-- A run of the branch: `none` is thrown if a loop has not ended after the rounds it was given. -/
abbrev SplitM := Except (Option Fault)

/-- `unsplit_path.at(index)`. -/
def charAt (s : Bytes) (index : ℕ) : SplitM UInt8 :=
  match s[index]? with
  | some b => .ok b
  | none => .error (some .outOfRange)

/-- `npos`. -/
def npos : ℕ := sizeModulus - 1

/-- `s.substr(pos, count)`. -/
def substr (s : Bytes) (pos count : ℕ) : SplitM Bytes :=
  if s.length < pos then .error (some .outOfRange) else .ok ((s.drop pos).take count)

/-- `s.find("?", pos)`. -/
def findQuestionmark (s : Bytes) (pos : ℕ) : ℕ :=
  match find (bytes "?") (s.drop pos) with
  | some i => pos + i
  | none => npos

/-- `std::filesystem::is_directory`. -/
def askDirectory (fs : FileSystem) (path : Bytes) : SplitM Bool :=
  match fs.isDirectory path with
  | some answer => .ok answer
  | none => .error (some .filesystem)

/-- `s.back()`. -/
def lastChar (s : Bytes) : SplitM UInt8 :=
  match s.getLast? with
  | some b => .ok b
  | none => .error (some .undefinedBehaviour)

/-- The inner loop, which moves `path_end_index` to the end of a component. -/
def scanComponent (unsplitPath : Bytes) : ℕ → ℕ → SplitM ℕ
  | 0, _ => .error none
  | rounds + 1, pathEndIndex =>
    if pathEndIndex < unsplitPath.length then do
      if (← charAt unsplitPath pathEndIndex) = ch '/' then .ok pathEndIndex
      else if (← charAt unsplitPath pathEndIndex) = ch '?' then .ok pathEndIndex
      else scanComponent unsplitPath rounds (pathEndIndex + 1)
    else .ok pathEndIndex

/-- The outer loop, with `resolved.path` and `target_is_directory`. -/
def scanPath (fs : FileSystem) (unsplitPath : Bytes) (inner : ℕ) :
    ℕ → ℕ → Bytes × Bool → SplitM (Bytes × Bool)
  | 0, _, _ => .error none
  | rounds + 1, pathEndIndex, found =>
    if pathEndIndex < unsplitPath.length then do
      let pathEndIndex ← scanComponent unsplitPath inner pathEndIndex
      let path ← substr unsplitPath 0 pathEndIndex
      let targetIsDirectory ← askDirectory fs path
      if targetIsDirectory = false then .ok (path, targetIsDirectory)
      else if unsplitPath.length ≤ pathEndIndex then .ok (path, targetIsDirectory)
      else if (← charAt unsplitPath pathEndIndex) = ch '?' then .ok (path, targetIsDirectory)
      else scanPath fs unsplitPath inner rounds (pathEndIndex + 1) (path, targetIsDirectory)
    else .ok found

/-- What the branch has found before it makes the paths canonical. -/
structure CgiSplit where
  path : Bytes
  pathInfo : Bytes
  queryString : Bytes
  targetIsDirectory : Bool
  deriving DecidableEq

/-- The branch up to the canonicalisation; no loop goes on for more than the given rounds. -/
def splitCgi (fs : FileSystem) (root requestTarget : Bytes) (rounds : ℕ) : SplitM CgiSplit := do
  let unsplitPath := root ++ requestTarget
  let (path, targetIsDirectory) ← scanPath fs unsplitPath rounds rounds 0 ([], true)
  if targetIsDirectory then
    if (← lastChar path) ≠ ch '/' then
      if (← lastChar unsplitPath) = ch '/' then .ok ⟨path ++ [ch '/'], [], [], targetIsDirectory⟩
      else .ok ⟨path, [], [], targetIsDirectory⟩
    else .ok ⟨path, [], [], targetIsDirectory⟩
  else
    let pathLen := path.length
    let questionmarkIndex := findQuestionmark unsplitPath pathLen
    -- The difference of two `size_t`, also if there is no question mark
    let pathInfo ← substr unsplitPath pathLen
      ((questionmarkIndex + sizeModulus - pathLen) % sizeModulus)
    let queryString ← substr unsplitPath (path.length + pathInfo.length) npos
    .ok ⟨path, pathInfo, queryString, targetIsDirectory⟩

/-! ## It returns -/

variable {fs : FileSystem} {unsplitPath root requestTarget : Bytes}

theorem nextSeparator_of_sep {k : ℕ} {b : UInt8} (hb : unsplitPath[k]? = some b)
    (hsep : b = ch '/' ∨ b = ch '?') : nextSeparator unsplitPath k = k := by
  obtain ⟨hk, hb⟩ := List.getElem?_eq_some_iff.1 hb
  have hstop : ¬ (b ≠ ch '/' ∧ b ≠ ch '?') := fun h => hsep.elim h.1 h.2
  rw [nextSeparator, List.drop_eq_getElem_cons hk, hb, List.takeWhile_cons_of_neg (by simpa using hstop)]
  rfl

theorem nextSeparator_of_not_sep {k : ℕ} {b : UInt8} (hb : unsplitPath[k]? = some b)
    (hslash : b ≠ ch '/') (hquestion : b ≠ ch '?') :
    nextSeparator unsplitPath k = nextSeparator unsplitPath (k + 1) := by
  obtain ⟨hk, hb⟩ := List.getElem?_eq_some_iff.1 hb
  rw [nextSeparator, List.drop_eq_getElem_cons hk, hb,
    List.takeWhile_cons_of_pos (by simpa using ⟨hslash, hquestion⟩), List.length_cons, nextSeparator]
  omega

/-- The inner loop ends at the next separator. -/
theorem scanComponent_eq {rounds k : ℕ} (hrounds : unsplitPath.length < rounds + k)
    (hk : k ≤ unsplitPath.length) :
    scanComponent unsplitPath rounds k = .ok (nextSeparator unsplitPath k) := by
  induction rounds generalizing k with
  | zero => omega
  | succ rounds ih =>
    rw [scanComponent]
    split_ifs with hlt
    · have hb := List.getElem?_eq_getElem hlt
      have hchar : charAt unsplitPath k = .ok unsplitPath[k] := by rw [charAt, hb]
      simp only [hchar, except_ok_bind]
      split_ifs with hslash hquestion
      · rw [nextSeparator_of_sep hb (.inl hslash)]
      · rw [nextSeparator_of_sep hb (.inr hquestion)]
      · rw [nextSeparator_of_not_sep hb hslash hquestion]
        exact ih (by omega) hlt
    · rw [nextSeparator, List.drop_eq_nil_of_le (not_lt.1 hlt)]
      rfl

theorem askDirectory_eq (path : Bytes) :
    askDirectory fs path = (orFilesystemError (fs.isDirectory path)).mapError some := by
  rw [askDirectory]
  cases fs.isDirectory path <;> rfl

theorem substr_zero (s : Bytes) (count : ℕ) : substr s 0 count = .ok (s.take count) :=
  if_neg (Nat.not_lt_zero _)

/-- **The outer loop is the walk along the components**, if it is given a round for every byte. -/
theorem scanPath_eq {inner rounds k : ℕ} {found : Bytes × Bool} (hinner : unsplitPath.length < inner)
    (hrounds : unsplitPath.length < rounds + k) (hk : k ≤ unsplitPath.length) :
    scanPath fs unsplitPath inner rounds k found =
      (walkCgiPath fs unsplitPath rounds k found).mapError some := by
  induction rounds generalizing k found with
  | zero => omega
  | succ rounds ih =>
    rw [scanPath, walkCgiPath]
    by_cases hlt : k < unsplitPath.length
    · obtain ⟨hle, hle', -, hsep⟩ := nextSeparator_spec hk
      rw [if_pos hlt, if_pos hlt, scanComponent_eq (by omega) hk, except_ok_bind]
      generalize nextSeparator unsplitPath k = j at hle hle' hsep
      dsimp only
      rw [substr_zero, except_ok_bind, askDirectory_eq]
      cases fs.isDirectory (unsplitPath.take j) with
      | none => rfl
      | some targetIsDirectory =>
        simp only [orFilesystemError, Except.mapError, except_ok_bind]
        cases targetIsDirectory with
        | false => simp
        | true =>
          by_cases hend : unsplitPath.length ≤ j
          · simp [hend]
          · have hb := List.getElem?_eq_getElem (not_le.1 hend)
            have hchar : charAt unsplitPath j = .ok unsplitPath[j] := by rw [charAt, hb]
            simp only [hchar, except_ok_bind, hb, hend, Option.some.injEq, Bool.true_eq_false, false_or,
              if_false]
            by_cases hquestion : unsplitPath[j] = ch '?'
            · simp [hquestion]
            · simp only [hquestion, if_false]
              exact ih (by omega) (by omega)
    · rw [if_neg hlt, if_neg hlt]
      rfl

/-- The walk returns if every query does. -/
theorem exists_walkCgiPath {isDirectory : Bytes → Bool}
    (hfs : ∀ path, fs.isDirectory path = some (isDirectory path)) (rounds k : ℕ) (found : Bytes × Bool) :
    ∃ result, walkCgiPath fs unsplitPath rounds k found = .ok result := by
  induction rounds generalizing k found with
  | zero => exact ⟨found, rfl⟩
  | succ rounds ih =>
    rw [walkCgiPath]
    split_ifs
    · simp only [hfs, orFilesystemError, except_ok_bind]
      split_ifs
      · exact ⟨_, rfl⟩
      · exact ih _ _
    · exact ⟨found, rfl⟩

/-- The path info: what is left up to the first question mark. -/
def infoOf (rest : Bytes) : Bytes :=
  match find (bytes "?") rest with
  | some i => rest.take i
  | none => rest

/-- What is left is the path info and what starts with a question mark. -/
theorem infoOf_spec (rest : Bytes) : ch '?' ∉ infoOf rest ∧ ∃ query, rest = infoOf rest ++ query ∧
    (query = [] ∨ query.head? = some (ch '?')) := by
  have hmark : bytes "?" = [ch '?'] := by decide
  unfold infoOf
  rw [hmark]
  cases hfind : find [ch '?'] rest with
  | none => exact ⟨notMem_of_find_eq_none hfind, [], (List.append_nil rest).symm, .inl rfl⟩
  | some i =>
    obtain ⟨before, after, rfl, hnotMem, rfl⟩ := find_singleton_eq_some hfind
    dsimp only
    rw [List.take_left]
    exact ⟨hnotMem, ch '?' :: after, rfl, .inr rfl⟩

/-- What the branch finds, once it knows where the walk stops. -/
def splitAt (unsplitPath : Bytes) : Bytes × Bool → CgiSplit
  | (path, true) =>
    if path.getLast? ≠ some (ch '/') ∧ unsplitPath.getLast? = some (ch '/') then
      ⟨path ++ [ch '/'], [], [], true⟩
    else ⟨path, [], [], true⟩
  | (path, false) =>
    ⟨path, infoOf (unsplitPath.drop path.length),
      unsplitPath.drop (path.length + (infoOf (unsplitPath.drop path.length)).length), false⟩

/-- The first call of `substr` gives the path info, whether there is a question mark or not. -/
theorem substr_info {pathLen : ℕ} (hle : pathLen ≤ unsplitPath.length)
    (hsize : unsplitPath.length < sizeModulus) :
    substr unsplitPath pathLen
      ((findQuestionmark unsplitPath pathLen + sizeModulus - pathLen) % sizeModulus) =
      .ok (infoOf (unsplitPath.drop pathLen)) := by
  rw [substr, if_neg (not_lt.2 hle), infoOf, findQuestionmark]
  cases hfind : find (bytes "?") (unsplitPath.drop pathLen) with
  | none =>
    dsimp only
    have hcount : (npos + sizeModulus - pathLen) % sizeModulus = npos - pathLen := by
      rw [show npos + sizeModulus - pathLen = npos - pathLen + sizeModulus by
        unfold npos
        omega, Nat.add_mod_right, Nat.mod_eq_of_lt]
      unfold npos
      omega
    rw [hcount, List.take_of_length_le]
    rw [List.length_drop]
    unfold npos
    omega
  | some i =>
    dsimp only
    have hi := length_le_of_find hfind
    rw [List.length_drop] at hi
    have hcount : (pathLen + i + sizeModulus - pathLen) % sizeModulus = i := by
      rw [show pathLen + i + sizeModulus - pathLen = i + sizeModulus by omega, Nat.add_mod_right,
        Nat.mod_eq_of_lt (by omega)]
    rw [hcount]

theorem length_infoOf_le (rest : Bytes) : (infoOf rest).length ≤ rest.length := by
  obtain ⟨-, query, hrest, -⟩ := infoOf_spec rest
  have hlength := congrArg List.length hrest
  rw [List.length_append] at hlength
  omega

/-- The second call of `substr` gives the rest. -/
theorem substr_query {pos : ℕ} (hle : pos ≤ unsplitPath.length)
    (hsize : unsplitPath.length < sizeModulus) :
    substr unsplitPath pos npos = .ok (unsplitPath.drop pos) := by
  rw [substr, if_neg (not_lt.2 hle), List.take_of_length_le]
  rw [List.length_drop]
  unfold npos
  omega

/-- **The branch returns**: no loop goes on for more rounds than there are bytes, no index is past the
end, and there is a last byte wherever one is asked for. -/
theorem splitCgi_eq {rounds : ℕ} {found : Bytes × Bool}
    (hrounds : (root ++ requestTarget).length < rounds)
    (hsize : (root ++ requestTarget).length < sizeModulus)
    (hwalk : walkCgiPath fs (root ++ requestTarget) rounds 0 ([], true) = .ok found)
    (hle : found.1.length ≤ (root ++ requestTarget).length)
    (hne : found.2 = true → found.1 ≠ [] ∧ root ++ requestTarget ≠ []) :
    splitCgi fs root requestTarget rounds = .ok (splitAt (root ++ requestTarget) found) := by
  obtain ⟨path, targetIsDirectory⟩ := found
  rw [splitCgi]
  dsimp only
  rw [scanPath_eq hrounds (by omega) (Nat.zero_le _), hwalk, Except.mapError, except_ok_bind]
  dsimp only
  have hlast : ∀ {s : Bytes}, s ≠ [] → ∃ b, s.getLast? = some b ∧ lastChar s = .ok b := by
    intro s hs
    refine ⟨s.getLast hs, List.getLast?_eq_some_getLast hs, ?_⟩
    rw [lastChar, List.getLast?_eq_some_getLast hs]
  cases targetIsDirectory with
  | true =>
    obtain ⟨b, hb, hback⟩ := hlast (hne rfl).1
    obtain ⟨b', hb', hback'⟩ := hlast (hne rfl).2
    simp only [splitAt, hback, hback', hb, hb', except_ok_bind, if_true, Option.some.injEq, ne_eq]
    by_cases hslash : b = ch '/'
    · simp [hslash]
    · by_cases hslash' : b' = ch '/'
      · simp [hslash, hslash']
      · simp [hslash, hslash']
  | false =>
    have hinfo := length_infoOf_le ((root ++ requestTarget).drop path.length)
    rw [List.length_drop] at hinfo
    dsimp only at hle
    rw [if_neg Bool.false_ne_true, substr_info hle hsize, except_ok_bind,
      substr_query (by omega) hsize, except_ok_bind]
    rfl

/-! ## What it finds -/

/-- A part of a path that ends before a slash, before the first question mark, or at the end. -/
def IsCandidate (unsplitPath path : Bytes) : Prop :=
  path <+: unsplitPath ∧ (unsplitPath[path.length]? = some (ch '/') ∨
    find (bytes "?") unsplitPath = some path.length ∨ path = unsplitPath)

/-- The split of a path whose script is not a directory. -/
structure SplitsFile (isDirectory : Bytes → Bool) (unsplitPath : Bytes) (split : CgiSplit) : Prop where
  lossless : split.path ++ split.pathInfo ++ split.queryString = unsplitPath
  candidate : IsCandidate unsplitPath split.path
  notDirectory : isDirectory split.path = false
  shortest : ∀ path, IsCandidate unsplitPath path → isDirectory path = false →
    split.path.length ≤ path.length
  path_free : ch '?' ∉ split.path
  pathInfo_free : ch '?' ∉ split.pathInfo
  pathInfo_head : split.pathInfo = [] ∨ split.pathInfo.head? = some (ch '/')
  queryString_head : split.queryString = [] ∨ split.queryString.head? = some (ch '?')

/-- The split of a path that leads to a directory: all its parts up to the first question mark are
directories, and the longest one is taken, with or without a slash at its end. -/
structure SplitsDirectory (isDirectory : Bytes → Bool) (unsplitPath : Bytes) (split : CgiSplit) :
    Prop where
  directories : ∀ path, IsCandidate unsplitPath path → ch '?' ∉ path → isDirectory path = true
  longest : ∃ path, IsCandidate unsplitPath path ∧ ch '?' ∉ path ∧
    (∀ path', IsCandidate unsplitPath path' → ch '?' ∉ path' → path'.length ≤ path.length) ∧
    (split.path = path ∨ split.path = path ++ [ch '/'] ∨ split.path ++ [ch '/'] = path)

section Stop

variable {isDirectory : Bytes → Bool} {path : Bytes} {targetIsDirectory : Bool}

/-- No question mark stands before the place where the walk stops. -/
theorem IsStop.question_notMem (h : IsStop fs unsplitPath path targetIsDirectory) : ch '?' ∉ path := by
  intro hmem
  obtain ⟨k, hk, hget⟩ := List.getElem_of_mem hmem
  have hquestion : unsplitPath[k]? = some (ch '?') := by
    obtain ⟨rest, rfl⟩ := h.isPrefix
    rw [List.getElem?_append_left hk, List.getElem?_eq_getElem hk, hget]
  have hslash := (h.before k hk (.inr (.inl hquestion))).2
  rw [hquestion] at hslash
  exact absurd hslash (by decide)

/-- The first question mark. -/
theorem find_question {rest : Bytes} (hpath : ch '?' ∉ path) :
    find (bytes "?") (path ++ ch '?' :: rest) = some path.length :=
  find_singleton_append hpath rest

/-- A part of a list, and the byte after it. -/
theorem eq_append_of_getElem? {b : UInt8} (hpath : path <+: unsplitPath)
    (hb : unsplitPath[path.length]? = some b) : ∃ rest, unsplitPath = path ++ b :: rest := by
  obtain ⟨rest, rfl⟩ := hpath
  rw [List.getElem?_append_right le_rfl, Nat.sub_self] at hb
  cases rest with
  | nil => cases hb
  | cons b' rest =>
    obtain rfl : b' = b := by simpa using hb
    exact ⟨rest, rfl⟩

/-- Where the walk stops is a candidate. -/
theorem IsStop.isCandidate (h : IsStop fs unsplitPath path targetIsDirectory) :
    IsCandidate unsplitPath path := by
  refine ⟨h.isPrefix, ?_⟩
  rcases h.ends with hslash | hquestion | ⟨hend, -⟩
  · exact .inl hslash
  · obtain ⟨rest, rfl⟩ := eq_append_of_getElem? h.isPrefix hquestion
    exact .inr (.inl (find_question h.question_notMem))
  · exact .inr (.inr (h.isPrefix.eq_of_length hend))

/-- Every shorter candidate is a directory, and is followed by a slash. -/
theorem IsStop.candidate_before (h : IsStop fs unsplitPath path targetIsDirectory) {path' : Bytes}
    (hcandidate : IsCandidate unsplitPath path') (hlt : path'.length < path.length) :
    fs.isDirectory path' = some true := by
  have hends : EndsComponent unsplitPath path'.length := by
    rcases hcandidate.2 with hslash | hquestion | rfl
    · exact .inl hslash
    · obtain ⟨-, ⟨rest, hrest⟩, -⟩ := find_eq_some hquestion
      refine .inr (.inl ?_)
      rw [← Nat.add_zero path'.length, ← List.getElem?_drop, ← hrest]
      rfl
    · have hle := h.isPrefix.length_le
      omega
  have hdirectory := (h.before path'.length hlt hends).1
  rwa [← List.prefix_iff_eq_take.1 hcandidate.1] at hdirectory

/-- A script that is not a directory. -/
theorem IsStop.splitsFile (hfs : ∀ path, fs.isDirectory path = some (isDirectory path))
    (h : IsStop fs unsplitPath path false) :
    SplitsFile isDirectory unsplitPath (splitAt unsplitPath (path, false)) := by
  have hends := h.ends
  have hpath := h.question_notMem
  have hcandidate := h.isCandidate
  have hshort : ∀ path', IsCandidate unsplitPath path' → isDirectory path' = false →
      path.length ≤ path'.length := by
    intro path' hcandidate' hfalse
    by_contra hlt
    have htrue := h.candidate_before hcandidate' (not_le.1 hlt)
    rw [hfs, hfalse] at htrue
    cases htrue
  obtain ⟨rest, rfl⟩ := h.isPrefix
  obtain ⟨hinfo, query, hrest, hquery⟩ := infoOf_spec rest
  have hdrop : (path ++ rest).drop (path.length + (infoOf rest).length) = query := by
    rw [← List.drop_drop, List.drop_left]
    calc rest.drop (infoOf rest).length = (infoOf rest ++ query).drop (infoOf rest).length := by
          rw [← hrest]
      _ = query := List.drop_left
  have hhead : infoOf rest = [] ∨ (infoOf rest).head? = some (ch '/') := by
    cases hcases : infoOf rest with
    | nil => exact .inl rfl
    | cons b info =>
      -- the path info starts with the byte that has ended the component
      rw [hcases] at hrest hinfo
      refine .inr ?_
      rw [hrest] at hends
      rcases hends with hslash | hquestion | ⟨hend, -⟩
      · simpa using hslash
      · obtain rfl : b = ch '?' := by simpa using hquestion
        exact absurd List.mem_cons_self hinfo
      · simp at hend
  have hsplit : splitAt (path ++ rest) (path, false) = ⟨path, infoOf rest, query, false⟩ := by
    rw [splitAt, List.drop_left, hdrop]
  rw [hsplit]
  refine ⟨?_, hcandidate, ?_, hshort, hpath, hinfo, hhead, hquery⟩
  · rw [List.append_assoc, ← hrest]
  · exact Option.some.inj ((hfs path).symm.trans h.isDirectory)

/-- A directory. -/
theorem IsStop.splitsDirectory (hfs : ∀ path, fs.isDirectory path = some (isDirectory path))
    (hslashes : ∀ path, path ≠ [] → isDirectory (path ++ [ch '/']) = isDirectory path)
    (hne : path ≠ []) (h : IsStop fs unsplitPath path true) :
    SplitsDirectory isDirectory unsplitPath (splitAt unsplitPath (path, true)) := by
  have hdirectory : isDirectory path = true := Option.some.inj ((hfs path).symm.trans h.isDirectory)
  have hbefore : ∀ path', IsCandidate unsplitPath path' → path'.length < path.length →
      isDirectory path' = true := by
    intro path' hcandidate hlt
    exact Option.some.inj ((hfs path').symm.trans (h.candidate_before hcandidate hlt))
  have hsame : ∀ path', path' <+: unsplitPath → path'.length = path.length → path' = path :=
    fun path' hpath' hlength =>
      (List.prefix_of_prefix_length_le hpath' h.isPrefix hlength.le).eq_of_length hlength
  -- the longest candidate is the path, or the path with the slash that ends it
  have hlongest : ∀ longest, IsCandidate unsplitPath longest → ch '?' ∉ longest →
      isDirectory longest = true → path.length ≤ longest.length →
      (∀ path', IsCandidate unsplitPath path' → ch '?' ∉ path' → path.length < path'.length →
        path' = longest) →
      (splitAt unsplitPath (path, true)).path = longest ∨
        (splitAt unsplitPath (path, true)).path = longest ++ [ch '/'] ∨
        (splitAt unsplitPath (path, true)).path ++ [ch '/'] = longest →
      SplitsDirectory isDirectory unsplitPath (splitAt unsplitPath (path, true)) := by
    intro longest hcandidate hquestion hlongest hle hall hpath
    refine ⟨fun path' hcandidate' hquestion' => ?_, longest, hcandidate, hquestion, ?_, hpath⟩
    · rcases lt_trichotomy path'.length path.length with hlt | heq | hlt
      · exact hbefore path' hcandidate' hlt
      · rw [hsame path' hcandidate'.1 heq]
        exact hdirectory
      · rw [hall path' hcandidate' hquestion' hlt]
        exact hlongest
    · intro path' hcandidate' hquestion'
      by_cases hlt : path.length < path'.length
      · rw [hall path' hcandidate' hquestion' hlt]
      · omega
  have hpath : (splitAt unsplitPath (path, true)).path = path ∨
      (splitAt unsplitPath (path, true)).path = path ++ [ch '/'] ∧
        path.getLast? ≠ some (ch '/') ∧ unsplitPath.getLast? = some (ch '/') := by
    rw [splitAt]
    split_ifs with hslash
    · exact .inr ⟨rfl, hslash⟩
    · exact .inl rfl
  rcases h.ends with hslash | hquestion | ⟨hend, -⟩
  · obtain ⟨rest, hrest⟩ := eq_append_of_getElem? h.isPrefix hslash
    have hshort : unsplitPath.length ≤ path.length + 1 := by
      refine (h.stops rfl).resolve_left fun hquestion => ?_
      rw [hslash] at hquestion
      exact absurd hquestion (by decide)
    have hnil : rest = [] := by
      rw [hrest, List.length_append, List.length_cons] at hshort
      exact List.length_eq_zero_iff.1 (by omega)
    rw [hnil] at hrest
    have hquestion : ch '?' ∉ unsplitPath := by
      rw [hrest, List.mem_append, List.mem_singleton, not_or]
      exact ⟨h.question_notMem, by decide⟩
    refine hlongest unsplitPath ⟨List.prefix_rfl, .inr (.inr rfl)⟩ hquestion ?_
      h.isPrefix.length_le ?_ ?_
    · rw [hrest, hslashes path hne, hdirectory]
    · intro path' hcandidate' _ hlt
      exact hcandidate'.1.eq_of_length (le_antisymm hcandidate'.1.length_le (by omega))
    · rcases hpath with hpath | ⟨hpath, -⟩
      · exact .inr (.inr (by rw [hpath, hrest]))
      · exact .inl (by rw [hpath, hrest])
  · refine hlongest path h.isCandidate h.question_notMem hdirectory le_rfl ?_
      (hpath.imp_right fun hslash => .inl hslash.1)
    intro path' hcandidate' hquestion' hlt
    obtain ⟨rest, hrest⟩ := hcandidate'.1
    rw [← hrest, List.getElem?_append_left hlt] at hquestion
    exact absurd (List.mem_of_getElem? hquestion) hquestion'
  · refine hlongest path h.isCandidate h.question_notMem hdirectory le_rfl ?_
      (hpath.imp_right fun hslash => .inl hslash.1)
    intro path' hcandidate' _ hlt
    have hle := hcandidate'.1.length_le
    omega

end Stop

/-- What is made of a split: the path of a script and its path info are made canonical. -/
def canonicalise (fs : FileSystem) (split : CgiSplit) (resolved : ResolvedLocation) :
    Except Fault ResolvedLocation :=
  if split.targetIsDirectory then .ok { resolved with path := split.path }
  else do
    let canonicalPath ← orFilesystemError (fs.weaklyCanonical split.path)
    let canonicalPathInfo ← orFilesystemError (fs.weaklyCanonical split.pathInfo)
    .ok { resolved with
      path := canonicalPath, pathInfo := canonicalPathInfo, queryString := split.queryString }

/-- **`resolveCgi` is the branch**: the split, made canonical. -/
theorem resolveCgi_eq {found : Bytes × Bool} {resolved : ResolvedLocation}
    (hwalk : walkCgiPath fs (root ++ requestTarget) ((root ++ requestTarget).length + 1) 0 ([], true) =
      .ok found)
    (hne : found.2 = true → found.1 ≠ [] ∧ root ++ requestTarget ≠ []) :
    resolveCgi fs root requestTarget resolved =
      canonicalise fs (splitAt (root ++ requestTarget) found) resolved := by
  obtain ⟨path, targetIsDirectory⟩ := found
  have hback : ∀ {s : Bytes}, s ≠ [] → ∃ b, s.getLast? = some b ∧ back s = .ok b := by
    intro s hs
    refine ⟨s.getLast hs, List.getLast?_eq_some_getLast hs, ?_⟩
    rw [back, List.getLast?_eq_some_getLast hs]
  rw [resolveCgi]
  dsimp only
  rw [hwalk, except_ok_bind]
  cases targetIsDirectory with
  | true =>
    obtain ⟨b, hb, hback₁⟩ := hback (hne rfl).1
    obtain ⟨b', hb', hback₂⟩ := hback (hne rfl).2
    simp only [splitAt, hback₁, hback₂, hb, hb', except_ok_bind, if_true, Option.some.injEq, ne_eq]
    split_ifs
    · rfl
    · rfl
  | false => rfl

/-- **How the path of a CGI is split.** For every root and target, and every file system whose answers
do not depend on slashes at the end of a path, the branch returns if its loops may go on for as many
rounds as there are bytes. A script that is not a directory is the first one, and nothing is lost; for
a directory all that leads to it are directories. -/
theorem splits_path {isDirectory : Bytes → Bool}
    (hfs : ∀ path, fs.isDirectory path = some (isDirectory path)) (hnil : isDirectory [] = false)
    (hslashes : ∀ path, path ≠ [] → isDirectory (path ++ [ch '/']) = isDirectory path)
    (htarget : requestTarget.head? = some (ch '/'))
    (hsize : (root ++ requestTarget).length < sizeModulus) :
    ∃ split, (∀ rounds, (root ++ requestTarget).length < rounds →
        splitCgi fs root requestTarget rounds = .ok split) ∧
      (∀ resolved, resolveCgi fs root requestTarget resolved = canonicalise fs split resolved) ∧
      (split.targetIsDirectory = false → SplitsFile isDirectory (root ++ requestTarget) split) ∧
      (split.targetIsDirectory = true → SplitsDirectory isDirectory (root ++ requestTarget) split) := by
  have hne : root ++ requestTarget ≠ [] := by
    intro h
    rw [(List.append_eq_nil_iff.1 h).2] at htarget
    cases htarget
  have hstop : ∀ rounds, (root ++ requestTarget).length < rounds → ∃ path targetIsDirectory,
      walkCgiPath fs (root ++ requestTarget) rounds 0 ([], true) = .ok (path, targetIsDirectory) ∧
        IsStop fs (root ++ requestTarget) path targetIsDirectory := by
    intro rounds hrounds
    obtain ⟨⟨path, targetIsDirectory⟩, hwalk⟩ :=
      @exists_walkCgiPath fs (root ++ requestTarget) isDirectory hfs rounds 0 ([], true)
    exact ⟨path, targetIsDirectory, hwalk, walkCgiPath_stop (by omega) ⟨Nat.zero_le _, by simp⟩
      (.inl (List.length_pos_iff.2 hne)) hwalk⟩
  obtain ⟨path, targetIsDirectory, hwalk, hpath⟩ := hstop _ (Nat.lt_succ_self _)
  have hpath_ne : targetIsDirectory = true → path ≠ [] ∧ root ++ requestTarget ≠ [] := by
    rintro rfl
    refine ⟨?_, hne⟩
    rintro rfl
    have htrue := hpath.isDirectory
    rw [hfs, hnil] at htrue
    cases htrue
  refine ⟨splitAt (root ++ requestTarget) (path, targetIsDirectory), fun rounds hrounds => ?_,
    fun resolved => resolveCgi_eq hwalk hpath_ne, ?_, ?_⟩
  · -- the walk stops at the same place, however many rounds it is given
    obtain ⟨path', targetIsDirectory', hwalk', hpath'⟩ := hstop rounds hrounds
    obtain rfl := hpath'.unique hpath
    obtain rfl := Option.some.inj (hpath'.isDirectory.symm.trans hpath.isDirectory)
    exact splitCgi_eq hrounds hsize hwalk' hpath.isPrefix.length_le hpath_ne
  · cases targetIsDirectory with
    | false => exact fun _ => hpath.splitsFile hfs
    | true =>
      rw [splitAt]
      split_ifs <;> exact nofun
  · cases targetIsDirectory with
    | false => exact nofun
    | true => exact fun _ => hpath.splitsDirectory hfs hslashes (hpath_ne rfl).1

/-- The directories of the tree. -/
def isSrvDirectory (path : Bytes) : Bool := (srvFiles.isDirectory path).getD false

theorem splits_path_script :
    splitCgi srvFiles (bytes "cgi") (bytes "/a/b?c") 20 = .ok ⟨bytes "cgi/a", bytes "/b", bytes "?c", false⟩ ∧
      SplitsFile isSrvDirectory (bytes "cgi/a/b?c") ⟨bytes "cgi/a", bytes "/b", bytes "?c", false⟩ := by
  have hslashes : ∀ path, path ≠ [] → isSrvDirectory (path ++ [ch '/']) = isSrvDirectory path := by
    intro path hpath
    have hdenotes : denotes posix srv (path ++ [ch '/']) = denotes posix srv path :=
      denotes_append_sep hpath
    simp [isSrvDirectory, srvFiles, hdenotes, hpath]
  obtain ⟨split, hsplit, -, hfile, -⟩ := @splits_path srvFiles (bytes "cgi") (bytes "/a/b?c")
    isSrvDirectory (fun _ => rfl) rfl hslashes rfl (by decide)
  have hrun : splitCgi srvFiles (bytes "cgi") (bytes "/a/b?c") 20 =
      .ok ⟨bytes "cgi/a", bytes "/b", bytes "?c", false⟩ := by
    decide +kernel
  obtain rfl := Except.ok.inj (hrun.symm.trans (hsplit 20 (by decide)))
  exact ⟨hrun, hfile rfl⟩

end Webserv.Server
