import Webserv.Config.JsonCorrect

/-!
# Where values are found in a file

No value is the beginning of another one (`Shape.eq_of_starts`), since inside a value there is an open
bracket.

`_parseArray` and `_parseObject` read values by two switches, and only that of `_parseObject` has the
cases of booleans. A value is found in the same place whichever reads it. So a value is accepted as the
only element of an array exactly if it is accepted in its place, unless it is a boolean
(`sameInArray_iff`).

The constructor of `JSON` does not look at what follows the root. It reads the whole file exactly if
the brackets of the file balance at its last token only (`readWhole_iff`).
-/

namespace Webserv

/-! ## Brackets -/

/-- How many brackets a token opens. -/
def Token.weight : Token → ℤ
  | arrayOpen | objectOpen => 1
  | arrayClose | objectClose => -1
  | _ => 0

/-- How many brackets are open after some tokens. -/
def height (tokens : List Token) : ℤ := (tokens.map Token.weight).sum

variable {tokens tokens' : List Token}

theorem height_cons (token : Token) (tokens : List Token) :
    height (token :: tokens) = token.weight + height tokens := by
  simp [height]

theorem height_append (tokens tokens' : List Token) :
    height (tokens ++ tokens') = height tokens + height tokens' := by
  simp [height]

/-- Every bracket that is closed was opened before. -/
structure Balanced (tokens : List Token) : Prop where
  height_eq : height tokens = 0
  height_take : ∀ k, 0 ≤ height (tokens.take k)

namespace Balanced

theorem append (h : Balanced tokens) (h' : Balanced tokens') : Balanced (tokens ++ tokens') where
  height_eq := by rw [height_append, h.height_eq, h'.height_eq, add_zero]
  height_take k := by
    rw [List.take_append, height_append]
    exact add_nonneg (h.height_take k) (h'.height_take _)

theorem single {token : Token} (h : token.weight = 0) : Balanced [token] where
  height_eq := by simp [height, h]
  height_take k := by cases k <;> simp [height, h]

theorem cons {token : Token} (h : token.weight = 0) (h' : Balanced tokens) :
    Balanced (token :: tokens) :=
  (single h).append h'

/-- Between its brackets an array or an object never closes more than it has opened. -/
theorem height_inside (h : Balanced tokens) {opening closing : Token} (hopen : opening.weight = 1)
    {k : ℕ} (hpos : 0 < k) (hk : k < (opening :: tokens ++ [closing]).length) :
    0 < height ((opening :: tokens ++ [closing]).take k) := by
  obtain ⟨j, rfl⟩ := Nat.exists_eq_succ_of_ne_zero (Nat.pos_iff_ne_zero.1 hpos)
  have hj : j ≤ tokens.length := by
    rw [List.length_append, List.length_cons, List.length_singleton] at hk
    omega
  rw [List.cons_append, List.take_succ_cons, height_cons, List.take_append_of_le_length hj, hopen]
  have := h.height_take j
  omega

theorem bracketed (h : Balanced tokens) {opening closing : Token} (hopen : opening.weight = 1)
    (hclose : closing.weight = -1) : Balanced (opening :: tokens ++ [closing]) := by
  have heq : height (opening :: tokens ++ [closing]) = 0 := by
    rw [height_append, height_cons, h.height_eq, hopen]
    simp [height, hclose]
  refine ⟨heq, fun k => ?_⟩
  by_cases hk : k < (opening :: tokens ++ [closing]).length
  · cases k with
    | zero => exact le_rfl
    | succ k => exact (h.height_inside hopen (Nat.succ_pos k) hk).le
  · rw [List.take_of_length_le (not_lt.1 hk), heq]

theorem nil : Balanced [] := ⟨rfl, fun k => by simp [height]⟩

end Balanced

namespace Shape

theorem balanced {part : Part} (h : Shape part tokens) : Balanced tokens := by
  induction h with
  | booleanTrue | booleanFalse | integer | string => exact .single rfl
  | emptyArray | emptyObject => exact Balanced.nil.bracketed rfl rfl
  | array _ ih | object _ ih => exact ih.bracketed rfl rfl
  | lastElement _ ih => exact ih
  | moreElements _ _ ih ih' => exact ih.append (.cons rfl ih')
  | lastMember _ ih => exact .cons rfl (.cons rfl ih)
  | moreMembers _ _ ih ih' => exact (Balanced.cons rfl (.cons rfl ih)).append (.cons rfl ih')

/-- Inside a value there is an open bracket. -/
theorem height_pos (h : Shape .value tokens) {k : ℕ} (hpos : 0 < k) (hk : k < tokens.length) :
    0 < height (tokens.take k) := by
  cases h with
  | booleanTrue | booleanFalse | integer | string =>
    rw [List.length_singleton] at hk
    omega
  | emptyArray => exact Balanced.nil.height_inside rfl hpos hk
  | emptyObject => exact Balanced.nil.height_inside rfl hpos hk
  | array h => exact h.balanced.height_inside rfl hpos hk
  | object h => exact h.balanced.height_inside rfl hpos hk

/-- The tokens at the beginning of a value that close every bracket are all of its tokens. -/
theorem eq_of_height (h : Shape .value tokens') (hstarts : tokens <+: tokens') (hne : tokens ≠ [])
    (hheight : height tokens = 0) : tokens = tokens' := by
  refine hstarts.eq_of_length (le_antisymm hstarts.length_le (not_lt.1 fun hlt => ?_))
  have hpos := h.height_pos (List.length_pos_iff.2 hne) hlt
  rw [← List.prefix_iff_eq_take.1 hstarts, hheight] at hpos
  exact lt_irrefl _ hpos

/-- **No value is the beginning of another one.** -/
theorem eq_of_starts (h : Shape .value tokens) (h' : Shape .value tokens')
    (hstarts : tokens <+: tokens') : tokens = tokens' :=
  h'.eq_of_height hstarts h.ne_nil h.balanced.height_eq

end Shape

/-! ## Texts -/

theorem Spells.append {text text' : Bytes} (h : Spells tokens text) (h' : Spells tokens' text') :
    Spells (tokens ++ tokens') (text ++ text') := by
  induction h with
  | nil => exact h'
  | cons hspace htoken _ ih =>
    rw [List.append_assoc _ _ text']
    exact .cons hspace htoken ih

/-- If no token follows, the tokens that are read are all that can be read. -/
theorem Lexes.starts_of_end {input rest rest' : Bytes} (h : Lexes input tokens rest)
    (h' : Lexes input tokens' rest') (hend : Tokenizer.lex rest' = none) : tokens <+: tokens' := by
  induction h generalizing tokens' with
  | nil => exact List.nil_prefix
  | cons htoken _ ih =>
    cases h' with
    | nil => cases htoken.symm.trans hend
    | cons htoken' h' =>
      cases htoken.symm.trans htoken'
      exact List.cons_prefix_cons.2 ⟨rfl, ih h'⟩

/-- The bytes of a value: its tokens, with white space before each of them and at the end. -/
def IsText (tokens : List Token) (v : Bytes) : Prop :=
  Shape .value tokens ∧ ∃ text space, Spells tokens text ∧ (∀ b ∈ space, isspace b = true) ∧
    v = text ++ space

/-- The object with one member, of the given text. -/
def memberText (key v : Bytes) : Bytes :=
  bytes "\x7b\"" ++ key ++ bytes "\":" ++ v ++ bytes "\x7d"

/-- The array with one element, of the given text. -/
def elementText (v : Bytes) : Bytes := bytes "[" ++ v ++ bytes "]"

variable {key v : Bytes}

theorem isText_elementText (h : IsText tokens v) :
    IsText (.arrayOpen :: tokens ++ [.arrayClose]) (elementText v) := by
  obtain ⟨hshape, text, space, hspells, hspace, rfl⟩ := h
  have hclose : Spells [.arrayClose] (space ++ bytes "]" ++ []) := .cons hspace trivial .nil
  have hopen : Spells (.arrayOpen :: (tokens ++ [.arrayClose]))
      ([] ++ bytes "[" ++ (text ++ (space ++ bytes "]" ++ []))) :=
    .cons nofun trivial (hspells.append hclose)
  refine ⟨.array (.lastElement hshape), _, [], hopen, nofun, ?_⟩
  simp [elementText]

/-- The tokens of an object with one member. -/
theorem lexes_memberText (hkey : ch '"' ∉ key) (h : IsText tokens v) :
    Lexes (memberText key v) (.objectOpen :: .string key :: .colon :: tokens ++ [.objectClose]) [] := by
  obtain ⟨hshape, text, space, hspells, hspace, rfl⟩ := h
  have hclose : Spells [.objectClose] (space ++ bytes "\x7d" ++ []) := .cons hspace trivial .nil
  have hopen : Spells (.objectOpen :: .string key :: .colon :: (tokens ++ [.objectClose]))
      ([] ++ bytes "\x7b" ++ ([] ++ (ch '"' :: key ++ [ch '"']) ++ ([] ++ bytes ":" ++
        (text ++ (space ++ bytes "\x7d" ++ []))))) :=
    .cons nofun trivial (.cons nofun hkey (.cons nofun trivial (hspells.append hclose)))
  have hseparated : Tokenizer.Separated
      (.objectOpen :: .string key :: .colon :: (tokens ++ [.objectClose])) :=
    ⟨nofun, nofun, nofun, hshape.separated nofun ⟨nofun, trivial⟩⟩
  have hlexes := Tokenizer.lexes_of_spells hopen hseparated []
  have hquote : bytes "\x7b\"" = bytes "\x7b" ++ [ch '"'] := by decide
  have hcolon : bytes "\":" = ch '"' :: bytes ":" := by decide
  have htext : memberText key (text ++ space) = [] ++ bytes "\x7b" ++ ([] ++ (ch '"' :: key ++ [ch '"']) ++
      ([] ++ bytes ":" ++ (text ++ (space ++ bytes "\x7d" ++ [])))) ++ [] := by
    rw [memberText, hquote, hcolon]
    simp
  rw [htext]
  exact hlexes

/-! ## Trees with one member or one element -/

variable {node : Node} {depth : ℕ}

theorem derives_member : Derives depth (.element (.object [(key, node)])) tokens' ↔
    ∃ budget tokens, depth = budget + 1 ∧ Derives budget (.value node) tokens ∧
      tokens' = .objectOpen :: .string key :: .colon :: tokens ++ [.objectClose] := by
  constructor
  · intro h
    cases h with
    | @object budget listed _ tokens h hperm hsorted =>
      obtain rfl := List.perm_singleton.1 hperm.symm
      cases h with
      | lastMember h => exact ⟨budget, _, rfl, h, rfl⟩
      | moreMembers _ h => cases h
  · rintro ⟨budget, tokens, rfl, h, rfl⟩
    exact .object (.lastMember h) (.refl _) (List.pairwise_singleton _ _)

theorem derives_singleton : Derives depth (.value (.array [node])) tokens' ↔
    ∃ budget tokens, depth = budget + 1 ∧ Derives budget (.element node) tokens ∧
      tokens' = .arrayOpen :: tokens ++ [.arrayClose] := by
  constructor
  · intro h
    cases h with
    | element h =>
      cases h with
      | @array budget _ tokens h =>
        cases h with
        | lastElement h => exact ⟨budget, tokens, rfl, h, rfl⟩
        | moreElements _ h => cases h
  · rintro ⟨budget, tokens, rfl, h, rfl⟩
    exact .element (.array (.lastElement h))

/-- **When a value is accepted** as that of the only member of an object. -/
theorem parse_memberText {maxDepth fuel : ℕ} (hkey : ch '"' ∉ key) (h : IsText tokens v)
    (hfuel : 2 * (memberText key v).length < fuel) :
    JSON.parse maxDepth fuel (memberText key v) = .ok (.object [(key, node)]) ↔
      ∃ budget, maxDepth = budget + 1 ∧ Derives budget (.value node) tokens := by
  have hlexes := lexes_memberText hkey h
  rw [JSON.parse_ok_iff hfuel]
  constructor
  · rintro ⟨members, tokens', rest, -, hderives, hlexes'⟩
    obtain ⟨budget, tokens₁, rfl, hvalue, rfl⟩ := derives_member.1 hderives
    have hstarts := hlexes'.starts_of_end hlexes rfl
    simp only [List.cons_append, List.cons_prefix_cons, true_and] at hstarts
    have hsame : tokens₁ = tokens := by
      have hleft := (List.prefix_append tokens₁ _).trans hstarts
      rcases List.prefix_or_prefix_of_prefix hleft (List.prefix_append tokens _) with hle | hle
      · exact hvalue.shape.eq_of_starts h.1 hle
      · exact (h.1.eq_of_starts hvalue.shape hle).symm
    exact ⟨budget, rfl, hsame ▸ hvalue⟩
  · rintro ⟨budget, rfl, hvalue⟩
    exact ⟨_, _, [], rfl, derives_member.2 ⟨budget, tokens, rfl, hvalue, rfl⟩, hlexes⟩

/-! ## The two positions -/

/-- A value is accepted as the only element of an array exactly if it is accepted in its place, if the
array may be nested. -/
def SameInArray (key v : Bytes) : Prop :=
  ∀ maxDepth fuel node, 2 * (memberText key (elementText v)).length < fuel →
    (JSON.parse maxDepth fuel (memberText key v) = .ok (.object [(key, node)]) ↔
      JSON.parse (maxDepth + 1) fuel (memberText key (elementText v)) =
        .ok (.object [(key, .array [node])]))

/-- The bytes of a boolean, maybe with white space around it. -/
def IsBooleanText (v : Bytes) : Prop :=
  IsText [.booleanTrue] v ∨ IsText [.booleanFalse] v

/-- When a value is accepted as the only element of an array. -/
theorem parse_elementText {maxDepth fuel : ℕ} (hkey : ch '"' ∉ key) (h : IsText tokens v)
    (hfuel : 2 * (memberText key (elementText v)).length < fuel) :
    JSON.parse (maxDepth + 1) fuel (memberText key (elementText v)) =
        .ok (.object [(key, .array [node])]) ↔
      ∃ budget, maxDepth = budget + 1 ∧ Derives budget (.element node) tokens := by
  rw [parse_memberText hkey (isText_elementText h) hfuel]
  constructor
  · rintro ⟨budget, hbudget, hderives⟩
    obtain rfl := Nat.succ.inj hbudget
    obtain ⟨budget', tokens', rfl, helement, heq⟩ := derives_singleton.1 hderives
    obtain rfl := List.append_cancel_right (List.cons.inj heq).2
    exact ⟨budget', rfl, helement⟩
  · rintro ⟨budget, rfl, helement⟩
    exact ⟨budget + 1, rfl, derives_singleton.2 ⟨budget, tokens, rfl, helement, rfl⟩⟩

/-- A boolean is accepted in an object, and not in an array. -/
theorem not_sameInArray {b : Bool} (hkey : ch '"' ∉ key) (h : IsText tokens v)
    (hvalue : Derives 0 (.value (.boolean b)) tokens) : ¬ SameInArray key v := by
  intro hsame
  have hlength : (memberText key v).length ≤ (memberText key (elementText v)).length := by
    simp only [memberText, elementText, List.length_append]
    omega
  have hfuel := Nat.lt_succ_self (2 * (memberText key (elementText v)).length)
  have hfuel' : 2 * (memberText key v).length < 2 * (memberText key (elementText v)).length + 1 := by omega
  have hmember := (parse_memberText hkey h hfuel').2 ⟨0, rfl, hvalue⟩
  have helement := (hsame 1 _ (.boolean b) hfuel).1 hmember
  obtain ⟨budget, -, hderives⟩ := (parse_elementText hkey h hfuel).1 helement
  cases hderives

/-- **Which values are the same in both positions**: those that are not booleans. -/
theorem sameInArray_iff (hkey : ch '"' ∉ key) (h : ∃ tokens, IsText tokens v) :
    SameInArray key v ↔ ¬ IsBooleanText v := by
  constructor
  · rintro hsame (htrue | hfalse)
    · exact not_sameInArray hkey htrue .booleanTrue hsame
    · exact not_sameInArray hkey hfalse .booleanFalse hsame
  · intro hboolean maxDepth fuel node hfuel
    obtain ⟨tokens, htext⟩ := h
    have hlength : (memberText key v).length ≤ (memberText key (elementText v)).length := by
      simp only [memberText, elementText, List.length_append]
      omega
    rw [parse_memberText hkey htext (by omega), parse_elementText hkey htext hfuel]
    refine exists_congr fun budget => and_congr_right fun _ => ⟨fun hvalue => ?_, .element⟩
    cases hvalue with
    | booleanTrue => exact absurd (.inl htext) hboolean
    | booleanFalse => exact absurd (.inr htext) hboolean
    | element helement => exact helement

theorem sameInArray_one : SameInArray (bytes "k") (bytes "1") := by
  have hkey : ch '"' ∉ bytes "k" := by decide
  have hdigits : bytes "1" ≠ [] ∧ ∀ b ∈ bytes "1", isDigit b = true := by decide +kernel
  have hspells : Spells [.integer (bytes "1")] ([] ++ bytes "1" ++ []) := .cons (by simp) hdigits .nil
  have hone : IsText [.integer (bytes "1")] (bytes "1") :=
    ⟨.integer, _, [], hspells, by simp, by decide⟩
  -- a boolean has more bytes
  have hlong : ∀ {token : Token}, 1 < token.spelled.length → ¬ IsText [token] (bytes "1") := by
    rintro token hlength ⟨-, text, space, hspells, -, heq⟩
    cases hspells with
    | cons _ _ _ =>
      have hsame := congrArg List.length heq
      simp only [List.length_append] at hsame
      have hlength' : (bytes "1").length = 1 := by decide
      omega
  exact (sameInArray_iff hkey ⟨_, hone⟩).2 fun hboolean =>
    hboolean.elim (hlong (by decide)) (hlong (by decide))

/-- The switch of `_parseArray` does not know booleans. -/
theorem not_sameInArray_true : ¬ SameInArray (bytes "k") (bytes "true") := by
  intro hsame
  have hmember : JSON.parse 1 100 (memberText (bytes "k") (bytes "true")) =
      .ok (.object [(bytes "k", .boolean true)]) := by
    rfl
  have hfuel : 2 * (memberText (bytes "k") (elementText (bytes "true"))).length < 100 := by decide
  have helement : JSON.parse 2 100 (memberText (bytes "k") (elementText (bytes "true"))) =
      .error (.json .unexpectedToken) := by
    rfl
  cases helement.symm.trans ((hsame 1 100 (.boolean true) hfuel).1 hmember)

/-! ## The end of the file -/

/-- The file is a text that denotes the tree, and white space. -/
def ReadWhole (maxDepth : ℕ) (root : Node) (file : Bytes) : Prop :=
  ∃ text space, file = text ++ space ∧ JSON.Renders maxDepth root text ∧ ∀ b ∈ space, isspace b = true

/-- Only white space follows tokens, read from the start of the file, that close every bracket they
open. -/
def ClosesAtEnd (file : Bytes) : Prop :=
  ∀ tokens rest, Lexes file tokens rest → tokens ≠ [] → height tokens = 0 →
    ∀ b ∈ rest, isspace b = true

/-- The same tokens leave the same bytes. -/
theorem Lexes.rest_eq {input rest rest' : Bytes} (h : Lexes input tokens rest)
    (h' : Lexes input tokens rest') : rest = rest' := by
  induction h with
  | nil =>
    cases h'
    rfl
  | cons htoken _ ih =>
    obtain ⟨mid, htoken', h'⟩ := h'.of_cons
    cases htoken.symm.trans htoken'
    exact ih h'

theorem Tokenizer.lex_space {space : Bytes} (h : ∀ b ∈ space, isspace b = true) : lex space = none := by
  rw [lex, List.dropWhile_eq_nil_iff.2 h]
  rfl

/-- After the brackets of a file that is read as a whole balance, there is only white space. -/
theorem ReadWhole.closesAtEnd {maxDepth : ℕ} {root : Node} {file : Bytes}
    (h : ReadWhole maxDepth root file) : ClosesAtEnd file := by
  intro tokens' rest' hlexes' hne hheight
  obtain ⟨text, space, rfl, ⟨members, tokens, rfl, hderives, hspells⟩, hspace⟩ := h
  obtain ⟨-, hseparated⟩ := JSON.derives_object hderives
  have hlexes := Tokenizer.lexes_of_spells hspells hseparated space
  have hstarts := hlexes'.starts_of_end hlexes (Tokenizer.lex_space hspace)
  obtain rfl := hderives.shape.eq_of_height hstarts hne hheight
  rwa [hlexes'.rest_eq hlexes]

/-- **When the whole file is read**: if its brackets balance at its last token only. -/
theorem readWhole_iff {maxDepth fuel : ℕ} {root : Node} {file : Bytes} (hfuel : 2 * file.length < fuel)
    (h : JSON.parse maxDepth fuel file = .ok root) :
    ReadWhole maxDepth root file ↔ ClosesAtEnd file := by
  refine ⟨ReadWhole.closesAtEnd, fun hcloses => ?_⟩
  obtain ⟨members, tokens, rest, hroot, hderives, hlexes⟩ := (JSON.parse_ok_iff hfuel).1 h
  have hrest := hcloses tokens rest hlexes hderives.shape.ne_nil hderives.shape.balanced.height_eq
  obtain ⟨text, hspells, hfile⟩ := Tokenizer.spells_of_lexes hlexes
  exact ⟨text, rest, hfile, ⟨members, tokens, hroot, hderives, hspells⟩, hrest⟩

/-- A file with a member. -/
def memberFile : Bytes := bytes "\x7b\"a\":1\x7d\n"

theorem readWhole_iff_member :
    ReadWhole 1 (.object [(bytes "a", .integer 1)]) memberFile ∧ ClosesAtEnd memberFile := by
  have hlexes : Lexes memberFile
      [.objectOpen, .string (bytes "a"), .colon, .integer (bytes "1"), .objectClose] (bytes "\n") := by
    have hopen : Tokenizer.lex memberFile = some (.objectOpen, bytes "\"a\":1\x7d\n") := by decide +kernel
    have hkey : Tokenizer.lex (bytes "\"a\":1\x7d\n") =
        some (.string (bytes "a"), bytes ":1\x7d\n") := by decide +kernel
    have hcolon : Tokenizer.lex (bytes ":1\x7d\n") = some (.colon, bytes "1\x7d\n") := by decide +kernel
    have hone : Tokenizer.lex (bytes "1\x7d\n") = some (.integer (bytes "1"), bytes "\x7d\n") := by
      decide +kernel
    have hclose : Tokenizer.lex (bytes "\x7d\n") = some (.objectClose, bytes "\n") := by decide +kernel
    exact .cons hopen (.cons hkey (.cons hcolon (.cons hone (.single hclose))))
  have hderives : Derives 1 (.element (.object [(bytes "a", .integer 1)]))
      [.objectOpen, .string (bytes "a"), .colon, .integer (bytes "1"), .objectClose] := by
    have hvalue : Utils.valueFrom 0 (bytes "1") = 1 := by decide
    have hone : Derives 0 (.element (.integer (Utils.valueFrom 0 (bytes "1")))) [.integer (bytes "1")] :=
      .integer (fun hzero => absurd hzero (by decide)) (by rw [hvalue]; decide)
    rw [hvalue] at hone
    exact .object (.lastMember (.element hone)) (List.Perm.refl _) (List.pairwise_singleton _ _)
  obtain ⟨text, hspells, hfile⟩ := Tokenizer.spells_of_lexes hlexes
  have hwhole : ReadWhole 1 (.object [(bytes "a", .integer 1)]) memberFile :=
    ⟨text, bytes "\n", hfile, ⟨_, _, rfl, hderives, hspells⟩, by decide +kernel⟩
  have hfuel : 2 * memberFile.length < 100 := by decide
  have hparse : JSON.parse 1 100 memberFile = .ok (.object [(bytes "a", .integer 1)]) :=
    (JSON.parse_ok_iff hfuel).2 ⟨_, _, _, rfl, hderives, hlexes⟩
  exact ⟨hwhole, (readWhole_iff hfuel hparse).1 hwhole⟩

/-- An object that a stray brace ends early, with the member that is dropped. -/
def strayBrace : Bytes := bytes "\x7b\x7d,\"a\":1\x7d"

theorem not_readWhole_strayBrace : ¬ ∀ (maxDepth fuel : ℕ) (root : Node) (file : Bytes),
    2 * file.length < fuel → JSON.parse maxDepth fuel file = .ok root →
      ReadWhole maxDepth root file := by
  intro h
  have hopen : Tokenizer.lex strayBrace = some (.objectOpen, bytes "\x7d,\"a\":1\x7d") := by
    decide +kernel
  have hclose : Tokenizer.lex (bytes "\x7d,\"a\":1\x7d") = some (.objectClose, bytes ",\"a\":1\x7d") := by
    decide +kernel
  have hlexes : Lexes strayBrace [.objectOpen, .objectClose] (bytes ",\"a\":1\x7d") :=
    .cons hopen (.single hclose)
  have hfuel : 2 * strayBrace.length < 100 := by decide
  have hparse : JSON.parse 1 100 strayBrace = .ok (.object []) :=
    (JSON.parse_ok_iff hfuel).2 ⟨[], _, _, rfl, .emptyObject, hlexes⟩
  have hwhole := h 1 100 (.object []) strayBrace hfuel hparse
  have hspace := hwhole.closesAtEnd _ _ hlexes (List.cons_ne_nil _ _) rfl (ch ',') (by decide)
  exact Bool.false_ne_true hspace

end Webserv
