import Webserv.Config.JsonGrammar
import Webserv.Numeral

/-!
# The parser accepts its grammar

What the parser returns is derived by the tokens it has read (`sound`), what is derived is returned
(`parses_of_derives`), and the fuel lasts (`enough`). Between two calls the tokenizer holds what remains to be
read and where its last token started (`reading`), so that rolling back reads the same token again.
-/

namespace Webserv

open Exec Utils

/-! ## Integers -/

/-- **What `parseNumber` accepts** of digits: those without a leading zero whose number fits. -/
theorem parseNumber_digits {max n : ℕ} {digits : Bytes} (hmax : 9 ≤ max) (hne : digits ≠ [])
    (hdigits : ∀ b ∈ digits, isDigit b = true) :
    parseNumber digits max = (true, n) ↔
      (digits.head? = some (ch '0') → digits = bytes "0") ∧ n = valueFrom 0 digits ∧ n ≤ max := by
  have hlength : digits.head? = some (ch '0') → (digits = bytes "0" ↔ digits.length = 1) := by
    intro hhead
    refine ⟨fun heq => heq ▸ rfl, fun hone => ?_⟩
    obtain ⟨b, rfl⟩ := List.length_eq_one_iff.1 hone
    exact congrArg (fun b => [b]) (Option.some.inj hhead)
  rw [parseNumber_iff hmax]
  constructor
  · rintro (⟨hnumeral, hle⟩ | ⟨rfl, -⟩)
    · exact ⟨fun hhead => (hlength hhead).2 (hnumeral.leading hhead), hnumeral.value.symm, hle⟩
    · exact absurd rfl hne
  · rintro ⟨hzero, rfl, hle⟩
    have hall : ∀ b ∈ digits, IsDigit b := fun b hb => of_decide_eq_true (hdigits b hb)
    exact .inl ⟨⟨hne, hall, fun hhead => (hlength hhead).1 (hzero hhead), rfl⟩, hle⟩

/-! ## Objects -/

namespace Members

/-- The members are in the order of their keys. -/
def Sorted (members : Members) : Prop := (members.map Prod.fst).Pairwise (· < ·)

variable {members members' : Members} {key : Bytes} {value : Node}

theorem sorted_nil : Sorted [] := List.Pairwise.nil

theorem contains_eq_false : members.contains key = false ↔ key ∉ members.map Prod.fst := by
  rw [← Bool.not_eq_true, Members.contains, List.lookup_isSome_iff, List.mem_map]
  simp only [beq_iff_eq, @eq_comm _ key]

/-- A new key is put among the others. -/
theorem emplace_perm (h : key ∉ members.map Prod.fst) :
    (members.emplace key value).Perm ((key, value) :: members) := by
  induction members with
  | nil => exact .refl _
  | cons member members ih =>
    obtain ⟨k, v⟩ := member
    rw [List.map_cons, List.mem_cons, not_or] at h
    rw [Members.emplace]
    split_ifs with hlt
    · exact .refl _
    · exact absurd ‹key = k› h.1
    · exact ((ih h.2).cons _).trans (.swap _ _ _)

theorem sorted_emplace (hsorted : Sorted members) (h : key ∉ members.map Prod.fst) :
    Sorted (members.emplace key value) := by
  induction members with
  | nil => exact List.pairwise_singleton _ _
  | cons member members ih =>
    obtain ⟨k, v⟩ := member
    obtain ⟨hhead, htail⟩ := List.pairwise_cons.1 hsorted
    rw [List.map_cons, List.mem_cons, not_or] at h
    rw [Members.emplace]
    split_ifs with hlt heq
    · refine List.pairwise_cons.2 ⟨fun k' hk' => ?_, hsorted⟩
      rcases List.mem_cons.1 hk' with rfl | hk'
      · exact hlt
      · exact List.lt_trans hlt (hhead k' hk')
    · exact absurd heq h.1
    · refine List.pairwise_cons.2 ⟨fun k' hk' => ?_, ih htail h.2⟩
      have hmem := ((emplace_perm h.2).map Prod.fst).mem_iff.1 hk'
      rcases List.mem_cons.1 hmem with rfl | hmem
      · exact Std.lt_of_le_of_ne hlt (Ne.symm heq)
      · exact hhead k' hmem

theorem Sorted.eq_of_perm (h : Sorted members) (h' : Sorted members') (hperm : members.Perm members') :
    members = members' := by
  have hanti : ∀ p q : Bytes × Node, p ∈ members → q ∈ members' → p.1 < q.1 → q.1 < p.1 → p = q :=
    fun p q _ _ hlt hlt' => absurd (List.lt_trans hlt hlt') (List.lt_irrefl _)
  exact hperm.eq_of_pairwise hanti (List.pairwise_map.1 h) (List.pairwise_map.1 h')

/-- The keys of members that are in order are distinct. -/
theorem Sorted.nodup (h : Sorted members) : (members.map Prod.fst).Nodup :=
  List.Pairwise.imp (fun {k k'} hlt (heq : k = k') => List.lt_irrefl k' (heq ▸ hlt)) h

/-- A key that is yet to be put among the members is not there. -/
theorem Sorted.notMem {listed : Members} (h : Sorted members')
    (hperm : members'.Perm (members ++ (key, value) :: listed)) : key ∉ members.map Prod.fst := by
  have hnodup := (hperm.map Prod.fst).nodup_iff.1 h.nodup
  rw [List.map_append, List.map_cons, List.nodup_append'] at hnodup
  exact fun hmem => hnodup.2.2 hmem List.mem_cons_self

end Members

/-! ## Reading tokens -/

namespace JSON

/-- The parser between two tokens: what remains to be read, and what remained before the last token. -/
def reading (rest prev : Bytes) (depth : ℕ) : JSON :=
  { tokenizer := { file := rest, prevPos := prev, eof := false }, depth }

variable {rest prev mid : Bytes} {depth maxDepth fuel : ℕ} {token : Token} {j j' : JSON}

theorem getToken_reading (h : Tokenizer.lex rest = some (token, mid)) :
    getToken (reading rest prev depth) = .ok token (reading mid rest depth) := by
  have hlex := Tokenizer.getToken_of_lex (t := (reading rest prev depth).tokenizer) rfl h
  unfold getToken onTokenizer
  rw [hlex]
  rfl

theorem getToken_error (h : Tokenizer.lex rest = none) (prev : Bytes) (depth : ℕ) :
    ∃ e j, getToken (reading rest prev depth) = .error (.token e) j := by
  obtain ⟨e, t, hlex⟩ :=
    Tokenizer.getToken_of_lex_eq_none (t := (reading rest prev depth).tokenizer) rfl h
  refine ⟨e, { reading rest prev depth with tokenizer := t }, ?_⟩
  unfold getToken onTokenizer
  rw [hlex]

/-- A token that was got was read. -/
theorem getToken_ok (h : getToken (reading rest prev depth) = .ok token j) :
    ∃ mid, Tokenizer.lex rest = some (token, mid) ∧ j = reading mid rest depth := by
  cases hlex : Tokenizer.lex rest with
  | none =>
    obtain ⟨e, j', herror⟩ := getToken_error hlex prev depth
    rw [herror] at h
    cases h
  | some p =>
    rw [getToken_reading hlex] at h
    cases h
    exact ⟨p.2, rfl, rfl⟩

/-- Rolling back reads the last token again. -/
theorem reread {f : Token → JSONM Node} (h : Tokenizer.lex prev = some (token, rest)) :
    (do
      rollBackToken
      let token ← getToken
      f token) (reading rest prev depth) = f token (reading rest prev depth) := by
  have hroll : rollBackToken (reading rest prev depth) = .ok () (reading prev prev depth) := rfl
  rw [bind_of_ok hroll, bind_of_ok (getToken_reading h)]

theorem enter_eq (maxDepth : ℕ) (rest prev : Bytes) (depth : ℕ) :
    enter maxDepth (reading rest prev depth) =
      if maxDepth < depth + 1 then .error (.json .nestedTooDeep) (reading rest prev (depth + 1))
      else .ok () (reading rest prev (depth + 1)) := by
  change (if maxDepth < depth + 1 then throw (.json .nestedTooDeep) else pure () : JSONM Unit)
    (reading rest prev (depth + 1)) = _
  rw [run_ite]
  rfl

theorem enter_ok (h : enter maxDepth (reading rest prev depth) = .ok () j) :
    depth + 1 ≤ maxDepth ∧ j = reading rest prev (depth + 1) := by
  rw [enter_eq] at h
  split_ifs at h with hdepth
  cases h
  exact ⟨Nat.not_lt.1 hdepth, rfl⟩

/-! ## What is returned is derived -/

/-- A call has returned a phrase: the tokens from `prev` on derive it, and after some more the rest
remains. -/
def Returned (maxDepth : ℕ) (phrase : Phrase) (closing : List Token) (prev : Bytes) (depth : ℕ)
    (j : JSON) : Prop :=
  ∃ tokens rest' prev', Derives (maxDepth - depth) phrase tokens ∧
    Lexes prev (tokens ++ closing) rest' ∧ j = reading rest' prev' depth

/-- What the calls return, for some fuel, if the last token was read from `prev`. -/
structure Sound (maxDepth fuel : ℕ) : Prop where
  array : ∀ {rest prev depth node j}, Tokenizer.lex prev = some (.arrayOpen, rest) →
    parseArray maxDepth fuel (reading rest prev depth) = .ok node j →
    Returned maxDepth (.element node) [] prev depth j
  elements : ∀ {rest prev depth token array array' j}, Tokenizer.lex prev = some (token, rest) →
    parseElements maxDepth fuel token array (reading rest prev depth) = .ok array' j →
    ∃ nodes, array' = array ++ nodes ∧
      Returned maxDepth (.elements nodes) [.arrayClose] prev depth j
  object : ∀ {rest prev depth node j}, Tokenizer.lex prev = some (.objectOpen, rest) →
    parseObject maxDepth fuel (reading rest prev depth) = .ok node j →
    Returned maxDepth (.element node) [] prev depth j
  members : ∀ {rest prev depth token object object' j}, Tokenizer.lex prev = some (token, rest) →
    Members.Sorted object →
    parseMembers maxDepth fuel token object (reading rest prev depth) = .ok object' j →
    ∃ listed, object'.Perm (object ++ listed) ∧ Members.Sorted object' ∧
      Returned maxDepth (.members listed) [.objectClose] prev depth j

variable {node : Node}

/-- The number of an integer token. -/
def integerOf (token : Token) : JSONM Node :=
  match parseNumber token.text (sizeModulus - 1) with
  | (false, _) => throw (.json .invalidInteger)
  | (true, integer) => pure (.integer integer)

theorem parseInteger_eq : parseInteger = getToken >>= integerOf := rfl

theorem parseInteger_ok {digits : Bytes} (hlex : Tokenizer.lex prev = some (.integer digits, rest))
    (h : (do
      rollBackToken
      parseInteger) (reading rest prev depth) = .ok node j) :
    (digits.head? = some (ch '0') → digits = bytes "0") ∧ valueFrom 0 digits < sizeModulus ∧
      node = .integer (valueFrom 0 digits) ∧ j = reading rest prev depth := by
  obtain ⟨-, -, ⟨hne, hdigits⟩, -⟩ := Tokenizer.lex_spelled hlex
  rw [parseInteger_eq] at h
  have hrun := (reread hlex).symm.trans h
  rcases hnumber : parseNumber digits (sizeModulus - 1) with ⟨_ | _, n⟩
  · rw [integerOf, Token.text, hnumber] at hrun
    cases hrun
  · rw [integerOf, Token.text, hnumber] at hrun
    cases hrun
    obtain ⟨hzero, rfl, hle⟩ := (parseNumber_digits (by decide) hne hdigits).1 hnumber
    have hpos : 0 < sizeModulus := by decide
    exact ⟨hzero, by omega, rfl, rfl⟩

theorem parseString_ok {s : Bytes} (hlex : Tokenizer.lex prev = some (.string s, rest))
    (h : (do
      rollBackToken
      parseString) (reading rest prev depth) = .ok node j) :
    node = .string s ∧ j = reading rest prev depth := by
  have hrun := (reread hlex (f := fun token => pure (.string token.text))).symm.trans h
  cases hrun
  exact ⟨rfl, rfl⟩

theorem parseElement_returned (hsound : Sound maxDepth fuel)
    (hlex : Tokenizer.lex prev = some (token, rest))
    (h : parseElement (parseArray maxDepth fuel) (parseObject maxDepth fuel) token
      (reading rest prev depth) = .ok node j) :
    Returned maxDepth (.element node) [] prev depth j := by
  cases token with
  | integer digits =>
    obtain ⟨hzero, hmax, rfl, rfl⟩ := parseInteger_ok hlex h
    exact ⟨_, rest, prev, .integer hzero hmax, .single hlex, rfl⟩
  | string s =>
    obtain ⟨rfl, rfl⟩ := parseString_ok hlex h
    exact ⟨_, rest, prev, .string, .single hlex, rfl⟩
  | arrayOpen => exact hsound.array hlex h
  | objectOpen => exact hsound.object hlex h
  | booleanTrue | booleanFalse | comma | colon | arrayClose | objectClose => cases h

theorem parseValue_returned (hsound : Sound maxDepth fuel)
    (hlex : Tokenizer.lex prev = some (token, rest))
    (h : parseValue (parseArray maxDepth fuel) (parseObject maxDepth fuel) token
      (reading rest prev depth) = .ok node j) :
    Returned maxDepth (.value node) [] prev depth j := by
  have helement : parseElement (parseArray maxDepth fuel) (parseObject maxDepth fuel) token
      (reading rest prev depth) = .ok node j → Returned maxDepth (.value node) [] prev depth j := by
    intro h
    obtain ⟨tokens, rest', prev', hderives, hlexes, rfl⟩ := parseElement_returned hsound hlex h
    exact ⟨tokens, rest', prev', .element hderives, hlexes, rfl⟩
  cases token with
  | booleanTrue =>
    have hrun := (reread hlex (f := fun token => pure (.boolean (token = .booleanTrue)))).symm.trans h
    cases hrun
    exact ⟨_, rest, prev, .booleanTrue, .single hlex, rfl⟩
  | booleanFalse =>
    have hrun := (reread hlex (f := fun token => pure (.boolean (token = .booleanTrue)))).symm.trans h
    cases hrun
    exact ⟨_, rest, prev, .booleanFalse, .single hlex, rfl⟩
  | integer | string | arrayOpen | objectOpen | comma | colon | arrayClose | objectClose =>
    exact helement h

/-- One level deeper. -/
theorem budget_eq (h : depth + 1 ≤ maxDepth) : maxDepth - depth = maxDepth - (depth + 1) + 1 := by
  omega

theorem leave_reading (rest prev : Bytes) (depth : ℕ) :
    leave (reading rest prev (depth + 1)) = .ok () (reading rest prev depth) := rfl

theorem Sound.parseArray_succ (hsound : Sound maxDepth fuel)
    (hlex : Tokenizer.lex prev = some (.arrayOpen, rest))
    (h : parseArray maxDepth (fuel + 1) (reading rest prev depth) = .ok node j) :
    Returned maxDepth (.element node) [] prev depth j := by
  rw [parseArray] at h
  obtain ⟨_, j₁, henter, h⟩ := bind_eq_ok h
  obtain ⟨hdepth, rfl⟩ := enter_ok henter
  obtain ⟨token, j₂, htoken, h⟩ := bind_eq_ok h
  obtain ⟨mid, hmid, rfl⟩ := getToken_ok htoken
  obtain ⟨array, j₃, harray, h⟩ := bind_eq_ok h
  rw [Returned, budget_eq hdepth]
  rw [run_ite] at harray
  split_ifs at harray with hclose
  · subst hclose
    cases harray
    rw [bind_of_ok (leave_reading _ _ _)] at h
    cases h
    exact ⟨_, mid, rest, .emptyArray, .cons hlex (.single hmid), rfl⟩
  · obtain ⟨nodes, rfl, tokens, rest', prev', hderives, hlexes, rfl⟩ := hsound.elements hmid harray
    rw [bind_of_ok (leave_reading _ _ _)] at h
    cases h
    refine ⟨_, rest', prev', .array hderives, ?_, rfl⟩
    rw [List.append_nil]
    exact .cons hlex hlexes

theorem Sound.parseObject_succ (hsound : Sound maxDepth fuel)
    (hlex : Tokenizer.lex prev = some (.objectOpen, rest))
    (h : parseObject maxDepth (fuel + 1) (reading rest prev depth) = .ok node j) :
    Returned maxDepth (.element node) [] prev depth j := by
  rw [parseObject] at h
  obtain ⟨_, j₁, henter, h⟩ := bind_eq_ok h
  obtain ⟨hdepth, rfl⟩ := enter_ok henter
  obtain ⟨keyToken, j₂, htoken, h⟩ := bind_eq_ok h
  obtain ⟨mid, hmid, rfl⟩ := getToken_ok htoken
  obtain ⟨object, j₃, hobject, h⟩ := bind_eq_ok h
  rw [Returned, budget_eq hdepth]
  rw [run_ite] at hobject
  split_ifs at hobject with hclose
  · subst hclose
    cases hobject
    rw [bind_of_ok (leave_reading _ _ _)] at h
    cases h
    exact ⟨_, mid, rest, .emptyObject, .cons hlex (.single hmid), rfl⟩
  · obtain ⟨listed, hperm, hsorted, tokens, rest', prev', hderives, hlexes, rfl⟩ :=
      hsound.members hmid Members.sorted_nil hobject
    rw [bind_of_ok (leave_reading _ _ _)] at h
    cases h
    refine ⟨_, rest', prev', .object hderives hperm hsorted, ?_, rfl⟩
    rw [List.append_nil]
    exact .cons hlex hlexes

theorem Sound.parseElements_succ (hsound : Sound maxDepth fuel) {array array' : List Node}
    (hlex : Tokenizer.lex prev = some (token, rest))
    (h : parseElements maxDepth (fuel + 1) token array (reading rest prev depth) = .ok array' j) :
    ∃ nodes, array' = array ++ nodes ∧
      Returned maxDepth (.elements nodes) [.arrayClose] prev depth j := by
  rw [parseElements] at h
  obtain ⟨element, j₁, helement, h⟩ := bind_eq_ok h
  obtain ⟨tokens, rest₁, prev₁, hderives, hlexes, rfl⟩ := parseElement_returned hsound hlex helement
  rw [List.append_nil] at hlexes
  obtain ⟨token₂, j₂, htoken, h⟩ := bind_eq_ok h
  obtain ⟨rest₂, hlex₂, rfl⟩ := getToken_ok htoken
  rw [run_ite, run_ite] at h
  split_ifs at h with hclose hcomma
  · subst hclose
    cases h
    exact ⟨[element], rfl, tokens, rest₂, rest₁, .lastElement hderives, hlexes.append (.single hlex₂), rfl⟩
  · subst hcomma
    obtain ⟨token₃, j₃, htoken, h⟩ := bind_eq_ok h
    obtain ⟨rest₃, hlex₃, rfl⟩ := getToken_ok htoken
    obtain ⟨nodes, rfl, tokens', rest', prev', hderives', hlexes', rfl⟩ := hsound.elements hlex₃ h
    refine ⟨element :: nodes, by simp, _, rest', prev', .moreElements hderives hderives', ?_, rfl⟩
    rw [List.append_assoc]
    exact hlexes.append (.cons hlex₂ hlexes')
  · cases h

theorem Sound.parseMembers_succ (hsound : Sound maxDepth fuel) {object object' : Members}
    (hlex : Tokenizer.lex prev = some (token, rest)) (hsorted : object.Sorted)
    (h : parseMembers maxDepth (fuel + 1) token object (reading rest prev depth) = .ok object' j) :
    ∃ listed, object'.Perm (object ++ listed) ∧ Members.Sorted object' ∧
      Returned maxDepth (.members listed) [.objectClose] prev depth j := by
  cases token with
  | string key =>
    rw [parseMembers, run_ite] at h
    split_ifs at h with hcontains
    · cases h
    have hnew : key ∉ object.map Prod.fst := Members.contains_eq_false.1 (by simpa using hcontains)
    obtain ⟨token₁, j₁, htoken, h⟩ := bind_eq_ok h
    obtain ⟨rest₁, hlex₁, rfl⟩ := getToken_ok htoken
    rw [run_ite] at h
    split_ifs at h with hcolon
    · cases h
    obtain rfl := not_not.1 hcolon
    obtain ⟨valueToken, j₂, htoken, h⟩ := bind_eq_ok h
    obtain ⟨rest₂, hlex₂, rfl⟩ := getToken_ok htoken
    obtain ⟨value, j₃, hvalue, h⟩ := bind_eq_ok h
    obtain ⟨tokens, rest₃, prev₃, hderives, hlexes, rfl⟩ := parseValue_returned hsound hlex₂ hvalue
    rw [List.append_nil] at hlexes
    obtain ⟨keyToken, j₄, htoken, h⟩ := bind_eq_ok h
    obtain ⟨rest₄, hlex₄, rfl⟩ := getToken_ok htoken
    have hperm : (object.emplace key value).Perm (object ++ [(key, value)]) :=
      (Members.emplace_perm hnew).trans (List.perm_append_singleton _ _).symm
    rw [run_ite, run_ite] at h
    split_ifs at h with hclose hcomma
    · subst hclose
      cases h
      refine ⟨[(key, value)], hperm, Members.sorted_emplace hsorted hnew, _, rest₄, rest₃,
        .lastMember hderives, ?_, rfl⟩
      exact .cons hlex (.cons hlex₁ (hlexes.append (.single hlex₄)))
    · subst hcomma
      obtain ⟨keyToken', j₅, htoken, h⟩ := bind_eq_ok h
      obtain ⟨rest₅, hlex₅, rfl⟩ := getToken_ok htoken
      obtain ⟨listed, hperm', hsorted', tokens', rest', prev', hderives', hlexes', rfl⟩ :=
        hsound.members hlex₅ (Members.sorted_emplace hsorted hnew) h
      refine ⟨(key, value) :: listed, ?_, hsorted', _, rest', prev',
        .moreMembers hderives hderives', ?_, rfl⟩
      · refine hperm'.trans ((hperm.append_right listed).trans ?_)
        rw [List.append_assoc]
        exact .refl _
      · rw [List.append_assoc]
        exact .cons hlex (.cons hlex₁ (hlexes.append (.cons hlex₄ hlexes')))
    · cases h
  | booleanTrue | booleanFalse | integer | comma | colon | arrayOpen | arrayClose | objectOpen |
    objectClose =>
    simp only [parseMembers] at h
    cases h

/-- **What is returned is derived**, whatever the fuel. -/
theorem sound (maxDepth fuel : ℕ) : Sound maxDepth fuel := by
  induction fuel with
  | zero =>
    refine ⟨fun _ h => ?_, fun _ h => ?_, fun _ h => ?_, fun _ _ h => ?_⟩
    · rw [parseArray] at h
      cases h
    · rw [parseElements] at h
      cases h
    · rw [parseObject] at h
      cases h
    · rw [parseMembers] at h
      cases h
  | succ fuel ih =>
    exact ⟨ih.parseArray_succ, ih.parseElements_succ, ih.parseObject_succ, ih.parseMembers_succ⟩

/-! ## What is derived is returned -/

/-- The calls return a phrase when they read its tokens: what is asked of the fuel is in terms of what
remains after the first token. -/
def Parses (maxDepth depth : ℕ) (tokens : List Token) : Phrase → Prop
  | .value node => ∀ {prev rest'}, Lexes prev tokens rest' →
    ∃ token mid prev', Tokenizer.lex prev = some (token, mid) ∧ rest'.length ≤ mid.length ∧
      ∀ {fuel}, 2 * mid.length < fuel →
        parseValue (parseArray maxDepth fuel) (parseObject maxDepth fuel) token
          (reading mid prev depth) = .ok node (reading rest' prev' depth)
  | .element node => ∀ {prev rest'}, Lexes prev tokens rest' →
    ∃ token mid prev', Tokenizer.lex prev = some (token, mid) ∧ rest'.length ≤ mid.length ∧
      token ≠ .arrayClose ∧ (∀ pa po, parseValue pa po token = parseElement pa po token) ∧
      ∀ {fuel}, 2 * mid.length < fuel →
        parseElement (parseArray maxDepth fuel) (parseObject maxDepth fuel) token
          (reading mid prev depth) = .ok node (reading rest' prev' depth)
  | .elements nodes => ∀ {prev rest'}, Lexes prev (tokens ++ [.arrayClose]) rest' →
    ∃ token mid prev', Tokenizer.lex prev = some (token, mid) ∧ token ≠ .arrayClose ∧
      ∀ {fuel} array, 2 * mid.length + 1 < fuel →
        parseElements maxDepth fuel token array (reading mid prev depth) =
          .ok (array ++ nodes) (reading rest' prev' depth)
  | .members listed => ∀ {prev rest'}, Lexes prev (tokens ++ [.objectClose]) rest' →
    ∃ key mid prev', Tokenizer.lex prev = some (.string key, mid) ∧
      ∀ {fuel} {object object' : Members}, object.Sorted → object'.Sorted →
        object'.Perm (object ++ listed) → 2 * mid.length + 1 < fuel →
        parseMembers maxDepth fuel (.string key) object (reading mid prev depth) =
          .ok object' (reading rest' prev' depth)

theorem parseArray_of {array : List Node} {rest' prev' : Bytes} (hdepth : depth + 1 ≤ maxDepth)
    (hlex : Tokenizer.lex rest = some (token, mid))
    (h : (if token = .arrayClose then pure [] else parseElements maxDepth fuel token [])
      (reading mid rest (depth + 1)) = .ok array (reading rest' prev' (depth + 1))) :
    parseArray maxDepth (fuel + 1) (reading rest prev depth) =
      .ok (.array array) (reading rest' prev' depth) := by
  have henter : enter maxDepth (reading rest prev depth) = .ok () (reading rest prev (depth + 1)) := by
    rw [enter_eq, if_neg (Nat.not_lt.2 hdepth)]
  rw [parseArray, bind_of_ok henter, bind_of_ok (getToken_reading hlex), bind_of_ok h,
    bind_of_ok (leave_reading _ _ _)]
  rfl

theorem parseObject_of {object : Members} {rest' prev' : Bytes} (hdepth : depth + 1 ≤ maxDepth)
    (hlex : Tokenizer.lex rest = some (token, mid))
    (h : (if token = .objectClose then pure [] else parseMembers maxDepth fuel token [])
      (reading mid rest (depth + 1)) = .ok object (reading rest' prev' (depth + 1))) :
    parseObject maxDepth (fuel + 1) (reading rest prev depth) =
      .ok (.object object) (reading rest' prev' depth) := by
  have henter : enter maxDepth (reading rest prev depth) = .ok () (reading rest prev (depth + 1)) := by
    rw [enter_eq, if_neg (Nat.not_lt.2 hdepth)]
  rw [parseObject, bind_of_ok henter, bind_of_ok (getToken_reading hlex), bind_of_ok h,
    bind_of_ok (leave_reading _ _ _)]
  rfl

/-- One round of the loop over the members, up to the token after the value. -/
theorem parseMembers_of {object : Members} {key : Bytes} {value : Node} {mid₁ mid₂ mid₃ prev₃ : Bytes}
    (hnew : key ∉ object.map Prod.fst) (hcolon : Tokenizer.lex rest = some (.colon, mid₁))
    (hlex : Tokenizer.lex mid₁ = some (token, mid₂))
    (hvalue : parseValue (parseArray maxDepth fuel) (parseObject maxDepth fuel) token
      (reading mid₂ mid₁ depth) = .ok value (reading mid₃ prev₃ depth)) :
    parseMembers maxDepth (fuel + 1) (.string key) object (reading rest prev depth) =
      (do
        let keyToken ← getToken
        if keyToken = .objectClose then pure (object.emplace key value)
        else if keyToken = .comma then
          let keyToken ← getToken
          parseMembers maxDepth fuel keyToken (object.emplace key value)
        else throw (.json .expectedComma) : JSONM Members) (reading mid₃ prev₃ depth) := by
  rw [parseMembers, run_ite, if_neg (by simp [Members.contains_eq_false.2 hnew]),
    bind_of_ok (getToken_reading hcolon), run_ite, if_neg (not_not.2 rfl),
    bind_of_ok (getToken_reading hlex), bind_of_ok hvalue]

/-- **What is derived is returned.** -/
theorem parses_of_derives {budget : ℕ} {phrase : Phrase} {tokens : List Token}
    (h : Derives budget phrase tokens) (hdepth : depth + budget = maxDepth) :
    Parses maxDepth depth tokens phrase := by
  induction h generalizing depth with
  | booleanTrue | booleanFalse =>
    intro prev rest' hlexes
    have hlex := hlexes.of_single
    exact ⟨_, rest', prev, hlex, le_rfl, fun _ => reread hlex⟩
  | element h ih =>
    intro prev rest' hlexes
    obtain ⟨token, mid, prev', hlex, hle, -, hsame, hrun⟩ := ih hdepth hlexes
    refine ⟨token, mid, prev', hlex, hle, fun {fuel} hfuel => ?_⟩
    rw [hsame]
    exact hrun hfuel
  | @integer budget digits hzero hmax =>
    intro prev rest' hlexes
    have hlex := hlexes.of_single
    obtain ⟨-, -, ⟨hne, hdigits⟩, -⟩ := Tokenizer.lex_spelled hlex
    have hnumber : parseNumber digits (sizeModulus - 1) = (true, valueFrom 0 digits) :=
      (parseNumber_digits (by decide) hne hdigits).2 ⟨hzero, rfl, Nat.le_sub_one_of_lt hmax⟩
    refine ⟨_, rest', prev, hlex, le_rfl, nofun, fun _ _ => rfl, fun _ => (reread hlex).trans ?_⟩
    rw [Token.text, hnumber]
    rfl
  | string =>
    intro prev rest' hlexes
    have hlex := hlexes.of_single
    exact ⟨_, rest', prev, hlex, le_rfl, nofun, fun _ _ => rfl, fun _ => reread hlex⟩
  | emptyArray =>
    intro prev rest' hlexes
    obtain ⟨mid, hlex, hlexes⟩ := hlexes.of_cons
    have hle := (Nat.le_add_right _ _).trans hlexes.length_le
    refine ⟨_, mid, mid, hlex, hle, nofun, fun _ _ => rfl, fun {fuel} hfuel => ?_⟩
    obtain ⟨fuel, rfl⟩ := Nat.exists_eq_add_one_of_ne_zero (Nat.ne_zero_of_lt hfuel)
    exact parseArray_of (by omega) hlexes.of_single rfl
  | array h ih =>
    intro prev rest' hlexes
    obtain ⟨mid, hlex, hlexes⟩ := hlexes.of_cons
    obtain ⟨token, mid', prev', hlex', hclose, hrun⟩ :=
      ih (show depth + 1 + _ = maxDepth by omega) hlexes
    have hle := (Nat.le_add_right _ _).trans hlexes.length_le
    refine ⟨_, mid, prev', hlex, hle, nofun, fun _ _ => rfl, fun {fuel} hfuel => ?_⟩
    obtain ⟨fuel, rfl⟩ := Nat.exists_eq_add_one_of_ne_zero (Nat.ne_zero_of_lt hfuel)
    have hlt := Tokenizer.length_lt_of_lex hlex'
    refine parseArray_of (by omega) hlex' ?_
    rw [if_neg hclose]
    refine hrun [] ?_
    omega
  | emptyObject =>
    intro prev rest' hlexes
    obtain ⟨mid, hlex, hlexes⟩ := hlexes.of_cons
    have hle := (Nat.le_add_right _ _).trans hlexes.length_le
    refine ⟨_, mid, mid, hlex, hle, nofun, fun _ _ => rfl, fun {fuel} hfuel => ?_⟩
    obtain ⟨fuel, rfl⟩ := Nat.exists_eq_add_one_of_ne_zero (Nat.ne_zero_of_lt hfuel)
    exact parseObject_of (by omega) hlexes.of_single rfl
  | object h hperm hsorted ih =>
    intro prev rest' hlexes
    obtain ⟨mid, hlex, hlexes⟩ := hlexes.of_cons
    obtain ⟨key, mid', prev', hlex', hrun⟩ :=
      ih (show depth + 1 + _ = maxDepth by omega) hlexes
    have hle := (Nat.le_add_right _ _).trans hlexes.length_le
    refine ⟨_, mid, prev', hlex, hle, nofun, fun _ _ => rfl, fun {fuel} hfuel => ?_⟩
    obtain ⟨fuel, rfl⟩ := Nat.exists_eq_add_one_of_ne_zero (Nat.ne_zero_of_lt hfuel)
    have hlt := Tokenizer.length_lt_of_lex hlex'
    refine parseObject_of (by omega) hlex' ?_
    rw [if_neg nofun]
    refine hrun Members.sorted_nil hsorted hperm ?_
    omega
  | lastElement h ih =>
    intro prev rest' hlexes
    obtain ⟨mid, hlexes, hlast⟩ := hlexes.of_append
    obtain ⟨token, mid', prev', hlex, -, hclose, -, hrun⟩ := ih hdepth hlexes
    refine ⟨token, mid', mid, hlex, hclose, fun {fuel} array hfuel => ?_⟩
    obtain ⟨fuel, rfl⟩ := Nat.exists_eq_add_one_of_ne_zero (Nat.ne_zero_of_lt hfuel)
    rw [parseElements, bind_of_ok (hrun (by omega)), bind_of_ok (getToken_reading hlast.of_single),
      run_ite, if_pos rfl]
    rfl
  | moreElements h h' ih ih' =>
    intro prev rest' hlexes
    rw [List.append_assoc] at hlexes
    obtain ⟨mid, hlexes, hmore⟩ := hlexes.of_append
    obtain ⟨mid₁, hcomma, hmore⟩ := hmore.of_cons
    obtain ⟨token, mid', prev', hlex, hle, hclose, -, hrun⟩ := ih hdepth hlexes
    obtain ⟨token₂, mid₂, prev₂, hlex₂, -, hrun₂⟩ := ih' hdepth hmore
    refine ⟨token, mid', prev₂, hlex, hclose, fun {fuel} array hfuel => ?_⟩
    obtain ⟨fuel, rfl⟩ := Nat.exists_eq_add_one_of_ne_zero (Nat.ne_zero_of_lt hfuel)
    have hlt₁ := Tokenizer.length_lt_of_lex hcomma
    have hlt₂ := Tokenizer.length_lt_of_lex hlex₂
    rw [parseElements, bind_of_ok (hrun (by omega)), bind_of_ok (getToken_reading hcomma), run_ite,
      if_neg nofun, run_ite, if_pos rfl, bind_of_ok (getToken_reading hlex₂)]
    refine (hrun₂ _ (by omega)).trans ?_
    rw [List.append_assoc]
    rfl
  | @lastMember budget key value tokens h ih =>
    intro prev rest' hlexes
    obtain ⟨mid, hlex, hlexes⟩ := hlexes.of_cons
    obtain ⟨mid₁, hcolon, hlexes⟩ := hlexes.of_cons
    obtain ⟨mid₂, hlexes, hlast⟩ := hlexes.of_append
    obtain ⟨token, mid₃, prev', hlex₃, hle, hrun⟩ := ih hdepth hlexes
    refine ⟨key, mid, mid₂, hlex, fun {fuel object object'} hsorted hsorted' hperm hfuel => ?_⟩
    obtain ⟨fuel, rfl⟩ := Nat.exists_eq_add_one_of_ne_zero (Nat.ne_zero_of_lt hfuel)
    have hlt₁ := Tokenizer.length_lt_of_lex hcolon
    have hlt₃ := Tokenizer.length_lt_of_lex hlex₃
    have hnew := hsorted'.notMem hperm
    have heq : object.emplace key value = object' :=
      (Members.sorted_emplace hsorted hnew).eq_of_perm hsorted' <|
        ((Members.emplace_perm hnew).trans (List.perm_append_singleton _ _).symm).trans hperm.symm
    rw [parseMembers_of hnew hcolon hlex₃ (hrun (by omega)),
      bind_of_ok (getToken_reading hlast.of_single), run_ite, if_pos rfl, heq]
    rfl
  | @moreMembers budget key value listed tokens tokens' h h' ih ih' =>
    intro prev rest' hlexes
    rw [List.append_assoc] at hlexes
    obtain ⟨mid, hlex, hlexes⟩ := hlexes.of_cons
    obtain ⟨mid₁, hcolon, hlexes⟩ := hlexes.of_cons
    obtain ⟨mid₂, hlexes, hmore⟩ := hlexes.of_append
    obtain ⟨mid₄, hcomma, hmore⟩ := hmore.of_cons
    obtain ⟨token, mid₃, prev', hlex₃, hle, hrun⟩ := ih hdepth hlexes
    obtain ⟨key₅, mid₅, prev₅, hlex₅, hrun₅⟩ := ih' hdepth hmore
    refine ⟨key, mid, prev₅, hlex, fun {fuel object object'} hsorted hsorted' hperm hfuel => ?_⟩
    obtain ⟨fuel, rfl⟩ := Nat.exists_eq_add_one_of_ne_zero (Nat.ne_zero_of_lt hfuel)
    have hlt₁ := Tokenizer.length_lt_of_lex hcolon
    have hlt₃ := Tokenizer.length_lt_of_lex hlex₃
    have hlt₄ := Tokenizer.length_lt_of_lex hcomma
    have hlt₅ := Tokenizer.length_lt_of_lex hlex₅
    have hnew := hsorted'.notMem hperm
    rw [parseMembers_of hnew hcolon hlex₃ (hrun (by omega)), bind_of_ok (getToken_reading hcomma),
      run_ite, if_neg nofun, run_ite, if_pos rfl, bind_of_ok (getToken_reading hlex₅)]
    refine hrun₅ (Members.sorted_emplace hsorted hnew) hsorted' (hperm.trans ?_) (by omega)
    rw [List.append_cons]
    exact ((List.perm_append_singleton _ _).trans (Members.emplace_perm hnew).symm).append_right _

/-! ## The fuel lasts -/

/-- The program is not left because it ran out of fuel. -/
def Lasts {α : Type} (x : JSONM α) (j : JSON) : Prop := ∀ j', x j ≠ .error .outOfFuel j'

theorem Lasts.bind {α β : Type} {x : JSONM α} {f : α → JSONM β} (hx : Lasts x j)
    (hf : ∀ a j', x j = .ok a j' → Lasts (f a) j') : Lasts (x >>= f) j := by
  intro j' h
  rcases bind_eq_error h with h | ⟨a, j₁, hok, h⟩
  · exact hx j' h
  · exact hf a j₁ hok j' h

theorem Lasts.ite {α : Type} {p : Prop} [Decidable p] {x y : JSONM α} (hx : p → Lasts x j)
    (hy : ¬ p → Lasts y j) : Lasts (if p then x else y) j := by
  split
  · exact hx ‹_›
  · exact hy ‹_›

theorem lasts_getToken (rest prev : Bytes) (depth : ℕ) : Lasts getToken (reading rest prev depth) := by
  intro j' h
  cases hlex : Tokenizer.lex rest with
  | none =>
    obtain ⟨e, j, herror⟩ := getToken_error hlex prev depth
    rw [herror] at h
    cases h
  | some p =>
    rw [getToken_reading hlex] at h
    cases h

theorem lasts_enter (rest prev : Bytes) (depth : ℕ) :
    Lasts (enter maxDepth) (reading rest prev depth) := by
  intro j' h
  rw [enter_eq] at h
  split_ifs at h
  cases h

theorem lasts_throw {α : Type} {e : ParseFault} (he : e ≠ .outOfFuel) : Lasts (throw e : JSONM α) j := by
  intro j' h
  cases h
  exact he rfl

theorem lasts_pure {α : Type} (a : α) : Lasts (pure a : JSONM α) j := nofun

/-- The fuel that the calls need, if the last token was read from `prev`. -/
structure Enough (maxDepth fuel : ℕ) : Prop where
  array : ∀ {rest prev depth}, 2 * rest.length < fuel →
    Lasts (parseArray maxDepth fuel) (reading rest prev depth)
  elements : ∀ {rest prev depth token array}, Tokenizer.lex prev = some (token, rest) →
    2 * rest.length + 1 < fuel →
    Lasts (parseElements maxDepth fuel token array) (reading rest prev depth)
  object : ∀ {rest prev depth}, 2 * rest.length < fuel →
    Lasts (parseObject maxDepth fuel) (reading rest prev depth)
  members : ∀ {rest prev depth token object}, Tokenizer.lex prev = some (token, rest) →
    2 * rest.length + 1 < fuel →
    Lasts (parseMembers maxDepth fuel token object) (reading rest prev depth)

theorem lasts_reread {f : Token → JSONM Node} (hlex : Tokenizer.lex prev = some (token, rest))
    (hf : Lasts (f token) (reading rest prev depth)) :
    Lasts (do
      rollBackToken
      let token ← getToken
      f token) (reading rest prev depth) := by
  intro j' h
  exact hf j' ((reread hlex).symm.trans h)

theorem lasts_integerOf (token : Token) (j : JSON) : Lasts (integerOf token) j := by
  unfold integerOf
  split
  · exact lasts_throw nofun
  · exact lasts_pure _

theorem lasts_parseElement (henough : Enough maxDepth fuel)
    (hlex : Tokenizer.lex prev = some (token, rest)) (hfuel : 2 * rest.length < fuel) :
    Lasts (parseElement (parseArray maxDepth fuel) (parseObject maxDepth fuel) token)
      (reading rest prev depth) := by
  cases token with
  | integer digits => exact lasts_reread hlex (lasts_integerOf _ _)
  | string s => exact lasts_reread hlex (lasts_pure _)
  | arrayOpen => exact henough.array hfuel
  | objectOpen => exact henough.object hfuel
  | booleanTrue | booleanFalse | comma | colon | arrayClose | objectClose => exact lasts_throw nofun

theorem lasts_parseValue (henough : Enough maxDepth fuel)
    (hlex : Tokenizer.lex prev = some (token, rest)) (hfuel : 2 * rest.length < fuel) :
    Lasts (parseValue (parseArray maxDepth fuel) (parseObject maxDepth fuel) token)
      (reading rest prev depth) := by
  cases token with
  | booleanTrue | booleanFalse => exact lasts_reread hlex (lasts_pure _)
  | integer | string | arrayOpen | objectOpen | comma | colon | arrayClose | objectClose =>
    exact lasts_parseElement henough hlex hfuel

theorem Returned.length_le {phrase : Phrase} {j : JSON} (h : Returned maxDepth phrase [] prev depth j)
    (hlex : Tokenizer.lex prev = some (token, rest)) :
    ∃ rest' prev', j = reading rest' prev' depth ∧ rest'.length ≤ rest.length := by
  obtain ⟨tokens, rest', prev', hderives, hlexes, rfl⟩ := h
  refine ⟨rest', prev', rfl, ?_⟩
  rw [List.append_nil] at hlexes
  obtain ⟨first, tokens, rfl⟩ := List.exists_cons_of_ne_nil hderives.shape.ne_nil
  obtain ⟨mid, hmid, hlexes⟩ := hlexes.of_cons
  rw [hlex] at hmid
  cases hmid
  exact (Nat.le_add_right _ _).trans hlexes.length_le

theorem Enough.parseElements_succ (henough : Enough maxDepth fuel) {array : List Node}
    (hlex : Tokenizer.lex prev = some (token, rest)) (hfuel : 2 * rest.length + 1 < fuel + 1) :
    Lasts (parseElements maxDepth (fuel + 1) token array) (reading rest prev depth) := by
  rw [parseElements]
  refine (lasts_parseElement henough hlex (by omega)).bind fun element j₁ helement => ?_
  obtain ⟨rest₁, prev₁, rfl, hle⟩ :=
    (parseElement_returned (sound maxDepth fuel) hlex helement).length_le hlex
  refine (lasts_getToken _ _ _).bind fun token₂ j₂ htoken => ?_
  obtain ⟨rest₂, hlex₂, rfl⟩ := getToken_ok htoken
  refine .ite (fun _ => lasts_pure _) fun _ => .ite (fun _ => ?_) fun _ => lasts_throw nofun
  refine (lasts_getToken _ _ _).bind fun token₃ j₃ htoken => ?_
  obtain ⟨rest₃, hlex₃, rfl⟩ := getToken_ok htoken
  have hlt₂ := Tokenizer.length_lt_of_lex hlex₂
  have hlt₃ := Tokenizer.length_lt_of_lex hlex₃
  exact henough.elements hlex₃ (by omega)

theorem Enough.parseMembers_succ (henough : Enough maxDepth fuel) {object : Members}
    (hlex : Tokenizer.lex prev = some (token, rest)) (hfuel : 2 * rest.length + 1 < fuel + 1) :
    Lasts (parseMembers maxDepth (fuel + 1) token object) (reading rest prev depth) := by
  cases token with
  | string key =>
    rw [parseMembers]
    refine .ite (fun _ => lasts_throw nofun) fun _ => ?_
    refine (lasts_getToken _ _ _).bind fun token₁ j₁ htoken => ?_
    obtain ⟨rest₁, hlex₁, rfl⟩ := getToken_ok htoken
    refine .ite (fun _ => lasts_throw nofun) fun _ => ?_
    refine (lasts_getToken _ _ _).bind fun valueToken j₂ htoken => ?_
    obtain ⟨rest₂, hlex₂, rfl⟩ := getToken_ok htoken
    have hlt₁ := Tokenizer.length_lt_of_lex hlex₁
    have hlt₂ := Tokenizer.length_lt_of_lex hlex₂
    refine (lasts_parseValue henough hlex₂ (by omega)).bind fun value j₃ hvalue => ?_
    obtain ⟨rest₃, prev₃, rfl, hle⟩ :=
      (parseValue_returned (sound maxDepth fuel) hlex₂ hvalue).length_le hlex₂
    refine (lasts_getToken _ _ _).bind fun keyToken j₄ htoken => ?_
    obtain ⟨rest₄, hlex₄, rfl⟩ := getToken_ok htoken
    refine .ite (fun _ => lasts_pure _) fun _ => .ite (fun _ => ?_) fun _ => lasts_throw nofun
    refine (lasts_getToken _ _ _).bind fun keyToken' j₅ htoken => ?_
    obtain ⟨rest₅, hlex₅, rfl⟩ := getToken_ok htoken
    have hlt₄ := Tokenizer.length_lt_of_lex hlex₄
    have hlt₅ := Tokenizer.length_lt_of_lex hlex₅
    exact henough.members hlex₅ (by omega)
  | booleanTrue | booleanFalse | integer | comma | colon | arrayOpen | arrayClose | objectOpen |
    objectClose =>
    simp only [parseMembers]
    exact lasts_throw nofun

theorem Enough.parseArray_succ (henough : Enough maxDepth fuel) (hfuel : 2 * rest.length < fuel + 1) :
    Lasts (parseArray maxDepth (fuel + 1)) (reading rest prev depth) := by
  rw [parseArray]
  refine (lasts_enter _ _ _).bind fun _ j₁ henter => ?_
  obtain ⟨-, rfl⟩ := enter_ok henter
  refine (lasts_getToken _ _ _).bind fun token j₂ htoken => ?_
  obtain ⟨mid, hlex, rfl⟩ := getToken_ok htoken
  have hlt := Tokenizer.length_lt_of_lex hlex
  refine .bind (.ite (fun _ => lasts_pure _) fun _ => henough.elements hlex (by omega)) fun _ _ _ => ?_
  exact .bind nofun fun _ _ _ => lasts_pure _

theorem Enough.parseObject_succ (henough : Enough maxDepth fuel) (hfuel : 2 * rest.length < fuel + 1) :
    Lasts (parseObject maxDepth (fuel + 1)) (reading rest prev depth) := by
  rw [parseObject]
  refine (lasts_enter _ _ _).bind fun _ j₁ henter => ?_
  obtain ⟨-, rfl⟩ := enter_ok henter
  refine (lasts_getToken _ _ _).bind fun token j₂ htoken => ?_
  obtain ⟨mid, hlex, rfl⟩ := getToken_ok htoken
  have hlt := Tokenizer.length_lt_of_lex hlex
  refine .bind (.ite (fun _ => lasts_pure _) fun _ => henough.members hlex (by omega)) fun _ _ _ => ?_
  exact .bind nofun fun _ _ _ => lasts_pure _

theorem enough (maxDepth fuel : ℕ) : Enough maxDepth fuel := by
  induction fuel with
  | zero => exact ⟨fun h => absurd h (by omega), fun _ h => absurd h (by omega),
      fun h => absurd h (by omega), fun _ h => absurd h (by omega)⟩
  | succ fuel ih =>
    exact ⟨ih.parseArray_succ, ih.parseElements_succ, ih.parseObject_succ, ih.parseMembers_succ⟩

/-! ## The constructor -/

/-- A text is an object, and denotes a tree. -/
def Renders (maxDepth : ℕ) (root : Node) (text : Bytes) : Prop :=
  ∃ members tokens, root = .object members ∧ Derives maxDepth (.element root) tokens ∧
    Spells tokens text

/-- The tokens of an object. -/
theorem derives_object {budget : ℕ} {members : Members} {tokens : List Token}
    (h : Derives budget (.element (.object members)) tokens) :
    (∃ tokens', tokens = .objectOpen :: tokens') ∧ Tokenizer.Separated tokens := by
  cases h with
  | emptyObject => exact ⟨⟨_, rfl⟩, nofun, nofun, trivial⟩
  | object h hperm hsorted => exact ⟨⟨_, rfl⟩, nofun, h.shape.separated nofun ⟨nofun, trivial⟩⟩

/-- What starts with the bracket of an object is one. -/
theorem object_of_derives {budget : ℕ} {node : Node} {tokens : List Token}
    (h : Derives budget (.element node) tokens) (hfirst : tokens.head? = some .objectOpen) :
    ∃ members, node = .object members := by
  cases h with
  | integer | string | emptyArray | array => cases hfirst
  | emptyObject => exact ⟨_, rfl⟩
  | @object _ _ members => exact ⟨members, rfl⟩

theorem parse_eq_ok {root : Node} {file : Bytes} :
    parse maxDepth fuel file = .ok root ↔ ∃ mid j, Tokenizer.lex file = some (.objectOpen, mid) ∧
      parseObject maxDepth fuel (reading mid file 0) = .ok root j := by
  have hstart : parseRoot maxDepth fuel { tokenizer := { file } } =
      parseRoot maxDepth fuel (reading file [] 0) := rfl
  rw [parse, hstart]
  constructor
  · intro h
    cases hrun : parseRoot maxDepth fuel (reading file [] 0) with
    | error e j =>
      rw [hrun] at h
      cases h
    | ok root' j =>
      rw [hrun] at h
      cases h
      obtain ⟨token, j₁, htoken, hrun⟩ := bind_eq_ok hrun
      obtain ⟨mid, hlex, rfl⟩ := getToken_ok htoken
      rw [run_ite] at hrun
      split_ifs at hrun with hopen
      · cases hrun
      · obtain rfl := not_not.1 hopen
        exact ⟨mid, j, hlex, hrun⟩
  · rintro ⟨mid, j, hlex, hrun⟩
    rw [parseRoot, bind_of_ok (getToken_reading hlex), run_ite, if_neg (not_not.2 rfl), hrun]

theorem lasts_parseRoot {file : Bytes} (hfuel : 2 * file.length < fuel) :
    Lasts (parseRoot maxDepth fuel) { tokenizer := { file } } := by
  refine (lasts_getToken file [] 0).bind fun token j₁ htoken => ?_
  obtain ⟨mid, hlex, rfl⟩ := getToken_ok htoken
  have hlt := Tokenizer.length_lt_of_lex hlex
  exact .ite (fun _ => lasts_throw nofun) fun _ => (enough maxDepth fuel).object (by omega)

/-- What is returned is what the tokens at the start of the file derive. -/
theorem parse_ok_iff {root : Node} {file : Bytes} (hfuel : 2 * file.length < fuel) :
    parse maxDepth fuel file = .ok root ↔ ∃ members tokens rest, root = .object members ∧
      Derives maxDepth (.element root) tokens ∧ Lexes file tokens rest := by
  constructor
  · intro h
    obtain ⟨mid, j, hlex, hrun⟩ := parse_eq_ok.1 h
    obtain ⟨tokens, rest, prev, hderives, hlexes, -⟩ := (sound maxDepth fuel).object hlex hrun
    rw [List.append_nil] at hlexes
    rw [Nat.sub_zero] at hderives
    obtain ⟨first, tokens, rfl⟩ := List.exists_cons_of_ne_nil hderives.shape.ne_nil
    obtain ⟨mid', hfirst, -⟩ := hlexes.of_cons
    rw [hlex] at hfirst
    cases hfirst
    obtain ⟨members, rfl⟩ := object_of_derives hderives rfl
    exact ⟨members, _, rest, rfl, hderives, hlexes⟩
  · rintro ⟨members, tokens, rest, rfl, hderives, hlexes⟩
    obtain ⟨⟨tokens', rfl⟩, -⟩ := derives_object hderives
    obtain ⟨token, mid, prev', hlex, -, -, -, hrun⟩ :=
      parses_of_derives hderives (Nat.zero_add maxDepth) hlexes
    obtain ⟨mid', hfirst, -⟩ := hlexes.of_cons
    rw [hlex] at hfirst
    cases hfirst
    have hlt := Tokenizer.length_lt_of_lex hlex
    exact parse_eq_ok.2 ⟨mid, _, hlex, hrun (by omega)⟩

/-- **The parser accepts its grammar and returns the tree**: the constructor returns a tree exactly if
the file starts with a text that denotes it, and it throws one of its exceptions otherwise. -/
theorem accepts_iff_renders {maxDepth fuel : ℕ} {file : Bytes} (hfuel : 2 * file.length < fuel) :
    (∀ root, parse maxDepth fuel file = .ok root ↔
      ∃ text rest, file = text ++ rest ∧ Renders maxDepth root text) ∧
    ∀ e, parse maxDepth fuel file = .error e → (∃ e', e = .token e') ∨ ∃ e', e = .json e' := by
  refine ⟨fun root => (parse_ok_iff hfuel).trans ⟨?_, ?_⟩, fun e h => ?_⟩
  · rintro ⟨members, tokens, rest, rfl, hderives, hlexes⟩
    obtain ⟨text, hspells, rfl⟩ := Tokenizer.spells_of_lexes hlexes
    exact ⟨text, rest, rfl, members, tokens, rfl, hderives, hspells⟩
  · rintro ⟨text, rest, rfl, members, tokens, rfl, hderives, hspells⟩
    obtain ⟨-, hseparated⟩ := derives_object hderives
    exact ⟨members, tokens, rest, rfl, hderives, Tokenizer.lexes_of_spells hspells hseparated rest⟩
  · cases e with
    | token e => exact .inl ⟨e, rfl⟩
    | json e => exact .inr ⟨e, rfl⟩
    | outOfFuel =>
      rw [parse] at h
      split at h
      · cases h
      · rename_i hrun
        cases h
        exact absurd hrun (lasts_parseRoot hfuel _)

/-- A file with an object, and what follows it. -/
def nestedFile : Bytes := bytes " \x7b\"b\": true,\"a\" :[10]\x7d,"

/-- The tree of the object. -/
def nestedTree : Node :=
  .object [(bytes "a", .array [.integer 10]), (bytes "b", .boolean true)]

theorem derives_nestedTree : Derives 2 (.element nestedTree)
    [.objectOpen, .string (bytes "b"), .colon, .booleanTrue, .comma, .string (bytes "a"), .colon,
      .arrayOpen, .integer (bytes "10"), .arrayClose, .objectClose] := by
  have hzero : (bytes "10").head? = some (ch '0') → bytes "10" = bytes "0" := by decide
  have hmax : valueFrom 0 (bytes "10") < sizeModulus := by decide
  have hinteger : Derives 0 (.element (.integer 10)) [.integer (bytes "10")] := .integer hzero hmax
  have harray : Derives 1 (.value (.array [.integer 10]))
      [.arrayOpen, .integer (bytes "10"), .arrayClose] := .element (.array (.lastElement hinteger))
  exact .object (.moreMembers .booleanTrue (.lastMember harray)) (.swap _ _ _) (by decide)

theorem accepts_iff_renders_nested : parse 2 100 nestedFile = .ok nestedTree := by
  have hfuel : 2 * nestedFile.length < 100 := by decide
  have hnone : ∀ b ∈ ([] : Bytes), isspace b = true := nofun
  have hspace : ∀ b ∈ bytes " ", isspace b = true := by decide +kernel
  have ha : ch '"' ∉ bytes "a" := by decide
  have hb : ch '"' ∉ bytes "b" := by decide
  have hdigits : bytes "10" ≠ [] ∧ ∀ b ∈ bytes "10", isDigit b = true := by decide +kernel
  refine ((accepts_iff_renders hfuel).1 nestedTree).2 ⟨_, bytes ",", ?_, _, _, rfl,
    derives_nestedTree, .cons hspace trivial <| .cons hnone hb <| .cons hnone trivial <|
      .cons hspace trivial <| .cons hnone trivial <| .cons hnone ha <|
      .cons hspace trivial <| .cons hnone trivial <| .cons hnone hdigits <|
      .cons hnone trivial <| .cons hnone trivial .nil⟩
  decide

end JSON

end Webserv
