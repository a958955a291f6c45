import Webserv.Config.Json

/-!
# The grammar of configuration files

`Derives` says which tokens a tree may be written with, and `Spells` which bytes the tokens, with white
space before each of them. What is read is spelled (`spells_of_lexes`), and what is spelled is read
(`lexes_of_spells`), since an integer is never the last token of an object or before another integer.
-/

namespace Webserv

open Utils

/-! ## Trees -/

/-- What the grammar derives: the value of a member, an element of an array, and what stands between
the brackets of an array and of an object that is not empty. -/
inductive Phrase
  | value (node : Node)
  | element (node : Node)
  | elements (nodes : List Node)
  | members (listed : List (Bytes × Node))

/-- The tokens that a phrase may be written with, if it may nest to the given depth. The members of
an object may be listed in any order, and have distinct keys. -/
inductive Derives : ℕ → Phrase → List Token → Prop
  | booleanTrue {depth : ℕ} : Derives depth (.value (.boolean true)) [.booleanTrue]
  | booleanFalse {depth : ℕ} : Derives depth (.value (.boolean false)) [.booleanFalse]
  | element {depth : ℕ} {node : Node} {tokens : List Token}
    (h : Derives depth (.element node) tokens) : Derives depth (.value node) tokens
  | integer {depth : ℕ} {digits : Bytes} (hzero : digits.head? = some (ch '0') → digits = bytes "0")
    (hmax : valueFrom 0 digits < sizeModulus) :
    Derives depth (.element (.integer (valueFrom 0 digits))) [.integer digits]
  | string {depth : ℕ} {s : Bytes} : Derives depth (.element (.string s)) [.string s]
  | emptyArray {depth : ℕ} : Derives (depth + 1) (.element (.array [])) [.arrayOpen, .arrayClose]
  | array {depth : ℕ} {nodes : List Node} {tokens : List Token}
    (h : Derives depth (.elements nodes) tokens) :
    Derives (depth + 1) (.element (.array nodes)) (.arrayOpen :: tokens ++ [.arrayClose])
  | emptyObject {depth : ℕ} : Derives (depth + 1) (.element (.object [])) [.objectOpen, .objectClose]
  | object {depth : ℕ} {listed members : List (Bytes × Node)} {tokens : List Token}
    (h : Derives depth (.members listed) tokens) (hperm : members.Perm listed)
    (hsorted : (members.map Prod.fst).Pairwise (· < ·)) :
    Derives (depth + 1) (.element (.object members)) (.objectOpen :: tokens ++ [.objectClose])
  | lastElement {depth : ℕ} {node : Node} {tokens : List Token}
    (h : Derives depth (.element node) tokens) : Derives depth (.elements [node]) tokens
  | moreElements {depth : ℕ} {node : Node} {nodes : List Node} {tokens tokens' : List Token}
    (h : Derives depth (.element node) tokens) (h' : Derives depth (.elements nodes) tokens') :
    Derives depth (.elements (node :: nodes)) (tokens ++ .comma :: tokens')
  | lastMember {depth : ℕ} {key : Bytes} {node : Node} {tokens : List Token}
    (h : Derives depth (.value node) tokens) :
    Derives depth (.members [(key, node)]) (.string key :: .colon :: tokens)
  | moreMembers {depth : ℕ} {key : Bytes} {node : Node} {listed : List (Bytes × Node)}
    {tokens tokens' : List Token} (h : Derives depth (.value node) tokens)
    (h' : Derives depth (.members listed) tokens') :
    Derives depth (.members ((key, node) :: listed))
      (.string key :: .colon :: tokens ++ .comma :: tokens')

/-- What a text is made of: values, and what stands between the brackets of an array and of an
object. -/
inductive Part
  | value
  | elements
  | members

/-- The part that a phrase is. -/
def Phrase.part : Phrase → Part
  | value _ | element _ => .value
  | elements _ => .elements
  | members _ => .members

/-- The tokens of a value in any JSON text: booleans, integers and strings, and arrays and objects of
values, whatever the keys and the numbers are and however deep they are nested. -/
inductive Shape : Part → List Token → Prop
  | booleanTrue : Shape .value [.booleanTrue]
  | booleanFalse : Shape .value [.booleanFalse]
  | integer {digits : Bytes} : Shape .value [.integer digits]
  | string {s : Bytes} : Shape .value [.string s]
  | emptyArray : Shape .value [.arrayOpen, .arrayClose]
  | array {tokens : List Token} (h : Shape .elements tokens) :
    Shape .value (.arrayOpen :: tokens ++ [.arrayClose])
  | emptyObject : Shape .value [.objectOpen, .objectClose]
  | object {tokens : List Token} (h : Shape .members tokens) :
    Shape .value (.objectOpen :: tokens ++ [.objectClose])
  | lastElement {tokens : List Token} (h : Shape .value tokens) : Shape .elements tokens
  | moreElements {tokens tokens' : List Token} (h : Shape .value tokens)
    (h' : Shape .elements tokens') : Shape .elements (tokens ++ .comma :: tokens')
  | lastMember {key : Bytes} {tokens : List Token} (h : Shape .value tokens) :
    Shape .members (.string key :: .colon :: tokens)
  | moreMembers {key : Bytes} {tokens tokens' : List Token} (h : Shape .value tokens)
    (h' : Shape .members tokens') :
    Shape .members (.string key :: .colon :: tokens ++ .comma :: tokens')

/-- What is derived has the shape of a value. -/
theorem Derives.shape {depth : ℕ} {phrase : Phrase} {tokens : List Token}
    (h : Derives depth phrase tokens) : Shape phrase.part tokens := by
  induction h with
  | booleanTrue => exact .booleanTrue
  | booleanFalse => exact .booleanFalse
  | element _ ih => exact ih
  | integer => exact .integer
  | string => exact .string
  | emptyArray => exact .emptyArray
  | array _ ih => exact .array ih
  | emptyObject => exact .emptyObject
  | object _ _ _ ih => exact .object ih
  | lastElement _ ih => exact .lastElement ih
  | moreElements _ _ ih ih' => exact .moreElements ih ih'
  | lastMember _ ih => exact .lastMember ih
  | moreMembers _ _ ih ih' => exact .moreMembers ih ih'

/-! ## Tokens -/

namespace Token

/-- The bytes of a token. -/
def spelled : Token → Bytes
  | booleanTrue => bytes "true"
  | booleanFalse => bytes "false"
  | integer digits => digits
  | string s => ch '"' :: s ++ [ch '"']
  | comma => bytes ","
  | colon => bytes ":"
  | arrayOpen => bytes "["
  | arrayClose => bytes "]"
  | objectOpen => bytes "\x7b"
  | objectClose => bytes "\x7d"

/-- The text of a token is one it can have. -/
def WellFormed : Token → Prop
  | integer digits => digits ≠ [] ∧ ∀ b ∈ digits, isDigit b = true
  | string s => ch '"' ∉ s
  | _ => True

/-- An integer. -/
def IsInteger : Token → Prop
  | integer _ => True
  | _ => False

end Token

/-- The bytes that tokens may be written with. -/
inductive Spells : List Token → Bytes → Prop
  | nil : Spells [] []
  | cons {token : Token} {tokens : List Token} {space rest : Bytes}
    (hspace : ∀ b ∈ space, isspace b = true) (htoken : token.WellFormed) (h : Spells tokens rest) :
    Spells (token :: tokens) (space ++ token.spelled ++ rest)

/-- The tokens that are read from a text, and what remains after them. -/
inductive Lexes : Bytes → List Token → Bytes → Prop
  | nil {input : Bytes} : Lexes input [] input
  | cons {input mid rest : Bytes} {token : Token} {tokens : List Token}
    (htoken : Tokenizer.lex input = some (token, mid)) (h : Lexes mid tokens rest) :
    Lexes input (token :: tokens) rest

namespace Tokenizer

variable {input rest : Bytes} {token : Token} {tokens : List Token}

theorem dropWhile_space {space : Bytes} (hspace : ∀ b ∈ space, isspace b = true) {b : UInt8}
    (hb : isspace b = false) (rest : Bytes) :
    (space ++ b :: rest).dropWhile isspace = b :: rest := by
  rw [List.dropWhile_append, List.dropWhile_eq_nil_iff.2 hspace]
  simp [hb]

theorem next_eq_some {l : Bytes} {p : UInt8 × Bytes} (h : next l = some p) : l = p.1 :: p.2 := by
  cases l with
  | nil => cases h
  | cons c rest =>
    cases h
    rfl

/-- A token of one byte. -/
theorem spelled_of_byte {c b : UInt8} {token' : Token} (h : some (token', input) = some (token, rest))
    (hc : c = b) (hspelled : token'.spelled = [b]) (hformed : token'.WellFormed) :
    token.WellFormed ∧ c :: input = token.spelled ++ rest := by
  cases h
  exact ⟨hformed, by rw [hspelled, hc]; rfl⟩

/-- A boolean. -/
theorem spelled_of_word {c b : UInt8} {word : Bytes} {token' : Token}
    (h : (if word <+: input then some (token', input.drop word.length) else none) =
      some (token, rest)) (hc : c = b) (hspelled : token'.spelled = b :: word)
    (hformed : token'.WellFormed) : token.WellFormed ∧ c :: input = token.spelled ++ rest := by
  split_ifs at h with hword
  cases h
  obtain ⟨rest, rfl⟩ := hword
  exact ⟨hformed, by rw [hspelled, hc, List.drop_left]; rfl⟩

/-- What is read from the first byte of a token on is its spelling. -/
theorem lexFrom_spelled {c : UInt8} (h : lexFrom c input = some (token, rest)) :
    token.WellFormed ∧ c :: input = token.spelled ++ rest := by
  by_cases hquote : c = ch '"'
  · rw [lexFrom, if_pos hquote] at h
    obtain ⟨⟨b, rest'⟩, hp, heq⟩ := Option.map_eq_some_iff.1 h
    cases heq
    have hrest := next_eq_some hp
    have hb : b = ch '"' := by
      have hstop := List.head?_dropWhile_not (· ≠ ch '"') input
      rw [hrest] at hstop
      simpa using hstop
    refine ⟨fun hmem => by simpa using List.mem_takeWhile_imp hmem, ?_⟩
    have hsplit := List.takeWhile_append_dropWhile (p := fun b => decide (b ≠ ch '"')) (l := input)
    rw [hrest, hb] at hsplit
    conv_lhs => rw [← hsplit, hquote]
    simp [Token.spelled]
  rw [lexFrom, if_neg hquote] at h
  by_cases hopen : c = ch '\x7b'
  · exact spelled_of_byte ((if_pos hopen).symm.trans h) hopen rfl trivial
  rw [if_neg hopen] at h
  by_cases hclose : c = ch '\x7d'
  · exact spelled_of_byte ((if_pos hclose).symm.trans h) hclose rfl trivial
  rw [if_neg hclose] at h
  by_cases harray : c = ch '['
  · exact spelled_of_byte ((if_pos harray).symm.trans h) harray rfl trivial
  rw [if_neg harray] at h
  by_cases harrayClose : c = ch ']'
  · exact spelled_of_byte ((if_pos harrayClose).symm.trans h) harrayClose rfl trivial
  rw [if_neg harrayClose] at h
  by_cases hcomma : c = ch ','
  · exact spelled_of_byte ((if_pos hcomma).symm.trans h) hcomma rfl trivial
  rw [if_neg hcomma] at h
  by_cases hcolon : c = ch ':'
  · exact spelled_of_byte ((if_pos hcolon).symm.trans h) hcolon rfl trivial
  rw [if_neg hcolon] at h
  by_cases hdigit : isDigit c = true
  · rw [if_pos hdigit] at h
    obtain ⟨⟨b, rest'⟩, hp, heq⟩ := Option.map_eq_some_iff.1 h
    cases heq
    refine ⟨⟨by simp, fun b hb => ?_⟩, ?_⟩
    · rcases List.mem_cons.1 hb with rfl | hb
      · exact hdigit
      · exact List.mem_takeWhile_imp hb
    · rw [← next_eq_some hp, Token.spelled, List.cons_append, List.takeWhile_append_dropWhile]
  rw [if_neg hdigit] at h
  by_cases htrue : c = ch 't'
  · exact spelled_of_word ((if_pos htrue).symm.trans h) htrue rfl trivial
  rw [if_neg htrue] at h
  by_cases hfalse : c = ch 'f'
  · exact spelled_of_word ((if_pos hfalse).symm.trans h) hfalse rfl trivial
  · rw [if_neg hfalse] at h
    cases h

theorem isspace_of_isDigit {b : UInt8} (h : isDigit b = true) : isspace b = false := by
  have h0 : (ch '0').toNat = 48 := rfl
  have h9 : (9 : UInt8).toNat = 9 := rfl
  have h13 : (13 : UInt8).toNat = 13 := rfl
  simp only [isDigit, IsDigit, decide_eq_true_eq, UInt8.le_iff_toNat_le] at h
  have hne : b ≠ 32 := by
    rintro rfl
    exact absurd h.1 (by decide)
  simp only [isspace, Bool.or_eq_false_iff, Bool.and_eq_false_iff, decide_eq_false_iff_not,
    UInt8.le_iff_toNat_le]
  exact ⟨hne, by omega⟩

/-- The bytes after an integer do not go on with a digit. -/
def Stops (token : Token) (rest : Bytes) : Prop :=
  token.IsInteger → ∃ b rest', rest = b :: rest' ∧ isDigit b = false

theorem lexFrom_string {s : Bytes} (hs : ch '"' ∉ s) (rest : Bytes) :
    lexFrom (ch '"') (s ++ ch '"' :: rest) = some (.string s, rest) := by
  have hall : ∀ b ∈ s, decide (b ≠ ch '"') = true := by
    intro b hb
    rw [decide_eq_true_iff]
    rintro rfl
    exact hs hb
  rw [lexFrom, if_pos rfl, List.dropWhile_append, List.dropWhile_eq_nil_iff.2 hall,
    List.takeWhile_append_of_pos hall]
  simp [next]

theorem lexFrom_integer {c : UInt8} {digits : Bytes} (hc : isDigit c = true)
    (hdigits : ∀ b ∈ digits, isDigit b = true) {b : UInt8} (hb : isDigit b = false) (rest : Bytes) :
    lexFrom c (digits ++ b :: rest) = some (.integer (c :: digits), b :: rest) := by
  have hne : ∀ b : UInt8, isDigit b = false → c ≠ b := by
    rintro b hb rfl
    rw [hb] at hc
    cases hc
  rw [lexFrom, if_neg (hne _ rfl), if_neg (hne _ rfl), if_neg (hne _ rfl), if_neg (hne _ rfl),
    if_neg (hne _ rfl), if_neg (hne _ rfl), if_neg (hne _ rfl), if_pos hc, List.dropWhile_append,
    List.dropWhile_eq_nil_iff.2 hdigits, List.takeWhile_append_of_pos hdigits]
  simp [next, hb]

/-- A token that is spelled out is read back. -/
theorem lex_of_spelled {space : Bytes} (hspace : ∀ b ∈ space, isspace b = true)
    (htoken : token.WellFormed) (hstops : Stops token rest) :
    lex (space ++ token.spelled ++ rest) = some (token, rest) := by
  have hstart : ∀ {b : UInt8} {text : Bytes}, token.spelled = b :: text → isspace b = false →
      lexFrom b (text ++ rest) = some (token, rest) →
      lex (space ++ token.spelled ++ rest) = some (token, rest) := by
    intro b text hspelled hb hfrom
    rw [lex, hspelled, List.append_assoc, List.cons_append, dropWhile_space hspace hb]
    exact hfrom
  cases token with
  | integer digits =>
    obtain ⟨b, rest, rfl, hb⟩ := hstops trivial
    obtain ⟨hne, hdigits⟩ := htoken
    obtain ⟨c, digits, rfl⟩ := List.exists_cons_of_ne_nil hne
    obtain ⟨hc, hdigits⟩ := List.forall_mem_cons.1 hdigits
    exact hstart rfl (isspace_of_isDigit hc) (lexFrom_integer hc hdigits hb rest)
  | string s =>
    have hfrom := lexFrom_string htoken rest
    rw [List.append_cons] at hfrom
    exact hstart rfl rfl hfrom
  | booleanTrue | booleanFalse | comma | colon | arrayOpen | arrayClose | objectOpen | objectClose =>
    exact hstart rfl rfl rfl

theorem lex_spelled (h : lex input = some (token, rest)) :
    ∃ space, (∀ b ∈ space, isspace b = true) ∧ token.WellFormed ∧
      input = space ++ token.spelled ++ rest := by
  obtain ⟨⟨c, mid⟩, hnext, hfrom⟩ := Option.bind_eq_some_iff.1 h
  obtain ⟨hformed, hspelled⟩ := lexFrom_spelled hfrom
  refine ⟨input.takeWhile isspace, fun b hb => List.mem_takeWhile_imp hb, hformed, ?_⟩
  rw [List.append_assoc, ← hspelled, ← next_eq_some hnext, List.takeWhile_append_dropWhile]

theorem spelled_ne_nil (h : token.WellFormed) : token.spelled ≠ [] := by
  cases token with
  | integer digits => exact h.1
  | string | booleanTrue | booleanFalse | comma | colon | arrayOpen | arrayClose | objectOpen |
    objectClose => exact List.cons_ne_nil _ _

theorem length_lt_of_lex (h : lex input = some (token, rest)) : rest.length < input.length := by
  obtain ⟨space, -, hformed, rfl⟩ := lex_spelled h
  have hpos := List.length_pos_iff.2 (spelled_ne_nil hformed)
  rw [List.length_append, List.length_append]
  omega

/-! ## Several tokens -/

/-- No integer is the last token or stands before another integer. -/
def Separated : List Token → Prop
  | [] => True
  | token :: tokens =>
    (token.IsInteger → ∃ token' ∈ tokens.head?, ¬ token'.IsInteger) ∧ Separated tokens

/-- A token that is not an integer does not start with a digit. -/
theorem spelled_stops (h : ¬ token.IsInteger) :
    ∃ b text, token.spelled = b :: text ∧ isDigit b = false := by
  cases token with
  | integer digits => exact absurd trivial h
  | string | booleanTrue | booleanFalse | comma | colon | arrayOpen | arrayClose | objectOpen |
    objectClose => exact ⟨_, _, rfl, rfl⟩

theorem spells_stops {text : Bytes} (h : Spells tokens text) (rest : Bytes)
    (hhead : ∃ token ∈ tokens.head?, ¬ token.IsInteger) :
    ∃ b rest', text ++ rest = b :: rest' ∧ isDigit b = false := by
  obtain ⟨token, htoken, hinteger⟩ := hhead
  cases h with
  | nil => cases htoken
  | @cons token' tokens space text hspace _ _ =>
    cases htoken
    cases space with
    | nil =>
      obtain ⟨b, text', hspelled, hb⟩ := spelled_stops hinteger
      exact ⟨b, _, by rw [hspelled]; rfl, hb⟩
    | cons b space =>
      refine ⟨b, _, rfl, ?_⟩
      by_contra hdigit
      have hnot := isspace_of_isDigit (by simpa using hdigit)
      rw [hspace b List.mem_cons_self] at hnot
      cases hnot

/-- **What is spelled is read**, if no integer runs into another one. -/
theorem lexes_of_spells {text : Bytes} (h : Spells tokens text) (hseparated : Separated tokens)
    (rest : Bytes) : Lexes (text ++ rest) tokens rest := by
  induction h with
  | nil => exact .nil
  | @cons token tokens space text hspace htoken h ih =>
    obtain ⟨hhead, hseparated⟩ := hseparated
    refine .cons ?_ (ih hseparated)
    rw [List.append_assoc]
    exact lex_of_spelled hspace htoken fun hinteger => spells_stops h rest (hhead hinteger)

theorem spells_of_lexes (h : Lexes input tokens rest) :
    ∃ text, Spells tokens text ∧ input = text ++ rest := by
  induction h with
  | nil => exact ⟨[], .nil, rfl⟩
  | cons htoken _ ih =>
    obtain ⟨text, hspells, rfl⟩ := ih
    obtain ⟨space, hspace, hformed, rfl⟩ := lex_spelled htoken
    exact ⟨_, .cons hspace hformed hspells, by rw [List.append_assoc _ text]⟩

end Tokenizer

namespace Lexes

variable {input mid rest : Bytes} {token : Token} {tokens tokens' : List Token}

theorem append (h : Lexes input tokens mid) (h' : Lexes mid tokens' rest) :
    Lexes input (tokens ++ tokens') rest := by
  induction h with
  | nil => exact h'
  | cons htoken _ ih => exact .cons htoken (ih h')

theorem of_append (h : Lexes input (tokens ++ tokens') rest) :
    ∃ mid, Lexes input tokens mid ∧ Lexes mid tokens' rest := by
  induction tokens generalizing input with
  | nil => exact ⟨input, .nil, h⟩
  | cons token tokens ih =>
    cases h with
    | cons htoken h =>
      obtain ⟨mid, hmid, hrest⟩ := ih h
      exact ⟨mid, .cons htoken hmid, hrest⟩

theorem of_cons (h : Lexes input (token :: tokens) rest) :
    ∃ mid, Tokenizer.lex input = some (token, mid) ∧ Lexes mid tokens rest := by
  cases h with
  | cons htoken h => exact ⟨_, htoken, h⟩

theorem of_single (h : Lexes input [token] rest) : Tokenizer.lex input = some (token, rest) := by
  obtain ⟨mid, htoken, h⟩ := h.of_cons
  cases h
  exact htoken

theorem single (h : Tokenizer.lex input = some (token, rest)) : Lexes input [token] rest :=
  .cons h .nil

/-- Every token takes bytes. -/
theorem length_le (h : Lexes input tokens rest) : rest.length + tokens.length ≤ input.length := by
  induction h with
  | nil => exact le_rfl
  | cons htoken _ ih =>
    have hlt := Tokenizer.length_lt_of_lex htoken
    rw [List.length_cons]
    omega

end Lexes

theorem Shape.ne_nil {part : Part} {tokens : List Token} (h : Shape part tokens) : tokens ≠ [] := by
  induction h with
  | booleanTrue | booleanFalse | integer | string | emptyArray | array | emptyObject | object |
    lastMember | moreMembers => exact List.cons_ne_nil _ _
  | lastElement _ ih => exact ih
  | moreElements => exact List.append_ne_nil_of_right_ne_nil _ (List.cons_ne_nil _ _)

/-- A value has no integer before another one, also with what follows it. -/
theorem Shape.separated {part : Part} {tokens : List Token} (h : Shape part tokens) {token : Token}
    {rest : List Token} (htoken : ¬ token.IsInteger) (hrest : Tokenizer.Separated (token :: rest)) :
    Tokenizer.Separated (tokens ++ token :: rest) := by
  induction h generalizing token rest with
  | booleanTrue | booleanFalse | string => exact ⟨nofun, hrest⟩
  | integer => exact ⟨fun _ => ⟨token, rfl, htoken⟩, hrest⟩
  | emptyArray | emptyObject => exact ⟨nofun, nofun, hrest⟩
  | array _ ih | object _ ih =>
    rw [List.append_assoc]
    exact ⟨nofun, ih nofun ⟨nofun, hrest⟩⟩
  | lastElement _ ih => exact ih htoken hrest
  | moreElements _ _ ih ih' =>
    rw [List.append_assoc]
    exact ih nofun ⟨nofun, ih' htoken hrest⟩
  | lastMember _ ih => exact ⟨nofun, nofun, ih htoken hrest⟩
  | moreMembers _ _ ih ih' =>
    rw [List.append_assoc]
    exact ⟨nofun, nofun, ih nofun ⟨nofun, ih' htoken hrest⟩⟩

end Webserv
