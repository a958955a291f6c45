import Webserv.Config.JsonCorrect
import Webserv.Numeral

/-!
# Printing a tree

The trees that the constructor of `JSON` returns for some file (`Element`): strings without quotes,
numbers of a `size_t`, booleans only as members of objects, keys that are distinct and in order, and no
deeper than is allowed. Each of them is what is read of a text that can be computed from it
(`Node.text`), and no other tree is ever read (`read_iff`).
-/

namespace Webserv

open Utils

/-! ## Trees -/

/-- The trees that an array may hold, if it may nest to the given depth. An object may hold booleans as
well. -/
inductive Element : ℕ → Node → Prop
  | integer {depth n : ℕ} (h : n < sizeModulus) : Element depth (.integer n)
  | string {depth : ℕ} {s : Bytes} (h : ch '"' ∉ s) : Element depth (.string s)
  | array {depth : ℕ} {nodes : List Node} (h : ∀ node ∈ nodes, Element depth node) :
    Element (depth + 1) (.array nodes)
  | object {depth : ℕ} {members : Members} (hsorted : members.Sorted)
    (hkeys : ∀ member ∈ members, ch '"' ∉ member.1)
    (h : ∀ member ∈ members, (∀ b, member.2 ≠ .boolean b) → Element depth member.2) :
    Element (depth + 1) (.object members)

/-! ## Tokens -/

/-- The tokens of several phrases, with commas between them. -/
def commaSeparated : List (List Token) → List Token
  | [] => []
  | [tokens] => tokens
  | tokens :: tokens' :: phrases => tokens ++ .comma :: commaSeparated (tokens' :: phrases)

mutual

/-- The tokens that a tree is printed with. -/
def Node.tokens : Node → List Token
  | .boolean true => [.booleanTrue]
  | .boolean false => [.booleanFalse]
  | .integer n => [.integer (decimal n)]
  | .string s => [.string s]
  | .array elements => .arrayOpen :: commaSeparated (tokensOfElements elements) ++ [.arrayClose]
  | .object members => .objectOpen :: commaSeparated (tokensOfMembers members) ++ [.objectClose]

/-- The tokens of every element of an array. -/
def tokensOfElements : List Node → List (List Token)
  | [] => []
  | element :: elements => element.tokens :: tokensOfElements elements

/-- The tokens of every member of an object. -/
def tokensOfMembers : List (Bytes × Node) → List (List Token)
  | [] => []
  | (key, value) :: members => (.string key :: .colon :: value.tokens) :: tokensOfMembers members

end

/-- The text that a tree is printed as. -/
def Node.text (node : Node) : Bytes := node.tokens.flatMap Token.spelled

/-! ## What is printed is read -/

variable {depth : ℕ} {node : Node} {nodes : List Node} {members : Members} {token : Token}
  {tokens : List Token}

theorem mem_commaSeparated {phrases : List (List Token)} (h : token ∈ commaSeparated phrases) :
    token = .comma ∨ ∃ tokens ∈ phrases, token ∈ tokens := by
  induction phrases with
  | nil => cases h
  | cons tokens phrases ih =>
    cases phrases with
    | nil => exact .inr ⟨tokens, List.mem_singleton_self _, h⟩
    | cons tokens' phrases =>
      rw [commaSeparated, List.mem_append, List.mem_cons] at h
      rcases h with h | h | h
      · exact .inr ⟨tokens, List.mem_cons_self, h⟩
      · exact .inl h
      · obtain hcomma | ⟨tokens'', hmem, htoken⟩ := ih h
        · exact .inl hcomma
        · exact .inr ⟨tokens'', List.mem_cons_of_mem _ hmem, htoken⟩

theorem mem_tokensOfElements (h : tokens ∈ tokensOfElements nodes) :
    ∃ node ∈ nodes, tokens = node.tokens := by
  induction nodes with
  | nil => cases h
  | cons node nodes ih =>
    rw [tokensOfElements, List.mem_cons] at h
    rcases h with rfl | h
    · exact ⟨node, List.mem_cons_self, rfl⟩
    · obtain ⟨node', hnode', rfl⟩ := ih h
      exact ⟨node', List.mem_cons_of_mem _ hnode', rfl⟩

theorem mem_tokensOfMembers (h : tokens ∈ tokensOfMembers members) :
    ∃ member ∈ members, tokens = .string member.1 :: .colon :: member.2.tokens := by
  induction members with
  | nil => cases h
  | cons member members ih =>
    rw [tokensOfMembers, List.mem_cons] at h
    rcases h with rfl | h
    · exact ⟨member, List.mem_cons_self, rfl⟩
    · obtain ⟨member', hmember', rfl⟩ := ih h
      exact ⟨member', List.mem_cons_of_mem _ hmember', rfl⟩

/-- The elements of an array are derived if each of them is. -/
theorem derives_elements (h : ∀ node ∈ nodes, Derives depth (.element node) node.tokens)
    (hne : nodes ≠ []) : Derives depth (.elements nodes) (commaSeparated (tokensOfElements nodes)) := by
  induction nodes with
  | nil => exact absurd rfl hne
  | cons node nodes ih =>
    obtain ⟨hnode, hnodes⟩ := List.forall_mem_cons.1 h
    cases nodes with
    | nil => exact .lastElement hnode
    | cons node' nodes => exact .moreElements hnode (ih hnodes (List.cons_ne_nil _ _))

/-- The members of an object are derived if each of their values is. -/
theorem derives_members (h : ∀ member ∈ members, Derives depth (.value member.2) member.2.tokens)
    (hne : members ≠ []) :
    Derives depth (.members members) (commaSeparated (tokensOfMembers members)) := by
  induction members with
  | nil => exact absurd rfl hne
  | cons member members ih =>
    obtain ⟨hmember, hmembers⟩ := List.forall_mem_cons.1 h
    cases members with
    | nil => exact .lastMember hmember
    | cons member' members => exact .moreMembers hmember (ih hmembers (List.cons_ne_nil _ _))

/-- A member of an object is derived if it is a boolean or an element. -/
theorem derives_value (h : (∀ b, node ≠ .boolean b) → Derives depth (.element node) node.tokens) :
    Derives depth (.value node) node.tokens := by
  cases node with
  | boolean b =>
    cases b with
    | false => exact .booleanFalse
    | true => exact .booleanTrue
  | integer | string | array | object => exact .element (h nofun)

/-- The numeral of a number denotes it, and has no superfluous zero. -/
theorem numeral_decimal (n : ℕ) :
    ((decimal n).head? = some (ch '0') → decimal n = bytes "0") ∧ valueFrom 0 (decimal n) = n ∧
      (Token.integer (decimal n)).WellFormed := by
  have hnumeral := isNumeral_decimal n
  refine ⟨fun hhead => ?_, hnumeral.value, hnumeral.nonempty, fun b hb => ?_⟩
  · obtain ⟨b, hb⟩ := List.length_eq_one_iff.1 (hnumeral.leading hhead)
    rw [hb] at hhead ⊢
    exact congrArg (fun b => [b]) (Option.some.inj hhead)
  · exact decide_eq_true (hnumeral.digits b hb)

/-- **The tokens of a tree are derived from it.** -/
theorem Element.derives (h : Element depth node) : Derives depth (.element node) node.tokens := by
  induction h with
  | @integer depth n hn =>
    obtain ⟨hzero, hvalue, -⟩ := numeral_decimal n
    have hderives : Derives depth (.element (.integer (valueFrom 0 (decimal n)))) [.integer (decimal n)] :=
      .integer hzero (hvalue.symm ▸ hn)
    rwa [hvalue] at hderives
  | string => exact .string
  | @array depth nodes _ ih =>
    cases nodes with
    | nil => exact .emptyArray
    | cons node nodes => exact .array (derives_elements ih (List.cons_ne_nil _ _))
  | @object depth members hsorted _ _ ih =>
    cases members with
    | nil => exact .emptyObject
    | cons member members =>
      refine .object (derives_members (fun member hmember => ?_) (List.cons_ne_nil _ _)) (.refl _) hsorted
      exact derives_value (ih member hmember)

/-- The tokens of a tree are spelled out in its text. -/
theorem Element.wellFormed (h : Element depth node) : ∀ token ∈ node.tokens, token.WellFormed := by
  have hboolean : ∀ {b : Bool}, ∀ token ∈ (Node.boolean b).tokens, token.WellFormed := by
    intro b token htoken
    cases b <;> obtain rfl := List.mem_singleton.1 htoken <;> trivial
  -- what stands between the brackets of an array or of an object
  have hbracketed : ∀ {phrases : List (List Token)} {first last token : Token}, first.WellFormed →
      last.WellFormed → (∀ tokens ∈ phrases, ∀ token ∈ tokens, token.WellFormed) →
      token ∈ first :: commaSeparated phrases ++ [last] → token.WellFormed := by
    intro phrases first last token hfirst hlast hphrases htoken
    rw [List.mem_append, List.mem_cons, List.mem_singleton] at htoken
    rcases htoken with (rfl | htoken) | rfl
    · exact hfirst
    · obtain rfl | ⟨tokens, htokens, htoken⟩ := mem_commaSeparated htoken
      · trivial
      · exact hphrases tokens htokens token htoken
    · exact hlast
  induction h with
  | integer =>
    intro token htoken
    obtain rfl := List.mem_singleton.1 htoken
    exact (numeral_decimal _).2.2
  | string hs =>
    intro token htoken
    obtain rfl := List.mem_singleton.1 htoken
    exact hs
  | array _ ih =>
    refine fun token => hbracketed trivial trivial fun tokens htokens => ?_
    obtain ⟨node, hnode, rfl⟩ := mem_tokensOfElements htokens
    exact ih node hnode
  | object _ hkeys _ ih =>
    refine fun token => hbracketed trivial trivial fun tokens htokens => ?_
    obtain ⟨⟨key, value⟩, hmember, rfl⟩ := mem_tokensOfMembers htokens
    refine List.forall_mem_cons.2 ⟨hkeys _ hmember, List.forall_mem_cons.2 ⟨trivial, ?_⟩⟩
    cases value with
    | boolean b => exact hboolean
    | integer | string | array | object => exact ih _ hmember nofun

theorem spells_flatMap (h : ∀ token ∈ tokens, token.WellFormed) :
    Spells tokens (tokens.flatMap Token.spelled) := by
  induction tokens with
  | nil => exact .nil
  | cons token tokens ih =>
    obtain ⟨htoken, htokens⟩ := List.forall_mem_cons.1 h
    exact @Spells.cons _ _ [] _ (by simp) htoken (ih htokens)

/-! ## What is read can be printed -/

/-- What a phrase is made of. -/
def Phrase.IsMadeOf (depth : ℕ) : Phrase → Prop
  | .value node => (∀ b, node ≠ .boolean b) → Element depth node
  | .element node => Element depth node
  | .elements nodes => ∀ node ∈ nodes, Element depth node
  | .members listed => ∀ member ∈ listed,
      ch '"' ∉ member.1 ∧ ((∀ b, member.2 ≠ .boolean b) → Element depth member.2)

theorem Derives.isMadeOf {phrase : Phrase} (h : Derives depth phrase tokens)
    (hformed : ∀ token ∈ tokens, token.WellFormed) : phrase.IsMadeOf depth := by
  induction h with
  | booleanTrue => exact fun hne => absurd rfl (hne true)
  | booleanFalse => exact fun hne => absurd rfl (hne false)
  | element _ ih => exact fun _ => ih hformed
  | integer _ hmax => exact .integer hmax
  | string => exact .string (hformed _ List.mem_cons_self)
  | emptyArray => exact .array fun _ hnode => nomatch hnode
  | array _ ih => exact .array (ih fun token htoken => hformed token (by simp [htoken]))
  | emptyObject => exact .object Members.sorted_nil (fun _ h => nomatch h) fun _ h => nomatch h
  | object _ hperm hsorted ih =>
    have hlisted := ih fun token htoken => hformed token (by simp [htoken])
    exact .object hsorted (fun member hmember => (hlisted member (hperm.mem_iff.1 hmember)).1)
      fun member hmember => (hlisted member (hperm.mem_iff.1 hmember)).2
  | lastElement _ ih => exact List.forall_mem_singleton.2 (ih hformed)
  | moreElements _ _ ih ih' =>
    refine List.forall_mem_cons.2 ⟨ih fun token htoken => ?_, ih' fun token htoken => ?_⟩
    · exact hformed token (by simp [htoken])
    · exact hformed token (by simp [htoken])
  | lastMember _ ih =>
    refine List.forall_mem_singleton.2 ⟨hformed _ List.mem_cons_self, ih fun token htoken => ?_⟩
    exact hformed token (by simp [htoken])
  | moreMembers _ _ ih ih' =>
    refine List.forall_mem_cons.2 ⟨⟨hformed _ List.mem_cons_self, ih fun token htoken => ?_⟩,
      ih' fun token htoken => ?_⟩
    · exact hformed token (by simp [htoken])
    · exact hformed token (by simp [htoken])

theorem wellFormed_of_spells {text : Bytes} (h : Spells tokens text) :
    ∀ token ∈ tokens, token.WellFormed := by
  induction h with
  | nil => exact fun _ hmem => nomatch hmem
  | cons _ htoken _ ih => exact List.forall_mem_cons.2 ⟨htoken, ih⟩

/-! ## The constructor -/

namespace JSON

variable {maxDepth fuel : ℕ} {file : Bytes}

/-- A tree is read back from its text. -/
theorem parse_text (h : Element maxDepth (.object members))
    (hfuel : 2 * (Node.object members).text.length < fuel) :
    parse maxDepth fuel (Node.object members).text = .ok (.object members) := by
  have hderives := h.derives
  obtain ⟨-, hseparated⟩ := derives_object hderives
  have hlexes := Tokenizer.lexes_of_spells (spells_flatMap h.wellFormed) hseparated []
  rw [List.append_nil] at hlexes
  exact (parse_ok_iff hfuel).2 ⟨members, _, [], rfl, hderives, hlexes⟩

/-- What is read is an object that can be printed. -/
theorem element_of_parse (hfuel : 2 * file.length < fuel) (h : parse maxDepth fuel file = .ok node) :
    (∃ members, node = .object members) ∧ Element maxDepth node := by
  obtain ⟨members, tokens, rest, rfl, hderives, hlexes⟩ := (parse_ok_iff hfuel).1 h
  obtain ⟨text, hspells, -⟩ := Tokenizer.spells_of_lexes hlexes
  exact ⟨⟨members, rfl⟩, hderives.isMadeOf (wellFormed_of_spells hspells)⟩

/-- **Which trees are read**: the constructor returns a tree for some file exactly if it is an object
that nests no deeper than is allowed, with distinct keys in order, strings without quotes, numbers of a
`size_t` and no boolean in an array, and then it returns it for the text of the tree. -/
theorem read_iff (maxDepth : ℕ) (root : Node) :
    ((∃ file, parse maxDepth (2 * file.length + 1) file = .ok root) ↔
      (∃ members, root = .object members) ∧ Element maxDepth root) ∧
    ((∃ file, parse maxDepth (2 * file.length + 1) file = .ok root) →
      parse maxDepth (2 * root.text.length + 1) root.text = .ok root) := by
  have hprinted : (∃ members, root = .object members) → Element maxDepth root →
      parse maxDepth (2 * root.text.length + 1) root.text = .ok root := by
    rintro ⟨members, rfl⟩ helement
    exact parse_text helement (Nat.lt_succ_self _)
  have hread : (∃ file, parse maxDepth (2 * file.length + 1) file = .ok root) →
      (∃ members, root = .object members) ∧ Element maxDepth root := by
    rintro ⟨file, hfile⟩
    exact element_of_parse (Nat.lt_succ_self _) hfile
  refine ⟨⟨hread, fun h => ⟨root.text, hprinted h.1 h.2⟩⟩, fun h => ?_⟩
  exact hprinted (hread h).1 (hread h).2

end JSON

end Webserv
