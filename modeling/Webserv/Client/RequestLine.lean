import Webserv.Client.PostHead
import Webserv.Numeral

/-!
# The request line

`_parseRequestLine` cuts a line at its first and its last space. What it accepts is the grammar of
request lines (`IsRequestLine`), but for the last byte of the version, which it does not look at: the
two comparisons with the ends of the range of digits are joined by `||` (`isValidProtocol_iff`).
-/

namespace Webserv.Client

open Exec Search Utils

/-! ## The grammar -/

/-- The names of the methods. -/
inductive MethodName : RequestMethod → Bytes → Prop
  | get : MethodName .get (bytes "GET")
  | post : MethodName .post (bytes "POST")
  | delete : MethodName .delete (bytes "DELETE")

/-- The version of the protocol, `HTTP/` and two digits with a dot between them. -/
def IsVersion (protocol : Bytes) : Prop :=
  ∃ major minor, IsDigit major ∧ IsDigit minor ∧ protocol = bytes "HTTP/" ++ [major, ch '.', minor]

/-- A line made of a method, a target that starts with a slash and may have spaces, and a version. -/
def IsRequestLine (line : Bytes) (method : RequestMethod) (target protocol : Bytes) : Prop :=
  ∃ name, MethodName method name ∧ target.head? = some (ch '/') ∧ IsVersion protocol ∧
    line = name ++ ch ' ' :: target ++ ch ' ' :: protocol

/-- The text before the first space is not the name of a method. -/
def UnknownMethod (line : Bytes) : Prop :=
  ∃ name rest, line = name ++ ch ' ' :: rest ∧ ch ' ' ∉ name ∧ ∀ method, ¬ MethodName method name

/-- A text with every `%20` replaced by a space. -/
def decodeSpaces : Bytes → Bytes
  | 37 :: 50 :: 48 :: rest => 32 :: decodeSpaces rest
  | b :: rest => b :: decodeSpaces rest
  | [] => []

/-! ## Decoding -/

theorem decodeSpaces_coded (rest : Bytes) :
    decodeSpaces (bytes "%20" ++ rest) = bytes " " ++ decodeSpaces rest := by
  have hcoded : bytes "%20" = [37, 50, 48] := by decide
  have hspace : bytes " " = [32] := by decide
  rw [hcoded, hspace]
  exact decodeSpaces.eq_1 rest

theorem decodeSpaces_cons {b : UInt8} {rest : Bytes} (h : ¬ bytes "%20" <+: b :: rest) :
    decodeSpaces (b :: rest) = b :: decodeSpaces rest := by
  have hcoded : bytes "%20" = [37, 50, 48] := by decide
  refine decodeSpaces.eq_2 b rest fun rest' hb hrest => h ?_
  rw [hb, hrest, hcoded]
  exact List.prefix_append [37, 50, 48] rest'

/-- The first `%20` is replaced, and what follows it is decoded. -/
theorem decodeSpaces_find (input : Bytes) : decodeSpaces input =
    match find (bytes "%20") input with
    | none => input
    | some i => input.take i ++ bytes " " ++ decodeSpaces (input.drop (i + (bytes "%20").length)) := by
  induction input with
  | nil => rfl
  | cons b rest ih =>
    by_cases hcoded : bytes "%20" <+: b :: rest
    · rw [find_of_prefixed hcoded]
      obtain ⟨rest', hrest⟩ := hcoded
      dsimp only
      rw [← hrest, decodeSpaces_coded, List.take_zero, List.nil_append, Nat.zero_add, List.drop_left]
    · rw [find_cons_of_not_prefixed hcoded, decodeSpaces_cons hcoded, ih]
      cases find (bytes "%20") rest with
      | none => rfl
      | some i =>
        simp only [Option.map_some, List.take_succ_cons, List.cons_append, Nat.add_right_comm i 1,
          List.drop_succ_cons]

/-- The loop of `replaceAll`, with what it has left behind. -/
theorem replaceFrom_eq {fuel : ℕ} (before rest : Bytes) (hfuel : rest.length < fuel) :
    replaceFrom (bytes "%20") (bytes " ") fuel (before ++ rest) before.length =
      before ++ decodeSpaces rest := by
  induction fuel generalizing before rest with
  | zero => omega
  | succ fuel ih =>
    rw [replaceFrom, List.drop_left, decodeSpaces_find]
    cases hfind : find (bytes "%20") rest with
    | none => rfl
    | some i =>
      have hlen : i + (bytes "%20").length ≤ rest.length := length_le_of_find hfind
      have htake : (before ++ rest).take (before.length + i) = before ++ rest.take i := by
        rw [List.take_append, List.take_of_length_le (by omega), Nat.add_sub_cancel_left]
      have hdrop : (before ++ rest).drop (before.length + i + (bytes "%20").length) =
          rest.drop (i + (bytes "%20").length) := by
        rw [Nat.add_assoc, List.drop_append, List.drop_of_length_le (by omega), Nat.add_sub_cancel_left,
          List.nil_append]
      have hpos : before.length + i + (bytes " ").length = (before ++ rest.take i ++ bytes " ").length := by
        simp only [List.length_append, List.length_take]
        omega
      have hcoded : (bytes "%20").length = 3 := by decide
      dsimp only
      rw [htake, hdrop, hpos, ih _ _ (by rw [List.length_drop]; omega)]
      simp only [List.append_assoc]

theorem replaceAll_eq (input : Bytes) :
    replaceAll input (bytes "%20") (bytes " ") = decodeSpaces input := by
  have h := replaceFrom_eq [] input (Nat.lt_succ_self _)
  rwa [List.nil_append, List.nil_append] at h

/-! ## The parts of a line -/

/-- The method that `_getRequestMethodEnumFromString` makes of a name. -/
def methodOf (name : Bytes) : Option RequestMethod :=
  if name = bytes "GET" then some .get
  else if name = bytes "POST" then some .post
  else if name = bytes "DELETE" then some .delete
  else none

theorem methodOf_iff {name : Bytes} {method : RequestMethod} :
    methodOf name = some method ↔ MethodName method name := by
  unfold methodOf
  constructor
  · intro h
    split_ifs at h with hget hpost hdelete
    · cases h
      exact hget ▸ .get
    · cases h
      exact hpost ▸ .post
    · cases h
      exact hdelete ▸ .delete
  · rintro (_ | _ | _) <;> decide

theorem getRequestMethodEnumFromString_eq (name : Bytes) (c : Client) :
    getRequestMethodEnumFromString name c =
      match methodOf name with
      | some method => .ok method c
      | none => .error (.clientException .methodNotAllowed) c := by
  unfold getRequestMethodEnumFromString methodOf
  rw [run_ite, run_ite, run_ite]
  split_ifs <;> rfl

theorem space_eq : bytes " " = [ch ' '] := by decide

variable {c : Client} {name target protocol : Bytes}

/-- A line without a space. -/
theorem parseRequestLine_noSpace {line : Bytes} (h : ch ' ' ∉ line) :
    parseRequestLine line c = .error (.clientException .badRequest) c := by
  have hfind : find (bytes " ") line = none := by
    cases hfind : find (bytes " ") line with
    | none => rfl
    | some i =>
      obtain ⟨-, hocc, -⟩ := find_eq_some hfind
      refine absurd (List.mem_of_mem_drop (hocc.subset ?_)) h
      decide
  rw [parseRequestLine, hfind]
  rfl

/-- A line with one space. -/
theorem parseRequestLine_oneSpace (hname : ch ' ' ∉ name) (hrest : ch ' ' ∉ protocol) :
    ∃ c', parseRequestLine (name ++ ch ' ' :: protocol) c = .error (.clientException
      (if (methodOf name).isSome then .badRequest else .methodNotAllowed)) c' ∧
      c'.protocol = c.protocol := by
  have hfirst : find (bytes " ") (name ++ ch ' ' :: protocol) = some name.length := by
    rw [space_eq]
    exact find_singleton_append hname protocol
  have hlast : findLast (ch ' ') (name ++ ch ' ' :: protocol) = some name.length :=
    findLast_append name hrest
  have hm := getRequestMethodEnumFromString_eq name c
  cases hmethod : methodOf name with
  | none =>
    rw [hmethod] at hm
    exact ⟨c, by simp only [parseRequestLine, hfirst, run_bind, List.take_left, hm]; rfl, rfl⟩
  | some method =>
    rw [hmethod] at hm
    refine ⟨{ c with requestMethod := method }, ?_, rfl⟩
    simp only [parseRequestLine, hfirst, run_bind, List.take_left, hm, run_modify, hlast, if_true]
    rfl

/-- A line with two spaces or more. -/
theorem parseRequestLine_spaces (target : Bytes) (hname : ch ' ' ∉ name) (hprotocol : ch ' ' ∉ protocol) :
    if (methodOf name).isSome ∧ target.head? = some (ch '/') ∧ isValidProtocol protocol then
      ∃ method, methodOf name = some method ∧
        parseRequestLine (name ++ ch ' ' :: target ++ ch ' ' :: protocol) c =
          .ok () { c with
            requestMethod := method, requestTarget := decodeSpaces target, protocol := protocol }
    else ∃ c', parseRequestLine (name ++ ch ' ' :: target ++ ch ' ' :: protocol) c =
      .error (.clientException
        (if (methodOf name).isSome then .badRequest else .methodNotAllowed)) c' ∧
      c'.protocol = if (methodOf name).isSome ∧ target.head? = some (ch '/') then protocol
        else c.protocol := by
  have hfirst : find (bytes " ") (name ++ ch ' ' :: target ++ ch ' ' :: protocol) =
      some name.length := by
    rw [space_eq, List.append_assoc]
    exact find_singleton_append hname _
  have hlast : findLast (ch ' ') (name ++ ch ' ' :: target ++ ch ' ' :: protocol) =
      some (name ++ ch ' ' :: target).length := findLast_append _ hprotocol
  have hne : (name ++ ch ' ' :: target).length ≠ name.length := by
    simp
  have htarget : ((name ++ ch ' ' :: target ++ ch ' ' :: protocol).drop (name.length + 1)).take
      ((name ++ ch ' ' :: target).length - (name.length + 1)) = target := by
    have hlen : (name ++ ch ' ' :: target).length - (name.length + 1) = target.length := by
      simp only [List.length_append, List.length_cons]
      omega
    rw [List.append_assoc, ← List.drop_drop, List.drop_left, hlen]
    exact List.take_left
  have hdrop : (name ++ ch ' ' :: target ++ ch ' ' :: protocol).drop
      ((name ++ ch ' ' :: target).length + 1) = protocol := by
    rw [← List.drop_drop, List.drop_left]
    rfl
  have htake : (name ++ ch ' ' :: target ++ ch ' ' :: protocol).take name.length = name := by
    rw [List.append_assoc, List.take_left]
  have hm := getRequestMethodEnumFromString_eq name c
  cases hmethod : methodOf name with
  | none =>
    rw [hmethod] at hm
    rw [if_neg (by simp)]
    exact ⟨c, by simp only [parseRequestLine, hfirst, run_bind, htake, hm]; rfl, by simp⟩
  | some method =>
    rw [hmethod] at hm
    by_cases hhead : target.head? = some (ch '/')
    · have heq := parseRequestLine_eq hfirst (htake.symm ▸ hm) hlast hne (htarget.symm ▸ hhead)
      rw [htarget, hdrop, withLine, replaceAll_eq] at heq
      rw [heq]
      by_cases hvalid : isValidProtocol protocol = true
      · rw [if_pos ⟨rfl, hhead, hvalid⟩]
        exact ⟨method, rfl, if_pos hvalid⟩
      · rw [if_neg fun h => hvalid h.2.2]
        exact ⟨_, if_neg hvalid, (if_pos ⟨rfl, hhead⟩).symm⟩
    · rw [if_neg fun h => hhead h.2.1]
      refine ⟨{ c with requestMethod := method, requestTarget := target }, ?_,
        (if_neg fun h => hhead h.2).symm⟩
      simp only [parseRequestLine, hfirst, run_bind, htake, hm, hlast, run_modify, if_neg hne,
        htarget, ne_eq, hhead, not_false_eq_true, if_true]
      rfl

/-- Every line has no space, or one, or its first and its last space apart. -/
theorem line_cases (line : Bytes) : ch ' ' ∉ line ∨
    ∃ name rest, ch ' ' ∉ name ∧ ch ' ' ∉ rest ∧ (line = name ++ ch ' ' :: rest ∨
      ∃ target, line = name ++ ch ' ' :: target ++ ch ' ' :: rest) := by
  by_cases hmem : ch ' ' ∈ line
  · obtain ⟨name, after, rfl, hname⟩ := List.eq_append_cons_of_mem hmem
    by_cases hafter : ch ' ' ∈ after
    · -- the last space is the first one of the reversed text
      obtain ⟨last, before, hreverse, hlast⟩ :=
        List.eq_append_cons_of_mem (List.mem_reverse.2 hafter)
      have hsplit : after = before.reverse ++ ch ' ' :: last.reverse := by
        rw [← List.reverse_reverse after, hreverse]
        simp
      refine .inr ⟨name, last.reverse, hname, by simpa using hlast, .inr ⟨before.reverse, ?_⟩⟩
      rw [hsplit, List.append_assoc, List.cons_append]
    · exact .inr ⟨name, after, hname, hafter, .inl rfl⟩
  · exact .inl hmem

/-- How a request line is parsed does not depend on the client. -/
theorem parseRequestLine_uniform (line : Bytes) :
    (∃ status, ∀ c, ∃ c', parseRequestLine line c = .error (.clientException status) c') ∨
      ∃ method target protocol, ∀ c, parseRequestLine line c = .ok () { c with
        requestMethod := method, requestTarget := target, protocol := protocol } := by
  rcases line_cases line with hspace | ⟨name, rest, hname, hrest, rfl | ⟨target, rfl⟩⟩
  · exact .inl ⟨_, fun c => ⟨c, parseRequestLine_noSpace hspace⟩⟩
  · refine .inl ⟨if (methodOf name).isSome then .badRequest else .methodNotAllowed, fun c => ?_⟩
    obtain ⟨c', herror, -⟩ := parseRequestLine_oneSpace (c := c) hname hrest
    exact ⟨c', herror⟩
  · by_cases haccepted : (methodOf name).isSome ∧ target.head? = some (ch '/') ∧ isValidProtocol rest
    · obtain ⟨method, hmethod⟩ := Option.isSome_iff_exists.1 haccepted.1
      refine .inr ⟨method, decodeSpaces target, rest, fun c => ?_⟩
      have hspaces := parseRequestLine_spaces (c := c) target hname hrest
      rw [if_pos haccepted] at hspaces
      obtain ⟨method', hmethod', heq⟩ := hspaces
      obtain rfl := Option.some.inj (hmethod.symm.trans hmethod')
      exact heq
    · refine .inl ⟨if (methodOf name).isSome then .badRequest else .methodNotAllowed, fun c => ?_⟩
      have hspaces := parseRequestLine_spaces (c := c) target hname hrest
      rw [if_neg haccepted] at hspaces
      obtain ⟨c', herror, -⟩ := hspaces
      exact ⟨c', herror⟩

/-! ## What is accepted -/

/-- **What `_isValidProtocol` accepts**: its last comparison is always true. -/
theorem isValidProtocol_iff {protocol : Bytes} : isValidProtocol protocol = true ↔
    ∃ major minor, IsDigit major ∧ protocol = bytes "HTTP/" ++ [major, ch '.', minor] := by
  have hhttp : bytes "HTTP/" = [72, 84, 84, 80, 47] := by decide
  have hlen : (bytes "HTTP/0.0").length = 8 := by decide
  have hminor : ∀ b : UInt8, (decide (ch '0' ≤ b) || decide (b ≤ ch '9')) = true := by
    intro b
    have h₀ : (ch '0').toNat = 48 := rfl
    have h₉ : (ch '9').toNat = 57 := rfl
    rw [Bool.or_eq_true, decide_eq_true_iff, decide_eq_true_iff, UInt8.le_iff_toNat_le,
      UInt8.le_iff_toNat_le]
    omega
  unfold isValidProtocol
  rw [hlen, hminor, Bool.and_true, hhttp]
  constructor
  · intro h
    simp only [Bool.and_eq_true, decide_eq_true_iff] at h
    obtain ⟨⟨⟨hsize, hstart⟩, hmajor⟩, hdot⟩ := h
    obtain ⟨rest, rfl⟩ := List.isPrefixOf_iff_prefix.1 hstart
    match rest, hsize with
    | [major, dot, minor], _ =>
      obtain rfl : dot = ch '.' := hdot
      exact ⟨major, minor, hmajor, rfl⟩
  · rintro ⟨major, minor, hmajor, rfl⟩
    obtain ⟨h₀, h₉⟩ : ch '0' ≤ major ∧ major ≤ ch '9' := hmajor
    simp [startsWith, h₀, h₉]

theorem space_notMem_version {major minor : UInt8} (hmajor : IsDigit major) (hminor : minor ≠ ch ' ') :
    ch ' ' ∉ bytes "HTTP/" ++ [major, ch '.', minor] := by
  have hhttp : ch ' ' ∉ bytes "HTTP/" := by decide
  have hdot : ch ' ' ≠ ch '.' := by decide
  have hne : ch ' ' ≠ major := by
    rintro rfl
    exact absurd hmajor (by decide)
  simp [hhttp, hdot, hne, hminor.symm]

theorem space_notMem_name {method : RequestMethod} (h : MethodName method name) : ch ' ' ∉ name := by
  cases h <;> decide

/-- What the grammar says about a line: it is accepted with its parts, or an exception with the right
status is thrown. -/
def MeetsGrammar (line : Bytes) : Prop :=
  ∀ c : Client, (∀ method target protocol, IsRequestLine line method target protocol →
      parseRequestLine line c = .ok () { c with
        requestMethod := method, requestTarget := decodeSpaces target, protocol := protocol }) ∧
    ((¬ ∃ method target protocol, IsRequestLine line method target protocol) →
      ∃ status c', parseRequestLine line c = .error (.clientException status) c' ∧
        (UnknownMethod line → status = .methodNotAllowed) ∧
        (¬ UnknownMethod line → status = .badRequest))

/-- A request line but for the last byte of its version, which is no digit. -/
def OddVersion (line : Bytes) : Prop :=
  ∃ method name target major minor, MethodName method name ∧ target.head? = some (ch '/') ∧
    IsDigit major ∧ ¬ IsDigit minor ∧ minor ≠ ch ' ' ∧
    line = name ++ ch ' ' :: target ++ ch ' ' :: (bytes "HTTP/" ++ [major, ch '.', minor])

theorem unknownMethod_iff {rest : Bytes} (hname : ch ' ' ∉ name) :
    UnknownMethod (name ++ ch ' ' :: rest) ↔ methodOf name = none := by
  constructor
  · rintro ⟨name', rest', heq, hname', hunknown⟩
    have hlength : name.length = name'.length := by
      have hfind := find_singleton_append hname rest
      rw [heq, find_singleton_append hname' rest'] at hfind
      exact (Option.some.inj hfind).symm
    obtain ⟨rfl, -⟩ := List.append_inj heq hlength
    cases hmethod : methodOf name with
    | none => rfl
    | some method => exact absurd (methodOf_iff.1 hmethod) (hunknown method)
  · intro hnone
    refine ⟨name, rest, rfl, hname, fun method hmethod => ?_⟩
    rw [methodOf_iff.2 hmethod] at hnone
    cases hnone

/-- The status of the exception, in terms of the text before the first space. -/
theorem status_iff (rest : Bytes) (hname : ch ' ' ∉ name) :
    (UnknownMethod (name ++ ch ' ' :: rest) →
      (if (methodOf name).isSome then Status.badRequest else .methodNotAllowed) = .methodNotAllowed) ∧
    (¬ UnknownMethod (name ++ ch ' ' :: rest) →
      (if (methodOf name).isSome then Status.badRequest else .methodNotAllowed) = .badRequest) := by
  rw [unknownMethod_iff hname]
  cases methodOf name <;> simp

/-- A line of the grammar is accepted with its parts. -/
theorem parseRequestLine_of_isRequestLine {line : Bytes} {method : RequestMethod}
    (h : IsRequestLine line method target protocol) :
    parseRequestLine line c = .ok () { c with
      requestMethod := method, requestTarget := decodeSpaces target, protocol := protocol } := by
  obtain ⟨name, hmethod, hhead, ⟨major, minor, hmajor, hminor, rfl⟩, rfl⟩ := h
  have hmethodOf := methodOf_iff.2 hmethod
  have hspaces := parseRequestLine_spaces (c := c) target (space_notMem_name hmethod)
    (space_notMem_version hmajor (hminor.ne (by decide)))
  rw [if_pos ⟨by rw [hmethodOf]; rfl, hhead, isValidProtocol_iff.2 ⟨major, minor, hmajor, rfl⟩⟩]
    at hspaces
  obtain ⟨method', hmethod', heq⟩ := hspaces
  obtain rfl := Option.some.inj (hmethodOf.symm.trans hmethod')
  exact heq

/-- So is a line with an odd version. -/
theorem parseRequestLine_of_oddVersion {line : Bytes} (h : OddVersion line) :
    ∃ method target protocol, ¬ IsVersion protocol ∧
      parseRequestLine line c = .ok () { c with
        requestMethod := method, requestTarget := decodeSpaces target, protocol := protocol } := by
  obtain ⟨method, name, target, major, minor, hmethod, hhead, hmajor, hminor, hspace, rfl⟩ := h
  have hmethodOf := methodOf_iff.2 hmethod
  have hspaces := parseRequestLine_spaces (c := c) target (space_notMem_name hmethod)
    (space_notMem_version hmajor hspace)
  rw [if_pos ⟨by rw [hmethodOf]; rfl, hhead, isValidProtocol_iff.2 ⟨major, minor, hmajor, rfl⟩⟩]
    at hspaces
  obtain ⟨method', -, heq⟩ := hspaces
  refine ⟨method', target, _, ?_, heq⟩
  rintro ⟨major', minor', -, hminor', hversion⟩
  have hlast := List.append_cancel_left hversion
  simp only [List.cons.injEq, and_true, true_and] at hlast
  exact hminor (hlast.2 ▸ hminor')

/-- **When the parser accepts exactly its grammar**: if the line is not a request line with a version
whose last byte is no digit. -/
theorem meetsGrammar_iff (line : Bytes) : MeetsGrammar line ↔ ¬ OddVersion line := by
  constructor
  · intro hmeets hodd
    let c := new 0 0 [] 0
    obtain ⟨hyes, hno⟩ := hmeets c
    obtain ⟨method, target, protocol, hversion, hparse⟩ := parseRequestLine_of_oddVersion (c := c) hodd
    by_cases hline : ∃ method target protocol, IsRequestLine line method target protocol
    · obtain ⟨method', target', protocol', hline⟩ := hline
      have heq := hparse.symm.trans (hyes method' target' protocol' hline)
      obtain ⟨-, -, -, hversion', -⟩ := hline
      simp only [EStateM.Result.ok.injEq, true_and, Client.mk.injEq] at heq
      obtain rfl : protocol = protocol' := by tauto
      exact hversion hversion'
    · obtain ⟨status, c', herror, -⟩ := hno hline
      cases hparse.symm.trans herror
  · intro hodd c
    refine ⟨fun method target protocol hline => parseRequestLine_of_isRequestLine hline, fun hno => ?_⟩
    rcases line_cases line with hspace | ⟨name, rest, hname, hrest, rfl | ⟨target, rfl⟩⟩
    · refine ⟨.badRequest, c, parseRequestLine_noSpace hspace, ?_, fun _ => rfl⟩
      rintro ⟨name, rest, rfl, -⟩
      exact absurd (by simp) hspace
    · obtain ⟨c', herror, -⟩ := parseRequestLine_oneSpace (c := c) hname hrest
      exact ⟨_, c', herror, status_iff _ hname⟩
    · have hspaces := parseRequestLine_spaces (c := c) target hname hrest
      by_cases haccepted : (methodOf name).isSome ∧ target.head? = some (ch '/') ∧ isValidProtocol rest
      · exfalso
        obtain ⟨hmethod, hhead, hvalid⟩ := haccepted
        obtain ⟨method, hmethod⟩ := Option.isSome_iff_exists.1 hmethod
        obtain ⟨major, minor, hmajor, rfl⟩ := isValidProtocol_iff.1 hvalid
        by_cases hminor : IsDigit minor
        · exact hno ⟨method, target, _, name, methodOf_iff.1 hmethod, hhead,
            ⟨major, minor, hmajor, hminor, rfl⟩, rfl⟩
        · refine hodd ⟨method, name, target, major, minor, methodOf_iff.1 hmethod, hhead, hmajor, hminor,
            ?_, rfl⟩
          rintro rfl
          simp at hrest
      · rw [if_neg haccepted] at hspaces
        obtain ⟨c', herror, -⟩ := hspaces
        have hstatus := status_iff (target ++ ch ' ' :: rest) hname
        rw [← List.cons_append, ← List.append_assoc] at hstatus
        exact ⟨_, c', herror, hstatus⟩

/-- The version `HTTP/1.x` is accepted. -/
theorem not_meetsGrammar_letter : ¬ MeetsGrammar (bytes "GET / HTTP/1.x") := by
  intro h
  obtain ⟨-, hno⟩ := h (new 4 3 (bytes "80") 1000)
  have hline : ¬ ∃ method target protocol,
      IsRequestLine (bytes "GET / HTTP/1.x") method target protocol := by
    rintro ⟨method, target, protocol, name, -, -, ⟨major, minor, -, hminor, rfl⟩, heq⟩
    have hlast := congrArg List.getLast? heq
    have hx : (bytes "GET / HTTP/1.x").getLast? = some (ch 'x') := by decide
    rw [hx] at hlast
    simp [List.getLast?_append, List.getLast?_cons] at hlast
    exact absurd (hlast ▸ hminor) (by decide)
  obtain ⟨status, c', herror, -⟩ := hno hline
  have hok : thrown (parseRequestLine (bytes "GET / HTTP/1.x") (new 4 3 (bytes "80") 1000)) = none := by
    decide +kernel
  rw [herror] at hok
  cases hok

end Webserv.Client
