import Webserv.Config.Node
import Webserv.Foundations.Exec
import Webserv.Numeral

/-!
# The tokens of a configuration file

`Tokenizer` on an `std::istream`. A position in the stream is what remains to be read from there, so
`seekg` puts back what remained. `get` sets the end-of-file bit only when nothing is left to read, and
then `_getChar` throws; so the bit is never set when a token is asked for.

The loops get more fuel than there are bytes, and never use it up (`getToken_eq`): they compute `lex`.
-/

namespace Webserv

open Exec

/-- The exceptions of `Tokenizer`. -/
inductive TokenFault
  | ranOutOfNonWhitespaceCharacters
  | expectedBoolean
  | unexpectedCharacter
  deriving DecidableEq

/-- The exceptions of `JSON`. -/
inductive JSONFault
  | expectedStringKey
  | expectedColon
  | expectedComma
  | expectedObject
  | invalidInteger
  | unexpectedToken
  | duplicateKey
  | nestedTooDeep
  deriving DecidableEq

/-- How the constructor of `JSON` is left. A model of a loop can also run out of fuel. -/
inductive ParseFault
  | token (e : TokenFault)
  | json (e : JSONFault)
  | outOfFuel
  deriving DecidableEq

/-- `Token`; only integers and strings have a text. -/
inductive Token
  | booleanTrue
  | booleanFalse
  | integer (string : Bytes)
  | string (string : Bytes)
  | comma
  | colon
  | arrayOpen
  | arrayClose
  | objectOpen
  | objectClose
  deriving DecidableEq

/-- The members of `Tokenizer`, and the end-of-file bit of the stream. -/
structure Tokenizer where
  file : Bytes
  prevPos : Bytes := []
  eof : Bool := false

/-- A function of `Tokenizer`. -/
abbrev TokenizerM := EStateM ParseFault Tokenizer

/-- `isspace` in the C locale. -/
def isspace (c : UInt8) : Bool := c = 32 || (9 ≤ c && c ≤ 13)

/-- Whether a byte is a digit. -/
def isDigit (c : UInt8) : Bool := decide (Utils.IsDigit c)

namespace Tokenizer

/-- `Tokenizer::_getChar`. -/
def getChar : TokenizerM UInt8 := do
  match (← get).file with
  | [] =>
    modify fun t => { t with eof := true }
    throw (.token .ranOutOfNonWhitespaceCharacters)
  | c :: file =>
    modify fun t => { t with file := file }
    pure c

/-- The loop of `getWithoutWhitespace`. -/
def skipWhitespace : ℕ → TokenizerM UInt8
  | 0 => throw .outOfFuel
  | fuel + 1 => do
    let c ← getChar
    if isspace c = false then pure c
    else if (← get).eof = true then throw (.token .ranOutOfNonWhitespaceCharacters)
    else skipWhitespace fuel

/-- `Tokenizer::getWithoutWhitespace`. -/
def getWithoutWhitespace : TokenizerM UInt8 := do skipWhitespace ((← get).file.length + 1)

/-- The loop of `getToken` over a string. -/
def readString : ℕ → Bytes → TokenizerM Bytes
  | 0, _ => throw .outOfFuel
  | fuel + 1, string => do
    let c ← getChar
    if c = ch '"' then pure string else readString fuel (string ++ [c])

/-- The loop of `getToken` over the digits of an integer, which puts back the byte after them. -/
def readDigits : ℕ → Bytes → TokenizerM Bytes
  | 0, _ => throw .outOfFuel
  | fuel + 1, string => do
    let prevCharPos := (← get).file
    let c ← getChar
    if (← get).eof = true then pure string
    else if isDigit c = true then readDigits fuel (string ++ [c])
    else
      modify fun t => { t with file := prevCharPos }
      pure string

/-- Whether the next bytes are the given ones; it stops at the first one that is not. -/
def readWord : Bytes → TokenizerM Bool
  | [] => pure true
  | c :: word => do
    let c' ← getChar
    if c' = c then readWord word else pure false

/-- The rest of a boolean. -/
def readBoolean (word : Bytes) (token : Token) : TokenizerM Token := do
  if ← readWord word then pure token else throw (.token .expectedBoolean)

/-- `Tokenizer::getToken`, after the first byte of the token. -/
def getTokenFrom (c : UInt8) : TokenizerM Token := do
  if c = ch '"' then
    let string ← readString ((← get).file.length + 1) []
    pure (.string string)
  else if c = ch '\x7b' then pure .objectOpen
  else if c = ch '\x7d' then pure .objectClose
  else if c = ch '[' then pure .arrayOpen
  else if c = ch ']' then pure .arrayClose
  else if c = ch ',' then pure .comma
  else if c = ch ':' then pure .colon
  else if isDigit c = true then
    let string ← readDigits ((← get).file.length + 1) [c]
    pure (.integer string)
  else if c = ch 't' then readBoolean (bytes "rue") .booleanTrue
  else if c = ch 'f' then readBoolean (bytes "alse") .booleanFalse
  else throw (.token .unexpectedCharacter)

/-- `Tokenizer::getToken`. -/
def getToken : TokenizerM Token := do
  if (← get).eof = true then throw (.token .ranOutOfNonWhitespaceCharacters)
  modify fun t => { t with prevPos := t.file }
  let c ← getWithoutWhitespace
  getTokenFrom c

/-- `Tokenizer::rollBackToken`. -/
def rollBackToken : TokenizerM Unit :=
  modify fun t => { t with file := t.prevPos, eof := false }

/-! ## What the loops compute -/

/-- The first byte of a text, and what remains after it. -/
def next : Bytes → Option (UInt8 × Bytes)
  | [] => none
  | c :: rest => some (c, rest)

/-- The token that starts with a byte, and what remains after it. -/
def lexFrom (c : UInt8) (rest : Bytes) : Option (Token × Bytes) :=
  if c = ch '"' then
    (next (rest.dropWhile (· ≠ ch '"'))).map fun p => (.string (rest.takeWhile (· ≠ ch '"')), p.2)
  else if c = ch '\x7b' then some (.objectOpen, rest)
  else if c = ch '\x7d' then some (.objectClose, rest)
  else if c = ch '[' then some (.arrayOpen, rest)
  else if c = ch ']' then some (.arrayClose, rest)
  else if c = ch ',' then some (.comma, rest)
  else if c = ch ':' then some (.colon, rest)
  else if isDigit c = true then
    (next (rest.dropWhile isDigit)).map fun p => (.integer (c :: rest.takeWhile isDigit), p.1 :: p.2)
  else if c = ch 't' then
    if bytes "rue" <+: rest then some (.booleanTrue, rest.drop 3) else none
  else if c = ch 'f' then
    if bytes "alse" <+: rest then some (.booleanFalse, rest.drop 4) else none
  else none

/-- The first token of a text, and what remains after it. -/
def lex (input : Bytes) : Option (Token × Bytes) :=
  (next (input.dropWhile isspace)).bind fun p => lexFrom p.1 p.2

/-- A program reads from the stream: it returns a value and leaves what remains, or it throws a
`TokenException`. -/
def Computes {α : Type} (x : TokenizerM α) (t : Tokenizer) : Option (α × Bytes) → Prop
  | none => ∃ e t', x t = .error (.token e) t'
  | some (a, rest) => x t = .ok a { t with file := rest }

variable {α β : Type} {x : TokenizerM α} {t : Tokenizer} {r : Option (α × Bytes)} {fuel : ℕ}

theorem Computes.pure (a : α) : Computes (pure a) t (some (a, t.file)) := rfl

/-- Go on from where another program has got to. -/
theorem Computes.of_eq {y : TokenizerM α} {file : Bytes} (h : Computes y { t with file := file } r)
    (heq : x t = y { t with file := file }) : Computes x t r := by
  cases r with
  | none =>
    obtain ⟨e, t', h⟩ := h
    exact ⟨e, t', heq.trans h⟩
  | some p => exact heq.trans h

theorem Computes.bind {f : α → TokenizerM β} {g : α → Bytes → Option (β × Bytes)}
    (h : Computes x t r) (hf : ∀ a rest, Computes (f a) { t with file := rest } (g a rest)) :
    Computes (x >>= f) t (r.bind fun p => g p.1 p.2) := by
  cases r with
  | none =>
    obtain ⟨e, t', h⟩ := h
    exact ⟨e, t', bind_of_error h⟩
  | some p => exact (hf p.1 p.2).of_eq (bind_of_ok h)

theorem Computes.map {f : α → β} (h : Computes x t r) :
    Computes (x >>= fun a => Pure.pure (f a)) t (r.map fun p => (f p.1, p.2)) := by
  cases r with
  | none =>
    obtain ⟨e, t', h⟩ := h
    exact ⟨e, t', bind_of_error h⟩
  | some p => exact bind_of_ok h

theorem Computes.ite {p : Prop} [Decidable p] {y : TokenizerM α} {r' : Option (α × Bytes)}
    (hx : Computes x t r) (hy : Computes y t r') :
    Computes (if p then x else y) t (if p then r else r') := by
  split
  · exact hx
  · exact hy

theorem getChar_eq (t : Tokenizer) : Computes getChar t (next t.file) := by
  obtain ⟨file, prevPos, eof⟩ := t
  cases file with
  | nil => exact ⟨_, _, rfl⟩
  | cons c file => rfl

theorem getChar_cons {c : UInt8} {file : Bytes} (h : t.file = c :: file) :
    getChar t = .ok c { t with file := file } := by
  have hchar := getChar_eq t
  rw [h] at hchar
  exact hchar

theorem bind_getChar_nil (f : UInt8 → TokenizerM α) (h : t.file = []) :
    Computes (getChar >>= f) t none := by
  have hchar := getChar_eq t
  rw [h] at hchar
  obtain ⟨e, t', hchar⟩ := hchar
  exact ⟨e, t', bind_of_error hchar⟩

theorem skipWhitespace_eq (heof : t.eof = false) (hfuel : t.file.length < fuel) :
    Computes (skipWhitespace fuel) t (next (t.file.dropWhile isspace)) := by
  induction fuel generalizing t with
  | zero => omega
  | succ fuel ih =>
    cases hfile : t.file with
    | nil => exact bind_getChar_nil _ hfile
    | cons c file =>
      rw [hfile, List.length_cons] at hfuel
      cases hspace : isspace c with
      | false =>
        rw [List.dropWhile_cons_of_neg (by simp [hspace])]
        refine (Computes.pure c).of_eq ?_
        rw [skipWhitespace, bind_of_ok (getChar_cons hfile), run_ite, if_pos hspace]
      | true =>
        rw [List.dropWhile_cons_of_pos hspace]
        refine (ih (t := { t with file := file }) heof (Nat.lt_of_succ_lt_succ hfuel)).of_eq ?_
        rw [skipWhitespace, bind_of_ok (getChar_cons hfile), run_ite, if_neg (by simp [hspace]),
          run_bind, run_get]
        dsimp only
        rw [run_ite, if_neg (by simp [heof])]

theorem readString_eq (string : Bytes) (hfuel : t.file.length < fuel) :
    Computes (readString fuel string) t ((next (t.file.dropWhile (· ≠ ch '"'))).map fun p =>
      (string ++ t.file.takeWhile (· ≠ ch '"'), p.2)) := by
  induction fuel generalizing t string with
  | zero => omega
  | succ fuel ih =>
    cases hfile : t.file with
    | nil => exact bind_getChar_nil _ hfile
    | cons c file =>
      rw [hfile, List.length_cons] at hfuel
      by_cases hquote : c = ch '"'
      · rw [List.dropWhile_cons_of_neg (by simpa using hquote),
          List.takeWhile_cons_of_neg (by simpa using hquote), List.append_nil]
        refine (Computes.pure string).of_eq ?_
        rw [readString, bind_of_ok (getChar_cons hfile), run_ite, if_pos hquote]
      · rw [List.dropWhile_cons_of_pos (by simpa using hquote),
          List.takeWhile_cons_of_pos (by simpa using hquote), List.append_cons]
        refine (ih (t := { t with file := file }) _ (Nat.lt_of_succ_lt_succ hfuel)).of_eq ?_
        rw [readString, bind_of_ok (getChar_cons hfile), run_ite, if_neg hquote]

theorem readDigits_eq (string : Bytes) (heof : t.eof = false) (hfuel : t.file.length < fuel) :
    Computes (readDigits fuel string) t ((next (t.file.dropWhile isDigit)).map fun p =>
      (string ++ t.file.takeWhile isDigit, p.1 :: p.2)) := by
  induction fuel generalizing t string with
  | zero => omega
  | succ fuel ih =>
    have hstart : readDigits (fuel + 1) string t = (getChar >>= fun c => do
        if (← get).eof = true then pure string
        else if isDigit c = true then readDigits fuel (string ++ [c])
        else
          modify fun t' => { t' with file := t.file }
          pure string) t := rfl
    cases hfile : t.file with
    | nil => exact bind_getChar_nil _ hfile
    | cons c file =>
      rw [hfile, List.length_cons] at hfuel
      rw [bind_of_ok (getChar_cons hfile), run_bind, run_get] at hstart
      dsimp only at hstart
      rw [run_ite, if_neg (by simp [heof]), run_ite] at hstart
      cases hdigit : isDigit c with
      | false =>
        rw [List.dropWhile_cons_of_neg (by simp [hdigit]),
          List.takeWhile_cons_of_neg (by simp [hdigit]), List.append_nil]
        rw [if_neg (by simp [hdigit]), hfile] at hstart
        exact hstart
      | true =>
        rw [List.dropWhile_cons_of_pos hdigit, List.takeWhile_cons_of_pos hdigit, List.append_cons]
        rw [if_pos hdigit] at hstart
        exact (ih (t := { t with file := file }) _ heof (Nat.lt_of_succ_lt_succ hfuel)).of_eq hstart

/-- The rest of a boolean is read as a whole, or it is none. -/
theorem readBoolean_eq (word : Bytes) (token : Token) (t : Tokenizer) :
    Computes (readBoolean word token) t
      (if word <+: t.file then some (token, t.file.drop word.length) else none) := by
  induction word generalizing t with
  | nil => exact Computes.pure token
  | cons c word ih =>
    cases hfile : t.file with
    | nil =>
      rw [if_neg (by simp)]
      obtain ⟨e, t', h⟩ := bind_getChar_nil (fun c' => if c' = c then readWord word else pure false) hfile
      exact ⟨e, t', bind_of_error h⟩
    | cons c' file =>
      have hstart : readBoolean (c :: word) token t = ((if c' = c then readWord word else pure false) >>=
          fun accepted => if accepted then pure token else throw (.token .expectedBoolean))
            { t with file := file } := by
        rw [readBoolean, run_bind, readWord, bind_of_ok (getChar_cons hfile)]
        rfl
      by_cases hc : c' = c
      · subst hc
        rw [if_pos rfl] at hstart
        simp only [List.cons_prefix_cons, true_and, List.length_cons, List.drop_succ_cons]
        exact (ih { t with file := file }).of_eq hstart
      · rw [if_neg fun h => hc (List.cons_prefix_cons.1 h).1.symm]
        rw [if_neg hc] at hstart
        exact ⟨_, _, hstart⟩

theorem getTokenFrom_eq (c : UInt8) (heof : t.eof = false) :
    Computes (getTokenFrom c) t (lexFrom c t.file) := by
  have hstring : Computes (do
      let string ← readString ((← get).file.length + 1) []
      pure (.string string)) t ((next (t.file.dropWhile (· ≠ ch '"'))).map fun p =>
        (Token.string (t.file.takeWhile (· ≠ ch '"')), p.2)) := by
    have h := (readString_eq [] (Nat.lt_succ_self t.file.length)).map (f := Token.string)
    rw [Option.map_map] at h
    exact h
  have hinteger : Computes (do
      let string ← readDigits ((← get).file.length + 1) [c]
      pure (.integer string)) t ((next (t.file.dropWhile isDigit)).map fun p =>
        (Token.integer (c :: t.file.takeWhile isDigit), p.1 :: p.2)) := by
    have h := (readDigits_eq [c] heof (Nat.lt_succ_self t.file.length)).map (f := Token.integer)
    rw [Option.map_map] at h
    exact h
  refine .ite hstring ?_
  refine .ite (.pure _) (.ite (.pure _) (.ite (.pure _) (.ite (.pure _) (.ite (.pure _) ?_))))
  refine .ite (.pure _) (.ite hinteger (.ite ?_ (.ite ?_ ⟨_, _, rfl⟩)))
  · exact readBoolean_eq (bytes "rue") .booleanTrue t
  · exact readBoolean_eq (bytes "alse") .booleanFalse t

/-- **`getToken` computes `lex`**: what it does after it has noted where the token starts. -/
theorem getToken_eq (heof : t.eof = false) :
    ∃ x : TokenizerM Token, getToken t = x { t with prevPos := t.file } ∧
      Computes x { t with prevPos := t.file } (lex t.file) := by
  refine ⟨getWithoutWhitespace >>= getTokenFrom, ?_, ?_⟩
  · rw [getToken, run_bind, run_get]
    dsimp only
    rw [if_neg (by simp [heof])]
    rfl
  · have hskip : Computes getWithoutWhitespace { t with prevPos := t.file }
        (next (t.file.dropWhile isspace)) :=
      skipWhitespace_eq (t := { t with prevPos := t.file }) heof (Nat.lt_succ_self _)
    exact hskip.bind fun c rest =>
      getTokenFrom_eq (t := { t with prevPos := t.file, file := rest }) c heof

theorem getToken_of_lex {token : Token} {rest : Bytes} (heof : t.eof = false)
    (h : lex t.file = some (token, rest)) :
    getToken t = .ok token { file := rest, prevPos := t.file, eof := false } := by
  obtain ⟨x, hx, hcomputes⟩ := getToken_eq heof
  rw [h] at hcomputes
  rw [hx, hcomputes, heof]

theorem getToken_of_lex_eq_none (heof : t.eof = false) (h : lex t.file = none) :
    ∃ e t', getToken t = .error (.token e) t' := by
  obtain ⟨x, hx, hcomputes⟩ := getToken_eq heof
  rw [h] at hcomputes
  rw [hx]
  exact hcomputes

end Tokenizer

end Webserv
