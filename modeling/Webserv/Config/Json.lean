import Webserv.Config.Tokenizer

/-!
# Parsing a configuration file

`JSON`: its constructor reads an object. `_parseArray` and `_parseObject` call each other, in loops that
read a token ahead; integers, strings and booleans are read again after the tokenizer was rolled back.
Every round of a loop reads a token, so fuel for twice the bytes is enough (`JSON.enough`).
-/

namespace Webserv

open Exec Utils

/-- `token.string`. -/
def Token.text : Token → Bytes
  | .integer s => s
  | .string s => s
  | _ => []

/-- The members of `JSON` that change while it parses. -/
structure JSON where
  tokenizer : Tokenizer
  depth : ℕ := 0

/-- A function of `JSON`. -/
abbrev JSONM := EStateM ParseFault JSON

namespace JSON

/-- Run a function of the tokenizer. -/
def onTokenizer {α : Type} (f : TokenizerM α) : JSONM α := fun j =>
  match f j.tokenizer with
  | .ok a t => .ok a { j with tokenizer := t }
  | .error e t => .error e { j with tokenizer := t }

/-- `_tokenizer.getToken()`. -/
def getToken : JSONM Token := onTokenizer Tokenizer.getToken

/-- `_tokenizer.rollBackToken()`. -/
def rollBackToken : JSONM Unit := onTokenizer Tokenizer.rollBackToken

/-- `JSON::_parseBoolean`. -/
def parseBoolean : JSONM Node := do
  let token ← getToken
  pure (.boolean (token = .booleanTrue))

/-- `JSON::_parseInteger`. -/
def parseInteger : JSONM Node := do
  let token ← getToken
  match parseNumber token.text (sizeModulus - 1) with
  | (false, _) => throw (.json .invalidInteger)
  | (true, integer) => pure (.integer integer)

/-- `JSON::_parseString`. -/
def parseString : JSONM Node := do
  let token ← getToken
  pure (.string token.text)

/-- The beginning of `_parseArray` and of `_parseObject`. -/
def enter (maxDepth : ℕ) : JSONM Unit := do
  modify fun j => { j with depth := j.depth + 1 }
  if maxDepth < (← get).depth then throw (.json .nestedTooDeep)

/-- The end of `_parseArray` and of `_parseObject`. -/
def leave : JSONM Unit := modify fun j => { j with depth := j.depth - 1 }

/-- The `switch` of `_parseArray`, given what it calls for arrays and objects. -/
def parseElement (parseArray parseObject : JSONM Node) : Token → JSONM Node
  | .integer _ => do
    rollBackToken
    parseInteger
  | .string _ => do
    rollBackToken
    parseString
  | .arrayOpen => parseArray
  | .objectOpen => parseObject
  | _ => throw (.json .unexpectedToken)

/-- The `switch` of `_parseObject`, given what it calls for arrays and objects. -/
def parseValue (parseArray parseObject : JSONM Node) : Token → JSONM Node
  | .booleanTrue | .booleanFalse => do
    rollBackToken
    parseBoolean
  | .integer _ => do
    rollBackToken
    parseInteger
  | .string _ => do
    rollBackToken
    parseString
  | .arrayOpen => parseArray
  | .objectOpen => parseObject
  | _ => throw (.json .unexpectedToken)

variable (maxDepth : ℕ)

mutual

/-- `JSON::_parseArray`. -/
def parseArray : ℕ → JSONM Node
  | 0 => throw .outOfFuel
  | fuel + 1 => do
    enter maxDepth
    let token ← getToken
    let array ← (if token = .arrayClose then pure [] else parseElements fuel token [])
    leave
    pure (.array array)

/-- The loop of `_parseArray`, with the first token of an element. -/
def parseElements : ℕ → Token → List Node → JSONM (List Node)
  | 0, _, _ => throw .outOfFuel
  | fuel + 1, token, array => do
    let element ← parseElement (parseArray fuel) (parseObject fuel) token
    let token ← getToken
    if token = .arrayClose then pure (array ++ [element])
    else if token = .comma then
      let token ← getToken
      parseElements fuel token (array ++ [element])
    else throw (.json .expectedComma)

/-- `JSON::_parseObject`. -/
def parseObject : ℕ → JSONM Node
  | 0 => throw .outOfFuel
  | fuel + 1 => do
    enter maxDepth
    let keyToken ← getToken
    let object ← (if keyToken = .objectClose then pure [] else parseMembers fuel keyToken [])
    leave
    pure (.object object)

/-- The loop of `_parseObject`, with the token of a key. -/
def parseMembers : ℕ → Token → Members → JSONM Members
  | 0, _, _ => throw .outOfFuel
  | fuel + 1, .string key, object => do
    if object.contains key = true then throw (.json .duplicateKey)
    else
      let token ← getToken
      if token ≠ .colon then throw (.json .expectedColon)
      else
        let valueToken ← getToken
        let value ← parseValue (parseArray fuel) (parseObject fuel) valueToken
        let keyToken ← getToken
        if keyToken = .objectClose then pure (object.emplace key value)
        else if keyToken = .comma then
          let keyToken ← getToken
          parseMembers fuel keyToken (object.emplace key value)
        else throw (.json .expectedComma)
  | _ + 1, _, _ => throw (.json .expectedStringKey)

end

/-- The body of the constructor of `JSON`. -/
def parseRoot (fuel : ℕ) : JSONM Node := do
  let token ← getToken
  if token ≠ .objectOpen then throw (.json .expectedObject) else parseObject maxDepth fuel

/-- The constructor of `JSON`: the root, or the exception. -/
def parse (fuel : ℕ) (file : Bytes) : Except ParseFault Node :=
  match parseRoot maxDepth fuel { tokenizer := { file } } with
  | .ok root _ => .ok root
  | .error e _ => .error e

end JSON

end Webserv
