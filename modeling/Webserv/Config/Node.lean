import Webserv.Config

/-!
# JSON trees

`Node`, the tree that `JSON` builds and `Config` reads. An object is an `std::map`: the list of its
members, in the order of their keys.
-/

namespace Webserv

/-- The exceptions that `Config` and `Node` throw. -/
inductive ConfigFault
  | getBoolean | getInteger | getString | getArray | getObject
  | expectedConnectionQueueLength
  | connectionQueueLengthIsGreaterThanIntMax
  | connectionQueueLengthIsLessThanOne
  | expectedClientMaxBodySize
  | expectedPollTimeoutMs
  | pollTimeoutMsIsLessThan1
  | pollTimeoutMsIsGreaterThan10000
  | expectedClientTimeoutMs
  | clientTimeoutMsIsLessThan1
  | clientTimeoutMsIsGreaterThan10000
  | expectedServers
  | expectedListen
  | expectedServerNames
  | expectedLocations
  | expectedErrorPages
  | listenColonIsRequired
  | missingAddressBeforePortColon
  | noPortAfterColon
  | needEitherRootOrRedirect
  | cantHaveOtherOtherPropertiesWithRedirect
  | cantHaveBothIndexAndAutoindex
  | locationNeedsToStartWithSlash
  | invalidErrorPageCode
  | unknownKey
  | getAddrInfo
  | duplicateLocationInServer
  | conflictingServerNameOnListen
  deriving DecidableEq

/-- `Node`. -/
inductive Node
  | boolean (b : Bool)
  | integer (n : ℕ)
  | string (s : Bytes)
  | array (elements : List Node)
  | object (members : List (Bytes × Node))

/-- `std::map<std::string, Node>`. -/
abbrev Members := List (Bytes × Node)

namespace Members

variable (members : Members) (key : Bytes)

/-- `contains` of a map. -/
def contains : Bool := (members.lookup key).isSome

/-- `emplace` of a map: a key that is there keeps its value. -/
def emplace (value : Node) : Members → Members
  | [] => [(key, value)]
  | (k, v) :: members =>
    if key < k then (key, value) :: (k, v) :: members
    else if key = k then (k, v) :: members
    else (k, v) :: emplace value members

end Members

namespace Node

/-- `Node::getBoolean`. -/
def getBoolean : Node → Except ConfigFault Bool
  | .boolean b => .ok b
  | _ => .error .getBoolean

/-- `Node::getInteger`. -/
def getInteger : Node → Except ConfigFault ℕ
  | .integer n => .ok n
  | _ => .error .getInteger

/-- `Node::getString`. -/
def getString : Node → Except ConfigFault Bytes
  | .string s => .ok s
  | _ => .error .getString

/-- `Node::getArray`. -/
def getArray : Node → Except ConfigFault (List Node)
  | .array elements => .ok elements
  | _ => .error .getArray

/-- `Node::getObject`. -/
def getObject : Node → Except ConfigFault Members
  | .object members => .ok members
  | _ => .error .getObject

variable {node : Node}

theorem getBoolean_ok {b : Bool} (h : node.getBoolean = .ok b) : node = .boolean b := by
  cases node <;> cases h
  rfl

theorem getInteger_ok {n : ℕ} (h : node.getInteger = .ok n) : node = .integer n := by
  cases node <;> cases h
  rfl

theorem getString_ok {s : Bytes} (h : node.getString = .ok s) : node = .string s := by
  cases node <;> cases h
  rfl

theorem getArray_ok {elements : List Node} (h : node.getArray = .ok elements) :
    node = .array elements := by
  cases node <;> cases h
  rfl

theorem getObject_ok {members : Members} (h : node.getObject = .ok members) :
    node = .object members := by
  cases node <;> cases h
  rfl

end Node

end Webserv
