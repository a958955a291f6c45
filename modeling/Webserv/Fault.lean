import Webserv.Utils

/-!
# Statuses and the ways a function can be left

A function of the server returns, throws a `Client::ClientException`, which `_handlePollin` catches,
or ends the server: by a failed assertion, by an exception that nothing catches, or by undefined
behaviour.
-/

namespace Webserv

/-- `Status::Status`. A CGI may name any number up to 999, which the code casts into the
enumeration, so a status is a code, with names for the listed ones. -/
structure Status where
  code : ℕ
  deriving DecidableEq, Repr

namespace Status

def ok : Status := ⟨200⟩
def movedPermanently : Status := ⟨301⟩
def movedTemporarily : Status := ⟨302⟩
def badRequest : Status := ⟨400⟩
def forbidden : Status := ⟨403⟩
def notFound : Status := ⟨404⟩
def methodNotAllowed : Status := ⟨405⟩
def requestEntityTooLarge : Status := ⟨413⟩
def internalServerError : Status := ⟨500⟩

end Status

/-- The calls that the wrappers of `Throwing.cpp` and `run` make, and that may fail. -/
inductive SystemCall
  | pipe
  | close
  | accept
  | fcntl
  | read
  | kill
  | fork
  | poll
  | socket
  deriving DecidableEq, Repr

/-- The ways a function is left other than by returning. -/
inductive Fault
  /-- `Client::ClientException`. -/
  | clientException (status : Status)
  /-- A failed `assert`. -/
  | assertion
  /-- `std::out_of_range`, from `.at()`. -/
  | outOfRange
  /-- `Throwing::SystemException`. -/
  | system (call : SystemCall)
  /-- `std::filesystem::filesystem_error`. -/
  | filesystem
  /-- Undefined behaviour: an index past the end of a vector, or `back()` of an empty one. -/
  | undefinedBehaviour
  deriving DecidableEq, Repr

end Webserv
