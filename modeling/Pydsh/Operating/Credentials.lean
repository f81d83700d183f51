import Pydsh.Lib.Dict

/-!
# Credentials

`operating/credentials.py`: what is behind a reference, from the store first and the environment beneath it.
-/

namespace Pydsh

/-- A character of a ref, other than its first one. -/
def isRefChar (c : Char) : Bool := ('A' ≤ c && c ≤ 'Z') || ('a' ≤ c && c ≤ 'z') || ('0' ≤ c && c ≤ '9') || c == '_'

/-- `REF_PATTERN.fullmatch`. -/
def isRef (text : String) : Bool :=
  match text.toList with
  | [] => false
  | c :: cs => isRefChar c && !('0' ≤ c && c ≤ '9') && cs.all isRefChar

/-- The text of a `CredentialRefError`. -/
def badRef (repr : String → String) (ref : String) : String :=
  s!"credential ref {repr ref} is not a legal name (it must match [A-Za-z_][A-Za-z0-9_]*)"

/-- Where a value came from. -/
inductive CredentialSource where
  | store | env
  deriving DecidableEq

/-- `Credentials`, with the environment of the process. -/
structure Credentials where
  store : Dict String String := .empty
  environ : Dict String String := .empty

/-- What `describe` tells. -/
structure CredentialInfo where
  ref : String
  available : Bool
  source : Option CredentialSource
  deriving DecidableEq

namespace Credentials

/-- `resolve`, of a legal ref. -/
def resolve (c : Credentials) (ref : String) : Option (String × CredentialSource) :=
  match c.store.get? ref with
  | some value => some (value, .store)
  | none => (c.environ.get? ref).map (fun value => (value, .env))

/-- `describe`, of a legal ref. -/
def describe (c : Credentials) (ref : String) : CredentialInfo :=
  match c.resolve ref with
  | none => { ref, available := false, source := none }
  | some (_, source) => { ref, available := true, source := some source }

end Credentials

end Pydsh
