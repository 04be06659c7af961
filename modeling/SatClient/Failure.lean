import SatClient.Code
import SatClient.EntryPoint

/-!
# Failures

* `Failure`: why an operation of the library has no result
* `Violation`: the answers that the solver interface does not permit
* `Absence`: why a library could not be loaded
* `Failure.message`
-/

namespace SatClient

/-- An answer of a solver which the interface does not permit. -/
inductive Violation where
  | nullSignature
  | value (given asked : Int32)
  | failed (given asked : Int32)
  | other (description : String)
  deriving DecidableEq, Repr

def Violation.description : Violation → String
  | nullSignature => EntryPoint.signature.name ++ " gave a null signature"
  | value given asked =>
    EntryPoint.val.name ++ " gave " ++ toString given.toInt ++ " for literal " ++
      toString asked.toInt
  | failed given asked =>
    EntryPoint.failed.name ++ " gave " ++ toString given.toInt ++ " for literal " ++
      toString asked.toInt
  | other description => description

/-- Why a library could not be loaded. -/
inductive Absence where
  /-- The library cannot be opened; the detail is the platform's. -/
  | library (detail : String)
  /-- A function is not found; the detail is that of whoever looked for it. -/
  | symbol (name : String) (detail : String)
  /-- A function is found at address zero. -/
  | null (name : String)
  | other (detail : String)
  deriving DecidableEq, Repr

def Absence.detail : Absence → String
  | library detail => "could not open the library: " ++ detail
  | symbol name detail => "symbol " ++ name ++ " not found: " ++ detail
  | null name => "symbol " ++ name ++ " not found: the address is null"
  | other detail => detail

/-- Why an operation of the library has no result. -/
inductive Failure where
  /-- A function of the solver returned a code other than zero. -/
  | callFailed (operation : String) (code : Code)
  | unknownOption (name : String)
  | violation (v : Violation)
  /-- There are more literals than fit the length of a buffer. -/
  | tooLong (length : Nat)
  | notLoaded (path : String) (reason : Absence)
  deriving DecidableEq, Repr

def Failure.message : Failure → String
  | callFailed operation code => operation ++ " failed with " ++ code.text
  | unknownOption name => "the solver has no option named '" ++ name ++ "'"
  | violation v => "solver protocol violation: " ++ v.description
  | tooLong length => toString length ++ " literals exceed the limit of the API"
  | notLoaded path reason => "failed to load " ++ path ++ ": " ++ reason.detail

end SatClient
