import ProtectedCall.Decimal.Signed
import ProtectedCall.Json.Fault
import ProtectedCall.Signature

/-!
# Errors

* `InvocationFault`, `ExecutionFault`, `ConfigFault`: the causes inside three of the errors, each
  with its wording in `reason`.
* `CallError`: everything that can go wrong with a protected call.
* `CallError.ofFault`: a text that cannot be read is an error of configuration.
* `CallError.message`: the wording of an error.
-/

namespace ProtectedCall

open Decimal Text

/-- The decimal text of a natural number. -/
def natText (n : Nat) : String := String.ofList (natDigits n)

/-- Why a call cannot be captured. -/
inductive InvocationFault where
  | targetRequired
  | methodRequired
  | foreignMethod (method : Signature) (typeName : String)
  | wrongCount (method : Signature) (given : Nat)
  | wrongArgument (index : Nat) (method : Signature) (expected : ParamKind) (given : String)
  | droppedRegistry (method : Signature)
  deriving DecidableEq, Inhabited

/-- The wording of a fault. -/
def InvocationFault.reason : InvocationFault → String
  | .targetRequired => "target is required"
  | .methodRequired => "method is required"
  | .foreignMethod method typeName =>
    "method '" ++ method.text ++ "' does not belong to '" ++ typeName ++ "'"
  | .wrongCount method given =>
    "method '" ++ method.text ++ "' takes " ++ natText method.params.length ++
      " argument(s), got " ++ natText given
  | .wrongArgument index method expected given =>
    "argument " ++ natText index ++ " of '" ++ method.text ++ "' expects " ++ expected.name ++
      ", got " ++ given
  | .droppedRegistry method =>
    "fallback of '" ++ method.text ++ "' belongs to a dropped registry"

/-- Why a method was not run, or what its run reported. -/
inductive ExecutionFault where
  | foreignInstance (method : Signature) (typeName : String)
  | wrongCount (method : Signature) (given : Nat)
  | notAnInstance (owner : String)
  | raised (reason : String)
  deriving DecidableEq, Inhabited

/-- The wording of a fault. -/
def ExecutionFault.reason : ExecutionFault → String
  | .foreignInstance method typeName =>
    "Method '" ++ method.text ++ "' cannot be invoked on an instance of '" ++ typeName ++ "'"
  | .wrongCount method given =>
    "Method '" ++ method.text ++ "' expects " ++ natText method.params.length ++
      " argument(s), got " ++ natText given
  | .notAnInstance owner => "target is not an instance of '" ++ owner ++ "'"
  | .raised reason => reason

/-- Why a configuration cannot be read. -/
inductive ConfigFault where
  | noSuchFile
  | notUnicode
  | json (fault : Json.Fault)
  deriving DecidableEq, Inhabited

/-- The wording of a fault. -/
def ConfigFault.reason : ConfigFault → String
  | .noSuchFile => "No such file or directory (os error 2)"
  | .notUnicode => "stream did not contain valid UTF-8"
  | .json fault => fault.message

/-- Everything that can go wrong with a protected call. -/
inductive CallError where
  | missingDeclaration (method : Signature)
  | noSuchFallback (owner name : String) (params : List ParamKind) (available : List String)
  | unsupportedSetting (name : String)
  | invalidSetting (setting value : String) (fault : SignedFault)
  | cyclicFallback (chain : List String)
  | invalidInvocation (fault : InvocationFault)
  | duplicateMethod (method : Signature)
  | invalidConfig (fault : ConfigFault)
  | execution (fault : ExecutionFault)
  deriving DecidableEq, Inhabited

/-- What is wrong with a text is reported as an error of configuration. -/
def CallError.ofFault (fault : Json.Fault) : CallError := .invalidConfig (.json fault)

/-- The wording of an error. -/
def CallError.message : CallError → String
  | .missingDeclaration method =>
    "Command annotation is missing for method '" ++ method.text ++ "'"
  | .noSuchFallback owner name params available =>
    "Fallback method '" ++ name ++ "(" ++ paramsText params ++ ")' not found on type '" ++ owner ++
      "', registered overloads: " ++ quoteList available
  | .unsupportedSetting name => "Unsupported thread pool property: " ++ name
  | .invalidSetting setting value fault =>
    "Invalid value '" ++ value ++ "' for property '" ++ setting ++ "': " ++ fault.message
  | .cyclicFallback chain => "Cyclic fallback chain: " ++ joinWith " -> " chain
  | .invalidInvocation fault => "Invalid invocation metadata: " ++ fault.reason
  | .duplicateMethod method => "Method '" ++ method.text ++ "' is already registered"
  | .invalidConfig fault => "Configuration error: " ++ fault.reason
  | .execution fault => "Execution error: " ++ fault.reason

/-- What running a method or a command gives. -/
abbrev Outcome := Except CallError Value

end ProtectedCall
