import ProtectedCall.Error
import ProtectedCall.Signature.Json

/-!
# Resolution policy

* `MissingFallback`: what becomes of a declared fallback that is not registered.
* `Policy`: the options of a resolver.
* `Policy.ofJsonText`, `Policy.ofFile`: a policy as configured. Options that are not given keep
  their defaults.
-/

namespace ProtectedCall

open Json

/-- What becomes of a declared fallback that is not registered: resolution fails, or goes on as if
none were declared. -/
inductive MissingFallback where
  | fail
  | ignore
  deriving DecidableEq, Inhabited

namespace MissingFallback

/-- The names of the two rules. -/
def choices : List (String × MissingFallback) := [("fail", .fail), ("ignore", .ignore)]

/-- The document of a rule. -/
def toJson (m : MissingFallback) : Json := .string (choiceName choices m)

/-- Reads a rule. -/
def read : Reader MissingFallback := readChoice choices

end MissingFallback

/-- The options of a resolver: whether chains of fallbacks that come back to a command key are
refused, and what becomes of missing fallbacks. -/
structure Policy where
  detectCycles : Bool := true
  missingFallback : MissingFallback := .fail
  deriving DecidableEq, Inhabited

namespace Policy

/-- Turns the refusal of cycles on or off. -/
def withDetectCycles (p : Policy) (on : Bool) : Policy := { p with detectCycles := on }

/-- Sets the rule for missing fallbacks. -/
def withMissingFallback (p : Policy) (rule : MissingFallback) : Policy :=
  { p with missingFallback := rule }

/-- The fields of a policy. -/
def form : RecordForm Policy where
  name := "ResolverConfig"
  fields :=
    [.of "detect_cyclic_fallbacks" readBoolean fun p x => { p with detectCycles := x },
      .of "missing_fallback" MissingFallback.read fun p x => { p with missingFallback := x }]
  initial := {}

/-- Reads a policy. -/
def read : Reader Policy := readRecord form

/-- The document of a policy. -/
def toJson (p : Policy) : Json :=
  .object
    [("detect_cyclic_fallbacks", .boolean p.detectCycles),
      ("missing_fallback", p.missingFallback.toJson)]

/-- The policy of a JSON text. -/
def ofJsonText (text : String) : Except CallError Policy :=
  (readWhole read text).mapError .ofFault

/-- The policy of a file, given by its bytes if there is such a file. -/
def ofFile : Option ByteArray → Except CallError Policy
  | none => .error (.invalidConfig .noSuchFile)
  | some bytes =>
    match String.fromUTF8? bytes with
    | none => .error (.invalidConfig .notUnicode)
    | some text => ofJsonText text

end Policy

end ProtectedCall
