import ProtectedCall.Declaration
import ProtectedCall.Error
import ProtectedCall.Target

/-!
# Methods

* `Registration`: a method as declared. `β` is what bodies are written in; a runtime runs them.
* `FallbackLink`: what became of a declared fallback when the registry was frozen.
* `Method`: a registered method with its link.
* `Signature.checkArgs`: whether arguments fit the parameters.
* `Method.dispatch`: the checks in front of a body.
-/

namespace ProtectedCall

/-- The method of the same owner and parameters with another name. -/
def Signature.sibling (s : Signature) (name : String) : Signature := { s with name }

/-- The first argument that its parameter does not take. Arguments are counted from `index`. -/
def Signature.mismatch? (index : Nat) : List ParamKind → List Value →
    Option (Nat × ParamKind × Value)
  | param :: params, arg :: args =>
    if param.accepts arg then mismatch? (index + 1) params args else some (index, param, arg)
  | _, _ => none

/-- Checks the number of arguments, then each of them. -/
def Signature.checkArgs (s : Signature) (args : List Value) : Except CallError Unit :=
  if args.length ≠ s.params.length then
    .error (.invalidInvocation (.wrongCount s args.length))
  else
    match mismatch? 0 s.params args with
    | some (index, param, arg) =>
      .error (.invalidInvocation (.wrongArgument index s param arg.kindName))
    | none => .ok ()

/-- The key of a command of that name. -/
def CommandDecl.keyOr (d : CommandDecl) (default : String) : String :=
  declaredOr d.commandKey default

/-- A method as declared. -/
structure Registration (β : Type) where
  signature : Signature
  returns : ReturnShape := .value
  command : Option CommandDecl := none
  collapser : Option CollapseDecl := none
  body : β
  deriving DecidableEq, Inhabited

/-- What became of a declared fallback. -/
inductive FallbackLink where
  /-- None is declared. -/
  | undeclared
  /-- It is registered. The keys along the chain are kept when the chain comes back to one. -/
  | linked (fallback : Signature) (cycle : Option (List String))
  /-- It is not registered. Overloads of its name take other parameters. -/
  | missing (name : String) (overloads : List String)
  deriving DecidableEq, Inhabited

/-- A registered method. -/
structure Method (β : Type) extends Registration β where
  link : FallbackLink
  deriving DecidableEq, Inhabited

namespace Method

variable {ι β : Type}

/-- The full name of the type that the method belongs to. -/
def owner (m : Method β) : String := m.signature.owner

/-- The name of the method. -/
def name (m : Method β) : String := m.signature.name

/-- The number of parameters. -/
def arity (m : Method β) : Nat := m.signature.params.length

/-- The method is a command. -/
def isCommand (m : Method β) : Bool := m.command.isSome

/-- The command keys along the chain of fallbacks, if it comes back to one of them. -/
def cycle? (m : Method β) : Option (List String) :=
  match m.link with
  | .linked _ cycle => cycle
  | _ => none

/-- Checks that the method belongs to the type of a target. -/
def checkOwner (m : Method β) (t : Target ι) : Except CallError Unit :=
  if t.typeName ≠ m.owner then
    .error (.invalidInvocation (.foreignMethod m.signature t.typeName))
  else .ok ()

/-- The checks in front of a body; what the instance holds goes to the body. -/
def dispatch (m : Method β) (t : Target ι) (args : List Value) : Except CallError ι :=
  if t.typeName ≠ m.owner then
    .error (.execution (.foreignInstance m.signature t.typeName))
  else if args.length ≠ m.arity then
    .error (.execution (.wrongCount m.signature args.length))
  else
    match t.downcast? m.owner with
    | some state => .ok state
    | none => .error (.execution (.notAnInstance m.owner))

end Method

end ProtectedCall
