import ProtectedCall.Value

/-!
# Signatures

* `ParamKind`: what a parameter takes, and `ParamKind.accepts`.
* `Signature`: owner, name and parameters; together they identify a method.
* `paramsText`, `Signature.text`: how messages name them.
* `ReturnShape`, `ExecutionMode`: how a method answers, and how its command runs.
-/

namespace ProtectedCall

open Text

/-- What a parameter takes. -/
inductive ParamKind where
  | integer
  | float
  | text
  | boolean
  | list
  | any
  deriving DecidableEq, Inhabited

namespace ParamKind

/-- All kinds of parameters. -/
def all : List ParamKind := [.integer, .float, .text, .boolean, .list, .any]

/-- The name of a kind in messages. -/
def name : ParamKind → String
  | .integer => "INTEGER"
  | .float => "FLOAT"
  | .text => "TEXT"
  | .boolean => "BOOLEAN"
  | .list => "LIST"
  | .any => "ANY"

/-- The kind of that name. -/
def ofName? (name : String) : Option ParamKind := all.find? (·.name == name)

/-- A parameter takes null and the values of its kind; `any` takes all values. -/
def accepts : ParamKind → Value → Bool
  | _, .null => true
  | .any, _ => true
  | .integer, .integer _ => true
  | .float, .float _ => true
  | .text, .text _ => true
  | .boolean, .boolean _ => true
  | .list, .list _ => true
  | _, _ => false

end ParamKind

/-- The names of parameters, divided by commas. -/
def paramsText (params : List ParamKind) : String := joinWith ", " (params.map ParamKind.name)

/-- What identifies a method. Methods of one name with other parameters are other methods. -/
structure Signature where
  owner : String
  name : String
  params : List ParamKind
  deriving DecidableEq, Inhabited

/-- How messages name a method. -/
def Signature.text (s : Signature) : String :=
  s.owner ++ "::" ++ s.name ++ "(" ++ paramsText s.params ++ ")"

/-- How a method answers: with a value, with a value to wait for, or with a stream of values. -/
inductive ReturnShape where
  | value
  | future
  | stream
  deriving DecidableEq, Inhabited

/-- How an engine runs a command. -/
inductive ExecutionMode where
  | synchronous
  | asynchronous
  | observable
  deriving DecidableEq, Inhabited

/-- The mode that suits a shape. -/
def ExecutionMode.ofShape : ReturnShape → ExecutionMode
  | .value => .synchronous
  | .future => .asynchronous
  | .stream => .observable

end ProtectedCall
