import ProtectedCall.Json.Record
import ProtectedCall.Signature

/-!
# Kinds and modes as JSON

Each of these types is written as the name of one of its members and read as a choice.

* `choiceName`: the name of a member.
* `ParamKind.read`, `ReturnShape.read`, `ExecutionMode.read`: the readers.
-/

namespace ProtectedCall

open Json

/-- The name that a table of choices gives a member. -/
def choiceName {α : Type} [DecidableEq α] (choices : List (String × α)) (x : α) : String :=
  ((choices.find? (·.2 = x)).map (·.1)).getD ""

namespace ParamKind

/-- The names of parameter kinds. -/
def choices : List (String × ParamKind) :=
  [("Integer", .integer), ("Float", .float), ("Text", .text), ("Boolean", .boolean),
    ("List", .list), ("Any", .any)]

/-- The document of a parameter kind. -/
def toJson (k : ParamKind) : Json := .string (choiceName choices k)

/-- Reads a parameter kind. -/
def read : Reader ParamKind := readChoice choices

end ParamKind

namespace ReturnShape

/-- The names of return shapes. -/
def choices : List (String × ReturnShape) :=
  [("Value", .value), ("Future", .future), ("Stream", .stream)]

/-- The document of a return shape. -/
def toJson (s : ReturnShape) : Json := .string (choiceName choices s)

/-- Reads a return shape. -/
def read : Reader ReturnShape := readChoice choices

end ReturnShape

namespace ExecutionMode

/-- The names of execution modes. -/
def choices : List (String × ExecutionMode) :=
  [("Synchronous", .synchronous), ("Asynchronous", .asynchronous), ("Observable", .observable)]

/-- The document of an execution mode. -/
def toJson (m : ExecutionMode) : Json := .string (choiceName choices m)

/-- Reads an execution mode. -/
def read : Reader ExecutionMode := readChoice choices

end ExecutionMode

end ProtectedCall
