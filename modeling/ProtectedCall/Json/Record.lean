import ProtectedCall.Json.Document
import ProtectedCall.Json.Skip

/-!
# Reading what is expected

* `readString`, `readBoolean`, `readList`: a value of one kind.
* `readChoice`: one of several names, alone or as the only member of an object, with null.
* `Field`, `RecordForm`, `readRecord`: a record, as an object or as the list of its fields in order.
* `wrongKind`: the fault for a value of another kind. A string, a number or a word is read in full
  first, and its own fault wins; a list or an object is not entered.

An object may give the fields of a record in any order, each at most once. Unknown members are
stepped over.
-/

namespace ProtectedCall.Json

open Decimal

/-- A number in the place of something else. -/
def Found.ofNumber : Number → Found
  | .integer n => .integer n
  | .float x => (floatNumeral? x).elim .null .float

/-- The fault for a value of a kind that was not expected. -/
def wrongKind (expected : String) (cs : List Char) : Fault :=
  let found : Except Fault Found := match cs with
    | [] => .error .endInValue
    | c :: rest =>
      if c = 'n' then (word "ull".toList rest).map fun _ => .null
      else if c = 't' then (word "rue".toList rest).map fun _ => .boolean true
      else if c = 'f' then (word "alse".toList rest).map fun _ => .boolean false
      else if c = '-' || c.isDigit then
        (readNumber (c :: rest)).map fun ((_, value), _) => .ofNumber value
      else if c = '"' then (stringBody rest).map fun (value, _) => .string value
      else if c = '[' then .ok .sequence
      else if c = '\x7b' then .ok .map
      else .error .expectedValue
  match found with
  | .ok found => .wrongKind found expected
  | .error fault => fault

/-! ## Values of one kind -/

/-- Reads a string. -/
def readString : Reader String := fun cs =>
  match skipBlanks cs with
  | '"' :: rest => stringBody rest
  | cs => .error (wrongKind "a string" cs)

/-- Reads a truth value. -/
def readBoolean : Reader Bool := fun cs =>
  match skipBlanks cs with
  | 't' :: rest => do return (true, ← word "rue".toList rest)
  | 'f' :: rest => do return (false, ← word "alse".toList rest)
  | cs => .error (wrongKind "a boolean" cs)

/-- Reads null. -/
def readNull (cs : List Char) : Except Fault (List Char) :=
  match skipBlanks cs with
  | 'n' :: rest => word "ull".toList rest
  | cs => .error (wrongKind "unit" cs)

/-- Reads a list. -/
def readList {α : Type} (item : Reader α) : Reader (List α) := fun cs =>
  match skipBlanks cs with
  | '[' :: rest => items item rest
  | cs => .error (wrongKind "a sequence" cs)

/-! ## Choices -/

/-- What a name chooses. -/
def choose {α : Type} (choices : List (String × α)) (name : String) : Except Fault α :=
  match choices.lookup name with
  | some x => .ok x
  | none => .error (.unknownChoice name (choices.map (·.1)))

/-- Reads one of several names, alone or as the name of the only member of an object whose value
is null. -/
def readChoice {α : Type} (choices : List (String × α)) : Reader α := fun cs =>
  match skipBlanks cs with
  | [] => .error .endInValue
  | '"' :: rest => do
    let (name, rest) ← stringBody rest
    return (← choose choices name, rest)
  | '\x7b' :: rest => do
    let (more, rest) ← hasMember true rest
    if more then
      let (name, rest) ← stringBody rest
      let x ← choose choices name
      let rest ← readNull (← colon rest)
      match skipBlanks rest with
      | [] => .error .endInObject
      | c :: rest => if c = '\x7d' then return (x, rest) else .error .expectedValue
    else .error .expectedValue
  | _ => .error .expectedValue

/-! ## Records -/

/-- A field of a record `σ`: its name and how its value is read into the record. -/
structure Field (σ : Type) where
  name : String
  read : σ → Reader σ

/-- The field that one reader fills. -/
def Field.of {σ α : Type} (name : String) (value : Reader α) (store : σ → α → σ) : Field σ where
  name := name
  read record cs := do
    let (x, rest) ← value cs
    return (store record x, rest)

/-- A record: what it is called, its fields in order, what it holds before any field is read, and
whether all fields must be given. -/
structure RecordForm (σ : Type) where
  name : String
  fields : List (Field σ)
  initial : σ
  allRequired : Bool := false

namespace RecordForm

variable {σ : Type} (form : RecordForm σ)

/-- What stands for the record in a fault. -/
def expected : String := "struct " ++ form.name

/-- Reads the fields of a record given as a list, in order. `index` fields are read already. -/
def readInOrder : List (Field σ) → Nat → σ → Reader σ
  | [], _, record, cs => .ok (record, cs)
  | field :: fields, index, record, cs => do
    let (more, cs) ← hasItem (index == 0) cs
    if more then
      let (record, cs) ← field.read record cs
      readInOrder fields (index + 1) record cs
    else if form.allRequired then
      .error (.wrongLength index (form.expected ++ " with " ++
        (Numeral.ofInt form.fields.length).text ++ " elements"))
    else return (record, cs)

/-- The first field that must be given and is not among the names seen. -/
def missing? (seen : List String) : Option String :=
  if form.allRequired then (form.fields.map (·.name)).find? fun name => !seen.contains name
  else none

/-- Reads the members of a record given as an object. Every member takes a character. -/
def readMembers : Nat → Bool → List String → σ → Reader σ
  | 0, _, _, _, _ => .error .endInObject
  | count + 1, first, seen, record, cs => do
    let (more, cs) ← hasMember first cs
    if more then
      let (name, cs) ← stringBody cs
      match form.fields.find? (·.name == name) with
      | some field =>
        if seen.contains name then .error (.duplicateField name)
        else
          let (record, cs) ← field.read record (← colon cs)
          readMembers count false (name :: seen) record cs
      | none => readMembers count false seen record (← skipValue (← colon cs))
    else match form.missing? seen with
      | some name => .error (.missingField name)
      | none => return (record, cs)

end RecordForm

/-- Reads a record. -/
def readRecord {σ : Type} (form : RecordForm σ) : Reader σ := fun cs =>
  match skipBlanks cs with
  | '[' :: rest => do
    let (record, rest) ← form.readInOrder form.fields 0 form.initial rest
    return (record, ← closeList rest)
  | '\x7b' :: rest => form.readMembers (rest.length + 1) true [] form.initial rest
  | cs => .error (wrongKind form.expected cs)

end ProtectedCall.Json
