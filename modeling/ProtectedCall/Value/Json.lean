import ProtectedCall.Json.Record
import ProtectedCall.Value

/-!
# Values as JSON

* `Value.toJson`, `Value.jsonText`: how a value is written. A float that is not finite becomes
  null.
* `Value.ofJson?`: the value of a document, if it holds no object.
* `Value.read`, `Value.ofJsonText`: the value of a text.
-/

namespace ProtectedCall

open Decimal Json

namespace Value

mutual

/-- The document of a value. -/
def toJson : Value → Json
  | .null => .null
  | .integer n => Json.ofInt n.toInt
  | .float x => Json.ofFloat x
  | .text s => .string s
  | .boolean b => .boolean b
  | .list items => .array (toJsonItems items)

/-- The documents of the items. -/
def toJsonItems : List Value → List Json
  | [] => []
  | item :: items => toJson item :: toJsonItems items

end

/-- The JSON text of a value. -/
def jsonText (v : Value) : String := v.toJson.text

/-- The value of a number: whole numbers beyond 64 signed bits are floats. -/
def ofNumber : Number → Value
  | .integer n =>
    if Int64.minValue.toInt ≤ n && n ≤ Int64.maxValue.toInt then .integer (Int64.ofInt n)
    else .float (Float.ofInt n)
  | .float x => .float x

mutual

/-- The value of a document that holds no object and only numbers in range. -/
def ofJson? : Json → Option Value
  | .null => some .null
  | .boolean b => some (.boolean b)
  | .number written => (Number.ofNumeral? written).map ofNumber
  | .string s => some (.text s)
  | .array items => (ofJsonItems? items).map .list
  | .object _ => none

/-- The values of all items. -/
def ofJsonItems? : List Json → Option (List Value)
  | [] => some []
  | item :: items => do return (← ofJson? item) :: (← ofJsonItems? items)

end

/-- Reads a value. The whole document is read before an object in it counts as a fault. -/
def read : Reader Value := fun cs => do
  let (document, rest) ← readDocument nestingLimit cs
  match ofJson? document with
  | some value => return (value, rest)
  | none => .error .objectInValue

/-- The value of a JSON text. -/
def ofJsonText (text : String) : Except Fault Value := readWhole read text

end Value

end ProtectedCall
