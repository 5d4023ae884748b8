import ProtectedCall.Decimal.Layout
import ProtectedCall.Text.Quoted

/-!
# Values

* `Value`: an argument or a result of a call.
* `Value.kindName`, `Value.asInteger?` and so on: what kind of value it is.
* `Value.equal`: equality in which floats compare as numbers, so that one that is no number differs
  from itself and the two zeros are equal.
* `Value.text`: the plain text of a value.
-/

namespace ProtectedCall

open Decimal Text

/-- An argument or a result of a call. -/
inductive Value where
  | null
  | integer (value : Int64)
  | float (value : Float)
  | text (value : String)
  | boolean (value : Bool)
  | list (items : List Value)
  deriving Inhabited

namespace Value

/-- The name of a value's kind. -/
def kindName : Value → String
  | .null => "NULL"
  | .integer _ => "INTEGER"
  | .float _ => "FLOAT"
  | .text _ => "TEXT"
  | .boolean _ => "BOOLEAN"
  | .list _ => "LIST"

/-- The whole number. -/
def asInteger? : Value → Option Int64
  | .integer n => some n
  | _ => none

/-- The float, or the one nearest to a whole number. -/
def asFloat? : Value → Option Float
  | .float x => some x
  | .integer n => some (Float.ofInt n.toInt)
  | _ => none

/-- The text. -/
def asText? : Value → Option String
  | .text s => some s
  | _ => none

/-- The truth value. -/
def asBoolean? : Value → Option Bool
  | .boolean b => some b
  | _ => none

/-- The items. -/
def asList? : Value → Option (List Value)
  | .list items => some items
  | _ => none

/-- The value is null. -/
def isNull : Value → Bool
  | .null => true
  | _ => false

mutual

/-- Equality of values, where floats compare as numbers. -/
def equal : Value → Value → Bool
  | .null, .null => true
  | .integer a, .integer b => a == b
  | .float a, .float b => a == b
  | .text a, .text b => a == b
  | .boolean a, .boolean b => a == b
  | .list as, .list bs => equalItems as bs
  | _, _ => false

/-- Equality of lists of values, item by item. -/
def equalItems : List Value → List Value → Bool
  | [], [] => true
  | a :: as, b :: bs => equal a b && equalItems as bs
  | _, _ => false

end

instance : BEq Value := ⟨equal⟩

/-- In plain text no float has an exponent, a whole one has no point, and ties go up. -/
def floatLayout : Layout where
  tie := .up
  positional _ := true
  wholeFraction := []
  exponentSign := .unsigned

/-- The plain text of a float. -/
def floatText (x : Float) : String :=
  match Double.ofFloat x with
  | .nan => "NaN"
  | .infinite negative => if negative then "-inf" else "inf"
  | x => ((floatLayout.ofDouble? x).map Numeral.text).getD ""

mutual

/-- The plain text of a value. Texts stand as they are, also inside lists. -/
def display : Value → String
  | .null => "NULL"
  | .integer n => (Numeral.ofInt n.toInt).text
  | .float x => floatText x
  | .text s => s
  | .boolean b => if b then "true" else "false"
  | .list items => "[" ++ joinWith ", " (displayItems items) ++ "]"

/-- The plain texts of the items. -/
def displayItems : List Value → List String
  | [] => []
  | item :: items => display item :: displayItems items

end

end Value

end ProtectedCall
