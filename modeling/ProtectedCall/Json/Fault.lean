import ProtectedCall.Decimal.Numeral
import ProtectedCall.Text.Quoted

/-!
# Faults of JSON reading

A text is read from left to right in one pass, and reading stops at the first fault.

* `Found`: the kind of value that stands where another one was expected.
* `Fault`: why reading stopped, either in the text or in what it says.
* `Fault.message`: the wording.
-/

namespace ProtectedCall.Json

open Decimal Text

/-- A value that stands where another kind was expected. Numbers are kept as they are printed. -/
inductive Found where
  | null
  | boolean (value : Bool)
  | integer (value : Int)
  | float (written : Numeral)
  | string (value : String)
  | sequence
  | map
  deriving DecidableEq, Inhabited

/-- The wording for a value in the wrong place. -/
def Found.text : Found → String
  | .null => "null"
  | .boolean value => "boolean `" ++ (if value then "true" else "false") ++ "`"
  | .integer value => "integer `" ++ (Numeral.ofInt value).text ++ "`"
  | .float written => "floating point `" ++ written.text ++ "`"
  | .string value => "string " ++ quote value
  | .sequence => "sequence"
  | .map => "map"

/-- Why reading stopped. -/
inductive Fault where
  | endInValue
  | endInString
  | endInList
  | endInObject
  | expectedValue
  | expectedWord
  | expectedColon
  | expectedListEnd
  | expectedObjectEnd
  | keyNotString
  | trailingComma
  | trailingCharacters
  | controlCharacter
  | invalidEscape
  | loneSurrogate
  | unfinishedSurrogate
  | invalidNumber
  | numberOutOfRange
  | tooDeep
  | wrongKind (found : Found) (expected : String)
  | duplicateField (name : String)
  | missingField (name : String)
  | wrongLength (length : Nat) (expected : String)
  | unknownChoice (name : String) (choices : List String)
  | objectInValue
  deriving DecidableEq, Inhabited

/-- A name between backticks. -/
def tick (name : String) : String := "`" ++ name ++ "`"

/-- The choices there are, in words. -/
def choicesText : List String → String
  | [a] => tick a
  | [a, b] => tick a ++ " or " ++ tick b
  | choices => "one of " ++ joinWith ", " (choices.map tick)

/-- The wording of a fault. -/
def Fault.message : Fault → String
  | .endInValue => "EOF while parsing a value"
  | .endInString => "EOF while parsing a string"
  | .endInList => "EOF while parsing a list"
  | .endInObject => "EOF while parsing an object"
  | .expectedValue => "expected value"
  | .expectedWord => "expected ident"
  | .expectedColon => "expected `:`"
  | .expectedListEnd => "expected `,` or `]`"
  | .expectedObjectEnd => "expected `,` or `\x7d`"
  | .keyNotString => "key must be a string"
  | .trailingComma => "trailing comma"
  | .trailingCharacters => "trailing characters"
  | .controlCharacter => "control character (\\u0000-\\u001F) found while parsing a string"
  | .invalidEscape => "invalid escape"
  | .loneSurrogate => "lone leading surrogate in hex escape"
  | .unfinishedSurrogate => "unexpected end of hex escape"
  | .invalidNumber => "invalid number"
  | .numberOutOfRange => "number out of range"
  | .tooDeep => "recursion limit exceeded"
  | .wrongKind found expected => "invalid type: " ++ found.text ++ ", expected " ++ expected
  | .duplicateField name => "duplicate field " ++ tick name
  | .missingField name => "missing field " ++ tick name
  | .wrongLength length expected =>
    "invalid length " ++ (Numeral.ofInt length).text ++ ", expected " ++ expected
  | .unknownChoice name choices =>
    "unknown variant " ++ tick name ++ ", expected " ++ choicesText choices
  | .objectInValue => "data did not match any variant of untagged enum Value"

/-- Reads something at the front of a text and returns what is left of it. -/
abbrev Reader (α : Type) := List Char → Except Fault (α × List Char)

end ProtectedCall.Json
