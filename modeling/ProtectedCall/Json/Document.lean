import ProtectedCall.Json.Number
import ProtectedCall.Json.Scanner

/-!
# Reading documents

* `items`, `members`: what stands inside a list or an object, each part read by one reader.
* `readDocument`: a whole document. Lists and objects nest at most `nestingLimit` deep, and every
  numeral must be in range.
* `readWhole`: a text that holds one value and blanks, and nothing else.
-/

namespace ProtectedCall.Json

open Decimal

/-- How deep lists and objects may nest in a document. -/
def nestingLimit : Nat := 127

/-- Reads items up to the closing bracket, which is left. Every item takes a character, so a
text's length suffices for `count`. -/
def itemsUpTo {α : Type} (item : Reader α) : Nat → Bool → Reader (List α)
  | 0, _, _ => .error .endInList
  | count + 1, first, cs => do
    let (more, cs) ← hasItem first cs
    if more then
      let (x, cs) ← item cs
      let (xs, cs) ← itemsUpTo item count false cs
      return (x :: xs, cs)
    else return ([], cs)

/-- Reads a list behind its opening bracket. -/
def items {α : Type} (item : Reader α) : Reader (List α) := fun cs => do
  let (xs, cs) ← itemsUpTo item (cs.length + 1) true cs
  return (xs, ← closeList cs)

/-- Reads members up to and with the closing brace. Every member takes a character. -/
def membersUpTo {α : Type} (value : Reader α) : Nat → Bool → Reader (List (String × α))
  | 0, _, _ => .error .endInObject
  | count + 1, first, cs => do
    let (more, cs) ← hasMember first cs
    if more then
      let (name, cs) ← stringBody cs
      let (x, cs) ← value (← colon cs)
      let (xs, cs) ← membersUpTo value count false cs
      return ((name, x) :: xs, cs)
    else return ([], cs)

/-- Reads an object behind its opening brace. -/
def members {α : Type} (value : Reader α) : Reader (List (String × α)) := fun cs =>
  membersUpTo value (cs.length + 1) true cs

/-- Reads a numeral and the number that it stands for. -/
def readNumber (cs : List Char) : Except Fault ((Numeral × Number) × List Char) := do
  let (written, rest) ← numeral cs
  match Number.ofNumeral? written with
  | some value => return ((written, value), rest)
  | none => .error .numberOutOfRange

/-- Reads a document that nests at most `depth` deep. -/
def readDocument (depth : Nat) : Reader Json := fun cs =>
  match skipBlanks cs with
  | [] => .error .endInValue
  | c :: rest =>
    if c = 'n' then do return (.null, ← word "ull".toList rest)
    else if c = 't' then do return (.boolean true, ← word "rue".toList rest)
    else if c = 'f' then do return (.boolean false, ← word "alse".toList rest)
    else if c = '-' || c.isDigit then do
      let ((written, _), rest) ← readNumber (c :: rest)
      return (.number written, rest)
    else if c = '"' then do
      let (value, rest) ← stringBody rest
      return (.string value, rest)
    else if c = '[' then
      match depth with
      | 0 => .error .tooDeep
      | depth + 1 => do
        let (found, rest) ← items (readDocument depth) rest
        return (.array found, rest)
    else if c = '\x7b' then
      match depth with
      | 0 => .error .tooDeep
      | depth + 1 => do
        let (found, rest) ← members (readDocument depth) rest
        return (.object found, rest)
    else .error .expectedValue

/-- Reads a text that holds one value and blanks, and nothing else. -/
def readWhole {α : Type} (reader : Reader α) (text : String) : Except Fault α := do
  let (found, rest) ← reader text.toList
  if (skipBlanks rest).isEmpty then return found else .error .trailingCharacters

end ProtectedCall.Json
