import ProtectedCall.Decimal.Numeral

/-!
# JSON documents

* `Json`: a document. Numbers are numerals as written, members keep their order and repetitions.
* `Json.chars`, `Json.text`: the compact text of a document, without blanks.
* `quotedChars`: a string between quotes, where only quotes, backslashes and controls are escaped.
-/

namespace ProtectedCall

open Decimal

/-- A JSON document. -/
inductive Json where
  | null
  | boolean (value : Bool)
  | number (written : Numeral)
  | string (value : String)
  | array (items : List Json)
  | object (members : List (String × Json))
  deriving Inhabited

namespace Json

/-- A hexadecimal digit in lower case. -/
def hexDigit (n : Nat) : Char := Nat.digitChar n

/-- The characters that stand for `c` inside a string. A control has a short form or is written as
`\u00` and two digits. -/
def escapeChar (c : Char) : List Char :=
  if c = '"' then ['\\', '"']
  else if c = '\\' then ['\\', '\\']
  else if c = '\x08' then ['\\', 'b']
  else if c = '\t' then ['\\', 't']
  else if c = '\n' then ['\\', 'n']
  else if c = '\x0c' then ['\\', 'f']
  else if c = '\r' then ['\\', 'r']
  else if c < ' ' then ['\\', 'u', '0', '0', hexDigit (c.toNat / 16), hexDigit (c.toNat % 16)]
  else [c]

/-- A string between quotes. -/
def quotedChars (s : String) : List Char := '"' :: (s.toList.flatMap escapeChar ++ ['"'])

mutual

/-- The characters of a document. -/
def chars : Json → List Char
  | .null => ['n', 'u', 'l', 'l']
  | .boolean true => ['t', 'r', 'u', 'e']
  | .boolean false => ['f', 'a', 'l', 's', 'e']
  | .number written => written.chars
  | .string value => quotedChars value
  | .array [] => ['[', ']']
  | .array (item :: items) => '[' :: (item.chars ++ furtherItems items)
  | .object [] => ['\x7b', '\x7d']
  | .object ((name, value) :: members) =>
    '\x7b' :: (quotedChars name ++ ':' :: (value.chars ++ furtherMembers members))

/-- The characters behind an item of an array. -/
def furtherItems : List Json → List Char
  | [] => [']']
  | item :: items => ',' :: (item.chars ++ furtherItems items)

/-- The characters behind a member of an object. -/
def furtherMembers : List (String × Json) → List Char
  | [] => ['\x7d']
  | (name, value) :: members =>
    ',' :: (quotedChars name ++ ':' :: (value.chars ++ furtherMembers members))

end

/-- The compact text of a document. -/
def text (j : Json) : String := String.ofList j.chars

/-- The plain document of a whole number. -/
def ofInt (n : Int) : Json := .number (Numeral.ofInt n)

end Json

end ProtectedCall
