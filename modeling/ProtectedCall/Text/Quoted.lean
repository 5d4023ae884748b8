import ProtectedCall.Text.Printable

/-!
# Quoted text in messages

* `quote`: a text between double quotes, readable on one line whatever it holds.
* `joinWith`: texts side by side with a separator between two neighbours.
* `quoteList`: a list of quoted texts between brackets.
-/

namespace ProtectedCall.Text

/-- The texts side by side, with `separator` between two neighbours. -/
def joinWith (separator : String) (texts : List String) : String :=
  String.ofList (List.intercalate separator.toList (texts.map String.toList))

/-- The lower-case hexadecimal digits of a number, without leading zeros. -/
def hexDigits (n : Nat) : List Char := Nat.toDigits 16 n

/-- The characters that stand for `c` between quotes. A quote, a backslash and the usual controls
have a two-character form; any other character that is not printable is written by number. -/
def quoteChar (c : Char) : List Char :=
  if c = '\x00' then ['\\', '0']
  else if c = '\t' then ['\\', 't']
  else if c = '\r' then ['\\', 'r']
  else if c = '\n' then ['\\', 'n']
  else if c = '\\' then ['\\', '\\']
  else if c = '"' then ['\\', '"']
  else if isPrintable c then [c]
  else ['\\', 'u', '\x7b'] ++ hexDigits c.toNat ++ ['\x7d']

/-- The text between double quotes. -/
def quote (s : String) : String :=
  String.ofList ('"' :: (s.toList.flatMap quoteChar ++ ['"']))

/-- The quoted texts between brackets. -/
def quoteList (texts : List String) : String :=
  "[" ++ joinWith ", " (texts.map quote) ++ "]"

end ProtectedCall.Text
