import ProtectedCall.Json.Fault

/-!
# The pieces of a JSON text

* `skipBlanks`: the blanks that may stand between two pieces.
* `word`: the rest of a literal word such as `null`.
* `numeral`: a numeral, its parts kept as written.
* `stringBody`: a string behind its opening quote, escapes resolved.
* `hasItem`, `hasMember`: whether a list or an object goes on.
-/

namespace ProtectedCall.Json

open Decimal

/-- The four blanks of JSON. -/
def isBlank (c : Char) : Bool := c = ' ' || c = '\n' || c = '\t' || c = '\r'

/-- The text without its leading blanks. -/
def skipBlanks (cs : List Char) : List Char := cs.dropWhile isBlank

/-- Reads the characters of a literal word. -/
def word : List Char → List Char → Except Fault (List Char)
  | [], rest => .ok rest
  | _ :: _, [] => .error .endInValue
  | expected :: more, c :: rest => if c = expected then word more rest else .error .expectedWord

/-! ## Numerals -/

/-- Reads at least one digit. -/
def digits (cs : List Char) : Except Fault (List Char × List Char) :=
  match cs.takeWhile Char.isDigit with
  | [] => .error (if cs.isEmpty then .endInValue else .invalidNumber)
  | found => .ok (found, cs.dropWhile Char.isDigit)

/-- Reads whole digits: a zero stands alone. -/
def wholeDigits (cs : List Char) : Except Fault (List Char × List Char) := do
  let (found, rest) ← digits cs
  if found.head? = some '0' && found.length != 1 then .error .invalidNumber
  else return (found, rest)

/-- Reads the digits behind a decimal point, if there is one. -/
def fractionDigits : List Char → Except Fault (List Char × List Char)
  | '.' :: rest => digits rest
  | cs => .ok ([], cs)

/-- Reads an exponent, if there is one. -/
def exponent? (cs : List Char) : Except Fault (Option Exponent × List Char) :=
  match cs with
  | c :: rest =>
    if c = 'e' || c = 'E' then do
      let (sign, rest) : ExponentSign × List Char := match rest with
        | '+' :: rest => (.plus, rest)
        | '-' :: rest => (.minus, rest)
        | rest => (.unsigned, rest)
      let (found, rest) ← digits rest
      return (some { capital := c = 'E', sign, digits := found }, rest)
    else .ok (none, cs)
  | [] => .ok (none, [])

/-- Reads a numeral. -/
def numeral (cs : List Char) : Except Fault (Numeral × List Char) := do
  let (negative, cs) : Bool × List Char := match cs with
    | '-' :: rest => (true, rest)
    | _ => (false, cs)
  let (whole, cs) ← wholeDigits cs
  let (fraction, cs) ← fractionDigits cs
  let (exponent, cs) ← exponent? cs
  return ({ negative, whole, fraction, exponent }, cs)

/-! ## Strings -/

/-- The value of a hexadecimal digit of either case. -/
def hexValue? (c : Char) : Option Nat :=
  if c.isDigit then some (c.toNat - '0'.toNat)
  else if 'a' ≤ c && c ≤ 'f' then some (c.toNat - 'a'.toNat + 10)
  else if 'A' ≤ c && c ≤ 'F' then some (c.toNat - 'A'.toNat + 10)
  else none

/-- The number of bytes that the characters take in UTF-8. -/
def byteCount (cs : List Char) : Nat := cs.foldl (fun n c => n + c.utf8Size) 0

/-- Reads a 16-bit unit of four hexadecimal digits. A text ends early when fewer than four bytes
are left of it. -/
def hexUnit (cs : List Char) : Except Fault Nat :=
  match (cs.take 4).mapM hexValue? with
  | some [a, b, c, d] => .ok (((a * 16 + b) * 16 + c) * 16 + d)
  | _ => .error (if byteCount (cs.take 4) < 4 then .endInString else .invalidEscape)

/-- A unit that begins a surrogate pair. -/
def isLeading (unit : Nat) : Bool := 0xd800 ≤ unit && unit ≤ 0xdbff

/-- A unit that ends a surrogate pair. -/
def isTrailing (unit : Nat) : Bool := 0xdc00 ≤ unit && unit ≤ 0xdfff

/-- The code point of a surrogate pair. -/
def ofPair (leading trailing : Nat) : Char :=
  Char.ofNat (0x10000 + (leading - 0xd800) * 0x400 + (trailing - 0xdc00))

/-- Expects a backslash and a `u` in front of the second unit of a pair. -/
def pairMark (cs : List Char) : Except Fault Unit :=
  match cs with
  | '\\' :: 'u' :: _ => .ok ()
  | [] | ['\\'] => .error .endInString
  | _ => .error .unfinishedSurrogate

/-- The character that the units behind `\u` stand for, and how many characters it takes to write
them. -/
def unicodeEscape (cs : List Char) : Except Fault (Char × Nat) := do
  let unit ← hexUnit cs
  if isTrailing unit then .error .loneSurrogate
  else if isLeading unit then do
    pairMark (cs.drop 4)
    let second ← hexUnit (cs.drop 6)
    if isTrailing second then return (ofPair unit second, 10) else .error .loneSurrogate
  else return (Char.ofNat unit, 4)

/-- The character that a one-letter escape stands for. -/
def shortEscape? : Char → Option Char
  | '"' => some '"'
  | '\\' => some '\\'
  | '/' => some '/'
  | 'b' => some '\x08'
  | 'f' => some '\x0c'
  | 'n' => some '\n'
  | 'r' => some '\r'
  | 't' => some '\t'
  | _ => none

/-- The character that an escape stands for, and how many characters it takes to write it behind
the backslash. -/
def escape : List Char → Except Fault (Char × Nat)
  | [] => .error .endInString
  | c :: rest =>
    match shortEscape? c with
    | some meant => .ok (meant, 1)
    | none => if c = 'u' then do
        let (meant, length) ← unicodeEscape rest
        return (meant, length + 1)
      else .error .invalidEscape

/-- Reads a string up to its closing quote. The first `escaped` characters belong to an escape that
is resolved already. -/
def stringChars (escaped : Nat) : List Char → Except Fault (List Char × List Char)
  | [] => .error .endInString
  | c :: rest =>
    match escaped with
    | escaped + 1 => stringChars escaped rest
    | 0 =>
      if c = '"' then .ok ([], rest)
      else if c = '\\' then do
        let (meant, length) ← escape rest
        let (more, rest) ← stringChars length rest
        return (meant :: more, rest)
      else if c < ' ' then .error .controlCharacter
      else do
        let (more, rest) ← stringChars 0 rest
        return (c :: more, rest)

/-- Reads a string behind its opening quote. -/
def stringBody : Reader String := fun cs => do
  let (found, rest) ← stringChars 0 cs
  return (String.ofList found, rest)

/-! ## Lists and objects -/

/-- Whether another item follows; the text is left in front of it or of the closing bracket. -/
def hasItem (first : Bool) (cs : List Char) : Except Fault (Bool × List Char) :=
  match skipBlanks cs with
  | [] => .error .endInList
  | c :: rest =>
    if c = ']' then .ok (false, c :: rest)
    else if first then .ok (true, c :: rest)
    else if c = ',' then
      match skipBlanks rest with
      | [] => .error .endInValue
      | d :: rest => if d = ']' then .error .trailingComma else .ok (true, d :: rest)
    else .error .expectedListEnd

/-- Closes a list. -/
def closeList (cs : List Char) : Except Fault (List Char) :=
  match skipBlanks cs with
  | [] => .error .endInList
  | c :: rest =>
    if c = ']' then .ok rest
    else if c = ',' && (skipBlanks rest).head? = some ']' then .error .trailingComma
    else .error .trailingCharacters

/-- Whether another member follows; the text is left behind the opening quote of its name or
behind the closing brace. -/
def hasMember (first : Bool) (cs : List Char) : Except Fault (Bool × List Char) :=
  match skipBlanks cs with
  | [] => .error .endInObject
  | c :: rest =>
    if c = '\x7d' then .ok (false, rest)
    else if first then
      if c = '"' then .ok (true, rest) else .error .keyNotString
    else if c = ',' then
      match skipBlanks rest with
      | [] => .error .endInValue
      | d :: rest =>
        if d = '"' then .ok (true, rest)
        else if d = '\x7d' then .error .trailingComma
        else .error .keyNotString
    else .error .expectedObjectEnd

/-- Reads the colon between a name and its value. -/
def colon (cs : List Char) : Except Fault (List Char) :=
  match skipBlanks cs with
  | [] => .error .endInObject
  | c :: rest => if c = ':' then .ok rest else .error .expectedColon

end ProtectedCall.Json
